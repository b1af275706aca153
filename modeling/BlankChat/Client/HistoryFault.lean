import BlankChat.Client.HistoryFile

/-!
# Histories that are not written to their end — `conversation_cache.cpp`

Neither `AppendMessage` nor `UpdateMessageStatus` looks at the stream after writing to it. An
append that breaks off leaves the beginning of a line, and the next append goes on in that line.
An update that breaks off leaves a temporary file that lacks its last entries, and the rename puts
it in the place of the history all the same.

What the library makes of a line that two appends have written is its own affair: of `Simdjson`
only this is used, that a line is read back and that the beginning of a line is rejected.

Main results: `history_update_exact`, what is left after an update, and `history_survives`, what
is left after any number of calls.
-/

namespace BlankChat.Client

open Lib BlankChat.Core ConversationCache

/-! ## Calls that break off -/

/-- What the operating system does in one call; the output gets to the file up to its byte
`written`. -/
structure Interruption extends FileAccess where
  written : ℕ
deriving DecidableEq

namespace CacheDirectory

def appendInterrupted (dir : CacheDirectory) (io : Interruption) (entry : CacheEntry) :
    CacheDirectory :=
  if io.appends && validName (getFilePathForAlias entry.aliasName) then
    { dir with
      files := dir.files.insertOrAssign (getFilePathForAlias entry.aliasName)
        (dir.content entry.aliasName ++ (entryText entry).take io.written) }
  else dir

def updateInterrupted (J : Simdjson) (dir : CacheDirectory) (io : Interruption)
    (aliasName messageId : Bytes) (newStatus : MessageStatus) : CacheDirectory :=
  let history := (dir.loadHistory J io.toFileAccess aliasName).getD []
  if history.any fun e => e.id = messageId then
    if io.writesTemp && validName (tempPathFor aliasName) then
      let text := ((setStatus messageId newStatus history).flatMap entryText).take io.written
      let files := dir.files.insertOrAssign (tempPathFor aliasName) text
      -- whether the output was complete is not asked
      if io.renames then
        { dir with
          files := Map.insertOrAssign (getFilePathForAlias aliasName) text
            (files.erase (tempPathFor aliasName)) }
      else { dir with files := files }
    else dir
  else dir

def stepInterrupted (J : Simdjson) (dir : CacheDirectory) :
    Interruption × CacheCall → CacheDirectory
  | (io, .append entry) => dir.appendInterrupted io entry
  | (io, .update aliasName messageId newStatus) =>
      dir.updateInterrupted J io aliasName messageId newStatus

def runInterrupted (J : Simdjson) (dir : CacheDirectory)
    (calls : List (Interruption × CacheCall)) : CacheDirectory :=
  calls.foldl (stepInterrupted J) dir

end CacheDirectory

/-- The output of an update. -/
def updateOutput (J : Simdjson) (dir : CacheDirectory) (a messageId : Bytes)
    (newStatus : MessageStatus) : Bytes :=
  (setStatus messageId newStatus (parseLines J (dir.content a))).flatMap entryText

/-- All output of the call gets to its file. -/
def Finishes (J : Simdjson) (dir : CacheDirectory) : Interruption × CacheCall → Prop
  | (io, .append entry) => (entryText entry).length ≤ io.written
  | (io, .update aliasName messageId newStatus) =>
      (updateOutput J dir aliasName messageId newStatus).length ≤ io.written

/-- **A call that gets to its end is the call of `HistoryFile`.** -/
theorem stepInterrupted_finishes {J : Simdjson} {dir : CacheDirectory} {io : Interruption}
    {call : CacheCall} (h : Finishes J dir (io, call)) :
    dir.stepInterrupted J (io, call) = dir.step J (io.toFileAccess, call) := by
  cases call with
  | append entry =>
      unfold CacheDirectory.stepInterrupted CacheDirectory.appendInterrupted
      dsimp only
      rw [List.take_of_length_le h]
      rfl
  | update a messageId newStatus =>
      unfold CacheDirectory.stepInterrupted CacheDirectory.updateInterrupted CacheDirectory.step
        CacheDirectory.updateMessageStatus
      dsimp only
      split
      · next hany =>
          have hload : (dir.loadHistory J io.toFileAccess a).getD [] =
              parseLines J (dir.content a) := by
            rw [loadHistory_eq] at hany ⊢
            split at hany
            · cases hany
            · next hlength =>
                rw [if_neg hlength]
                cases hreads : io.reads with
                | true => rfl
                | false =>
                    rw [hreads] at hany
                    cases hany
          have hall : ((setStatus messageId newStatus (parseLines J (dir.content a))).flatMap
              entryText).take io.written =
              (setStatus messageId newStatus (parseLines J (dir.content a))).flatMap entryText :=
            List.take_of_length_le h
          rw [hload, hall]
      · rfl

/-! ## What is loaded from a text -/

/-- The number of lines in a text that was cut off; the last line break may be missing. -/
def completeLines (written : ℕ) : List CacheEntry → ℕ
  | [] => 0
  | e :: l =>
      if (lineText (entryObject e)).length ≤ written then
        completeLines (written - (entryText e).length) l + 1
      else 0

theorem length_lineText_pos (o : LineObject) : 0 < (lineText o).length := Nat.succ_pos _

theorem length_entryText (e : CacheEntry) :
    (entryText e).length = (lineText (entryObject e)).length + 1 := by
  rw [entryText_eq, List.length_append, List.length_singleton]

section Texts

variable (J : Simdjson)

theorem length_parseLines_le {text : Bytes} (h : 0x0A ∉ text) :
    (parseLines J text).length ≤ 1 := by
  unfold parseLines
  rw [List.splitOn_eq_singleton h]
  exact List.length_filterMap_le _ _

/-- **From a text that was cut off its complete lines are loaded.** -/
theorem parseLines_take (written : ℕ) (l : List CacheEntry) :
    parseLines J ((l.flatMap entryText).take written) =
      (l.take (completeLines written l)).filter CacheEntry.readable := by
  induction l generalizing written with
  | nil => simp
  | cons e l ih =>
      have hlength := length_entryText e
      rw [List.flatMap_cons]
      by_cases hline : (lineText (entryObject e)).length ≤ written
      · rw [completeLines, if_pos hline, List.take_succ_cons, ← List.singleton_append,
          List.filter_append, ← ih]
        by_cases hbreak : (entryText e).length ≤ written
        · rw [List.take_append, List.take_of_length_le hbreak, parseLines_entryText J]
        · -- all of the line but its line break
          have htake : (entryText e ++ l.flatMap entryText).take written =
              lineText (entryObject e) := by
            rw [List.take_append_of_le_length (by omega), entryText_eq,
              List.take_append_of_le_length (by omega), List.take_of_length_le hline]
          have hrest : written - (entryText e).length = 0 := by omega
          rw [htake, parseLines_lineText J, hrest, List.take_zero, parseLines_nil J, List.append_nil]
      · have hlt : written < (lineText (entryObject e)).length := Nat.lt_of_not_le hline
        have htake : (entryText e ++ l.flatMap entryText).take written =
            (lineText (entryObject e)).take written := by
          rw [List.take_append_of_le_length (by omega), entryText_eq,
            List.take_append_of_le_length (by omega)]
        rw [htake, completeLines, if_neg hline, List.take_zero, List.filter_nil]
        by_cases hempty : (lineText (entryObject e)).take written = []
        · rw [hempty, parseLines_nil J]
        · have hbreak : 0x0A ∉ (lineText (entryObject e)).take written := fun hmem =>
            not_mem_lineText (wellFormedLine_entryObject e) (List.mem_of_mem_take hmem)
          rw [parseLines_of_line J hbreak hempty, parseCacheEntry_cut J e hlt]
          rfl

end Texts

theorem completeLines_le (written : ℕ) (l : List CacheEntry) :
    completeLines written l ≤ l.length := by
  induction l generalizing written with
  | nil => exact le_rfl
  | cons e l ih =>
      rw [completeLines]
      split
      · exact Nat.succ_le_succ (ih _)
      · exact Nat.zero_le _

/-- All lines are complete if only the last line break is missing. -/
theorem completeLines_eq_iff (written : ℕ) (l : List CacheEntry) :
    completeLines written l = l.length ↔ (l.flatMap entryText).length ≤ written + 1 := by
  induction l generalizing written with
  | nil => simp [completeLines]
  | cons e l ih =>
      have hlength := length_entryText e
      rw [completeLines, List.flatMap_cons, List.length_append, List.length_cons]
      split
      · next hline =>
          rw [Nat.add_right_cancel_iff, ih]
          cases l with
          | nil =>
              simp only [List.flatMap_nil, List.length_nil]
              omega
          | cons e' l =>
              have hnext := length_entryText e'
              have hpos := length_lineText_pos (entryObject e')
              rw [List.flatMap_cons, List.length_append]
              omega
      · next hline => omega

/-! ## The files after a call -/

section Calls

variable (J : Simdjson) (dir : CacheDirectory) (io : Interruption)

theorem content_appendInterrupted (entry : CacheEntry) (b : Bytes) :
    (dir.appendInterrupted io entry).content b =
      if b = entry.aliasName ∧ io.canAppend entry.aliasName then
        dir.content b ++ (entryText entry).take io.written
      else dir.content b := by
  show CacheDirectory.content (if io.canAppend entry.aliasName then _ else dir) b = _
  by_cases hopens : io.canAppend entry.aliasName = true
  · rw [if_pos hopens, content_insert]
    by_cases hb : b = entry.aliasName
    · rw [if_pos hb, if_pos ⟨hb, hopens⟩, hb]
    · rw [if_neg hb, if_neg fun h => hb h.1]
  · rw [if_neg hopens, if_neg fun h => hopens h.2]

/-- The temporary file takes the place of the history file. -/
def Replaces (a messageId : Bytes) : Prop :=
  io.canUpdate a = true ∧ ∃ e ∈ parseLines J (dir.content a), e.id = messageId

instance (a messageId : Bytes) : Decidable (Replaces J dir io a messageId) :=
  inferInstanceAs (Decidable (_ ∧ _))

theorem content_updateInterrupted (a messageId : Bytes) (newStatus : MessageStatus) (b : Bytes) :
    (dir.updateInterrupted J io a messageId newStatus).content b =
      if b = a ∧ Replaces J dir io a messageId then
        (updateOutput J dir a messageId newStatus).take io.written
      else dir.content b := by
  have hupdate : dir.updateInterrupted J io a messageId newStatus =
      dir.replaced J io.toFileAccess a (fun history => history.any fun e => e.id = messageId)
        (fun history => ((setStatus messageId newStatus history).flatMap entryText).take
          io.written) := rfl
  rw [hupdate, content_replaced rfl]
  refine if_congr (and_congr_right' (and_congr_right' ?_)) rfl rfl
  simp only [List.any_eq_true, decide_eq_true_eq]

end Calls

/-- **What is left after an update.** If the temporary file takes the place of the history, the
entries are loaded whose lines had been written, and no others; if it does not, the history is
what it was. So where all entries can be read, none is lost if and only if the temporary file
was complete, up to its last line break. Other histories are not touched. -/
theorem history_update_exact (J : Simdjson) (dir : CacheDirectory) (io : Interruption)
    (a messageId : Bytes) (newStatus : MessageStatus) :
    let history := parseLines J (dir.content a)
    let updated := dir.updateInterrupted J io a messageId newStatus
    (parseLines J (updated.content a) =
      if Replaces J dir io a messageId then
        ((setStatus messageId newStatus history).take
          (completeLines io.written (setStatus messageId newStatus history))).filter
            CacheEntry.readable
      else history) ∧
    ((∀ e ∈ history, e.readable = true) →
      ((parseLines J (updated.content a)).map withoutStatus = history.map withoutStatus ↔
        (Replaces J dir io a messageId →
          (updateOutput J dir a messageId newStatus).length ≤ io.written + 1))) ∧
    ∀ b, b ≠ a → updated.content b = dir.content b := by
  intro history updated
  have hcontent : updated.content a = if Replaces J dir io a messageId then
      (updateOutput J dir a messageId newStatus).take io.written else dir.content a := by
    rw [content_updateInterrupted]
    exact if_congr (and_iff_right rfl) rfl rfl
  have hload : parseLines J (updated.content a) = if Replaces J dir io a messageId then
      ((setStatus messageId newStatus history).take
        (completeLines io.written (setStatus messageId newStatus history))).filter
          CacheEntry.readable
      else history := by
    rw [hcontent]
    split
    · exact parseLines_take J _ _
    · rfl
  refine ⟨hload, ?_, ?_⟩
  · intro hread
    rw [hload]
    split
    · next hreplaces =>
        have hset : ∀ e ∈ setStatus messageId newStatus history, e.readable = true :=
          forall_mem_setStatus hread fun e he => he
        rw [List.filter_eq_self.mpr fun e he => hset e (List.mem_of_mem_take he),
          ← map_withoutStatus_setStatus messageId newStatus history, List.map_take,
          List.take_eq_self_iff, List.length_map, imp_iff_right hreplaces, updateOutput,
          ← completeLines_eq_iff]
        exact ⟨(completeLines_le _ _).antisymm, Eq.ge⟩
    · next hreplaces => exact iff_of_true rfl fun h => absurd h hreplaces
  · intro b hb
    rw [content_updateInterrupted, if_neg fun h => hb h.1]

/-- A directory with the history of `oddEntry` and `plainEntry`. -/
def bobDirectory : CacheDirectory where
  files := Map.insertOrAssign (getFilePathForAlias (ascii "bob"))
    ([oddEntry, plainEntry].flatMap entryText) ∅

theorem bobDirectory_load :
    parseLines eager (bobDirectory.content (ascii "bob")) = [oddEntry, plainEntry] := by
  unfold bobDirectory
  rw [content_insert, if_pos rfl, parseLines_flatMap eager]
  exact List.filter_eq_self.mpr (by decide)

/-- **A full disk.** Nothing of the temporary file is written, and it is renamed: the history
is lost. -/
theorem history_update_full_disk :
    (parseLines eager ((bobDirectory.updateInterrupted eager { written := 0 } (ascii "bob")
        (ascii "7f") .delivered).content (ascii "bob"))).map withoutStatus ≠
      [oddEntry, plainEntry].map withoutStatus := by
  have hread : ∀ e ∈ parseLines eager (bobDirectory.content (ascii "bob")), e.readable = true := by
    rw [bobDirectory_load]
    decide
  have hreplaces : Replaces eager bobDirectory { written := 0 } (ascii "bob")
      (ascii "7f") := by
    refine ⟨canUpdate_default (by decide), plainEntry, ?_, rfl⟩
    rw [bobDirectory_load]
    exact List.mem_cons_of_mem _ List.mem_cons_self
  intro hkept
  rw [← bobDirectory_load] at hkept
  have hwritten := ((history_update_exact eager bobDirectory { written := 0 } (ascii "bob")
    (ascii "7f") .delivered).2.1 hread).mp hkept hreplaces
  have hpos := length_lineText_pos (entryObject oddEntry)
  rw [updateOutput, bobDirectory_load, setStatus, if_neg (by decide), List.flatMap_cons,
    List.length_append, length_entryText] at hwritten
  dsimp only at hwritten
  omega

/-! ## The lines that are over -/

/-- What is appended now starts a line. -/
def AtLineStart (text : Bytes) : Prop := text = [] ∨ text.getLast? = some 0x0A

instance (text : Bytes) : Decidable (AtLineStart text) := inferInstanceAs (Decidable (_ ∨ _))

theorem atLineStart_break (text : Bytes) : AtLineStart (text ++ [0x0A]) :=
  .inr (List.getLast?_concat ..)

theorem atLineStart_flatMap (l : List CacheEntry) : AtLineStart (l.flatMap entryText) := by
  induction l using List.reverseRecOn with
  | nil => exact .inl rfl
  | append_singleton l e _ =>
      rw [List.flatMap_append, List.flatMap_singleton, entryText_eq, ← List.append_assoc]
      exact atLineStart_break _

theorem exists_lines (text : Bytes) :
    ∃ done tail, text = done ++ tail ∧ AtLineStart done ∧ 0x0A ∉ tail := by
  induction text using List.reverseRecOn with
  | nil => exact ⟨[], [], rfl, .inl rfl, List.not_mem_nil⟩
  | append_singleton text c ih =>
      obtain ⟨done, tail, rfl, hdone, htail⟩ := ih
      by_cases hc : c = 0x0A
      · subst hc
        exact ⟨done ++ tail ++ [0x0A], [], (List.append_nil _).symm, atLineStart_break _,
          List.not_mem_nil⟩
      · refine ⟨done, tail ++ [c], List.append_assoc _ _ _, hdone, ?_⟩
        rw [List.mem_append, List.mem_singleton, not_or]
        exact ⟨htail, Ne.symm hc⟩

theorem parseLines_append (J : Simdjson) {done : Bytes} (h : AtLineStart done)
    (text : Bytes) : parseLines J (done ++ text) = parseLines J done ++ parseLines J text := by
  rcases h with rfl | h
  · rfl
  · obtain ⟨lines, rfl⟩ := List.getLast?_eq_some_iff.mp h
    rw [List.append_assoc, List.singleton_append, parseLines_append_break J, parseLines_append_break J,
      parseLines_nil J, List.append_nil]

/-- What an append writes: a line to its end, or the beginning of one. -/
theorem take_entryText (e : CacheEntry) (written : ℕ) :
    ((entryText e).length ≤ written ∧
        (entryText e).take written = lineText (entryObject e) ++ [0x0A]) ∨
      ¬ (entryText e).length ≤ written ∧ 0x0A ∉ (entryText e).take written := by
  by_cases hwritten : (entryText e).length ≤ written
  · left
    rw [List.take_of_length_le hwritten, entryText_eq]
    exact ⟨by rwa [← entryText_eq], rfl⟩
  · right
    have hlength := length_entryText e
    refine ⟨hwritten, ?_⟩
    rw [entryText_eq, List.take_append_of_le_length (by omega)]
    exact fun hmem =>
      not_mem_lineText (wellFormedLine_entryObject e) (List.mem_of_mem_take hmem)

theorem length_load_append_le (J : Simdjson) (text : Bytes) (e : CacheEntry) (written : ℕ) :
    (parseLines J (text ++ (entryText e).take written)).length ≤ (parseLines J text).length + 1 := by
  obtain ⟨done, tail, rfl, hdone, htail⟩ := exists_lines text
  have hline : (parseLines J (tail ++ (entryText e).take written)).length ≤ 1 := by
    rcases take_entryText e written with ⟨-, heq⟩ | ⟨-, hbreak⟩
    · rw [heq, ← List.append_assoc, parseLines_append_break J, parseLines_nil J, List.append_nil]
      apply length_parseLines_le J
      rw [List.mem_append, not_or]
      exact ⟨htail, not_mem_lineText (wellFormedLine_entryObject e)⟩
    · apply length_parseLines_le J
      rw [List.mem_append, not_or]
      exact ⟨htail, hbreak⟩
  rw [List.append_assoc, parseLines_append J hdone, parseLines_append J hdone, List.length_append,
    List.length_append]
  omega

/-! ## Entries that stay -/

/-- The entries are on lines that are over, whatever their status. -/
structure Settled (J : Simdjson) (kept : List CacheEntry) (text : Bytes) : Prop where
  readable : ∀ e ∈ kept, e.readable = true
  lines : ∃ done tail, text = done ++ tail ∧ AtLineStart done ∧ 0x0A ∉ tail ∧
    (kept.map withoutStatus).Sublist ((parseLines J done).map withoutStatus)

namespace Settled

variable {J : Simdjson} {kept : List CacheEntry} {text : Bytes}

theorem start (J : Simdjson) (text : Bytes) : Settled J [] text where
  readable := by simp
  lines := by
    obtain ⟨done, tail, htext, hdone, htail⟩ := exists_lines text
    exact ⟨done, tail, htext, hdone, htail, List.nil_sublist _⟩

theorem loaded (h : Settled J kept text) :
    (kept.map withoutStatus).Sublist ((parseLines J text).map withoutStatus) := by
  obtain ⟨done, tail, rfl, hdone, -, hkept⟩ := h.lines
  rw [parseLines_append J hdone, List.map_append]
  exact hkept.trans (List.sublist_append_left _ _)

/-- An append that breaks off does not touch the lines that are over. -/
theorem append_torn (h : Settled J kept text) {more : Bytes} (hmore : 0x0A ∉ more) :
    Settled J kept (text ++ more) where
  readable := h.readable
  lines := by
    obtain ⟨done, tail, rfl, hdone, htail, hkept⟩ := h.lines
    refine ⟨done, tail ++ more, List.append_assoc _ _ _, hdone, ?_, hkept⟩
    rw [List.mem_append, not_or]
    exact ⟨htail, hmore⟩

theorem append_line (h : Settled J kept text) (line : Bytes) :
    Settled J kept (text ++ (line ++ [0x0A])) where
  readable := h.readable
  lines := by
    obtain ⟨done, tail, rfl, hdone, -, hkept⟩ := h.lines
    refine ⟨done ++ tail ++ (line ++ [0x0A]), [], (List.append_nil _).symm, ?_,
      List.not_mem_nil, ?_⟩
    · rw [← List.append_assoc]
      exact atLineStart_break _
    · rw [List.append_assoc, parseLines_append J hdone, List.map_append]
      exact hkept.trans (List.sublist_append_left _ _)

theorem append_entry (h : Settled J kept text) (hstart : AtLineStart text) {e : CacheEntry}
    (he : e.readable = true) : Settled J (kept ++ [e]) (text ++ entryText e) where
  readable := by
    intro e' he'
    rcases List.mem_append.mp he' with he' | he'
    · exact h.readable e' he'
    · rw [List.mem_singleton.mp he']
      exact he
  lines := by
    refine ⟨text ++ entryText e, [], (List.append_nil _).symm, ?_, List.not_mem_nil, ?_⟩
    · rw [entryText_eq, ← List.append_assoc]
      exact atLineStart_break _
    · have hload : parseLines J (text ++ entryText e) = parseLines J text ++ [e] := by
        have hline := parseLines_flatMap J [e]
        rw [List.flatMap_singleton, List.filter_singleton, he] at hline
        rw [parseLines_append J hstart, hline]
        rfl
      rw [hload, List.map_append, List.map_append]
      exact h.loaded.append (List.Sublist.refl _)

/-- An update that gets to its end keeps what is loaded and can be written. -/
theorem update (h : Settled J kept text) (messageId : Bytes) (newStatus : MessageStatus) :
    Settled J kept ((setStatus messageId newStatus (parseLines J text)).flatMap entryText) where
  readable := h.readable
  lines := by
    refine ⟨_, [], (List.append_nil _).symm, atLineStart_flatMap _, List.not_mem_nil, ?_⟩
    have hloaded := h.loaded.filter CacheEntry.readable
    have hkept : (kept.map withoutStatus).filter CacheEntry.readable = kept.map withoutStatus := by
      apply List.filter_eq_self.mpr
      intro e he
      obtain ⟨e', he', rfl⟩ := List.mem_map.mp he
      exact h.readable e' he'
    rw [hkept, ← map_withoutStatus_setStatus messageId newStatus (parseLines J text),
      List.filter_map] at hloaded
    rw [parseLines_flatMap J]
    exact hloaded

end Settled

/-! ## Runs -/

def appendsTo (a : Bytes) : Interruption × CacheCall → Bool
  | (_, .append entry) => entry.aliasName = a
  | _ => false

/-- The entry that a call appends to the history of `a`, to its end and on a line of its own. -/
def intactEntry (a : Bytes) (dir : CacheDirectory) :
    Interruption × CacheCall → List CacheEntry
  | (io, .append entry) =>
      if entry.aliasName = a ∧ io.canAppend a ∧ (entryText entry).length ≤ io.written ∧
          entry.readable ∧ AtLineStart (dir.content a) then [entry]
      else []
  | _ => []

def intact (J : Simdjson) (a : Bytes) :
    CacheDirectory → List (Interruption × CacheCall) → List CacheEntry
  | _, [] => []
  | dir, call :: calls =>
      intactEntry a dir call ++ intact J a (dir.stepInterrupted J call) calls

/-- The call does not put an unfinished file in the place of the history of `a`. -/
def KeepsLines (J : Simdjson) (a : Bytes) (dir : CacheDirectory) :
    Interruption × CacheCall → Prop
  | (_, .append _) => True
  | (io, .update aliasName messageId newStatus) =>
      aliasName = a → Replaces J dir io a messageId →
        (updateOutput J dir a messageId newStatus).length ≤ io.written

def KeepLines (J : Simdjson) (a : Bytes) :
    CacheDirectory → List (Interruption × CacheCall) → Prop
  | _, [] => True
  | dir, call :: calls =>
      KeepsLines J a dir call ∧ KeepLines J a (dir.stepInterrupted J call) calls

section Runs

variable {J : Simdjson} {a : Bytes} {dir : CacheDirectory}

theorem length_load_step (call : Interruption × CacheCall) :
    (parseLines J ((dir.stepInterrupted J call).content a)).length ≤
      (parseLines J (dir.content a)).length + if appendsTo a call then 1 else 0 := by
  obtain ⟨io, call⟩ := call
  cases call with
  | append entry =>
      show (parseLines J ((dir.appendInterrupted io entry).content a)).length ≤ _
      rw [content_appendInterrupted]
      by_cases ha : a = entry.aliasName ∧ io.canAppend entry.aliasName = true
      · have happends : appendsTo a (io, .append entry) = true := decide_eq_true ha.1.symm
        rw [if_pos ha, if_pos happends]
        exact length_load_append_le J _ _ _
      · rw [if_neg ha]
        exact Nat.le_add_right _ _
  | update b messageId newStatus =>
      show (parseLines J ((dir.updateInterrupted J io b messageId newStatus).content a)).length ≤ _
      rw [content_updateInterrupted]
      split
      · next h =>
          obtain ⟨rfl, -⟩ := h
          have hlength : (setStatus messageId newStatus (parseLines J (dir.content a))).length =
              (parseLines J (dir.content a)).length := by
            simpa using congrArg List.length
              (map_withoutStatus_setStatus messageId newStatus (parseLines J (dir.content a)))
          rw [updateOutput, parseLines_take J]
          refine (List.length_filter_le _ _).trans ((List.length_take_le _ _).trans ?_)
          refine (completeLines_le _ _).trans ?_
          rw [hlength]
          exact Nat.le_add_right _ _
      · exact Nat.le_add_right _ _

theorem settled_step {kept : List CacheEntry} (h : Settled J kept (dir.content a))
    {call : Interruption × CacheCall} (hcall : KeepsLines J a dir call) :
    Settled J (kept ++ intactEntry a dir call) ((dir.stepInterrupted J call).content a) := by
  obtain ⟨io, call⟩ := call
  cases call with
  | append entry =>
      show Settled J (kept ++ if _ then [entry] else []) ((dir.appendInterrupted io entry).content a)
      rw [content_appendInterrupted]
      by_cases ha : a = entry.aliasName ∧ io.canAppend entry.aliasName = true
      · rw [if_pos ha]
        split
        · next hintact =>
            obtain ⟨-, -, hwritten, hread, hstart⟩ := hintact
            rw [List.take_of_length_le hwritten]
            exact h.append_entry hstart hread
        · rw [List.append_nil]
          rcases take_entryText entry io.written with ⟨-, heq⟩ | ⟨-, hbreak⟩
          · rw [heq]
            exact h.append_line _
          · exact h.append_torn hbreak
      · have hnone : ¬ (entry.aliasName = a ∧ io.canAppend a ∧
            (entryText entry).length ≤ io.written ∧ entry.readable ∧
            AtLineStart (dir.content a)) := by
          rintro ⟨rfl, hopens, -⟩
          exact ha ⟨rfl, hopens⟩
        rw [if_neg ha, if_neg hnone, List.append_nil]
        exact h
  | update b messageId newStatus =>
      show Settled J (kept ++ []) ((dir.updateInterrupted J io b messageId newStatus).content a)
      rw [content_updateInterrupted, List.append_nil]
      split
      · next hreplaces =>
          obtain ⟨rfl, hreplaces⟩ := hreplaces
          rw [List.take_of_length_le (hcall rfl hreplaces)]
          exact h.update messageId newStatus
      · exact h

theorem settled_run {kept : List CacheEntry} (h : Settled J kept (dir.content a))
    {calls : List (Interruption × CacheCall)} (hcalls : KeepLines J a dir calls) :
    Settled J (kept ++ intact J a dir calls) ((dir.runInterrupted J calls).content a) := by
  induction calls generalizing dir kept with
  | nil =>
      rw [intact, List.append_nil]
      exact h
  | cons call calls ih =>
      obtain ⟨hcall, hrest⟩ := hcalls
      rw [intact, ← List.append_assoc]
      exact ih (settled_step h hcall) hrest

theorem length_load_run (calls : List (Interruption × CacheCall)) :
    (parseLines J ((dir.runInterrupted J calls).content a)).length ≤
      (parseLines J (dir.content a)).length + calls.countP (appendsTo a) := by
  induction calls generalizing dir with
  | nil => exact le_rfl
  | cons call calls ih =>
      have hstep : (parseLines J ((dir.stepInterrupted J call).content a)).length ≤ _ :=
        length_load_step call
      rw [List.countP_cons]
      have hrest := @ih (dir.stepInterrupted J call)
      show (parseLines J (((dir.stepInterrupted J call).runInterrupted J calls).content a)).length ≤ _
      omega

end Runs

/-- **What is left after any number of calls**, each of which may break off anywhere. No call
but an append adds an entry, and an append adds one at most. An entry that was appended to its
end, on a line of its own, stays, in its order and with all that it has but its status, whatever
the appends around it have left behind; unless an update puts an unfinished file in the place of
the history. -/
theorem history_survives (J : Simdjson) (a : Bytes) (dir : CacheDirectory)
    (calls : List (Interruption × CacheCall)) :
    let loaded := parseLines J ((dir.runInterrupted J calls).content a)
    loaded.length ≤ (parseLines J (dir.content a)).length + calls.countP (appendsTo a) ∧
    (KeepLines J a dir calls →
      ((intact J a dir calls).map withoutStatus).Sublist (loaded.map withoutStatus)) := by
  intro loaded
  refine ⟨length_load_run calls, ?_⟩
  intro hcalls
  exact (settled_run (Settled.start J _) hcalls).loaded

/-- Of four appends the second breaks off after five bytes; the third goes on in its line. -/
def tornAppends : List (Interruption × CacheCall) :=
  [({ written := 1000 }, .append plainEntry), ({ written := 5 }, .append oddEntry),
    ({ written := 1000 }, .append plainEntry), ({ written := 1000 }, .append oddEntry)]

theorem history_survives_torn :
    intact eager (ascii "bob") {} tornAppends = [plainEntry, oddEntry] ∧
      ([plainEntry, oddEntry].map withoutStatus).Sublist
        ((parseLines eager ((CacheDirectory.runInterrupted eager {} tornAppends).content
          (ascii "bob"))).map withoutStatus) := by
  have hintact : intact eager (ascii "bob") {} tornAppends = [plainEntry, oddEntry] := by
    decide +kernel
  refine ⟨hintact, ?_⟩
  rw [← hintact]
  exact (history_survives eager (ascii "bob") {} tornAppends).2
    ⟨trivial, trivial, trivial, trivial, trivial⟩

end BlankChat.Client
