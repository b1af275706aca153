import BlankChat.Client.ConversationCache
import BlankChat.Lib.Run

/-!
# The history file under two threads — `conversation_cache.cpp`

`AppendMessage` opens the file and appends one line. `UpdateMessageStatus` reads the
whole file, changes one entry of its copy and renames the copy over the file. The
command thread appends in `HandleSend`; the network thread appends in
`HandleTextMessage` and updates in `ProcessAckFrame`. The two share no lock, so an
append of the command thread may come between the read and the rename of an update.

Main result: `history_complete_iff`. The entries of the file are those that were
appended, in order, exactly if no append came in between; `entry_lost` is a run in
which one did.
-/

namespace BlankChat.Client

open Lib BlankChat.Core ConversationCache

/-- The file of one alias. `update` is the copy of an update between its read and its
rename; `appended` is not in the source, it lists what was appended. -/
structure History : Type where
  lines : List CacheEntry := []
  update : Option (List CacheEntry) := none
  appended : List CacheEntry := []
deriving DecidableEq

/-- The entries the client writes for an alias. -/
abbrev HistoryEntry (aliasName : Bytes) : Type := { e : CacheEntry // Written aliasName e }

inductive HistoryEvent (aliasName : Bytes) : Type where
  /-- The command thread appends. -/
  | append (e : HistoryEntry aliasName)
  /-- The network thread appends. -/
  | receive (e : HistoryEntry aliasName)
  /-- The network thread reads the file for an update. -/
  | read (messageId : Bytes) (newStatus : MessageStatus)
  /-- The network thread renames its copy over the file. -/
  | rename

namespace History

variable {a : Bytes}

def appendLine (h : History) (e : CacheEntry) : History :=
  { h with lines := h.lines ++ [e], appended := h.appended ++ [e] }

/-- The network thread does one thing at a time: it neither appends nor reads while an
update is under way. -/
def step (h : History) : HistoryEvent a → History
  | .append e => h.appendLine e
  | .receive e => if h.update = none then h.appendLine e else h
  | .read messageId newStatus =>
      let history := h.lines.filter CacheEntry.readable
      if h.update = none ∧ history.any (fun e => e.id = messageId) then
        { h with update := some (setStatus messageId newStatus history) }
      else h
  | .rename =>
      match h.update with
      | none => h
      | some copy => { h with lines := copy, update := none }

def run (h : History) (events : List (HistoryEvent a)) : History := events.foldl step h

/-! ## The two calls, one after the other -/

theorem append_eq_appendMessage (cache : ConversationCache) (e : HistoryEntry a) :
    (step { lines := cache.lines a } (.append e)).lines = (cache.appendMessage e).lines a := by
  obtain ⟨e, rfl, hid⟩ := e
  rw [lines_appendMessage]
  rfl

/-- `UpdateMessageStatus` is a read followed by a rename. -/
theorem read_rename_eq_updateMessageStatus (cache : ConversationCache) (messageId : Bytes)
    (newStatus : MessageStatus) :
    (run { lines := cache.lines a } [(.read messageId newStatus : HistoryEvent a), .rename]).lines =
      (cache.updateMessageStatus a messageId newStatus).lines a := by
  rw [lines_updateMessageStatus]
  unfold run updatedLines
  simp only [List.foldl_cons, List.foldl_nil, step, true_and]
  by_cases hfound : (List.filter CacheEntry.readable (cache.lines a)).any fun e => e.id = messageId
  · rw [if_pos hfound, if_pos hfound]
  · rw [if_neg hfound, if_neg hfound]

/-! ## What a step does to the entries -/

/-- The entries that the file will have after the update that is under way. -/
def kept (h : History) : List CacheEntry := h.update.getD h.lines

/-- All entries are as the client writes them, and no more of them than were appended. -/
structure Sound (a : Bytes) (h : History) : Prop where
  written : ∀ e ∈ h.lines, Written a e
  kept_written : ∀ e ∈ h.kept, Written a e
  kept_length : h.kept.length ≤ h.appended.length

/-- The file and the copy hold what was appended, in order. -/
structure Complete (h : History) : Prop where
  lines : h.lines.map withoutStatus = h.appended.map withoutStatus
  kept : h.kept.map withoutStatus = h.appended.map withoutStatus

/-- The copy that is to replace the file lacks an entry. -/
def Short (h : History) : Prop := h.kept.length < h.appended.length

/-- The command thread appends while no update is under way. -/
def AppendsOutside (h : History) : HistoryEvent a → Prop
  | .append _ => h.update = none
  | _ => True

instance (h : History) : (event : HistoryEvent a) → Decidable (AppendsOutside h event)
  | .append _ => inferInstanceAs (Decidable (h.update = none))
  | .receive _ | .read _ _ | .rename => inferInstanceAs (Decidable True)

theorem kept_of_update_none {h : History} (hnone : h.update = none) : h.kept = h.lines := by
  rw [kept, hnone]
  rfl

theorem kept_appendLine_of_none {h : History} (hnone : h.update = none) (e : CacheEntry) :
    (h.appendLine e).kept = h.lines ++ [e] :=
  kept_of_update_none (h := h.appendLine e) hnone

/-- An append during an update goes to the file, not to the copy. -/
theorem kept_appendLine_of_some {h : History} {copy : List CacheEntry}
    (hsome : h.update = some copy) (e : CacheEntry) : (h.appendLine e).kept = h.kept := by
  unfold kept appendLine
  rw [hsome]
  rfl

theorem filter_of_any {l : List CacheEntry} (hl : ∀ e ∈ l, Written a e)
    {messageId : Bytes} (h : (l.filter CacheEntry.readable).any (fun e => e.id = messageId)) :
    l.filter CacheEntry.readable = l := by
  rw [filter_readable hl] at h ⊢
  split at h
  · next ha => rw [if_pos ha]
  · cases h

/-- **All that a step can do**, seen from the entries: append a line to the file (the
copy of an update under way does not get it), or leave all entries as they are but for
a status. -/
theorem step_cases {h : History} (hsound : Sound a h) (event : HistoryEvent a) :
    (∃ e : HistoryEntry a, step h event = h.appendLine e ∧
      (h.update = none ∨ ¬ AppendsOutside h event)) ∨
    (AppendsOutside h event ∧ (step h event).appended = h.appended ∧
      ((step h event).lines = h.lines ∨ (step h event).lines = h.kept) ∧
      ((step h event).kept = h.kept ∨
        (h.update = none ∧ ∃ id st, (step h event).kept = setStatus id st h.lines))) := by
  cases event with
  | append e =>
      refine .inl ⟨e, rfl, ?_⟩
      exact Decidable.or_not_self (h.update = none)
  | receive e =>
      by_cases hnone : h.update = none
      · exact .inl ⟨e, if_pos hnone, .inl hnone⟩
      · refine .inr ⟨trivial, ?_⟩
        rw [show step h (.receive e) = h from if_neg hnone]
        exact ⟨rfl, .inl rfl, .inl rfl⟩
  | read id st =>
      refine .inr ⟨trivial, ?_⟩
      unfold step
      dsimp only
      split
      · next hread =>
          refine ⟨rfl, .inl rfl, .inr ⟨hread.1, id, st, ?_⟩⟩
          show setStatus id st (h.lines.filter CacheEntry.readable) = _
          rw [filter_of_any hsound.written hread.2]
      · exact ⟨rfl, .inl rfl, .inl rfl⟩
  | rename =>
      refine .inr ⟨trivial, ?_⟩
      unfold step
      dsimp only
      split
      · exact ⟨rfl, .inl rfl, .inl rfl⟩
      · next copy hcopy =>
          have hkept : h.kept = copy := by rw [kept, hcopy]; rfl
          exact ⟨rfl, .inr hkept.symm, .inl hkept.symm⟩

theorem setStatus_length (id : Bytes) (st : MessageStatus) (l : List CacheEntry) :
    (setStatus id st l).length = l.length := by
  have h := congrArg List.length (map_withoutStatus_setStatus id st l)
  rwa [List.length_map, List.length_map] at h

theorem Sound.step {h : History} (hsound : Sound a h) (event : HistoryEvent a) :
    Sound a (h.step event) := by
  rcases step_cases hsound event with ⟨e, heq, -⟩ | ⟨-, happended, hlines, hkept⟩
  · have hwritten : ∀ e' ∈ h.lines ++ [e.val], Written a e' := by
      intro e' he'
      rcases List.mem_append.mp he' with he' | he'
      · exact hsound.written e' he'
      · rw [List.mem_singleton.mp he']
        exact e.property
    have hlength : (h.appendLine e).appended.length = h.appended.length + 1 :=
      List.length_append
    rw [heq]
    cases hupdate : h.update with
    | none =>
        refine ⟨hwritten, (kept_appendLine_of_none hupdate e.val).symm ▸ hwritten, ?_⟩
        rw [kept_appendLine_of_none hupdate, hlength, List.length_append,
          ← kept_of_update_none hupdate]
        exact Nat.succ_le_succ hsound.kept_length
    | some copy =>
        refine ⟨hwritten, ?_, ?_⟩
        · rw [kept_appendLine_of_some hupdate]
          exact hsound.kept_written
        · rw [kept_appendLine_of_some hupdate, hlength]
          exact hsound.kept_length.trans (Nat.le_succ _)
  · constructor
    · rcases hlines with heq | heq <;> rw [heq]
      · exact hsound.written
      · exact hsound.kept_written
    · rcases hkept with heq | ⟨-, id, st, heq⟩ <;> rw [heq]
      · exact hsound.kept_written
      · exact forall_mem_setStatus hsound.written fun e he => he
    · rw [happended]
      rcases hkept with heq | ⟨hnone, id, st, heq⟩ <;> rw [heq]
      · exact hsound.kept_length
      · rw [setStatus_length, ← kept_of_update_none hnone]
        exact hsound.kept_length

theorem Complete.step {h : History} (hsound : Sound a h) {event : HistoryEvent a}
    (houtside : AppendsOutside h event) (hcomplete : Complete h) : Complete (h.step event) := by
  rcases step_cases hsound event with ⟨e, heq, hnone | hin⟩ | ⟨-, happended, hlines, hkept⟩
  · have hmap : (h.lines ++ [e.val]).map withoutStatus =
        (h.appended ++ [e.val]).map withoutStatus := by
      rw [List.map_append, List.map_append, hcomplete.lines]
    rw [heq]
    refine ⟨hmap, ?_⟩
    rw [kept_appendLine_of_none hnone]
    exact hmap
  · exact absurd houtside hin
  · constructor
    · rw [happended]
      rcases hlines with heq | heq <;> rw [heq]
      · exact hcomplete.lines
      · exact hcomplete.kept
    · rw [happended]
      rcases hkept with heq | ⟨-, id, st, heq⟩ <;> rw [heq]
      · exact hcomplete.kept
      · rw [map_withoutStatus_setStatus]
        exact hcomplete.lines

/-- An append during an update makes the copy short. -/
theorem short_of_inside {h : History} (hsound : Sound a h) {event : HistoryEvent a}
    (hinside : ¬ AppendsOutside h event) : Short (h.step event) := by
  cases event with
  | append e =>
      obtain ⟨copy, hcopy⟩ := Option.ne_none_iff_exists'.mp hinside
      show (h.appendLine e).kept.length < (h.appendLine e).appended.length
      rw [kept_appendLine_of_some hcopy]
      refine Nat.lt_of_le_of_lt hsound.kept_length ?_
      show h.appended.length < (h.appended ++ [_]).length
      simp
  | receive e => exact absurd trivial hinside
  | read id st => exact absurd trivial hinside
  | rename => exact absurd trivial hinside

theorem Short.step {h : History} (hsound : Sound a h) (event : HistoryEvent a)
    (hshort : Short h) : Short (h.step event) := by
  unfold Short at hshort ⊢
  rcases step_cases hsound event with ⟨e, heq, -⟩ | ⟨-, happended, -, hkept⟩
  · have hlength : (h.appendLine e).appended.length = h.appended.length + 1 :=
      List.length_append
    rw [heq, hlength]
    cases hupdate : h.update with
    | none =>
        rw [kept_appendLine_of_none hupdate, List.length_append, ← kept_of_update_none hupdate]
        exact Nat.succ_lt_succ hshort
    | some copy =>
        rw [kept_appendLine_of_some hupdate]
        exact hshort.trans (Nat.lt_succ_self _)
  · rw [happended]
    rcases hkept with heq | ⟨hnone, id, st, heq⟩ <;> rw [heq]
    · exact hshort
    · rw [setStatus_length, ← kept_of_update_none hnone]
      exact hshort

/-! ## Whole runs -/

/-- **When the history is complete.** When no update is under way at the end, the file
has every entry that was appended, once and in order, exactly if the command thread
never appended between the read and the rename of an update. -/
theorem history_complete_iff (events : List (HistoryEvent a))
    (hend : (run {} events).update = none) :
    (run {} events).lines.map withoutStatus = (run {} events).appended.map withoutStatus ↔
      Run.Along step AppendsOutside {} events := by
  have hstart : Sound a {} :=
    ⟨List.forall_mem_nil _, List.forall_mem_nil _, le_rfl⟩
  constructor
  · intro hlines
    have hbreak : ∀ h event, Sound a h → ¬ AppendsOutside h event → Short (step h event) :=
      fun h event hsound => short_of_inside hsound
    refine Run.along_of_not_damaged (P := Sound a) (fun h event hsound => hsound.step event) hbreak
      (fun h event hsound hshort => hshort.step hsound event) hstart ?_
    show ¬ (run {} events).kept.length < (run {} events).appended.length
    have hlength := congrArg List.length hlines
    rw [List.length_map, List.length_map] at hlength
    rw [kept_of_update_none hend, hlength]
    exact lt_irrefl _
  · intro houtside
    have hcomplete := houtside.induction (P := fun h => Sound a h ∧ Complete h)
      (fun h event hout hinv => ⟨hinv.1.step event, hinv.2.step hinv.1 hout⟩)
      ⟨hstart, rfl, rfl⟩
    exact hcomplete.2.lines

/-- An entry for the runs below. -/
def sampleEntry (id : String) (h : Written (ascii "bob") ⟨ascii id, 0, .outbound, ascii "bob",
    .pendingAck, ascii id⟩) : HistoryEntry (ascii "bob") :=
  ⟨⟨ascii id, 0, .outbound, ascii "bob", .pendingAck, ascii id⟩, h⟩

/-- Two texts, the acknowledgement of the first one processed before the second. -/
def acknowledgedBetween : List (HistoryEvent (ascii "bob")) :=
  [.append (sampleEntry "01" ⟨rfl, by decide⟩), .read (ascii "01") .delivered, .rename,
    .append (sampleEntry "02" ⟨rfl, by decide⟩)]

theorem history_complete_iff_between :
    (run {} acknowledgedBetween).lines.map withoutStatus =
      (run {} acknowledgedBetween).appended.map withoutStatus :=
  (history_complete_iff acknowledgedBetween (by decide)).mpr (by decide)

/-- The same with the second text sent while the acknowledgement is processed. -/
def acknowledgedMeanwhile : List (HistoryEvent (ascii "bob")) :=
  [.append (sampleEntry "01" ⟨rfl, by decide⟩), .read (ascii "01") .delivered,
    .append (sampleEntry "02" ⟨rfl, by decide⟩), .rename]

/-- **The second text is lost.** -/
theorem entry_lost :
    (run {} acknowledgedMeanwhile).update = none ∧
      (run {} acknowledgedMeanwhile).appended.map CacheEntry.id = [ascii "01", ascii "02"] ∧
      (run {} acknowledgedMeanwhile).lines.map CacheEntry.id = [ascii "01"] := by
  decide

end History

end BlankChat.Client
