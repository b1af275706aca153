import BlankChat.Client.ConversationCache
import BlankChat.Core.Simdjson

/-!
# The text of the history files — `conversation_cache.cpp`

`AppendMessage` opens the file of the entry's alias and appends one line to it,
`LoadHistory` splits the file into lines and parses each of them, `UpdateMessageStatus`
writes the changed history to a temporary file and renames that over the history file.
The files are byte strings here, known by their names in the cache directory. The alias
is part of the name as it was typed, so not every alias has files (`validName`). What
else the operating system decides is data of each call: whether a file can be opened, and
whether the rename succeeds. A NUL byte ends a name; what is said about names is meant of
aliases without one.

`represents_run` says that the files hold the lines of `ConversationCache` whatever is
appended or updated, so what was proved about the cache is true of its files, for the
aliases that have some. Main result: `history_round_trip`. For an alias that has files,
what was appended is loaded, entry by entry and in order, and an update changes the status
of the first entry with its id and nothing else; for any other, something is lost.
-/

namespace BlankChat.Client

open Lib BlankChat.Core ConversationCache

/-! ## Entries and lines -/

def dirToString : MessageDirection → Bytes
  | .inbound => ascii "inbound"
  | .outbound => ascii "outbound"

def stringToDir (str : Bytes) : MessageDirection :=
  if str = ascii "inbound" then .inbound else .outbound

def statusToString : MessageStatus → Bytes
  | .pendingAck => ascii "pending_ack"
  | .delivered => ascii "delivered"
  | .failed => ascii "failed"

def stringToStatus (str : Bytes) : MessageStatus :=
  if str = ascii "pending_ack" then .pendingAck
  else if str = ascii "delivered" then .delivered
  else .failed

/-- The line of an entry; `AppendMessage` and `UpdateMessageStatus` write the same text. -/
def entryText (entry : CacheEntry) : Bytes :=
  ascii "\x7b\"id\":\"" ++ escapeJsonString entry.id ++ ascii "\"," ++
    (ascii "\"timestamp\":" ++ decimal entry.timestamp.toNat ++ ascii ",") ++
    (ascii "\"direction\":\"" ++ dirToString entry.direction ++ ascii "\",") ++
    (ascii "\"alias\":\"" ++ escapeJsonString entry.aliasName ++ ascii "\",") ++
    (ascii "\"status\":\"" ++ statusToString entry.status ++ ascii "\",") ++
    (ascii "\"payload\":\"" ++ encodeHex entry.payload ++ ascii "\"\x7d\n")

/-- The payload of an entry: the bytes of the hex string, or none at all. -/
def decodePayload (hexStr : Bytes) : Bytes :=
  let (ok, payload) := decodeHexToArray hexStr (List.replicate (hexStr.length / 2) 0)
  if ok then payload else []

/-- The entry of an object; a field that is missing keeps its default. -/
def entryOfObject (o : LineObject) : CacheEntry :=
  let entry : CacheEntry := { id := [], aliasName := [], payload := [] }
  let (id, o) := findField (ascii "id") o
  let (timestamp, o) := findField (ascii "timestamp") o
  let (direction, o) := findField (ascii "direction") o
  let (aliasName, o) := findField (ascii "alias") o
  let (status, o) := findField (ascii "status") o
  let (payload, _) := findField (ascii "payload") o
  { id := (getText id).getD entry.id
    timestamp := (getUInt64 timestamp).getD entry.timestamp
    direction := ((getText direction).map stringToDir).getD entry.direction
    aliasName := (getText aliasName).getD entry.aliasName
    status := ((getText status).map stringToStatus).getD entry.status
    payload := ((getText payload).map decodePayload).getD entry.payload }

/-- `ParseCacheEntry`. -/
def parseCacheEntry (J : Simdjson) (line : Bytes) : Option CacheEntry :=
  (J.line line).map entryOfObject

/-- The loop of `LoadHistory`: empty lines and lines that do not parse are skipped. -/
def parseLines (J : Simdjson) (text : Bytes) : List CacheEntry :=
  (text.splitOn 0x0A).filterMap fun line => if line = [] then none else parseCacheEntry J line

/-! ## The cache directory -/

def getFilePathForAlias (aliasName : Bytes) : Bytes :=
  ascii "history_" ++ aliasName ++ ascii ".jsonl"

def tempPathFor (aliasName : Bytes) : Bytes := getFilePathForAlias aliasName ++ ascii ".tmp"

/-- The length of the longest file name. -/
def nameMax : ℕ := 255

/-- A file of the cache directory can have this name: nothing makes directories in it. -/
def validName (name : Bytes) : Bool :=
  decide (name.length ≤ nameMax) && name.all fun c => !decide (c = 0x2F)

/-- A path up to its first slash. -/
def firstPart (name : Bytes) : Bytes := name.takeWhile fun c => !decide (c = 0x2F)

/-- What the operating system does in one call, where the name is valid. -/
structure FileAccess : Type where
  /-- `std::ifstream in(path)`. -/
  reads : Bool := true
  /-- `std::ofstream out(path, std::ios::app)`. -/
  appends : Bool := true
  /-- `std::ofstream out(tempPath, std::ios::trunc)`. -/
  writesTemp : Bool := true
  /-- `std::filesystem::rename(tempPath, path, ec)`. -/
  renames : Bool := true
deriving DecidableEq

/-- The files of the cache directory by name. -/
structure CacheDirectory : Type where
  files : Map Bytes Bytes := ∅

namespace CacheDirectory

/-- The text of the history file; a file that does not exist reads like an empty one. -/
def content (dir : CacheDirectory) (aliasName : Bytes) : Bytes :=
  (dir.files.lookup (getFilePathForAlias aliasName)).getD []

/-- `std::filesystem::exists`. A part of the path that is too long is an error, for which it
throws; behind a directory that does not exist nothing is looked at. -/
def fileExists (dir : CacheDirectory) (name : Bytes) : Option Bool :=
  if nameMax < (firstPart name).length then none else some (dir.files.lookup name).isSome

def appendMessage (dir : CacheDirectory) (io : FileAccess) (entry : CacheEntry) :
    CacheDirectory :=
  if io.appends && validName (getFilePathForAlias entry.aliasName) then
    { dir with
      files := dir.files.insertOrAssign (getFilePathForAlias entry.aliasName)
        (dir.content entry.aliasName ++ entryText entry) }
  else dir

/-- `LoadHistory`; `none` if it throws. -/
def loadHistory (J : Simdjson) (dir : CacheDirectory) (io : FileAccess) (aliasName : Bytes) :
    Option (List CacheEntry) := do
  let found ← dir.fileExists (getFilePathForAlias aliasName)
  if found && io.reads then return parseLines J (dir.content aliasName) else return []

/-- `UpdateMessageStatus`; an exception of `LoadHistory` leaves the files alone. -/
def updateMessageStatus (J : Simdjson) (dir : CacheDirectory) (io : FileAccess)
    (aliasName messageId : Bytes) (newStatus : MessageStatus) : CacheDirectory :=
  let history := (dir.loadHistory J io aliasName).getD []
  if history.any fun e => e.id = messageId then
    if io.writesTemp && validName (tempPathFor aliasName) then
      let text := (setStatus messageId newStatus history).flatMap entryText
      let files := dir.files.insertOrAssign (tempPathFor aliasName) text
      if io.renames then
        { dir with
          files := Map.insertOrAssign (getFilePathForAlias aliasName) text
            (files.erase (tempPathFor aliasName)) }
      else { dir with files := files }
    else dir
  else dir

end CacheDirectory

/-! ## An entry is read back from its line -/

/-- The object whose line is written. -/
def entryObject (e : CacheEntry) : LineObject :=
  [(ascii "id", .string e.id),
    (ascii "timestamp", .number (decimal e.timestamp.toNat)),
    (ascii "direction", .string (dirToString e.direction)),
    (ascii "alias", .string e.aliasName),
    (ascii "status", .string (statusToString e.status)),
    (ascii "payload", .string (encodeHex e.payload))]

theorem plain_dirToString (d : MessageDirection) : plain (dirToString d) = true := by
  cases d <;> decide

theorem plain_statusToString (s : MessageStatus) : plain (statusToString s) = true := by
  cases s <;> decide

@[simp] theorem stringToDir_dirToString (d : MessageDirection) :
    stringToDir (dirToString d) = d := by
  cases d <;> decide

@[simp] theorem stringToStatus_statusToString (s : MessageStatus) :
    stringToStatus (statusToString s) = s := by
  cases s <;> decide

@[simp] theorem decodePayload_encodeHex (payload : Bytes) :
    decodePayload (encodeHex payload) = payload := by
  have hlength : (List.replicate ((encodeHex payload).length / 2) (0 : UInt8)).length =
      payload.length := by
    rw [List.length_replicate, encodeHex_length]
    omega
  unfold decodePayload
  rw [decodeHexToArray_encodeHex hlength]
  rfl

theorem entryText_eq (e : CacheEntry) : entryText e = lineText (entryObject e) ++ [0x0A] := by
  have hdir := escapeJsonString_plain (plain_dirToString e.direction)
  have hstatus := escapeJsonString_plain (plain_statusToString e.status)
  have hpayload := escapeJsonString_plain (plain_encodeHex e.payload)
  unfold entryText entryObject lineText
  simp only [lineMembersText, lineFieldText, lineValueText, hdir, hstatus, hpayload,
    List.append_assoc, List.cons_append, List.nil_append]
  rfl

theorem wellFormedLine_entryObject (e : CacheEntry) : WellFormedLine (entryObject e) := by
  refine ⟨List.cons_ne_nil _ _, ?_⟩
  unfold entryObject
  simp only [List.forall_mem_cons, List.not_mem_nil, false_imp_iff, implies_true, and_true]
  exact ⟨⟨by decide, trivial⟩, ⟨by decide, decimal_ne_nil _, isDigit_decimal _⟩,
    ⟨by decide, trivial⟩, ⟨by decide, trivial⟩, ⟨by decide, trivial⟩, ⟨by decide, trivial⟩⟩

theorem acceptsString_plain {s : Bytes} (hs : plain s = true) : acceptsString s = true := by
  have hvalid : validUtf8 (s ++ []) = validUtf8 [] :=
    validUtf8_ascii (ascii_of_plain hs) []
  rw [List.append_nil] at hvalid
  show (validUtf8 s && escapes s) = true
  rw [hvalid, escapes_plain hs]
  rfl

theorem acceptsLine_entryObject (e : CacheEntry) : acceptsLine (entryObject e) = e.readable := by
  have hdir := acceptsString_plain (plain_dirToString e.direction)
  have hstatus := acceptsString_plain (plain_statusToString e.status)
  have hpayload := acceptsString_plain (plain_encodeHex e.payload)
  unfold acceptsString at hdir hstatus hpayload
  rw [Bool.and_eq_true] at hdir hstatus hpayload
  unfold acceptsLine entryObject CacheEntry.readable acceptsString
  simp only [List.all_cons, List.all_nil, validLineValue, escapesLineValue, escapes, hdir, hstatus,
    hpayload, Bool.and_true, Bool.true_and]
  ac_rfl

theorem entryOfObject_entryObject (e : CacheEntry) : entryOfObject (entryObject e) = e := by
  have hid : findField (ascii "id") (entryObject e) =
      (some (.string e.id), (entryObject e).drop 1) := rfl
  have htimestamp : findField (ascii "timestamp") ((entryObject e).drop 1) =
      (some (.number (decimal e.timestamp.toNat)), (entryObject e).drop 2) := rfl
  have hdirection : findField (ascii "direction") ((entryObject e).drop 2) =
      (some (.string (dirToString e.direction)), (entryObject e).drop 3) := rfl
  have halias : findField (ascii "alias") ((entryObject e).drop 3) =
      (some (.string e.aliasName), (entryObject e).drop 4) := rfl
  have hstatus : findField (ascii "status") ((entryObject e).drop 4) =
      (some (.string (statusToString e.status)), (entryObject e).drop 5) := rfl
  have hpayload : findField (ascii "payload") ((entryObject e).drop 5) =
      (some (.string (encodeHex e.payload)), []) := rfl
  unfold entryOfObject
  simp only [hid, htimestamp, hdirection, halias, hstatus, hpayload, getText, getUInt64_decimal,
    Option.map_some, Option.getD_some, stringToDir_dirToString, stringToStatus_statusToString,
    decodePayload_encodeHex]

section Lines

variable (J : Simdjson)

/-- **An entry is read back from its line**, unless its id or alias is not accepted. -/
theorem parseCacheEntry_lineText (e : CacheEntry) :
    parseCacheEntry J (lineText (entryObject e)) = if e.readable then some e else none := by
  unfold parseCacheEntry
  rw [J.line_whole (wellFormedLine_entryObject e), acceptsLine_entryObject]
  split
  · exact congrArg some (entryOfObject_entryObject e)
  · rfl

theorem parseCacheEntry_cut (e : CacheEntry) {n : ℕ} (hn : n < (lineText (entryObject e)).length) :
    parseCacheEntry J ((lineText (entryObject e)).take n) = none := by
  rw [parseCacheEntry, J.line_cut (wellFormedLine_entryObject e) hn]
  rfl

@[simp] theorem parseLines_nil : parseLines J [] = [] := rfl

theorem parseLines_append_break (text more : Bytes) :
    parseLines J (text ++ 0x0A :: more) = parseLines J text ++ parseLines J more := by
  unfold parseLines
  rw [List.splitOn_append_cons_self, List.filterMap_append]

theorem parseLines_of_line {text : Bytes} (hbreak : 0x0A ∉ text) (hne : text ≠ []) :
    parseLines J text = (parseCacheEntry J text).toList := by
  unfold parseLines
  rw [List.splitOn_eq_singleton hbreak, List.filterMap_cons, if_neg hne]
  cases parseCacheEntry J text <;> rfl

theorem parseLines_lineText (e : CacheEntry) :
    parseLines J (lineText (entryObject e)) = [e].filter CacheEntry.readable := by
  have hbreak := not_mem_lineText (wellFormedLine_entryObject e)
  rw [parseLines_of_line J hbreak (List.cons_ne_nil _ _), parseCacheEntry_lineText,
    List.filter_singleton]
  cases e.readable <;> rfl

theorem parseLines_entryText (e : CacheEntry) (text : Bytes) :
    parseLines J (entryText e ++ text) =
      [e].filter CacheEntry.readable ++ parseLines J text := by
  rw [entryText_eq, List.append_assoc, List.singleton_append, parseLines_append_break,
    parseLines_lineText]

theorem parseLines_flatMap (l : List CacheEntry) :
    parseLines J (l.flatMap entryText) = l.filter CacheEntry.readable := by
  induction l with
  | nil => rfl
  | cons e l ih =>
      rw [List.flatMap_cons, parseLines_entryText, ih, ← List.filter_append,
        List.singleton_append]

end Lines

/-! ## The names -/

theorem validName_iff (name : Bytes) :
    validName name = true ↔ name.length ≤ nameMax ∧ 0x2F ∉ name := by
  rw [validName, Bool.and_eq_true, decide_eq_true_iff, List.all_eq_true]
  refine and_congr_right fun _ => ⟨fun h hmem => ?_, fun h c hc => ?_⟩
  · have hslash := h 0x2F hmem
    rw [decide_eq_true rfl] at hslash
    cases hslash
  · have hne : c ≠ 0x2F := fun heq => h (heq ▸ hc)
    rw [decide_eq_false hne]
    rfl

/-- The alias has a history file, and a temporary one for updates. -/
def HasFiles (aliasName : Bytes) : Prop := validName (tempPathFor aliasName) = true

instance (aliasName : Bytes) : Decidable (HasFiles aliasName) :=
  inferInstanceAs (Decidable (_ = _))

/-- An alias without a slash, and not too long. -/
theorem hasFiles_iff (a : Bytes) : HasFiles a ↔ a.length ≤ 237 ∧ 0x2F ∉ a := by
  rw [HasFiles, validName_iff, tempPathFor, getFilePathForAlias]
  have hlength : (ascii "history_" ++ a ++ ascii ".jsonl" ++ ascii ".tmp").length =
      a.length + 18 := by
    simp only [List.length_append]
    rw [show (ascii "history_").length = 8 from rfl, show (ascii ".jsonl").length = 6 from rfl,
      show (ascii ".tmp").length = 4 from rfl]
    omega
  have hmem : 0x2F ∈ ascii "history_" ++ a ++ ascii ".jsonl" ++ ascii ".tmp" ↔ 0x2F ∈ a := by
    simp only [List.mem_append]
    refine ⟨?_, fun h => .inl (.inl (.inr h))⟩
    rintro (((h | h) | h) | h)
    · exact absurd h (by decide)
    · exact h
    · exact absurd h (by decide)
    · exact absurd h (by decide)
  rw [hlength, hmem, nameMax]
  refine and_congr_left fun _ => ?_
  omega

theorem HasFiles.validName {a : Bytes} (h : HasFiles a) :
    validName (getFilePathForAlias a) = true := by
  obtain ⟨hlength, hslash⟩ := (validName_iff _).mp h
  rw [tempPathFor, List.length_append] at hlength
  exact (validName_iff _).mpr
    ⟨(Nat.le_add_right _ _).trans hlength, fun hmem => hslash (List.mem_append_left _ hmem)⟩

/-- The file of the alias can be opened for an entry. -/
def FileAccess.canAppend (io : FileAccess) (aliasName : Bytes) : Bool :=
  io.appends && validName (getFilePathForAlias aliasName)

/-- The changed history of the alias gets to its file. -/
def FileAccess.canUpdate (io : FileAccess) (aliasName : Bytes) : Bool :=
  io.reads && io.writesTemp && io.renames && validName (tempPathFor aliasName)

theorem canUpdate_iff {io : FileAccess} {a : Bytes} :
    io.canUpdate a = true ↔
      io.reads = true ∧ io.writesTemp = true ∧ io.renames = true ∧ HasFiles a := by
  rw [FileAccess.canUpdate, Bool.and_eq_true, Bool.and_eq_true, Bool.and_eq_true, and_assoc,
    and_assoc]
  rfl

theorem canUpdate_default {a : Bytes} (h : HasFiles a) : ({} : FileAccess).canUpdate a = true :=
  canUpdate_iff.mpr ⟨rfl, rfl, rfl, h⟩

theorem canAppend_default {a : Bytes} (h : HasFiles a) : ({} : FileAccess).canAppend a = true :=
  h.validName

/-! ## The files hold the lines of the cache -/

theorem getFilePathForAlias_injective {a b : Bytes}
    (h : getFilePathForAlias a = getFilePathForAlias b) : a = b := by
  unfold getFilePathForAlias at h
  exact List.append_cancel_left (List.append_cancel_right h)

theorem getFilePathForAlias_ne_tempPathFor (a b : Bytes) :
    getFilePathForAlias a ≠ tempPathFor b := by
  have hpath : (getFilePathForAlias a).getLast? = some 0x6C := by
    rw [getFilePathForAlias, List.getLast?_append]
    rfl
  have htemp : (tempPathFor b).getLast? = some 0x70 := by
    rw [tempPathFor, List.getLast?_append]
    rfl
  intro h
  rw [h, htemp] at hpath
  cases hpath

/-- Every history file is the text of the cache's lines. -/
def Represents (dir : CacheDirectory) (cache : ConversationCache) : Prop :=
  ∀ a, dir.content a = (cache.lines a).flatMap entryText

/-- One use of the cache. -/
inductive CacheCall : Type where
  | append (entry : CacheEntry)
  | update (aliasName messageId : Bytes) (newStatus : MessageStatus)

def CacheCall.aliasName : CacheCall → Bytes
  | .append entry => entry.aliasName
  | .update aliasName _ _ => aliasName

def CacheDirectory.step (J : Simdjson) (dir : CacheDirectory) :
    FileAccess × CacheCall → CacheDirectory
  | (io, .append entry) => dir.appendMessage io entry
  | (io, .update aliasName messageId newStatus) =>
      dir.updateMessageStatus J io aliasName messageId newStatus

def CacheDirectory.run (J : Simdjson) (dir : CacheDirectory)
    (calls : List (FileAccess × CacheCall)) : CacheDirectory :=
  calls.foldl (CacheDirectory.step J) dir

/-- A call on the lines: it does nothing if a file cannot be opened or renamed. -/
def ConversationCache.step (cache : ConversationCache) :
    FileAccess × CacheCall → ConversationCache
  | (io, .append entry) =>
      if io.canAppend entry.aliasName then cache.appendMessage entry else cache
  | (io, .update aliasName messageId newStatus) =>
      if io.canUpdate aliasName then cache.updateMessageStatus aliasName messageId newStatus
      else cache

section Files

variable {J : Simdjson} {dir : CacheDirectory} {cache : ConversationCache}

theorem content_insert (files : Map Bytes Bytes) (a : Bytes) (text : Bytes) (b : Bytes) :
    CacheDirectory.content ⟨files.insertOrAssign (getFilePathForAlias a) text⟩ b =
      if b = a then text else CacheDirectory.content ⟨files⟩ b := by
  unfold CacheDirectory.content
  split
  · next h =>
      subst h
      show (AList.lookup _ (Map.insertOrAssign _ _ files)).getD [] = _
      rw [Map.lookup_insertOrAssign]
      rfl
  · next h =>
      show (AList.lookup _ (Map.insertOrAssign _ _ files)).getD [] = _
      rw [Map.lookup_insertOrAssign_ne fun heq => h (getFilePathForAlias_injective heq)]

theorem content_temp (files : Map Bytes Bytes) (a text b : Bytes) :
    CacheDirectory.content ⟨files.insertOrAssign (tempPathFor a) text⟩ b =
      CacheDirectory.content ⟨files⟩ b := by
  unfold CacheDirectory.content
  show (AList.lookup _ (Map.insertOrAssign _ _ files)).getD [] = _
  rw [Map.lookup_insertOrAssign_ne (getFilePathForAlias_ne_tempPathFor b a)]

theorem content_erase_temp (files : Map Bytes Bytes) (a b : Bytes) :
    CacheDirectory.content ⟨files.erase (tempPathFor a)⟩ b =
      CacheDirectory.content ⟨files⟩ b := by
  unfold CacheDirectory.content
  show (AList.lookup _ (AList.erase _ files)).getD [] = _
  rw [AList.lookup_erase_ne (getFilePathForAlias_ne_tempPathFor b a)]

theorem HasFiles.not_too_long {a : Bytes} (h : HasFiles a) :
    ¬ nameMax < (firstPart (getFilePathForAlias a)).length := by
  have hname := ((validName_iff _).mp h.validName).1
  have hpart := (List.takeWhile_prefix (l := getFilePathForAlias a)
    fun c => !decide (c = 0x2F)).length_le
  exact Nat.not_lt.mpr (hpart.trans hname)

theorem loadHistory_eq (J : Simdjson) (dir : CacheDirectory) (io : FileAccess) (a : Bytes) :
    dir.loadHistory J io a =
      if nameMax < (firstPart (getFilePathForAlias a)).length then none
      else some (if io.reads then parseLines J (dir.content a) else []) := by
  unfold CacheDirectory.loadHistory CacheDirectory.fileExists
  split
  · rfl
  · unfold CacheDirectory.content
    cases dir.files.lookup (getFilePathForAlias a) with
    | none => cases io.reads <;> rfl
    | some text => cases io.reads <;> rfl

theorem loadHistory_of_hasFiles {a : Bytes} (h : HasFiles a) (J : Simdjson) (dir : CacheDirectory)
    (io : FileAccess) :
    dir.loadHistory J io a = some (if io.reads then parseLines J (dir.content a) else []) := by
  rw [loadHistory_eq, if_neg h.not_too_long]

/-- **What is loaded from the files is what the cache loads**, unless the name is too long. -/
theorem Represents.loadHistory (h : Represents dir cache) (a : Bytes) :
    dir.loadHistory J {} a =
      if nameMax < (firstPart (getFilePathForAlias a)).length then none
      else some (cache.loadHistory a) := by
  rw [loadHistory_eq, if_pos rfl, h a, parseLines_flatMap]
  rfl

theorem represents_appendMessage (h : Represents dir cache) (io : FileAccess)
    (entry : CacheEntry) :
    Represents (dir.appendMessage io entry) (cache.step (io, .append entry)) := by
  show Represents (if io.canAppend entry.aliasName then _ else dir)
    (if io.canAppend entry.aliasName then cache.appendMessage entry else cache)
  split
  · intro b
    rw [content_insert]
    split
    · next hb =>
        rw [hb, lines_appendMessage, h, List.flatMap_append, List.flatMap_singleton]
    · next hb =>
        rw [lines_appendMessage_ne cache hb]
        exact h b
  · exact h

/-- What both updates do, complete or broken off: where something was found in the history,
another text takes its place by way of the temporary file. -/
def CacheDirectory.replaced (J : Simdjson) (dir : CacheDirectory) (io : FileAccess)
    (aliasName : Bytes) (found : List CacheEntry → Bool) (output : List CacheEntry → Bytes) :
    CacheDirectory :=
  let history := (dir.loadHistory J io aliasName).getD []
  if found history then
    if io.writesTemp && validName (tempPathFor aliasName) then
      let text := output history
      let files := dir.files.insertOrAssign (tempPathFor aliasName) text
      if io.renames then
        { dir with
          files := Map.insertOrAssign (getFilePathForAlias aliasName) text
            (files.erase (tempPathFor aliasName)) }
      else { dir with files := files }
    else dir
  else dir

section Replaced

variable {J : Simdjson} {io : FileAccess} {a : Bytes} {found : List CacheEntry → Bool}
  {output : List CacheEntry → Bytes}

theorem content_replaced_of_not_canUpdate (h : ¬ io.canUpdate a = true) (hnil : found [] = false)
    (b : Bytes) : (dir.replaced J io a found output).content b = dir.content b := by
  unfold CacheDirectory.replaced
  dsimp only
  split
  · next hfound =>
      split
      · next hopens =>
          split
          · next hrenames =>
              -- the history was read, the temporary file opened and renamed
              obtain ⟨hwrites, hfiles⟩ := Bool.and_eq_true_iff.mp hopens
              have hreads : io.reads = true := by
                by_contra hreads
                rw [loadHistory_of_hasFiles hfiles, if_neg hreads] at hfound
                exact Bool.false_ne_true (hnil.symm.trans hfound)
              exact absurd (canUpdate_iff.mpr ⟨hreads, hwrites, hrenames, hfiles⟩) h
          · exact content_temp _ _ _ _
      · rfl
  · rfl

/-- The history is replaced where this is possible and there is a reason to, and nothing happens
to it otherwise. -/
theorem content_replaced (hnil : found [] = false) (b : Bytes) :
    (dir.replaced J io a found output).content b =
      if b = a ∧ io.canUpdate a = true ∧ found (parseLines J (dir.content a)) = true then
        output (parseLines J (dir.content a))
      else dir.content b := by
  by_cases hupdate : io.canUpdate a = true
  · obtain ⟨hreads, hwrites, hrenames, hfiles⟩ := canUpdate_iff.mp hupdate
    have hload : (dir.loadHistory J io a).getD [] = parseLines J (dir.content a) := by
      rw [loadHistory_of_hasFiles hfiles, hreads]
      rfl
    unfold CacheDirectory.replaced
    dsimp only
    rw [hload]
    by_cases hfound : found (parseLines J (dir.content a)) = true
    · have hopens : (io.writesTemp && validName (tempPathFor a)) = true :=
        Bool.and_eq_true_iff.mpr ⟨hwrites, hfiles⟩
      rw [if_pos hfound, if_pos hopens, if_pos hrenames, content_insert, content_erase_temp,
        content_temp]
      by_cases hb : b = a
      · rw [if_pos hb, if_pos ⟨hb, hupdate, hfound⟩]
      · rw [if_neg hb, if_neg fun h => hb h.1]
    · rw [if_neg hfound, if_neg fun h => hfound h.2.2]
  · rw [if_neg fun h => hupdate h.2.1]
    exact content_replaced_of_not_canUpdate hupdate hnil b

end Replaced

theorem content_updateMessageStatus (J : Simdjson) (dir : CacheDirectory) (io : FileAccess)
    (a messageId : Bytes) (newStatus : MessageStatus) (b : Bytes) :
    (dir.updateMessageStatus J io a messageId newStatus).content b =
      if b = a ∧ io.canUpdate a = true ∧
          (parseLines J (dir.content a)).any (fun e => e.id = messageId) = true then
        (setStatus messageId newStatus (parseLines J (dir.content a))).flatMap entryText
      else dir.content b := by
  have hupdate : dir.updateMessageStatus J io a messageId newStatus =
      dir.replaced J io a (fun history => history.any fun e => e.id = messageId)
        (fun history => (setStatus messageId newStatus history).flatMap entryText) := rfl
  rw [hupdate]
  exact content_replaced rfl b

theorem represents_updateMessageStatus (h : Represents dir cache) (io : FileAccess)
    (a messageId : Bytes) (newStatus : MessageStatus) :
    Represents (dir.updateMessageStatus J io a messageId newStatus)
      (cache.step (io, .update a messageId newStatus)) := by
  intro b
  have hload : parseLines J (dir.content a) = cache.loadHistory a := by
    rw [h a, parseLines_flatMap]
    rfl
  rw [content_updateMessageStatus, hload]
  show _ = ((if io.canUpdate a then cache.updateMessageStatus a messageId newStatus
    else cache).lines b).flatMap entryText
  by_cases hupdate : io.canUpdate a = true
  · rw [if_pos hupdate]
    by_cases hb : b = a
    · subst hb
      rw [lines_updateMessageStatus, updatedLines]
      by_cases hany : ((cache.loadHistory b).any fun e => e.id = messageId) = true
      · rw [if_pos ⟨rfl, hupdate, hany⟩]
        exact congrArg (List.flatMap entryText) (if_pos hany).symm
      · rw [if_neg fun hall => hany hall.2.2, h b]
        exact congrArg (List.flatMap entryText) (if_neg hany).symm
    · rw [if_neg fun hall => hb hall.1, lines_updateMessageStatus_ne cache hb]
      exact h b
  · rw [if_neg hupdate, if_neg fun hall => hupdate hall.2.1]
    exact h b

theorem represents_step (h : Represents dir cache) (call : FileAccess × CacheCall) :
    Represents (dir.step J call) (cache.step call) := by
  obtain ⟨io, call⟩ := call
  cases call with
  | append entry => exact represents_appendMessage h io entry
  | update a messageId newStatus => exact represents_updateMessageStatus h io a messageId newStatus

/-- **The files follow the cache** through any calls, and whatever the operating system
refuses. -/
theorem represents_run (h : Represents dir cache) (calls : List (FileAccess × CacheCall)) :
    Represents (dir.run J calls) (calls.foldl ConversationCache.step cache) := by
  induction calls generalizing dir cache with
  | nil => exact h
  | cons call calls ih => exact ih (represents_step h call)

end Files

theorem represents_empty : Represents {} {} := fun _ => rfl

/-! ## The history of one alias -/

/-- What the history of `a` becomes by a call. -/
def historyAfter (a : Bytes) (history : List CacheEntry) :
    FileAccess × CacheCall → List CacheEntry
  | (io, .append entry) =>
      if entry.aliasName = a ∧ io.canAppend a then history ++ [entry] else history
  | (io, .update aliasName messageId newStatus) =>
      if aliasName = a ∧ io.canUpdate a then setStatus messageId newStatus history else history

/-- What is appended for `a` has a valid id, and `a` is valid. -/
def ValidFor (a : Bytes) : FileAccess × CacheCall → Prop
  | (_, .append entry) =>
      entry.aliasName = a → acceptsString entry.id = true ∧ acceptsString entry.aliasName = true
  | _ => True

/-- Besides, the name of the file is the name that the operating system sees. -/
def Accepted (a : Bytes) (c : FileAccess × CacheCall) : Prop :=
  ValidFor a c ∧ 0x00 ∉ c.2.aliasName

theorem nul_not_mem {s : Bytes} (h : acceptsString s = true) : 0x00 ∉ s := by
  intro hmem
  have hescapes : escapes s = true := (Bool.and_eq_true_iff.mp h).2
  have hnul := List.all_eq_true.mp hescapes 0x00 hmem
  cases hnul

theorem setStatus_of_forall_ne {messageId : Bytes} {newStatus : MessageStatus}
    {l : List CacheEntry} (h : ∀ e ∈ l, e.id ≠ messageId) :
    setStatus messageId newStatus l = l := by
  induction l with
  | nil => rfl
  | cons e l ih =>
      rw [setStatus, if_neg (h e List.mem_cons_self),
        ih fun e' he' => h e' (List.mem_cons_of_mem _ he')]

/-- If every line is readable, an update touches one status. -/
theorem updatedLines_of_readable {l : List CacheEntry} (hl : ∀ e ∈ l, e.readable = true)
    (messageId : Bytes) (newStatus : MessageStatus) :
    updatedLines messageId newStatus l = setStatus messageId newStatus l := by
  unfold updatedLines
  rw [List.filter_eq_self.mpr hl]
  dsimp only
  split
  · rfl
  · next hany =>
      symm
      apply setStatus_of_forall_ne
      intro e he hid
      apply hany
      rw [List.any_eq_true]
      exact ⟨e, he, decide_eq_true hid⟩

section Lines

variable {cache : ConversationCache} {a : Bytes}

theorem lines_step (hread : ∀ e ∈ cache.lines a, e.readable = true)
    (call : FileAccess × CacheCall) :
    (cache.step call).lines a = historyAfter a (cache.lines a) call := by
  obtain ⟨io, call⟩ := call
  cases call with
  | append entry =>
      unfold ConversationCache.step
      dsimp only
      by_cases ha : entry.aliasName = a
      · subst ha
        unfold historyAfter
        dsimp only
        split
        · next hopens => rw [if_pos ⟨rfl, hopens⟩, lines_appendMessage]
        · next hopens => rw [if_neg fun h => hopens h.2]
      · have hsame : historyAfter a (cache.lines a) (io, .append entry) = cache.lines a :=
          if_neg fun h => ha h.1
        rw [hsame]
        split
        · exact lines_appendMessage_ne cache (Ne.symm ha)
        · rfl
  | update b messageId newStatus =>
      unfold ConversationCache.step
      dsimp only
      by_cases hb : b = a
      · subst hb
        unfold historyAfter
        dsimp only
        split
        · next hio =>
            rw [if_pos ⟨rfl, hio⟩, lines_updateMessageStatus, updatedLines_of_readable hread]
        · next hio => rw [if_neg fun h => hio h.2]
      · have hsame : historyAfter a (cache.lines a) (io, .update b messageId newStatus) =
            cache.lines a := if_neg fun h => hb h.1
        rw [hsame]
        split
        · exact lines_updateMessageStatus_ne cache (Ne.symm hb) messageId newStatus
        · rfl

theorem readable_historyAfter {history : List CacheEntry}
    (hread : ∀ e ∈ history, e.readable = true) {call : FileAccess × CacheCall}
    (hcall : ValidFor a call) : ∀ e ∈ historyAfter a history call, e.readable = true := by
  obtain ⟨io, call⟩ := call
  cases call with
  | append entry =>
      unfold historyAfter
      dsimp only
      split
      · next h =>
          obtain ⟨hid, halias⟩ := hcall h.1
          intro e he
          rcases List.mem_append.mp he with he | he
          · exact hread e he
          · rw [List.mem_singleton.mp he, CacheEntry.readable, hid, halias]
            rfl
      · exact hread
  | update b messageId newStatus =>
      unfold historyAfter
      dsimp only
      split
      · exact forall_mem_setStatus hread fun e he => he
      · exact hread

/-- Through any calls with valid entries, the lines of `a` are what the calls make of
them, and all of them are readable. -/
theorem lines_run {calls : List (FileAccess × CacheCall)} (hcalls : ∀ c ∈ calls, ValidFor a c)
    (hread : ∀ e ∈ cache.lines a, e.readable = true) :
    (calls.foldl ConversationCache.step cache).lines a =
        calls.foldl (historyAfter a) (cache.lines a) ∧
      ∀ e ∈ (calls.foldl ConversationCache.step cache).lines a, e.readable = true := by
  induction calls generalizing cache with
  | nil => exact ⟨rfl, hread⟩
  | cons call calls ih =>
      have hcall := hcalls call List.mem_cons_self
      have hlines := lines_step hread call
      have hnext : ∀ e ∈ (cache.step call).lines a, e.readable = true := by
        rw [hlines]
        exact readable_historyAfter hread hcall
      have hrest := ih (fun c hc => hcalls c (List.mem_cons_of_mem _ hc)) hnext
      rw [hlines] at hrest
      exact hrest

end Lines

section Loaded

variable (J : Simdjson) {a : Bytes} {calls : List (FileAccess × CacheCall)}

theorem loadHistory_run (ha : HasFiles a) (hcalls : ∀ c ∈ calls, ValidFor a c) :
    (CacheDirectory.run J {} calls).loadHistory J {} a =
      some (calls.foldl (historyAfter a) []) := by
  have hrep : Represents (CacheDirectory.run J {} calls) _ := represents_run represents_empty calls
  have hempty : ∀ e ∈ ConversationCache.lines {} a, e.readable = true := by
    intro e he
    cases he
  obtain ⟨hlines, hread⟩ := lines_run hcalls hempty
  rw [hrep.loadHistory, if_neg ha.not_too_long, ConversationCache.loadHistory,
    List.filter_eq_self.mpr hread, hlines]
  rfl

theorem loadHistory_update (ha : HasFiles a) (hcalls : ∀ c ∈ calls, ValidFor a c)
    (messageId : Bytes) (newStatus : MessageStatus) :
    ((CacheDirectory.run J {} calls).updateMessageStatus J {} a messageId newStatus).loadHistory
        J {} a =
      ((CacheDirectory.run J {} calls).loadHistory J {} a).map (setStatus messageId newStatus) := by
  have hall : ∀ c ∈ calls ++ [(({} : FileAccess), CacheCall.update a messageId newStatus)],
      ValidFor a c := by
    intro c hc
    rcases List.mem_append.mp hc with hc | hc
    · exact hcalls c hc
    · rw [List.mem_singleton.mp hc]
      trivial
  have hload := loadHistory_run J ha hall
  rw [CacheDirectory.run, List.foldl_append, List.foldl_append, ← CacheDirectory.run] at hload
  rw [loadHistory_run J ha hcalls]
  exact hload.trans (congrArg some (if_pos ⟨rfl, canUpdate_default ha⟩))

theorem foldl_historyAfter_append (ha : HasFiles a) {entries : List CacheEntry}
    (halias : ∀ e ∈ entries, e.aliasName = a) (history : List CacheEntry) :
    (entries.map fun e => (({} : FileAccess), CacheCall.append e)).foldl (historyAfter a) history =
      history ++ entries := by
  induction entries generalizing history with
  | nil => exact (List.append_nil history).symm
  | cons e entries ih =>
      have hfirst : historyAfter a history ({}, .append e) = history ++ [e] :=
        if_pos ⟨halias e List.mem_cons_self, canAppend_default ha⟩
      rw [List.map_cons, List.foldl_cons, hfirst,
        ih (fun e' he' => halias e' (List.mem_cons_of_mem _ he')), List.append_assoc]
      rfl

/-- Where there is no temporary file, an update is lost, or there was nothing to update. -/
theorem loadHistory_of_not_hasFiles (ha : ¬ HasFiles a) {entry : CacheEntry}
    {newStatus : MessageStatus} (hstatus : newStatus ≠ entry.status) :
    ((CacheDirectory.run J {} [({}, .append entry)]).updateMessageStatus J {} a entry.id
      newStatus).loadHistory J {} a ≠ some [{ entry with status := newStatus }] := by
  have hrep : Represents (CacheDirectory.run J {} [({}, .append entry),
      ({}, .update a entry.id newStatus)]) _ := represents_run represents_empty _
  have hupdate : ¬ ({} : FileAccess).canUpdate a = true :=
    fun h => ha (canUpdate_iff.mp h).2.2.2
  have hload := hrep.loadHistory (J := J) a
  rw [List.foldl_cons, List.foldl_cons, List.foldl_nil,
    show ConversationCache.step _ ({}, .update a entry.id newStatus) = _ from if_neg hupdate] at hload
  have hlines : ∀ e ∈ (ConversationCache.step {} ({}, .append entry)).lines a, e = entry := by
    intro e he
    unfold ConversationCache.step at he
    dsimp only at he
    split at he
    · exact (mem_lines_appendMessage he).resolve_left fun hnone => by cases hnone
    · cases he
  intro hkept
  rw [show (CacheDirectory.updateMessageStatus J (CacheDirectory.run J {} [({}, .append entry)]) {} a
    entry.id newStatus).loadHistory J {} a = _ from hload] at hkept
  split at hkept
  · cases hkept
  · have hmem : { entry with status := newStatus } ∈
        ((ConversationCache.step {} ({}, .append entry)).lines a).filter CacheEntry.readable := by
      rw [show List.filter _ _ = _ from Option.some.inj hkept]
      exact List.mem_cons_self
    exact hstatus (congrArg CacheEntry.status (hlines _ (List.mem_of_mem_filter hmem)))

end Loaded

/-- **Which histories are loaded as they were appended.** Where the alias has files, that is
where it has no slash and at most 237 bytes: the entries that are appended for it are loaded,
all of them and in order. After any calls, for this alias or for others, with or without
failures of the operating system, the history is what the successful calls have made of it; and
one more update replaces the status of the first entry with the id, or changes
nothing. For any other alias an entry that is appended and then updated is not loaded with its
new status. -/
theorem history_round_trip (J : Simdjson) (a : Bytes) :
    (HasFiles a ↔ a.length ≤ 237 ∧ 0x2F ∉ a) ∧
    (HasFiles a →
      (∀ entries : List CacheEntry,
        (∀ e ∈ entries, e.aliasName = a ∧ acceptsString e.id = true ∧
          acceptsString e.aliasName = true) →
        (CacheDirectory.run J {} (entries.map fun e => ({}, .append e))).loadHistory J {} a =
          some entries) ∧
      ∀ calls : List (FileAccess × CacheCall), (∀ c ∈ calls, Accepted a c) →
        (CacheDirectory.run J {} calls).loadHistory J {} a =
          some (calls.foldl (historyAfter a) []) ∧
        ∀ (messageId : Bytes) (newStatus : MessageStatus),
          let dir := CacheDirectory.run J {} calls
          let updated := dir.updateMessageStatus J {} a messageId newStatus
          (∀ l₁ e l₂, dir.loadHistory J {} a = some (l₁ ++ e :: l₂) →
            (∀ e' ∈ l₁, e'.id ≠ messageId) → e.id = messageId →
            updated.loadHistory J {} a = some (l₁ ++ { e with status := newStatus } :: l₂)) ∧
          (∀ l, dir.loadHistory J {} a = some l → (∀ e ∈ l, e.id ≠ messageId) →
            updated.loadHistory J {} a = some l)) ∧
    (¬ HasFiles a → ∀ entry : CacheEntry, entry.aliasName = a →
      ∀ newStatus, newStatus ≠ entry.status →
        ((CacheDirectory.run J {} [({}, .append entry)]).updateMessageStatus J {} a entry.id
          newStatus).loadHistory J {} a ≠ some [{ entry with status := newStatus }]) := by
  refine ⟨hasFiles_iff a, fun ha => ⟨?_, ?_⟩, ?_⟩
  · intro entries hentries
    have hcalls : ∀ c ∈ entries.map fun e => (({} : FileAccess), CacheCall.append e),
        ValidFor a c := by
      intro c hc
      obtain ⟨e, he, rfl⟩ := List.mem_map.mp hc
      exact fun _ => (hentries e he).2
    rw [loadHistory_run J ha hcalls, foldl_historyAfter_append ha fun e he => (hentries e he).1]
    rfl
  · intro calls haccepted
    have hcalls : ∀ c ∈ calls, ValidFor a c := fun c hc => (haccepted c hc).1
    refine ⟨loadHistory_run J ha hcalls, ?_⟩
    intro messageId newStatus dir updated
    have hupdated := loadHistory_update J ha hcalls messageId newStatus
    refine ⟨?_, ?_⟩
    · intro l₁ e l₂ hload hl₁ he
      rw [hload, Option.map_some, setStatus_append_cons newStatus hl₁ he] at hupdated
      exact hupdated
    · intro l hload hne
      rw [hload, Option.map_some, setStatus_of_forall_ne hne] at hupdated
      exact hupdated
  · exact fun ha entry _ newStatus hstatus => loadHistory_of_not_hasFiles J ha hstatus

/-- An entry with a quote, a line break and a letter outside ASCII in its id. -/
def oddEntry : CacheEntry :=
  { id := [0x22, 0x0A, 0xC3, 0xB3, 0x5C], timestamp := 0xFFFFFFFFFFFFFFFF, direction := .inbound,
    aliasName := ascii "bob", status := .delivered, payload := [0x00, 0x0A, 0xFF] }

def plainEntry : CacheEntry :=
  { id := ascii "7f", timestamp := 0, aliasName := ascii "bob", status := .pendingAck,
    payload := [] }

theorem history_round_trip_bob :
    (CacheDirectory.run eager {} [({}, .append oddEntry), ({}, .append plainEntry)]).loadHistory
        eager {} (ascii "bob") = some [oddEntry, plainEntry] ∧
      ((CacheDirectory.run eager {} [({}, .append oddEntry),
          ({}, .append plainEntry)]).updateMessageStatus eager {} (ascii "bob") (ascii "7f")
          .delivered).loadHistory eager {} (ascii "bob") =
        some [oddEntry, { plainEntry with status := .delivered }] := by
  have hentries : ∀ e ∈ [oddEntry, plainEntry], e.aliasName = ascii "bob" ∧
      acceptsString e.id = true ∧ acceptsString e.aliasName = true := by
    decide
  have hcalls : ∀ c ∈ [(({} : FileAccess), CacheCall.append oddEntry), ({}, .append plainEntry)],
      Accepted (ascii "bob") c := by
    intro c hc
    obtain ⟨e, he, rfl⟩ : ∃ e ∈ [oddEntry, plainEntry], ({}, CacheCall.append e) = c :=
      List.mem_map.mp hc
    exact ⟨fun _ => (hentries e he).2, nul_not_mem (hentries e he).2.2⟩
  obtain ⟨hload, hrest⟩ := (history_round_trip eager (ascii "bob")).2.1 (by decide)
  have hboth := hload [oddEntry, plainEntry] hentries
  exact ⟨hboth, ((hrest _ hcalls).2 (ascii "7f") .delivered).1 [oddEntry] plainEntry [] hboth
    (by decide) rfl⟩

/-- An entry for the alias `a/b`, for which there is no directory. -/
def slashEntry : CacheEntry := { plainEntry with aliasName := ascii "a/b" }

/-- An entry for an alias of 238 bytes: the name of the temporary file is too long. -/
def longEntry : CacheEntry := { plainEntry with aliasName := List.replicate 238 0x61 }

/-- **Entries and updates that are lost.** The first entry is not written at all. The second is
written and loaded, but stays as it is when it is updated. Both aliases and the id are valid. -/
theorem history_lost :
    (∀ e ∈ [slashEntry, longEntry], acceptsString e.id = true ∧
      acceptsString e.aliasName = true) ∧
    (CacheDirectory.run eager {} [({}, .append slashEntry)]).loadHistory eager {}
      slashEntry.aliasName = some [] ∧
    (CacheDirectory.run eager {} [({}, .append longEntry)]).loadHistory eager {}
      longEntry.aliasName = some [longEntry] ∧
    ((CacheDirectory.run eager {} [({}, .append longEntry)]).updateMessageStatus eager {}
      longEntry.aliasName longEntry.id .delivered).loadHistory eager {} longEntry.aliasName =
        some [longEntry] := by
  decide +kernel

end BlankChat.Client
