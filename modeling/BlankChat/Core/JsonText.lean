import BlankChat.Core.Json

/-!
# The text of a JSON file

The client writes a JSON file by concatenating text and reads it with simdjson. A
library accepts the documents of RFC 8259 in UTF-8 and returns the strings unescaped;
`readDocument` does this for the documents of the shape the client writes, an object
whose one member is an array of objects with strings and booleans in them. It is one of
the libraries of `Simdjson`, which is what the client is proved to work with.

Main result: `readDocument_bodyText`, what `EscapeJsonString` wrote is read back, or
the whole document is rejected, and `acceptsObject` tells which.
-/

namespace BlankChat.Core

open Lib

/-! ## Reading -/

def isWhitespace (b : UInt8) : Bool := b = 0x20 || b = 0x09 || b = 0x0A || b = 0x0D

def skipWhitespace (text : Bytes) : Bytes := text.dropWhile isWhitespace

def expect (b : UInt8) : Bytes → Option Bytes
  | [] => none
  | c :: rest => if c = b then some rest else none

/-- The character that an escape stands for. -/
def unescape (c : UInt8) : Option UInt8 :=
  if c = 0x22 then some 0x22
  else if c = 0x5C then some 0x5C
  else if c = 0x2F then some 0x2F
  else if c = 0x62 then some 0x08
  else if c = 0x66 then some 0x0C
  else if c = 0x6E then some 0x0A
  else if c = 0x72 then some 0x0D
  else if c = 0x74 then some 0x09
  else none

/-- A string from its opening quote on, and the text after it. -/
def readString : Bytes → Option (Bytes × Bytes)
  | [] => none
  | c :: text =>
      if c = 0x22 then some ([], text)
      else if c = 0x5C then
        match text with
        | [] => none
        | e :: text =>
            (unescape e).bind fun b => (readString text).map fun r => (b :: r.1, r.2)
      else if c < 0x20 then none
      else (readString text).map fun r => (c :: r.1, r.2)

def readValue (text : Bytes) : Option (JsonValue × Bytes) :=
  if (ascii "true").isPrefixOf text then some (.bool true, text.drop 4)
  else if (ascii "false").isPrefixOf text then some (.bool false, text.drop 5)
  else (expect 0x22 text).bind fun text =>
    (readString text).map fun r => (.string r.1, r.2)

/-- The members of an object up to its closing brace. -/
def readMembers : ℕ → Bytes → Option (JsonObject × Bytes)
  | 0, _ => none
  | fuel + 1, text => do
      let text ← expect 0x22 (skipWhitespace text)
      let (key, text) ← readString text
      let text ← expect 0x3A (skipWhitespace text)
      let (value, text) ← readValue (skipWhitespace text)
      match skipWhitespace text with
      | [] => none
      | c :: text =>
          if c = 0x2C then (readMembers fuel text).map fun r => ((key, value) :: r.1, r.2)
          else if c = 0x7D then some ([(key, value)], text)
          else none

/-- The objects of an array up to its closing bracket. -/
def readObjects : ℕ → Bytes → Option (List JsonObject × Bytes)
  | 0, _ => none
  | fuel + 1, text => do
      let text ← expect 0x7B (skipWhitespace text)
      let (o, text) ← readMembers text.length text
      match skipWhitespace text with
      | [] => none
      | c :: text =>
          if c = 0x2C then (readObjects fuel text).map fun r => (o :: r.1, r.2)
          else if c = 0x5D then some ([o], text)
          else none

def readArray (text : Bytes) : Option (List JsonObject × Bytes) := do
  let text ← expect 0x5B (skipWhitespace text)
  match expect 0x5D (skipWhitespace text) with
  | some text => some ([], text)
  | none => readObjects text.length text

/-- The array under the key; `none` if the library rejects the document. -/
def readDocument (key text : Bytes) : Option (List JsonObject) :=
  if validUtf8 text then do
    let text ← expect 0x7B (skipWhitespace text)
    let text ← expect 0x22 (skipWhitespace text)
    let (name, text) ← readString text
    guard (name = key)
    let text ← expect 0x3A (skipWhitespace text)
    let (objects, text) ← readArray text
    let text ← expect 0x7D (skipWhitespace text)
    guard (skipWhitespace text = [])
    return objects
  else none

/-- A document without what follows its closing brace. -/
def readBody (key text : Bytes) : Option (List JsonObject × Bytes) := do
  let text ← expect 0x7B (skipWhitespace text)
  let text ← expect 0x22 (skipWhitespace text)
  let (name, text) ← readString text
  guard (name = key)
  let text ← expect 0x3A (skipWhitespace text)
  let (objects, text) ← readArray text
  let text ← expect 0x7D (skipWhitespace text)
  return (objects, text)

theorem readDocument_eq (key text : Bytes) :
    readDocument key text =
      if validUtf8 text then
        (readBody key text).bind fun r => if skipWhitespace r.2 = [] then some r.1 else none
      else none := by
  have hguard : ∀ (rest : Bytes) (objects : List JsonObject),
      ((guard (rest = []) : Option Unit).bind fun _ => some objects) =
        if rest = [] then some objects else none := by
    intro rest objects
    rw [guard]
    split <;> rfl
  unfold readDocument readBody
  simp only [Option.bind_eq_bind, Option.bind_assoc, Option.pure_def, Option.bind_some, hguard]

/-! ## Writing -/

def valueText : JsonValue → Bytes
  | .string s => 0x22 :: (escapeJsonString s ++ [0x22])
  | .bool b => if b then ascii "true" else ascii "false"

def fieldText (field : Bytes × JsonValue) : Bytes :=
  ascii "      \"" ++ field.1 ++ ascii "\": " ++ valueText field.2

def membersText : JsonObject → Bytes
  | [] => []
  | [field] => fieldText field
  | field :: fields => fieldText field ++ ascii ",\n" ++ membersText fields

def objectText (o : JsonObject) : Bytes :=
  ascii "    \x7b\n" ++ membersText o ++ ascii "\n    \x7d"

def objectsText : List JsonObject → Bytes
  | [] => []
  | [o] => objectText o ++ ascii "\n"
  | o :: objects => objectText o ++ ascii ",\n" ++ objectsText objects

def documentText (key : Bytes) (objects : List JsonObject) : Bytes :=
  ascii "\x7b\n  \"" ++ key ++ ascii "\": [\n" ++ objectsText objects ++ ascii "  ]\n\x7d\n"

/-! ## Strings -/

/-- No control character is left unescaped. -/
def escapes (s : Bytes) : Bool := s.all fun b => 0x20 ≤ b || escapedControl b

theorem escapeJsonString_cons (c : UInt8) (s : Bytes) :
    escapeJsonString (c :: s) = escapeJsonChar c ++ escapeJsonString s := rfl

/-- A character is escaped to a backslash and a letter, or stands for itself. -/
theorem escapeJsonChar_cases (c : UInt8) :
    (∃ e, escapeJsonChar c = [0x5C, e] ∧ unescape e = some c ∧ c < 0x80 ∧ e < 0x80 ∧
      (0x20 ≤ c || escapedControl c) = true) ∨
    (escapeJsonChar c = [c] ∧ c ≠ 0x22 ∧ c ≠ 0x5C ∧ escapedControl c = false) := by
  have key : ∀ c : UInt8,
      (∃ e ∈ (escapeJsonChar c).getLast?, escapeJsonChar c = [0x5C, e] ∧
        unescape e = some c ∧ c < 0x80 ∧ e < 0x80 ∧ (0x20 ≤ c || escapedControl c) = true) ∨
      (escapeJsonChar c = [c] ∧ c ≠ 0x22 ∧ c ≠ 0x5C ∧ escapedControl c = false) :=
    forall_byte (by decide +kernel)
  rcases key c with ⟨e, -, he⟩ | hc
  · exact .inl ⟨e, he⟩
  · exact .inr hc

theorem readString_quote (text : Bytes) : readString (0x22 :: text) = some ([], text) := by
  cases text <;> rfl

theorem readString_char {c : UInt8} (hquote : c ≠ 0x22) (hslash : c ≠ 0x5C) (text : Bytes) :
    readString (c :: text) =
      if c < 0x20 then none else (readString text).map fun r => (c :: r.1, r.2) := by
  rw [readString.eq_def]
  dsimp only
  rw [if_neg hquote, if_neg hslash]

theorem readString_escapeJsonChar (c : UInt8) (text : Bytes) :
    readString (escapeJsonChar c ++ text) =
      if 0x20 ≤ c || escapedControl c then (readString text).map fun r => (c :: r.1, r.2)
      else none := by
  rcases escapeJsonChar_cases c with ⟨e, heq, hunescape, -, -, hok⟩ | ⟨heq, hquote, hslash, hctl⟩
  · rw [heq, if_pos hok]
    show readString (0x5C :: e :: text) = _
    rw [readString, if_neg (by decide), if_pos rfl, hunescape]
    rfl
  · rw [heq, List.singleton_append, readString_char hquote hslash]
    by_cases hlt : c < 0x20
    · rw [if_pos hlt, if_neg (by simpa [hctl] using hlt)]
    · rw [if_neg hlt, if_pos (by simpa [hctl] using hlt)]

/-- **A string is read back from its escaped text**, unless it has a control character
without an escape. -/
theorem readString_escapeJsonString (s text : Bytes) :
    readString (escapeJsonString s ++ 0x22 :: text) =
      if escapes s then some (s, text) else none := by
  induction s with
  | nil =>
      exact readString_quote text
  | cons c s ih =>
      rw [escapeJsonString_cons, List.append_assoc, readString_escapeJsonChar, ih]
      unfold escapes
      rw [List.all_cons]
      cases hc : (0x20 ≤ c || escapedControl c) with
      | false => rfl
      | true =>
          rw [Bool.true_and, if_pos rfl]
          split <;> rfl

/-! ## UTF-8 -/

theorem utf8Loop_ascii {b : UInt8} (hb : b < 0x80) (lo hi : UInt8) (text : Bytes) :
    utf8Loop 0 lo hi (b :: text) = utf8Loop 0 0 0 text := by
  rw [utf8Loop, if_pos hb]

theorem utf8Loop_nil (need : ℕ) (lo hi : UInt8) :
    utf8Loop need lo hi [] = decide (need = 0) := by
  cases need <;> rfl

/-- An ASCII character never continues a sequence. -/
theorem utf8Loop_cut {b : UInt8} (hb : b < 0x80) (need : ℕ) {lo : UInt8} (hi : UInt8)
    (hlo : 0x80 ≤ lo) (text : Bytes) : utf8Loop (need + 1) lo hi (b :: text) = false := by
  have hnot : ¬ lo ≤ b := UInt8.not_le.mpr (UInt8.lt_of_lt_of_le hb hlo)
  rw [utf8Loop]
  simp [hnot]

theorem ite_eq_ite_and {p : Prop} [Decidable p] {a a' b b' t : Bool} (ha : a = (a' && t))
    (hb : b = (b' && t)) : (if p then a else b) = ((if p then a' else b') && t) := by
  split
  · exact ha
  · exact hb

/-- The escapes do not matter for the machine, and the quote that follows ends every
sequence. -/
theorem utf8Loop_escapeJsonString {b : UInt8} (hb : b < 0x80) (s text : Bytes) :
    ∀ (need : ℕ) (lo hi : UInt8), need = 0 ∨ 0x80 ≤ lo →
      utf8Loop need lo hi (escapeJsonString s ++ b :: text) =
        (utf8Loop need lo hi s && utf8Loop 0 0 0 text) := by
  induction s with
  | nil =>
      intro need lo hi hstate
      show utf8Loop need lo hi (b :: text) = _
      cases need with
      | zero =>
          rw [utf8Loop_ascii hb, utf8Loop_nil]
          rfl
      | succ need =>
          rw [utf8Loop_cut hb need hi (hstate.resolve_left (Nat.succ_ne_zero need)), utf8Loop_nil]
          simp
  | cons c s ih =>
      intro need lo hi hstate
      have hcont : (0x80 : UInt8) ≤ 0x80 := UInt8.le_refl _
      rw [escapeJsonString_cons, List.append_assoc]
      rcases escapeJsonChar_cases c with ⟨e, heq, -, hc, he, -⟩ | ⟨heq, -⟩
      · rw [heq]
        show utf8Loop need lo hi (0x5C :: e :: (escapeJsonString s ++ b :: text)) = _
        cases need with
        | zero =>
            rw [utf8Loop_ascii (by decide), utf8Loop_ascii he, ih 0 0 0 (.inl rfl),
              utf8Loop_ascii hc]
        | succ need =>
            have hlo := hstate.resolve_left (Nat.succ_ne_zero need)
            rw [utf8Loop_cut (by decide) need hi hlo, utf8Loop_cut hc need hi hlo, Bool.false_and]
      · rw [heq]
        show utf8Loop need lo hi (c :: (escapeJsonString s ++ b :: text)) = _
        cases need with
        | zero =>
            rw [utf8Loop, utf8Loop]
            -- the first byte decides how many follow, and from where on
            refine ite_eq_ite_and (ih 0 0 0 (.inl rfl)) ?_
            refine ite_eq_ite_and (ih 1 0x80 0xBF (.inr hcont)) ?_
            refine ite_eq_ite_and (ih 2 0xA0 0xBF (.inr (by decide))) ?_
            refine ite_eq_ite_and (ih 2 0x80 0x9F (.inr hcont)) ?_
            refine ite_eq_ite_and (ih 2 0x80 0xBF (.inr hcont)) ?_
            refine ite_eq_ite_and (ih 3 0x90 0xBF (.inr (by decide))) ?_
            refine ite_eq_ite_and (ih 3 0x80 0xBF (.inr hcont)) ?_
            exact ite_eq_ite_and (ih 3 0x80 0x8F (.inr hcont)) rfl
        | succ need =>
            rw [utf8Loop, utf8Loop, ih need 0x80 0xBF (.inr hcont), Bool.and_assoc (_ && _)]

theorem validUtf8_string (s text : Bytes) :
    validUtf8 (0x22 :: (escapeJsonString s ++ [0x22]) ++ text) =
      (validUtf8 s && validUtf8 text) := by
  show utf8Loop 0 0 0 (0x22 :: ((escapeJsonString s ++ [0x22]) ++ text)) = _
  rw [utf8Loop_ascii (by decide), List.append_assoc, List.singleton_append,
    utf8Loop_escapeJsonString (by decide) s text 0 0 0 (.inl rfl)]
  rfl

theorem validUtf8_ascii {l : Bytes} (hl : l.all (fun b => b < 0x80) = true) (text : Bytes) :
    validUtf8 (l ++ text) = validUtf8 text := by
  induction l with
  | nil => rfl
  | cons b l ih =>
      rw [List.all_cons, Bool.and_eq_true, decide_eq_true_eq] at hl
      show utf8Loop 0 0 0 (b :: (l ++ text)) = _
      rw [utf8Loop_ascii hl.1]
      exact ih hl.2

/-! ## Plain strings

Keys and hex digits are written without an escape. -/

def plain (s : Bytes) : Bool :=
  s.all fun b => 0x20 ≤ b && b < 0x80 && b ≠ 0x22 && b ≠ 0x5C

theorem plain_iff {s : Bytes} :
    plain s = true ↔ ∀ b ∈ s, 0x20 ≤ b ∧ b < 0x80 ∧ b ≠ 0x22 ∧ b ≠ 0x5C := by
  simp [plain, and_assoc]

theorem ascii_of_plain {s : Bytes} (h : plain s = true) : s.all (fun b => b < 0x80) = true := by
  rw [List.all_eq_true]
  intro b hb
  exact decide_eq_true (plain_iff.mp h b hb).2.1

theorem escapeJsonString_plain {s : Bytes} (h : plain s = true) : escapeJsonString s = s := by
  have hchar : ∀ b ∈ s, escapeJsonChar b = [b] := by
    intro b hb
    obtain ⟨hle, -, hquote, hslash⟩ := plain_iff.mp h b hb
    rcases escapeJsonChar_cases b with ⟨e, heq, hunescape, -⟩ | ⟨heq, -⟩
    · -- the other escaped characters are control characters
      unfold escapeJsonChar at heq ⊢
      rw [if_neg hquote, if_neg hslash] at heq ⊢
      have hne : ∀ c : UInt8, c < 0x20 → b ≠ c := by
        rintro c hc rfl
        exact absurd hle (UInt8.not_le.mpr hc)
      rw [if_neg (hne 0x08 (by decide)), if_neg (hne 0x0C (by decide)),
        if_neg (hne 0x0A (by decide)), if_neg (hne 0x0D (by decide)),
        if_neg (hne 0x09 (by decide))]
    · exact heq
  unfold escapeJsonString
  calc s.flatMap escapeJsonChar
      = s.flatMap fun b => [b] := List.flatMap_congr hchar
    _ = s := List.flatMap_singleton' s

theorem escapes_plain {s : Bytes} (h : plain s = true) : escapes s = true := by
  unfold escapes
  rw [List.all_eq_true]
  intro b hb
  simp [(plain_iff.mp h b hb).1]

theorem readString_plain {s : Bytes} (h : plain s = true) (text : Bytes) :
    readString (s ++ 0x22 :: text) = some (s, text) := by
  have hread := readString_escapeJsonString s text
  rwa [escapeJsonString_plain h, if_pos (escapes_plain h)] at hread

theorem plain_encodeHex (l : Bytes) : plain (encodeHex l) = true := by
  have hdigit : ∀ v : UInt8, plain [hexIntToChar v] = true := forall_byte (by decide +kernel)
  induction l with
  | nil => rfl
  | cons b l ih =>
      rw [encodeHex_cons, plain_iff]
      intro c hc
      rcases List.mem_cons.mp hc with rfl | hc
      · exact plain_iff.mp (hdigit _) _ List.mem_cons_self
      · rcases List.mem_cons.mp hc with rfl | hc
        · exact plain_iff.mp (hdigit _) _ List.mem_cons_self
        · exact plain_iff.mp ih c hc

/-! ## Objects -/

/-- The part of `acceptsObject` that is about escapes. -/
def escapesValue : JsonValue → Bool
  | .string s => escapes s
  | .bool _ => true

/-- The part that is about UTF-8. -/
def validValue : JsonValue → Bool
  | .string s => validUtf8 s
  | .bool _ => true

theorem acceptsObject_eq (o : JsonObject) :
    acceptsObject o = (o.all (fun f => validValue f.2) && o.all fun f => escapesValue f.2) := by
  unfold acceptsObject
  induction o with
  | nil => rfl
  | cons f o ih =>
      obtain ⟨key, value⟩ := f
      rw [List.all_cons, List.all_cons, List.all_cons, ih]
      cases value with
      | string s =>
          show (validUtf8 s && escapes s && _) = (validUtf8 s && _ && (escapes s && _))
          ac_rfl
      | bool b =>
          show (true && _) = (true && _ && (true && _))
          simp

theorem readValue_valueText (value : JsonValue) (text : Bytes) :
    readValue (valueText value ++ text) =
      if escapesValue value then some (value, text) else none := by
  cases value with
  | bool b => cases b <;> rfl
  | string s =>
      show (readString ((escapeJsonString s ++ [0x22]) ++ text)).map _ = _
      rw [List.append_assoc, List.singleton_append, readString_escapeJsonString]
      show _ = if escapes s then _ else _
      split <;> rfl

theorem skipWhitespace_lineBreak (text : Bytes) :
    skipWhitespace (0x0A :: text) = skipWhitespace text := rfl

theorem readMembers_lineBreak (fuel : ℕ) (text : Bytes) :
    readMembers fuel (0x0A :: text) = readMembers fuel text := by
  cases fuel with
  | zero => rfl
  | succ n => rw [readMembers, readMembers, skipWhitespace_lineBreak]

theorem readObjects_lineBreak (fuel : ℕ) (text : Bytes) :
    readObjects fuel (0x0A :: text) = readObjects fuel text := by
  cases fuel with
  | zero => rfl
  | succ n => rw [readObjects, readObjects, skipWhitespace_lineBreak]

theorem readMembers_fieldText {key : Bytes} (hkey : plain key = true) (value : JsonValue)
    (fuel : ℕ) (text : Bytes) :
    readMembers (fuel + 1) (fieldText (key, value) ++ text) =
      if escapesValue value then
        match skipWhitespace text with
        | [] => none
        | c :: text =>
            if c = 0x2C then (readMembers fuel text).map fun r => ((key, value) :: r.1, r.2)
            else if c = 0x7D then some ([(key, value)], text)
            else none
      else none := by
  have htext : fieldText (key, value) ++ text =
      ascii "      \"" ++ (key ++ 0x22 :: 0x3A :: 0x20 :: (valueText value ++ text)) := by
    unfold fieldText
    simp only [List.append_assoc]
    rfl
  have hquote : expect 0x22 (skipWhitespace (ascii "      \"" ++ (key ++
      0x22 :: 0x3A :: 0x20 :: (valueText value ++ text)))) =
      some (key ++ 0x22 :: 0x3A :: 0x20 :: (valueText value ++ text)) := rfl
  have hcolon : expect 0x3A (skipWhitespace (0x3A :: 0x20 :: (valueText value ++ text))) =
      some (0x20 :: (valueText value ++ text)) := rfl
  have hspace : skipWhitespace (0x20 :: (valueText value ++ text)) = valueText value ++ text := by
    cases value with
    | string s => rfl
    | bool b => cases b <;> rfl
  rw [readMembers, htext, hquote]
  simp only [Option.bind_eq_bind, Option.bind_some, readString_plain hkey, hcolon, hspace,
    readValue_valueText]
  split <;> rfl

/-- **The members of an object are read back.** -/
theorem readMembers_membersText {o : JsonObject} (hne : o ≠ [])
    (hkeys : ∀ f ∈ o, plain f.1 = true) (text : Bytes) :
    ∀ fuel, o.length ≤ fuel →
      readMembers fuel (membersText o ++ (ascii "\n    \x7d" ++ text)) =
        if o.all fun f => escapesValue f.2 then some (o, text) else none := by
  induction o with
  | nil => exact absurd rfl hne
  | cons f o ih =>
      obtain ⟨key, value⟩ := f
      have hkey := hkeys _ List.mem_cons_self
      intro fuel hfuel
      obtain ⟨fuel, rfl⟩ : ∃ n, fuel = n + 1 := ⟨fuel - 1, by simp at hfuel; omega⟩
      cases o with
      | nil =>
          show readMembers (fuel + 1) (fieldText (key, value) ++ _) = _
          rw [readMembers_fieldText hkey, List.all_cons, List.all_nil, Bool.and_true]
          rfl
      | cons f' o' =>
          have htext : membersText ((key, value) :: f' :: o') ++ (ascii "\n    \x7d" ++ text) =
              fieldText (key, value) ++ (0x2C :: 0x0A :: (membersText (f' :: o') ++
                (ascii "\n    \x7d" ++ text))) := by
            rw [membersText]
            · simp only [List.append_assoc]
              rfl
            · simp
          have hrest := ih (List.cons_ne_nil _ _) (fun f hf => hkeys f (List.mem_cons_of_mem _ hf))
            fuel (by simpa using hfuel)
          rw [htext, readMembers_fieldText hkey]
          show (if escapesValue value then (readMembers fuel (0x0A :: _)).map _ else none) = _
          rw [readMembers_lineBreak, hrest]
          show _ = if escapesValue value && (f' :: o').all (fun f => escapesValue f.2) then _ else _
          cases escapesValue value with
          | false => rfl
          | true =>
              rw [Bool.true_and, if_pos rfl]
              split <;> rfl

theorem length_fieldText (f : Bytes × JsonValue) : 0 < (fieldText f).length := by
  unfold fieldText
  simp only [List.append_assoc, List.length_append]
  exact Nat.add_pos_left (by decide) _

theorem length_membersText (o : JsonObject) : o.length ≤ (membersText o).length := by
  induction o with
  | nil => exact le_rfl
  | cons f o ih =>
      have hf := length_fieldText f
      cases o with
      | nil => exact hf
      | cons f' o' =>
          rw [membersText]
          · simp only [List.length_append, List.length_cons] at ih ⊢
            omega
          · simp

/-- One object of an array, up to the comma or the bracket that follows. -/
theorem readObjects_objectText {o : JsonObject} (hne : o ≠ [])
    (hkeys : ∀ f ∈ o, plain f.1 = true) (fuel : ℕ) (text : Bytes) :
    readObjects (fuel + 1) (objectText o ++ text) =
      if o.all fun f => escapesValue f.2 then
        match skipWhitespace text with
        | [] => none
        | c :: text =>
            if c = 0x2C then (readObjects fuel text).map fun r => (o :: r.1, r.2)
            else if c = 0x5D then some ([o], text)
            else none
      else none := by
  have htext : objectText o ++ text =
      ascii "    \x7b\n" ++ (membersText o ++ (ascii "\n    \x7d" ++ text)) := by
    unfold objectText
    simp only [List.append_assoc]
  have hbrace : expect 0x7B (skipWhitespace (ascii "    \x7b\n" ++
      (membersText o ++ (ascii "\n    \x7d" ++ text)))) =
      some (0x0A :: (membersText o ++ (ascii "\n    \x7d" ++ text))) := rfl
  have hmembers : ∀ fuel, o.length ≤ fuel →
      readMembers fuel (0x0A :: (membersText o ++ (ascii "\n    \x7d" ++ text))) =
        if o.all fun f => escapesValue f.2 then some (o, text) else none := by
    intro fuel hfuel
    rw [readMembers_lineBreak, readMembers_membersText hne hkeys text fuel hfuel]
  have hlength : o.length ≤
      (0x0A :: (membersText o ++ (ascii "\n    \x7d" ++ text))).length := by
    have := length_membersText o
    simp only [List.length_cons, List.length_append]
    omega
  rw [readObjects, htext, hbrace]
  simp only [Option.bind_eq_bind, Option.bind_some, hmembers _ hlength]
  split <;> rfl

/-- **The objects of an array are read back.** -/
theorem readObjects_objectsText {objects : List JsonObject} (hne : objects ≠ [])
    (hobjects : ∀ o ∈ objects, o ≠ [] ∧ ∀ f ∈ o, plain f.1 = true) (text : Bytes) :
    ∀ fuel, objects.length ≤ fuel →
      readObjects fuel (objectsText objects ++ (ascii "  ]" ++ text)) =
        if objects.all fun o => o.all fun f => escapesValue f.2 then some (objects, text)
        else none := by
  induction objects with
  | nil => exact absurd rfl hne
  | cons o objects ih =>
      obtain ⟨hone, hokeys⟩ := hobjects o List.mem_cons_self
      intro fuel hfuel
      obtain ⟨fuel, rfl⟩ : ∃ n, fuel = n + 1 := ⟨fuel - 1, by simp at hfuel; omega⟩
      cases objects with
      | nil =>
          have htext : objectsText [o] ++ (ascii "  ]" ++ text) =
              objectText o ++ (0x0A :: (ascii "  ]" ++ text)) := by
            rw [objectsText, List.append_assoc]
            rfl
          rw [htext, readObjects_objectText hone hokeys, List.all_cons, List.all_nil, Bool.and_true]
          rfl
      | cons o' objects' =>
          have htext : objectsText (o :: o' :: objects') ++ (ascii "  ]" ++ text) =
              objectText o ++ (0x2C :: 0x0A :: (objectsText (o' :: objects') ++
                (ascii "  ]" ++ text))) := by
            rw [objectsText]
            · simp only [List.append_assoc]
              rfl
            · simp
          have hrest := ih (List.cons_ne_nil _ _)
            (fun o ho => hobjects o (List.mem_cons_of_mem _ ho)) fuel (by simpa using hfuel)
          rw [htext, readObjects_objectText hone hokeys]
          show (if o.all _ then (readObjects fuel (0x0A :: _)).map _ else none) = _
          rw [readObjects_lineBreak, hrest]
          show _ = if o.all (fun f => escapesValue f.2) &&
            (o' :: objects').all (fun o => o.all fun f => escapesValue f.2) then _ else _
          cases o.all fun f => escapesValue f.2 with
          | false => rfl
          | true =>
              rw [Bool.true_and, if_pos rfl]
              split <;> rfl

theorem length_objectsText (objects : List JsonObject) :
    objects.length ≤ (objectsText objects).length := by
  induction objects with
  | nil => exact le_rfl
  | cons o objects ih =>
      have ho : 0 < (objectText o).length := by
        unfold objectText
        simp only [List.append_assoc, List.length_append]
        exact Nat.add_pos_left (by decide) _
      cases objects with
      | nil =>
          rw [objectsText, List.length_append]
          exact Nat.le_add_right_of_le ho
      | cons o' objects' =>
          rw [objectsText]
          · simp only [List.length_append, List.length_cons] at ih ⊢
            omega
          · simp

theorem readArray_objectsText {objects : List JsonObject}
    (hobjects : ∀ o ∈ objects, o ≠ [] ∧ ∀ f ∈ o, plain f.1 = true) (text : Bytes) :
    readArray (ascii " [\n" ++ (objectsText objects ++ (ascii "  ]" ++ text))) =
      if objects.all fun o => o.all fun f => escapesValue f.2 then some (objects, text)
      else none := by
  have hbracket : expect 0x5B (skipWhitespace (ascii " [\n" ++
      (objectsText objects ++ (ascii "  ]" ++ text)))) =
      some (0x0A :: (objectsText objects ++ (ascii "  ]" ++ text))) := rfl
  unfold readArray
  rw [hbracket]
  cases objects with
  | nil => rfl
  | cons o objects =>
      have hopen : expect 0x5D (skipWhitespace (0x0A :: (objectsText (o :: objects) ++
          (ascii "  ]" ++ text)))) = none := by
        cases objects <;> rfl
      have hlength := length_objectsText (o :: objects)
      have hread := readObjects_objectsText (List.cons_ne_nil o objects) hobjects text
        ((0x0A :: (objectsText (o :: objects) ++ (ascii "  ]" ++ text))).length) (by
          simp only [List.length_cons, List.length_append] at hlength ⊢
          omega)
      simp only [Option.bind_eq_bind, Option.bind_some, hopen]
      rw [← hread]
      rfl

/-! ## UTF-8 of a whole document -/

theorem validUtf8_valueText (value : JsonValue) (text : Bytes) :
    validUtf8 (valueText value ++ text) = (validValue value && validUtf8 text) := by
  cases value with
  | string s => exact validUtf8_string s text
  | bool b =>
      cases b with
      | true => exact validUtf8_ascii (by decide) text
      | false => exact validUtf8_ascii (by decide) text

theorem validUtf8_fieldText {f : Bytes × JsonValue} (hkey : plain f.1 = true) (text : Bytes) :
    validUtf8 (fieldText f ++ text) = (validValue f.2 && validUtf8 text) := by
  unfold fieldText
  simp only [List.append_assoc]
  rw [validUtf8_ascii (by decide), validUtf8_ascii (ascii_of_plain hkey),
    validUtf8_ascii (by decide), validUtf8_valueText]

theorem validUtf8_membersText {o : JsonObject} (hkeys : ∀ f ∈ o, plain f.1 = true) (text : Bytes) :
    validUtf8 (membersText o ++ text) = (o.all (fun f => validValue f.2) && validUtf8 text) := by
  induction o with
  | nil => rfl
  | cons f o ih =>
      have hkey := hkeys f List.mem_cons_self
      cases o with
      | nil =>
          rw [membersText, validUtf8_fieldText hkey, List.all_cons, List.all_nil, Bool.and_true]
      | cons f' o' =>
          rw [membersText, List.append_assoc, List.append_assoc, validUtf8_fieldText hkey,
            validUtf8_ascii (by decide), ih fun f hf => hkeys f (List.mem_cons_of_mem _ hf),
            ← Bool.and_assoc]
          · rfl
          · simp

theorem validUtf8_objectText {o : JsonObject} (hkeys : ∀ f ∈ o, plain f.1 = true) (text : Bytes) :
    validUtf8 (objectText o ++ text) = (o.all (fun f => validValue f.2) && validUtf8 text) := by
  unfold objectText
  rw [List.append_assoc, List.append_assoc, validUtf8_ascii (by decide),
    validUtf8_membersText hkeys, validUtf8_ascii (by decide)]

theorem validUtf8_objectsText {objects : List JsonObject}
    (hkeys : ∀ o ∈ objects, ∀ f ∈ o, plain f.1 = true) (text : Bytes) :
    validUtf8 (objectsText objects ++ text) =
      (objects.all (fun o => o.all fun f => validValue f.2) && validUtf8 text) := by
  induction objects with
  | nil => rfl
  | cons o objects ih =>
      have hkey := hkeys o List.mem_cons_self
      cases objects with
      | nil =>
          rw [objectsText, List.append_assoc, validUtf8_objectText hkey,
            validUtf8_ascii (by decide), List.all_cons, List.all_nil, Bool.and_true]
      | cons o' objects' =>
          rw [objectsText, List.append_assoc, List.append_assoc, validUtf8_objectText hkey,
            validUtf8_ascii (by decide), ih fun o ho => hkeys o (List.mem_cons_of_mem _ ho),
            ← Bool.and_assoc]
          · rfl
          · simp

/-- The text of a document up to its closing brace. -/
def bodyText (key : Bytes) (objects : List JsonObject) : Bytes :=
  ascii "\x7b\n  \"" ++ key ++ ascii "\": [\n" ++ objectsText objects ++ ascii "  ]\n\x7d"

theorem documentText_eq (key : Bytes) (objects : List JsonObject) :
    documentText key objects = bodyText key objects ++ [0x0A] := by
  unfold documentText bodyText
  simp only [List.append_assoc]
  rfl

section Body

variable {key : Bytes} (hkey : plain key = true) {objects : List JsonObject}
  (hobjects : ∀ o ∈ objects, o ≠ [] ∧ ∀ f ∈ o, plain f.1 = true)

include hkey hobjects

theorem validUtf8_bodyText (text : Bytes) :
    validUtf8 (bodyText key objects ++ text) =
      (objects.all (fun o => o.all fun f => validValue f.2) && validUtf8 text) := by
  unfold bodyText
  simp only [List.append_assoc]
  rw [validUtf8_ascii (by decide), validUtf8_ascii (ascii_of_plain hkey),
    validUtf8_ascii (by decide), validUtf8_objectsText fun o ho => (hobjects o ho).2,
    validUtf8_ascii (by decide)]

theorem readBody_bodyText (text : Bytes) :
    readBody key (bodyText key objects ++ text) =
      if objects.all fun o => o.all fun f => escapesValue f.2 then some (objects, text)
      else none := by
  have htext : bodyText key objects ++ text = ascii "\x7b\n  \"" ++ (key ++ 0x22 :: 0x3A ::
      (ascii " [\n" ++ (objectsText objects ++ (ascii "  ]" ++ (ascii "\n\x7d" ++ text))))) := by
    unfold bodyText
    simp only [List.append_assoc]
    rfl
  have hstart : ∀ t, expect 0x7B (skipWhitespace (ascii "\x7b\n  \"" ++ t)) =
      some (ascii "\n  \"" ++ t) := fun t => rfl
  have hquote : ∀ t, expect 0x22 (skipWhitespace (ascii "\n  \"" ++ t)) = some t :=
    fun t => rfl
  have hcolon : ∀ t, expect 0x3A (skipWhitespace (0x3A :: t)) = some t := fun t => rfl
  unfold readBody
  simp only [htext, hstart, hquote, Option.bind_eq_bind, Option.bind_some,
    readString_plain hkey, hcolon, readArray_objectsText hobjects]
  split
  · simp only [Option.bind_some]
    rfl
  · rfl

/-- A document may end with white space. -/
theorem readDocument_bodyText {text : Bytes} (hspace : skipWhitespace text = [])
    (hvalid : validUtf8 text = true) :
    readDocument key (bodyText key objects ++ text) =
      if objects.all acceptsObject then some objects else none := by
  have haccepts : objects.all acceptsObject =
      (objects.all (fun o => o.all fun f => validValue f.2) &&
        objects.all fun o => o.all fun f => escapesValue f.2) := by
    rw [Bool.eq_iff_iff, Bool.and_eq_true, List.all_eq_true, List.all_eq_true, List.all_eq_true,
      ← forall₂_and]
    refine forall₂_congr fun o _ => ?_
    rw [acceptsObject_eq, Bool.and_eq_true]
  rw [readDocument_eq, validUtf8_bodyText hkey hobjects, readBody_bodyText hkey hobjects,
    haccepts, hvalid, Bool.and_true]
  cases objects.all fun o => o.all fun f => validValue f.2 with
  | false => rfl
  | true =>
      rw [if_pos rfl, Bool.true_and]
      split
      · simp [hspace]
      · rfl

end Body

end BlankChat.Core
