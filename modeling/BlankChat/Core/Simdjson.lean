import BlankChat.Core.JsonCut
import BlankChat.Core.JsonLineCut

/-!
# The JSON library

The client reads three kinds of text with simdjson: the contacts, an array of objects; the
histories, one object a line; the identity, an object with two strings. The library is a
parameter of all that reads them. `Simdjson` has what the client asks it for, and says of the
answers no more than what RFC 8259 says about the texts that the client writes, and what holds
of their beginnings: a root object without its closing brace is rejected, but a loop over an
array may get some objects before it meets the end.

The readers of `JsonText` and `JsonLine` are such a library, `eager`: it checks a text to its
end before it looks for anything in it.
-/

namespace BlankChat.Core

open Lib

/-! ## An object with two strings -/

def keyLine (field : Bytes × Bytes) : Bytes :=
  ascii "  \"" ++ field.1 ++ ascii "\": \"" ++ field.2 ++ ascii "\""

/-- The text of the object up to its closing brace. -/
def pairBody (f f' : Bytes × Bytes) : Bytes :=
  0x7B :: 0x0A :: (keyLine f ++ 0x2C :: 0x0A :: (keyLine f' ++ [0x0A, 0x7D]))

def pairText (f f' : Bytes × Bytes) : Bytes := pairBody f f' ++ [0x0A]

def pairObject (f f' : Bytes × Bytes) : JsonObject := [(f.1, .string f.2), (f'.1, .string f'.2)]

/-- The key and the string need no escapes. -/
def PlainField (f : Bytes × Bytes) : Prop := plain f.1 = true ∧ plain f.2 = true

/-- An object and what follows it. -/
def readObject (text : Bytes) : Option (JsonObject × Bytes) := do
  let text ← expect 0x7B (skipWhitespace text)
  readMembers text.length text

/-- The object that a text is. -/
def readRoot (text : Bytes) : Option JsonObject :=
  if validUtf8 text then
    (readObject text).bind fun r => if skipWhitespace r.2 = [] then some r.1 else none
  else none

section Pair

variable {f f' : Bytes × Bytes}

theorem readMembers_keyLine (hf : PlainField f) (fuel : ℕ) (text : Bytes) :
    readMembers (fuel + 1) (keyLine f ++ text) =
      match skipWhitespace text with
      | [] => none
      | c :: text =>
          if c = 0x2C then
            (readMembers fuel text).map fun r => ((f.1, .string f.2) :: r.1, r.2)
          else if c = 0x7D then some ([(f.1, .string f.2)], text)
          else none := by
  have htext : keyLine f ++ text =
      ascii "  \"" ++ (f.1 ++ 0x22 :: 0x3A :: 0x20 :: 0x22 :: (f.2 ++ 0x22 :: text)) := by
    unfold keyLine
    simp [ascii]
  have hquote : ∀ t, expect 0x22 (skipWhitespace (ascii "  \"" ++ t)) = some t := fun t => rfl
  have hcolon : ∀ t : Bytes, expect 0x3A (skipWhitespace (0x3A :: t)) = some t := fun t => rfl
  have hread : readValue (skipWhitespace (0x20 :: 0x22 :: (f.2 ++ 0x22 :: text))) =
      some (.string f.2, text) := by
    show (readString (f.2 ++ 0x22 :: text)).map _ = _
    rw [readString_plain hf.2]
    rfl
  rw [readMembers, htext, hquote]
  cases hskip : skipWhitespace text with
  | nil =>
      simp only [Option.bind_eq_bind, Option.bind_some, readString_plain hf.1, hcolon, hread, hskip]
  | cons c rest =>
      simp only [Option.bind_eq_bind, Option.bind_some, readString_plain hf.1, hcolon, hread, hskip]

theorem readMembers_keyLines (hf : PlainField f) (hf' : PlainField f') (fuel : ℕ) (text : Bytes) :
    readMembers (fuel + 2) (0x0A :: (keyLine f ++
      0x2C :: 0x0A :: (keyLine f' ++ 0x0A :: 0x7D :: text))) = some (pairObject f f', text) := by
  have hcomma : ∀ t : Bytes, skipWhitespace (0x2C :: t) = 0x2C :: t := fun _ => rfl
  have hbrace : ∀ t : Bytes, skipWhitespace (0x0A :: 0x7D :: t) = 0x7D :: t := fun _ => rfl
  rw [readMembers_lineBreak, readMembers_keyLine hf]
  simp only [hcomma, if_true]
  rw [readMembers_lineBreak, readMembers_keyLine hf']
  simp only [hbrace, if_true]
  rw [if_neg (by decide)]
  rfl

theorem readObject_pairBody (hf : PlainField f) (hf' : PlainField f') (text : Bytes) :
    readObject (pairBody f f' ++ text) = some (pairObject f f', text) := by
  have hbrace : ∀ t : Bytes, expect 0x7B (skipWhitespace (0x7B :: t)) = some t := fun _ => rfl
  unfold pairBody
  simp only [List.cons_append, List.append_assoc, List.nil_append]
  rw [readObject, hbrace, Option.bind_eq_bind, Option.bind_some, List.length_cons,
    List.length_append, List.length_cons]
  exact readMembers_keyLines hf hf' _ text

theorem readObject_append {text rest : Bytes} {o : JsonObject}
    (h : readObject text = some (o, rest)) (more : Bytes) :
    readObject (text ++ more) = some (o, rest ++ more) := by
  unfold readObject at h ⊢
  obtain ⟨t, hbrace, hmembers⟩ := Option.bind_eq_some_iff.mp h
  simp only [expect_append hbrace, Option.bind_eq_bind, Option.bind_some]
  exact readMembers_append (by simp) hmembers more

theorem validUtf8_pairBody (hf : PlainField f) (hf' : PlainField f') (text : Bytes) :
    validUtf8 (pairBody f f' ++ text) = validUtf8 text := by
  have hkeyLine : ∀ f, PlainField f → (keyLine f).all (· < 0x80) = true := by
    intro f hf
    unfold keyLine
    simp only [List.all_append, Bool.and_eq_true]
    exact ⟨⟨⟨⟨by decide, ascii_of_plain hf.1⟩, by decide⟩, ascii_of_plain hf.2⟩, by decide⟩
  apply validUtf8_ascii
  unfold pairBody
  simp only [List.all_cons, List.all_append, hkeyLine f hf, hkeyLine f' hf', Bool.true_and]
  decide

/-- The text, with its last line break or without it. -/
theorem readRoot_pairBody (hf : PlainField f) (hf' : PlainField f') {text : Bytes}
    (hutf8 : validUtf8 text = true) (hspace : skipWhitespace text = []) :
    readRoot (pairBody f f' ++ text) = some (pairObject f f') := by
  rw [readRoot, if_pos (by rw [validUtf8_pairBody hf hf', hutf8]), readObject_pairBody hf hf',
    Option.bind_some, if_pos hspace]

theorem readRoot_whole (hf : PlainField f) (hf' : PlainField f') {n : ℕ}
    (hn : (pairText f f').length ≤ n + 1) :
    readRoot ((pairText f f').take n) = some (pairObject f f') := by
  rw [pairText, List.length_append, List.length_singleton] at hn
  rw [pairText, List.take_append, List.take_of_length_le (by omega)]
  cases n - (pairBody f f').length with
  | zero => exact readRoot_pairBody hf hf' rfl rfl
  | succ m =>
      rw [List.take_of_length_le (by simp)]
      exact readRoot_pairBody hf hf' rfl rfl

/-- A text that ends before the closing brace is not an object. -/
theorem readRoot_cut (hf : PlainField f) (hf' : PlainField f') {n : ℕ}
    (hn : n + 1 < (pairText f f').length) : readRoot ((pairText f f').take n) = none := by
  rw [pairText, List.length_append, List.length_singleton] at hn
  rw [pairText, List.take_append_of_le_length (by omega)]
  by_contra hne
  obtain ⟨o', hread⟩ := Option.ne_none_iff_exists'.mp hne
  rw [readRoot] at hread
  split at hread
  · obtain ⟨⟨o, rest⟩, hobject, -⟩ := Option.bind_eq_some_iff.mp hread
    -- read on to the end of the object: nothing is left there, so nothing was missing
    have hlonger := readObject_append hobject ((pairBody f f').drop n)
    have hwhole := readObject_pairBody hf hf' []
    rw [List.take_append_drop] at hlonger
    rw [List.append_nil, hlonger] at hwhole
    have hrest : rest ++ (pairBody f f').drop n = [] :=
      congrArg Prod.snd (Option.some.inj hwhole)
    have hdrop := List.drop_eq_nil_iff.mp (List.append_eq_nil_iff.mp hrest).2
    omega
  · cases hread

end Pair

/-! ## The library -/

/-- The objects have members, and their keys need no escapes. -/
def PlainKeys (objects : List JsonObject) : Prop :=
  ∀ o ∈ objects, o ≠ [] ∧ ∀ f ∈ o, plain f.1 = true

/-- What the client gets from simdjson. -/
structure Simdjson : Type where
  /-- the objects that a loop over the array under a key gets -/
  objects : Bytes → Bytes → List JsonObject
  /-- the object on a line -/
  line : Bytes → Option LineObject
  /-- the object that a text is -/
  root : Bytes → Option JsonObject
  /-- a document that is complete, up to the line break at its end: all of its objects, or none
  because of one string -/
  objects_whole : ∀ {key : Bytes} {os : List JsonObject} {n : ℕ}, plain key = true →
    PlainKeys os → (documentText key os).length ≤ n + 1 →
    objects key ((documentText key os).take n) = if os.all acceptsObject then os else []
  /-- a document that is not: some of the first ones -/
  objects_cut : ∀ {key : Bytes} {os : List JsonObject} {n : ℕ}, plain key = true →
    PlainKeys os → n + 1 < (documentText key os).length →
    ∃ k, objects key ((documentText key os).take n) = os.take k
  line_whole : ∀ {o : LineObject}, WellFormedLine o →
    line (lineText o) = if acceptsLine o then some o else none
  line_cut : ∀ {o : LineObject} {n : ℕ}, WellFormedLine o → n < (lineText o).length →
    line ((lineText o).take n) = none
  root_whole : ∀ {f f' : Bytes × Bytes} {n : ℕ}, PlainField f → PlainField f' →
    (pairText f f').length ≤ n + 1 → root ((pairText f f').take n) = some (pairObject f f')
  root_cut : ∀ {f f' : Bytes × Bytes} {n : ℕ}, PlainField f → PlainField f' →
    n + 1 < (pairText f f').length → root ((pairText f f').take n) = none

/-- **A document is read back from its text**, or rejected as a whole because of one
string. -/
theorem Simdjson.objects_documentText (J : Simdjson) {key : Bytes} {os : List JsonObject}
    (hkey : plain key = true) (hos : PlainKeys os) :
    J.objects key (documentText key os) = if os.all acceptsObject then os else [] := by
  have hwhole := J.objects_whole hkey hos (Nat.le_succ (documentText key os).length)
  rw [List.take_length] at hwhole
  exact hwhole

/-- The array under the key, if the document is accepted. -/
def readArrayOf (key text : Bytes) : List JsonObject := (readDocument key text).getD []

section Eager

variable {key : Bytes} {os : List JsonObject} {n : ℕ}

theorem readArrayOf_whole (hkey : plain key = true) (hos : PlainKeys os)
    (hn : (documentText key os).length ≤ n + 1) :
    readArrayOf key ((documentText key os).take n) = if os.all acceptsObject then os else [] := by
  rw [readArrayOf, readDocument_whole hkey hos hn]
  split <;> rfl

theorem readArrayOf_cut (hkey : plain key = true) (hos : PlainKeys os)
    (hn : n + 1 < (documentText key os).length) :
    readArrayOf key ((documentText key os).take n) = [] := by
  rw [readArrayOf, readDocument_cut hkey hos hn]
  rfl

end Eager

/-- A library that looks at the whole text first. -/
def eager : Simdjson where
  objects := readArrayOf
  line := readLine
  root := readRoot
  objects_whole := readArrayOf_whole
  objects_cut := fun hkey hos hn => ⟨0, readArrayOf_cut hkey hos hn⟩
  line_whole := readLine_lineText
  line_cut := fun ho hn => readLine_cut ho hn
  root_whole := fun hf hf' hn => readRoot_whole hf hf' hn
  root_cut := fun hf hf' hn => readRoot_cut hf hf' hn

end BlankChat.Core
