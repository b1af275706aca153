import BlankChat.Core.StringUtils

/-!
# JSON objects as the JSON library returns them

The client writes its files as text and reads them with simdjson. A file is
modelled by the objects in it; the text between the two is represented by what any
library that follows RFC 8259 says about it (`Simdjson`): `acceptsString` tells whether
a string, written between quotes by `EscapeJsonString`, is accepted (valid UTF-8, and no
control character left unescaped), and one string that is not makes the library reject
the whole document.

An object is read through a cursor: `find_field` looks from the cursor on only,
`find_field_unordered` goes once around.
-/

namespace BlankChat.Core

open Lib

inductive JsonValue : Type where
  | string (s : Bytes)
  | bool (b : Bool)
deriving DecidableEq

abbrev JsonObject : Type := List (Bytes × JsonValue)

/-! ## Which strings survive the text -/

/-- `need` more continuation bytes are expected, the next one between `lo` and
`hi`. -/
def utf8Loop : ℕ → UInt8 → UInt8 → Bytes → Bool
  | need, _, _, [] => need = 0
  | 0, _, _, b :: bs =>
      if b < 0x80 then utf8Loop 0 0 0 bs
      else if 0xC2 ≤ b ∧ b ≤ 0xDF then utf8Loop 1 0x80 0xBF bs
      else if b = 0xE0 then utf8Loop 2 0xA0 0xBF bs
      else if b = 0xED then utf8Loop 2 0x80 0x9F bs
      else if 0xE1 ≤ b ∧ b ≤ 0xEF then utf8Loop 2 0x80 0xBF bs
      else if b = 0xF0 then utf8Loop 3 0x90 0xBF bs
      else if 0xF1 ≤ b ∧ b ≤ 0xF3 then utf8Loop 3 0x80 0xBF bs
      else if b = 0xF4 then utf8Loop 3 0x80 0x8F bs
      else false
  | need + 1, lo, hi, b :: bs => lo ≤ b && b ≤ hi && utf8Loop need 0x80 0xBF bs

def validUtf8 (s : Bytes) : Bool := utf8Loop 0 0 0 s

/-- The control characters for which `EscapeJsonString` has an escape. -/
def escapedControl (b : UInt8) : Bool :=
  b = 0x08 || b = 0x0C || b = 0x0A || b = 0x0D || b = 0x09

def acceptsString (s : Bytes) : Bool :=
  validUtf8 s && s.all fun b => 0x20 ≤ b || escapedControl b

def acceptsObject (o : JsonObject) : Bool :=
  o.all fun field =>
    match field.2 with
    | .string s => acceptsString s
    | .bool _ => true

/-! ## Looking fields up -/

/-- An object with a cursor: the fields before it and those after it. -/
structure JsonCursor : Type where
  passed : JsonObject
  ahead : JsonObject

def JsonCursor.start (o : JsonObject) : JsonCursor := ⟨[], o⟩

/-- The first field with the given key: its value, the fields up to it and those
after it. -/
def splitAtKey (key : Bytes) : JsonObject → Option (JsonValue × JsonObject × JsonObject)
  | [] => none
  | field :: fields =>
      if field.1 = key then some (field.2, [field], fields)
      else (splitAtKey key fields).map fun r => (r.1, field :: r.2.1, r.2.2)

/-- `find_field`. -/
def JsonCursor.findField (c : JsonCursor) (key : Bytes) : Option JsonValue × JsonCursor :=
  match splitAtKey key c.ahead with
  | some (value, upTo, rest) => (some value, ⟨c.passed ++ upTo, rest⟩)
  | none => (none, ⟨c.passed ++ c.ahead, []⟩)

/-- `find_field_unordered`. -/
def JsonCursor.findFieldUnordered (c : JsonCursor) (key : Bytes) :
    Option JsonValue × JsonCursor :=
  match splitAtKey key c.ahead with
  | some (value, upTo, rest) => (some value, ⟨c.passed ++ upTo, rest⟩)
  | none =>
      match splitAtKey key c.passed with
      | some (value, upTo, rest) => (some value, ⟨upTo, rest ++ c.ahead⟩)
      | none => (none, c)

/-- `get` into a string: an error for a missing field or another type. -/
def getString : Option JsonValue → Option Bytes
  | some (.string s) => some s
  | _ => none

/-- `get` into a boolean. -/
def getBool : Option JsonValue → Option Bool
  | some (.bool b) => some b
  | _ => none

/-! ## Hex digits are accepted -/

theorem hexIntToChar_printable (v : UInt8) :
    hexIntToChar v < 0x80 ∧ 0x20 ≤ hexIntToChar v := by
  revert v
  apply forall_byte
  decide +kernel

theorem acceptsString_cons {b : UInt8} (hlt : b < 0x80) (hle : 0x20 ≤ b) (s : Bytes) :
    acceptsString (b :: s) = acceptsString s := by
  unfold acceptsString validUtf8
  rw [utf8Loop, if_pos hlt, List.all_cons]
  simp [hle]

theorem acceptsString_encodeHex (l : Bytes) : acceptsString (encodeHex l) = true := by
  induction l with
  | nil => rfl
  | cons b l ih =>
      obtain ⟨hhigh, hhigh'⟩ := hexIntToChar_printable (b >>> 4)
      obtain ⟨hlow, hlow'⟩ := hexIntToChar_printable (b &&& 0x0F)
      rw [encodeHex_cons, acceptsString_cons hhigh hhigh', acceptsString_cons hlow hlow', ih]

end BlankChat.Core
