import BlankChat.Lib.Bytes

/-!
# Hex strings and escapes — `string_utils.cpp`

Strings are byte strings, as `std::string` is. `HexCharToInt` returns `-1` for a
character that is no digit; here that is `none`.
-/

namespace BlankChat.Core

open Lib

/-- The bytes of an ASCII literal. -/
def ascii (s : String) : Bytes := s.toList.map fun c => UInt8.ofNat c.toNat

def hexCharToInt (c : UInt8) : Option UInt8 :=
  if 0x30 ≤ c ∧ c ≤ 0x39 then some (c - 0x30)
  else if 0x61 ≤ c ∧ c ≤ 0x66 then some (c - 0x61 + 10)
  else if 0x41 ≤ c ∧ c ≤ 0x46 then some (c - 0x41 + 10)
  else none

/-- `"0123456789abcdef"[v & 0x0F]`. -/
def hexIntToChar (v : UInt8) : UInt8 :=
  (ascii "0123456789abcdef").getD (v &&& 0x0F).toNat 0

/-- `EncodeHex`. -/
def encodeHex (data : Bytes) : Bytes :=
  data.flatMap fun (b : UInt8) => [hexIntToChar (b >>> 4), hexIntToChar (b &&& 0x0F)]

/-- The loop of `DecodeHexToArray`: `done` has been written, `out` is what the
rest of the array holds. -/
def decodeHexLoop : Bytes → Bytes → Bytes → Bool × Bytes
  | h :: l :: hex, done, o :: out =>
      match hexCharToInt h, hexCharToInt l with
      | some high, some low =>
          decodeHexLoop hex (done ++ [(high <<< 4) ||| low]) out
      | _, _ => (false, done ++ o :: out)
  | _, done, out => (true, done ++ out)

/-- `DecodeHexToArray`: success, and the array afterwards. -/
def decodeHexToArray (hexStr outArray : Bytes) : Bool × Bytes :=
  if hexStr.length ≠ outArray.length * 2 then (false, outArray)
  else decodeHexLoop hexStr [] outArray

/-- What `EscapeJsonString` appends for a character. -/
def escapeJsonChar (c : UInt8) : Bytes :=
  if c = 0x22 then ascii "\\\""
  else if c = 0x5C then ascii "\\\\"
  else if c = 0x08 then ascii "\\b"
  else if c = 0x0C then ascii "\\f"
  else if c = 0x0A then ascii "\\n"
  else if c = 0x0D then ascii "\\r"
  else if c = 0x09 then ascii "\\t"
  else [c]

/-- `EscapeJsonString`. -/
def escapeJsonString (input : Bytes) : Bytes := input.flatMap escapeJsonChar

/-! ## Decoding what was encoded -/

@[simp] theorem encodeHex_nil : encodeHex [] = [] := rfl

@[simp] theorem encodeHex_cons (b : UInt8) (l : Bytes) :
    encodeHex (b :: l) =
      hexIntToChar (b >>> 4) :: hexIntToChar (b &&& 0x0F) :: encodeHex l := rfl

@[simp] theorem encodeHex_length (l : Bytes) :
    (encodeHex l).length = l.length * 2 := by
  induction l with
  | nil => rfl
  | cons b l ih =>
      simp only [encodeHex_cons, List.length_cons, ih]
      omega

/-- Every byte is rebuilt from the digits of its two halves. -/
theorem hexCharToInt_hexIntToChar : ∀ b : UInt8,
    ∃ high low, hexCharToInt (hexIntToChar (b >>> 4)) = some high ∧
      hexCharToInt (hexIntToChar (b &&& 0x0F)) = some low ∧
      (high <<< 4) ||| low = b := by
  have key : ∀ b : UInt8,
      hexCharToInt (hexIntToChar (b >>> 4)) = some (b >>> 4) ∧
        hexCharToInt (hexIntToChar (b &&& 0x0F)) = some (b &&& 0x0F) ∧
        ((b >>> 4) <<< 4) ||| (b &&& 0x0F) = b := forall_byte (by decide +kernel)
  intro b
  exact ⟨_, _, key b⟩

theorem decodeHexLoop_encodeHex (l : Bytes) :
    ∀ {done out : Bytes}, out.length = l.length →
      decodeHexLoop (encodeHex l) done out = (true, done ++ l) := by
  induction l with
  | nil =>
      intro done out h
      obtain rfl : out = [] := List.eq_nil_of_length_eq_zero h
      rfl
  | cons b l ih =>
      intro done out h
      cases out with
      | nil => cases h
      | cons o out =>
          obtain ⟨high, low, hh, hl, hb⟩ := hexCharToInt_hexIntToChar b
          rw [encodeHex_cons, decodeHexLoop, hh, hl]
          simp only [hb]
          rw [ih (by simpa using h), List.append_assoc, List.singleton_append]

theorem decodeHexToArray_encodeHex {l out : Bytes} (h : out.length = l.length) :
    decodeHexToArray (encodeHex l) out = (true, l) := by
  rw [decodeHexToArray, if_neg (by rw [encodeHex_length, h]; simp),
    decodeHexLoop_encodeHex l h, List.nil_append]

end BlankChat.Core
