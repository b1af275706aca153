import BlankChat.Core.StringUtils

/-!
# Hex strings, in both directions — `string_utils.cpp`

`EncodeHex` writes two lower-case digits a byte; `DecodeHexToArray` reads digits of either
case into an array of a given size. Here the loop is also written as the source has it, with
an index into the string: a read outside is `none`, and there is none (`decodeHexAt_eq`).

Main result: `hex_bijective`. What was encoded is decoded, and what can be decoded is, up to
the case of its digits, what was encoded.
-/

namespace BlankChat.Core

open Lib

/-! ## The loop by index -/

/-- The loop of `DecodeHexToArray` for `n` more bytes from index `i` on. -/
def decodeHexAt (hexStr : Bytes) : ℕ → ℕ → Bytes → Option (Bool × Bytes)
  | 0, _, outArray => some (true, outArray)
  | n + 1, i, outArray => do
      let h ← hexStr[i * 2]?
      let l ← hexStr[i * 2 + 1]?
      match hexCharToInt h, hexCharToInt l with
      | some high, some low => decodeHexAt hexStr n (i + 1) (outArray.set i ((high <<< 4) ||| low))
      | _, _ => some (false, outArray)

/-- `DecodeHexToArray` with its reads: `none` if one of them is outside the string. -/
def decodeHexReading (hexStr outArray : Bytes) : Option (Bool × Bytes) :=
  if hexStr.length ≠ outArray.length * 2 then some (false, outArray)
  else decodeHexAt hexStr outArray.length 0 outArray

theorem exists_pair_cons {hex : Bytes} {n : ℕ} (h : hex.length = (n + 1) * 2) :
    ∃ c c' rest, hex = c :: c' :: rest ∧ rest.length = n * 2 := by
  rcases hex with _ | ⟨c, _ | ⟨c', rest⟩⟩
  · simp at h
  · simp only [List.length_cons, List.length_nil] at h
    omega
  · simp only [List.length_cons] at h
    exact ⟨c, c', rest, rfl, by omega⟩

theorem read_of_drop {hex rest : Bytes} {i : ℕ} {c : UInt8} (h : hex.drop i = c :: rest) :
    hex[i]? = some c ∧ hex.drop (i + 1) = rest := by
  refine ⟨?_, ?_⟩
  · rw [← List.head?_drop, h]
    rfl
  · rw [← List.drop_drop, h]
    rfl

/-- From index `i` on, the loop does what the list model does with the rest of the string and
the rest of the array. -/
theorem decodeHexAt_eq (hex : Bytes) :
    ∀ (n : ℕ) (done out rest : Bytes), rest.length = n * 2 → out.length = n →
      hex.drop (done.length * 2) = rest →
      decodeHexAt hex n done.length (done ++ out) = some (decodeHexLoop rest done out) := by
  intro n
  induction n with
  | zero =>
      intro done out rest hrest hout hdrop
      rw [List.eq_nil_of_length_eq_zero (hrest.trans (Nat.zero_mul 2)),
        List.eq_nil_of_length_eq_zero hout]
      rfl
  | succ n ih =>
      intro done out rest hrest hout hdrop
      obtain ⟨o, out, rfl⟩ := List.exists_cons_of_length_eq_add_one hout
      obtain ⟨h, l, rest, rfl, hlength⟩ := exists_pair_cons hrest
      obtain ⟨hhigh, htail⟩ := read_of_drop hdrop
      obtain ⟨hlow, htail⟩ := read_of_drop htail
      rw [decodeHexAt, hhigh, hlow, decodeHexLoop]
      simp only [Option.bind_eq_bind, Option.bind_some]
      cases hexCharToInt h with
      | none => rfl
      | some high =>
          cases hexCharToInt l with
          | none => rfl
          | some low =>
              -- the byte is written, and the index moves on
              have hset : (done ++ o :: out).set done.length ((high <<< 4) ||| low) =
                  (done ++ [(high <<< 4) ||| low]) ++ out := by
                simp
              have hnext : hex.drop ((done ++ [(high <<< 4) ||| low]).length * 2) = rest := by
                rw [List.length_append, List.length_singleton, Nat.succ_mul]
                exact htail
              have hloop := ih _ out rest hlength (Nat.succ.inj hout) hnext
              rw [List.length_append, List.length_singleton] at hloop
              simp only [hset]
              exact hloop

/-- **Every read is inside the string.** -/
theorem decodeHexReading_eq (hexStr outArray : Bytes) :
    decodeHexReading hexStr outArray = some (decodeHexToArray hexStr outArray) := by
  unfold decodeHexReading decodeHexToArray
  split
  · rfl
  · next hlength =>
      exact decodeHexAt_eq hexStr outArray.length [] outArray hexStr (not_not.mp hlength) rfl rfl

/-! ## Digits -/

/-- A hexadecimal digit of either case. -/
def HexDigit (c : UInt8) : Prop :=
  0x30 ≤ c ∧ c ≤ 0x39 ∨ 0x41 ≤ c ∧ c ≤ 0x46 ∨ 0x61 ≤ c ∧ c ≤ 0x66

instance (c : UInt8) : Decidable (HexDigit c) := inferInstanceAs (Decidable (_ ∨ _))

def toLower (c : UInt8) : UInt8 := if 0x41 ≤ c ∧ c ≤ 0x5A then c + 0x20 else c

/-- What a digit is worth is the digit again, in lower case. -/
theorem hexCharToInt_cases (c : UInt8) :
    (∃ v, hexCharToInt c = some v ∧ HexDigit c ∧ v < 16 ∧ hexIntToChar v = toLower c) ∨
      hexCharToInt c = none ∧ ¬ HexDigit c := by
  -- the value as a member of an option, so that the cases can be checked
  have key : ∀ c : UInt8,
      (∃ v ∈ hexCharToInt c, HexDigit c ∧ v < 16 ∧ hexIntToChar v = toLower c) ∨
        hexCharToInt c = none ∧ ¬ HexDigit c := forall_byte (by decide +kernel)
  exact key c

theorem halves {high low : UInt8} (hhigh : high < 16) (hlow : low < 16) :
    ((high <<< 4) ||| low) >>> 4 = high ∧ ((high <<< 4) ||| low) &&& 0x0F = low := by
  have key : ∀ h l : Fin 16,
      ((UInt8.ofNat h.val <<< 4) ||| UInt8.ofNat l.val) >>> 4 = UInt8.ofNat h.val ∧
        ((UInt8.ofNat h.val <<< 4) ||| UInt8.ofNat l.val) &&& 0x0F = UInt8.ofNat l.val := by
    decide +kernel
  have h := key ⟨high.toNat, hhigh⟩ ⟨low.toNat, hlow⟩
  simpa only [UInt8.ofNat_toNat] using h

/-! ## What is decoded -/

/-- The loop succeeds exactly on digits; the bytes it has written then encode to the digits in
lower case. -/
theorem decodeHexLoop_spec (n : ℕ) :
    ∀ (hex done out : Bytes), hex.length = n * 2 → out.length = n →
      ((decodeHexLoop hex done out).1 = true ↔ ∀ c ∈ hex, HexDigit c) ∧
      ((decodeHexLoop hex done out).1 = true →
        ∃ bytes, (decodeHexLoop hex done out).2 = done ++ bytes ∧
          encodeHex bytes = hex.map toLower) := by
  induction n with
  | zero =>
      intro hex done out hhex hout
      obtain rfl := List.eq_nil_of_length_eq_zero (hhex.trans (Nat.zero_mul 2))
      obtain rfl := List.eq_nil_of_length_eq_zero hout
      exact ⟨iff_of_true rfl (List.forall_mem_nil _), fun _ => ⟨[], rfl, rfl⟩⟩
  | succ n ih =>
      intro hex done out hhex hout
      obtain ⟨o, out, rfl⟩ := List.exists_cons_of_length_eq_add_one hout
      obtain ⟨h, l, hex, rfl, hlength⟩ := exists_pair_cons hhex
      rw [decodeHexLoop, List.forall_mem_cons, List.forall_mem_cons]
      rcases hexCharToInt_cases h with ⟨high, hhigh, hdigit, hlt, hchar⟩ | ⟨hhigh, hdigit⟩
      · rcases hexCharToInt_cases l with ⟨low, hlow, hdigit', hlt', hchar'⟩ | ⟨hlow, hdigit'⟩
        · rw [hhigh, hlow]
          obtain ⟨hiff, hbytes⟩ := ih hex (done ++ [(high <<< 4) ||| low]) out hlength
            (Nat.succ.inj hout)
          refine ⟨?_, ?_⟩
          · rw [and_iff_right hdigit, and_iff_right hdigit']
            exact hiff
          · intro hok
            obtain ⟨bytes, heq, hencode⟩ := hbytes hok
            obtain ⟨hshift, hmask⟩ := halves hlt hlt'
            refine ⟨((high <<< 4) ||| low) :: bytes, ?_, ?_⟩
            · exact heq.trans (List.append_cons _ _ _).symm
            · rw [encodeHex_cons, hshift, hmask, hchar, hchar', hencode]
              rfl
        · rw [hhigh, hlow]
          exact ⟨iff_of_false (by simp) (fun hall => hdigit' hall.2.1), fun hok => (by cases hok)⟩
      · rw [hhigh]
        exact ⟨iff_of_false (by simp) (fun hall => hdigit hall.1), fun hok => (by cases hok)⟩

/-- **Hex coding is a bijection between byte strings and lower-case hex strings**, and
decoding accepts the digits of both cases and nothing else. Every read is inside the string,
and a string of another length leaves the array as it is. -/
theorem hex_bijective :
    (∀ b out : Bytes, out.length = b.length → decodeHexToArray (encodeHex b) out = (true, b)) ∧
    ∀ s out : Bytes,
      ((decodeHexToArray s out).1 = true ↔ s.length = 2 * out.length ∧ ∀ c ∈ s, HexDigit c) ∧
      ((decodeHexToArray s out).1 = true →
        encodeHex (decodeHexToArray s out).2 = s.map toLower) ∧
      decodeHexReading s out = some (decodeHexToArray s out) ∧
      (s.length ≠ 2 * out.length → decodeHexToArray s out = (false, out)) := by
  refine ⟨?_, ?_⟩
  · intro b out hlength
    exact decodeHexToArray_encodeHex hlength
  · intro s out
    refine ⟨?_, ?_, decodeHexReading_eq s out, ?_⟩
    · unfold decodeHexToArray
      split
      · next hlength =>
          exact iff_of_false (by simp) (fun h => hlength (h.1.trans (Nat.mul_comm _ _)))
      · next hlength =>
          have hlength := not_not.mp hlength
          rw [(decodeHexLoop_spec out.length s [] out hlength rfl).1]
          exact (and_iff_right (hlength.trans (Nat.mul_comm _ _))).symm
    · unfold decodeHexToArray
      split
      · intro h
        cases h
      · next hlength =>
          intro hok
          obtain ⟨bytes, heq, hencode⟩ :=
            (decodeHexLoop_spec out.length s [] out (not_not.mp hlength) rfl).2 hok
          rw [heq, List.nil_append, hencode]
    · intro hlength
      apply if_pos
      rwa [Nat.mul_comm]

/-- A key in upper case is decoded, and encoded again in lower case. -/
theorem hex_bijective_upper :
    decodeHexToArray [0x41, 0x66] [0] = (true, [0xAF]) ∧ encodeHex [0xAF] = [0x61, 0x66] := by
  have h := hex_bijective.2 [0x41, 0x66] [0]
  have hok : (decodeHexToArray [0x41, 0x66] [0]).1 = true :=
    h.1.mpr ⟨rfl, by simp [HexDigit]⟩
  have hvalue : decodeHexToArray [0x41, 0x66] [0] = (true, [0xAF]) := by decide
  have hencode := h.2.1 hok
  rw [hvalue] at hencode
  exact ⟨hvalue, hencode⟩

end BlankChat.Core
