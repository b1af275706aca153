import Mathlib.Data.Vector.Basic

/-!
# Byte strings and fixed-size byte arrays

`Bytes` is a vector of bytes whose length is data, `ByteVec n` an array whose
length is part of its type. `ByteVec.ofSpan` is the usual way from the first to
the second: a zero-initialised array with a span copied to its front.

The second half is the 32-bit little-endian integer codec: four shifts and
masks one way (`leBytes`), four shifts and ors the other way (`leUInt32`). The
two are inverse, which goes through the arithmetic reading of the word.
-/

namespace BlankChat.Lib

abbrev Bytes : Type := List UInt8

abbrev ByteVec (n : ℕ) : Type := List.Vector UInt8 n

theorem forall_byte {P : UInt8 → Prop} (h : ∀ n : Fin 256, P (UInt8.ofNat n.val)) (b : UInt8) :
    P b := by
  have hb := h ⟨b.toNat, b.toNat_lt⟩
  rwa [UInt8.ofNat_toNat] at hb

/-! ## Arrays -/

/-- A zero-initialised array of `n` bytes, with `l` copied to its front. -/
def ByteVec.ofSpan (n : ℕ) (l : Bytes) : ByteVec n :=
  ⟨l.take n ++ List.replicate (n - l.length) 0, by
    simp only [List.length_append, List.length_take, List.length_replicate]
    omega⟩

theorem ByteVec.ofSpan_toList {n : ℕ} {l : Bytes} (h : l.length = n) :
    (ByteVec.ofSpan n l).toList = l := by
  subst h
  simp [ByteVec.ofSpan, List.Vector.toList]

@[simp] theorem ByteVec.ofSpan_eq {n : ℕ} (v : ByteVec n) :
    ByteVec.ofSpan n v.toList = v :=
  List.Vector.eq _ _ (ByteVec.ofSpan_toList v.toList_length)

theorem ByteVec.ofSpan_drop_append {n k : ℕ} {a r : Bytes} (v : ByteVec n)
    (hk : a.length = k) :
    ByteVec.ofSpan n (((a ++ (v.toList ++ r)).drop k).take n) = v := by
  have hdrop : (a ++ (v.toList ++ r)).drop k = v.toList ++ r := by
    rw [← hk, List.drop_left]
  have htake : (v.toList ++ r).take n = v.toList := by
    rw [List.take_append_of_le_length (by simp)]
    exact List.take_of_length_le (by simp)
  rw [hdrop, htake, ByteVec.ofSpan_eq]

/-! ## Little-endian words -/

/-- The four bytes of a word, lowest first. -/
def leBytes (x : UInt32) : Bytes :=
  [(x &&& 0xFF).toUInt8, ((x >>> 8) &&& 0xFF).toUInt8,
    ((x >>> 16) &&& 0xFF).toUInt8, ((x >>> 24) &&& 0xFF).toUInt8]

/-- The word whose bytes, lowest first, are the given four. -/
def leUInt32 (b₀ b₁ b₂ b₃ : UInt8) : UInt32 :=
  b₀.toUInt32 ||| (b₁.toUInt32 <<< 8) ||| (b₂.toUInt32 <<< 16) |||
    (b₃.toUInt32 <<< 24)

@[simp] theorem leBytes_length (x : UInt32) : (leBytes x).length = 4 := rfl

theorem leUInt32_toNat (b₀ b₁ b₂ b₃ : UInt8) :
    (leUInt32 b₀ b₁ b₂ b₃).toNat =
      b₀.toNat + 2 ^ 8 * b₁.toNat + 2 ^ 16 * b₂.toNat + 2 ^ 24 * b₃.toNat := by
  have h₀ := b₀.toNat_lt
  have h₁ := b₁.toNat_lt
  have h₂ := b₂.toNat_lt
  have h₃ := b₃.toNat_lt
  -- no shift loses a bit, and the shifted bytes do not overlap
  have s₁ : (b₁.toUInt32 <<< 8).toNat = 2 ^ 8 * b₁.toNat := by
    simp [UInt32.toNat_shiftLeft, Nat.shiftLeft_eq]; omega
  have s₂ : (b₂.toUInt32 <<< 16).toNat = 2 ^ 16 * b₂.toNat := by
    simp [UInt32.toNat_shiftLeft, Nat.shiftLeft_eq]; omega
  have s₃ : (b₃.toUInt32 <<< 24).toNat = 2 ^ 24 * b₃.toNat := by
    simp [UInt32.toNat_shiftLeft, Nat.shiftLeft_eq]; omega
  have hor : ∀ {i a b : ℕ}, b < 2 ^ i → b ||| 2 ^ i * a = 2 ^ i * a + b :=
    fun {i a b} h => by rw [Nat.or_comm, Nat.two_pow_add_eq_or_of_lt h]
  have o₁ : b₀.toNat ||| 2 ^ 8 * b₁.toNat = 2 ^ 8 * b₁.toNat + b₀.toNat :=
    hor h₀
  have o₂ : (2 ^ 8 * b₁.toNat + b₀.toNat) ||| 2 ^ 16 * b₂.toNat =
      2 ^ 16 * b₂.toNat + (2 ^ 8 * b₁.toNat + b₀.toNat) := hor (by omega)
  have o₃ : (2 ^ 16 * b₂.toNat + (2 ^ 8 * b₁.toNat + b₀.toNat)) |||
        2 ^ 24 * b₃.toNat =
      2 ^ 24 * b₃.toNat + (2 ^ 16 * b₂.toNat + (2 ^ 8 * b₁.toNat + b₀.toNat)) :=
    hor (by omega)
  simp only [leUInt32, UInt32.toNat_or, s₁, s₂, s₃, UInt8.toNat_toUInt32, o₁, o₂, o₃]
  omega

theorem leBytes_toNat (x : UInt32) :
    (leBytes x).map UInt8.toNat =
      [x.toNat % 256, x.toNat / 256 % 256, x.toNat / 65536 % 256,
        x.toNat / 16777216 % 256] := by
  have hmask : ∀ n : ℕ, n &&& 255 = n % 256 := fun n =>
    Nat.and_two_pow_sub_one_eq_mod n 8
  simp [leBytes, UInt32.toNat_shiftRight, hmask, Nat.shiftRight_eq_div_pow]

/-- The number whose base-256 digits, lowest first, are the given bytes. -/
def littleEndian : Bytes → ℕ
  | [] => 0
  | b :: bs => b.toNat + 256 * littleEndian bs

/-- Bytes that are missing at the end count as zeros. -/
theorem leUInt32_littleEndian (l : Bytes) :
    (leUInt32 (l.getD 0 0) (l.getD 1 0) (l.getD 2 0) (l.getD 3 0)).toNat =
      littleEndian (l.take 4) := by
  rw [leUInt32_toNat]
  rcases l with _ | ⟨a, _ | ⟨b, _ | ⟨c, _ | ⟨d, l⟩⟩⟩⟩ <;>
    simp [littleEndian] <;> omega

theorem leUInt32_leBytes (x : UInt32) :
    leUInt32 ((leBytes x).getD 0 0) ((leBytes x).getD 1 0)
      ((leBytes x).getD 2 0) ((leBytes x).getD 3 0) = x := by
  have hx := x.toNat_lt
  have hb := leBytes_toNat x
  simp only [leBytes, List.map_cons, List.map_nil, List.cons.injEq, and_true]
    at hb
  obtain ⟨h₀, h₁, h₂, h₃⟩ := hb
  apply UInt32.toNat_inj.mp
  rw [leUInt32_toNat]
  simp only [leBytes, List.getD_cons_zero, List.getD_cons_succ]
  rw [h₀, h₁, h₂, h₃]
  omega

theorem leBytes_leUInt32 (b₀ b₁ b₂ b₃ : UInt8) :
    leBytes (leUInt32 b₀ b₁ b₂ b₃) = [b₀, b₁, b₂, b₃] := by
  have h₀ := b₀.toNat_lt
  have h₁ := b₁.toNat_lt
  have h₂ := b₂.toNat_lt
  have h₃ := b₃.toNat_lt
  have hinj : Function.Injective (List.map UInt8.toNat) :=
    List.map_injective_iff.mpr fun _ _ h => UInt8.toNat_inj.mp h
  apply hinj
  rw [leBytes_toNat, leUInt32_toNat]
  simp only [List.map_cons, List.map_nil, List.cons.injEq, and_true]
  omega

end BlankChat.Lib
