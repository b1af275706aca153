import Mathlib.Data.Nat.Bitwise
import Mathlib.Data.List.Basic

/-!
# Numbers of a fixed width as a string of bits

A list of `w`-bit numbers is a string of bits, the highest bit of each number first;
`bitAt w l p` is its bit number `p`. Two lists with the same bits are equal
(`eq_of_bitAt`), so regrouping a string of bits from one width to another loses nothing.

There are two ways to write such a list bit by bit. Either a number is built from its
highest bit on, by shifting what is there (`pushBit`); `ReadsBits` says what it holds on
the way. Or a bit is put in its place by a bitwise or (`orBit`), which changes this bit
only (`bitAt_orBit`).
-/

namespace BlankChat.Lib

/-- Bit number `p` of a list of `w`-bit numbers. -/
def bitAt (w : ℕ) (l : List ℕ) (p : ℕ) : Bool := (l.getD (p / w) 0).testBit (w - 1 - p % w)

/-- **The bits determine the numbers.** -/
theorem eq_of_bitAt {w : ℕ} {l l' : List ℕ} (hlength : l.length = l'.length)
    (hl : ∀ n ∈ l, n < 2 ^ w) (hl' : ∀ n ∈ l', n < 2 ^ w)
    (hbits : ∀ p < w * l.length, bitAt w l p = bitAt w l' p) : l = l' := by
  apply List.ext_getElem hlength
  intro i hi hi'
  apply Nat.eq_of_testBit_eq
  intro q
  by_cases hq : q < w
  · -- bit `q` of number `i` is this bit of the string
    have hpos : w * i + (w - 1 - q) < w * l.length := by
      calc w * i + (w - 1 - q) < w * i + w := by omega
        _ = w * (i + 1) := rfl
        _ ≤ w * l.length := Nat.mul_le_mul_left w hi
    have hbit := hbits _ hpos
    have hdiv : (w * i + (w - 1 - q)) / w = i := by
      rw [Nat.mul_add_div (by omega), Nat.div_eq_of_lt (by omega), Nat.add_zero]
    have hmod : w - 1 - (w * i + (w - 1 - q)) % w = q := by
      rw [Nat.mul_add_mod, Nat.mod_eq_of_lt (by omega)]
      omega
    rw [bitAt, bitAt, hdiv, hmod, List.getD_eq_getElem l 0 hi, List.getD_eq_getElem l' 0 hi'] at hbit
    exact hbit
  · have hpow : 2 ^ w ≤ 2 ^ q := Nat.pow_le_pow_right (by decide) (Nat.le_of_not_lt hq)
    rw [Nat.testBit_lt_two_pow (Nat.lt_of_lt_of_le (hl _ (List.getElem_mem hi)) hpow),
      Nat.testBit_lt_two_pow (Nat.lt_of_lt_of_le (hl' _ (List.getElem_mem hi')) hpow)]

theorem bitAt_append_left {w : ℕ} {l : List ℕ} (l' : List ℕ) {p : ℕ} (hp : p / w < l.length) :
    bitAt w (l ++ l') p = bitAt w l p := by
  unfold bitAt
  rw [List.getD_append _ _ _ _ hp]

theorem bitAt_append_right {w : ℕ} {l : List ℕ} (n : ℕ) {p : ℕ} (hp : p / w = l.length) :
    bitAt w (l ++ [n]) p = n.testBit (w - 1 - p % w) := by
  unfold bitAt
  rw [hp, List.getD_append_right _ _ _ _ le_rfl, Nat.sub_self]
  rfl

/-! ## Building a number from its highest bit on -/

def pushBit (n : ℕ) (b : Bool) : ℕ := n <<< 1 ||| b.toNat

theorem testBit_pushBit (n : ℕ) (b : Bool) (q : ℕ) :
    (pushBit n b).testBit q = if q = 0 then b else n.testBit (q - 1) := by
  unfold pushBit
  rw [Nat.testBit_or, Nat.testBit_shiftLeft]
  cases q with
  | zero => cases b <;> rfl
  | succ q =>
      have hbit : b.toNat.testBit (q + 1) = false := by
        rw [Nat.testBit_succ]
        cases b <;> simp
      rw [hbit, Bool.or_false, if_neg (Nat.succ_ne_zero q)]
      simp

/-- `n` consists of the `r` bits of `f` from `s` on. -/
def ReadsBits (f : ℕ → Bool) (s r n : ℕ) : Prop :=
  ∀ q, n.testBit q = (decide (q < r) && f (s + r - 1 - q))

section ReadsBits

variable {f : ℕ → Bool} {s r n : ℕ}

theorem readsBits_zero (f : ℕ → Bool) (s : ℕ) : ReadsBits f s 0 0 := by
  intro q
  simp

theorem ReadsBits.push (h : ReadsBits f s r n) : ReadsBits f s (r + 1) (pushBit n (f (s + r))) := by
  intro q
  rw [testBit_pushBit]
  cases q with
  | zero => simp
  | succ q =>
      have hpos : s + (r + 1) - 1 - (q + 1) = s + r - 1 - q := by omega
      rw [if_neg (Nat.succ_ne_zero q), Nat.add_sub_cancel, h q, hpos]
      simp

theorem ReadsBits.lt (h : ReadsBits f s r n) : n < 2 ^ r := by
  apply Nat.lt_pow_two_of_testBit
  intro q hq
  rw [h q, decide_eq_false (Nat.not_lt.mpr hq), Bool.false_and]

/-- A number of `w` bits that is appended adds the next `w` bits. -/
theorem ReadsBits.bitAt_append {w : ℕ} {l : List ℕ} (h : ReadsBits f (w * l.length) w n)
    (hl : ∀ p < w * l.length, bitAt w l p = f p) :
    ∀ p < w * (l.length + 1), bitAt w (l ++ [n]) p = f p := by
  intro p hp
  have hw : 0 < w := Nat.pos_of_ne_zero fun h0 => by simp [h0] at hp
  by_cases hlt : p < w * l.length
  · rw [bitAt_append_left [n] ((Nat.div_lt_iff_lt_mul hw).mpr (by rwa [Nat.mul_comm])), hl p hlt]
  · have hdiv : p / w = l.length := by
      apply Nat.div_eq_of_lt_le
      · rw [Nat.mul_comm]
        exact Nat.le_of_not_lt hlt
      · rw [Nat.mul_comm]
        exact hp
    have hmod : p = w * l.length + p % w := by
      rw [← hdiv, Nat.div_add_mod]
    have hmlt := Nat.mod_lt p hw
    rw [bitAt_append_right n hdiv, h, decide_eq_true (by omega), Bool.true_and]
    congr 1
    omega

end ReadsBits

/-! ## Putting a bit in its place -/

/-- Bit `p` becomes set if `b` is. -/
def orBit (w : ℕ) (l : List ℕ) (p : ℕ) (b : Bool) : List ℕ :=
  l.modify (p / w) (· ||| b.toNat <<< (w - 1 - p % w))

theorem bitAt_orBit {w : ℕ} {l : List ℕ} {p : ℕ} (hp : p < w * l.length) (b : Bool) (q : ℕ) :
    bitAt w (orBit w l p b) q = if q = p then bitAt w l p || b else bitAt w l q := by
  have hw : 0 < w := Nat.pos_of_ne_zero fun h0 => by simp [h0] at hp
  have hbit : ∀ m k : ℕ, (b.toNat <<< m).testBit k = (decide (k = m) && b) := by
    intro m k
    cases b with
    | false => simp
    | true =>
        rw [Bool.toNat_true, Nat.one_shiftLeft, Nat.testBit_two_pow, Bool.and_true]
        exact decide_eq_decide.mpr eq_comm
  have hpdiv : p / w < l.length := (Nat.div_lt_iff_lt_mul hw).mpr (by rwa [Nat.mul_comm])
  have hpmod := Nat.mod_lt p hw
  have hqmod := Nat.mod_lt q hw
  unfold bitAt orBit
  rw [List.getD_eq_getElem?_getD, List.getElem?_modify]
  by_cases hdiv : p / w = q / w
  · simp only [if_pos hdiv]
    rw [← hdiv, List.getElem?_eq_getElem hpdiv, Option.map_eq_map, Option.map_some,
      Option.getD_some, Nat.testBit_or, hbit, List.getD_eq_getElem l 0 hpdiv]
    by_cases hq : q = p
    · simp [hq]
    · have hne : w - 1 - q % w ≠ w - 1 - p % w := by
        intro hsame
        have hmod : q % w = p % w := by omega
        apply hq
        rw [← Nat.div_add_mod q w, ← Nat.div_add_mod p w, hmod, hdiv]
      simp [hq, hne]
  · have hq : q ≠ p := fun h => hdiv (by rw [h])
    simp only [if_neg hdiv, if_neg hq, id_map', ← List.getD_eq_getElem?_getD]

@[simp] theorem length_orBit (w : ℕ) (l : List ℕ) (p : ℕ) (b : Bool) :
    (orBit w l p b).length = l.length :=
  List.length_modify _ _ _

/-- The bits of `f` below `i`, put into `n` zeros. -/
def orBits (w n : ℕ) (f : ℕ → Bool) (i : ℕ) : List ℕ :=
  (List.range i).foldl (fun l p => orBit w l p (f p)) (List.replicate n 0)

theorem orBits_succ (w n : ℕ) (f : ℕ → Bool) (i : ℕ) :
    orBits w n f (i + 1) = orBit w (orBits w n f i) i (f i) := by
  unfold orBits
  rw [List.range_succ, List.foldl_append]
  rfl

@[simp] theorem length_orBits (w n : ℕ) (f : ℕ → Bool) (i : ℕ) :
    (orBits w n f i).length = n := by
  induction i with
  | zero => exact List.length_replicate
  | succ i ih => rw [orBits_succ, length_orBit, ih]

/-- **A string of bits that is put into zeros, bit by bit**, is there afterwards. -/
theorem bitAt_orBits {w n : ℕ} (f : ℕ → Bool) {i : ℕ} (hi : i ≤ w * n) (q : ℕ) :
    bitAt w (orBits w n f i) q = (decide (q < i) && f q) := by
  induction i generalizing q with
  | zero => simp [orBits, bitAt]
  | succ i ih =>
      have hlt : i < w * (orBits w n f i).length := by
        rw [length_orBits]
        exact hi
      rw [orBits_succ, bitAt_orBit hlt, ih (Nat.le_of_succ_le hi), ih (Nat.le_of_succ_le hi)]
      by_cases hq : q = i
      · simp [hq]
      · have hiff : q < i ↔ q < i + 1 := by omega
        rw [if_neg hq, decide_eq_decide.mpr hiff]

end BlankChat.Lib
