import Mathlib.Data.List.GetD
import Mathlib.Data.List.Rotate

/-!
# Taking turns

An index goes round a list, one place at a time; the entry it comes to has its turn. The
index may start anywhere, also outside of the list: a full round is the list, rotated.
-/

namespace BlankChat.Lib

variable {α : Type}

/-- The entries of `l` that have the next turns, when the index stands at `i`. -/
def turns (l : List α) (d : α) : ℕ → ℕ → List α
  | 0, _ => []
  | k + 1, i => l.getD ((i + 1) % l.length) d :: turns l d k ((i + 1) % l.length)

theorem turns_eq_map (l : List α) (d : α) (k i : ℕ) :
    turns l d k i = (List.range k).map fun j => l.getD ((i + 1 + j) % l.length) d := by
  induction k generalizing i with
  | zero => rfl
  | succ k ih =>
      rw [turns, ih, List.range_succ_eq_map, List.map_cons, List.map_map, Nat.add_zero]
      congr 1
      apply List.map_congr_left
      intro j _
      show l.getD (((i + 1) % l.length + 1 + j) % l.length) d = l.getD ((i + 1 + (j + 1)) % l.length) d
      rw [Nat.add_assoc, Nat.mod_add_mod, Nat.add_comm 1 j]

/-- **One round is the list, rotated.** -/
theorem turns_length (l : List α) (d : α) (i : ℕ) : turns l d l.length i = l.rotate (i + 1) := by
  rw [turns_eq_map]
  apply List.ext_getElem
  · simp
  · intro j hj hj'
    have hlt : j < l.length := by simpa using hj
    have hmod : (i + 1 + j) % l.length < l.length := Nat.mod_lt _ (Nat.zero_lt_of_lt hlt)
    rw [List.getElem_map, List.getElem_range, List.getElem_rotate, List.getD_eq_getElem _ _ hmod]
    simp only [Nat.add_comm]

theorem turns_perm (l : List α) (d : α) (i : ℕ) : (turns l d l.length i).Perm l := by
  rw [turns_length]
  exact List.rotate_perm l (i + 1)

/-- In a round and more every entry has a turn. -/
theorem mem_turns {l : List α} {k : ℕ} (hk : l.length ≤ k) {a : α} (ha : a ∈ l) (d : α) (i : ℕ) :
    a ∈ turns l d k i := by
  have hround : a ∈ turns l d l.length i := (turns_perm l d i).mem_iff.mpr ha
  rw [turns_eq_map, List.mem_map] at hround ⊢
  obtain ⟨j, hj, hturn⟩ := hround
  exact ⟨j, List.mem_range.mpr ((List.mem_range.mp hj).trans_le hk), hturn⟩

end BlankChat.Lib
