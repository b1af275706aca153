import Mathlib.Data.List.Basic

/-!
# Binary search

`lowerBound` halves a range of a list until the range is empty, as `std::lower_bound`
does: the elements for which `below` holds are to its left. If the list consists of
elements that are below followed by elements that are not, it returns the place where
the first kind ends (`lowerBound_eq`), which finds every element of a sorted list
(`lowerBound_getElem`).
-/

namespace BlankChat.Lib

variable {α : Type}

/-- The search in the `len` elements from `first` on. -/
def lowerBoundLoop (below : α → Bool) (l : List α) (first len : ℕ) : ℕ :=
  if len = 0 then first
  else
    let half := len / 2
    if (l[first + half]?).any below then
      lowerBoundLoop below l (first + half + 1) (len - half - 1)
    else lowerBoundLoop below l first half
termination_by len

def lowerBound (below : α → Bool) (l : List α) : ℕ := lowerBoundLoop below l 0 l.length

/-- The first `k` elements are below, and no others. -/
structure Partitioned (below : α → Bool) (l : List α) (k : ℕ) : Prop where
  before : ∀ j (hj : j < l.length), j < k → below l[j] = true
  after : ∀ j (hj : j < l.length), k ≤ j → below l[j] = false

section Search

variable {below : α → Bool} {l : List α} {k : ℕ}

theorem Partitioned.any_iff (h : Partitioned below l k) {j : ℕ} (hj : j < l.length) :
    (l[j]?).any below = true ↔ j < k := by
  rw [List.getElem?_eq_getElem hj, Option.any_some]
  constructor
  · intro hbelow
    by_contra hk
    rw [h.after j hj (Nat.le_of_not_lt hk)] at hbelow
    cases hbelow
  · exact h.before j hj

/-- The end of the elements below stays within the range. -/
theorem lowerBoundLoop_eq (h : Partitioned below l k) {first len : ℕ} (hfirst : first ≤ k)
    (hk : k ≤ first + len) (hlen : first + len ≤ l.length) :
    lowerBoundLoop below l first len = k := by
  induction first, len using lowerBoundLoop.induct below l with
  | case1 first =>
      rw [lowerBoundLoop, if_pos rfl]
      omega
  | case2 first len hpos half hbelow ih =>
      rw [lowerBoundLoop, if_neg hpos, if_pos hbelow]
      have hlt : first + half < k := (h.any_iff (by omega)).mp hbelow
      exact ih (by omega) (by omega) (by omega)
  | case3 first len hpos half hbelow ih =>
      rw [lowerBoundLoop, if_neg hpos, if_neg hbelow]
      have hle : ¬ first + half < k := fun hlt => hbelow ((h.any_iff (by omega)).mpr hlt)
      exact ih hfirst (by omega) (by omega)

/-- **The search finds where the elements below end.** -/
theorem lowerBound_eq (h : Partitioned below l k) (hk : k ≤ l.length) : lowerBound below l = k :=
  lowerBoundLoop_eq h (Nat.zero_le k) (by omega) (by omega)

end Search

/-- **In a sorted list every element is found where it stands.** -/
theorem lowerBound_getElem [LT α] [DecidableLT α] (hasymm : ∀ x y : α, x < y → ¬ y < x)
    {l : List α} (hl : l.Pairwise (· < ·)) {i : ℕ} (hi : i < l.length) :
    lowerBound (fun x => decide (x < l[i])) l = i := by
  apply lowerBound_eq _ (Nat.le_of_lt hi)
  have hsorted := List.pairwise_iff_getElem.mp hl
  refine ⟨?_, ?_⟩
  · intro j hj hlt
    exact decide_eq_true (hsorted j i hj hi hlt)
  · intro j hj hle
    apply decide_eq_false
    rcases Nat.eq_or_lt_of_le hle with rfl | hlt
    · exact fun hself => hasymm _ _ hself hself
    · exact hasymm _ _ (hsorted i j hi hj hlt)

end BlankChat.Lib
