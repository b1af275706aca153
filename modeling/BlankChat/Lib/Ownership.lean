import Mathlib.Data.Nat.Notation

/-!
# Exclusive resources

Resources are numbered and handed out in order; `next` is the first that is free. Holders
use some of them. If nobody takes over what another one uses, and the fresh resources of
a step all go to one holder, then no resource is ever used by two holders.
-/

namespace BlankChat.Lib.Ownership

variable {ι α : Type}

/-- `holds i x` says that holder `i` has the record `x`, which uses the resources
`uses x`. -/
structure Exclusive (uses : α → ℕ → Prop) (holds : ι → α → Prop) (next : ℕ) : Prop where
  allocated : ∀ i x n, holds i x → uses x n → n < next
  exclusive : ∀ i j x y n, holds i x → holds j y → uses x n → uses y n → i = j

variable {uses : α → ℕ → Prop} {holds holds' : ι → α → Prop} {next next' : ℕ}

theorem Exclusive.of_unused (h : ∀ i x n, holds i x → ¬ uses x n) :
    Exclusive uses holds next := by
  constructor
  · intro i x n hx hn
    exact absurd hn (h i x n hx)
  · intro i j x y n hx _ hn
    exact absurd hn (h i x n hx)

/-- **One step.** What a holder uses afterwards it has used before, or it is the one
holder `i` that gets fresh resources. -/
theorem Exclusive.step (h : Exclusive uses holds next) (hle : next ≤ next') (i : ι)
    (hstep : ∀ j y n, holds' j y → uses y n →
      (∃ x, holds j x ∧ uses x n) ∨ (j = i ∧ next ≤ n ∧ n < next')) :
    Exclusive uses holds' next' := by
  constructor
  · intro j y n hy hn
    rcases hstep j y n hy hn with ⟨x, hx, hxn⟩ | ⟨-, -, hlt⟩
    · exact Nat.lt_of_lt_of_le (h.allocated j x n hx hxn) hle
    · exact hlt
  · intro j j' y y' n hy hy' hn hn'
    rcases hstep j y n hy hn with ⟨x, hx, hxn⟩ | ⟨rfl, hfresh, -⟩
    · rcases hstep j' y' n hy' hn' with ⟨x', hx', hxn'⟩ | ⟨-, hfresh, -⟩
      · exact h.exclusive j j' x x' n hx hx' hxn hxn'
      · exact absurd (h.allocated j x n hx hxn) (Nat.not_lt.mpr hfresh)
    · rcases hstep j' y' n hy' hn' with ⟨x', hx', hxn'⟩ | ⟨rfl, -, -⟩
      · exact absurd (h.allocated j' x' n hx' hxn') (Nat.not_lt.mpr hfresh)
      · rfl

theorem Exclusive.subset (h : Exclusive uses holds next) (hle : next ≤ next')
    (hsub : ∀ j y n, holds' j y → uses y n → ∃ x, holds j x ∧ uses x n) :
    Exclusive uses holds' next' := by
  constructor
  · intro j y n hy hn
    obtain ⟨x, hx, hxn⟩ := hsub j y n hy hn
    exact Nat.lt_of_lt_of_le (h.allocated j x n hx hxn) hle
  · intro j j' y y' n hy hy' hn hn'
    obtain ⟨x, hx, hxn⟩ := hsub j y n hy hn
    obtain ⟨x', hx', hxn'⟩ := hsub j' y' n hy' hn'
    exact h.exclusive j j' x x' n hx hx' hxn hxn'

end BlankChat.Lib.Ownership
