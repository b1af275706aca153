import Mathlib.Data.List.Infix

/-!
# Runs of a system

A system is a step function on states; a run folds it over a list of inputs. `Along` is
a condition on every input of a run, in the state in which it comes. `occurrences` counts
the inputs that do something, and `tracks_iff` is the rule for a quantity that is to
count them: it does so along every run exactly if every step does its part.
-/

namespace BlankChat.Lib.Run

variable {σ ι : Type} (step : σ → ι → σ)

def Along (C : σ → ι → Prop) : σ → List ι → Prop
  | _, [] => True
  | s, i :: is => C s i ∧ Along C (step s i) is

instance {C : σ → ι → Prop} [∀ s i, Decidable (C s i)] :
    (s : σ) → (is : List ι) → Decidable (Along step C s is)
  | _, [] => inferInstanceAs (Decidable True)
  | s, i :: is =>
      have := instDecidableAlong (C := C) (step s i) is
      inferInstanceAs (Decidable (_ ∧ _))

/-- How many inputs of a run produce `x`. -/
def occurrences {β : Type} [DecidableEq β] (g : σ → ι → Option β) (x : β) : σ → List ι → ℕ
  | _, [] => 0
  | s, i :: is => (if g s i = some x then 1 else 0) + occurrences g x (step s i) is

section Rules

variable {step} {C C' : σ → ι → Prop} {P : σ → Prop} {s : σ} {is : List ι}

/-- What every step keeps under the condition, the run keeps. -/
theorem Along.induction (h : Along step C s is)
    (hstep : ∀ s i, C s i → P s → P (step s i)) (hs : P s) : P (is.foldl step s) := by
  induction is generalizing s with
  | nil => exact hs
  | cons i is ih => exact ih h.2 (hstep s i h.1 hs)

/-- A condition may be weakened with the help of an invariant. -/
theorem Along.mono (h : Along step C s is) (hstep : ∀ s i, C s i → P s → P (step s i))
    (hs : P s) (hC : ∀ s i, P s → C s i → C' s i) : Along step C' s is := by
  induction is generalizing s with
  | nil => trivial
  | cons i is ih => exact ⟨hC s i hs h.1, ih h.2 (hstep s i h.1 hs)⟩

theorem Along.and (h : Along step C s is) (h' : Along step C' s is) :
    Along step (fun s i => C s i ∧ C' s i) s is := by
  induction is generalizing s with
  | nil => trivial
  | cons i is ih => exact ⟨⟨h.1, h'.1⟩, ih h.2 h'.2⟩

theorem along_append {is' : List ι} :
    Along step C s (is ++ is') ↔ Along step C s is ∧ Along step C (is.foldl step s) is' := by
  induction is generalizing s with
  | nil => exact (true_and _).symm.to_iff
  | cons i is ih =>
      show C s i ∧ Along step C (step s i) (is ++ is') ↔ _
      rw [ih, ← and_assoc]
      rfl

theorem along_of_forall_mem (h : ∀ s, ∀ i ∈ is, C s i) : Along step C s is := by
  induction is generalizing s with
  | nil => trivial
  | cons i is ih =>
      exact ⟨h s i List.mem_cons_self, ih fun s j hj => h s j (List.mem_cons_of_mem i hj)⟩

theorem along_of_beginnings (h : ∀ is' i, is' ++ [i] <+: is → C (is'.foldl step s) i) :
    Along step C s is := by
  induction is generalizing s with
  | nil => trivial
  | cons i is ih =>
      refine ⟨h [] i (List.prefix_append [i] is), ih ?_⟩
      intro is' j hinit
      exact h (i :: is') j (List.cons_prefix_cons.mpr ⟨rfl, hinit⟩)

theorem Along.forall_mem {D : ι → Prop} (h : Along step (fun _ i => D i) s is) :
    ∀ i ∈ is, D i := by
  induction is generalizing s with
  | nil => exact List.forall_mem_nil D
  | cons i is ih => exact List.forall_mem_cons.mpr ⟨h.1, ih h.2⟩

theorem along_of_invariant (hstep : ∀ s i, P s → P (step s i)) (hs : P s) :
    Along step (fun s _ => P s) s is := by
  induction is generalizing s with
  | nil => trivial
  | cons i is ih => exact ⟨hs, ih (hstep s i hs)⟩

/-- If breaking the condition does a damage that no step repairs, a run that ends
undamaged has met it everywhere. -/
theorem along_of_not_damaged {Damaged : σ → Prop} (hP : ∀ s i, P s → P (step s i))
    (hbreak : ∀ s i, P s → ¬ C s i → Damaged (step s i))
    (hkeep : ∀ s i, P s → Damaged s → Damaged (step s i)) (hs : P s)
    (h : ¬ Damaged (is.foldl step s)) : Along step C s is := by
  induction is generalizing s with
  | nil => trivial
  | cons i is ih =>
      refine ⟨?_, ih (hP s i hs) h⟩
      by_contra hC
      apply h
      have hdamage : P (is.foldl step (step s i)) ∧ Damaged (is.foldl step (step s i)) :=
        List.foldlRecOn (motive := fun s => P s ∧ Damaged s) is step
          ⟨hP s i hs, hbreak s i hs hC⟩
          fun s hs j _ => ⟨hP s j hs.1, hkeep s j hs.1 hs.2⟩
      exact hdamage.2

/-- **The rule for counting.** A family of quantities counts what the inputs produce, after
every part of the run, exactly if each input does its part. -/
theorem tracks_iff {β : Type} [DecidableEq β] {g : σ → ι → Option β} (size : σ → β → ℕ)
    (hP : ∀ s i, P s → P (step s i))
    (hstep : ∀ s i, P s →
      ((∀ x, size (step s i) x = size s x + if g s i = some x then 1 else 0) ↔ C s i))
    (hs : P s) :
    (∀ is', is' <+: is → ∀ x, size (is'.foldl step s) x = size s x + occurrences step g x s is') ↔
      Along step C s is := by
  induction is generalizing s with
  | nil =>
      refine iff_of_true ?_ trivial
      intro is' hinit x
      rw [List.prefix_nil.mp hinit]
      rfl
  | cons i is ih =>
      constructor
      · intro h
        have hone : C s i := by
          refine (hstep s i hs).mp fun x => ?_
          exact h [i] (List.prefix_append [i] is) x
        refine ⟨hone, (ih (hP s i hs)).mp ?_⟩
        intro is' hinit x
        have hcons := h (i :: is') (List.cons_prefix_cons.mpr ⟨rfl, hinit⟩) x
        rw [occurrences, ← Nat.add_assoc, ← (hstep s i hs).mpr hone x] at hcons
        exact hcons
      · rintro ⟨hone, hrest⟩ is' hinit x
        rcases List.prefix_cons_iff.mp hinit with rfl | ⟨is'', rfl, hrestInit⟩
        · rfl
        · rw [List.foldl_cons, (ih (hP s i hs)).mpr hrest is'' hrestInit x,
            (hstep s i hs).mpr hone x, occurrences, Nat.add_assoc]

/-- The rule for a quantity that one kind of input raises and another lowers. -/
theorem Along.balance {β : Type} [DecidableEq β] {up down : σ → ι → Option β}
    (h : Along step C s is) (size : σ → β → ℕ) (hP : ∀ s i, P s → P (step s i))
    (hstep : ∀ s i, P s → C s i → ∀ x,
      size (step s i) x + (if down s i = some x then 1 else 0) =
        size s x + if up s i = some x then 1 else 0) (hs : P s) (x : β) :
    size (is.foldl step s) x + occurrences step down x s is =
      size s x + occurrences step up x s is := by
  induction is generalizing s with
  | nil => rfl
  | cons i is ih =>
      have hone := hstep s i hs h.1 x
      have hrest := ih h.2 (hP s i hs)
      rw [List.foldl_cons, occurrences, occurrences]
      omega

end Rules

end BlankChat.Lib.Run
