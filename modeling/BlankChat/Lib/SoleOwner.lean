import Mathlib.Logic.Function.Basic

/-!
# Resources with one owner

Objects hold resources, each at most one. `SoleOwner` says that what is live is what is held,
and by one object only. It is kept when an object takes a resource that was not live, when one
object hands what it holds to another that holds nothing, and when an object gives it up.
-/

namespace BlankChat.Lib

variable {ι P : Type} [DecidableEq ι]

structure SoleOwner (owns : ι → Option P) (live : P → Prop) : Prop where
  unique : ∀ i j p, owns i = some p → owns j = some p → i = j
  live_iff : ∀ p, live p ↔ ∃ i, owns i = some p

namespace SoleOwner

variable {owns : ι → Option P} {live live' : P → Prop} {i j : ι} {p : P}

omit [DecidableEq ι] in
theorem empty : SoleOwner (fun _ : ι => (none : Option P)) (fun _ => False) :=
  ⟨nofun, fun _ => iff_of_false not_false nofun⟩

omit [DecidableEq ι] in
theorem congr (h : SoleOwner owns live) (hlive : ∀ p, live' p ↔ live p) : SoleOwner owns live' :=
  ⟨h.unique, fun p => (hlive p).trans (h.live_iff p)⟩

omit [DecidableEq ι] in
theorem ne_of_ne (h : SoleOwner owns live) (hi : owns i = some p) (hj : j ≠ i) : owns j ≠ some p :=
  fun hp => hj (h.unique j i p hp hi)

theorem acquire (h : SoleOwner owns live) (hi : owns i = none) (hp : ¬ live p) :
    SoleOwner (Function.update owns i (some p)) (fun q => q = p ∨ live q) := by
  have hfree : ∀ k, owns k ≠ some p := fun k hk => hp ((h.live_iff p).mpr ⟨k, hk⟩)
  constructor
  · intro k l q hk hl
    by_cases hki : k = i <;> by_cases hli : l = i
    · rw [hki, hli]
    · rw [hki, Function.update_self] at hk
      rw [Function.update_of_ne hli] at hl
      cases hk
      exact absurd hl (hfree l)
    · rw [hli, Function.update_self] at hl
      rw [Function.update_of_ne hki] at hk
      cases hl
      exact absurd hk (hfree k)
    · rw [Function.update_of_ne hki] at hk
      rw [Function.update_of_ne hli] at hl
      exact h.unique k l q hk hl
  · intro q
    constructor
    · rintro (rfl | hq)
      · exact ⟨i, Function.update_self ..⟩
      · obtain ⟨k, hk⟩ := (h.live_iff q).mp hq
        have hki : k ≠ i := by
          rintro rfl
          rw [hi] at hk
          cases hk
        exact ⟨k, (Function.update_of_ne hki ..).trans hk⟩
    · rintro ⟨k, hk⟩
      by_cases hki : k = i
      · rw [hki, Function.update_self] at hk
        exact .inl (Option.some.inj hk).symm
      · rw [Function.update_of_ne hki] at hk
        exact .inr ((h.live_iff q).mpr ⟨k, hk⟩)

theorem release (h : SoleOwner owns live) (i : ι) :
    SoleOwner (Function.update owns i none) (fun q => live q ∧ owns i ≠ some q) := by
  have hheld : ∀ k q, Function.update owns i none k = some q ↔ k ≠ i ∧ owns k = some q := by
    intro k q
    by_cases hki : k = i
    · rw [hki, Function.update_self]
      exact iff_of_false nofun fun hk => hk.1 rfl
    · rw [Function.update_of_ne hki, and_iff_right hki]
  constructor
  · intro k l q hk hl
    exact h.unique k l q ((hheld k q).mp hk).2 ((hheld l q).mp hl).2
  · intro q
    constructor
    · rintro ⟨hq, hi⟩
      obtain ⟨k, hk⟩ := (h.live_iff q).mp hq
      refine ⟨k, (hheld k q).mpr ⟨?_, hk⟩⟩
      rintro rfl
      exact hi hk
    · rintro ⟨k, hk⟩
      obtain ⟨hki, hk⟩ := (hheld k q).mp hk
      exact ⟨(h.live_iff q).mpr ⟨k, hk⟩, fun hi => hki (h.unique k i q hk hi)⟩

theorem transfer (h : SoleOwner owns live) (hij : i ≠ j) (hi : owns i = none) :
    SoleOwner (Function.update (Function.update owns i (owns j)) j none) live := by
  -- the new holder stands for the old one
  have hheld : ∀ k q, Function.update (Function.update owns i (owns j)) j none k = some q ↔
      (k = i ∧ owns j = some q) ∨ (k ≠ i ∧ k ≠ j ∧ owns k = some q) := by
    intro k q
    by_cases hkj : k = j
    · subst hkj
      rw [Function.update_self]
      simp [Ne.symm hij]
    · rw [Function.update_of_ne hkj]
      by_cases hki : k = i
      · subst hki
        rw [Function.update_self]
        simp
      · rw [Function.update_of_ne hki]
        simp [hki, hkj]
  constructor
  · intro k l q hk hl
    rcases (hheld k q).mp hk with ⟨rfl, hj⟩ | ⟨-, hkj, hk'⟩
    · rcases (hheld l q).mp hl with ⟨rfl, -⟩ | ⟨-, hlj, hl'⟩
      · rfl
      · exact absurd (h.unique l j q hl' hj) hlj
    · rcases (hheld l q).mp hl with ⟨rfl, hj⟩ | ⟨-, -, hl'⟩
      · exact absurd (h.unique k j q hk' hj) hkj
      · exact h.unique k l q hk' hl'
  · intro q
    rw [h.live_iff]
    constructor
    · rintro ⟨k, hk⟩
      by_cases hkj : k = j
      · subst hkj
        exact ⟨i, (hheld i q).mpr (.inl ⟨rfl, hk⟩)⟩
      · have hki : k ≠ i := by
          rintro rfl
          rw [hi] at hk
          cases hk
        exact ⟨k, (hheld k q).mpr (.inr ⟨hki, hkj, hk⟩)⟩
    · rintro ⟨k, hk⟩
      rcases (hheld k q).mp hk with ⟨-, hj⟩ | ⟨-, -, hk⟩
      · exact ⟨j, hj⟩
      · exact ⟨k, hk⟩

end SoleOwner

end BlankChat.Lib
