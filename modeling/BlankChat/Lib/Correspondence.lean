import Mathlib.Data.List.Forall2
import Mathlib.Data.List.Basic

/-!
# Lists that correspond

Two lists of the same length whose elements are related one by one, such as the frames
of a queue and the packets they carry.
-/

namespace BlankChat.Lib

variable {α β γ : Type} {R : α → β → Prop} {q : α → Bool} {q' : β → Bool} {l : List α} {l' : List β}

theorem forall₂_find? (h : List.Forall₂ R l l') (hq : ∀ a b, R a b → q a = q' b) :
    Option.Rel R (l.find? q) (l'.find? q') := by
  induction h with
  | nil => exact .none
  | cons hab _ ih =>
      rw [List.find?_cons, List.find?_cons, hq _ _ hab]
      split
      · exact .some hab
      · exact ih

theorem forall₂_eraseP (h : List.Forall₂ R l l') (hq : ∀ a b, R a b → q a = q' b) :
    List.Forall₂ R (l.eraseP q) (l'.eraseP q') := by
  induction h with
  | nil => exact .nil
  | cons hab hl ih =>
      rw [List.eraseP_cons, List.eraseP_cons, hq _ _ hab]
      cases q' _ with
      | true => exact hl
      | false => exact .cons hab ih

theorem forall₂_mem_right (h : List.Forall₂ R l l') {b : β} (hb : b ∈ l') : ∃ a ∈ l, R a b := by
  induction h with
  | nil => cases hb
  | cons hab _ ih =>
      rcases List.mem_cons.mp hb with rfl | hb
      · exact ⟨_, List.mem_cons_self, hab⟩
      · obtain ⟨a, ha, hR⟩ := ih hb
        exact ⟨a, List.mem_cons_of_mem _ ha, hR⟩

theorem forall₂_mem (h : List.Forall₂ R l l') {a : α} (ha : a ∈ l) : ∃ b ∈ l', R a b := by
  induction h with
  | nil => cases ha
  | cons hab _ ih =>
      rcases List.mem_cons.mp ha with rfl | ha
      · exact ⟨_, List.mem_cons_self, hab⟩
      · obtain ⟨b, hb, hR⟩ := ih ha
        exact ⟨b, List.mem_cons_of_mem _ hb, hR⟩

theorem forall₂_pairwise {Q : α → Prop} {g : β → Option γ} (h : List.Forall₂ R l l')
    (hg : ∀ a b, R a b → Q a → (g b).isSome = true) (hone : (l'.filterMap g).length ≤ 1) :
    l.Pairwise fun a a' => ¬ (Q a ∧ Q a') := by
  induction h with
  | nil => exact .nil
  | @cons a b l l' hab hl ih =>
      cases hb : g b with
      | none =>
          rw [List.filterMap_cons_none hb] at hone
          refine .cons ?_ (ih hone)
          rintro a' - ⟨ha, -⟩
          have hsome := hg a b hab ha
          rw [hb] at hsome
          cases hsome
      | some c =>
          rw [List.filterMap_cons_some hb, List.length_cons] at hone
          have hnil : l'.filterMap g = [] := List.length_eq_zero_iff.mp (Nat.le_zero.mp (Nat.le_of_succ_le_succ hone))
          refine .cons ?_ (ih (by rw [hnil]; exact Nat.zero_le _))
          rintro a' ha' ⟨-, hQ⟩
          obtain ⟨b', hb', hR⟩ := forall₂_mem hl ha'
          have hsome := hg a' b' hR hQ
          rw [List.filterMap_eq_nil_iff.mp hnil b' hb'] at hsome
          cases hsome

end BlankChat.Lib
