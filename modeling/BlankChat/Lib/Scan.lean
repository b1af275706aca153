import Mathlib.Data.List.TakeWhile

/-!
# Scanning a text

The first occurrence of a word in a text, and the longest run of characters of a kind at the
start of one.
-/

namespace BlankChat.Lib

variable {α : Type}

/-- The position of the first occurrence of a word. -/
def firstAt [DecidableEq α] (word : List α) : List α → Option ℕ
  | [] => if word = [] then some 0 else none
  | c :: text =>
      if word = (c :: text).take word.length then some 0 else (firstAt word text).map (· + 1)

/-- A text in three parts: up to the first occurrence of the word, the word, and the rest. -/
structure FirstSplit (word text before rest : List α) : Prop where
  eq : text = before ++ word ++ rest
  first : ∀ before' rest', text = before' ++ word ++ rest' → before.length ≤ before'.length

theorem eq_take_iff {word text : List α} :
    word = text.take word.length ↔ ∃ rest, text = word ++ rest := by
  constructor
  · intro h
    exact ⟨text.drop word.length,
      (List.take_append_drop _ text).symm.trans (congrArg (· ++ _) h.symm)⟩
  · rintro ⟨rest, rfl⟩
    exact List.take_left.symm

theorem FirstSplit.of_start {word rest : List α} : FirstSplit word (word ++ rest) [] rest :=
  ⟨rfl, fun _ _ _ => Nat.zero_le _⟩

theorem firstSplit_cons_iff {word text before rest : List α} {c : α}
    (h : ¬ ∃ rest, c :: text = word ++ rest) :
    FirstSplit word (c :: text) before rest ↔
      ∃ before₁, before = c :: before₁ ∧ FirstSplit word text before₁ rest := by
  -- where the word occurs in the longer text, at least one character comes before it
  have hshift : ∀ {before rest : List α}, c :: text = before ++ word ++ rest →
      ∃ before₁, before = c :: before₁ ∧ text = before₁ ++ word ++ rest := by
    intro before rest heq
    cases before with
    | nil => exact absurd ⟨rest, heq⟩ h
    | cons c' before₁ =>
        obtain ⟨rfl, htext⟩ := List.cons.inj heq
        exact ⟨before₁, rfl, htext⟩
  constructor
  · rintro ⟨heq, hfirst⟩
    obtain ⟨before₁, rfl, htext⟩ := hshift heq
    refine ⟨before₁, rfl, htext, ?_⟩
    intro before' rest' heq'
    have hle := hfirst (c :: before') rest' (congrArg (c :: ·) heq')
    exact Nat.le_of_succ_le_succ hle
  · rintro ⟨before₁, rfl, heq, hfirst⟩
    refine ⟨congrArg (c :: ·) heq, ?_⟩
    intro before' rest' heq'
    obtain ⟨before₂, rfl, htext⟩ := hshift heq'
    exact Nat.succ_le_succ (hfirst before₂ rest' htext)

/-- **The position found is that of the first occurrence.** -/
theorem firstAt_eq_some_iff [DecidableEq α] {word text : List α} {n : ℕ} :
    firstAt word text = some n ↔
      ∃ before rest, before.length = n ∧ FirstSplit word text before rest := by
  induction text generalizing n with
  | nil =>
      rw [firstAt]
      split
      · next hword =>
          subst hword
          constructor
          · intro h
            exact ⟨[], [], Option.some.inj h, .of_start⟩
          · rintro ⟨before, rest, rfl, heq, -⟩
            simp at heq
            simp [heq.1]
      · next hword =>
          refine iff_of_false (Option.some_ne_none n).symm ?_
          rintro ⟨before, rest, -, heq, -⟩
          simp at heq
          exact hword heq.2.1
  | cons c text ih =>
      rw [firstAt]
      split
      · next hword =>
          obtain ⟨rest, hrest⟩ := eq_take_iff.mp hword
          rw [hrest]
          constructor
          · intro h
            exact ⟨[], rest, Option.some.inj h, .of_start⟩
          · rintro ⟨before, rest', rfl, -, hfirst⟩
            have hzero := hfirst [] rest rfl
            simp at hzero
            simp [hzero]
      · next hword =>
          have hstart : ¬ ∃ rest, c :: text = word ++ rest := fun h => hword (eq_take_iff.mpr h)
          rw [Option.map_eq_some_iff]
          constructor
          · rintro ⟨k, hk, rfl⟩
            obtain ⟨before, rest, rfl, hsplit⟩ := ih.mp hk
            exact ⟨c :: before, rest, rfl, (firstSplit_cons_iff hstart).mpr ⟨before, rfl, hsplit⟩⟩
          · rintro ⟨before, rest, rfl, hsplit⟩
            obtain ⟨before₁, rfl, hsplit₁⟩ := (firstSplit_cons_iff hstart).mp hsplit
            exact ⟨before₁.length, ih.mpr ⟨before₁, rest, rfl, hsplit₁⟩, rfl⟩

theorem firstAt_isSome_iff [DecidableEq α] {word text : List α} :
    (firstAt word text).isSome = true ↔ word <:+: text := by
  induction text with
  | nil =>
      rw [firstAt, List.infix_nil]
      split
      · next hword => exact iff_of_true rfl hword
      · next hword => exact iff_of_false nofun hword
  | cons c text ih =>
      rw [firstAt, List.infix_cons_iff]
      split
      · next hword =>
          obtain ⟨rest, hrest⟩ := eq_take_iff.mp hword
          exact iff_of_true rfl (.inl ⟨rest, hrest.symm⟩)
      · next hword =>
          rw [Option.isSome_map, ih, or_iff_right]
          rintro ⟨rest, hrest⟩
          exact hword (eq_take_iff.mpr ⟨rest, hrest.symm⟩)

/-- A character that is not in the word does not help to find it. -/
theorem infix_concat_iff {word text : List α} {c : α} (hc : c ∉ word) (hword : word ≠ []) :
    word <:+: text ++ [c] ↔ word <:+: text := by
  rw [List.infix_concat_iff, or_iff_right]
  intro hends
  rcases List.suffix_concat_iff.mp hends with rfl | ⟨start, rfl, -⟩
  · exact hword rfl
  · exact hc (List.mem_append_right start List.mem_cons_self)

/-- **The longest run.** A text is split where its run of characters of a kind ends. -/
theorem run_split_iff {p : α → Bool} {text run rest : List α} :
    text = run ++ rest ∧ (∀ c ∈ run, p c = true) ∧ (∀ c ∈ rest.head?, p c = false) ↔
      run = text.takeWhile p ∧ rest = text.dropWhile p := by
  constructor
  · rintro ⟨rfl, hrun, hrest⟩
    rw [List.takeWhile_append_of_pos hrun, List.dropWhile_append_of_pos hrun]
    cases rest with
    | nil => simp
    | cons c rest =>
        have hc : p c = false := hrest c rfl
        simp [hc]
  · rintro ⟨rfl, rfl⟩
    refine ⟨List.takeWhile_append_dropWhile.symm, ?_, ?_⟩
    · intro c hc
      exact List.mem_takeWhile_imp hc
    · intro c hc
      have hstop := List.head?_dropWhile_not p text
      rw [Option.mem_def.mp hc] at hstop
      exact hstop

end BlankChat.Lib
