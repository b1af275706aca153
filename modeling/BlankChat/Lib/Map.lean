import Mathlib.Data.List.AList

/-!
# Maps with in-place assignment

A hash map whose iteration order is some order of its entries: an association list
with distinct keys. Assigning to a key that is present leaves the entry where it
is; only a new key adds an entry.
-/

namespace BlankChat.Lib

abbrev Map (α β : Type) : Type := AList fun _ : α => β

namespace Map

variable {α β : Type} [DecidableEq α]

def insertOrAssign (a : α) (b : β) (s : Map α β) : Map α β :=
  if a ∈ s then AList.replace a b s else AList.insert a b s

theorem kreplace_cons_self (a : α) (b v : β) (l : List (Sigma fun _ : α => β)) :
    List.kreplace a b (⟨a, v⟩ :: l) = ⟨a, b⟩ :: l := by
  unfold List.kreplace
  rw [List.lookmap_cons_some _ _ (b := ⟨a, b⟩) (by simp)]

theorem kreplace_cons_ne {a k : α} (h : a ≠ k) (b v : β) (l : List (Sigma fun _ : α => β)) :
    List.kreplace a b (⟨k, v⟩ :: l) = ⟨k, v⟩ :: List.kreplace a b l := by
  unfold List.kreplace
  rw [List.lookmap_cons_none _ _ (by simp [h])]

theorem kreplace_kreplace (a : α) (b b' : β) (l : List (Sigma fun _ : α => β)) :
    (l.kreplace a b).kreplace a b' = l.kreplace a b' := by
  induction l with
  | nil => rfl
  | cons e l ih =>
      obtain ⟨k, v⟩ := e
      by_cases hk : a = k
      · subst hk
        rw [kreplace_cons_self, kreplace_cons_self, kreplace_cons_self]
      · rw [kreplace_cons_ne hk, kreplace_cons_ne hk, kreplace_cons_ne hk, ih]

theorem dlookup_kreplace (a : α) (b : β) (l : List (Sigma fun _ : α => β)) (a' : α) :
    (l.kreplace a b).dlookup a' =
      if a' = a then (l.dlookup a).map fun _ => b else l.dlookup a' := by
  induction l with
  | nil =>
      show List.dlookup a' [] = _
      simp
  | cons e l ih =>
      obtain ⟨k, v⟩ := e
      by_cases hk : a = k
      · subst hk
        rw [kreplace_cons_self]
        by_cases ha : a' = a
        · subst ha
          simp
        · rw [if_neg ha, List.dlookup_cons_ne _ _ ha, List.dlookup_cons_ne _ _ ha]
      · rw [kreplace_cons_ne hk]
        by_cases ha : a' = k
        · subst ha
          rw [List.dlookup_cons_eq, if_neg (Ne.symm hk), List.dlookup_cons_eq]
        · rw [List.dlookup_cons_ne _ _ ha, ih]
          by_cases haa : a' = a
          · rw [if_pos haa, if_pos haa, List.dlookup_cons_ne _ _ hk]
          · rw [if_neg haa, if_neg haa, List.dlookup_cons_ne _ _ ha]

@[simp] theorem lookup_insertOrAssign (a : α) (b : β) (s : Map α β) :
    AList.lookup a (insertOrAssign a b s) = some b := by
  unfold insertOrAssign
  split
  · next h =>
      have hsome := AList.lookup_isSome.mpr h
      obtain ⟨v, hv⟩ := Option.isSome_iff_exists.mp hsome
      show (s.entries.kreplace a b).dlookup a = some b
      rw [dlookup_kreplace, if_pos rfl, show s.entries.dlookup a = some v from hv]
      rfl
  · exact AList.lookup_insert s

theorem lookup_insertOrAssign_ne {a a' : α} (h : a' ≠ a) (b : β) (s : Map α β) :
    AList.lookup a' (insertOrAssign a b s) = AList.lookup a' s := by
  unfold insertOrAssign
  split
  · show (s.entries.kreplace a b).dlookup a' = _
    rw [dlookup_kreplace, if_neg h]
    rfl
  · exact AList.lookup_insert_ne h

theorem insertOrAssign_self {a : α} {b : β} {s : Map α β} (h : AList.lookup a s = some b) :
    insertOrAssign a b s = s := by
  have hmem : a ∈ s := AList.lookup_isSome.mp (by rw [h]; rfl)
  unfold insertOrAssign
  rw [if_pos hmem]
  exact AList.ext (List.kreplace_self s.nodupKeys (List.of_mem_dlookup h))

theorem insertOrAssign_insertOrAssign (a : α) (b b' : β) (s : Map α β) :
    insertOrAssign a b' (insertOrAssign a b s) = insertOrAssign a b' s := by
  unfold insertOrAssign
  by_cases h : a ∈ s
  · rw [if_pos h, if_pos h, if_pos (AList.mem_replace.mpr h)]
    exact AList.ext (kreplace_kreplace a b b' s.entries)
  · rw [if_neg h, if_neg h, if_pos (AList.mem_insert s |>.mpr (.inl rfl))]
    refine AList.ext ?_
    show List.kreplace a b' (s.insert a b).entries = (s.insert a b').entries
    rw [AList.entries_insert_of_notMem h, AList.entries_insert_of_notMem h, kreplace_cons_self]

/-- The first entry whose value satisfies `p`. -/
def findKey (p : β → Bool) (s : Map α β) : Option α :=
  (s.entries.find? fun e => p e.2).map Sigma.fst

theorem findKey_eq_some {p : β → Bool} {s : Map α β} {a : α} (h : s.findKey p = some a) :
    ∃ b, AList.lookup a s = some b ∧ p b = true := by
  obtain ⟨⟨k, v⟩, hfind, rfl⟩ := Option.map_eq_some_iff.mp h
  refine ⟨v, ?_, by simpa using List.find?_some hfind⟩
  exact List.mem_dlookup s.nodupKeys (List.mem_of_find?_eq_some hfind)

/-- If one key alone has a value with the property, its entry is found. -/
theorem findKey_of_unique {p : β → Bool} {s : Map α β} {a : α} {b : β}
    (h : AList.lookup a s = some b) (hb : p b = true)
    (hunique : ∀ a' b', AList.lookup a' s = some b' → p b' = true → a' = a) :
    s.findKey p = some a := by
  cases hfind : s.findKey p with
  | none =>
      have hnone := List.find?_eq_none.mp (Option.map_eq_none_iff.mp hfind)
      exact absurd hb (hnone ⟨a, b⟩ (List.of_mem_dlookup h))
  | some a' =>
      obtain ⟨b', hb', hp⟩ := findKey_eq_some hfind
      rw [hunique a' b' hb' hp]

end Map

end BlankChat.Lib
