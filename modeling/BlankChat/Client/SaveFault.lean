import BlankChat.Client.ContactStorage

/-!
# A save that does not get to its end — `contact_storage.cpp`, `address_book.cpp`

`SyncContactsToDisk` opens the contacts file with `std::ios::trunc` and writes the new list
into it: from then on the old contacts are gone, and the new ones are there as far as the
output has got. `outFile.good()` is asked before the stream is flushed: it can be `false` only
after more than a buffer of output, and `true` when nothing has reached the file.

What the library makes of an unfinished text is its own affair: it reads on demand, and may
hand out objects before it meets the end. `Simdjson` allows for a library that does so and for
one that does not.

Main result: `save_safe_iff`.
-/

namespace BlankChat.Client

open Lib BlankChat.Core Crypto Protocol

/-! ## The file and the library -/

/-- What happens to a save: whether the file could be opened, how many bytes of the output
reach it before writing fails or the process stops, and what `good()` says at the end. -/
structure SaveOutcome : Type where
  opened : Bool
  written : ℕ
  good : Bool
deriving DecidableEq

/-- What `SyncContactsToDisk` returns. -/
def SaveOutcome.result (o : SaveOutcome) : Bool := o.opened && o.good

/-- The contacts file after a save. -/
def savedFile (stored : Bytes) (activeContacts : List Contact) (o : SaveOutcome) : Bytes :=
  if o.opened then (fileText activeContacts).take o.written else stored

/-- The strings of the contacts are acceptable. -/
def Acceptable (cs : List Contact) : Prop := (syncContactsToDisk cs).all acceptsObject = true

instance (cs : List Contact) : Decidable (Acceptable cs) := inferInstanceAs (Decidable (_ = _))

/-- After the save the file gives all contacts stored before or all new ones. -/
def SaveSafe (J : Simdjson) (stored : Bytes) (activeContacts : List Contact)
    (o : SaveOutcome) : Prop :=
  parseContactsText J (savedFile stored activeContacts o) = parseContactsText J stored ∨
    parseContactsText J (savedFile stored activeContacts o) = activeContacts.map rawContact

/-! ## What is read after a save -/

variable (J : Simdjson) {stored : Bytes} {cs : List Contact} {o : SaveOutcome}

theorem objects_whole {n : ℕ} (hn : (fileText cs).length ≤ n + 1) :
    J.objects (ascii "contacts") ((fileText cs).take n) =
      if (syncContactsToDisk cs).all acceptsObject then syncContactsToDisk cs else [] := by
  rw [fileText_eq] at hn ⊢
  exact J.objects_whole (by decide) (plain_syncContactsToDisk cs) hn

theorem objects_cut {n : ℕ} (hn : n + 1 < (fileText cs).length) :
    ∃ k, J.objects (ascii "contacts") ((fileText cs).take n) = (syncContactsToDisk cs).take k := by
  rw [fileText_eq] at hn ⊢
  exact J.objects_cut (by decide) (plain_syncContactsToDisk cs) hn

/-- An empty list is read back whatever happens to it. -/
theorem parseContacts_take_nil (n : ℕ) : parseContactsText J ((fileText []).take n) = [] := by
  have hobjects : J.objects (ascii "contacts") ((fileText []).take n) = [] := by
    by_cases hn : (fileText []).length ≤ n + 1
    · exact objects_whole J hn
    · obtain ⟨k, hk⟩ := objects_cut J (Nat.lt_of_not_le hn)
      rw [hk]
      exact List.take_nil
  rw [parseContactsText, hobjects]
  rfl

theorem parseContacts_empty : parseContactsText J [] = [] := parseContacts_take_nil J 0

theorem saveSafe_of_not_opened (h : o.opened = false) :
    o.result = false ∧ parseContactsText J (savedFile stored cs o) = parseContactsText J stored := by
  refine ⟨?_, ?_⟩
  · rw [SaveOutcome.result, h, Bool.false_and]
  · rw [savedFile, h]
    rfl

theorem parseContacts_of_whole (hopened : o.opened = true)
    (hwritten : (fileText cs).length ≤ o.written + 1) (hcs : Acceptable cs) :
    parseContactsText J (savedFile stored cs o) = cs.map rawContact := by
  have hall : (syncContactsToDisk cs).all acceptsObject = true := hcs
  have hread := parseContacts_sync hall
  rw [parseContacts, if_pos hall] at hread
  rw [savedFile, if_pos hopened, parseContactsText, objects_whole J hwritten, if_pos hall, hread]

/-- The conditions under which a save is safe: the file is not even truncated, there is nothing
to write, or all of the output gets to the file, but for the last line break, and is
acceptable. -/
def GetsThrough (cs : List Contact) (o : SaveOutcome) : Prop :=
  o.opened = false ∨ cs = [] ∨ (fileText cs).length ≤ o.written + 1 ∧ Acceptable cs

theorem GetsThrough.saveSafe (h : GetsThrough cs o) : SaveSafe J stored cs o := by
  cases hopened : o.opened with
  | false => exact .inl (saveSafe_of_not_opened J hopened).2
  | true =>
      right
      rcases h with hclosed | rfl | ⟨hwritten, hcs⟩
      · rw [hopened] at hclosed
        cases hclosed
      · rw [savedFile, if_pos hopened]
        exact parseContacts_take_nil J o.written
      · exact parseContacts_of_whole J hopened hwritten hcs

/-- Otherwise a reader of whole documents finds nothing in the file. -/
theorem eager_of_not_getsThrough (h : ¬ GetsThrough cs o) :
    parseContactsText eager (savedFile stored cs o) = [] := by
  simp only [GetsThrough, not_or, not_and] at h
  obtain ⟨hopened, -, hend⟩ := h
  rw [savedFile, if_pos (Bool.not_eq_false _ ▸ hopened), parseContactsText]
  by_cases hwritten : (fileText cs).length ≤ o.written + 1
  · have hall : ¬ (syncContactsToDisk cs).all acceptsObject = true := hend hwritten
    rw [objects_whole eager hwritten, if_neg hall]
    rfl
  · have hcut := Nat.lt_of_not_le hwritten
    rw [fileText_eq] at hcut ⊢
    rw [show eager.objects (ascii "contacts") _ = [] from
      readArrayOf_cut (by decide) (plain_syncContactsToDisk cs) hcut]
    rfl

/-- **Which saves are safe.** A file that cannot be opened keeps its contacts, and an output that
gets through gives the new ones. Once the file is truncated there is nothing to fall back on:
where contacts are stored, no other save is safe with every library, and whatever the library,
some failure in saving a list that is not empty loses them. -/
theorem save_safe_iff (stored : Bytes) (cs : List Contact) :
    (∀ (J : Simdjson) (o : SaveOutcome),
      (o.opened = false → o.result = false ∧
        parseContactsText J (savedFile stored cs o) = parseContactsText J stored) ∧
      (GetsThrough cs o → SaveSafe J stored cs o)) ∧
    (parseContactsText eager stored ≠ [] →
      ∀ o, (∀ J : Simdjson, SaveSafe J stored cs o) ↔ GetsThrough cs o) ∧
    (∀ J : Simdjson, parseContactsText J stored ≠ [] →
      ((∀ o, SaveSafe J stored cs o) ↔ cs = [])) := by
  refine ⟨?_, ?_, ?_⟩
  · intro J o
    exact ⟨saveSafe_of_not_opened J, GetsThrough.saveSafe J⟩
  · intro hstored o
    constructor
    · intro hsafe
      by_contra hstuck
      have hempty : parseContactsText eager (savedFile stored cs o) = [] :=
        eager_of_not_getsThrough hstuck
      rcases hsafe eager with hold | hnew
      · rw [hempty] at hold
        exact hstored hold.symm
      · rw [hempty] at hnew
        exact hstuck (.inr (.inl (List.map_eq_nil_iff.mp hnew.symm)))
    · intro hthrough J
      exact hthrough.saveSafe J
  · intro J hstored
    constructor
    · intro hsafe
      -- the process stops right after the truncation
      have hempty : parseContactsText J (savedFile stored cs ⟨true, 0, true⟩) = [] :=
        parseContacts_empty J
      rcases hsafe ⟨true, 0, true⟩ with hold | hnew
      · exact absurd (hold.symm.trans hempty) hstored
      · exact List.map_eq_nil_iff.mp (hnew.symm.trans hempty)
    · intro hnil o
      exact GetsThrough.saveSafe J (.inr (.inl hnil))

/-- A contact with keys of zeros. -/
def storedContact : Contact where
  aliasName := ascii "bob"
  publicKey := List.Vector.replicate _ 0
  rxMailboxId := List.Vector.replicate _ 0
  txMailboxId := List.Vector.replicate _ 0
  rxKey := List.Vector.replicate _ 0
  txKey := List.Vector.replicate _ 0

theorem parseContactsText_storedContact :
    parseContactsText eager (fileText [storedContact]) = [rawContact storedContact] := by
  rw [parseContactsText_fileText, parseContacts_sync (by decide +kernel)]
  rfl

/-- A second contact is added to the first: it does not matter that the last line break is
missing, but forty bytes of the new list are not enough. -/
theorem save_safe_iff_second :
    let stored := fileText [storedContact]
    let cs := [storedContact, { storedContact with aliasName := ascii "eve" }]
    (∀ J : Simdjson, SaveSafe J stored cs ⟨true, (fileText cs).length - 1, true⟩) ∧
      ¬ ∀ J : Simdjson, SaveSafe J stored cs ⟨true, 40, true⟩ := by
  intro stored cs
  have hstored : parseContactsText eager stored ≠ [] := by
    rw [show parseContactsText eager stored = _ from parseContactsText_storedContact]
    exact List.cons_ne_nil _ _
  have hiff := (save_safe_iff stored cs).2.1 hstored
  constructor
  · refine (hiff _).mpr (.inr (.inr ⟨?_, by decide +kernel⟩))
    exact Nat.le_add_of_sub_le le_rfl
  · rw [hiff]
    rintro (hclosed | hnil | ⟨hwritten, -⟩)
    · cases hclosed
    · exact List.cons_ne_nil _ _ hnil
    · exact absurd hwritten (by decide +kernel)

/-- **A full disk.** The file is truncated and nothing of the output reaches it: the stored
contact is lost. For one contact, all of whose output is in the buffer when `good()` is asked,
`SyncContactsToDisk` returns `true`; for twenty, which are more than a buffer, it returns
`false`. -/
theorem failed_save_loses_contacts :
    parseContactsText eager (fileText [storedContact]) = [rawContact storedContact] ∧
      8192 < (fileText (List.replicate 20 storedContact)).length ∧
      ∀ save ∈ [([storedContact], true), (List.replicate 20 storedContact, false)],
        let o : SaveOutcome := ⟨true, 0, save.2⟩
        o.result = save.2 ∧
        parseContactsText eager (savedFile (fileText [storedContact]) save.1 o) = [] ∧
        ¬ SaveSafe eager (fileText [storedContact]) save.1 o := by
  have hstored := parseContactsText_storedContact
  refine ⟨hstored, by decide +kernel, ?_⟩
  intro save hsave o
  have hlost : parseContactsText eager (savedFile (fileText [storedContact]) save.1 o) = [] :=
    parseContacts_empty eager
  refine ⟨rfl, hlost, ?_⟩
  rintro (hold | hnew)
  · rw [hlost, hstored] at hold
    cases hold
  · rw [hlost] at hnew
    have hnil : save.1 = [] := List.map_eq_nil_iff.mp hnew.symm
    simp only [List.mem_cons, List.not_mem_nil, or_false] at hsave
    rcases hsave with rfl | rfl
    · cases hnil
    · cases hnil

end BlankChat.Client
