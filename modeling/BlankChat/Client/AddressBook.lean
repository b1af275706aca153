import BlankChat.Client.ContactStorage
import BlankChat.Lib.Map

/-!
# The address book — `address_book.h`, `address_book.cpp`

A map from aliases to contacts, with the file it was loaded from and is saved to.
`Initialize` rebuilds the map from the file in a new process.

Main results: `lookup_initializeFrom_saveToDisk`, a restart keeps the persistent part of
every contact, or finds an unreadable file; `contacts_round_trip`, what that means for
the aliases and notes of the contacts.
-/

namespace BlankChat.Client

open Lib BlankChat.Core Crypto Protocol

structure AddressBook : Type where
  contacts : Map Bytes Contact := ∅
  file : ContactsFile := []

namespace AddressBook

/-- `GetContact` and `GetMutableContact`. -/
def getContact (b : AddressBook) (aliasName : Bytes) : Option Contact :=
  b.contacts.lookup aliasName

/-- A write through the pointer that `GetMutableContact` returns. -/
def putContact (b : AddressBook) (aliasName : Bytes) (c : Contact) : AddressBook :=
  { b with contacts := b.contacts.insertOrAssign aliasName c }

def getAllAliases (b : AddressBook) : List Bytes := b.contacts.keys

/-- The mailboxes a contact is polled for. -/
def listensTo (rxId : MailboxID) (c : Contact) : Bool :=
  c.rxMailboxId = rxId || c.oldRxMailboxId = some rxId

/-- `GetAliasByRxMailboxId`: the first contact that listens to the mailbox, in the
order of the map. -/
def getAliasByRxMailboxId (b : AddressBook) (rxId : MailboxID) : Bytes :=
  (b.contacts.findKey (listensTo rxId)).getD []

def saveToDisk (b : AddressBook) : AddressBook :=
  { b with file := syncContactsToDisk (b.contacts.entries.map Sigma.snd) }

/-- The contact with the bootstrap session of its public key. -/
def bootstrapContact (aliasName : Bytes) (publicKey : PublicKeyType) (note : Option Bytes)
    (d : DerivedMailboxes) : Contact where
  aliasName := aliasName
  publicKey := publicKey
  note := note
  rxMailboxId := d.rxId
  txMailboxId := d.txId
  rxKey := d.rxKey
  txKey := d.txKey

/-- The body of the loop of `Initialize`; `none` is its `continue`. -/
def restoreContact (S : Sodium) (identity : IdentityKey) (c : RawContact) : Option Contact :=
  let derived := derivePairwiseMailboxes S identity c.publicKey
  match c.rxKey, c.txKey, c.rxMailboxId, c.txMailboxId with
  | some rxKey, some txKey, some rxMailboxId, some txMailboxId =>
      let newContact : Contact :=
        { aliasName := c.aliasName
          publicKey := c.publicKey
          note := c.note
          rxMailboxId := ByteVec.ofSpan mailboxIdSize rxMailboxId
          txMailboxId := ByteVec.ofSpan mailboxIdSize txMailboxId
          rxKey := ByteVec.ofSpan symmetricKeySize rxKey
          txKey := ByteVec.ofSpan symmetricKeySize txKey }
      match c.initialPfsComplete with
      | some complete => some { newContact with initialPfsComplete := complete }
      | none =>
          match derived with
          | some bootstrap =>
              let isStaticBootstrap :=
                newContact.rxMailboxId = bootstrap.rxId ∧
                newContact.txMailboxId = bootstrap.txId ∧
                newContact.rxKey = bootstrap.rxKey ∧ newContact.txKey = bootstrap.txKey
              some { newContact with initialPfsComplete := !decide isStaticBootstrap }
          | none => some newContact
  | _, _, _, _ => derived.map (bootstrapContact c.aliasName c.publicKey c.note)

/-- `Initialize` of a new address book on the file of an old one. -/
def initializeFrom (S : Sodium) (identity : IdentityKey) (file : ContactsFile) : AddressBook where
  contacts := (parseContacts file).foldl (fun contacts c =>
    match restoreContact S identity c with
    | some newContact => contacts.insertOrAssign c.aliasName newContact
    | none => contacts) ∅
  file := file

/-- `AddContact`; `none` is its `return false`. -/
def addContact (S : Sodium) (identity : IdentityKey) (b : AddressBook) (aliasName : Bytes)
    (publicKey : PublicKeyType) (note : Option Bytes) : Option AddressBook :=
  (derivePairwiseMailboxes S identity publicKey).map fun d =>
    (b.putContact aliasName (bootstrapContact aliasName publicKey note d)).saveToDisk

/-! ## Lookups -/

@[simp] theorem getContact_putContact (b : AddressBook) (aliasName : Bytes) (c : Contact) :
    (b.putContact aliasName c).getContact aliasName = some c :=
  Map.lookup_insertOrAssign _ _ _

theorem getContact_putContact_ne (b : AddressBook) {a aliasName : Bytes}
    (h : a ≠ aliasName) (c : Contact) :
    (b.putContact aliasName c).getContact a = b.getContact a :=
  Map.lookup_insertOrAssign_ne h _ _

theorem getContact_putContact_cases {b : AddressBook} {aliasName a : Bytes} {c c' : Contact}
    (h : (b.putContact aliasName c).getContact a = some c') :
    (a = aliasName ∧ c' = c) ∨ (a ≠ aliasName ∧ b.getContact a = some c') := by
  by_cases ha : a = aliasName
  · subst ha
    rw [getContact_putContact] at h
    exact .inl ⟨rfl, (Option.some.inj h).symm⟩
  · rw [getContact_putContact_ne _ ha] at h
    exact .inr ⟨ha, h⟩

theorem putContact_self {b : AddressBook} {aliasName : Bytes} {c : Contact}
    (h : b.getContact aliasName = some c) : b.putContact aliasName c = b := by
  unfold putContact
  rw [Map.insertOrAssign_self h]

@[simp] theorem putContact_putContact (b : AddressBook) (aliasName : Bytes) (c c' : Contact) :
    (b.putContact aliasName c).putContact aliasName c' = b.putContact aliasName c' := by
  unfold putContact
  rw [Map.insertOrAssign_insertOrAssign]

@[simp] theorem getContact_saveToDisk (b : AddressBook) (a : Bytes) :
    b.saveToDisk.getContact a = b.getContact a := rfl

theorem mem_entries_of_getContact {b : AddressBook} {a : Bytes} {c : Contact}
    (h : b.getContact a = some c) : ⟨a, c⟩ ∈ b.contacts.entries :=
  List.of_mem_dlookup h

/-! ## Restarts -/

/-- What a restart leaves of a contact. -/
def persistent (c : Contact) : Contact where
  aliasName := c.aliasName
  publicKey := c.publicKey
  note := c.note
  rxMailboxId := c.rxMailboxId
  txMailboxId := c.txMailboxId
  rxKey := c.rxKey
  txKey := c.txKey
  initialPfsComplete := c.initialPfsComplete

theorem restoreContact_rawContact (S : Sodium) (identity : IdentityKey) (c : Contact) :
    restoreContact S identity (rawContact c) = some (persistent c) := by
  simp only [restoreContact, rawContact, ByteVec.ofSpan_eq, persistent]

theorem getContact_initializeFrom {S : Sodium} {identity : IdentityKey} {file : ContactsFile}
    {a : Bytes} {c : Contact} (h : (initializeFrom S identity file).getContact a = some c) :
    ∃ raw ∈ parseContacts file, raw.aliasName = a ∧ restoreContact S identity raw = some c := by
  unfold getContact initializeFrom at h
  dsimp only at h
  -- every entry of the map built so far was restored from a contact that was read
  have hfold : ∀ (raws : List RawContact) (m : Map Bytes Contact),
      AList.lookup a (raws.foldl (fun contacts raw =>
        match restoreContact S identity raw with
        | some newContact => Map.insertOrAssign raw.aliasName newContact contacts
        | none => contacts) m) = some c →
      AList.lookup a m = some c ∨
        ∃ raw ∈ raws, raw.aliasName = a ∧ restoreContact S identity raw = some c := by
    intro raws
    induction raws with
    | nil => exact fun m h => .inl h
    | cons raw raws ih =>
        intro m h
        rw [List.foldl_cons] at h
        rcases ih _ h with h | ⟨raw', hmem, hraw'⟩
        · split at h
          · next newContact hnew =>
              by_cases ha : a = raw.aliasName
              · subst ha
                rw [Map.lookup_insertOrAssign] at h
                obtain rfl := Option.some.inj h
                exact .inr ⟨raw, List.mem_cons_self, rfl, hnew⟩
              · rw [Map.lookup_insertOrAssign_ne ha] at h
                exact .inl h
          · exact .inl h
        · exact .inr ⟨raw', List.mem_cons_of_mem _ hmem, hraw'⟩
  rcases hfold _ _ h with h | h
  · cases h
  · exact h

theorem restoreContact_pending {S : Sodium} {identity : IdentityKey} {raw : RawContact}
    {c : Contact} (h : restoreContact S identity raw = some c) :
    c.pendingEphemeralKey = none := by
  unfold restoreContact at h
  dsimp only at h
  split at h
  · split at h
    · obtain rfl := Option.some.inj h
      rfl
    · split at h
      all_goals
        obtain rfl := Option.some.inj h
        rfl
  · obtain ⟨d, -, rfl⟩ := Option.map_eq_some_iff.mp h
    rfl

/-- Every contact is stored under its own alias. -/
def Keyed (b : AddressBook) : Prop :=
  ∀ a c, b.getContact a = some c → c.aliasName = a

theorem lookup_foldl_insertOrAssign (g : Contact → Contact)
    {l : List (Sigma fun _ : Bytes => Contact)} (hl : l.NodupKeys) (m : Map Bytes Contact)
    (a : Bytes) :
    AList.lookup a (l.foldl (fun m e => Map.insertOrAssign e.1 (g e.2) m) m) =
      ((l.dlookup a).map g).or (AList.lookup a m) := by
  induction l generalizing m with
  | nil => rfl
  | cons e l ih =>
      obtain ⟨k, v⟩ := e
      obtain ⟨hk, hl⟩ := List.nodupKeys_cons.mp hl
      rw [List.foldl_cons, ih hl]
      by_cases ha : a = k
      · subst ha
        rw [Map.lookup_insertOrAssign, List.dlookup_cons_eq, List.dlookup_eq_none.mpr hk]
        rfl
      · rw [Map.lookup_insertOrAssign_ne ha, List.dlookup_cons_ne _ _ ha]

/-- **A restart keeps the persistent part of every contact**, unless the file has a
string that makes it unreadable as a whole. -/
theorem lookup_initializeFrom_saveToDisk (S : Sodium) (identity : IdentityKey)
    {b : AddressBook} (hb : b.Keyed) (a : Bytes) :
    (initializeFrom S identity b.saveToDisk.file).getContact a =
      if b.saveToDisk.file.all acceptsObject then (b.getContact a).map persistent
      else none := by
  by_cases hfile : b.saveToDisk.file.all acceptsObject = true
  · rw [if_pos hfile]
    unfold getContact initializeFrom
    rw [show b.saveToDisk.file = syncContactsToDisk (b.contacts.entries.map Sigma.snd) from rfl,
      parseContacts_sync hfile, List.foldl_map, List.foldl_map]
    simp only [restoreContact_rawContact]
    -- the file lists the entries of the map, each under its own alias
    have hkeyed : ∀ e ∈ b.contacts.entries, (rawContact e.2).aliasName = e.1 := by
      intro e he
      exact hb e.1 e.2 (List.mem_dlookup b.contacts.nodupKeys he)
    have hfold : ∀ (l : List (Sigma fun _ : Bytes => Contact)) (m : Map Bytes Contact),
        (∀ e ∈ l, (rawContact e.2).aliasName = e.1) →
        l.foldl (fun m e => Map.insertOrAssign (rawContact e.2).aliasName
          (persistent e.2) m) m =
        l.foldl (fun m e => Map.insertOrAssign e.1 (persistent e.2) m) m := by
      intro l m h
      apply List.foldl_ext
      intro m e he
      rw [h e he]
    rw [hfold _ _ hkeyed, lookup_foldl_insertOrAssign persistent b.contacts.nodupKeys]
    exact Option.or_none
  · rw [if_neg hfile]
    unfold getContact initializeFrom
    rw [parseContacts, if_neg hfile]
    rfl

/-! ## Round trips through the text -/

/-- The text that `SaveToDisk` writes. -/
def savedText (b : AddressBook) : Bytes := fileText (b.contacts.entries.map Sigma.snd)

/-- The map that `Initialize` builds from the text of a file. -/
def contactsFromText (J : Simdjson) (S : Sodium) (identity : IdentityKey) (text : Bytes) :
    Map Bytes Contact :=
  (parseContactsText J text).foldl (fun contacts c =>
    match restoreContact S identity c with
    | some newContact => contacts.insertOrAssign c.aliasName newContact
    | none => contacts) ∅

theorem contactsFromText_savedText (J : Simdjson) (S : Sodium) (identity : IdentityKey)
    (b : AddressBook) :
    contactsFromText J S identity b.savedText =
      (initializeFrom S identity b.saveToDisk.file).contacts := by
  unfold contactsFromText initializeFrom savedText saveToDisk
  rw [parseContactsText_fileText]

/-- Address books that come from `AddContact`, with any session state in their
contacts. -/
inductive Built (S : Sodium) (identity : IdentityKey) : AddressBook → Prop where
  | empty : Built S identity {}
  | add {b b' : AddressBook} {aliasName : Bytes} {publicKey : PublicKeyType}
      {note : Option Bytes} (h : Built S identity b)
      (hadd : addContact S identity b aliasName publicKey note = some b') : Built S identity b'
  | session {b : AddressBook} {aliasName : Bytes} {c c' : Contact} (h : Built S identity b)
      (hc : b.getContact aliasName = some c) (halias : c'.aliasName = c.aliasName)
      (hkey : c'.publicKey = c.publicKey) (hnote : c'.note = c.note) :
      Built S identity (b.putContact aliasName c')

theorem Keyed.putContact {b : AddressBook} (h : b.Keyed) {aliasName : Bytes} {c : Contact}
    (hc : c.aliasName = aliasName) : (b.putContact aliasName c).Keyed := by
  intro a c' hc'
  rcases getContact_putContact_cases hc' with ⟨rfl, rfl⟩ | ⟨-, hc'⟩
  · exact hc
  · exact h a c' hc'

theorem Built.keyed {S : Sodium} {identity : IdentityKey} {b : AddressBook}
    (h : Built S identity b) : b.Keyed := by
  induction h with
  | empty =>
      intro a c hc
      cases hc
  | add _ hadd ih =>
      obtain ⟨d, -, rfl⟩ := Option.map_eq_some_iff.mp hadd
      exact ih.putContact rfl
  | session _ hc halias _ _ ih => exact ih.putContact (halias.trans (ih _ _ hc))

/-- The strings in the saved file are the aliases and notes of the contacts. -/
theorem all_acceptsObject_iff {b : AddressBook} :
    b.saveToDisk.file.all acceptsObject = true ↔
      ∀ a c, b.getContact a = some c → acceptsString c.aliasName = true ∧
        ∀ note, c.note = some note → acceptsString note = true := by
  show ((b.contacts.entries.map Sigma.snd).map contactObject).all acceptsObject = true ↔ _
  rw [List.all_eq_true]
  constructor
  · intro h a c hc
    refine acceptsObject_contactObject_iff.mp (h _ ?_)
    exact List.mem_map_of_mem (List.mem_map_of_mem (f := Sigma.snd) (mem_entries_of_getContact hc))
  · intro h o ho
    obtain ⟨c, hmem, rfl⟩ := List.mem_map.mp ho
    obtain ⟨⟨a, c⟩, he, rfl⟩ := List.mem_map.mp hmem
    exact acceptsObject_contactObject_iff.mpr (h a c (List.mem_dlookup b.contacts.nodupKeys he))

/-- **The contacts file round-trips exactly if all its strings are acceptable.** Saving an
address book and reading the text in a new process gives every contact with its public
key, note, mailboxes, keys and handshake flag, if and only if every alias and every note
is valid UTF-8 without control characters that `EscapeJsonString` leaves alone. -/
theorem contacts_round_trip (J : Simdjson) {S : Sodium} {identity : IdentityKey} {b : AddressBook}
    (h : Built S identity b) :
    (∀ a, (AList.lookup a (contactsFromText J S identity b.savedText)).map persistent =
        (b.getContact a).map persistent) ↔
      ∀ a c, b.getContact a = some c → acceptsString c.aliasName = true ∧
        ∀ note, c.note = some note → acceptsString note = true := by
  have hlookup : ∀ a, AList.lookup a (contactsFromText J S identity b.savedText) =
      if b.saveToDisk.file.all acceptsObject then (b.getContact a).map persistent else none := by
    intro a
    rw [contactsFromText_savedText]
    exact lookup_initializeFrom_saveToDisk S identity h.keyed a
  rw [← all_acceptsObject_iff]
  constructor
  · intro hround
    by_contra hbad
    -- nothing is read from a rejected file, so there was nothing in it
    refine hbad (all_acceptsObject_iff.mpr fun a c hc => ?_)
    have ha := hround a
    rw [hlookup, if_neg hbad, hc] at ha
    cases ha
  · intro hgood a
    rw [hlookup, if_pos hgood, Option.map_map]
    rfl

def sampleIdentity : IdentityKey := ⟨List.Vector.replicate 32 1, List.Vector.replicate 64 1⟩

/-- An alias with a quote, a backslash and a line break. -/
def oddAlias : Bytes := [0x61, 0x22, 0x5C, 0x0A]

/-- A contact with a note, and one whose alias has to be escaped. -/
def sampleBook : Option AddressBook := do
  let b ← addContact transparent sampleIdentity {} (ascii "bob") (List.Vector.replicate 32 2)
    (some (ascii "met in \"Oslo\""))
  addContact transparent sampleIdentity b oddAlias (List.Vector.replicate 32 3) none

theorem contacts_round_trip_two :
    ∃ b, sampleBook = some b ∧
      (b.getContact (ascii "bob")).map Contact.note = some (some (ascii "met in \"Oslo\"")) ∧
      (b.getContact oddAlias).map (fun c => c.publicKey.toList) = some (List.replicate 32 3) ∧
      ∀ a, (AList.lookup a (contactsFromText eager transparent sampleIdentity b.savedText)).map
          persistent =
        (b.getContact a).map persistent := by
  obtain ⟨b, hb⟩ := Option.isSome_iff_exists.mp (show sampleBook.isSome = true by decide +kernel)
  have hfacts : ∀ b' ∈ sampleBook,
      (b'.getContact (ascii "bob")).map Contact.note = some (some (ascii "met in \"Oslo\"")) ∧
      (b'.getContact oddAlias).map (fun c => c.publicKey.toList) = some (List.replicate 32 3) ∧
      b'.saveToDisk.file.all acceptsObject = true := by decide +kernel
  obtain ⟨hnote, hodd, hfile⟩ := hfacts b hb
  obtain ⟨b₁, hfirst, hsecond⟩ : ∃ b₁, _ = some b₁ ∧ _ = some b := by
    rw [sampleBook, Option.bind_eq_bind, Option.bind_eq_some_iff] at hb
    exact hb
  have hbuilt : Built transparent sampleIdentity b := .add (.add .empty hfirst) hsecond
  exact ⟨b, hb, hnote, hodd,
    (contacts_round_trip eager hbuilt).mpr (all_acceptsObject_iff.mp hfile)⟩

/-- A plain alias, and one with a control character that is not escaped. -/
def lostBook : Option AddressBook := do
  let b ← addContact transparent sampleIdentity {} (ascii "bob") (List.Vector.replicate 32 2) none
  addContact transparent sampleIdentity b [0x01] (List.Vector.replicate 32 2) none

/-- **One alias with a control character loses the whole address book**: neither contact
is found after a restart. -/
theorem contacts_lost :
    ∃ b, lostBook = some b ∧
      b.getContact (ascii "bob") ≠ none ∧ b.getContact [0x01] ≠ none ∧
      (contactsFromText eager transparent sampleIdentity b.savedText).keys = [] := by
  obtain ⟨b, hb⟩ := Option.isSome_iff_exists.mp (show lostBook.isSome = true by decide +kernel)
  have hfacts : ∀ b' ∈ lostBook,
      b'.getContact (ascii "bob") ≠ none ∧ b'.getContact [0x01] ≠ none ∧
        (contactsFromText eager transparent sampleIdentity b'.savedText).keys = [] := by
    decide +kernel
  exact ⟨b, hb, hfacts b hb⟩

/-! ## A book with one contact -/

section Single

variable {b : AddressBook} {aliasName : Bytes} {c : Contact}

theorem getContact_single (h : b.contacts = AList.singleton aliasName c) :
    b.getContact aliasName = some c := by
  unfold getContact
  rw [h]
  exact List.dlookup_cons_eq ..

theorem putContact_single (h : b.contacts = AList.singleton aliasName c) (c' : Contact) :
    (b.putContact aliasName c').contacts = AList.singleton aliasName c' := by
  show Map.insertOrAssign aliasName c' b.contacts = _
  rw [h, Map.insertOrAssign, if_pos (by simp [AList.mem_keys])]
  exact AList.ext (Map.kreplace_cons_self aliasName c' c [])

theorem getAliasByRxMailboxId_single (h : b.contacts = AList.singleton aliasName c)
    (rxId : MailboxID) :
    b.getAliasByRxMailboxId rxId = if listensTo rxId c then aliasName else [] := by
  unfold getAliasByRxMailboxId Map.findKey
  rw [h]
  show ((List.find? _ [(⟨aliasName, c⟩ : Sigma fun _ : Bytes => Contact)]).map
    Sigma.fst).getD [] = _
  cases hl : listensTo rxId c with
  | true => simp [hl]
  | false => simp [hl]

theorem initializeFrom_single (S : Sodium) (identity : IdentityKey) {c : Contact}
    (h : acceptsObject (contactObject c) = true) :
    (initializeFrom S identity (syncContactsToDisk [c])).contacts =
      AList.singleton c.aliasName (persistent c) := by
  unfold initializeFrom
  rw [parseContacts_sync (by simpa [syncContactsToDisk] using h)]
  simp only [List.map_cons, List.map_nil, List.foldl_cons, List.foldl_nil,
    restoreContact_rawContact]
  rfl

end Single

end AddressBook

end BlankChat.Client
