import BlankChat.Core.Simdjson
import BlankChat.Crypto.KeyExchange

/-!
# Contacts and the contacts file — `contact.h`, `raw_contact.h`, `contact_storage.cpp`

The file is modelled by the objects of its `contacts` array (see `Core.Json`):
`contactObject` are the fields `SyncContactsToDisk` writes for a contact, in order;
`parseSingleContact` looks them up as the source does. Only the persistent part of
a contact is written: the PFS state, the pending key, the old mailbox and the
counter live in memory.

The text of the file is `fileText`; `parseContactsText_fileText` says that reading the
text is reading the objects.

Main result: `parseContacts_sync`, a file with acceptable strings gives back the
persistent part of every contact.
-/

namespace BlankChat.Client

open Lib BlankChat.Core Crypto Protocol

inductive PfsState : Type where
  | idle
  | rotationRequested
  | rotationResponding
deriving DecidableEq, Repr

structure Contact : Type where
  aliasName : Bytes
  publicKey : PublicKeyType
  note : Option Bytes := none
  rxMailboxId : MailboxID
  txMailboxId : MailboxID
  rxKey : SymmetricKey
  txKey : SymmetricKey
  initialPfsComplete : Bool := false
  messageCounter : UInt32 := 0
  pfsState : PfsState := .idle
  pendingEphemeralKey : Option EphemeralKey := none
  oldRxMailboxId : Option MailboxID := none
  oldRxKey : Option SymmetricKey := none
deriving DecidableEq

structure RawContact : Type where
  aliasName : Bytes := ascii "contact"
  publicKey : PublicKeyType := List.Vector.replicate publicKeySize 0
  note : Option Bytes := none
  initialPfsComplete : Option Bool := none
  rxMailboxId : Option Bytes := none
  txMailboxId : Option Bytes := none
  rxKey : Option Bytes := none
  txKey : Option Bytes := none
deriving DecidableEq

abbrev ContactsFile : Type := List JsonObject

/-! ## Writing -/

/-- The fields written for a contact. -/
def contactObject (c : Contact) : JsonObject :=
  [(ascii "alias", .string c.aliasName),
    (ascii "publicKey", .string (encodeHex c.publicKey.toList))] ++
  (match c.note with
    | some note => [(ascii "note", .string note)]
    | none => []) ++
  [(ascii "rxMailboxId", .string (encodeHex c.rxMailboxId.toList)),
    (ascii "txMailboxId", .string (encodeHex c.txMailboxId.toList)),
    (ascii "rxKey", .string (encodeHex c.rxKey.toList)),
    (ascii "txKey", .string (encodeHex c.txKey.toList)),
    (ascii "initialPfsComplete", .bool c.initialPfsComplete)]

/-- `SyncContactsToDisk`, when the file can be written. -/
def syncContactsToDisk (activeContacts : List Contact) : ContactsFile :=
  activeContacts.map contactObject

/-! ## Reading -/

/-- A field of `size` bytes in hex; a malformed one counts as missing. -/
def findHexField (size : ℕ) (c : JsonCursor) (key : Bytes) : Option Bytes × JsonCursor :=
  let (value, c) := c.findFieldUnordered key
  match getString value with
  | none => (none, c)
  | some view =>
      match decodeHexToArray view (List.replicate size 0) with
      | (true, tmp) => (some tmp, c)
      | (false, _) => (none, c)

def parseSingleContact (o : JsonObject) : Option RawContact := do
  let (value, c) := (JsonCursor.start o).findField (ascii "alias")
  let aliasName ← getString value
  let (value, c) := c.findField (ascii "publicKey")
  let view ← getString value
  let (ok, publicKey) := decodeHexToArray view (List.replicate publicKeySize 0)
  guard ok
  let (value, c) := c.findFieldUnordered (ascii "note")
  let note := getString value
  let (rxMailboxId, c) := findHexField mailboxIdSize c (ascii "rxMailboxId")
  let (txMailboxId, c) := findHexField mailboxIdSize c (ascii "txMailboxId")
  let (rxKey, c) := findHexField symmetricKeySize c (ascii "rxKey")
  let (txKey, c) := findHexField symmetricKeySize c (ascii "txKey")
  let (value, _) := c.findFieldUnordered (ascii "initialPfsComplete")
  return { aliasName, publicKey := ByteVec.ofSpan publicKeySize publicKey, note, rxMailboxId
           txMailboxId, rxKey, txKey, initialPfsComplete := getBool value }

/-- `ParseContacts`: nothing is read from a document the library rejects. -/
def parseContacts (file : ContactsFile) : List RawContact :=
  if file.all acceptsObject then file.filterMap parseSingleContact else []

/-! ## Reading what was written -/

/-- The persistent part of a contact. -/
def rawContact (c : Contact) : RawContact where
  aliasName := c.aliasName
  publicKey := c.publicKey
  note := c.note
  initialPfsComplete := some c.initialPfsComplete
  rxMailboxId := some c.rxMailboxId.toList
  txMailboxId := some c.txMailboxId.toList
  rxKey := some c.rxKey.toList
  txKey := some c.txKey.toList

theorem decodeHexToArray_toList {n : ℕ} (v : ByteVec n) :
    decodeHexToArray (encodeHex v.toList) (List.replicate n 0) = (true, v.toList) :=
  decodeHexToArray_encodeHex (by simp)

theorem splitAtKey_cons_self (key : Bytes) (value : JsonValue) (fields : JsonObject) :
    splitAtKey key ((key, value) :: fields) = some (value, [(key, value)], fields) := by
  rw [splitAtKey, if_pos rfl]

theorem findHexField_cons {n : ℕ} (v : ByteVec n) (passed fields : JsonObject) (key : Bytes) :
    findHexField n ⟨passed, (key, .string (encodeHex v.toList)) :: fields⟩ key =
      (some v.toList, ⟨passed ++ [(key, .string (encodeHex v.toList))], fields⟩) := by
  simp only [findHexField, JsonCursor.findFieldUnordered, splitAtKey_cons_self, getString,
    decodeHexToArray_toList]

theorem parseSingleContact_contactObject (c : Contact) :
    parseSingleContact (contactObject c) = some (rawContact c) := by
  obtain ⟨aliasName, publicKey, note, rxId, txId, rxKey, txKey, complete, _, _, _, _, _⟩ := c
  cases note with
  | some note =>
      simp only [parseSingleContact, contactObject, JsonCursor.start, JsonCursor.findField,
        JsonCursor.findFieldUnordered, List.cons_append, List.nil_append,
        splitAtKey_cons_self, getString, findHexField_cons, decodeHexToArray_toList,
        ByteVec.ofSpan_eq, getBool, Option.bind_eq_bind, Option.bind_some, rawContact]
      rfl
  | none =>
      -- `note` is looked for in the whole object, and the cursor stays where it was
      have hnote : ∀ value₁ value₂ fields, splitAtKey (ascii "note") fields = none →
          (⟨[(ascii "alias", value₁), (ascii "publicKey", value₂)], fields⟩ :
            JsonCursor).findFieldUnordered (ascii "note") =
          (none, ⟨[(ascii "alias", value₁), (ascii "publicKey", value₂)], fields⟩) := by
        intro value₁ value₂ fields hfields
        have hpassed : splitAtKey (ascii "note")
            [(ascii "alias", value₁), (ascii "publicKey", value₂)] = none := by
          simp [splitAtKey, ascii]
        simp only [JsonCursor.findFieldUnordered, hfields, hpassed]
      have hahead : ∀ v₁ v₂ v₃ v₄ v₅, splitAtKey (ascii "note") [(ascii "rxMailboxId", v₁),
          (ascii "txMailboxId", v₂), (ascii "rxKey", v₃), (ascii "txKey", v₄),
          (ascii "initialPfsComplete", v₅)] = none := by
        intro v₁ v₂ v₃ v₄ v₅
        simp [splitAtKey, ascii]
      have hlast : ∀ passed value, (⟨passed, [(ascii "initialPfsComplete", value)]⟩ :
          JsonCursor).findFieldUnordered (ascii "initialPfsComplete") =
          (some value, ⟨passed ++ [(ascii "initialPfsComplete", value)], []⟩) := by
        intro passed value
        simp only [JsonCursor.findFieldUnordered, splitAtKey_cons_self]
      simp only [parseSingleContact, contactObject, JsonCursor.start, JsonCursor.findField,
        List.cons_append, List.nil_append, splitAtKey_cons_self, getString,
        decodeHexToArray_toList, Option.bind_eq_bind, Option.bind_some,
        hnote _ _ _ (hahead _ _ _ _ _), findHexField_cons, hlast, ByteVec.ofSpan_eq, getBool,
        rawContact]
      rfl

/-- **The file keeps the persistent part of every contact**, if the library accepts
the strings in it. -/
theorem parseContacts_sync {cs : List Contact}
    (h : (syncContactsToDisk cs).all acceptsObject = true) :
    parseContacts (syncContactsToDisk cs) = cs.map rawContact := by
  have hread : parseSingleContact ∘ contactObject = some ∘ rawContact :=
    funext parseSingleContact_contactObject
  rw [parseContacts, if_pos h, syncContactsToDisk, List.filterMap_map, hread,
    List.filterMap_eq_map]

/-- Whatever is read from a file was written to it. -/
theorem parseContacts_subset (cs : List Contact) :
    ∀ raw ∈ parseContacts (syncContactsToDisk cs), ∃ c ∈ cs, raw = rawContact c := by
  intro raw hraw
  by_cases h : (syncContactsToDisk cs).all acceptsObject = true
  · rw [parseContacts_sync h] at hraw
    obtain ⟨c, hc, rfl⟩ := List.mem_map.mp hraw
    exact ⟨c, hc, rfl⟩
  · rw [parseContacts, if_neg h] at hraw
    cases hraw

/-- Only the alias and the note of a contact can make the file unreadable. -/
theorem acceptsObject_contactObject {c : Contact} (halias : acceptsString c.aliasName = true)
    (hnote : ∀ note, c.note = some note → acceptsString note = true) :
    acceptsObject (contactObject c) = true := by
  unfold acceptsObject contactObject
  cases hc : c.note with
  | none => simp [halias, acceptsString_encodeHex]
  | some note => simp [halias, hnote note hc, acceptsString_encodeHex]

theorem acceptsObject_contactObject_iff {c : Contact} :
    acceptsObject (contactObject c) = true ↔
      acceptsString c.aliasName = true ∧ ∀ note, c.note = some note → acceptsString note = true := by
  constructor
  · intro h
    unfold acceptsObject contactObject at h
    cases hc : c.note with
    | none =>
        rw [hc] at h
        refine ⟨?_, fun note hnote => by cases hnote⟩
        simp only [List.append_assoc, List.cons_append, List.all_cons, Bool.and_eq_true] at h
        exact h.1
    | some note =>
        rw [hc] at h
        simp only [List.cons_append, List.nil_append, List.all_cons, Bool.and_eq_true] at h
        refine ⟨h.1, ?_⟩
        rintro _ ⟨⟩
        exact h.2.2.1
  · rintro ⟨halias, hnote⟩
    exact acceptsObject_contactObject halias hnote

/-! ## The text of the file -/

/-- What `SyncContactsToDisk` writes for a contact. -/
def contactText (c : Contact) : Bytes :=
  ascii "    \x7b\n" ++
  ascii "      \"alias\": \"" ++ escapeJsonString c.aliasName ++ ascii "\",\n" ++
  ascii "      \"publicKey\": \"" ++ encodeHex c.publicKey.toList ++ ascii "\"" ++
  (match c.note with
    | some note => ascii ",\n      \"note\": \"" ++ escapeJsonString note ++ ascii "\""
    | none => []) ++
  ascii ",\n      \"rxMailboxId\": \"" ++ encodeHex c.rxMailboxId.toList ++ ascii "\",\n" ++
  ascii "      \"txMailboxId\": \"" ++ encodeHex c.txMailboxId.toList ++ ascii "\",\n" ++
  ascii "      \"rxKey\": \"" ++ encodeHex c.rxKey.toList ++ ascii "\",\n" ++
  ascii "      \"txKey\": \"" ++ encodeHex c.txKey.toList ++ ascii "\",\n" ++
  ascii "      \"initialPfsComplete\": " ++
  (if c.initialPfsComplete then ascii "true" else ascii "false") ++ ascii "\n" ++
  ascii "    \x7d"

/-- The loop of `SyncContactsToDisk`. -/
def contactsText : List Contact → Bytes
  | [] => []
  | [c] => contactText c ++ ascii "\n"
  | c :: activeContacts => contactText c ++ ascii ",\n" ++ contactsText activeContacts

/-- The file that `SyncContactsToDisk` writes. -/
def fileText (activeContacts : List Contact) : Bytes :=
  ascii "\x7b\n  \"contacts\": [\n" ++ contactsText activeContacts ++ ascii "  ]\n\x7d\n"

/-- `ParseContacts` on the text of a file. -/
def parseContactsText (J : Simdjson) (text : Bytes) : List RawContact :=
  (J.objects (ascii "contacts") text).filterMap parseSingleContact

/-- A string member as the source writes it: the key with its quotes in one piece. -/
theorem fieldText_string (key s : Bytes) : fieldText (key, .string s) =
    ascii "      \"" ++ (key ++ (ascii "\": \"" ++ (escapeJsonString s ++ ascii "\""))) := by
  unfold fieldText valueText
  simp only [List.append_assoc]
  rfl

theorem contactText_eq (c : Contact) : contactText c = objectText (contactObject c) := by
  have hhex : ∀ l, escapeJsonString (encodeHex l) = encodeHex l :=
    fun l => escapeJsonString_plain (plain_encodeHex l)
  -- the pieces of text between two values, cut at the ends of the members
  have hend : ascii "\",\n" = ascii "\"" ++ ascii ",\n" := rfl
  have halias : ascii "      \"alias\": \"" =
    ascii "      \"" ++ (ascii "alias" ++ ascii "\": \"") := rfl
  have hpublicKey : ascii "      \"publicKey\": \"" =
    ascii "      \"" ++ (ascii "publicKey" ++ ascii "\": \"") := rfl
  have hnote : ascii ",\n      \"note\": \"" =
    ascii ",\n" ++ (ascii "      \"" ++ (ascii "note" ++ ascii "\": \"")) := rfl
  have hrxId : ascii ",\n      \"rxMailboxId\": \"" =
    ascii ",\n" ++ (ascii "      \"" ++ (ascii "rxMailboxId" ++ ascii "\": \"")) := rfl
  have htxId : ascii "      \"txMailboxId\": \"" =
    ascii "      \"" ++ (ascii "txMailboxId" ++ ascii "\": \"") := rfl
  have hrxKey : ascii "      \"rxKey\": \"" =
    ascii "      \"" ++ (ascii "rxKey" ++ ascii "\": \"") := rfl
  have htxKey : ascii "      \"txKey\": \"" =
    ascii "      \"" ++ (ascii "txKey" ++ ascii "\": \"") := rfl
  have hcomplete : ascii "      \"initialPfsComplete\": " =
    ascii "      \"" ++ (ascii "initialPfsComplete" ++ ascii "\": ") := rfl
  have hlast : ascii "\n    \x7d" = ascii "\n" ++ ascii "    \x7d" := rfl
  have hbool : ∀ key b, fieldText (key, .bool b) =
      ascii "      \"" ++ (key ++ (ascii "\": " ++ if b then ascii "true" else ascii "false")) := by
    intro key b
    unfold fieldText valueText
    simp only [List.append_assoc]
  unfold contactText objectText contactObject
  rw [hend, halias, hpublicKey, hnote, hrxId, htxId, hrxKey, htxKey, hcomplete, hlast]
  cases c.note with
  | none =>
      simp only [List.append_assoc, List.cons_append, List.nil_append, membersText,
        fieldText_string, hbool, hhex]
  | some note =>
      simp only [List.append_assoc, List.cons_append, List.nil_append, membersText,
        fieldText_string, hbool, hhex]

theorem contactsText_eq (cs : List Contact) :
    contactsText cs = objectsText (syncContactsToDisk cs) := by
  induction cs with
  | nil => rfl
  | cons c cs ih =>
      cases cs with
      | nil =>
          rw [contactsText, contactText_eq]
          rfl
      | cons c' cs' =>
          rw [contactsText, contactText_eq, ih]
          · rfl
          · simp

theorem fileText_eq (cs : List Contact) :
    fileText cs = documentText (ascii "contacts") (syncContactsToDisk cs) := by
  unfold fileText documentText
  rw [contactsText_eq]
  simp only [List.append_assoc]
  rfl

theorem plain_contactObject (c : Contact) :
    contactObject c ≠ [] ∧ ∀ f ∈ contactObject c, plain f.1 = true := by
  unfold contactObject
  constructor
  · simp
  · intro f hf
    cases hc : c.note with
    | none =>
        rw [hc] at hf
        simp only [List.cons_append, List.nil_append, List.mem_cons, List.not_mem_nil,
          or_false] at hf
        rcases hf with rfl | rfl | rfl | rfl | rfl | rfl | rfl <;> rfl
    | some note =>
        rw [hc] at hf
        simp only [List.cons_append, List.nil_append, List.mem_cons, List.not_mem_nil,
          or_false] at hf
        rcases hf with rfl | rfl | rfl | rfl | rfl | rfl | rfl | rfl <;> rfl

theorem plain_syncContactsToDisk (cs : List Contact) : PlainKeys (syncContactsToDisk cs) := by
  intro o ho
  obtain ⟨c, -, rfl⟩ := List.mem_map.mp ho
  exact plain_contactObject c

/-- **Reading the text of a file is reading its objects.** -/
theorem parseContactsText_fileText (J : Simdjson) (cs : List Contact) :
    parseContactsText J (fileText cs) = parseContacts (syncContactsToDisk cs) := by
  unfold parseContactsText parseContacts
  rw [fileText_eq, J.objects_documentText (by decide) (plain_syncContactsToDisk cs)]
  split <;> rfl

end BlankChat.Client
