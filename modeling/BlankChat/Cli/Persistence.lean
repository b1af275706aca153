import BlankChat.Cli.ContactInvariant

/-!
# What a restart does to the mailboxes

The file has the current mailboxes and keys of a contact, but not the old receive mailbox
that is still polled after a rotation. The save that follows the answer to a request is
the very step that makes the old mailbox necessary.

Main result: `restart_polls_iff`. A new process polls all that the old one polled when it
saved, exactly if no contact had an old mailbox besides the current one and the library
can read the file; `old_mailbox_closed` is a run in which a contact had one.
-/

namespace BlankChat.Cli

open Lib BlankChat.Core Crypto Protocol Client

/-- The mailboxes a contact is polled for, each with the key that opens its frames. -/
def polledPairs (c : Contact) : List (MailboxID × SymmetricKey) :=
  (c.rxMailboxId, c.rxKey) ::
    c.oldRxMailboxId.toList.map fun oldRxMailboxId => (oldRxMailboxId, Repl.keyToUse c true)

/-- After a restart every contact is there and polled for the same mailboxes with the
same keys. -/
def StillPolled (E : Setup) (r : Repl) : Prop :=
  ∀ a c, r.addressBook.getContact a = some c →
    ∃ c', (r.restart E).addressBook.getContact a = some c' ∧
      ∀ p ∈ polledPairs c, p ∈ polledPairs c'

theorem polledPairs_persistent (c : Contact) :
    polledPairs (AddressBook.persistent c) = [(c.rxMailboxId, c.rxKey)] := rfl

/-- The old mailbox adds nothing to the polled ones exactly if it is the current one. -/
theorem polledPairs_subset_iff {E : Setup} {c : Contact} (h : WellFormed E c) :
    (∀ p ∈ polledPairs c, p ∈ polledPairs (AddressBook.persistent c)) ↔
      ∀ id key, c.oldRxMailboxId = some id → c.oldRxKey = some key →
        id = c.rxMailboxId ∧ key = c.rxKey := by
  rw [polledPairs_persistent]
  unfold polledPairs
  rw [List.forall_mem_cons, and_iff_right List.mem_cons_self]
  cases hid : c.oldRxMailboxId with
  | none =>
      refine iff_of_true (List.forall_mem_nil _) ?_
      intro id key hnone
      cases hnone
  | some id =>
      obtain ⟨key, hkey⟩ := Option.isSome_iff_exists.mp
        (h.old_iff.mp (Option.isSome_iff_exists.mpr ⟨id, hid⟩))
      have huse : Repl.keyToUse c true = key := by
        unfold Repl.keyToUse
        rw [hkey]
      rw [hkey]
      simp [huse]

/-- **When a restart closes no mailbox.** In every state of a client in which the file is
as `SaveToDisk` writes it for the current contacts: a new process polls every mailbox
that is polled now, with the same key, if and only if every alias and note is a string
that the library reads, and no contact has an old mailbox besides its current one. -/
theorem restart_polls_iff {E : Setup} {r : Repl} (h : Actions E {} r)
    (hsaved : r.addressBook.file = r.addressBook.saveToDisk.file) :
    StillPolled E r ↔
      (∀ a c, r.addressBook.getContact a = some c → acceptsString c.aliasName = true ∧
        ∀ note, c.note = some note → acceptsString note = true) ∧
      ∀ a c, r.addressBook.getContact a = some c →
        ∀ id key, c.oldRxMailboxId = some id → c.oldRxKey = some key →
          id = c.rxMailboxId ∧ key = c.rxKey := by
  have hall := (wellFormed_invariant E _).actions h
  have hkeyed : r.addressBook.Keyed := fun a c hc => (hall.contacts a c hc).1
  have hlookup : ∀ a, (r.restart E).addressBook.getContact a =
      if r.addressBook.saveToDisk.file.all acceptsObject then
        (r.addressBook.getContact a).map AddressBook.persistent else none := by
    intro a
    rw [← AddressBook.lookup_initializeFrom_saveToDisk E.sodium E.identity hkeyed, ← hsaved]
    rfl
  rw [← AddressBook.all_acceptsObject_iff]
  constructor
  · intro hpolled
    have hfile : r.addressBook.saveToDisk.file.all acceptsObject = true := by
      by_contra hbad
      -- nothing is read from a rejected file, so there was no contact
      refine hbad (AddressBook.all_acceptsObject_iff.mpr fun a c hc => ?_)
      obtain ⟨c', hc', -⟩ := hpolled a c hc
      rw [hlookup, if_neg hbad] at hc'
      cases hc'
    refine ⟨hfile, ?_⟩
    intro a c hc
    obtain ⟨c', hc', hpairs⟩ := hpolled a c hc
    rw [hlookup, if_pos hfile, hc] at hc'
    obtain rfl := Option.some.inj hc'
    exact (polledPairs_subset_iff (hall.contacts a c hc).2).mp hpairs
  · rintro ⟨hfile, hold⟩ a c hc
    refine ⟨AddressBook.persistent c, ?_, ?_⟩
    · rw [hlookup, if_pos hfile, hc]
      rfl
    · exact (polledPairs_subset_iff (hall.contacts a c hc).2).mpr (hold a c hc)

/-- Bob has answered the request of the initial handshake and saved. -/
theorem restart_polls_iff_bob : StillPolled bob (Repl.run bob {} bobAnswers) := by
  refine (restart_polls_iff (Repl.run_actions {} bobAnswers) (by decide +kernel)).mpr ?_
  rw [← AddressBook.all_acceptsObject_iff]
  have hfacts : (Repl.run bob {} bobAnswers).addressBook.saveToDisk.file.all acceptsObject = true ∧
      ∀ e ∈ (Repl.run bob {} bobAnswers).addressBook.contacts.entries,
        e.2.oldRxMailboxId = none := by decide +kernel
  refine ⟨hfacts.1, ?_⟩
  intro a c hc id key hid
  rw [hfacts.2 _ (AddressBook.mem_entries_of_getContact hc)] at hid
  cases hid

/-- Alice sends two texts; the second one starts a rotation. -/
def aliceRotatesOnce : List Input :=
  aliceCompletes ++ [.send (ascii "bob") (ascii "1"), .send (ascii "bob") (ascii "2")]

/-- Bob reads the first text and answers the request. -/
def bobAnswersRotation : List Input :=
  bobAnswers ++ (((queued alice aliceRotatesOnce).drop 1).take 2).map .receive

/-- **A mailbox is closed that was open.** Bob has just saved, and polls the old mailbox, in
which Alice's second text will arrive. After a restart Bob does not. -/
theorem old_mailbox_closed :
    let r := Repl.run bob {} bobAnswersRotation
    r.addressBook.file = r.addressBook.saveToDisk.file ∧
      (∀ c ∈ r.addressBook.getContact (ascii "alice"), ∀ c' ∈
          (r.restart bob).addressBook.getContact (ascii "alice"),
        (polledPairs c).length = 2 ∧ polledPairs c' = (polledPairs c).take 1 ∧
          ∃ p ∈ polledPairs c, p ∉ polledPairs c') ∧
      ((r.addressBook.getContact (ascii "alice")).isSome = true) ∧
      ((r.restart bob).addressBook.getContact (ascii "alice")).isSome = true := by
  decide +kernel

end BlankChat.Cli
