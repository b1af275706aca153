import BlankChat.Cli.Action

/-!
# The fields of a contact agree

The handlers update the fields of a contact one by one and may return in between. A
`ContactInvariant` is a property of contacts that every new contact has, every change
keeps, and a restart does not destroy; such a property holds of every contact in every
state, and of every contact in the file.

Main result: `contact_wellFormed`, the relation between the state of the rotation, the
pending key, the session and the old mailbox.
-/

namespace BlankChat.Cli

open Lib BlankChat.Core Crypto Protocol Client

/-! ## Invariants of contacts -/

/-- A property of a contact, relative to the number of key pairs drawn so far, that all
actions under the guard keep. -/
structure ContactInvariant (E : Setup) (G : Guard) (Q : ℕ → Contact → Prop) : Prop where
  mono : ∀ m n c, m ≤ n → Q m c → Q n c
  bootstrap : ∀ n a pk d, G.adds pk → derivePairwiseMailboxes E.sodium E.identity pk = some d →
    Q n (AddressBook.bootstrapContact a pk none d)
  change : ∀ o c c', o.lo ≤ o.hi → o.guard = G → ContactChange E o c c' →
    Q o.lo c → Q o.hi c'
  counted : ∀ n c, Q n c → Q n (counted c)
  persistent : ∀ n c, Q n c → Q n (AddressBook.persistent c)

/-- The contacts in memory are stored under their aliases and have the property; those
in the file have it too. -/
structure AllContacts (Q : ℕ → Contact → Prop) (r : Repl) : Prop where
  contacts : ∀ a c, r.addressBook.getContact a = some c → c.aliasName = a ∧ Q r.keyDraws c
  file : ∃ cs, r.addressBook.file = syncContactsToDisk cs ∧ ∀ c ∈ cs, Q r.keyDraws c

theorem ContactChange.aliasName {E : Setup} {o : Occasion} {c c' : Contact}
    (h : ContactChange E o c c') : c'.aliasName = c.aliasName := by
  have hkeep : (keepOld c).aliasName = c.aliasName := by
    unfold keepOld
    split <;> rfl
  cases h with
  | step hstep =>
      cases hstep with
      | initiated => rfl
      | answered => exact hkeep
      | keptOld => exact hkeep
      | completed => rfl
  | droppedOld => rfl

theorem getContact_restart {E : Setup} {r : Repl} {cs : List Contact} {a : Bytes} {c : Contact}
    (hfile : r.addressBook.file = syncContactsToDisk cs)
    (hc : (r.restart E).addressBook.getContact a = some c) :
    ∃ c₀ ∈ cs, c₀.aliasName = a ∧ c = AddressBook.persistent c₀ := by
  obtain ⟨raw, hraw, rfl, hrestored⟩ := AddressBook.getContact_initializeFrom hc
  rw [hfile] at hraw
  obtain ⟨c₀, hc₀, rfl⟩ := parseContacts_subset cs raw hraw
  rw [AddressBook.restoreContact_rawContact] at hrestored
  exact ⟨c₀, hc₀, rfl, (Option.some.inj hrestored).symm⟩

namespace AllContacts

variable {E : Setup} {G : Guard} {Q : ℕ → Contact → Prop} {r r' : Repl}

theorem putContact (h : AllContacts Q r) {a : Bytes} {c : Contact} (halias : c.aliasName = a)
    (hc : Q r.keyDraws c) : AllContacts Q (r.putContact a c) := by
  refine ⟨?_, h.file⟩
  intro a' c' hc'
  rcases AddressBook.getContact_putContact_cases hc' with ⟨rfl, rfl⟩ | ⟨-, hc'⟩
  · exact ⟨halias, hc⟩
  · exact h.contacts a' c' hc'

theorem of_book (hQ : ContactInvariant E G Q) (h : AllContacts Q r)
    (hbook : r'.addressBook = r.addressBook) (hdraws : r.keyDraws ≤ r'.keyDraws) :
    AllContacts Q r' := by
  constructor
  · intro a c hc
    rw [hbook] at hc
    obtain ⟨halias, hc⟩ := h.contacts a c hc
    exact ⟨halias, hQ.mono _ _ c hdraws hc⟩
  · obtain ⟨cs, hfile, hcs⟩ := h.file
    exact ⟨cs, hbook ▸ hfile, fun c hc => hQ.mono _ _ c hdraws (hcs c hc)⟩

theorem save (h : AllContacts Q r) :
    AllContacts Q { r with addressBook := r.addressBook.saveToDisk } := by
  refine ⟨h.contacts, _, rfl, ?_⟩
  intro c hc
  obtain ⟨e, he, rfl⟩ := List.mem_map.mp hc
  exact (h.contacts e.1 e.2 (List.mem_dlookup r.addressBook.contacts.nodupKeys he)).2

theorem restart (hQ : ContactInvariant E G Q) (h : AllContacts Q r) :
    AllContacts Q (r.restart E) := by
  obtain ⟨cs, hfile, hcs⟩ := h.file
  refine ⟨?_, cs, hfile, hcs⟩
  intro a c hc
  obtain ⟨c₀, hc₀, rfl, rfl⟩ := getContact_restart hfile hc
  exact ⟨rfl, hQ.persistent _ c₀ (hcs c₀ hc₀)⟩

theorem action (hQ : ContactInvariant E G Q) (haction : Action E G r r')
    (h : AllContacts Q r) : AllContacts Q r' := by
  cases haction with
  | quiet hquiet => exact h.of_book hQ hquiet.book hquiet.draws
  | change hquiet hc hchange =>
      obtain ⟨halias, hc⟩ := h.contacts _ _ hc
      exact (h.of_book hQ hquiet.book hquiet.draws).putContact (hchange.aliasName.trans halias)
        (hQ.change _ _ _ hquiet.draws rfl hchange hc)
  | save => exact h.save
  | text hbook hdraws hc =>
      obtain ⟨halias, hc⟩ := h.contacts _ _ hc
      have hput := h.putContact (c := counted _) halias (hQ.counted _ _ hc)
      exact hput.of_book hQ hbook hdraws.ge
  | add hadds hd => exact h.putContact rfl (hQ.bootstrap _ _ _ _ hadds hd)
  | tick _ hbook hdraws => exact h.of_book hQ hbook hdraws.ge
  | restart => exact h.restart hQ

end AllContacts

/-- **The rule.** An invariant of contacts holds of all contacts in every state. -/
theorem ContactInvariant.actions {E : Setup} {G : Guard} {Q : ℕ → Contact → Prop}
    (hQ : ContactInvariant E G Q) {r : Repl} (h : GuardedActions E G {} r) :
    AllContacts Q r := by
  refine Repl.actions_induction (fun r r' haction hr => hr.action hQ haction) h ⟨?_, [], rfl, ?_⟩
  · intro a c hc
    cases hc
  · exact List.forall_mem_nil _

/-! ## Well-formed contacts -/

/-- Our side of an exchange: a key pair that was drawn, or the identity. -/
def OwnPair (E : Setup) (sk : ByteVec 32) (pk : PublicKeyType) : Prop :=
  (∃ n k, E.tape.keypair n = some k ∧ k.secretKey = sk ∧ k.publicKey = pk) ∨
    (E.identity.getCurve25519SecretKey E.sodium = some sk ∧
      E.identity.getCurve25519PublicKey E.sodium = some pk)

/-- The four parts of a session are those of one exchange: the hashes of its secret with
the two public keys in either order, each cut into a mailbox id and a key. -/
def OfExchange (E : Setup) (d : DerivedMailboxes) : Prop :=
  ∃ sk ours theirs secret, OwnPair E sk ours ∧
    E.sodium.cryptoScalarmult sk theirs = some secret ∧
    d = deriveMailboxes E.sodium secret ours theirs

/-- The relation between the fields of a contact. -/
structure WellFormed (E : Setup) (c : Contact) : Prop where
  requested_iff : c.pfsState = .rotationRequested ↔ c.pendingEphemeralKey.isSome = true
  not_responding : c.pfsState ≠ .rotationResponding
  old_iff : c.oldRxMailboxId.isSome = true ↔ c.oldRxKey.isSome = true
  session : OfExchange E (session c)
  old : ∀ id key, c.oldRxMailboxId = some id → c.oldRxKey = some key →
    ∃ d, OfExchange E d ∧ id = d.rxId ∧ key = d.rxKey
  early : c.initialPfsComplete = false → c.oldRxMailboxId = none ∧ c.oldRxKey = none ∧
    (c.pendingEphemeralKey.isSome = true → Repl.isInitialPfsInitiator E c = true)
  pending : ∀ k, c.pendingEphemeralKey = some k → ∃ n, E.tape.keypair n = some k

namespace WellFormed

variable {E : Setup} {c c' : Contact}

theorem ofExchange_drawn {n : ℕ} {k : EphemeralKey} {e : PublicKeyType} {secret : ByteVec 32}
    (hk : E.tape.keypair n = some k)
    (hsecret : E.sodium.cryptoScalarmult k.secretKey e = some secret) :
    OfExchange E (deriveMailboxes E.sodium secret k.publicKey e) :=
  ⟨_, _, _, _, .inl ⟨n, k, hk, rfl, rfl⟩, hsecret, rfl⟩

/-- Before the handshake is complete, a client that answers has no request out. -/
theorem no_pending (h : WellFormed E c) (hearly : c.initialPfsComplete = false)
    (hrole : Answers E c) : c.pendingEphemeralKey = none := by
  rcases hrole with hcomplete | hrole
  · rw [hearly] at hcomplete
    cases hcomplete
  · by_contra hsome
    have hinitiator := (h.early hearly).2.2 (Option.isSome_iff_ne_none.mpr hsome)
    rw [hrole] at hinitiator
    cases hinitiator

theorem initiated (h : WellFormed E c) {n : ℕ} {k : EphemeralKey}
    (hk : E.tape.keypair n = some k) (hrole : Initiates E c) : WellFormed E (initiated c k) where
  requested_iff := iff_of_true rfl rfl
  not_responding := by
    intro hstate
    cases hstate
  old_iff := h.old_iff
  session := h.session
  old := h.old
  early := by
    intro hearly
    obtain ⟨hold, holdKey, -⟩ := h.early hearly
    refine ⟨hold, holdKey, fun _ => ?_⟩
    rcases hrole with hcomplete | hrole
    · exact absurd (hcomplete.symm.trans hearly) (by decide)
    · exact hrole
  pending := by
    intro k' hk'
    obtain rfl := Option.some.inj hk'
    exact ⟨n, hk⟩

theorem keepOld (h : WellFormed E c) : WellFormed E (keepOld c) := by
  unfold Cli.keepOld
  split
  · next hcomplete =>
      refine ⟨h.requested_iff, h.not_responding, iff_of_true rfl rfl, h.session, ?_, ?_, h.pending⟩
      · intro id key hid hkey
        obtain rfl := Option.some.inj hid
        obtain rfl := Option.some.inj hkey
        exact ⟨Cli.session c, h.session, rfl, rfl⟩
      · intro hearly
        exact absurd (hcomplete.symm.trans hearly) (by decide)
  · exact h

/-- The branch that sets the state to idle does not clear the pending key; there is none,
because only the initiator has one before the handshake and the initiator does not
answer. -/
theorem answered (h : WellFormed E c) (hrole : Answers E c) {d : DerivedMailboxes}
    (hd : OfExchange E d) : WellFormed E (answered c d) := by
  have hkeep := h.keepOld
  have hpending : (Cli.keepOld c).pendingEphemeralKey = c.pendingEphemeralKey := by
    unfold Cli.keepOld
    split <;> rfl
  refine ⟨?_, ?_, hkeep.old_iff, hd, hkeep.old, ?_, hkeep.pending⟩
  · show (if c.initialPfsComplete then c.pfsState else PfsState.idle) = _ ↔
      (Cli.keepOld c).pendingEphemeralKey.isSome = true
    rw [hpending]
    cases hcomplete : c.initialPfsComplete with
    | true => exact h.requested_iff
    | false =>
        rw [h.no_pending hcomplete hrole]
        exact iff_of_false (fun hstate => by cases hstate) (fun hsome => by cases hsome)
  · show (if c.initialPfsComplete then c.pfsState else PfsState.idle) ≠ _
    split
    · exact h.not_responding
    · exact fun hstate => by cases hstate
  · intro hearly
    cases hearly

theorem completed (h : WellFormed E c) {d : DerivedMailboxes} (hd : OfExchange E d) :
    WellFormed E (completed c d) where
  requested_iff := iff_of_false (fun hstate => by cases hstate) (fun hsome => by cases hsome)
  not_responding := by
    intro hstate
    cases hstate
  old_iff := h.old_iff
  session := hd
  old := h.old
  early := by
    intro hearly
    cases hearly
  pending := by
    intro k hk
    cases hk

theorem droppedOld (h : WellFormed E c) : WellFormed E (droppedOld c) where
  requested_iff := h.requested_iff
  not_responding := h.not_responding
  old_iff := Iff.rfl
  session := h.session
  old := by
    intro id key hid
    cases hid
  early hearly := ⟨rfl, rfl, (h.early hearly).2.2⟩
  pending := h.pending

theorem change {o : Occasion} (hchange : ContactChange E o c c') (h : WellFormed E c) :
    WellFormed E c' := by
  cases hchange with
  | step hstep =>
      cases hstep with
      | initiated hidle hlo hhi hk hrole => exact h.initiated hk hrole
      | answered hrole hsig hlo hhi hk hsecret =>
          exact h.answered hrole (ofExchange_drawn hk hsecret)
      | keptOld => exact h.keepOld
      | completed hstate hpending hsig hsecret =>
          obtain ⟨n, hk⟩ := h.pending _ hpending
          exact h.completed (ofExchange_drawn hk hsecret)
  | droppedOld => exact h.droppedOld

theorem counted (h : WellFormed E c) : WellFormed E (counted c) :=
  ⟨h.requested_iff, h.not_responding, h.old_iff, h.session, h.old, h.early, h.pending⟩

theorem persistent (h : WellFormed E c) : WellFormed E (AddressBook.persistent c) where
  requested_iff := iff_of_false (fun hstate => by cases hstate) (fun hsome => by cases hsome)
  not_responding := by
    intro hstate
    cases hstate
  old_iff := Iff.rfl
  session := h.session
  old := by
    intro id key hid
    cases hid
  early _ := ⟨rfl, rfl, fun hsome => by cases hsome⟩
  pending := by
    intro k hk
    cases hk

theorem bootstrap {a : Bytes} {pk : PublicKeyType} {d : DerivedMailboxes}
    (hd : derivePairwiseMailboxes E.sodium E.identity pk = some d) :
    WellFormed E (AddressBook.bootstrapContact a pk none d) where
  requested_iff := iff_of_false (fun hstate => by cases hstate) (fun hsome => by cases hsome)
  not_responding := by
    intro hstate
    cases hstate
  old_iff := Iff.rfl
  session := by
    obtain ⟨ours, sk, theirs, secret, hours, hsk, htheirs, hsecret, rfl⟩ :=
      derivePairwiseMailboxes_eq_some hd
    exact ⟨sk, ours, theirs, secret, .inr ⟨hsk, hours⟩, hsecret, rfl⟩
  old := by
    intro id key hid
    cases hid
  early _ := ⟨rfl, rfl, fun hsome => by cases hsome⟩
  pending := by
    intro k hk
    cases hk

end WellFormed

theorem wellFormed_invariant (E : Setup) (G : Guard) :
    ContactInvariant E G fun _ => WellFormed E where
  mono _ _ _ _ hc := hc
  bootstrap _ _ _ _ _ hd := .bootstrap hd
  change _ _ _ _ _ hchange hc := hc.change hchange
  counted _ _ hc := hc.counted
  persistent _ _ hc := hc.persistent

/-- **The fields of a contact agree**, whatever was added, sent and received and however
often the client restarted: a request is out exactly if a key is pending, and no contact
is ever in the responding state; the old mailbox has its key; ids and keys of both
directions are the parts of the two hashes of one exchange, and those of the old mailbox
of another; and until the initial handshake is complete there is no old mailbox, and a
pending key only on the side of the initiator. -/
theorem contact_wellFormed (E : Setup) (inputs : List Input) (a : Bytes) (c : Contact)
    (hc : (Repl.run E {} inputs).addressBook.getContact a = some c) : WellFormed E c :=
  (((wellFormed_invariant E _).actions (Repl.run_actions {} inputs)).contacts a c hc).2

/-- Alice with a request out. -/
theorem contact_wellFormed_alice :
    ∃ c, (Repl.run alice {} aliceGreets).addressBook.getContact (ascii "bob") = some c ∧
      c.pfsState = .rotationRequested ∧ c.pendingEphemeralKey.isSome = true := by
  obtain ⟨c, hc⟩ := Option.isSome_iff_exists.mp (show
    ((Repl.run alice {} aliceGreets).addressBook.getContact (ascii "bob")).isSome = true by
      decide +kernel)
  have hstate : ∀ c' ∈ (Repl.run alice {} aliceGreets).addressBook.getContact (ascii "bob"),
      c'.pfsState = .rotationRequested := by decide +kernel
  have h := contact_wellFormed alice aliceGreets (ascii "bob") c hc
  exact ⟨c, hc, hstate c hc, h.requested_iff.mp (hstate c hc)⟩

end BlankChat.Cli
