import BlankChat.Cli.DrawOwner

/-!
# Frames find their contact

`GetAliasByRxMailboxId` returns the first contact that listens to a mailbox, in the order
of a hash map. Nothing compares the mailboxes of a new contact with those in use. They
are told apart by what was hashed for them: a key pair drawn for the contact, or, before
the initial handshake, its identity. So two contacts collide exactly if they have the
same identity and neither has completed the handshake.

Main result: `routing_iff`; `mailboxes_collide` has a run in which two contacts collide,
and one in which the old mailbox of a contact is its current one.
-/

namespace BlankChat.Cli

open Lib BlankChat.Core Crypto Protocol Client Lib.Ownership

/-! ## The property -/

/-- The mailboxes that contacts listen to. -/
def listenIds (b : AddressBook) : List MailboxID :=
  b.contacts.entries.flatMap fun e => e.2.rxMailboxId :: e.2.oldRxMailboxId.toList

/-- Whatever the order of the map, a frame for a mailbox of a contact is routed to it. -/
def Routes (b : AddressBook) : Prop :=
  ∀ b' : AddressBook, b'.contacts.entries.Perm b.contacts.entries →
    ∀ a c, b.getContact a = some c →
      b'.getAliasByRxMailboxId c.rxMailboxId = c.aliasName ∧
        ∀ id, c.oldRxMailboxId = some id → b'.getAliasByRxMailboxId id = c.aliasName

/-- Contacts under different aliases that have not completed the initial handshake have
different identities. -/
def EarlyApart (E : Setup) (b : AddressBook) : Prop :=
  ∀ a a' c c', b.getContact a = some c → b.getContact a' = some c' →
    c.initialPfsComplete = false → c'.initialPfsComplete = false →
    E.sodium.ed25519PkToCurve25519 c.publicKey = E.sodium.ed25519PkToCurve25519 c'.publicKey →
      a = a'

/-- A request of a contact that has completed the handshake is answered with an exchange
that succeeds. -/
def ExchangeSucceeds (E : Setup) (r : Repl) (i : Input) : Prop :=
  ∀ c k e, Repl.answering E r i = some (c, k, e) → c.initialPfsComplete = true →
    E.sodium.cryptoScalarmult k.secretKey e ≠ none

/-- The public keys that are added in a run. -/
def Added (inputs : List Input) (pk : PublicKeyType) : Prop :=
  ∃ a, .add a (some pk) ∈ inputs

/-- What is assumed of the hash and of the first `N` key pairs: receive mailboxes differ
when the hash inputs contain different keys of ours, those of bootstrap sessions also
when the identities of the contacts differ; drawn public keys are different from each
other and from our identity. -/
structure IdealMailboxes (E : Setup) (N : ℕ) (Known : PublicKeyType → Prop) : Prop where
  exchanges : Distinct E N DerivedMailboxes.rxId
  bootstrap : ∀ pk d n k d', Known pk →
    derivePairwiseMailboxes E.sodium E.identity pk = some d → n < N → Exchange E n k d' →
    d.rxId = d'.rxId → E.identity.getCurve25519PublicKey E.sodium = some k.publicKey
  own : ∀ n k, n < N → E.tape.keypair n = some k →
    E.identity.getCurve25519PublicKey E.sodium ≠ some k.publicKey
  peers : ∀ pk pk' d d', Known pk → Known pk' →
    derivePairwiseMailboxes E.sodium E.identity pk = some d →
    derivePairwiseMailboxes E.sodium E.identity pk' = some d' → d.rxId = d'.rxId →
      E.sodium.ed25519PkToCurve25519 pk = E.sodium.ed25519PkToCurve25519 pk'

/-! ## Draws and receive mailboxes -/

section Draws

variable {E : Setup} {G : Guard} {N : ℕ} {o : Occasion} {c c' : Contact} {n : ℕ}

/-- The old mailbox is that of an exchange with draw `n`. -/
def OldDraw (E : Setup) (N : ℕ) (c : Contact) (n : ℕ) : Prop :=
  n < N ∧ ∃ id k d, c.oldRxMailboxId = some id ∧ Exchange E n k d ∧ id = d.rxId

/-- The draws behind the mailboxes of a contact, and the one that is pending. -/
def RxUse (E : Setup) (N : ℕ) (c : Contact) (n : ℕ) : Prop :=
  Current E N DerivedMailboxes.rxId c n ∨ OldDraw E N c n ∨ PendingDraw E N c n

theorem OldDraw.keepOld (h : OldDraw E N (keepOld c) n) :
    OldDraw E N c n ∨ Current E N DerivedMailboxes.rxId c n := by
  unfold Cli.keepOld at h
  split at h
  · next hcomplete =>
      obtain ⟨hn, id, k, d, hid, hd, heq⟩ := h
      obtain rfl := Option.some.inj hid
      exact .inr ⟨hcomplete, hn, k, d, hd, heq⟩
  · exact .inl h

theorem OldDraw.change (hchange : ContactChange E o c c') (h : OldDraw E N c' n) :
    OldDraw E N c n ∨ Current E N DerivedMailboxes.rxId c n := by
  cases hchange with
  | step hstep =>
      cases hstep with
      | initiated => exact .inl h
      | answered =>
          have hkept : OldDraw E N (Cli.keepOld c) n := h
          exact hkept.keepOld
      | keptOld => exact h.keepOld
      | completed => exact .inl h
  | droppedOld =>
      obtain ⟨-, id, -, -, hid, -⟩ := h
      cases hid

theorem OldDraw.lt (hf : Distinct E N DerivedMailboxes.rxId) {m : ℕ} (hc : FromDraws E m c)
    (hN : m ≤ N) (h : OldDraw E N c n) : n < m := by
  obtain ⟨hn, id, k, d, hid, hd, heq⟩ := h
  obtain ⟨-, i, hi, k', d', hd', heq'⟩ := hc.old id hid
  rw [hf.draw_eq hn (hi.trans_le hN) hd hd' (heq.symm.trans heq')]
  exact hi

theorem rxUse (hf : Distinct E N DerivedMailboxes.rxId) : DrawUse E N (RxUse E N) where
  bootstrap a pk d n h := by
    rcases h with ⟨hcomplete, -⟩ | ⟨-, id, -, -, hid, -⟩ | ⟨-, k, hk, -⟩
    · cases hcomplete
    · cases hid
    · cases hk
  change o c c' n hle hN hc hchange h := by
    rcases h with h | h | h
    · rcases h.change hf hle hN hc hchange with h | h | h
      · exact .inl (.inl h)
      · exact .inl (.inr (.inr h))
      · exact .inr h
    · rcases h.change hchange with h | h
      · exact .inl (.inr (.inl h))
      · exact .inl (.inl h)
    · rcases h.change hf hN hchange with h | h
      · exact .inl (.inr (.inr h))
      · exact .inr h
  counted _ _ h := h
  persistent c n h := by
    rcases h with h | ⟨-, id, -, -, hid, -⟩ | ⟨-, k, hk, -⟩
    · exact .inl h
    · cases hid
    · cases hk

/-- A mailbox that a contact listens to is its bootstrap mailbox, or one of a draw that
the contact uses. -/
theorem listensTo_cases (hc : FromDraws E n c) (hN : n ≤ N) {id : MailboxID}
    (h : AddressBook.listensTo id c = true) :
    (c.initialPfsComplete = false ∧ id = (session c).rxId) ∨
      ∃ m k d, m < N ∧ Exchange E m k d ∧ id = d.rxId ∧ RxUse E N c m := by
  simp only [AddressBook.listensTo, Bool.or_eq_true, decide_eq_true_eq] at h
  rcases h with rfl | hold
  · cases hcomplete : c.initialPfsComplete with
    | false => exact .inl ⟨rfl, rfl⟩
    | true =>
        obtain ⟨m, hm, k, hd⟩ := hc.complete hcomplete
        exact .inr ⟨m, k, _, hm.trans_le hN, hd, rfl,
          .inl ⟨hcomplete, hm.trans_le hN, k, _, hd, rfl⟩⟩
  · obtain ⟨-, m, hm, k, d, hd, rfl⟩ := hc.old id hold
    exact .inr ⟨m, k, d, hm.trans_le hN, hd, rfl,
      .inr (.inl ⟨hm.trans_le hN, _, k, d, hold, hd, rfl⟩)⟩

end Draws

/-! ## Two contacts -/

section Pairs

variable {E : Setup} {G : Guard} {N : ℕ} {r : Repl}

theorem ContactChange.publicKey {o : Occasion} {c c' : Contact} (h : ContactChange E o c c') :
    c'.publicKey = c.publicKey := by
  have hkeep : (keepOld c).publicKey = c.publicKey := by
    unfold keepOld
    split <;> rfl
  cases h with
  | step hstep =>
      cases hstep with
      | initiated => rfl
      | answered => exact hkeep
      | keptOld => exact hkeep
      | completed => rfl
  | droppedOld => rfl

theorem added_invariant (E : Setup) (G : Guard) :
    ContactInvariant E G fun _ c => G.adds c.publicKey where
  mono _ _ _ _ hc := hc
  bootstrap _ _ _ _ hadds _ := hadds
  change _ _ _ _ _ hchange hc := hchange.publicKey ▸ hc
  counted _ _ hc := hc
  persistent _ _ hc := hc

/-- **When two contacts share a mailbox**: both have their bootstrap session, and the same
identity. -/
theorem shared_mailbox (hideal : IdealMailboxes E r.keyDraws G.adds)
    (h : GuardedActions E G {} r) {a a' : Bytes} {c c' : Contact}
    (hc : r.addressBook.getContact a = some c) (hc' : r.addressBook.getContact a' = some c')
    {id : MailboxID} (hid : AddressBook.listensTo id c = true)
    (hid' : AddressBook.listensTo id c' = true) (hne : a ≠ a') :
    c.initialPfsComplete = false ∧ c'.initialPfsComplete = false ∧
      E.sodium.ed25519PkToCurve25519 c.publicKey = E.sodium.ed25519PkToCurve25519 c'.publicKey := by
  have hall := (fromDraws_invariant E G).actions h
  have hadded := (added_invariant E G).actions h
  have howned := (rxUse hideal.exchanges).actions h le_rfl
  -- a bootstrap mailbox is not that of an exchange
  have hsplit : ∀ {a c m k d}, r.addressBook.getContact a = some c →
      c.initialPfsComplete = false → id = (session c).rxId → m < r.keyDraws →
      Exchange E m k d → id ≠ d.rxId := by
    intro a c m k d hc hearly hboot hm hd heq
    have hderived := (hall.contacts a c hc).2.early hearly
    exact hideal.own m k hm hd.1 (hideal.bootstrap _ _ m k d (hadded.contacts a c hc).2 hderived hm
      hd (hboot.symm.trans heq))
  rcases listensTo_cases (hall.contacts a c hc).2 le_rfl hid with
    ⟨hearly, hboot⟩ | ⟨m, k, d, hm, hd, heq, huse⟩
  · rcases listensTo_cases (hall.contacts a' c' hc').2 le_rfl hid' with
      ⟨hearly', hboot'⟩ | ⟨m, k, d, hm, hd, heq, -⟩
    · refine ⟨hearly, hearly', ?_⟩
      exact hideal.peers _ _ _ _ (hadded.contacts a c hc).2 (hadded.contacts a' c' hc').2
        ((hall.contacts a c hc).2.early hearly) ((hall.contacts a' c' hc').2.early hearly')
        (hboot.symm.trans hboot')
    · exact absurd heq (hsplit hc hearly hboot hm hd)
  · rcases listensTo_cases (hall.contacts a' c' hc').2 le_rfl hid' with
      ⟨hearly', hboot'⟩ | ⟨m', k', d', hm', hd', heq', huse'⟩
    · exact absurd heq (hsplit hc' hearly' hboot' hm hd)
    · obtain rfl := hideal.exchanges.draw_eq hm hm' hd hd' (heq.symm.trans heq')
      exact absurd (howned.memory.exclusive a a' c c' m hc hc' huse huse') hne

theorem shared_of_early (h : GuardedActions E G {} r) {a a' : Bytes} {c c' : Contact}
    (hc : r.addressBook.getContact a = some c) (hc' : r.addressBook.getContact a' = some c')
    (hearly : c.initialPfsComplete = false) (hearly' : c'.initialPfsComplete = false)
    (hpk : E.sodium.ed25519PkToCurve25519 c.publicKey =
      E.sodium.ed25519PkToCurve25519 c'.publicKey) : c.rxMailboxId = c'.rxMailboxId := by
  have hall := (fromDraws_invariant E G).actions h
  have hd := (hall.contacts a c hc).2.early hearly
  have hd' := (hall.contacts a' c' hc').2.early hearly'
  unfold derivePairwiseMailboxes at hd hd'
  rw [hpk] at hd
  exact congrArg DerivedMailboxes.rxId (Option.some.inj (hd.symm.trans hd'))

/-- No mailbox has two contacts that listen to it. -/
def Unshared (b : AddressBook) : Prop :=
  ∀ a a' c c' id, b.getContact a = some c → b.getContact a' = some c' →
    AddressBook.listensTo id c = true → AddressBook.listensTo id c' = true → a = a'

theorem unshared_iff (hideal : IdealMailboxes E r.keyDraws G.adds)
    (h : GuardedActions E G {} r) :
    Unshared r.addressBook ↔ EarlyApart E r.addressBook := by
  constructor
  · intro hunshared a a' c c' hc hc' hearly hearly' hpk
    have hsame := shared_of_early h hc hc' hearly hearly' hpk
    refine hunshared a a' c c' c.rxMailboxId hc hc' ?_ ?_
    · simp [AddressBook.listensTo]
    · simp [AddressBook.listensTo, hsame]
  · intro hapart a a' c c' id hc hc' hid hid'
    by_contra hne
    obtain ⟨hearly, hearly', hpk⟩ := shared_mailbox hideal h hc hc' hid hid' hne
    exact hne (hapart a a' c c' hc hc' hearly hearly' hpk)

end Pairs

/-! ## The lookup -/

/-- The first match is right in every order exactly if it is the only one. -/
theorem routes_iff {b : AddressBook}
    (hkeyed : ∀ a c, b.getContact a = some c → c.aliasName = a) : Routes b ↔ Unshared b := by
  constructor
  · intro hroutes a a' c c' id hc hc' hid hid'
    have hfound : ∀ {a c}, b.getContact a = some c → AddressBook.listensTo id c = true →
        b.getAliasByRxMailboxId id = a := by
      intro a c hc hid
      obtain ⟨hrx, hold⟩ := hroutes b (.refl _) a c hc
      rw [← hkeyed a c hc]
      simp only [AddressBook.listensTo, Bool.or_eq_true, decide_eq_true_eq] at hid
      rcases hid with rfl | hid
      · exact hrx
      · exact hold id hid
    exact (hfound hc hid).symm.trans (hfound hc' hid')
  · intro hunshared b' hperm a c hc
    have hfound : ∀ id, AddressBook.listensTo id c = true →
        b'.getAliasByRxMailboxId id = c.aliasName := by
      intro id hid
      have hlookup : ∀ a, b'.contacts.lookup a = b.getContact a :=
        fun a => AList.perm_lookup hperm
      unfold AddressBook.getAliasByRxMailboxId
      rw [Map.findKey_of_unique ((hlookup a).trans hc) hid, hkeyed a c hc]
      · rfl
      · intro a' c' hc' hid'
        rw [hlookup] at hc'
        exact hunshared a' a c' c id hc' hc hid' hid
    constructor
    · exact hfound _ (by simp [AddressBook.listensTo])
    · intro id hid
      exact hfound id (by simp [AddressBook.listensTo, hid])

/-- All mailboxes are different: no two contacts share one, and no contact has its current
mailbox as the old one. -/
theorem nodup_listenIds_iff (b : AddressBook) :
    (listenIds b).Nodup ↔ Unshared b ∧ ∀ a c, b.getContact a = some c →
      ∀ id, c.oldRxMailboxId = some id → id ≠ c.rxMailboxId := by
  have hmem : ∀ (id : MailboxID) (c : Contact),
      id ∈ c.rxMailboxId :: c.oldRxMailboxId.toList ↔ AddressBook.listensTo id c = true := by
    intro id c
    simp only [AddressBook.listensTo, Bool.or_eq_true, decide_eq_true_eq, List.mem_cons,
      Option.mem_toList]
    exact or_congr_left eq_comm
  have hentry : ∀ {e : Sigma fun _ : Bytes => Contact}, e ∈ b.contacts.entries →
      b.getContact e.1 = some e.2 :=
    fun he => List.mem_dlookup b.contacts.nodupKeys he
  unfold listenIds
  rw [List.nodup_flatMap]
  constructor
  · rintro ⟨hown, hpairs⟩
    constructor
    · intro a a' c c' id hc hc' hid hid'
      by_contra hne
      have : Std.Symm (Function.onFun List.Disjoint fun e : Sigma fun _ : Bytes => Contact =>
          e.2.rxMailboxId :: e.2.oldRxMailboxId.toList) := ⟨fun _ _ h _ hid hid' => h hid' hid⟩
      have hdisjoint := hpairs.forall (AddressBook.mem_entries_of_getContact hc)
        (AddressBook.mem_entries_of_getContact hc') fun heq => hne (congrArg Sigma.fst heq)
      exact hdisjoint ((hmem id c).mpr hid) ((hmem id c').mpr hid')
    · rintro a c hc id hid rfl
      have hnodup := hown _ (AddressBook.mem_entries_of_getContact hc)
      dsimp only at hnodup
      rw [hid] at hnodup
      simp at hnodup
  · rintro ⟨hunshared, hold⟩
    constructor
    · intro e he
      rw [List.nodup_cons]
      refine ⟨?_, Option.toList_nodup _⟩
      intro hin
      exact hold e.1 e.2 (hentry he) _ (Option.mem_toList.mp hin) rfl
    · refine List.Nodup.pairwise_of_forall_ne b.contacts.nodupKeys.nodup ?_
      intro e he e' he' hne id hid hid'
      apply hne
      have ha := hunshared e.1 e'.1 e.2 e'.2 id (hentry he) (hentry he') ((hmem id _).mp hid)
        ((hmem id _).mp hid')
      exact b.contacts.nodupKeys.eq_of_fst_eq he he' ha

/-! ## One contact -/

/-- The old mailbox is not the current one, and the pending draw is behind neither. -/
structure Separate (E : Setup) (N n : ℕ) (c : Contact) : Prop where
  unmixed : Unmixed E N DerivedMailboxes.rxId n c
  old : n ≤ N → ∀ id, c.oldRxMailboxId = some id → id ≠ c.rxMailboxId
  pending : n ≤ N → ∀ p, PendingDraw E N c p → ¬ OldDraw E N c p

namespace Separate

variable {E : Setup} {N n : ℕ} {o : Occasion} {c c' : Contact}

theorem answered (hf : Distinct E N DerivedMailboxes.rxId) (h : Separate E N o.lo c)
    (hle : o.lo ≤ o.hi) {m : ℕ} {k : EphemeralKey} {d : DerivedMailboxes} (hlo : o.lo ≤ m)
    (hhi : m < o.hi) (hd : Exchange E m k d)
    (hunmixed : Unmixed E N DerivedMailboxes.rxId o.hi (answered c d)) :
    Separate E N o.hi (answered c d) := by
  have hkept : ∀ {p}, OldDraw E N (Cli.answered c d) p →
      OldDraw E N c p ∨ Current E N DerivedMailboxes.rxId c p := by
    intro p hp
    have hkeep : OldDraw E N (keepOld c) p := hp
    exact hkeep.keepOld
  refine ⟨hunmixed, ?_, ?_⟩
  · intro hN id hid heq
    have hold : OldDraw E N (Cli.answered c d) m :=
      ⟨hhi.trans_le hN, id, k, d, hid, hd, heq⟩
    rcases hkept hold with hold | hcur
    · exact Nat.not_lt.mpr hlo (hold.lt hf h.unmixed.draws (hle.trans hN))
    · exact Nat.not_lt.mpr hlo (hcur.lt hf h.unmixed.draws (hle.trans hN))
  · intro hN p hp hold
    have hpending : PendingDraw E N c p := by
      obtain ⟨hpN, k', hk', hdraw⟩ := hp
      refine ⟨hpN, k', ?_, hdraw⟩
      have hkeep : (keepOld c).pendingEphemeralKey = some k' := hk'
      unfold keepOld at hkeep
      split at hkeep
      · exact hkeep
      · exact hkeep
    rcases hkept hold with hold | hcur
    · exact h.pending (hle.trans hN) p hpending hold
    · exact h.unmixed.pending (hle.trans hN) p hpending hcur

theorem change (hf : Distinct E N DerivedMailboxes.rxId)
    (hG : ∀ c k e, o.guard.answers c k e → c.initialPfsComplete = true →
      E.sodium.cryptoScalarmult k.secretKey e ≠ none)
    (hle : o.lo ≤ o.hi) (hchange : ContactChange E o c c') (h : Separate E N o.lo c) :
    Separate E N o.hi c' := by
  have hunmixed := h.unmixed.change hf hle hchange
  cases hchange with
  | step hstep =>
      cases hstep with
      | initiated hidle hlo hhi hk =>
          refine ⟨hunmixed, fun hN => h.old (hle.trans hN), ?_⟩
          intro hN p hp hold
          obtain rfl := hf.pending_eq (hhi.trans_le hN) rfl hk hp
          have hold : OldDraw E N c p := hold
          exact Nat.not_lt.mpr hlo (hold.lt hf h.unmixed.draws (hle.trans hN))
      | answered hrole hsig hlo hhi hk hsecret =>
          exact h.answered hf hle hlo hhi ⟨hk, _, _, hsecret, rfl⟩ hunmixed
      | keptOld hsecret hanswers =>
          -- the exchange failed, so the handshake is not complete and nothing was kept
          have hearly : ¬ c.initialPfsComplete = true :=
            fun hcomplete => hG _ _ _ hanswers hcomplete hsecret
          rw [keepOld, if_neg hearly] at hunmixed ⊢
          exact ⟨hunmixed, fun hN => h.old (hle.trans hN), fun hN => h.pending (hle.trans hN)⟩
      | @completed k e _ secret hstate hpending hsig hsecret =>
          refine ⟨hunmixed, ?_, ?_⟩
          · intro hN id hid heq
            obtain ⟨p, hp, hdraw⟩ := h.unmixed.draws.pending _ hpending
            have hpN : p < N := (hp.trans_le hle).trans_le hN
            exact h.pending (hle.trans hN) p ⟨hpN, _, hpending, hdraw⟩
              ⟨hpN, id, _, _, hid, ⟨hdraw, _, _, hsecret, rfl⟩, heq⟩
          · rintro hN p ⟨-, k', hk', -⟩
            cases hk'
  | droppedOld =>
      refine ⟨hunmixed, (fun _ id hid => by cases hid), ?_⟩
      rintro hN p hp ⟨-, id, -, -, hid, -⟩
      cases hid

end Separate

theorem separate_invariant {E : Setup} {G : Guard} {N : ℕ}
    (hf : Distinct E N DerivedMailboxes.rxId)
    (hG : ∀ c k e, G.answers c k e → c.initialPfsComplete = true →
      E.sodium.cryptoScalarmult k.secretKey e ≠ none) :
    ContactInvariant E G (Separate E N) where
  mono m n c hle hc :=
    ⟨(unmixed_invariant hf G).mono m n c hle hc.unmixed, fun hN => hc.old (hle.trans hN),
      fun hN => hc.pending (hle.trans hN)⟩
  bootstrap n a pk d hadds hd :=
    ⟨(unmixed_invariant hf G).bootstrap n a pk d hadds hd, (fun _ id hid => by cases hid),
      (fun _ p hp => by obtain ⟨-, k, hk, -⟩ := hp; cases hk)⟩
  change o _ _ hle hguard hchange hc := hc.change hf (hguard ▸ hG) hle hchange
  counted n c hc := ⟨(unmixed_invariant hf G).counted n c hc.unmixed, hc.old, hc.pending⟩
  persistent n c hc :=
    ⟨(unmixed_invariant hf G).persistent n c hc.unmixed, (fun _ id hid => by cases hid),
      (fun _ p hp => by obtain ⟨-, k, hk, -⟩ := hp; cases hk)⟩

/-! ## The main result -/

/-- **When inbound frames are routed to the right contact.** In every state of a client,
whatever was added, received and rotated and however often it restarted: the lookup finds
the contact of every mailbox, in every order of the map, if and only if no two contacts
that have not completed the initial handshake have the same identity. If moreover every
exchange succeeded with which a request was answered, this is also the condition for all
current and old mailboxes to be different. -/
theorem routing_iff (E : Setup) (inputs : List Input)
    (hideal : IdealMailboxes E (Repl.run E {} inputs).keyDraws (Added inputs)) :
    (Routes (Repl.run E {} inputs).addressBook ↔
      EarlyApart E (Repl.run E {} inputs).addressBook) ∧
    (Run.Along (Repl.step E) (ExchangeSucceeds E) {} inputs →
      ((listenIds (Repl.run E {} inputs).addressBook).Nodup ↔
        EarlyApart E (Repl.run E {} inputs).addressBook)) := by
  have hmem : Run.Along (Repl.step E) (fun _ i => i ∈ inputs) {} inputs :=
    Run.along_of_forall_mem fun _ _ hi => hi
  have hadds : ∀ r i, i ∈ inputs → ∀ pk, (Repl.guardOf E r i).adds pk → Added inputs pk := by
    rintro r i hi pk ⟨a, rfl⟩
    exact ⟨a, hi⟩
  constructor
  · have hactions : GuardedActions E { adds := Added inputs } {} (Repl.run E {} inputs) :=
      Repl.along_actions (fun r i hi => { adds := hadds r i hi }) hmem
    have hall := (fromDraws_invariant E _).actions hactions
    exact (routes_iff fun a c hc => (hall.contacts a c hc).1).trans (unshared_iff hideal hactions)
  · intro hsucceeds
    let G : Guard :=
      { answers := fun c k e => c.initialPfsComplete = true →
          E.sodium.cryptoScalarmult k.secretKey e ≠ none
        adds := Added inputs }
    have hactions : GuardedActions E G {} (Repl.run E {} inputs) :=
      Repl.along_actions (fun r i hi =>
        { answers := hi.1, adds := hadds r i hi.2 }) (hsucceeds.and hmem)
    have hall := (separate_invariant hideal.exchanges (G := G) fun _ _ _ h => h).actions hactions
    rw [nodup_listenIds_iff, ← unshared_iff hideal hactions]
    exact and_iff_left fun a c hc => (hall.contacts a c hc).2.old le_rfl

theorem alice_ideal (N : ℕ) :
    IdealMailboxes alice N fun pk => pk = toyKey 2 ∨ pk = toyKey 3 := by
  have hours : ∀ {secret secret' ours ours' theirs theirs'},
      (deriveMailboxes transparent secret ours theirs).rxId =
        (deriveMailboxes transparent secret' ours' theirs').rxId →
      ours.toList.getD 0 0 = ours'.toList.getD 0 0 := by
    intro secret secret' ours ours' theirs theirs' heq
    rw [← (transparent_mailbox secret theirs ours).2, ← (transparent_mailbox secret' theirs' ours').2]
    exact congrArg (fun v => v.toList.getD 2 0) heq
  have hown : ∀ {n k}, alice.tape.keypair n = some k →
      (toyKey 1).toList.getD 0 0 ≠ k.publicKey.toList.getD 0 0 := by
    intro n k hk hbyte
    obtain ⟨hn, rfl⟩ := toySetup_keypair hk
    have hnat := congrArg UInt8.toNat (show (1 : UInt8) = 16 + UInt8.ofNat n from hbyte)
    rw [UInt8.toNat_add, UInt8.toNat_ofNat'] at hnat
    simp at hnat
    omega
  refine ⟨toySetup_distinct (fun _ _ _ _ _ _ => hours) _ _ _ _, ?_, ?_, ?_⟩
  · rintro pk d n k d' - hd - ⟨hk, e, secret, -, rfl⟩ heq
    obtain ⟨ours, sk, theirs, secret', hmine, -, -, -, rfl⟩ := derivePairwiseMailboxes_eq_some hd
    obtain rfl : toyKey 1 = ours := Option.some.inj hmine
    exact absurd (hours heq) (hown hk)
  · intro n k _ hk heq
    exact hown hk (congrArg (fun v => v.toList.getD 0 0) (Option.some.inj heq))
  · intro pk pk' d d' hpk hpk' hd hd' heq
    obtain ⟨ours, sk, theirs, secret, -, -, htheirs, -, rfl⟩ := derivePairwiseMailboxes_eq_some hd
    obtain ⟨ours', sk', theirs', secret', -, -, htheirs', -, rfl⟩ :=
      derivePairwiseMailboxes_eq_some hd'
    obtain rfl : pk = theirs := Option.some.inj htheirs
    obtain rfl : pk' = theirs' := Option.some.inj htheirs'
    have hbyte : pk.toList.getD 0 0 = pk'.toList.getD 0 0 := by
      rw [← (transparent_mailbox secret pk ours).1, ← (transparent_mailbox secret' pk' ours').1]
      exact congrArg (fun v => v.toList.getD 1 0) heq
    rcases hpk with rfl | rfl <;> rcases hpk' with rfl | rfl
    · rfl
    · exact absurd hbyte (by decide)
    · exact absurd hbyte (by decide)
    · rfl

/-- Alice has completed the handshake with Bob and adds Carol. -/
def aliceAddsCarol : List Input := aliceCompletes ++ [.add (ascii "carol") (some (toyKey 3))]

theorem routing_iff_carol :
    let b := (Repl.run alice {} aliceAddsCarol).addressBook
    Routes b ∧ (listenIds b).Nodup ∧ (listenIds b).length = 2 := by
  have hadded : ∀ pk, Added aliceAddsCarol pk → pk = toyKey 2 ∨ pk = toyKey 3 := by
    rintro pk ⟨a, ha⟩
    simp only [aliceAddsCarol, aliceCompletes, aliceGreets, List.cons_append, List.nil_append,
      List.mem_cons, List.mem_append, List.mem_map, reduceCtorEq, and_false,
      exists_false, false_or, List.not_mem_nil, or_false, Input.add.injEq, Option.some.injEq] at ha
    rcases ha with ⟨-, rfl⟩ | ⟨-, rfl⟩
    · exact .inl rfl
    · exact .inr rfl
  have hideal := alice_ideal (Repl.run alice {} aliceAddsCarol).keyDraws
  obtain ⟨hroutes, hnodup⟩ := routing_iff alice aliceAddsCarol
    ⟨hideal.exchanges, fun pk d n k d' hpk => hideal.bootstrap pk d n k d' (hadded pk hpk),
      hideal.own, fun pk pk' d d' hpk hpk' =>
        hideal.peers pk pk' d d' (hadded pk hpk) (hadded pk' hpk')⟩
  have hearly : ∀ e ∈ (Repl.run alice {} aliceAddsCarol).addressBook.contacts.entries,
      e.2.initialPfsComplete = false → e.1 = ascii "carol" := by decide +kernel
  have hapart : EarlyApart alice (Repl.run alice {} aliceAddsCarol).addressBook := by
    intro a a' c c' hc hc' hc₀ hc₀' _
    exact (hearly _ (AddressBook.mem_entries_of_getContact hc) hc₀).trans
      (hearly _ (AddressBook.mem_entries_of_getContact hc') hc₀').symm
  refine ⟨hroutes.mpr hapart, (hnodup ?_).mpr hapart, by decide +kernel⟩
  refine Run.along_of_forall_mem fun r i _ c k e _ _ hnone => ?_
  cases hnone

/-- The transparent library with one point that an exchange rejects. -/
def rejecting : Sodium :=
  { transparent with
    cryptoScalarmult := fun k p =>
      if p = toyKey 0 then none else transparent.cryptoScalarmult k p }

/-- Bob asks for a rotation with the rejected point, in the session with the contact. -/
def rejectedRequest (c : Contact) : Frame :=
  let request := buildPfsRotateRequest (toyKey 0)
    (rejecting.cryptoSignDetached (toyKey 0).toList bob.identity.secretKey)
  Frame.createPush c.txMailboxId
    ((encryptWithPadding rejecting c.txKey (bob.tape.nonce 0) request).getD [])

def bobRejecting : Setup := { bob with sodium := rejecting }

/-- Bob answers Alice's request. -/
def bobRejectingAnswers : List Input :=
  bobWaits ++ (queued { alice with sodium := rejecting } aliceGreets).map .receive

/-- Alice completes the handshake and gets the request with the rejected point. -/
def aliceRejects : List Input :=
  aliceGreets ++ (queued bobRejecting bobRejectingAnswers).map .receive ++
    ((Repl.run bobRejecting {} bobRejectingAnswers).addressBook.getContact
      (ascii "alice")).toList.map fun c => .receive (rejectedRequest c)

/-- Alice's address book with Bob's key added under two aliases. -/
def bobTwice : AddressBook :=
  (Repl.run alice {} [.add (ascii "bob") (some bob.identity.publicKey),
    .add (ascii "robert") (some bob.identity.publicKey)]).addressBook

/-- **Mailboxes that are not different.** If Alice adds Bob's key under two aliases, both
contacts have the same mailbox, and one of them never gets a frame. After a handshake
with a Bob who signs a key that the exchange rejects, Alice's current mailbox for Bob is the
old one, too. -/
theorem mailboxes_collide :
    (¬ (listenIds bobTwice).Nodup ∧ bobTwice.contacts.entries.length = 2 ∧
      ∃ e ∈ bobTwice.contacts.entries, bobTwice.getAliasByRxMailboxId e.2.rxMailboxId ≠ e.1) ∧
    ∃ e ∈ (Repl.run { alice with sodium := rejecting } {} aliceRejects).addressBook.contacts.entries,
      e.2.oldRxMailboxId = some e.2.rxMailboxId := by
  constructor
  · decide +kernel
  · decide +kernel

end BlankChat.Cli
