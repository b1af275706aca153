import BlankChat.Cli.Action

/-!
# Where a session comes from

A frame can change the session of a contact only by a rotation that the contact has
signed: its request, answered with a key drawn for it, or its acknowledgement of the
one key that is pending. The second kind uses the pending key up: `Retired` keys are
pending in no later state.

Main result: `session_moved_by_peer`.
-/

namespace BlankChat.Cli

open Lib BlankChat.Core Crypto Protocol Client

namespace Repl

variable {E : Setup}

/-! ## One frame -/

/-- What an accepted frame makes of the contact it is routed to. -/
def Accepted (E : Setup) (lo hi : ℕ) (c c' : Contact) : Prop :=
  ∃ c₁, (c₁ = c ∨ c₁ = droppedOld c) ∧
    (c' = c₁ ∨ ∃ o : Occasion, o.lo = lo ∧ o.hi = hi ∧ ContactStep E o c₁ c')

theorem Handled.getContact {G : Guard} {r : Repl} {a : Bytes} {c : Contact}
    {p : Repl × Contact} (h : Handled E G a r c p) {a' : Bytes} (ha : a' ≠ a) :
    (p.1.putContact a p.2).addressBook.getContact a' = r.addressBook.getContact a' := by
  obtain ⟨r₁, items, hquiet, hwork, -⟩ := h
  show (p.1.addressBook.putContact a p.2).getContact a' = _
  rw [AddressBook.getContact_putContact_ne _ ha]
  rcases hwork with hwork | hwork
  · rw [hwork, hquiet.book]
  · rw [hwork]
    show (AddressBook.saveToDisk _).getContact a' = _
    rw [AddressBook.getContact_saveToDisk, AddressBook.getContact_putContact_ne _ ha, hquiet.book]

theorem Handled.moved {G : Guard} {r : Repl} {a : Bytes} {c : Contact} {p : Repl × Contact}
    (h : Handled E G a r c p) :
    p.2 = c ∨ ∃ o : Occasion, o.lo = r.keyDraws ∧ o.hi = p.1.keyDraws ∧ ContactStep E o c p.2 := by
  obtain ⟨r₁, items, hquiet, hwork, hcontact⟩ := h
  rcases hcontact with ⟨hc, -⟩ | hstep
  · exact .inl hc
  · refine .inr ⟨_, rfl, ?_, hstep⟩
    rcases hwork with hwork | hwork <;> rw [hwork] <;> rfl

theorem accept_spec (r : Repl) (a : Bytes) (c : Contact) (usedOld : Bool) (plaintext : Bytes) :
    (∃ c', (r.accept E a c usedOld plaintext).addressBook.getContact a = some c' ∧
      Accepted E r.keyDraws (r.accept E a c usedOld plaintext).keyDraws c c') ∧
    ∀ a' ≠ a, (r.accept E a c usedOld plaintext).addressBook.getContact a' =
      r.addressBook.getContact a' := by
  unfold accept
  rcases dropOldMailbox_cases r a c usedOld with hd | ⟨-, -, hd⟩
  · rw [hd]
    have h := dispatch_handled (E := E) (G := {}) r a c plaintext (fun _ _ _ => trivial)
      fun _ _ => trivial
    refine ⟨⟨_, AddressBook.getContact_putContact _ _ _, c, .inl rfl, Handled.moved h⟩, ?_⟩
    intro a' ha
    exact Handled.getContact h ha
  · rw [hd]
    have h := dispatch_handled (E := E) (G := {})
      ((r.print (.transitionConfirmed a)).save a (droppedOld c)) a (droppedOld c) plaintext
      (fun _ _ _ => trivial) fun _ _ => trivial
    have hmoved := Handled.moved h
    refine ⟨⟨_, AddressBook.getContact_putContact _ _ _, _, .inr rfl, hmoved⟩, ?_⟩
    intro a' ha
    rw [Handled.getContact h ha]
    exact AddressBook.getContact_putContact_ne _ ha _

/-- The new session answers a request that the contact signed, with a key drawn while
the frame was handled. -/
def ByRequest (E : Setup) (lo hi : ℕ) (c c' : Contact) : Prop :=
  ∃ n k e sig secret, lo ≤ n ∧ n < hi ∧ E.tape.keypair n = some k ∧
    E.sodium.cryptoSignVerifyDetached sig e.toList c.publicKey = true ∧
    E.sodium.cryptoScalarmult k.secretKey e = some secret ∧
    session c' = deriveMailboxes E.sodium secret k.publicKey e

/-- The new session completes our own request, whose key `k` is pending, with an
acknowledgement that the contact signed for this key. -/
def ByAck (E : Setup) (c c' : Contact) (k : EphemeralKey) : Prop :=
  c.pfsState = .rotationRequested ∧ c.pendingEphemeralKey = some k ∧
    ∃ e sig secret,
      E.sodium.cryptoSignVerifyDetached sig (k.publicKey.toList ++ e.toList) c.publicKey = true ∧
      E.sodium.cryptoScalarmult k.secretKey e = some secret ∧
      session c' = deriveMailboxes E.sodium secret k.publicKey e

theorem Accepted.session_cases {lo hi : ℕ} {c c' : Contact} (h : Accepted E lo hi c c') :
    session c' = session c ∨ ByRequest E lo hi c c' ∨
      ∃ k, ByAck E c c' k ∧ c'.pendingEphemeralKey = none := by
  obtain ⟨c₁, hc₁, hc'⟩ := h
  -- giving up the old mailbox leaves all that the guards read as it was
  have hsession : session c₁ = session c := by rcases hc₁ with rfl | rfl <;> rfl
  have hpk : c₁.publicKey = c.publicKey := by rcases hc₁ with rfl | rfl <;> rfl
  have hstate : c₁.pfsState = c.pfsState := by rcases hc₁ with rfl | rfl <;> rfl
  have hpending : c₁.pendingEphemeralKey = c.pendingEphemeralKey := by
    rcases hc₁ with rfl | rfl <;> rfl
  rcases hc' with rfl | ⟨o, rfl, rfl, hstep⟩
  · exact .inl hsession
  · cases hstep with
    | initiated => exact .inl hsession
    | answered hrole hsig hlo hhi hk hsecret =>
        exact .inr (.inl ⟨_, _, _, _, _, hlo, hhi, hk, hpk ▸ hsig, hsecret, rfl⟩)
    | keptOld =>
        refine .inl (Eq.trans ?_ hsession)
        unfold keepOld
        split <;> rfl
    | completed hst hp hsig hsecret =>
        exact .inr (.inr ⟨_, ⟨hstate ▸ hst, hpending ▸ hp, _, _, _, hpk ▸ hsig, hsecret, rfl⟩, rfl⟩)

/-! ## Pending keys along a run -/

/-- The first `n` key pairs of the tape are different. -/
def FreshDraws (E : Setup) (n : ℕ) : Prop :=
  ∀ i j k, i < n → j < n → E.tape.keypair i = some k → E.tape.keypair j = some k → i = j

theorem FreshDraws.mono {m n : ℕ} (h : FreshDraws E n) (hmn : m ≤ n) : FreshDraws E m :=
  fun i j k hi hj => h i j k (hi.trans_le hmn) (hj.trans_le hmn)

/-- `k` is one of the first `n` key pairs of the tape. -/
def Drawn (E : Setup) (n : ℕ) (k : EphemeralKey) : Prop :=
  ∃ i < n, E.tape.keypair i = some k

theorem Drawn.mono {m n : ℕ} {k : EphemeralKey} (h : Drawn E m k) (hmn : m ≤ n) :
    Drawn E n k := by
  obtain ⟨i, hi, hk⟩ := h
  exact ⟨i, hi.trans_le hmn, hk⟩

/-- `k` is pending for the contact `a`. -/
def PendingAt (r : Repl) (a : Bytes) (k : EphemeralKey) : Prop :=
  ∃ c, r.addressBook.getContact a = some c ∧ c.pendingEphemeralKey = some k

/-- A change of a contact keeps the pending key, clears it, or draws a new one. -/
theorem ContactChange.pending {o : Occasion} {c c' : Contact} (h : ContactChange E o c c')
    {k : EphemeralKey} (hk : c'.pendingEphemeralKey = some k) :
    c.pendingEphemeralKey = some k ∨ ∃ n, o.lo ≤ n ∧ n < o.hi ∧ E.tape.keypair n = some k := by
  have hkeep : (keepOld c).pendingEphemeralKey = c.pendingEphemeralKey := by
    unfold keepOld
    split <;> rfl
  cases h with
  | step hstep =>
      cases hstep with
      | initiated hidle hlo hhi hdraw =>
          obtain rfl := Option.some.inj hk
          exact .inr ⟨_, hlo, hhi, hdraw⟩
      | answered => exact .inl (hkeep ▸ hk)
      | keptOld => exact .inl (hkeep ▸ hk)
      | completed => cases hk
  | droppedOld => exact .inl hk

/-- An action makes at most one contact's key pending, and draws that key. -/
theorem Action.pendingAt {G : Guard} {r r' : Repl} (h : Action E G r r') :
    ∃ a₀, ∀ a k, PendingAt r' a k → PendingAt r a k ∨
      (a = a₀ ∧ ∃ n, r.keyDraws ≤ n ∧ n < r'.keyDraws ∧ E.tape.keypair n = some k) := by
  have hbook : ∀ {r'' : Repl}, r''.addressBook = r.addressBook →
      ∀ a k, PendingAt r'' a k → PendingAt r a k := by
    rintro r'' heq a k ⟨c, hc, hk⟩
    exact ⟨c, heq ▸ hc, hk⟩
  cases h with
  | quiet h => exact ⟨[], fun a k hp => .inl (hbook h.book a k hp)⟩
  | @change r₁ _ a₀ c c' hquiet hc hchange =>
      refine ⟨a₀, ?_⟩
      rintro a k ⟨c'', hc'', hk⟩
      rcases AddressBook.getContact_putContact_cases hc'' with ⟨rfl, rfl⟩ | ⟨-, hc''⟩
      · rcases ContactChange.pending hchange hk with hold | hnew
        · exact .inl ⟨c, hc, hold⟩
        · exact .inr ⟨rfl, hnew⟩
      · exact .inl ⟨c'', hquiet.book ▸ hc'', hk⟩
  | save => exact ⟨[], fun a k hp => .inl hp⟩
  | @text _ _ a₀ _ c heq _ hc =>
      refine ⟨[], ?_⟩
      rintro a k ⟨c', hc', hk⟩
      rw [heq] at hc'
      rcases AddressBook.getContact_putContact_cases hc' with ⟨rfl, rfl⟩ | ⟨-, hc'⟩
      · exact .inl ⟨c, hc, hk⟩
      · exact .inl ⟨c', hc', hk⟩
  | add =>
      refine ⟨[], ?_⟩
      rintro a k ⟨c, hc, hk⟩
      rcases AddressBook.getContact_putContact_cases hc with ⟨rfl, rfl⟩ | ⟨-, hc⟩
      · cases hk
      · exact .inl ⟨c, hc, hk⟩
  | tick _ heq => exact ⟨[], fun a k hp => .inl (hbook heq a k hp)⟩
  | restart =>
      refine ⟨[], ?_⟩
      rintro a k ⟨c, hc, hk⟩
      obtain ⟨raw, -, -, hraw⟩ := AddressBook.getContact_initializeFrom hc
      rw [AddressBook.restoreContact_pending hraw] at hk
      cases hk

/-- Every pending key was drawn, and while the draws are fresh each is pending for
one contact only. -/
structure PendingInv (E : Setup) (r : Repl) : Prop where
  drawn : ∀ a k, PendingAt r a k → Drawn E r.keyDraws k
  once : FreshDraws E r.keyDraws → ∀ a a' k, PendingAt r a k → PendingAt r a' k → a' = a

/-- A drawn key that is not pending any more. -/
def Retired (E : Setup) (r : Repl) (k : EphemeralKey) : Prop :=
  Drawn E r.keyDraws k ∧ ∀ a, ¬ PendingAt r a k

theorem Drawn.not_redrawn {lo hi n : ℕ} {k : EphemeralKey} (h : Drawn E lo k)
    (hfresh : FreshDraws E hi) (hlo : lo ≤ n) (hhi : n < hi) : E.tape.keypair n ≠ some k := by
  obtain ⟨i, hi', hk⟩ := h
  intro hn
  have heq := hfresh i n k ((hi'.trans_le hlo).trans hhi) hhi hk hn
  exact absurd (heq ▸ hi') (Nat.not_lt.mpr hlo)

theorem PendingInv.action {G : Guard} {r r' : Repl}
    (haction : Action E G r r') (h : PendingInv E r) : PendingInv E r' := by
  obtain ⟨a₀, hnew⟩ := Action.pendingAt haction
  have hdraws := Action.draws haction
  constructor
  · intro a k hp
    rcases hnew a k hp with hold | ⟨-, n, -, hhi, hk⟩
    · exact (h.drawn a k hold).mono hdraws
    · exact ⟨n, hhi, hk⟩
  · intro hfresh a a' k hp hp'
    rcases hnew a k hp with hold | ⟨rfl, n, hlo, hhi, hk⟩
    · rcases hnew a' k hp' with hold' | ⟨-, n, hlo, hhi, hk⟩
      · exact h.once (hfresh.mono hdraws) a a' k hold hold'
      · exact absurd hk ((h.drawn a k hold).not_redrawn hfresh hlo hhi)
    · rcases hnew a' k hp' with hold' | ⟨heq, -⟩
      · exact absurd hk ((h.drawn a' k hold').not_redrawn hfresh hlo hhi)
      · exact heq

theorem Retired.action {G : Guard} {r r' : Repl} {k : EphemeralKey}
    (haction : Action E G r r') (hfresh : FreshDraws E r'.keyDraws) (h : Retired E r k) :
    Retired E r' k := by
  obtain ⟨a₀, hnew⟩ := Action.pendingAt haction
  refine ⟨h.1.mono (Action.draws haction), ?_⟩
  intro a hp
  rcases hnew a k hp with hold | ⟨-, n, hlo, hhi, hk⟩
  · exact h.2 a hold
  · exact h.1.not_redrawn hfresh hlo hhi hk

theorem run_draws (r : Repl) (inputs : List Input) :
    r.keyDraws ≤ (run E r inputs).keyDraws := by
  exact run_induction (P := fun r' => r.keyDraws ≤ r'.keyDraws)
    (fun _ r₁ r₂ haction h => h.trans (Action.draws haction)) le_rfl inputs

theorem run_pendingInv (inputs : List Input) : PendingInv E (run E {} inputs) := by
  refine run_induction (fun _ r r' => PendingInv.action) ?_ inputs
  constructor
  · rintro a k ⟨c, hc, -⟩
    cases hc
  · rintro - a a' k ⟨c, hc, -⟩
    cases hc

theorem run_retired {r : Repl} {k : EphemeralKey} (h : Retired E r k) (inputs : List Input)
    (hfresh : FreshDraws E (run E r inputs).keyDraws) : Retired E (run E r inputs) k := by
  have hP : ∀ (G : Guard) (r r' : Repl), Action E G r r' →
      (FreshDraws E r.keyDraws → Retired E r k) → FreshDraws E r'.keyDraws → Retired E r' k := by
    intro G r r' haction ih hfresh
    exact Retired.action haction hfresh (ih (hfresh.mono (Action.draws haction)))
  exact run_induction hP (fun _ => h) inputs hfresh

/-! ## The main result -/

/-- **Only the peer's identity key can move a session.** In every state a client can
reach, a frame of arbitrary bytes changes the session of a contact only by a request
or an acknowledgement that the contact signed; an acknowledged key is pending in no
later state, as long as the key pairs of the run are fresh. A frame that neither
receive key of its contact opens changes no contact. -/
theorem session_moved_by_peer (E : Setup) (inputs : List Input) (f : Frame) :
    let r := run E {} inputs
    let r' := r.onFrameReceived E f
    (∀ a c c', r.addressBook.getContact a = some c → r'.addressBook.getContact a = some c' →
      session c' ≠ session c →
        ByRequest E r.keyDraws r'.keyDraws c c' ∨
        ∃ k, ByAck E c c' k ∧ Drawn E r.keyDraws k ∧
          ∀ later, FreshDraws E (run E r' later).keyDraws →
            ∀ a₁, ¬ PendingAt (run E r' later) a₁ k) ∧
    (∀ a c, Routed r f a c → decryptAndUnpad E.sodium c.rxKey f.payload = none →
      (∀ k, c.oldRxKey = some k → decryptAndUnpad E.sodium k f.payload = none) →
      r'.addressBook = r.addressBook) := by
  intro r r'
  have hinv : PendingInv E r := run_pendingInv inputs
  have hcases := onFrameReceived_cases (E := E) r f
  constructor
  · intro a c c' hc hc' hmoved
    rcases hcases with hquiet | ⟨a₀, c₀, pt, hrouted, -, -, heq⟩
    · rw [show r'.addressBook = r.addressBook from hquiet.book, hc] at hc'
      obtain rfl := Option.some.inj hc'
      exact absurd rfl hmoved
    · obtain ⟨⟨c₁, hc₁, haccepted⟩, hother⟩ :=
        accept_spec (E := E) r a₀ c₀ (usedOldKey c₀ f.mailboxId) pt
      rw [← heq] at hc₁ haccepted hother
      by_cases ha : a = a₀
      · subst ha
        obtain rfl := Option.some.inj (hc.symm.trans hrouted.contact)
        obtain rfl := Option.some.inj (hc'.symm.trans hc₁)
        rcases haccepted.session_cases with hsame | hreq | ⟨k, hack, hcleared⟩
        · exact absurd hsame hmoved
        · exact .inl hreq
        · have hat : PendingAt r a k := ⟨c, hc, hack.2.1⟩
          have hdrawn := hinv.drawn a k hat
          refine .inr ⟨k, hack, hdrawn, ?_⟩
          intro later hfresh
          have hdraws : r.keyDraws ≤ r'.keyDraws := run_draws r [.receive f]
          have hfresh' : FreshDraws E r'.keyDraws := hfresh.mono (run_draws r' later)
          -- the contact's own key is cleared, and nobody else's is the same
          have hretired : Retired E r' k := by
            refine ⟨hdrawn.mono hdraws, ?_⟩
            rintro a₁ ⟨c₁', hc₁', hk⟩
            by_cases ha₁ : a₁ = a
            · subst ha₁
              obtain rfl := Option.some.inj (hc'.symm.trans hc₁')
              rw [hcleared] at hk
              cases hk
            · rw [hother a₁ ha₁] at hc₁'
              exact ha₁ (hinv.once (hfresh'.mono hdraws) a a₁ k hat ⟨c₁', hc₁', hk⟩)
          exact (run_retired hretired later hfresh).2
      · rw [hother a ha, hc] at hc'
        obtain rfl := Option.some.inj hc'
        exact absurd rfl hmoved
  · intro a c hrouted hcur hold
    rcases hcases with hquiet | ⟨a₀, c₀, pt, hrouted₀, -, hdec, -⟩
    · exact hquiet.book
    · obtain rfl : a = a₀ := hrouted.found.symm.trans hrouted₀.found
      obtain rfl := Option.some.inj (hrouted.contact.symm.trans hrouted₀.contact)
      exfalso
      unfold selectedKey keyToUse at hdec
      split at hdec
      · next k _ hk => rw [hold k hk] at hdec; cases hdec
      · rw [hcur] at hdec; cases hdec

/-- Bob's acknowledgement of the request in the initial handshake. -/
def bobAck : Frame := (queued bob bobAnswers).headD (Frame.createPoll (MailboxID.fill 0x00))

/-- Alice's first key is used up by Bob's acknowledgement. -/
theorem session_moved_by_peer_handshake :
    ∃ c c' k,
      (run alice {} aliceGreets).addressBook.getContact (ascii "bob") = some c ∧
      ((run alice {} aliceGreets).onFrameReceived alice bobAck).addressBook.getContact
        (ascii "bob") = some c' ∧
      session c' ≠ session c ∧ ByAck alice c c' k ∧
      ∀ a, ¬ PendingAt ((run alice {} aliceGreets).onFrameReceived alice bobAck) a k := by
  obtain ⟨hmoved, -⟩ := session_moved_by_peer alice aliceGreets bobAck
  have hdraws : (run alice {} aliceGreets).keyDraws = 1 ∧
      ((run alice {} aliceGreets).onFrameReceived alice bobAck).keyDraws = 1 := by decide +kernel
  obtain ⟨c, hc⟩ := Option.isSome_iff_exists.mp (show
    ((run alice {} aliceGreets).addressBook.getContact (ascii "bob")).isSome = true by
      decide +kernel)
  obtain ⟨c', hc'⟩ := Option.isSome_iff_exists.mp (show
    (((run alice {} aliceGreets).onFrameReceived alice bobAck).addressBook.getContact
      (ascii "bob")).isSome = true by decide +kernel)
  have hsession : session c' ≠ session c := by
    have hne : (((run alice {} aliceGreets).onFrameReceived alice bobAck).addressBook.getContact
        (ascii "bob")).map session ≠
        ((run alice {} aliceGreets).addressBook.getContact (ascii "bob")).map session := by
      decide +kernel
    rw [hc, hc'] at hne
    exact fun heq => hne (congrArg some heq)
  rcases hmoved _ c c' hc hc' hsession with ⟨n, _, _, _, _, hlo, hhi, -⟩ | ⟨k, hack, -, honce⟩
  · rw [hdraws.1] at hlo
    rw [hdraws.2] at hhi
    exact absurd hlo (Nat.not_le.mpr hhi)
  · have hlater := honce []
    rw [run_nil alice, hdraws.2] at hlater
    refine ⟨c, c', k, hc, hc', hsession, hack, hlater ?_⟩
    intro i j _ hi hj _ _
    rw [Nat.lt_one_iff.mp hi, Nat.lt_one_iff.mp hj]

end Repl

end BlankChat.Cli
