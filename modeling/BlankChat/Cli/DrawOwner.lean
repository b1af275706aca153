import BlankChat.Cli.ContactInvariant
import BlankChat.Lib.Ownership

/-!
# Which contact a key pair belongs to

Every session after the initial handshake comes from an exchange with a key pair of the
tape. The pair is drawn for one contact: it is pending there, or makes up its session, or
the old one. `DrawUse` is the rule: a way to use draws that every change of a contact
respects gives each draw to one contact at most, in memory and in the file.
-/

namespace BlankChat.Cli

open Lib BlankChat.Core Crypto Protocol Client Lib.Ownership

/-! ## Exchanges with drawn keys -/

/-- `d` is the session of an exchange with `k`, the `n`-th key pair of the tape. -/
def Exchange (E : Setup) (n : ℕ) (k : EphemeralKey) (d : DerivedMailboxes) : Prop :=
  E.tape.keypair n = some k ∧ ∃ e secret,
    E.sodium.cryptoScalarmult k.secretKey e = some secret ∧
      d = deriveMailboxes E.sodium secret k.publicKey e

/-- What is assumed of the hash and of the first `N` key pairs, for a part `f` of the
sessions: the part differs when the hash inputs contain different keys of ours, and the
public keys that are drawn are different. -/
structure Distinct (E : Setup) (N : ℕ) {β : Type} (f : DerivedMailboxes → β) : Prop where
  hash : ∀ n m k k' d d', n < N → m < N → Exchange E n k d → Exchange E m k' d' →
    f d = f d' → k.publicKey = k'.publicKey
  fresh : ∀ n m k k', n < N → m < N → E.tape.keypair n = some k → E.tape.keypair m = some k' →
    k.publicKey = k'.publicKey → n = m

theorem Distinct.draw_eq {E : Setup} {N : ℕ} {β : Type} {f : DerivedMailboxes → β}
    (h : Distinct E N f) {n m : ℕ} {k k' : EphemeralKey} {d d' : DerivedMailboxes} (hn : n < N)
    (hm : m < N) (hd : Exchange E n k d) (hd' : Exchange E m k' d') (heq : f d = f d') : n = m :=
  h.fresh n m k k' hn hm hd.1 hd'.1 (h.hash n m k k' d d' hn hm hd hd' heq)

/-- Where the keys of a contact come from, when `n` pairs have been drawn. -/
structure FromDraws (E : Setup) (n : ℕ) (c : Contact) : Prop where
  complete : c.initialPfsComplete = true → ∃ m < n, ∃ k, Exchange E m k (session c)
  early : c.initialPfsComplete = false →
    derivePairwiseMailboxes E.sodium E.identity c.publicKey = some (session c)
  old : ∀ id, c.oldRxMailboxId = some id →
    c.initialPfsComplete = true ∧ ∃ m < n, ∃ k d, Exchange E m k d ∧ id = d.rxId
  pending : ∀ k, c.pendingEphemeralKey = some k → ∃ m < n, E.tape.keypair m = some k

namespace FromDraws

variable {E : Setup} {m n : ℕ} {o : Occasion} {c c' : Contact}

theorem mono (h : FromDraws E m c) (hle : m ≤ n) : FromDraws E n c where
  complete hcomplete := by
    obtain ⟨i, hi, hsession⟩ := h.complete hcomplete
    exact ⟨i, hi.trans_le hle, hsession⟩
  early := h.early
  old id hid := by
    obtain ⟨hcomplete, i, hi, hold⟩ := h.old id hid
    exact ⟨hcomplete, i, hi.trans_le hle, hold⟩
  pending k hk := by
    obtain ⟨i, hi, hdraw⟩ := h.pending k hk
    exact ⟨i, hi.trans_le hle, hdraw⟩

theorem keepOld (h : FromDraws E n c) : FromDraws E n (keepOld c) := by
  unfold Cli.keepOld
  split
  · next hcomplete =>
      refine ⟨h.complete, h.early, ?_, h.pending⟩
      intro id hid
      obtain rfl := Option.some.inj hid
      obtain ⟨i, hi, k, hsession⟩ := h.complete hcomplete
      exact ⟨hcomplete, i, hi, k, _, hsession, rfl⟩
  · exact h

theorem withSession (h : FromDraws E n c) {d : DerivedMailboxes} {k : EphemeralKey} (hm : m < n)
    (hd : Exchange E m k d) (hsession : session c' = d) (hcomplete : c'.initialPfsComplete = true)
    (hold : c'.oldRxMailboxId = c.oldRxMailboxId)
    (hpending : ∀ k, c'.pendingEphemeralKey = some k → c.pendingEphemeralKey = some k) :
    FromDraws E n c' := by
  subst hsession
  refine ⟨fun _ => ⟨m, hm, k, hd⟩, ?_, ?_, fun k hk => h.pending k (hpending k hk)⟩
  · intro hearly
    exact absurd (hcomplete.symm.trans hearly) (by decide)
  · intro id hid
    exact ⟨hcomplete, (h.old id (hold ▸ hid)).2⟩

theorem change (hle : o.lo ≤ o.hi) (hchange : ContactChange E o c c') (h : FromDraws E o.lo c) :
    FromDraws E o.hi c' := by
  cases hchange with
  | step hstep =>
      cases hstep with
      | initiated hidle hlo hhi hk =>
          refine ⟨(h.mono hle).complete, h.early, (h.mono hle).old, ?_⟩
          intro k' hk'
          obtain rfl := Option.some.inj hk'
          exact ⟨_, hhi, hk⟩
      | answered hrole hsig hlo hhi hk hsecret =>
          exact (h.mono hle).keepOld.withSession hhi ⟨hk, _, _, hsecret, rfl⟩ rfl rfl rfl
            fun _ hk => hk
      | keptOld => exact (h.mono hle).keepOld
      | completed hstate hpending hsig hsecret =>
          obtain ⟨i, hi, hk⟩ := h.pending _ hpending
          exact (h.mono hle).withSession (hi.trans_le hle) ⟨hk, _, _, hsecret, rfl⟩ rfl rfl rfl
            (fun _ hk => by cases hk)
  | droppedOld =>
      exact ⟨(h.mono hle).complete, h.early, (fun id hid => by cases hid), (h.mono hle).pending⟩

end FromDraws

theorem fromDraws_invariant (E : Setup) (G : Guard) : ContactInvariant E G (FromDraws E) where
  mono _ _ _ hle hc := hc.mono hle
  bootstrap _ _ _ _ _ hd :=
    ⟨(fun hcomplete => by cases hcomplete), fun _ => hd, (fun id hid => by cases hid),
      (fun k hk => by cases hk)⟩
  change _ _ _ hle _ hchange hc := hc.change hle hchange
  counted _ _ hc := ⟨hc.complete, hc.early, hc.old, hc.pending⟩
  persistent _ _ hc :=
    ⟨hc.complete, hc.early, (fun id hid => by cases hid), (fun k hk => by cases hk)⟩

/-! ## The rule -/

/-- A way to use the first `N` draws: a new contact uses none, and a change takes fresh
ones only. -/
structure DrawUse (E : Setup) (N : ℕ) (uses : Contact → ℕ → Prop) : Prop where
  bootstrap : ∀ a pk d n, ¬ uses (AddressBook.bootstrapContact a pk none d) n
  change : ∀ o c c' n, o.lo ≤ o.hi → o.hi ≤ N → FromDraws E o.lo c → ContactChange E o c c' →
    uses c' n → uses c n ∨ (o.lo ≤ n ∧ n < o.hi)
  counted : ∀ c n, uses (counted c) n → uses c n
  persistent : ∀ c n, uses (AddressBook.persistent c) n → uses c n

/-- Every draw is used by one contact at most, in memory and in the file. -/
structure Owned (uses : Contact → ℕ → Prop) (r : Repl) : Prop where
  memory : Exclusive uses (fun a c => r.addressBook.getContact a = some c) r.keyDraws
  file : ∃ cs, r.addressBook.file = syncContactsToDisk cs ∧
    Exclusive uses (fun a c => c ∈ cs ∧ c.aliasName = a) r.keyDraws

namespace Owned

variable {E : Setup} {G : Guard} {N : ℕ} {uses : Contact → ℕ → Prop} {r r' : Repl}

theorem of_book (h : Owned uses r) (hbook : r'.addressBook = r.addressBook)
    (hdraws : r.keyDraws ≤ r'.keyDraws) : Owned uses r' := by
  obtain ⟨cs, hfile, hcs⟩ := h.file
  refine ⟨h.memory.subset hdraws ?_, cs, hbook ▸ hfile, hcs.subset hdraws ?_⟩
  · intro a c n hc hn
    exact ⟨c, hbook ▸ hc, hn⟩
  · intro a c n hc hn
    exact ⟨c, hc, hn⟩

theorem putContact (h : Owned uses r) {a : Bytes} {c' : Contact}
    (hbook : r'.addressBook = r.addressBook.putContact a c') (hdraws : r.keyDraws ≤ r'.keyDraws)
    (hc' : ∀ n, uses c' n → (∃ c, r.addressBook.getContact a = some c ∧ uses c n) ∨
      (r.keyDraws ≤ n ∧ n < r'.keyDraws)) : Owned uses r' := by
  obtain ⟨cs, hfile, hcs⟩ := h.file
  refine ⟨h.memory.step hdraws a ?_, cs, ?_, hcs.subset hdraws ?_⟩
  · intro a₁ c₁ n hc₁ hn
    rw [hbook] at hc₁
    rcases AddressBook.getContact_putContact_cases hc₁ with ⟨rfl, rfl⟩ | ⟨-, hc₁⟩
    · rcases hc' n hn with hsame | hfresh
      · exact .inl hsame
      · exact .inr ⟨rfl, hfresh⟩
    · exact .inl ⟨c₁, hc₁, hn⟩
  · rw [hbook]
    exact hfile
  · intro a₁ c₁ n hc₁ hn
    exact ⟨c₁, hc₁, hn⟩

theorem save (h : Owned uses r)
    (hkeyed : ∀ a c, r.addressBook.getContact a = some c → c.aliasName = a) :
    Owned uses { r with addressBook := r.addressBook.saveToDisk } := by
  refine ⟨h.memory, _, rfl, h.memory.subset le_rfl ?_⟩
  rintro a c n ⟨hc, rfl⟩ hn
  obtain ⟨e, he, rfl⟩ := List.mem_map.mp hc
  have hread : r.addressBook.getContact e.1 = some e.2 :=
    List.mem_dlookup r.addressBook.contacts.nodupKeys he
  rw [hkeyed e.1 e.2 hread]
  exact ⟨e.2, hread, hn⟩

theorem restart (huse : DrawUse E N uses) (h : Owned uses r) : Owned uses (r.restart E) := by
  obtain ⟨cs, hfile, hcs⟩ := h.file
  refine ⟨hcs.subset le_rfl ?_, cs, hfile, hcs⟩
  intro a c n hc hn
  obtain ⟨c₀, hc₀, halias, rfl⟩ := getContact_restart hfile hc
  exact ⟨c₀, ⟨hc₀, halias⟩, huse.persistent c₀ n hn⟩

theorem action (huse : DrawUse E N uses) (hall : AllContacts (FromDraws E) r)
    (haction : Action E G r r') (hN : r'.keyDraws ≤ N) (h : Owned uses r) : Owned uses r' := by
  cases haction with
  | quiet hquiet => exact h.of_book hquiet.book hquiet.draws
  | @change r₁ _ a c c' hquiet hc hchange =>
      have hbook : (r₁.putContact a c').addressBook = r.addressBook.putContact a c' := by
        rw [Repl.putContact, hquiet.book]
      refine h.putContact hbook hquiet.draws ?_
      intro n hn
      rcases huse.change _ _ _ n hquiet.draws hN (hall.contacts _ _ hc).2 hchange hn with hn | hn
      · exact .inl ⟨_, hc, hn⟩
      · exact .inr hn
  | save => exact h.save fun a c hc => (hall.contacts a c hc).1
  | text hbook hdraws hc =>
      refine h.putContact hbook hdraws.ge ?_
      intro n hn
      exact .inl ⟨_, hc, huse.counted _ n hn⟩
  | add hadds hd =>
      refine h.putContact rfl le_rfl ?_
      intro n hn
      exact absurd hn (huse.bootstrap _ _ _ n)
  | tick _ hbook hdraws => exact h.of_book hbook hdraws.ge
  | restart => exact h.restart huse

end Owned

/-- **The rule.** In every state no draw is used by two contacts. -/
theorem DrawUse.actions {E : Setup} {G : Guard} {N : ℕ} {uses : Contact → ℕ → Prop}
    (huse : DrawUse E N uses) {r : Repl} (h : GuardedActions E G {} r) (hN : r.keyDraws ≤ N) :
    Owned uses r := by
  have hP : AllContacts (FromDraws E) r ∧ (r.keyDraws ≤ N → Owned uses r) := by
    refine Repl.actions_induction
      (P := fun r => AllContacts (FromDraws E) r ∧ (r.keyDraws ≤ N → Owned uses r)) ?_ h ?_
    · rintro r r' haction ⟨hall, howned⟩
      refine ⟨hall.action (fromDraws_invariant E G) haction, ?_⟩
      intro hN
      exact (howned (haction.draws.trans hN)).action huse hall haction hN
    · refine ⟨(fromDraws_invariant E G).actions .refl, ?_⟩
      intro _
      refine ⟨.of_unused ?_, [], rfl, .of_unused ?_⟩
      · intro a c n hc
        cases hc
      · rintro a c n ⟨hc, -⟩
        cases hc
  exact hP.2 hN

/-! ## The draws in a contact -/

section Uses

variable {E : Setup} {N : ℕ} {β : Type} {f : DerivedMailboxes → β} {o : Occasion}
  {c c' : Contact} {n : ℕ}

/-- The part `f` of the session is that of an exchange with draw `n`. -/
def Current (E : Setup) (N : ℕ) (f : DerivedMailboxes → β) (c : Contact) (n : ℕ) : Prop :=
  c.initialPfsComplete = true ∧ n < N ∧ ∃ k d, Exchange E n k d ∧ f (session c) = f d

/-- Draw `n` is pending. -/
def PendingDraw (E : Setup) (N : ℕ) (c : Contact) (n : ℕ) : Prop :=
  n < N ∧ ∃ k, c.pendingEphemeralKey = some k ∧ E.tape.keypair n = some k

/-- A new session uses the draw of its exchange and no other. -/
theorem Distinct.current_eq (hf : Distinct E N f) {m : ℕ} {k : EphemeralKey} (hm : m < N)
    (hd : Exchange E m k (session c)) (h : Current E N f c n) : n = m := by
  obtain ⟨-, hn, k', d', hd', heq⟩ := h
  exact (hf.draw_eq hm hn hd hd' heq).symm

theorem Distinct.pending_eq (hf : Distinct E N f) {m : ℕ} {k : EphemeralKey} (hm : m < N)
    (hpending : c.pendingEphemeralKey = some k) (hk : E.tape.keypair m = some k)
    (h : PendingDraw E N c n) : n = m := by
  obtain ⟨hn, k', hpending', hk'⟩ := h
  obtain rfl := Option.some.inj (hpending.symm.trans hpending')
  exact hf.fresh n m k k hn hm hk' hk rfl

/-- The session changes to the draw that was pending, or to a fresh one. -/
theorem Current.change (hf : Distinct E N f) (hle : o.lo ≤ o.hi) (hN : o.hi ≤ N)
    (hc : FromDraws E o.lo c) (hchange : ContactChange E o c c') (h : Current E N f c' n) :
    Current E N f c n ∨ PendingDraw E N c n ∨ (o.lo ≤ n ∧ n < o.hi) := by
  cases hchange with
  | step hstep =>
      cases hstep with
      | initiated => exact .inl h
      | answered hrole hsig hlo hhi hk hsecret =>
          obtain rfl := hf.current_eq (hhi.trans_le hN) ⟨hk, _, _, hsecret, rfl⟩ h
          exact .inr (.inr ⟨hlo, hhi⟩)
      | keptOld =>
          left
          unfold keepOld at h
          split at h
          · exact h
          · exact h
      | completed hstate hpending hsig hsecret =>
          obtain ⟨m, hm, hk⟩ := hc.pending _ hpending
          have hmN := (hm.trans_le hle).trans_le hN
          obtain rfl := hf.current_eq hmN ⟨hk, _, _, hsecret, rfl⟩ h
          exact .inr (.inl ⟨hmN, _, hpending, hk⟩)
  | droppedOld => exact .inl h

theorem PendingDraw.change (hf : Distinct E N f) (hN : o.hi ≤ N)
    (hchange : ContactChange E o c c') (h : PendingDraw E N c' n) :
    PendingDraw E N c n ∨ (o.lo ≤ n ∧ n < o.hi) := by
  have hkeep : (keepOld c).pendingEphemeralKey = c.pendingEphemeralKey := by
    unfold keepOld
    split <;> rfl
  cases hchange with
  | step hstep =>
      cases hstep with
      | initiated hidle hlo hhi hk =>
          obtain rfl := hf.pending_eq (hhi.trans_le hN) rfl hk h
          exact .inr ⟨hlo, hhi⟩
      | answered =>
          obtain ⟨hn, k, hpending, hk⟩ := h
          exact .inl ⟨hn, k, hkeep ▸ hpending, hk⟩
      | keptOld =>
          obtain ⟨hn, k, hpending, hk⟩ := h
          exact .inl ⟨hn, k, hkeep ▸ hpending, hk⟩
      | completed =>
          obtain ⟨hn, k, hpending, hk⟩ := h
          cases hpending
  | droppedOld => exact .inl h

theorem Current.lt (hf : Distinct E N f) {m : ℕ} (hc : FromDraws E m c) (hN : m ≤ N)
    (h : Current E N f c n) : n < m := by
  obtain ⟨i, hi, k, hd⟩ := hc.complete h.1
  rw [hf.current_eq (hi.trans_le hN) hd h]
  exact hi

theorem PendingDraw.lt (hf : Distinct E N f) {m : ℕ} (hc : FromDraws E m c) (hN : m ≤ N)
    (h : PendingDraw E N c n) : n < m := by
  obtain ⟨hn, k, hk, hdraw⟩ := h
  obtain ⟨i, hi, hdraw'⟩ := hc.pending k hk
  rw [hf.fresh n i k k hn (hi.trans_le hN) hdraw hdraw' rfl]
  exact hi

/-- A pending draw is not behind the session. -/
structure Unmixed (E : Setup) (N : ℕ) (f : DerivedMailboxes → β) (n : ℕ) (c : Contact) :
    Prop where
  draws : FromDraws E n c
  pending : n ≤ N → ∀ p, PendingDraw E N c p → ¬ Current E N f c p

theorem Unmixed.change (hf : Distinct E N f) (hle : o.lo ≤ o.hi)
    (hchange : ContactChange E o c c') (h : Unmixed E N f o.lo c) : Unmixed E N f o.hi c' := by
  refine ⟨h.draws.change hle hchange, ?_⟩
  intro hN p hpending hcurrent
  have hloN := hle.trans hN
  cases hchange with
  | step hstep =>
      cases hstep with
      | initiated hidle hlo hhi hk =>
          obtain rfl := hf.pending_eq (hhi.trans_le hN) rfl hk hpending
          have hcurrent : Current E N f c p := hcurrent
          exact Nat.not_lt.mpr hlo (hcurrent.lt hf h.draws hloN)
      | answered hrole hsig hlo hhi hk hsecret =>
          obtain rfl := hf.current_eq (hhi.trans_le hN) ⟨hk, _, _, hsecret, rfl⟩ hcurrent
          have hpending : PendingDraw E N (keepOld c) p := hpending
          unfold keepOld at hpending
          split at hpending
          · exact Nat.not_lt.mpr hlo (PendingDraw.lt hf h.draws hloN hpending)
          · exact Nat.not_lt.mpr hlo (PendingDraw.lt hf h.draws hloN hpending)
      | keptOld =>
          unfold keepOld at hpending hcurrent
          split at hpending
          · next hcomplete =>
              rw [if_pos hcomplete] at hcurrent
              exact h.pending hloN p hpending hcurrent
          · next hcomplete =>
              rw [if_neg hcomplete] at hcurrent
              exact h.pending hloN p hpending hcurrent
      | completed =>
          obtain ⟨-, k, hk, -⟩ := hpending
          cases hk
  | droppedOld => exact h.pending hloN p hpending hcurrent

theorem unmixed_invariant (hf : Distinct E N f) (G : Guard) :
    ContactInvariant E G (Unmixed E N f) where
  mono _ _ _ hle hc := ⟨hc.draws.mono hle, fun hN => hc.pending (hle.trans hN)⟩
  bootstrap n a pk d hadds hd :=
    ⟨(fromDraws_invariant E G).bootstrap n a pk d hadds hd,
      (fun _ p hp => by obtain ⟨-, k, hk, -⟩ := hp; cases hk)⟩
  change _ _ _ hle _ hchange hc := hc.change hf hle hchange
  counted n c hc := ⟨(fromDraws_invariant E G).counted n c hc.draws, hc.pending⟩
  persistent n c hc :=
    ⟨(fromDraws_invariant E G).persistent n c hc.draws,
      (fun _ p hp => by obtain ⟨-, k, hk, -⟩ := hp; cases hk)⟩

end Uses

/-- The key pairs of a toy setup are told apart by every part of a session that shows the
first byte of our key. -/
theorem toySetup_distinct {β : Type} {f : DerivedMailboxes → β}
    (hf : ∀ secret secret' ours ours' theirs theirs',
      f (deriveMailboxes transparent secret ours theirs) =
        f (deriveMailboxes transparent secret' ours' theirs') →
      ours.toList.getD 0 0 = ours'.toList.getD 0 0)
    (identity firstDraw : UInt8) (interval : UInt32) (N : ℕ) :
    Distinct (toySetup identity firstDraw interval) N f := by
  constructor
  · rintro n m k k' d d' - - ⟨hk, e, secret, -, rfl⟩ ⟨hk', e', secret', -, rfl⟩ heq
    obtain ⟨-, rfl⟩ := toySetup_keypair hk
    obtain ⟨-, rfl⟩ := toySetup_keypair hk'
    exact congrArg toyKey (hf _ _ _ _ _ _ heq)
  · intro n m k k' _ _ hk hk' heq
    obtain ⟨hn, rfl⟩ := toySetup_keypair hk
    obtain ⟨hm, rfl⟩ := toySetup_keypair hk'
    have hbyte : firstDraw + UInt8.ofNat n = firstDraw + UInt8.ofNat m :=
      congrArg (fun v => v.toList.getD 0 0) heq
    have hnat := congrArg UInt8.toNat ((UInt8.add_right_inj firstDraw).mp hbyte)
    rw [UInt8.toNat_ofNat', UInt8.toNat_ofNat'] at hnat
    omega

end BlankChat.Cli
