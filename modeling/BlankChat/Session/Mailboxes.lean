import BlankChat.Lib.Handover
import BlankChat.Session.Agreement

/-!
# No mailbox is abandoned with frames in it

When only one of the clients starts rotations, a client that stops polling a mailbox
leaves nothing behind in it, and every frame on its way can be polled and opened, as
long as a client empties its old mailbox before it fetches a PUSH from the current one
(`no_mailbox_abandoned`). The network side of the argument is `Lib.Handover`.

`GetNextFrameForCBR` polls the two mailboxes in turn and does not care for the order;
`text_abandoned` is a run in which a text stays in a mailbox that is never polled
again.
-/

namespace BlankChat.Session

open Lib Lib.Rotation BlankChat.Core Crypto Protocol Client Cli

/-! ## Conditions and properties of runs -/

namespace World

variable (D : Duo) (w : World)

/-- Only the client `i` starts rotations, and nobody restarts. -/
def OneInitiator (i : Side) : Event → Prop
  | .send s text => w.StartsRotation D s text → s = i
  | .restart _ => False
  | _ => True

instance (i : Side) : (ev : Event) → Decidable (w.OneInitiator D i ev)
  | .send .. => inferInstanceAs (Decidable (_ → _))
  | .restart _ => inferInstanceAs (Decidable False)
  | .receive _ | .tick _ | .connect _ => inferInstanceAs (Decidable True)

/-- The next poll fetches a PUSH from the current mailbox while there are frames in the
old one. -/
def FetchesAhead (s : Side) : Prop :=
  (w.client s).connected = true ∧ ∃ c ∈ w.contact D s,
    (w.client s).getNextFrameForCBR.1 = Frame.createPoll c.rxMailboxId ∧
    (∃ f ∈ (w.mailbox c.rxMailboxId).head?, f.action = .push) ∧
    ∃ old ∈ c.oldRxMailboxId, w.mailbox old ≠ []

instance (s : Side) : Decidable (w.FetchesAhead D s) := inferInstanceAs (Decidable (_ ∧ _))

def DrainsOld : Event → Prop
  | .tick s => ¬ w.FetchesAhead D s
  | _ => True

instance : (ev : Event) → Decidable (w.DrainsOld D ev)
  | .tick _ => inferInstanceAs (Decidable (¬ _))
  | .send .. | .restart _ | .receive _ | .connect _ => inferInstanceAs (Decidable True)

/-- The client polls the mailbox for its contact. -/
def Polls (s : Side) (m : MailboxID) : Prop :=
  ∃ c ∈ w.contact D s, AddressBook.listensTo m c = true

instance (s : Side) (m : MailboxID) : Decidable (w.Polls D s m) :=
  inferInstanceAs (Decidable (∃ _, _))

/-- Whenever a client stops polling a mailbox, no frame for it is left in the outbox of
the other client or at the relay. -/
def LeavesNothing (ev : Event) : Prop :=
  ∀ s m, w.Polls D s m → ¬ (w.step D ev).Polls D s m →
    ∀ f, f ∈ ((w.step D ev).client s.other).outbox ∨ f ∈ (w.step D ev).relay → f.mailboxId ≠ m

/-- The client polls the mailbox of the frame, and the key it selects opens it. -/
def Opens (s : Side) (f : Frame) : Prop :=
  ∃ c ∈ w.contact D s, AddressBook.listensTo f.mailboxId c = true ∧
    ∃ plaintext, decryptAndUnpad D.sodium (Repl.selectedKey c f) f.payload = some plaintext

/-- The client can open the frame now, or as soon as it has read a frame that is on its
way and that it can open now. -/
def Deliverable (s : Side) (f : Frame) : Prop :=
  w.Opens D s f ∨ ∃ g,
    (g ∈ (w.client s.other).outbox ∨ g ∈ w.relay ∨ g ∈ w.incoming s) ∧ w.Opens D s g ∧
      (w.setClient s ((w.client s).onFrameReceived (D.setup s) g)).Opens D s f

end World

namespace Setting

variable {G : Setting} {w : World} {v v' : Network} {ev : Event} {i s : Side}

theorem Rel.addressed (h : G.Rel w v) : v.Addressed := by
  refine ⟨?_, h.dest⟩
  intro s
  obtain ⟨c, hc, -⟩ := h.client s
  exact hc.dest

/-! ## What the network says about mailboxes -/

/-- A client polls the mailboxes of the epochs that its party reads. -/
theorem Rel.polls_iff (hG : G.Honest) (h : G.Rel w v) {ep : Epoch EphemeralKey}
    (hep : G.ValidEpoch ep) :
    w.Polls G.toDuo s (G.sessionOf s ep).rxId ↔ (v.party s).Reads ep := by
  obtain ⟨c, hc, hagrees⟩ := Client.contact h s
  have hcur : c.rxMailboxId = (G.sessionOf s (v.party s).cur).rxId :=
    congrArg DerivedMailboxes.rxId hagrees.session
  have hlistens : AddressBook.listensTo (G.sessionOf s ep).rxId c = true ↔
      (v.party s).Reads ep := by
    unfold AddressBook.listensTo Party.Reads
    rw [Bool.or_eq_true, decide_eq_true_eq, decide_eq_true_eq, hcur,
      hG.rxId_inj hagrees.validCur hep, hagrees.oldId]
    refine or_congr Iff.rfl ?_
    cases hold : (v.party s).old with
    | none => simp
    | some ep' =>
        rw [Option.map_some, Option.some.injEq, Option.some.injEq,
          hG.rxId_inj (hagrees.validOld ep' hold) hep]
  constructor
  · rintro ⟨c', hc', hl⟩
    obtain rfl : c = c' := Option.some.inj (hc.symm.trans hc')
    exact hlistens.mp hl
  · intro hreads
    exact ⟨c, hc, hlistens.mpr hreads⟩

theorem Rel.polls_epoch (h : G.Rel w v) {m : MailboxID} (hm : w.Polls G.toDuo s m) :
    ∃ ep, G.ValidEpoch ep ∧ m = (G.sessionOf s ep).rxId := by
  obtain ⟨c, hc, hagrees⟩ := Client.contact h s
  obtain ⟨c', hc', hl⟩ := hm
  obtain rfl : c = c' := Option.some.inj (hc.symm.trans hc')
  unfold AddressBook.listensTo at hl
  rw [Bool.or_eq_true, decide_eq_true_eq, decide_eq_true_eq] at hl
  rcases hl with hl | hl
  · exact ⟨_, hagrees.validCur, hl.symm.trans (congrArg DerivedMailboxes.rxId hagrees.session)⟩
  · rw [hagrees.oldId, Option.map_eq_some_iff] at hl
    obtain ⟨ep, hold, rfl⟩ := hl
    exact ⟨ep, hagrees.validOld ep hold, rfl⟩

/-- A frame whose epoch is read can be opened. -/
theorem Rel.opens (hG : G.Honest) (h : G.Rel w v) {f : Frame} {p : Message}
    (hf : G.Encodes f p) (hreads : (v.party p.dest).Reads p.epoch) :
    w.Opens G.toDuo p.dest f := by
  obtain ⟨c, hc, hagrees⟩ := Client.contact h p.dest
  exact ⟨c, hc, (listensTo_iff hG hagrees hf rfl).mpr hreads, _,
    decrypt_packet hG hagrees hf rfl hreads⟩

/-! ## The invariant along a run -/

/-- The poll that is excluded at the network is excluded in the system. -/
theorem Rel.fetchesAhead (hG : G.Honest) (h : G.Rel w v) (hconnected : (w.client s).connected = true)
    {ep σ : Epoch EphemeralKey} {x q : Message}
    (hpoll : (w.client s).getNextFrameForCBR.1 = Frame.createPoll (G.sessionOf s ep).rxId)
    (hfind : v.relay.find? (Net.isFor s ep) = some x) (hconfirms : x.body.confirms = true)
    (hcur : (v.party s).cur = ep) (hold : (v.party s).old = some σ) (hq : q ∈ v.relay)
    (hqd : q.dest = s) (hqe : q.epoch = σ) : w.FetchesAhead G.toDuo s := by
  obtain ⟨c, hc, hagrees⟩ := Client.contact h s
  have hrx : c.rxMailboxId = (G.sessionOf s ep).rxId := by
    rw [← hcur]
    exact congrArg DerivedMailboxes.rxId hagrees.session
  refine ⟨hconnected, c, hc, by rw [hrx, hpoll], ?_, (G.sessionOf s σ).rxId, ?_, ?_⟩
  · have hrel := forall₂_find? h.relay
      (fun f m hfm => Rel.inMailbox_eq hG (s := s) (hcur ▸ hagrees.validCur) hfm)
    rw [hfind] at hrel
    unfold World.mailbox
    rw [List.head?_filter, hrx]
    cases hw : w.relay.find? (World.inMailbox (G.sessionOf s ep).rxId) with
    | none =>
        rw [hw] at hrel
        cases hrel
    | some f =>
        rw [hw] at hrel
        cases hrel with
        | some hfx =>
            refine ⟨f, rfl, ?_⟩
            rw [hfx.action]
            cases hb : x.body with
            | receipt content =>
                rw [hb] at hconfirms
                cases hconfirms
            | text content => rfl
            | request e => rfl
            | ack e e' => rfl
  · rw [hagrees.oldId, hold]
    rfl
  · obtain ⟨f, hf, hfq⟩ := forall₂_mem_right h.relay hq
    refine List.ne_nil_of_mem (List.mem_filter.mpr ⟨hf, ?_⟩)
    rw [World.inMailbox, decide_eq_true_eq, hfq.mailbox, hqd, hqe]

theorem initialNetwork_handover (i : Side) : Handover initialNetwork i := by
  have hempty : ∀ p, p ∉ initialNetwork.all := fun p hp => by
    simp [Net.all, initialNetwork] at hp
  refine ⟨initialNetwork_agreement, rfl, rfl, .inl ⟨⟨rfl, ?_, ?_, ?_⟩, ⟨.nil, ?_⟩, ⟨?_, .nil⟩⟩⟩
  · exact fun p hp => absurd hp (hempty p)
  · exact fun p hp => absurd hp (hempty p)
  · exact fun p hp => absurd hp (hempty p)
  · rintro p (hp | hp) <;> cases hp
  · intro p hp
    cases hp

theorem handover_reacts {m : Message} {l : List Message} {p' : Party EphemeralKey Bytes}
    (hv : Handover v i) (haddressed : v.Addressed) (hm : v.incoming s = m :: l)
    (hreacts : G.Reacts s m.body ((v.party s).hear m) p') :
    Handover ((v.take s).set s p') i := by
  have hmem : m ∈ v.incoming s := hm ▸ List.mem_cons_self
  have hmem' : m ∈ v.all := (v.mem_all s).mpr (.inr (.inr (.inr (.inl hmem))))
  have hdest := haddressed.incoming s m hmem
  obtain ⟨dest, epoch, body⟩ := m
  obtain rfl : dest = s := hdest
  cases body with
  | text content =>
      have hhear := hv.hear haddressed hm (by rintro ⟨⟩)
      obtain ⟨content', rfl | rfl⟩ := hreacts
      · exact hhear
      · have hqueue := hhear.queue dest (b := .receipt content') rfl rfl
        rw [Net.queue, Net.set_party_self, Net.set_set] at hqueue
        exact hqueue
  | receipt content =>
      obtain rfl := hreacts
      exact hv.hear haddressed hm (by rintro ⟨⟩)
  | request e =>
      rcases hreacts with rfl | ⟨e', -, rfl⟩
      · exact hv.hear haddressed hm (by rintro ⟨⟩)
      · rw [Party.hear_answer]
        exact hv.answer haddressed hm e'
  | ack e e' =>
      obtain rfl := hreacts
      obtain rfl := hv.ack_dest hmem'
      -- the initiator has no old epoch to give up
      have hold : (v.party dest).old ≠ some epoch := by
        rw [hv.initiator]
        rintro ⟨⟩
      rw [Party.hear_eq_giveUp rfl hold, Party.giveUp_eq_self hv.initiator]
      exact hv.complete haddressed hm

/-- **One event keeps the handover.** -/
theorem Follows.handover (hG : G.Honest) (h : G.Rel w v) (h' : G.Rel (w.step G.toDuo ev) v')
    (hv : Handover v i) (hfollows : G.Follows w v v' ev) (hone : w.OneInitiator G.toDuo i ev)
    (hdrains : w.DrainsOld G.toDuo ev) : Handover v' i := by
  cases ev with
  | send s text =>
      obtain ⟨p₁, p₂, hstarts, hqueues, rfl⟩ := hfollows
      have hpending : p₂.pending = p₁.pending := by
        rcases hqueues with rfl | rfl <;> rfl
      have hp₁ : Handover (v.set s p₁) i := by
        rcases hstarts with rfl | ⟨e, hnone, -, rfl⟩
        · rw [Net.set_party_eq]
          exact hv
        · refine hv.append (hv.agreement.start hnone e) rfl rfl rfl rfl ?_
          intro hs
          -- the client that answers does not start rotations
          have hstarted : w.StartsRotation G.toDuo s text := by
            refine h.startsRotation h' hnone ?_
            rw [Net.set_party_self, hpending]
            exact Option.some_ne_none e
          exact absurd ((hone hstarted).symm.trans hs) (Side.ne_other i)
      rcases hqueues with rfl | rfl
      · exact hp₁
      · have hqueue := hp₁.queue s (b := .text text) rfl rfl
        rw [Net.queue, Net.set_party_self, Net.set_set] at hqueue
        exact hqueue
  | tick s =>
      rcases hfollows with rfl | ⟨-, rfl⟩ | ⟨ep, hreads, hconnected, hpoll, rfl⟩
      · exact hv
      · exact hv.transmit h.addressed s
      · refine hv.poll hreads ?_
        intro x hfind hconfirms hcur σ hold _ q hq hqd hqe
        exact hdrains (h.fetchesAhead hG hconnected hpoll hfind hconfirms hcur hold hq hqd hqe)
  | receive s =>
      rcases hfollows with ⟨-, rfl⟩ | ⟨m, l, hm, ⟨hreads, rfl⟩ | ⟨p', -, hreacts, rfl⟩⟩
      · exact hv
      · exact absurd (hv.reads_incoming h.addressed (hm ▸ List.mem_cons_self)) hreads
      · exact handover_reacts hv h.addressed hm hreacts
  | connect s =>
      obtain rfl := hfollows
      exact hv
  | restart s => exact hone.elim

/-- The initiator changes its epoch only when its rotation is complete. -/
theorem Follows.initiator_cur (h : G.Rel w v) (hv : Handover v i) (hfollows : G.Follows w v v' ev)
    (hone : w.OneInitiator G.toDuo i ev) :
    (v'.party i).cur = (v.party i).cur ∨ (v'.party i).pending = none := by
  cases ev with
  | send s text =>
      obtain ⟨p₁, p₂, hstarts, hqueues, rfl⟩ := hfollows
      left
      rcases Side.eq_or_eq_other s i with rfl | rfl
      · rw [Net.set_party_self]
        rcases hqueues with rfl | rfl <;> rcases hstarts with rfl | ⟨e, -, -, rfl⟩ <;> rfl
      · rw [Net.set_party_other]
  | tick s =>
      left
      rcases hfollows with rfl | ⟨-, rfl⟩ | ⟨ep, -, -, -, rfl⟩
      · rfl
      · exact (v.transmit_party s i).1
      · rw [Net.poll_party]
  | receive s =>
      rcases hfollows with ⟨-, rfl⟩ | ⟨m, l, hm, ⟨-, rfl⟩ | ⟨p', -, hreacts, rfl⟩⟩
      · exact .inl rfl
      · exact .inl rfl
      · rcases Side.eq_or_eq_other s i with rfl | rfl
        · rw [Net.set_party_self]
          have hcur : ((v.party i).hear m).cur = (v.party i).cur := Party.hear_fields.1
          have hmem : m ∈ v.incoming i := hm ▸ List.mem_cons_self
          have hmem' : m ∈ v.all := (v.mem_all i).mpr (.inr (.inr (.inr (.inl hmem))))
          have hdest := h.dest i m hmem
          obtain ⟨dest, epoch, body⟩ := m
          cases body with
          | text content =>
              obtain ⟨content', rfl | rfl⟩ := hreacts
              · exact .inl hcur
              · exact .inl hcur
          | receipt content =>
              obtain rfl := hreacts
              exact .inl hcur
          | request e => exact absurd ((hv.request_dest hmem').symm.trans hdest) (Side.other_ne i)
          | ack e e' =>
              obtain rfl := hreacts
              exact .inr rfl
        · rw [Net.set_party_other]
          exact .inl rfl
  | connect s =>
      obtain rfl := hfollows
      exact .inl rfl
  | restart s => exact hone.elim

/-! ## What is left behind, and what arrives -/

/-- A frame under way to a client that has just stopped polling its mailbox would be in
no epoch of the network. -/
theorem Rel.leavesNothing (hG : G.Honest) (h : G.Rel w v) (h' : G.Rel (w.step G.toDuo ev) v')
    (hv : Handover v i) (hv' : Handover v' i)
    (hcur : (v'.party i).cur = (v.party i).cur ∨ (v'.party i).pending = none) :
    w.LeavesNothing G.toDuo ev := by
  rintro s m hpolls hstops f hf rfl
  obtain ⟨ep, hep, hm⟩ := h.polls_epoch hpolls
  obtain ⟨p, hp, hfp⟩ : ∃ p ∈ v'.all, G.Encodes f p := by
    rcases hf with hf | hf
    · obtain ⟨c, hc, -⟩ := h'.client s.other
      obtain ⟨p, hp, hfp⟩ := forall₂_mem hc.outbox hf
      exact ⟨p, (v'.mem_all s).mpr (.inr (.inl hp)), hfp⟩
    · obtain ⟨p, hp, hfp⟩ := forall₂_mem h'.relay hf
      exact ⟨p, (v'.mem_all s).mpr (.inr (.inr (.inl hp))), hfp⟩
  obtain ⟨rfl, rfl⟩ := hG.distinct _ _ _ _ hfp.epoch hep (hfp.mailbox.symm.trans hm)
  rw [hm] at hpolls hstops
  rcases hv'.reads hp with hreads | ⟨e, e', rfl, -, huneven⟩
  · exact hstops ((h'.polls_iff hG hep).mpr hreads)
  · -- the initiator still waits, so it has not moved on
    have hpending := (hv'.agreement.ahead_of_ack huneven.ack).1.pending
    rcases hcur with hcur | hnone
    · refine hstops ((h'.polls_iff hG hep).mpr (.inl ?_))
      rcases (h.polls_iff hG hep).mp hpolls with hreads | hold
      · exact hcur.trans hreads
      · rw [hv.initiator] at hold
        cases hold
    · rw [hnone] at hpending
      cases hpending

/-- The acknowledgement that is under way is a frame that the initiator can open, and
with which it moves on. -/
theorem Rel.completes (hG : G.Honest) (h : G.Rel w v) (hv : Handover v i) {e e' : EphemeralKey}
    (huneven : Uneven v i e e') : ∃ g,
      (g ∈ (w.client i.other).outbox ∨ g ∈ w.relay ∨ g ∈ w.incoming i) ∧ w.Opens G.toDuo i g ∧
        ∃ v₁, G.Rel (w.setClient i ((w.client i).onFrameReceived (G.setup i) g)) v₁ ∧
          (v₁.party i).cur = Epoch.of i e e' := by
  have hack := huneven.ack
  obtain ⟨hahead, -⟩ := hv.agreement.ahead_of_ack hack
  obtain ⟨g, hg, hga⟩ : ∃ g,
      (g ∈ (w.client i.other).outbox ∨ g ∈ w.relay ∨ g ∈ w.incoming i) ∧
        G.Encodes g ⟨i, (v.party i).cur, .ack e e'⟩ := by
    rcases (v.mem_all i).mp hack with hp | hp | hp | hp | hp
    · exact absurd (h.addressed.out i _ hp) (Side.ne_other i)
    · obtain ⟨c, hc, -⟩ := h.client i.other
      obtain ⟨g, hg, hga⟩ := forall₂_mem_right hc.outbox hp
      exact ⟨g, .inl hg, hga⟩
    · obtain ⟨g, hg, hga⟩ := forall₂_mem_right h.relay hp
      exact ⟨g, .inr (.inl hg), hga⟩
    · obtain ⟨g, hg, hga⟩ := forall₂_mem_right (h.incoming i) hp
      exact ⟨g, .inr (.inr hg), hga⟩
    · exact absurd (h.addressed.incoming _ _ hp) (Side.ne_other i)
  have hreads : (v.party i).Reads (v.party i).cur := .inl rfl
  refine ⟨g, hg, h.opens hG hga hreads, ?_⟩
  obtain ⟨p', hp', hclient⟩ := onFrameReceived_client hG (h.client i) hga rfl (by
    rintro _ _ ⟨⟩
    exact hahead.pending)
  rcases hp' with ⟨hnot, -⟩ | ⟨-, rfl⟩
  · exact absurd hreads hnot
  · refine ⟨_, h.set hclient, ?_⟩
    rw [Net.set_party_self]
    rfl

/-- What is under way can be opened now, or after the acknowledgement. -/
theorem Rel.deliverable (hG : G.Honest) (h : G.Rel w v) (hv : Handover v i) {f : Frame}
    {p : Message} (hfp : G.Encodes f p) (hp : p ∈ v.all) : w.Deliverable G.toDuo p.dest f := by
  rcases hv.reads hp with hreads | ⟨e, e', rfl, hep, huneven⟩
  · exact .inl (h.opens hG hfp hreads)
  · obtain ⟨g, hg, hopens, v₁, h₁, hcur⟩ := h.completes hG hv huneven
    exact .inr ⟨g, hg, hopens, h₁.opens hG hfp (.inl (hcur.trans hep.symm))⟩

/-- **No mailbox is abandoned.** In every run in which only the client `i` starts
rotations and no client polls its current mailbox, with a PUSH to fetch there, before
it has fetched everything from the old one: a client that stops polling a mailbox
leaves nothing behind in it, and in the state reached every frame on its way can be
polled and opened. -/
theorem no_mailbox_abandoned (hG : G.Honest) (hw : G.Established w) {events : List Event}
    (hone : World.Along G.toDuo (fun w => w.OneInitiator G.toDuo i) w events)
    (hdrains : World.Along G.toDuo (World.DrainsOld G.toDuo) w events) :
    World.Along G.toDuo (World.LeavesNothing G.toDuo) w events ∧
      ∀ f s,
        (f ∈ ((World.run G.toDuo w events).client s.other).outbox →
          (World.run G.toDuo w events).Deliverable G.toDuo s f) ∧
        (f ∈ (World.run G.toDuo w events).incoming s →
          (World.run G.toDuo w events).Opens G.toDuo s f) ∧
        (f ∈ (World.run G.toDuo w events).relay →
          ∃ t, (World.run G.toDuo w events).Deliverable G.toDuo t f) := by
  have hstep : ∀ w ev, w.OneInitiator G.toDuo i ev ∧ w.DrainsOld G.toDuo ev →
      (∃ v, G.Rel w v ∧ Handover v i) →
      (∃ v, G.Rel (w.step G.toDuo ev) v ∧ Handover v i) ∧ w.LeavesNothing G.toDuo ev := by
    rintro w ev ⟨hone, hdrains⟩ ⟨v, h, hv⟩
    obtain ⟨v', hfollows, h'⟩ := step_follows hG h (h.expected hv.agreement) ev
      (fun s hs => by subst hs; exact hone.elim)
    have hv' := hfollows.handover hG h h' hv hone hdrains
    exact ⟨⟨v', h', hv'⟩, h.leavesNothing hG h' hv hv' (hfollows.initiator_cur h hv hone)⟩
  have hstart : ∃ v, G.Rel w v ∧ Handover v i := ⟨_, hw.rel, initialNetwork_handover i⟩
  refine ⟨World.Along.of_invariant hstep hstart (hone.and hdrains), ?_⟩
  obtain ⟨v, h, hv⟩ := World.run_induction (fun w ev hev hP => (hstep w ev hev hP).1) hstart
    (hone.and hdrains)
  intro f s
  refine ⟨?_, ?_, ?_⟩
  · intro hf
    obtain ⟨c, hc, -⟩ := h.client s.other
    obtain ⟨p, hp, hfp⟩ := forall₂_mem hc.outbox hf
    have hdest : p.dest = s := (hc.dest p hp).trans (Side.other_other s)
    exact hdest ▸ h.deliverable hG hv hfp ((v.mem_all s).mpr (.inr (.inl hp)))
  · intro hf
    obtain ⟨p, hp, hfp⟩ := forall₂_mem (h.incoming s) hf
    obtain rfl := h.dest s p hp
    exact h.opens hG hfp (hv.reads_incoming h.addressed hp)
  · intro hf
    obtain ⟨p, hp, hfp⟩ := forall₂_mem h.relay hf
    exact ⟨p.dest, h.deliverable hG hv hfp ((v.mem_all .left).mpr (.inr (.inr (.inl hp))))⟩

end Setting

/-! ## Runs -/

/-- Alice rotates, and Bob follows. -/
def bobFollows : List Event := aliceRotates ++ .send .left [3] :: rounds 4

/-- Bob drops the old mailbox on the way and has nothing left to fetch. -/
theorem no_mailbox_abandoned_bob :
    World.Along toyDuo (World.LeavesNothing toyDuo) toyWorld bobFollows ∧
      ∃ c ∈ toyWorld.contact toyDuo .right, toyWorld.Polls toyDuo .right c.rxMailboxId ∧
        ¬ (World.run toyDuo toyWorld bobFollows).Polls toyDuo .right c.rxMailboxId := by
  obtain ⟨hone, hdrains, hdropped⟩ :
      World.Along toyDuo (fun w => w.OneInitiator toyDuo .left) toyWorld bobFollows ∧
        World.Along toyDuo (World.DrainsOld toyDuo) toyWorld bobFollows ∧
        ∃ c ∈ toyWorld.contact toyDuo .right, toyWorld.Polls toyDuo .right c.rxMailboxId ∧
          ¬ (World.run toyDuo toyWorld bobFollows).Polls toyDuo .right c.rxMailboxId := by
    decide +kernel
  exact ⟨(Setting.no_mailbox_abandoned toySetting_honest toySetting_established hone hdrains).1,
    hdropped⟩

/-- Alice's second text sets off a rotation and is still in the outbox when Bob answers.
Bob finds the old mailbox empty, the text gets there, and Alice completes the rotation
and sends a third text, which Bob fetches. -/
def bobOvertakes : List Event :=
  [.send .left [1], .send .left [2], .tick .left, .tick .left,
    .tick .right, .receive .right, .tick .right, .tick .right, .receive .right,
    .tick .right, .tick .right, .tick .left, .tick .left, .receive .left, .tick .left,
    .receive .left, .send .left [3], .tick .left, .tick .right]

/-- **A text is abandoned**: when Bob reads the third text, the client stops polling a
mailbox that has the second one in it. -/
theorem text_abandoned :
    toySetting.Honest ∧ toySetting.Established toyWorld ∧
      World.Along toyDuo (fun w => w.OneInitiator toyDuo .left) toyWorld bobOvertakes ∧
      ∃ f ∈ ((World.run toyDuo toyWorld bobOvertakes).step toyDuo (.receive .right)).relay,
        f.action = .push ∧
          (World.run toyDuo toyWorld bobOvertakes).Polls toyDuo .right f.mailboxId ∧
          ¬ ((World.run toyDuo toyWorld bobOvertakes).step toyDuo (.receive .right)).Polls toyDuo
            .right f.mailboxId := by
  refine ⟨toySetting_honest, toySetting_established, ?_⟩
  decide +kernel

end BlankChat.Session
