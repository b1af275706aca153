import BlankChat.Lib.Rotation

/-!
# Handing over from one epoch to the next

When only one party starts rotations, no packet is ever left behind in an epoch that
its receiver has stopped reading, provided the other party finishes with its old epoch
before it fetches from the new one.

The argument is about order. A party moves on to a new epoch in its outbox, at the
relay every epoch is a queue of its own, and the packets that were fetched are read in
order. `Sent` and `Fetched` say, for the outbox and for what was fetched, that after a
packet of one kind only packets of another kind follow; `Handover` is the invariant,
with the two phases `Even` and `Uneven` of a rotation.
-/

namespace BlankChat.Lib.Rotation

variable {K T : Type}

namespace Net

/-- Packets in an outbox go to the other party, and a party fetches its own. -/
structure Addressed (v : Net K T) : Prop where
  out : ∀ s, ∀ p ∈ (v.party s).out, p.dest = s.other
  incoming : ∀ s, ∀ p ∈ v.incoming s, p.dest = s

theorem mem_all (v : Net K T) (s : Side) {p : Packet K T} :
    p ∈ v.all ↔ p ∈ (v.party s).out ∨ p ∈ (v.party s.other).out ∨ p ∈ v.relay ∨
      p ∈ v.incoming s ∨ p ∈ v.incoming s.other := by
  cases s with
  | left =>
      simp only [all, Multiset.mem_add, Multiset.mem_coe, Side.other]
      tauto
  | right =>
      simp only [all, Multiset.mem_add, Multiset.mem_coe, Side.other]
      tauto

theorem transmit_cases (v : Net K T) (s : Side) :
    v.transmit s = v ∨ ∃ x rest, (v.party s).out = x :: rest ∧
      v.transmit s = { v.set s { v.party s with out := rest } with relay := v.relay ++ [x] } := by
  unfold transmit
  split
  · exact .inl rfl
  · next x rest hout => exact .inr ⟨x, rest, hout, rfl⟩

theorem poll_cases [DecidableEq K] (v : Net K T) (s : Side) (ep : Epoch K) :
    v.poll s ep = v ∨ ∃ x l₁ l₂, v.relay.find? (isFor s ep) = some x ∧
      v.relay = l₁ ++ x :: l₂ ∧ x.dest = s ∧ x.epoch = ep ∧ (∀ q ∈ l₁, q.dest = s → q.epoch ≠ ep) ∧
      v.poll s ep = { v with
        relay := l₁ ++ l₂
        incoming := Function.update v.incoming s (v.incoming s ++ [x]) } := by
  unfold poll
  split
  · exact .inl rfl
  · next x hx =>
      obtain ⟨l₁, l₂, hrelay, herase, hl₁, hfor⟩ := find?_split hx
      obtain ⟨hdest, hep⟩ := decide_eq_true_eq.mp hfor
      refine .inr ⟨x, l₁, l₂, hx, hrelay, hdest, hep, ?_, by rw [herase]⟩
      intro q hq hqs hqe
      have hnot := hl₁ q hq
      rw [isFor, decide_eq_false_iff_not] at hnot
      exact hnot ⟨hqs, hqe⟩

end Net

/-! ## Order -/

/-- In what the party `a` sends to `s`, only `N` comes after `M` in its outbox. -/
structure Sent (v : Net K T) (a s : Side) (M N : Packet K T → Prop) : Prop where
  out : (v.party a).out.Pairwise fun p q => M p → N q
  left : ∀ p, p ∈ v.relay ∨ p ∈ v.incoming s → p.dest = s → M p → ∀ q ∈ (v.party a).out, N q

/-- In what `s` has fetched and will fetch, only `N` comes after `M`. -/
structure Fetched (v : Net K T) (s : Side) (M N : Packet K T → Prop) : Prop where
  relay : ∀ p ∈ v.incoming s, M p → ∀ q ∈ v.relay, q.dest = s → N q
  incoming : (v.incoming s).Pairwise fun p q => M p → N q

section Order

variable {v v' : Net K T} {a s : Side} {M M' N : Packet K T → Prop} {x : Packet K T}

theorem Sent.mono (h : Sent v a s M N) (hout : (v'.party a).out = (v.party a).out)
    (hleft : ∀ p, p ∈ v'.relay ∨ p ∈ v'.incoming s → p.dest = s →
      p ∈ v.relay ∨ p ∈ v.incoming s) : Sent v' a s M N := by
  constructor
  · rw [hout]
    exact h.out
  · intro p hp hdest hM
    rw [hout]
    exact h.left p (hleft p hp hdest) hdest hM

theorem Sent.append (h : Sent v a s M N)
    (hout : (v'.party a).out = (v.party a).out ++ [x]) (hx : N x)
    (hrelay : v'.relay = v.relay) (hincoming : ∀ p ∈ v'.incoming s, p ∈ v.incoming s) :
    Sent v' a s M N := by
  constructor
  · rw [hout, List.pairwise_append]
    refine ⟨h.out, List.pairwise_singleton _ _, ?_⟩
    intro p _ q hq _
    rw [List.mem_singleton.mp hq]
    exact hx
  · intro p hp hdest hM q hq
    have hp' : p ∈ v.relay ∨ p ∈ v.incoming s := by
      rw [hrelay] at hp
      exact hp.imp_right (hincoming p)
    rw [hout, List.mem_append] at hq
    rcases hq with hq | hq
    · exact h.left p hp' hdest hM q hq
    · rw [List.mem_singleton.mp hq]
      exact hx

theorem Sent.transmit (h : Sent v a s M N) : Sent (v.transmit a) a s M N := by
  rcases v.transmit_cases a with heq | ⟨x, rest, hout, heq⟩
  · rw [heq]
    exact h
  · have hordered := h.out
    rw [hout, List.pairwise_cons] at hordered
    rw [heq]
    constructor
    · show ((v.set a _).party a).out.Pairwise _
      rw [Net.set_party_self]
      exact hordered.2
    · intro p hp hdest hM q hq
      replace hq : q ∈ ((v.set a { v.party a with out := rest }).party a).out := hq
      rw [Net.set_party_self] at hq
      have hp' : p ∈ v.relay ++ [x] ∨ p ∈ v.incoming s := hp
      rw [List.mem_append, List.mem_singleton] at hp'
      rcases hp' with (hp' | rfl) | hp'
      · exact h.left p (.inl hp') hdest hM q (hout ▸ List.mem_cons_of_mem _ hq)
      · exact hordered.1 q hq hM
      · exact h.left p (.inr hp') hdest hM q (hout ▸ List.mem_cons_of_mem _ hq)

theorem Fetched.mono (h : Fetched v s M N) (hincoming : (v'.incoming s).Sublist (v.incoming s))
    (hrelay : ∀ q ∈ v'.relay, q.dest = s → q ∈ v.relay) : Fetched v' s M N := by
  constructor
  · intro p hp hM q hq hdest
    exact h.relay p (hincoming.subset hp) hM q (hrelay q hq hdest) hdest
  · exact h.incoming.sublist hincoming

theorem Fetched.transmit (h : Fetched v s M N) (hsent : Sent v a s M' N)
    (hM : ∀ p, M p → M' p) (hv : v.Addressed) : Fetched (v.transmit a) s M N := by
  rcases v.transmit_cases a with heq | ⟨x, rest, hout, heq⟩
  · rw [heq]
    exact h
  · rw [heq]
    refine ⟨?_, h.incoming⟩
    intro p hp hMp q hq hdest
    have hp' : p ∈ v.incoming s := hp
    have hq' : q ∈ v.relay ++ [x] := hq
    rw [List.mem_append, List.mem_singleton] at hq'
    rcases hq' with hq' | rfl
    · exact h.relay p hp' hMp q hq' hdest
    · exact hsent.left p (.inr hp') (hv.incoming s p hp') (hM p hMp) q (hout ▸ List.mem_cons_self)

/-- A packet that is fetched is the last to be fetched of its kind. -/
theorem Fetched.fetch (h : Fetched v s M N) {l₁ l₂ : List (Packet K T)}
    (hrelay : v.relay = l₁ ++ x :: l₂) (hdest : x.dest = s) (hv'r : v'.relay = l₁ ++ l₂)
    (hv'i : v'.incoming s = v.incoming s ++ [x])
    (hlast : M x → ∀ q ∈ l₁ ++ l₂, q.dest = s → N q) : Fetched v' s M N := by
  have hsub : ∀ q ∈ l₁ ++ l₂, q ∈ v.relay := by
    intro q hq
    rw [hrelay]
    rcases List.mem_append.mp hq with hq | hq
    · exact List.mem_append_left _ hq
    · exact List.mem_append_right _ (List.mem_cons_of_mem _ hq)
  constructor
  · intro p hp hM q hq hqdest
    rw [hv'r] at hq
    rw [hv'i, List.mem_append, List.mem_singleton] at hp
    rcases hp with hp | rfl
    · exact h.relay p hp hM q (hsub q hq) hqdest
    · exact hlast hM q hq hqdest
  · rw [hv'i, List.pairwise_append]
    refine ⟨h.incoming, List.pairwise_singleton _ _, ?_⟩
    intro p hp q hq hM
    rw [List.mem_singleton.mp hq]
    exact h.relay p hp hM x (hrelay ▸ List.mem_append_right _ List.mem_cons_self) hdest

end Order

/-! ## The two phases -/

/-- Both parties are in one epoch; only the party that answers still has packets of the
one before coming, and reads them. -/
structure EvenPackets (v : Net K T) (i : Side) : Prop where
  cur : (v.party i.other).cur = (v.party i).cur
  noAck : ∀ p ∈ v.all, ¬ IsAck p
  toInitiator : ∀ p ∈ v.all, p.dest = i → p.epoch = (v.party i).cur
  toOther : ∀ p ∈ v.all, p.dest = i.other → (v.party i.other).Reads p.epoch

/-- The other party has moved on and still reads the epoch of the initiator, which is
told by an acknowledgement. -/
structure UnevenPackets (v : Net K T) (i : Side) (e e' : K) : Prop where
  ack : ⟨i, (v.party i).cur, .ack e e'⟩ ∈ v.all
  moved : (v.party i.other).cur = Epoch.of i e e'
  old : (v.party i.other).old = some (v.party i).cur
  toInitiator : ∀ p ∈ v.all, p.dest = i →
    p.epoch = (v.party i).cur ∨ p.epoch = (v.party i.other).cur
  toOther : ∀ p ∈ v.all, p.dest = i.other → p.epoch = (v.party i).cur

section Packets

variable {v v' : Net K T} {i : Side} {e e' : K}
  (hcur : ∀ s, (v'.party s).cur = (v.party s).cur)
  (hold : (v'.party i.other).old = (v.party i.other).old)

include hcur hold

theorem EvenPackets.mono (h : EvenPackets v i) (hall : ∀ p ∈ v'.all, p ∈ v.all) :
    EvenPackets v' i := by
  refine ⟨by rw [hcur, hcur, h.cur], fun p hp => h.noAck p (hall p hp), ?_, ?_⟩
  · intro p hp hdest
    rw [hcur]
    exact h.toInitiator p (hall p hp) hdest
  · intro p hp hdest
    have hreads := h.toOther p (hall p hp) hdest
    unfold Party.Reads at hreads ⊢
    rw [hcur, hold]
    exact hreads

theorem EvenPackets.append (h : EvenPackets v i) {s : Side} {b : Body K T}
    (hb : b.isAck = false) (hall : v'.all = v.packet s b ::ₘ v.all) : EvenPackets v' i := by
  have hsame : ∀ t, (v.party t).cur = (v.party i).cur := by
    intro t
    rcases Side.eq_or_eq_other i t with rfl | rfl
    · rfl
    · exact h.cur
  have hcases : ∀ p ∈ v'.all, p = v.packet s b ∨ p ∈ v.all := by
    intro p hp
    rw [hall, Multiset.mem_cons] at hp
    exact hp
  refine ⟨by rw [hcur, hcur, h.cur], ?_, ?_, ?_⟩
  · intro p hp hack
    rcases hcases p hp with rfl | hp
    · rw [IsAck, show (v.packet s b).body = b from rfl, hb] at hack
      cases hack
    · exact h.noAck p hp hack
  · intro p hp hdest
    rw [hcur]
    rcases hcases p hp with rfl | hp
    · exact hsame s
    · exact h.toInitiator p hp hdest
  · intro p hp hdest
    unfold Party.Reads
    rw [hcur, hold]
    rcases hcases p hp with rfl | hp
    · exact .inl (h.cur.trans (hsame s).symm)
    · exact h.toOther p hp hdest

theorem UnevenPackets.mono (h : UnevenPackets v i e e') (hall : ∀ p ∈ v'.all, p ∈ v.all)
    (hack : ⟨i, (v.party i).cur, .ack e e'⟩ ∈ v'.all) : UnevenPackets v' i e e' := by
  refine ⟨by rw [hcur]; exact hack, by rw [hcur, h.moved], by rw [hold, hcur, h.old], ?_, ?_⟩
  · intro p hp hdest
    rw [hcur, hcur]
    exact h.toInitiator p (hall p hp) hdest
  · intro p hp hdest
    rw [hcur]
    exact h.toOther p (hall p hp) hdest

theorem UnevenPackets.append (h : UnevenPackets v i e e') {s : Side} {b : Body K T}
    (hall : v'.all = v.packet s b ::ₘ v.all) : UnevenPackets v' i e e' := by
  have hcases : ∀ p ∈ v'.all, p = v.packet s b ∨ p ∈ v.all := by
    intro p hp
    rw [hall, Multiset.mem_cons] at hp
    exact hp
  refine ⟨?_, by rw [hcur, h.moved], by rw [hold, hcur, h.old], ?_, ?_⟩
  · rw [hcur, hall]
    exact Multiset.mem_cons_of_mem h.ack
  · intro p hp hdest
    rw [hcur, hcur]
    rcases hcases p hp with rfl | hp
    · rcases Side.eq_or_eq_other i s with rfl | rfl
      · exact .inl rfl
      · exact .inr rfl
    · exact h.toInitiator p hp hdest
  · intro p hp hdest
    rw [hcur]
    rcases hcases p hp with rfl | hp
    · rcases Side.eq_or_eq_other i s with rfl | rfl
      · rfl
      · exact absurd ((Side.other_other i).symm.trans hdest) (Side.ne_other i)
    · exact h.toOther p hp hdest

end Packets

/-- **Even phase.** The initiator has finished with the old epoch in its outbox before
it uses the new one, and the other party has before it reads the new one. -/
structure Even (v : Net K T) (i : Side) : Prop extends EvenPackets v i where
  sent : Sent v i i.other (fun p => p.epoch = (v.party i).cur)
    (fun p => p.epoch = (v.party i).cur)
  fetched : Fetched v i.other (fun p => p.epoch = (v.party i).cur ∧ p.body.confirms = true)
    (fun p => p.epoch = (v.party i).cur)

/-- **Uneven phase.** The acknowledgement is the last packet of its epoch that goes to
the initiator. -/
structure Uneven (v : Net K T) (i : Side) (e e' : K) : Prop extends UnevenPackets v i e e' where
  incoming : ∀ p ∈ v.incoming i, p.epoch = (v.party i).cur
  sent : Sent v i.other i IsAck (fun p => p.epoch = (v.party i.other).cur)
  fetched : Fetched v i IsAck (fun p => p.epoch = (v.party i.other).cur)
  relay : v.relay.Pairwise fun p q => IsAck p → q.dest = i → q.epoch = (v.party i.other).cur

/-- Only the party `i` starts rotations. -/
structure Handover (v : Net K T) (i : Side) : Prop where
  agreement : Agreement v
  initiator : (v.party i).old = none
  other : (v.party i.other).pending = none
  phase : Even v i ∨ ∃ e e', Uneven v i e e'

namespace Handover

variable {v : Net K T} {i s : Side}

theorem reads_incoming (h : Handover v i) (hv : v.Addressed) {p : Packet K T}
    (hp : p ∈ v.incoming s) : (v.party s).Reads p.epoch := by
  have hdest := hv.incoming s p hp
  have hmem : p ∈ v.all := (v.mem_all s).mpr (.inr (.inr (.inr (.inl hp))))
  rcases h.phase with heven | ⟨e, e', huneven⟩
  · rcases Side.eq_or_eq_other i s with rfl | rfl
    · exact .inl (heven.toInitiator p hmem hdest).symm
    · exact heven.toOther p hmem hdest
  · rcases Side.eq_or_eq_other i s with rfl | rfl
    · exact .inl (huneven.incoming p hp).symm
    · exact .inr (by rw [huneven.old, huneven.toOther p hmem hdest])

/-- **What is under way can be read**, or will be when the acknowledgement that is under
way is read. -/
theorem reads (h : Handover v i) {p : Packet K T} (hp : p ∈ v.all) :
    (v.party p.dest).Reads p.epoch ∨ ∃ e e', p.dest = i ∧ p.epoch = Epoch.of i e e' ∧
      Uneven v i e e' := by
  rcases h.phase with heven | ⟨e, e', huneven⟩
  · rcases Side.eq_or_eq_other i p.dest with hdest | hdest
    · left
      rw [hdest]
      exact .inl (heven.toInitiator p hp hdest).symm
    · left
      rw [hdest]
      exact heven.toOther p hp hdest
  · rcases Side.eq_or_eq_other i p.dest with hdest | hdest
    · rcases huneven.toInitiator p hp hdest with hep | hep
      · left
        rw [hdest]
        exact .inl hep.symm
      · exact .inr ⟨e, e', hdest, hep.trans huneven.moved, huneven⟩
    · left
      rw [hdest]
      exact .inr (by rw [huneven.old, huneven.toOther p hp hdest])

theorem append (h : Handover v i) {p : Party K T} {b : Body K T} (hagree : Agreement (v.set s p))
    (hcur : p.cur = (v.party s).cur) (hold : p.old = (v.party s).old)
    (hout : p.out = (v.party s).out ++ [v.packet s b]) (hb : b.isAck = false)
    (hother : s = i.other → p.pending = none) : Handover (v.set s p) i := by
  have hcur' : ∀ t, ((v.set s p).party t).cur = (v.party t).cur := by
    intro t
    rcases Side.eq_or_eq_other s t with rfl | rfl
    · rw [Net.set_party_self, hcur]
    · rw [Net.set_party_other]
  have hold' : ∀ t, ((v.set s p).party t).old = (v.party t).old := by
    intro t
    rcases Side.eq_or_eq_other s t with rfl | rfl
    · rw [Net.set_party_self, hold]
    · rw [Net.set_party_other]
  have hall : (v.set s p).all = v.packet s b ::ₘ v.all := v.all_set_append s hout
  refine ⟨hagree, (hold' i).trans h.initiator, ?_, ?_⟩
  · by_cases hs : s = i.other
    · subst hs
      rw [Net.set_party_self]
      exact hother rfl
    · rw [Net.set_party_ne _ (Ne.symm hs)]
      exact h.other
  · rcases h.phase with heven | ⟨e, e', huneven⟩
    · refine .inl ⟨heven.toEvenPackets.append hcur' (hold' _) hb hall, ?_, ?_⟩
      · rw [hcur']
        rcases Side.eq_or_eq_other i s with rfl | rfl
        · exact heven.sent.append (x := v.packet s b) (by rw [Net.set_party_self, hout]) rfl rfl
            (fun _ hp => hp)
        · exact heven.sent.mono (by rw [Net.set_party_ne _ (Side.ne_other i)]) (fun _ hp _ => hp)
      · rw [hcur']
        exact heven.fetched.mono (List.Sublist.refl _) (fun _ hq _ => hq)
    · refine .inr ⟨e, e', huneven.toUnevenPackets.append hcur' (hold' _) hall, ?_, ?_, ?_, ?_⟩
      · rw [hcur']
        exact huneven.incoming
      · rw [hcur']
        rcases Side.eq_or_eq_other i s with rfl | rfl
        · exact huneven.sent.mono (by rw [Net.set_party_other]) (fun _ hp _ => hp)
        · exact huneven.sent.append (x := v.packet i.other b) (by rw [Net.set_party_self, hout])
            rfl rfl (fun _ hp => hp)
      · rw [hcur']
        exact huneven.fetched.mono (List.Sublist.refl _) (fun _ hq _ => hq)
      · rw [hcur']
        exact huneven.relay

theorem queue (h : Handover v i) (s : Side) {b : Body K T} (hreq : b.isRequest = false)
    (hack : b.isAck = false) : Handover (v.queue s b) i := by
  refine h.append (h.agreement.queue s hreq hack) rfl rfl rfl hack ?_
  rintro rfl
  exact h.other

theorem request_dest (h : Handover v i) {ep : Epoch K} {e : K}
    (hmem : (⟨s, ep, .request e⟩ : Packet K T) ∈ v.all) : s = i.other := by
  obtain ⟨e₁, hpending, -⟩ := (h.agreement.requests s.other).own _ hmem
    ⟨(Side.other_other s).symm, rfl⟩
  rcases Side.eq_or_eq_other i s with rfl | rfl
  · rw [h.other] at hpending
    cases hpending
  · rfl

theorem ack_dest (h : Handover v i) {ep : Epoch K} {e e' : K}
    (hmem : (⟨s, ep, .ack e e'⟩ : Packet K T) ∈ v.all) : s = i := by
  have hpending := (h.agreement.ahead_of_ack hmem).1.pending
  rcases Side.eq_or_eq_other i s with rfl | rfl
  · rfl
  · rw [h.other] at hpending
    cases hpending

theorem transmit (h : Handover v i) (hv : v.Addressed) (s : Side) : Handover (v.transmit s) i := by
  have hparty := v.transmit_party s
  have hall : ∀ p, p ∈ (v.transmit s).all ↔ p ∈ v.all := fun p => by rw [v.all_transmit]
  -- what the party transmits that is not concerned
  have hdest : ∀ q ∈ (v.transmit s).relay, q.dest ≠ s.other → q ∈ v.relay := by
    intro q hq hne
    rcases v.transmit_cases s with heq | ⟨x, rest, hout, heq⟩
    · exact heq ▸ hq
    · rw [heq] at hq
      rcases List.mem_append.mp hq with hq | hq
      · exact hq
      · rw [List.mem_singleton.mp hq] at hne
        exact absurd (hv.out s x (hout ▸ List.mem_cons_self)) hne
  have hincoming : (v.transmit s).incoming = v.incoming := by
    rcases v.transmit_cases s with heq | ⟨x, rest, hout, heq⟩
    · rw [heq]
    · rw [heq]
      rfl
  have hparty' : ∀ t, t ≠ s → (v.transmit s).party t = v.party t := by
    intro t ht
    rcases v.transmit_cases s with heq | ⟨x, rest, hout, heq⟩
    · rw [heq]
    · rw [heq]
      exact v.set_party_ne ht _
  refine ⟨h.agreement.transmit s, (hparty i).2.1.trans h.initiator, (hparty _).2.2.trans h.other, ?_⟩
  rcases h.phase with heven | ⟨e, e', huneven⟩
  · refine .inl ⟨heven.toEvenPackets.mono (fun t => (hparty t).1) (hparty _).2.1
      (fun p => (hall p).mp), ?_, ?_⟩
    · rw [(hparty i).1]
      rcases Side.eq_or_eq_other i s with rfl | rfl
      · exact heven.sent.transmit
      · refine heven.sent.mono (by rw [hparty' i (Side.ne_other i)]) ?_
        rintro p (hp | hp) hpd
        · exact .inl (hdest p hp (by rw [hpd, Side.other_other]; exact Side.other_ne i))
        · exact .inr (hincoming ▸ hp)
    · rw [(hparty i).1]
      rcases Side.eq_or_eq_other i s with rfl | rfl
      · exact heven.fetched.transmit heven.sent (fun _ hp => hp.1) hv
      · refine heven.fetched.mono (by rw [hincoming]) ?_
        intro q hq hqd
        exact hdest q hq (by rw [hqd, Side.other_other]; exact Side.other_ne i)
  · refine .inr ⟨e, e', huneven.toUnevenPackets.mono (fun t => (hparty t).1) (hparty _).2.1
      (fun p => (hall p).mp) ((hall _).mpr huneven.ack), ?_, ?_, ?_, ?_⟩
    · rw [(hparty i).1, hincoming]
      exact huneven.incoming
    · rw [(hparty _).1]
      rcases Side.eq_or_eq_other i s with rfl | rfl
      · refine huneven.sent.mono (by rw [hparty' _ (Side.other_ne s)]) ?_
        rintro p (hp | hp) hpd
        · exact .inl (hdest p hp (by rw [hpd]; exact Side.ne_other s))
        · exact .inr (hincoming ▸ hp)
      · exact huneven.sent.transmit
    · rw [(hparty _).1]
      rcases Side.eq_or_eq_other i s with rfl | rfl
      · refine huneven.fetched.mono (by rw [hincoming]) ?_
        intro q hq hqd
        exact hdest q hq (by rw [hqd]; exact Side.ne_other s)
      · exact huneven.fetched.transmit huneven.sent (fun _ hp => hp) hv
    · rw [(hparty _).1]
      rcases v.transmit_cases s with heq | ⟨x, rest, hout, heq⟩
      · rw [heq]
        exact huneven.relay
      · rw [heq]
        refine List.pairwise_append.mpr ⟨huneven.relay, List.pairwise_singleton _ _, ?_⟩
        intro p hp q hq hack hqd
        rw [List.mem_singleton.mp hq] at hqd ⊢
        -- an acknowledgement at the relay has left the outbox of the other party
        have hx := hv.out s x (hout ▸ List.mem_cons_self)
        obtain rfl : s = i.other := by
          rcases Side.eq_or_eq_other i s with rfl | rfl
          · exact absurd (hqd.symm.trans hx) (Side.ne_other s)
          · rfl
        have hahead := (h.agreement.ahead_of_ack huneven.ack).1
        have hpeq := hahead.ack p ((v.mem_all i).mpr (.inr (.inr (.inl hp)))) hack
        exact huneven.sent.left p (.inl hp) (by rw [hpeq]) hack x (hout ▸ List.mem_cons_self)

/-- **A poll is safe** when a party does not fetch a packet that confirms its epoch while
there are packets of the old one at the relay. -/
theorem poll [DecidableEq K] (h : Handover v i) {ep : Epoch K} (hreads : (v.party s).Reads ep)
    (hdrained : ∀ x, v.relay.find? (Net.isFor s ep) = some x → x.body.confirms = true →
      (v.party s).cur = ep → ∀ σ, (v.party s).old = some σ → σ ≠ ep →
        ∀ q ∈ v.relay, q.dest = s → q.epoch ≠ σ) : Handover (v.poll s ep) i := by
  have hall : ∀ p, p ∈ (v.poll s ep).all ↔ p ∈ v.all := fun p => by rw [v.all_poll]
  have hagree := h.agreement.poll s ep
  rcases v.poll_cases s ep with heq | ⟨x, l₁, l₂, hfind, hrelay, hdest, hep, hl₁, heq⟩
  · rw [heq]
    exact h
  · have hparty : (v.poll s ep).party = v.party := v.poll_party s ep
    have hrelay' : (v.poll s ep).relay = l₁ ++ l₂ := by rw [heq]
    have hincoming : (v.poll s ep).incoming s = v.incoming s ++ [x] := by
      rw [heq]
      exact Function.update_self ..
    have hincoming' : ∀ t, t ≠ s → (v.poll s ep).incoming t = v.incoming t := by
      intro t ht
      rw [heq]
      exact Function.update_of_ne ht ..
    have hx : x ∈ v.relay := hrelay ▸ List.mem_append_right _ List.mem_cons_self
    have hsub : (l₁ ++ l₂).Sublist v.relay := by
      rw [hrelay]
      exact (List.Sublist.refl l₁).append (List.sublist_cons_self x l₂)
    have hrelaySub : ∀ q ∈ (v.poll s ep).relay, q ∈ v.relay := by
      rw [hrelay']
      exact fun q hq => hsub.subset hq
    have hleft : ∀ t p, p ∈ (v.poll s ep).relay ∨ p ∈ (v.poll s ep).incoming t →
        p ∈ v.relay ∨ p ∈ v.incoming t := by
      rintro t p (hp | hp)
      · exact .inl (hrelaySub p hp)
      · by_cases ht : t = s
        · subst ht
          rw [hincoming, List.mem_append, List.mem_singleton] at hp
          rcases hp with hp | rfl
          · exact .inr hp
          · exact .inl hx
        · rw [hincoming' t ht] at hp
          exact .inr hp
    refine ⟨hagree, by rw [hparty, h.initiator], by rw [hparty, h.other], ?_⟩
    rcases h.phase with heven | ⟨e, e', huneven⟩
    · refine .inl ⟨heven.toEvenPackets.mono (fun t => by rw [hparty]) (by rw [hparty])
        (fun p => (hall p).mp), ?_, ?_⟩
      · rw [hparty]
        exact heven.sent.mono (by rw [hparty]) (fun p hp _ => hleft _ p hp)
      · rw [hparty]
        rcases Side.eq_or_eq_other i s with rfl | rfl
        · exact heven.fetched.mono (by rw [hincoming' _ (Side.other_ne s)])
            (fun q hq _ => hrelaySub q hq)
        · refine heven.fetched.fetch hrelay hdest hrelay' hincoming ?_
          rintro ⟨hxep, hconfirms⟩ q hq hqd
          have hqr := hsub.subset hq
          rcases heven.toOther q ((v.mem_all i).mpr (.inr (.inr (.inl hqr)))) hqd with hcur | hold
          · exact hcur.symm.trans heven.cur
          · by_contra hne
            have hcurEp : (v.party i.other).cur = ep := by rw [heven.cur, ← hxep, hep]
            refine hdrained x hfind hconfirms hcurEp q.epoch hold ?_ q hqr hqd rfl
            rw [← hcurEp, heven.cur]
            exact hne
    · refine .inr ⟨e, e', huneven.toUnevenPackets.mono (fun t => by rw [hparty]) (by rw [hparty])
        (fun p => (hall p).mp) ((hall _).mpr huneven.ack), ?_, ?_, ?_, ?_⟩
      · rw [hparty]
        intro p hp
        rcases Side.eq_or_eq_other i s with rfl | rfl
        · rw [hincoming, List.mem_append, List.mem_singleton] at hp
          rcases hp with hp | rfl
          · exact huneven.incoming p hp
          · rcases hreads with hcur | hold
            · rw [hep, hcur]
            · rw [h.initiator] at hold
              cases hold
        · rw [hincoming' i (Side.ne_other i)] at hp
          exact huneven.incoming p hp
      · rw [hparty]
        exact huneven.sent.mono (by rw [hparty]) (fun p hp _ => hleft _ p hp)
      · rw [hparty]
        rcases Side.eq_or_eq_other i s with rfl | rfl
        · refine huneven.fetched.fetch hrelay hdest hrelay' hincoming ?_
          intro hack q hq hqd
          rcases List.mem_append.mp hq with hq | hq
          · -- a packet that was passed over is of the new epoch
            have hqr : q ∈ v.relay := hrelay ▸ List.mem_append_left _ hq
            rcases huneven.toInitiator q ((v.mem_all s).mpr (.inr (.inr (.inl hqr)))) hqd
              with hcur | hcur
            · refine absurd ?_ (hl₁ q hq hqd)
              rcases hreads with hcur' | hold
              · rw [hcur, hcur']
              · rw [h.initiator] at hold
                cases hold
            · exact hcur
          · have hpair := huneven.relay
            rw [hrelay, List.pairwise_append] at hpair
            exact (List.pairwise_cons.mp hpair.2.1).1 q hq hack hqd
        · exact huneven.fetched.mono (by rw [hincoming' i (Side.ne_other i)])
            (fun q hq _ => hrelaySub q hq)
      · rw [hparty, hrelay']
        exact huneven.relay.sublist hsub

/-! ## Reading -/

section Read

variable {m : Packet K T} {l : List (Packet K T)}

theorem take_incoming (hm : v.incoming s = m :: l) (t : Side) :
    (v.take s).incoming t = if t = s then l else v.incoming t := by
  unfold Net.take
  rw [hm, List.tail_cons]
  by_cases ht : t = s
  · subst ht
    rw [if_pos rfl]
    exact Function.update_self ..
  · rw [if_neg ht]
    exact Function.update_of_ne ht ..

/-- What is left under way to a party after it has read a packet: it is in the outbox of
the other, at the relay or behind the packet. -/
theorem cases_take (hv : v.Addressed) {a : Side} (ha : a = s.other) (hm : v.incoming s = m :: l)
    {p : Packet K T} (hp : p ∈ (v.take s).all) (hdest : p.dest = s) :
    p ∈ (v.party a).out ∨ p ∈ v.relay ∨ p ∈ l := by
  subst ha
  rcases ((v.take s).mem_all s).mp hp with hp | hp | hp | hp | hp
  · exact absurd ((hv.out s p hp).symm.trans hdest) (Side.other_ne s)
  · exact .inl hp
  · exact .inr (.inl hp)
  · rw [take_incoming hm, if_pos rfl] at hp
    exact .inr (.inr hp)
  · rw [take_incoming hm, if_neg (Side.other_ne s)] at hp
    exact absurd ((hv.incoming _ p hp).symm.trans hdest) (Side.other_ne s)

/-- After a packet that confirms the epoch, nothing of the old one is left. -/
theorem even_settled (heven : Even v i) (hv : v.Addressed) (hm : v.incoming i.other = m :: l)
    (hep : m.epoch = (v.party i).cur) (hconfirms : m.body.confirms = true) :
    ∀ p ∈ (v.take i.other).all, p.dest = i.other → p.epoch = (v.party i).cur := by
  intro p hp hdest
  have hmem : m ∈ v.incoming i.other := hm ▸ List.mem_cons_self
  rcases cases_take hv (Side.other_other i).symm hm hp hdest with hp | hp | hp
  · exact heven.sent.left m (.inr hmem) (hv.incoming _ m hmem) hep p hp
  · exact heven.fetched.relay m hmem ⟨hep, hconfirms⟩ p hp hdest
  · have hpair := heven.fetched.incoming
    rw [hm, List.pairwise_cons] at hpair
    exact hpair.1 p hp ⟨hep, hconfirms⟩

theorem mem_take (hm : v.incoming s = m :: l) {p : Packet K T} (hp : p ∈ (v.take s).all) :
    p ∈ v.all := by
  rw [v.all_take hm]
  exact Multiset.mem_cons_of_mem hp

/-- A packet that is no acknowledgement is read, and the old epoch may be given up. -/
theorem hear [DecidableEq K] (h : Handover v i) (hv : v.Addressed) (hm : v.incoming s = m :: l)
    (hnack : ¬ IsAck m) : Handover ((v.take s).set s ((v.party s).hear m)) i := by
  obtain ⟨hcurS, hpendingS, houtS⟩ := Party.hear_fields (p := v.party s) (m := m)
  have hagree := (h.agreement.take hm).hear s m
  have hmem : m ∈ v.incoming s := hm ▸ List.mem_cons_self
  have hall : ((v.take s).set s ((v.party s).hear m)).all = (v.take s).all :=
    (v.take s).all_set_same s houtS
  have hsub : ∀ p ∈ ((v.take s).set s ((v.party s).hear m)).all, p ∈ v.all := by
    intro p hp
    rw [hall] at hp
    exact mem_take hm hp
  have hfields : ∀ t, (((v.take s).set s ((v.party s).hear m)).party t).cur = (v.party t).cur ∧
      (((v.take s).set s ((v.party s).hear m)).party t).pending = (v.party t).pending ∧
      (((v.take s).set s ((v.party s).hear m)).party t).out = (v.party t).out := by
    intro t
    by_cases ht : t = s
    · subst ht
      rw [Net.set_party_self]
      exact ⟨hcurS, hpendingS, houtS⟩
    · rw [Net.set_party_ne _ ht]
      exact ⟨rfl, rfl, rfl⟩
  have hother : ∀ t, t ≠ s → ((v.take s).set s ((v.party s).hear m)).party t = v.party t :=
    fun t ht => Net.set_party_ne _ ht _
  have hincoming : ∀ t, (((v.take s).set s ((v.party s).hear m)).incoming t).Sublist
      (v.incoming t) := by
    intro t
    show ((v.take s).incoming t).Sublist _
    rw [take_incoming hm]
    by_cases ht : t = s
    · subst ht
      rw [if_pos rfl, hm]
      exact List.sublist_cons_self _ _
    · rw [if_neg ht]
  have hleft : ∀ t p, p ∈ v.relay ∨ p ∈ ((v.take s).set s ((v.party s).hear m)).incoming t →
      p ∈ v.relay ∨ p ∈ v.incoming t := fun t p hp => hp.imp_right fun hp => (hincoming t).subset hp
  refine ⟨hagree, ?_, (hfields _).2.1.trans h.other, ?_⟩
  · by_cases hs : i = s
    · subst hs
      rw [Net.set_party_self]
      unfold Party.hear
      split
      · rfl
      · exact h.initiator
    · rw [hother i hs, h.initiator]
  · rcases h.phase with heven | ⟨e, e', huneven⟩
    · refine .inl ⟨?_, ?_, ?_⟩
      · by_cases hself : (v.party s).hear m = v.party s
        · refine heven.toEvenPackets.mono (fun t => (hfields t).1) ?_ hsub
          rw [hself]
          by_cases hs : i.other = s
          · subst hs
            rw [Net.set_party_self]
          · rw [Net.set_party_ne _ hs]
            rfl
        · -- the other party gives up the old epoch
          obtain ⟨hconfirms, hold⟩ : m.body.confirms = true ∧ (v.party s).old ≠ some m.epoch := by
            by_contra hc
            exact hself (if_neg hc)
          obtain rfl : s = i.other := by
            rcases Side.eq_or_eq_other i s with rfl | rfl
            · refine absurd ?_ hself
              rw [Party.hear_eq_giveUp hconfirms hold, Party.giveUp_eq_self h.initiator]
            · rfl
          have hep : m.epoch = (v.party i).cur := by
            rcases heven.toOther m ((v.mem_all i).mpr (.inr (.inr (.inr (.inr hmem)))))
              (hv.incoming _ m hmem) with hcur | hold'
            · exact hcur.symm.trans heven.cur
            · exact absurd hold' hold
          have hsettled := even_settled heven hv hm hep hconfirms
          refine ⟨by rw [(hfields _).1, (hfields _).1, heven.cur],
            fun p hp => heven.noAck p (hsub p hp), ?_, ?_⟩
          · intro p hp hdest
            rw [(hfields i).1]
            exact heven.toInitiator p (hsub p hp) hdest
          · intro p hp hdest
            rw [hall] at hp
            left
            rw [(hfields _).1, heven.cur, hsettled p hp hdest]
      · rw [(hfields i).1]
        exact heven.sent.mono (hfields i).2.2 (fun p hp _ => hleft _ p hp)
      · rw [(hfields i).1]
        exact heven.fetched.mono (hincoming _) (fun q hq _ => hq)
    · have hself : (v.party s).hear m = v.party s := by
        rcases Side.eq_or_eq_other i s with rfl | rfl
        · by_cases hc : m.body.confirms = true ∧ (v.party s).old ≠ some m.epoch
          · rw [Party.hear_eq_giveUp hc.1 hc.2, Party.giveUp_eq_self h.initiator]
          · exact if_neg hc
        · refine Party.hear_eq_self (.inr ?_)
          rw [huneven.old, huneven.toOther m ((v.mem_all i).mpr (.inr (.inr (.inr (.inr hmem)))))
            (hv.incoming _ m hmem)]
      have hack : ⟨i, (v.party i).cur, .ack e e'⟩ ∈
          ((v.take s).set s ((v.party s).hear m)).all := by
        have hmem' := huneven.ack
        rw [v.all_take hm, Multiset.mem_cons] at hmem'
        rw [hall]
        refine hmem'.resolve_left ?_
        rintro rfl
        exact hnack rfl
      have hparty : ∀ t, ((v.take s).set s ((v.party s).hear m)).party t = v.party t := by
        intro t
        rw [hself]
        exact congrFun (congrArg Net.party ((v.take s).set_party_eq s)) t
      refine .inr ⟨e, e', huneven.toUnevenPackets.mono (fun t => (hfields t).1) (by rw [hparty])
        hsub hack, ?_, ?_, ?_, ?_⟩
      · rw [hparty]
        exact fun p hp => huneven.incoming p ((hincoming i).subset hp)
      · rw [hparty]
        exact huneven.sent.mono (hfields _).2.2 (fun p hp _ => hleft _ p hp)
      · rw [hparty]
        exact huneven.fetched.mono (hincoming _) (fun q hq _ => hq)
      · rw [hparty]
        exact huneven.relay

/-- The request of the initiator is answered: the phase becomes uneven. -/
theorem answer (h : Handover v i) (hv : v.Addressed) {ep : Epoch K} {e : K}
    (hm : v.incoming s = ⟨s, ep, .request e⟩ :: l) (e' : K) :
    Handover ((v.take s).answer s e e') i := by
  have hmem : (⟨s, ep, .request e⟩ : Packet K T) ∈ v.incoming s := hm ▸ List.mem_cons_self
  have hmem' : (⟨s, ep, .request e⟩ : Packet K T) ∈ v.all :=
    (v.mem_all s).mpr (.inr (.inr (.inr (.inl hmem))))
  have hreq : RequestFrom s.other (⟨s, ep, .request e⟩ : Packet K T) :=
    ⟨(Side.other_other s).symm, rfl⟩
  obtain ⟨e₁, hpending, heq⟩ := (h.agreement.requests s.other).own _ hmem' hreq
  obtain ⟨-, hep, -⟩ := Packet.mk.inj heq
  -- the other party makes no requests, so it is the one that answers
  obtain rfl : s = i.other := h.request_dest hmem'
  rw [Side.other_other] at hep hreq
  have hagree := h.agreement.answer hm h.other e'
  have heven : Even v i := by
    rcases h.phase with heven | ⟨e₂, e₂', huneven⟩
    · exact heven
    · exact absurd hreq ((h.agreement.ahead_of_ack huneven.ack).1.answered _ hmem')
  have hsettled := even_settled heven hv hm hep rfl
  have hself : ((v.take i.other).answer i.other e e').party i.other =
      (v.party i.other).answer i.other e e' := Net.set_party_self ..
  have hinit : ((v.take i.other).answer i.other e e').party i = v.party i :=
    Net.set_party_ne _ (Side.ne_other i) _
  have hall : ((v.take i.other).answer i.other e e').all =
      v.packet i.other (.ack e e') ::ₘ (v.take i.other).all := (v.take i.other).all_set_append _ rfl
  have hpacket : v.packet i.other (.ack e e') = ⟨i, (v.party i).cur, .ack e e'⟩ := by
    unfold Net.packet Party.packet
    rw [Side.other_other, heven.cur]
  have hcases : ∀ p ∈ ((v.take i.other).answer i.other e e').all,
      p = ⟨i, (v.party i).cur, .ack e e'⟩ ∨ p ∈ (v.take i.other).all := by
    intro p hp
    rw [hall, hpacket, Multiset.mem_cons] at hp
    exact hp
  have hincoming : ((v.take i.other).answer i.other e e').incoming i = v.incoming i := by
    show (v.take i.other).incoming i = _
    rw [take_incoming hm, if_neg (Side.ne_other i)]
  have hrelayAck : ∀ p ∈ v.relay, ¬ IsAck p := fun p hp =>
    heven.noAck p ((v.mem_all i).mpr (.inr (.inr (.inl hp))))
  have hincomingAck : ∀ p ∈ v.incoming i, ¬ IsAck p := fun p hp =>
    heven.noAck p ((v.mem_all i).mpr (.inr (.inr (.inr (.inl hp)))))
  refine ⟨hagree, by rw [hinit, h.initiator], by rw [hself]; exact h.other,
    .inr ⟨e, e', ⟨?_, ?_, ?_, ?_, ?_⟩, ?_, ⟨?_, ?_⟩, ⟨?_, ?_⟩, ?_⟩⟩
  · rw [hinit, hall, hpacket]
    exact Multiset.mem_cons_self _ _
  · rw [hself]
    exact Epoch.of_other i e e'
  · rw [hself, hinit]
    exact congrArg some heven.cur
  · intro p hp hdest
    rw [hinit]
    rcases hcases p hp with rfl | hp
    · exact .inl rfl
    · exact .inl (heven.toInitiator p (mem_take hm hp) hdest)
  · intro p hp hdest
    rw [hinit]
    rcases hcases p hp with rfl | hp
    · rfl
    · exact hsettled p hp hdest
  · intro p hp
    rw [hincoming] at hp
    rw [hinit]
    exact heven.toInitiator p ((v.mem_all i).mpr (.inr (.inr (.inr (.inl hp)))))
      (hv.incoming i p hp)
  · rw [hself]
    refine List.pairwise_append.mpr ⟨?_, List.pairwise_singleton _ _, ?_⟩
    · refine List.pairwise_of_forall_mem_list ?_
      intro p hp q _ hack
      exact absurd hack (heven.noAck p ((v.mem_all i).mpr (.inr (.inl hp))))
    · intro p hp q _ hack
      exact absurd hack (heven.noAck p ((v.mem_all i).mpr (.inr (.inl hp))))
  · rw [hincoming]
    rintro p (hp | hp) _ hack
    · exact absurd hack (hrelayAck p hp)
    · exact absurd hack (hincomingAck p hp)
  · rw [hincoming]
    intro p hp hack
    exact absurd hack (hincomingAck p hp)
  · rw [hincoming]
    refine List.pairwise_of_forall_mem_list ?_
    intro p hp q _ hack
    exact absurd hack (hincomingAck p hp)
  · refine List.pairwise_of_forall_mem_list ?_
    intro p hp q _ hack
    exact absurd hack (hrelayAck p hp)

/-- The acknowledgement is read: the phase becomes even. -/
theorem complete (h : Handover v i) (hv : v.Addressed) {ep : Epoch K} {e e' : K}
    (hm : v.incoming s = ⟨s, ep, .ack e e'⟩ :: l) :
    Handover ((v.take s).complete s e e') i := by
  have hmem : (⟨s, ep, .ack e e'⟩ : Packet K T) ∈ v.incoming s := hm ▸ List.mem_cons_self
  have hmem' : (⟨s, ep, .ack e e'⟩ : Packet K T) ∈ v.all :=
    (v.mem_all s).mpr (.inr (.inr (.inr (.inl hmem))))
  have hagree := h.agreement.complete hm
  obtain ⟨hahead, -⟩ := h.agreement.ahead_of_ack hmem'
  obtain rfl : s = i := h.ack_dest hmem'
  obtain ⟨e₁, e₁', huneven⟩ : ∃ e e', Uneven v s e e' := by
    rcases h.phase with heven | huneven
    · exact absurd rfl (heven.noAck _ hmem')
    · exact huneven
  have hself : ((v.take s).complete s e e').party s = (v.party s).complete s e e' :=
    Net.set_party_self ..
  have hother : ((v.take s).complete s e e').party s.other = v.party s.other :=
    Net.set_party_other ..
  have hall : ((v.take s).complete s e e').all = (v.take s).all := (v.take s).all_set_same s rfl
  have hcur : ((v.party s).complete s e e').cur = (v.party s.other).cur := hahead.moved.symm
  have hto : ∀ p ∈ (v.take s).all, p.dest = s.other → p.epoch = (v.party s).cur :=
    fun p hp => huneven.toOther p (mem_take hm hp)
  have houtTo : ∀ p ∈ (v.party s).out, p.epoch = (v.party s).cur := fun p hp =>
    hto p ((v.take s).mem_all s |>.mpr (.inl hp)) (hv.out s p hp)
  have hincoming : ((v.take s).complete s e e').incoming s.other = v.incoming s.other := by
    show (v.take s).incoming s.other = _
    rw [take_incoming hm, if_neg (Side.other_ne s)]
  have hincomingTo : ∀ p ∈ v.incoming s.other, p.epoch = (v.party s).cur := fun p hp =>
    huneven.toOther p ((v.mem_all s).mpr (.inr (.inr (.inr (.inr hp))))) (hv.incoming _ p hp)
  have hrelayTo : ∀ p ∈ v.relay, p.dest = s.other → p.epoch = (v.party s).cur := fun p hp =>
    huneven.toOther p ((v.mem_all s).mpr (.inr (.inr (.inl hp))))
  refine ⟨hagree, by rw [hself]; exact h.initiator, by rw [hother, h.other],
    .inl ⟨⟨by rw [hother, hself, hcur], ?_, ?_, ?_⟩, ⟨?_, ?_⟩, ⟨?_, ?_⟩⟩⟩
  · rw [hall]
    have honce := hahead.once
    rw [v.all_take hm, Multiset.countP_cons_of_pos _
      (show IsAck (⟨s, ep, .ack e e'⟩ : Packet K T) from rfl)] at honce
    exact Multiset.countP_eq_zero.mp (Nat.le_zero.mp (Nat.le_of_succ_le_succ honce))
  · -- the acknowledgement was the last packet of the old epoch
    intro p hp hdest
    rw [hall] at hp
    rw [hself, hcur]
    rcases cases_take hv rfl hm hp hdest with hp | hp | hp
    · exact huneven.sent.left _ (.inr hmem) rfl rfl p hp
    · exact huneven.fetched.relay _ hmem rfl p hp hdest
    · have hpair := huneven.fetched.incoming
      rw [hm, List.pairwise_cons] at hpair
      exact hpair.1 p hp rfl
  · intro p hp hdest
    rw [hall] at hp
    rw [hother]
    exact .inr (by rw [huneven.old, hto p hp hdest])
  · rw [hself]
    refine List.pairwise_of_forall_mem_list ?_
    intro p hp q hq hep'
    exact (houtTo q hq).trans ((houtTo p hp).symm.trans hep')
  · rw [hself, hincoming]
    rintro p (hp | hp) hdest hep' q hq
    · exact (houtTo q hq).trans ((hrelayTo p hp hdest).symm.trans hep')
    · exact (houtTo q hq).trans ((hincomingTo p hp).symm.trans hep')
  · rw [hself, hincoming]
    rintro p hp ⟨hep', -⟩ q hq hdest
    exact (hrelayTo q hq hdest).trans ((hincomingTo p hp).symm.trans hep')
  · rw [hself, hincoming]
    refine List.pairwise_of_forall_mem_list ?_
    rintro p hp q hq ⟨hep', -⟩
    exact (hincomingTo q hq).trans ((hincomingTo p hp).symm.trans hep')

end Read

end Handover

end BlankChat.Lib.Rotation
