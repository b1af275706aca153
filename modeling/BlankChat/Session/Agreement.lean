import BlankChat.Session.Simulation

/-!
# Agreement of the two sessions

Two clients that start with mirrored sessions rotate their keys as often as they like.
As long as no client reads a rotation request while its own is out, the sessions are
mirrored whenever both clients are idle (`rotations_agree`). A client may even restart,
except between sending its request and reading the acknowledgement
(`restarts_agree`).

Both conditions are needed: `rotations_cross` and `restart_diverges` are runs of two
clients that end idle, with nothing under way, and with sessions that do not fit.
-/

namespace BlankChat.Session

open Lib Lib.Rotation BlankChat.Core Crypto Protocol Client Cli

/-! ## Conditions on runs -/

namespace World

variable (D : Duo) (w : World)

/-- The client is about to read a rotation request while its own is out. -/
def Crosses (s : Side) : Prop :=
  ∃ f ∈ (w.incoming s).head?, f.action = .push ∧
    (w.client s).addressBook.getAliasByRxMailboxId f.mailboxId = D.aliasName s ∧
    ∃ c ∈ w.contact D s, c.pfsState = .rotationRequested ∧
      ∃ plaintext ∈ decryptAndUnpad D.sodium (Repl.selectedKey c f) f.payload,
        extractOpcode plaintext = some .pfsRotateRequest

instance (s : Side) : Decidable (w.Crosses D s) := inferInstanceAs (Decidable (∃ _, _))

/-- No restart, and nobody reads a rotation request while the own one is out. -/
def Apart : Event → Prop
  | .receive s => ¬ w.Crosses D s
  | .restart _ => False
  | _ => True

instance : (ev : Event) → Decidable (w.Apart D ev)
  | .receive _ => inferInstanceAs (Decidable (¬ _))
  | .restart _ => inferInstanceAs (Decidable False)
  | .send .. | .tick _ | .connect _ => inferInstanceAs (Decidable True)

/-- The text sets off a rotation. -/
def StartsRotation (s : Side) (text : Bytes) : Prop :=
  (∃ c ∈ w.contact D s, c.pfsState = .idle) ∧
    ∃ c ∈ (w.step D (.send s text)).contact D s, c.pfsState = .rotationRequested

/-- A rotation starts only while both clients are idle. -/
def Exclusive : Event → Prop
  | .send s text => w.StartsRotation D s text → w.Idle D
  | _ => True

instance (s : Side) (text : Bytes) : Decidable (w.StartsRotation D s text) :=
  inferInstanceAs (Decidable (_ ∧ _))

instance : (ev : Event) → Decidable (w.Exclusive D ev)
  | .send .. => inferInstanceAs (Decidable (_ → _))
  | .receive _ | .restart _ | .tick _ | .connect _ => inferInstanceAs (Decidable True)

/-- The rotation request of the client is in its outbox. -/
def RequestUnsent (s : Side) : Prop :=
  ∃ c ∈ w.contact D s, ∃ f ∈ (w.client s).outbox, f.action = .push ∧
    f.mailboxId = c.txMailboxId ∧ ∃ plaintext ∈ decryptAndUnpad D.sodium c.txKey f.payload,
      extractOpcode plaintext = some .pfsRotateRequest

/-- A client restarts only while it is idle or its request has not left yet. -/
def RestartsEarly : Event → Prop
  | .restart s => (∃ c ∈ w.contact D s, c.pfsState = .idle) ∨ w.RequestUnsent D s
  | _ => True

instance : (ev : Event) → Decidable (w.RestartsEarly D ev)
  | .restart s =>
      have : Decidable (w.RequestUnsent D s) := inferInstanceAs (Decidable (∃ _, _))
      inferInstanceAs (Decidable (_ ∨ _))
  | .send .. | .receive _ | .tick _ | .connect _ => inferInstanceAs (Decidable True)

end World

namespace Setting

variable {G : Setting} {w : World} {v v' : Network} {ev : Event}

/-! ## The start -/

variable (G) in
/-- The contact of a client after the initial handshake. -/
def establishedContact (s : Side) (counter : UInt32) : Contact where
  aliasName := G.aliasName s
  publicKey := (G.identity s.other).publicKey
  note := G.note s
  rxMailboxId := (G.sessionOf s .initial).rxId
  txMailboxId := (G.sessionOf s .initial).txId
  rxKey := (G.sessionOf s .initial).rxKey
  txKey := (G.sessionOf s .initial).txKey
  initialPfsComplete := true
  messageCounter := counter

variable (G) in
/-- Each client knows the other, both have the initial session, and nothing is under
way. -/
structure Established (w : World) : Prop where
  contacts : ∀ s, ∃ counter, (w.client s).addressBook.contacts =
    AList.singleton (G.aliasName s) (G.establishedContact s counter)
  file : ∀ s, ∃ counter, (w.client s).addressBook.file =
    syncContactsToDisk [G.establishedContact s counter]
  aliases : ∀ s, (w.client s).connected = true → (w.client s).contactAliases = [G.aliasName s]
  draws : ∀ s, G.firstDraw s ≤ (w.client s).keyDraws
  outbox : ∀ s, (w.client s).outbox = []
  relay : w.relay = []
  incoming : ∀ s, w.incoming s = []

/-- The network at the start. -/
def initialNetwork : Network where
  party := fun _ => { cur := .initial }

theorem Established.rel (h : G.Established w) : G.Rel w initialNetwork := by
  refine ⟨?_, ?_, ?_, ?_⟩
  · intro s
    obtain ⟨counter, hc⟩ := h.contacts s
    obtain ⟨counter₀, hfile⟩ := h.file s
    refine ⟨G.establishedContact s counter, ?_, ?_⟩
    · refine ⟨hc, ⟨_, hfile, rfl⟩, h.aliases s, h.draws s, ?_, fun _ hq => by cases hq⟩
      rw [h.outbox s]
      exact .nil
    · exact ⟨rfl, rfl, rfl, rfl, rfl, rfl, rfl, rfl, rfl, trivial, fun _ hep => (by cases hep),
        fun _ hk => (by cases hk)⟩
  · rw [h.relay]
    exact .nil
  · intro s
    rw [h.incoming s]
    exact .nil
  · intro s m hm
    cases hm

theorem initialNetwork_agreement : Agreement initialNetwork := by
  have hempty : ∀ p, p ∉ initialNetwork.all := fun p hp => by
    simp [Net.all, initialNetwork] at hp
  exact ⟨fun s => .of_none fun p hp => absurd hp (hempty p),
    .inl ⟨rfl, fun p hp => absurd hp (hempty p)⟩⟩

/-! ## What a related network says about the clients -/

theorem Client.contact (h : G.Rel w v) (s : Side) :
    ∃ c, w.contact G.toDuo s = some c ∧ G.Agrees s c (v.party s) := by
  obtain ⟨c, hc, hagrees⟩ := h.client s
  exact ⟨c, hc.getContact, hagrees⟩

theorem Rel.pending_none (h : G.Rel w v) {s : Side} {c : Contact}
    (hc : w.contact G.toDuo s = some c) (hidle : c.pfsState = .idle) :
    (v.party s).pending = none := by
  obtain ⟨c', hc', hagrees⟩ := Client.contact h s
  obtain rfl := Option.some.inj (hc.symm.trans hc')
  exact hagrees.idle_iff.mp hidle

theorem Rel.mirrored (h : G.Rel w v) (hv : Agreement v) (hidle : w.Idle G.toDuo) :
    w.Mirrored G.toDuo := by
  have hpending : ∀ s, (v.party s).pending = none := by
    intro s
    obtain ⟨c, hc, hstate⟩ := hidle s
    exact h.pending_none hc hstate
  have hcur := hv.idle hpending
  obtain ⟨c, hc, hagrees⟩ := Client.contact h .left
  obtain ⟨c', hc', hagrees'⟩ := Client.contact h .right
  refine ⟨c, hc, c', hc', ?_⟩
  rw [hagrees.session, hagrees'.session, hcur]
  rfl

/-- Acknowledgements reach the client whose request they answer. -/
theorem Rel.expected (h : G.Rel w v) (hv : Agreement v) : Expected v := by
  intro s m l hm e e' hb
  have hdest := h.dest s m (hm ▸ List.mem_cons_self)
  have hmem : (⟨s, m.epoch, .ack e e'⟩ : Message) ∈ v.all := by
    rw [v.all_take hm, ← hdest, ← hb]
    exact Multiset.mem_cons_self _ _
  exact (hv.ahead_of_ack hmem).1.pending

/-! ## Agreement along a run -/

/-- A party that reacts to a packet keeps the agreement, unless it answers a request
while its own is out. -/
theorem agreement_reacts {s : Side} {m : Message} {l : List Message}
    {p' : Party EphemeralKey Bytes} (hv : Agreement v) (hm : v.incoming s = m :: l)
    (hdest : m.dest = s) (hreacts : G.Reacts s m.body ((v.party s).hear m) p')
    (hidle : ∀ e, m.body = .request e → (v.party s).pending = none) :
    Agreement ((v.take s).set s p') := by
  have hhear := (hv.take hm).hear s m
  obtain ⟨dest, epoch, body⟩ := m
  obtain rfl : dest = s := hdest
  cases body with
  | text content =>
      obtain ⟨content', rfl | rfl⟩ := hreacts
      · exact hhear
      · have hqueue := hhear.queue dest (b := .receipt content') rfl rfl
        rw [Net.queue, Net.set_party_self, Net.set_set] at hqueue
        exact hqueue
  | receipt content =>
      obtain rfl := hreacts
      exact hhear
  | request e =>
      rcases hreacts with rfl | ⟨e', -, rfl⟩
      · exact hhear
      · rw [Party.hear_answer]
        exact hv.answer hm (hidle e rfl) e'
  | ack e e' =>
      obtain rfl := hreacts
      have hcomplete := (hv.complete hm).hear dest ⟨dest, epoch, .ack e e'⟩
      rw [Net.complete, Net.set_party_self, Net.set_set, ← Party.hear_complete] at hcomplete
      exact hcomplete

/-- **One event keeps the agreement** if no request is answered by a client whose own
is out, and no client restarts whose request is out. -/
theorem Follows.agreement (h : G.Rel w v) (hv : Agreement v) (hfollows : G.Follows w v v' ev)
    (hidle : ∀ s m l e, ev = .receive s → v.incoming s = m :: l → (v.party s).Reads m.epoch →
      m.body = .request e → (v.party s).pending = none)
    (hearly : ∀ s, ev = .restart s →
      (v.party s).pending = none ∨ ∃ p ∈ (v.party s).out, RequestFrom s p) :
    Agreement v' := by
  cases ev with
  | send s text =>
      obtain ⟨p₁, p₂, hstarts, hqueues, rfl⟩ := hfollows
      have hp₁ : Agreement (v.set s p₁) := by
        rcases hstarts with rfl | ⟨e, hnone, -, rfl⟩
        · rw [Net.set_party_eq]
          exact hv
        · exact hv.start hnone e
      rcases hqueues with rfl | rfl
      · exact hp₁
      · have hqueue := hp₁.queue s (b := .text text) rfl rfl
        rw [Net.queue, Net.set_party_self, Net.set_set] at hqueue
        exact hqueue
  | tick s =>
      rcases hfollows with rfl | ⟨-, rfl⟩ | ⟨ep, -, -, -, rfl⟩
      · exact hv
      · exact hv.transmit s
      · exact hv.poll s ep
  | receive s =>
      rcases hfollows with ⟨-, rfl⟩ | ⟨m, l, hm, ⟨-, rfl⟩ | ⟨p', hreads, hreacts, rfl⟩⟩
      · exact hv
      · exact hv.take hm
      · exact agreement_reacts hv hm (h.dest s m (hm ▸ List.mem_cons_self)) hreacts
          (fun e he => hidle s m l e rfl hm hreads he)
  | connect s =>
      obtain rfl := hfollows
      exact hv
  | restart s =>
      obtain rfl := hfollows
      exact hv.restart (hearly s rfl)

theorem Rel.crosses (hG : G.Honest) (h : G.Rel w v) {s : Side} {m : Message} {l : List Message}
    {e : EphemeralKey} (hm : v.incoming s = m :: l) (hreads : (v.party s).Reads m.epoch)
    (hb : m.body = .request e) (hpending : (v.party s).pending ≠ none) :
    w.Crosses G.toDuo s := by
  obtain ⟨c, hc, hagrees⟩ := h.client s
  have hincoming := h.incoming s
  rw [hm] at hincoming
  obtain ⟨f, rest, hfm, -, hf⟩ := List.forall₂_cons_right_iff.mp hincoming
  have hdest := h.dest s m (hm ▸ List.mem_cons_self)
  refine ⟨f, by rw [hf]; rfl, ?_, ?_, c, hc.getContact, ?_, G.plain s.other m.body,
    decrypt_packet hG hagrees hfm hdest hreads, ?_⟩
  · rw [hfm.action, hb]
    rfl
  · rw [AddressBook.getAliasByRxMailboxId_single hc.contacts,
      (listensTo_iff hG hagrees hfm hdest).mpr hreads, if_pos rfl]
  · rw [hagrees.state, if_pos (Option.isSome_iff_ne_none.mpr hpending)]
  · rw [hb]
    rfl

/-- **Rotations agree.** In every run of two clients over a lossless FIFO relay in which
nobody reads a rotation request while the own one is out, the sessions are mirrored
whenever both clients are idle. -/
theorem rotations_agree (hG : G.Honest) (hw : G.Established w) {events : List Event}
    (h : World.Along G.toDuo (World.Apart G.toDuo) w events)
    (hidle : (World.run G.toDuo w events).Idle G.toDuo) :
    (World.run G.toDuo w events).Mirrored G.toDuo := by
  obtain ⟨v, hrel, hv⟩ : ∃ v, G.Rel (World.run G.toDuo w events) v ∧ Agreement v := by
    refine World.run_induction (P := fun w => ∃ v, G.Rel w v ∧ Agreement v) ?_
      ⟨_, hw.rel, initialNetwork_agreement⟩ h
    rintro w ev hev ⟨v, hrel, hv⟩
    obtain ⟨v', hfollows, hrel'⟩ := step_follows hG hrel (hrel.expected hv) ev
      (fun s hs => by subst hs; exact hev.elim)
    refine ⟨v', hrel', hfollows.agreement hrel hv ?_ ?_⟩
    · rintro s m l e rfl hm hreads hb
      by_contra hpending
      exact hev (hrel.crosses hG hm hreads hb hpending)
    · rintro s rfl
      exact hev.elim
  exact hrel.mirrored hv hidle

/-! ## Restarts -/

theorem Follows.pending_none {t : Side} (hfollows : G.Follows w v v' ev)
    (hnone : (v.party t).pending = none) (hsend : ∀ text, ev ≠ .send t text) :
    (v'.party t).pending = none := by
  cases ev with
  | send s text =>
      obtain ⟨p₁, p₂, -, -, rfl⟩ := hfollows
      rcases Side.eq_or_eq_other s t with rfl | rfl
      · exact absurd rfl (hsend text)
      · rw [Net.set_party_other, hnone]
  | tick s =>
      rcases hfollows with rfl | ⟨-, rfl⟩ | ⟨ep, -, -, -, rfl⟩
      · exact hnone
      · rw [(v.transmit_party s t).2.2, hnone]
      · rw [Net.poll_party, hnone]
  | receive s =>
      rcases hfollows with ⟨-, rfl⟩ | ⟨m, l, hm, ⟨-, rfl⟩ | ⟨p', -, hreacts, rfl⟩⟩
      · exact hnone
      · exact hnone
      · rcases Side.eq_or_eq_other s t with rfl | rfl
        · rw [Net.set_party_self]
          have hhear : ((v.party t).hear m).pending = none := Party.hear_fields.2.1.trans hnone
          cases hb : m.body with
          | text content =>
              rw [hb] at hreacts
              obtain ⟨content', rfl | rfl⟩ := hreacts
              · exact hhear
              · exact hhear
          | receipt content =>
              rw [hb] at hreacts
              obtain rfl := hreacts
              exact hhear
          | request e =>
              rw [hb] at hreacts
              rcases hreacts with rfl | ⟨e', -, rfl⟩
              · exact hhear
              · exact hhear
          | ack e e' =>
              rw [hb] at hreacts
              obtain rfl := hreacts
              rfl
        · rw [Net.set_party_other]
          exact hnone
  | connect s =>
      obtain rfl := hfollows
      exact hnone
  | restart s =>
      obtain rfl := hfollows
      rcases Side.eq_or_eq_other s t with rfl | rfl
      · show ((v.set t (v.party t).restart).party t).pending = none
        rw [Net.set_party_self]
        rfl
      · show ((v.set s (v.party s).restart).party s.other).pending = none
        rw [Net.set_party_other, hnone]

theorem Rel.startsRotation {t : Side} {text : Bytes} (h : G.Rel w v)
    (h' : G.Rel (w.step G.toDuo (.send t text)) v') (ht : (v.party t).pending = none)
    (ht' : (v'.party t).pending ≠ none) : w.StartsRotation G.toDuo t text := by
  obtain ⟨c, hc, hagrees⟩ := Client.contact h t
  obtain ⟨c', hc', hagrees'⟩ := Client.contact h' t
  refine ⟨⟨c, hc, hagrees.idle_iff.mpr ht⟩, c', hc', ?_⟩
  rw [hagrees'.state, if_pos (Option.isSome_iff_ne_none.mpr ht')]

/-- One of the parties waits for nothing. -/
def OneIdle (v : Network) : Prop := ∃ t, (v.party t).pending = none

theorem Follows.oneIdle (h : G.Rel w v) (h' : G.Rel (w.step G.toDuo ev) v')
    (hfollows : G.Follows w v v' ev) (hexclusive : w.Exclusive G.toDuo ev) (hone : OneIdle v) :
    OneIdle v' := by
  obtain ⟨t, ht⟩ := hone
  by_cases hsend : ∃ text, ev = .send t text
  · obtain ⟨text, rfl⟩ := hsend
    by_cases ht' : (v'.party t).pending = none
    · exact ⟨t, ht'⟩
    · -- the send has started a rotation, so the other client is idle
      obtain ⟨c₁, hc₁, hidle⟩ := hexclusive (h.startsRotation h' ht ht') t.other
      refine ⟨t.other, hfollows.pending_none (h.pending_none hc₁ hidle) ?_⟩
      intro text' heq
      exact Side.ne_other t (Event.send.inj heq).1
  · exact ⟨t, hfollows.pending_none ht fun text heq => hsend ⟨text, heq⟩⟩

theorem Rel.requestUnsent (hG : G.Honest) (h : G.Rel w v) {s : Side}
    (hunsent : w.RequestUnsent G.toDuo s) : ∃ p ∈ (v.party s).out, RequestFrom s p := by
  obtain ⟨c, hc, hagrees⟩ := h.client s
  obtain ⟨c', hc', f, hf, hpush, hmailbox, plaintext, hdec, hopcode⟩ := hunsent
  obtain rfl : c = c' := Option.some.inj (hc.getContact.symm.trans hc')
  obtain ⟨p, hp, hfp⟩ := forall₂_mem hc.outbox hf
  have hdest := hc.dest p hp
  -- the frame is in the current tx mailbox, so the packet is in the current epoch
  have hsession : G.sessionOf s.other (v.party s).cur = (session c).swap := by
    rw [sessionOf_other, hagrees.session]
  have hepoch : p.epoch = (v.party s).cur := by
    refine (hG.rxId_inj (s := s.other) hfp.epoch hagrees.validCur).mp ?_
    rw [hsession, ← hdest, ← hfp.mailbox, hmailbox]
    rfl
  obtain ⟨nonce, hct⟩ := hfp.payload
  rw [hdest, hepoch, hsession, Side.other_other] at hct
  have hplain := decryptAndUnpad_encryptWithPadding hG.aead hct
  obtain rfl : plaintext = G.plain s p.body := Option.some.inj (hdec.symm.trans hplain)
  refine ⟨p, hp, hdest, ?_⟩
  cases hb : p.body with
  | request e => rfl
  | text content =>
      rw [hb] at hopcode
      cases hopcode
  | ack e e' =>
      rw [hb] at hopcode
      cases hopcode
  | receipt content =>
      rw [hfp.action, hb] at hpush
      cases hpush

/-- **Rotations agree across restarts.** In every run in which a rotation starts only
while both clients are idle, and a client restarts only while it is idle or its request
has not left yet, the sessions are mirrored whenever both clients are idle. -/
theorem restarts_agree (hG : G.Honest) (hread : G.Readable) (hw : G.Established w)
    {events : List Event} (hexclusive : World.Along G.toDuo (World.Exclusive G.toDuo) w events)
    (hearly : World.Along G.toDuo (World.RestartsEarly G.toDuo) w events)
    (hidle : (World.run G.toDuo w events).Idle G.toDuo) :
    (World.run G.toDuo w events).Mirrored G.toDuo := by
  obtain ⟨v, hrel, hv, -⟩ : ∃ v, G.Rel (World.run G.toDuo w events) v ∧ Agreement v ∧
      OneIdle v := by
    refine World.run_induction (P := fun w => ∃ v, G.Rel w v ∧ Agreement v ∧ OneIdle v) ?_
      ⟨_, hw.rel, initialNetwork_agreement, .left, rfl⟩ (hexclusive.and hearly)
    rintro w ev ⟨hexclusive, hearly⟩ ⟨v, hrel, hv, hone⟩
    obtain ⟨v', hfollows, hrel'⟩ := step_follows hG hrel (hrel.expected hv) ev (fun _ _ => hread)
    refine ⟨v', hrel', hfollows.agreement hrel hv ?_ ?_, hfollows.oneIdle hrel hrel' hexclusive hone⟩
    · -- whoever sent the request waits, so the reader does not
      rintro s m l e rfl hm hreads hb
      have hdest := hrel.dest s m (hm ▸ List.mem_cons_self)
      have hmem : m ∈ v.all := v.all_take hm ▸ Multiset.mem_cons_self _ _
      obtain ⟨e', he', -⟩ := (hv.requests s.other).own m hmem
        ⟨hdest.trans (Side.other_other s).symm, by rw [hb]; rfl⟩
      obtain ⟨t, ht⟩ := hone
      rcases Side.eq_or_eq_other s t with rfl | rfl
      · exact ht
      · rw [he'] at ht
        cases ht
    · rintro s rfl
      rcases hearly with ⟨c, hc, hstate⟩ | hunsent
      · exact .inl (hrel.pending_none hc hstate)
      · exact .inr (hrel.requestUnsent hG hunsent)
  exact hrel.mirrored hv hidle

end Setting

/-! ## Runs -/

/-- The toy duo with the session of its initial handshake. -/
def toySetting : Setting where
  toDuo := toyDuo
  initial := deriveMailboxes transparent (List.Vector.map₂ (· + ·) (toyKey 16) (toyKey 64))
    (toyKey 16) (toyKey 64)
  firstDraw := fun _ => 1
  note := fun _ => none

/-- The first byte of the key pair with the number `i`. -/
def toyByte (s : Side) (i : Fin 32) : UInt8 :=
  match s with
  | .left => 16 + UInt8.ofNat i
  | .right => 64 + UInt8.ofNat i

theorem toyByte_inj : ∀ s t i j, toyByte s i = toyByte t j → s = t ∧ i = j := by
  intro s t
  cases s <;> cases t <;> decide +kernel

theorem toySetting_drawn {s : Side} {k : EphemeralKey} (h : toySetting.DrawnBy s k) :
    ∃ i, i ≠ 0 ∧ k = ⟨toyKey (toyByte s i), toyKey (toyByte s i)⟩ := by
  obtain ⟨n, hn, hk⟩ := h
  have hne : ∀ hlt : n < 32, (⟨n, hlt⟩ : Fin 32) ≠ 0 := fun hlt heq =>
    absurd (congrArg Fin.val heq) (Nat.one_le_iff_ne_zero.mp hn)
  cases s with
  | left =>
      obtain ⟨hlt, rfl⟩ := toySetup_keypair (show (toySetup 1 16 1).tape.keypair n = some k from hk)
      exact ⟨⟨n, hlt⟩, hne hlt, rfl⟩
  | right =>
      obtain ⟨hlt, rfl⟩ := toySetup_keypair (show (toySetup 2 64 0).tape.keypair n = some k from hk)
      exact ⟨⟨n, hlt⟩, hne hlt, rfl⟩

/-- An epoch is told by the numbers of its key pairs, and they show in the mailboxes. -/
theorem toySetting_epoch {ep : Epoch EphemeralKey} (h : toySetting.ValidEpoch ep) :
    ∃ i j, (∀ s, (toySetting.sessionOf s ep).rxId.toList.getD 1 0 =
        toyByte s.other (if s = .left then j else i)) ∧
      (∀ s, (toySetting.sessionOf s ep).rxId.toList.getD 2 0 =
        toyByte s (if s = .left then i else j)) ∧
      ((ep = .initial ∧ i = 0 ∧ j = 0) ∨
        (i ≠ 0 ∧ j ≠ 0 ∧ ep = .exchange ⟨toyKey (toyByte .left i), toyKey (toyByte .left i)⟩
          ⟨toyKey (toyByte .right j), toyKey (toyByte .right j)⟩)) := by
  cases ep with
  | initial =>
      refine ⟨0, 0, ?_, ?_, .inl ⟨rfl, rfl, rfl⟩⟩
      · intro s
        cases s <;> exact (transparent_mailbox _ _ _).1
      · intro s
        cases s <;> exact (transparent_mailbox _ _ _).2
  | exchange l r =>
      obtain ⟨i, hi, rfl⟩ := toySetting_drawn h.1
      obtain ⟨j, hj, rfl⟩ := toySetting_drawn h.2
      refine ⟨i, j, ?_, ?_, .inr ⟨hi, hj, rfl⟩⟩
      · intro s
        cases s <;> exact (transparent_mailbox _ _ _).1
      · intro s
        cases s <;> exact (transparent_mailbox _ _ _).2

/-- The transparent library keeps its promises to the toy clients. -/
theorem toySetting_honest : toySetting.Honest where
  aead := transparent_aeadCorrect
  agree := by
    intro l r hl hr
    obtain ⟨i, -, rfl⟩ := toySetting_drawn hl
    obtain ⟨j, -, rfl⟩ := toySetting_drawn hr
    exact ⟨_, rfl, transparent_scalarmult_comm _ _⟩
  verify := by
    intro s m
    cases s <;> exact decide_eq_true rfl
  distinct := by
    intro s t ep ep' hep hep' hid
    obtain ⟨i, j, h₁, h₂, hij⟩ := toySetting_epoch hep
    obtain ⟨i', j', h₁', h₂', hij'⟩ := toySetting_epoch hep'
    have hone := (h₁ s).symm.trans ((congrArg (fun v => v.toList.getD 1 0) hid).trans (h₁' t))
    have htwo := (h₂ s).symm.trans ((congrArg (fun v => v.toList.getD 2 0) hid).trans (h₂' t))
    obtain ⟨rfl, htwo⟩ := toyByte_inj _ _ _ _ htwo
    obtain ⟨-, hone⟩ := toyByte_inj _ _ _ _ hone
    have heq : i = i' ∧ j = j' := by
      cases s with
      | left => exact ⟨htwo, hone⟩
      | right => exact ⟨hone, htwo⟩
    obtain ⟨rfl, rfl⟩ := heq
    refine ⟨rfl, ?_⟩
    rcases hij with ⟨rfl, rfl, -⟩ | ⟨hi, -, rfl⟩ <;> rcases hij' with ⟨rfl, hi', -⟩ | ⟨hi', -, rfl⟩
    · rfl
    · exact absurd rfl hi'
    · exact absurd hi' hi
    · rfl
  named := by
    intro s
    cases s <;> decide

theorem toyWorld_client (s : Side) :
    (toyWorld.client s).addressBook.contacts.entries =
        [⟨toySetting.aliasName s, toySetting.establishedContact s 0⟩] ∧
      (toyWorld.client s).addressBook.file =
        syncContactsToDisk [toySetting.establishedContact s 0] ∧
      (toyWorld.client s).contactAliases = [toySetting.aliasName s] ∧
      1 ≤ (toyWorld.client s).keyDraws ∧ (toyWorld.client s).outbox = [] := by
  cases s <;> decide +kernel

theorem toySetting_established : toySetting.Established toyWorld where
  contacts := fun s => ⟨0, AList.ext (toyWorld_client s).1⟩
  file := fun s => ⟨0, (toyWorld_client s).2.1⟩
  aliases := fun s _ => (toyWorld_client s).2.2.1
  draws := fun s => (toyWorld_client s).2.2.2.1
  outbox := fun s => (toyWorld_client s).2.2.2.2
  relay := rfl
  incoming := fun _ => rfl

theorem toySetting_readable : toySetting.Readable where
  aliasName := by
    intro s
    cases s <;> decide
  note := by
    rintro s note ⟨⟩

/-- A round: both clients tick and read what they have fetched. -/
def rounds (n : ℕ) : List Event :=
  (List.replicate n [.tick .left, .tick .right, .receive .left, .receive .right]).flatten

/-- Both clients send two messages, the second of which sets off a rotation, before
either has read anything. -/
def bothRotate : List Event :=
  [.send .left [1], .send .right [2], .send .left [3], .send .right [4]] ++ rounds 13

/-- **Rotations that cross leave the clients with sessions that do not fit**: each
answers the request of the other, then completes its own rotation. -/
theorem rotations_cross :
    toySetting.Honest ∧ toySetting.Established toyWorld ∧
      (∀ s, .restart s ∉ bothRotate) ∧
      (World.run toyDuo toyWorld bothRotate).Idle toyDuo ∧
      (World.run toyDuo toyWorld bothRotate).Settled ∧
      ¬ (World.run toyDuo toyWorld bothRotate).Mirrored toyDuo := by
  refine ⟨toySetting_honest, toySetting_established, ?_⟩
  decide +kernel

/-- One client rotates. -/
def aliceRotates : List Event := [.send .left [1], .send .left [2]] ++ rounds 5

theorem rotations_agree_alice :
    (World.run toyDuo toyWorld aliceRotates).Mirrored toyDuo ∧
      (World.run toyDuo toyWorld aliceRotates).contact toyDuo .left ≠
        toyWorld.contact toyDuo .left := by
  obtain ⟨hapart, hidle, hmoved⟩ :
      World.Along toyDuo (World.Apart toyDuo) toyWorld aliceRotates ∧
        (World.run toyDuo toyWorld aliceRotates).Idle toyDuo ∧
        (World.run toyDuo toyWorld aliceRotates).contact toyDuo .left ≠
          toyWorld.contact toyDuo .left := by decide +kernel
  exact ⟨Setting.rotations_agree toySetting_honest toySetting_established hapart hidle, hmoved⟩

/-- Alice restarts after the request has left and before the acknowledgement is in. -/
def aliceRestarts : List Event :=
  .send .left [1] :: rounds 2 ++
    [.send .left [2], .tick .left, .restart .left, .connect .left] ++ rounds 3

/-- **A restart in the middle of a rotation leaves the clients with sessions that do not
fit**: the pending key is lost, and the acknowledgement means nothing any more. -/
theorem restart_diverges :
    toySetting.Honest ∧ toySetting.Readable ∧ toySetting.Established toyWorld ∧
      World.Along toyDuo (World.Exclusive toyDuo) toyWorld aliceRestarts ∧
      (World.run toyDuo toyWorld aliceRestarts).Idle toyDuo ∧
      (World.run toyDuo toyWorld aliceRestarts).Settled ∧
      ¬ (World.run toyDuo toyWorld aliceRestarts).Mirrored toyDuo := by
  refine ⟨toySetting_honest, toySetting_readable, toySetting_established, ?_⟩
  decide +kernel

/-- Alice restarts with the request in the outbox, then rotates. -/
def aliceRestartsEarly : List Event :=
  [.send .left [1], .send .left [2], .restart .left, .connect .left, .send .left [3],
    .send .left [4]] ++ rounds 5

theorem restarts_agree_alice :
    (World.run toyDuo toyWorld aliceRestartsEarly).Mirrored toyDuo ∧
      (World.run toyDuo toyWorld aliceRestartsEarly).contact toyDuo .left ≠
        toyWorld.contact toyDuo .left := by
  obtain ⟨hexclusive, hearly, hidle, hmoved⟩ :
      World.Along toyDuo (World.Exclusive toyDuo) toyWorld aliceRestartsEarly ∧
        World.Along toyDuo (World.RestartsEarly toyDuo) toyWorld aliceRestartsEarly ∧
        (World.run toyDuo toyWorld aliceRestartsEarly).Idle toyDuo ∧
        (World.run toyDuo toyWorld aliceRestartsEarly).contact toyDuo .left ≠
          toyWorld.contact toyDuo .left := by decide +kernel
  exact ⟨Setting.restarts_agree toySetting_honest toySetting_readable toySetting_established
    hexclusive hearly hidle, hmoved⟩

end BlankChat.Session
