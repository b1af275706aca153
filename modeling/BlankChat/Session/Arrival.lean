import BlankChat.Cli.Polling
import BlankChat.Lib.RoundRobin
import BlankChat.Session.Response

/-!
# Texts arrive, once and in order

Two clients with a session talk over a relay that loses nothing. Only one of them starts
rotations, each empties its old mailbox before it fetches a PUSH from the current one, and
the library does not fail.

* `texts_in_order`: at any time the texts on the screen of a client are the first ones that
  the other has typed, in the order in which they were typed, and no more deliveries are
  reported to a client than texts were shown to the other.
* `texts_arrive`: when both clients keep ticking and reading, nothing is left under way
  after six rounds for each frame; every text has been shown, every delivery reported, and
  no rotation is left half done.

`Books` keeps the account: what is on the screen and what is in the line of the network are
what was typed. `moves` says that every tick and every read lowers the load of the network
or finds nothing to do, and a round in which nobody finds anything to do leaves nothing.
-/

namespace BlankChat.Session

open Lib Lib.Rotation BlankChat.Core Crypto Protocol Client Cli

/-! ## Conditions and properties of runs -/

/-- A tick or a read. -/
def Event.moves : Event → Bool
  | .tick _ | .receive _ => true
  | _ => false

def Event.typed? (s : Side) : Event → Option Bytes
  | .send t text => if t = s then some text else none
  | _ => none

/-- The texts that are typed at a client in a run. -/
def typed (s : Side) (events : List Event) : List Bytes := events.filterMap (Event.typed? s)

/-- Each client reads, and ticks twice; nobody types anything. -/
def Fair (round : List Event) : Prop :=
  (∀ ev ∈ round, ev.moves = true) ∧ ∀ s, .receive s ∈ round ∧ 2 ≤ round.count (.tick s)

instance (round : List Event) : Decidable (Fair round) := inferInstanceAs (Decidable (_ ∧ _))

namespace World

variable (D : Duo) (w : World)

/-- Only `i` starts rotations, the old mailbox comes first, and there is a key pair for
those who ask. -/
def Orderly (i : Side) (ev : Event) : Prop :=
  w.OneInitiator D i ev ∧ w.DrainsOld D ev ∧
    ∀ s, ((D.tape s).keypair (w.client s).keyDraws).isSome = true

instance (i : Side) (ev : Event) : Decidable (w.Orderly D i ev) :=
  inferInstanceAs (Decidable (_ ∧ _))

/-- The number of frames in the outboxes, at the relay and unread. -/
def underWay : ℕ :=
  (w.client .left).outbox.length + (w.client .right).outbox.length + w.relay.length +
    (w.incoming .left).length + (w.incoming .right).length

theorem forward_client (w : World) (s : Side) (f : Frame) : (w.forward s f).client = w.client := by
  unfold forward fetch
  split
  · split <;> rfl
  · rfl

theorem step_tick_client (D : Duo) {w : World} {s : Side} (h : (w.client s).connected = true) :
    (w.step D (.tick s)).client = Function.update w.client s (w.client s).getNextFrameForCBR.2 := by
  show World.client (if (w.client s).connected then _ else w) = _
  rw [if_pos h, forward_client]
  rfl

theorem Along.split {D : Duo} {C : World → Event → Prop} {w : World} {before after : List Event}
    (h : Along D C w (before ++ after)) :
    Along D C w before ∧ Along D C (run D w before) after := by
  induction before generalizing w with
  | nil => exact ⟨trivial, h⟩
  | cons ev before ih =>
      obtain ⟨hbefore, hafter⟩ := ih h.2
      exact ⟨⟨h.1, hbefore⟩, hafter⟩

end World

namespace Setting

variable {G : Setting} {w₀ w w' : World} {v v' : Network} {s i : Side} {ev : Event}
  {sent : Side → List Bytes}

/-! ## The account -/

variable (G) in
/-- What is shown and what is in the line is what was typed, and what is reported as
delivered and the receipts in the line is what was shown. -/
structure Books (w₀ : World) (sent : Side → List Bytes) (w : World) (v : Network) : Prop where
  shown : ∀ s, (w.client s).shown ++ (v.texts s).map (fun t => (G.aliasName s, t)) =
    (w₀.client s).shown ++ (sent s.other).map fun t => (G.aliasName s, t)
  told : ∀ s, (w.client s).told (G.aliasName s) + v.receipts s + (w₀.client s.other).shown.length =
    (w₀.client s).told (G.aliasName s) + (w.client s.other).shown.length

theorem Books.keep (h : G.Books w₀ sent w v) (hnews : ∀ t, (w'.client t).news = (w.client t).news)
    (htexts : ∀ t, v'.texts t = v.texts t) (hreceipts : ∀ t, v'.receipts t = v.receipts t) :
    G.Books w₀ sent w' v' := by
  constructor
  · intro t
    rw [Repl.shown_of_news (hnews t), htexts]
    exact h.shown t
  · intro t
    rw [Repl.told_of_news (hnews t), hreceipts, Repl.shown_of_news (hnews t.other)]
    exact h.told t

theorem news_setClient {r : Repl} (hnews : r.news = (w.client s).news) (t : Side) :
    ((w.setClient s r).client t).news = (w.client t).news := by
  rcases Side.eq_or_eq_other s t with rfl | rfl
  · rw [World.setClient_self, hnews]
  · rw [World.setClient_other]

theorem Books.send (h : G.Books w₀ sent w v) {r : Repl} (hnews : r.news = (w.client s).news)
    {p : Party EphemeralKey Bytes} {l : List Message} (hout : p.out = (v.party s).out ++ l)
    {text : Bytes} (htexts : l.filterMap (fun q => q.body.text?) = [text])
    (hreceipts : l.countP (fun q => q.body.isReceipt) = 0) :
    G.Books w₀ (fun t => sent t ++ (Event.typed? t (.send s text)).toList) (w.setClient s r)
      (v.set s p) := by
  have hshown : ∀ t, ((w.setClient s r).client t).shown = (w.client t).shown := fun t =>
    Repl.shown_of_news (news_setClient hnews t)
  constructor
  · intro t
    rw [hshown]
    rcases Side.eq_or_eq_other s t with rfl | rfl
    · rw [Net.texts_congr (Net.line_set_self p), Event.typed?, if_neg (Side.ne_other t),
        Option.toList_none, List.append_nil]
      exact h.shown t
    · have hline : (v.set s p).texts s.other = v.texts s.other ++ [text] := by
        unfold Net.texts
        rw [Net.line_set hout, List.filterMap_append, htexts]
      have hbefore := h.shown s.other
      rw [Side.other_other] at hbefore
      rw [hline, Side.other_other, Event.typed?, if_pos rfl, Option.toList_some, List.map_append,
        List.map_append, ← List.append_assoc, ← List.append_assoc, hbefore]
  · intro t
    rw [hshown, Repl.told_of_news (news_setClient hnews t)]
    rcases Side.eq_or_eq_other s t with rfl | rfl
    · rw [Net.receipts_congr (Net.line_set_self p)]
      exact h.told t
    · have hline : (v.set s p).receipts s.other = v.receipts s.other := by
        unfold Net.receipts
        rw [Net.line_set hout, List.countP_append, hreceipts, Nat.add_zero]
      rw [hline]
      exact h.told s.other

/-- The head of a line is read: it is shown or reported, and a text puts a receipt into the
other line. -/
theorem Books.read (h : G.Books w₀ sent w v) {m : Message} {rest l : List Message}
    (hm : v.incoming s = m :: rest) {r : Repl}
    (hnews : r.news = (w.client s).news ++ G.newsOf s m.body) {p : Party EphemeralKey Bytes}
    (hout : p.out = (v.party s).out ++ l) (htexts : l.filterMap (fun q => q.body.text?) = [])
    (hreceipts : l.countP (fun q => q.body.isReceipt) = m.body.text?.toList.length)
    (hself : w'.client s = r) (hother : w'.client s.other = w.client s.other) :
    G.Books w₀ sent w' ((v.take s).set s p) := by
  have hline : v.line s = m :: ((v.take s).set s p).line s := by
    rw [Net.line_set_self]
    exact Net.line_take hm
  have hline' : ((v.take s).set s p).line s.other = v.line s.other ++ l := by
    rw [Net.line_set (v := v.take s) hout, Net.line_take_ne (Side.other_ne s)]
  have hshown : r.shown = (w.client s).shown ++
      m.body.text?.toList.map fun t => (G.aliasName s, t) := by
    rw [Repl.shown_eq, hnews, List.filterMap_append, newsOf_shown, ← Repl.shown_eq]
  have htold : r.told (G.aliasName s) =
      (w.client s).told (G.aliasName s) + if m.body.isReceipt then 1 else 0 := by
    rw [Repl.told_eq, hnews, List.count_append, newsOf_told, ← Repl.told_eq]
  have htaken : v.texts s = m.body.text?.toList ++ ((v.take s).set s p).texts s := by
    unfold Net.texts
    rw [hline, List.filterMap_cons]
    cases m.body.text? <;> rfl
  have hkept : ((v.take s).set s p).texts s.other = v.texts s.other := by
    unfold Net.texts
    rw [hline', List.filterMap_append, htexts, List.append_nil]
  have hreceived : v.receipts s =
      ((v.take s).set s p).receipts s + if m.body.isReceipt then 1 else 0 := by
    unfold Net.receipts
    rw [hline, List.countP_cons]
  have hanswered : ((v.take s).set s p).receipts s.other =
      v.receipts s.other + m.body.text?.toList.length := by
    unfold Net.receipts
    rw [hline', List.countP_append, hreceipts]
  have htoldS := h.told s
  have htoldO := h.told s.other
  rw [Side.other_other] at htoldO
  constructor
  · intro t
    rcases Side.eq_or_eq_other s t with rfl | rfl
    · rw [hself, hshown, List.append_assoc, ← List.map_append, ← htaken]
      exact h.shown t
    · rw [hother, hkept]
      exact h.shown s.other
  · intro t
    rcases Side.eq_or_eq_other s t with rfl | rfl
    · rw [hself, hother, htold]
      omega
    · rw [Side.other_other, hself, hother, hanswered, hshown, List.length_append, List.length_map]
      omega

/-! ## The system -/

variable (G) in
/-- The network follows the system, the handover goes well, and the books are right. -/
structure Ledger (i : Side) (w₀ : World) (sent : Side → List Bytes) (w : World) (v : Network) :
    Prop where
  rel : G.Rel w v
  handover : Handover v i
  order : InOrder v
  pursued : Pursued v i
  books : G.Books w₀ sent w v

/-- The epochs that a party reads, in the order in which its client polls. -/
def epochs (p : Party EphemeralKey Bytes) : List (Epoch EphemeralKey) := p.cur :: p.old.toList

theorem mem_epochs_iff {p : Party EphemeralKey Bytes} {ep : Epoch EphemeralKey} :
    ep ∈ epochs p ↔ p.Reads ep := by
  unfold epochs Party.Reads
  rw [List.mem_cons, Option.mem_toList]
  exact or_congr eq_comm Iff.rfl

/-- The epoch whose mailbox is polled next. -/
def turn (r : Repl) (p : Party EphemeralKey Bytes) : Epoch EphemeralKey :=
  (epochs p).getD ((r.currentPollIndex + 1) % (epochs p).length) p.cur

theorem epochs_length_pos (p : Party EphemeralKey Bytes) : 0 < (epochs p).length := Nat.succ_pos _

theorem turn_mem (r : Repl) (p : Party EphemeralKey Bytes) : turn r p ∈ epochs p := by
  unfold turn
  rw [List.getD_eq_getElem _ _ (Nat.mod_lt _ (epochs_length_pos p))]
  exact List.getElem_mem _

/-- With an empty outbox the mailbox of the epoch whose turn it is is polled. -/
theorem getNextFrameForCBR_turn {r : Repl} {p : Party EphemeralKey Bytes} (h : G.Client s r p)
    (hconnected : r.connected = true) (hout : r.outbox = []) :
    r.getNextFrameForCBR.1 = Frame.createPoll (G.sessionOf s (turn r p)).rxId ∧
      r.getNextFrameForCBR.2.currentPollIndex =
        (r.currentPollIndex + 1) % (epochs p).length ∧
      G.ValidEpoch (turn r p) ∧ G.Client s r.getNextFrameForCBR.2 p := by
  obtain ⟨c, hc, hagrees⟩ := h
  have hactive : r.activeMailboxes = (epochs p).map fun ep => (G.sessionOf s ep).rxId := by
    unfold Repl.activeMailboxes epochs
    rw [hc.aliases hconnected, List.flatMap_cons, hc.getContact, List.flatMap_nil, List.append_nil,
      List.map_cons, ← hagrees.session]
    dsimp only
    rw [hagrees.oldId]
    cases p.old <;> rfl
  have hlt : (r.currentPollIndex + 1) % (epochs p).length < (epochs p).length :=
    Nat.mod_lt _ (epochs_length_pos p)
  have hne : r.activeMailboxes ≠ [] := by
    rw [hactive]
    exact List.cons_ne_nil _ _
  have hnext := Repl.getNextFrameForCBR_poll hout hne
  rw [hactive, List.length_map, List.getD_eq_getElem _ _ (by rw [List.length_map]; exact hlt),
    List.getElem_map] at hnext
  have hvalid : ∀ ep ∈ epochs p, G.ValidEpoch ep := by
    intro ep hep
    rcases mem_epochs_iff.mp hep with rfl | hold
    · exact hagrees.validCur
    · exact hagrees.validOld ep hold
  rw [hnext]
  refine ⟨?_, rfl, hvalid _ (turn_mem r p), c, hc.work rfl rfl rfl le_rfl rfl, hagrees⟩
  unfold turn
  rw [List.getD_eq_getElem _ _ hlt]

/-- **What a tick does**: it sends a packet, or polls the mailbox whose turn it is. -/
theorem tick_moves (hG : G.Honest) (h : G.Rel w v) (hconnected : (w.client s).connected = true) :
    (∃ x rest, (v.party s).out = x :: rest ∧
      G.Rel (w.step G.toDuo (.tick s)) (v.transmit s)) ∨
    ((v.party s).out = [] ∧
      G.Rel (w.step G.toDuo (.tick s)) (v.poll s (turn (w.client s) (v.party s))) ∧
      (w.client s).getNextFrameForCBR.1 =
        Frame.createPoll (G.sessionOf s (turn (w.client s) (v.party s))).rxId ∧
      ((w.step G.toDuo (.tick s)).client s).currentPollIndex =
        ((w.client s).currentPollIndex + 1) % (epochs (v.party s)).length) := by
  have hclient := h.client s
  have hstep : w.step G.toDuo (.tick s) =
      (w.setClient s (w.client s).getNextFrameForCBR.2).forward s
        (w.client s).getNextFrameForCBR.1 := if_pos hconnected
  cases hout : (w.client s).outbox with
  | cons f frames =>
      obtain ⟨m, rest, hpout, hfm, hnext, hrest⟩ := getNextFrameForCBR_send hclient hout
      refine .inl ⟨m, rest, hpout, ?_⟩
      rw [hstep, hnext]
      unfold World.forward Net.transmit
      rw [if_neg (hfm.action ▸ actionOf_ne_poll _), hpout]
      exact (h.set hrest).setRelay (List.rel_append h.relay (.cons hfm .nil))
  | nil =>
      obtain ⟨hpoll, hindex, hvalid, hrest⟩ := getNextFrameForCBR_turn hclient hconnected hout
      refine .inr ⟨?_, ?_, hpoll, ?_⟩
      · obtain ⟨c, hc, -⟩ := hclient
        have hencodes := hc.outbox
        rw [hout] at hencodes
        exact List.forall₂_nil_left_iff.mp hencodes
      · rw [hstep, hpoll]
        unfold World.forward
        rw [if_pos (show (Frame.createPoll _).action = .poll from rfl)]
        have hset := h.set hrest
        rw [v.set_party_eq s] at hset
        exact hset.fetch hG hvalid
      · rw [World.step_tick_client G.toDuo hconnected, Function.update_self, hindex]

/-- An event that finds nothing to do. -/
def Rests (w : World) (v : Network) : Event → Prop
  | .tick s => (v.party s).out = [] ∧
      v.relay.find? (Net.isFor s (turn (w.client s) (v.party s))) = none
  | .receive s => v.incoming s = []
  | _ => False

/-- An event moves a packet, or finds nothing to do and changes nothing. -/
def Moves (w : World) (v v' : Network) (ev : Event) : Prop :=
  v'.load < v.load ∨ (v' = v ∧ Rests w v ev)

namespace Ledger

/-- A tick sends or fetches a packet, if there is one. -/
theorem tick (hG : G.Honest) (h : G.Ledger i w₀ sent w v) (hev : w.DrainsOld G.toDuo (.tick s)) :
    ∃ v', G.Ledger i w₀ sent (w.step G.toDuo (.tick s)) v' ∧
      ((w.client s).connected = true → Moves w v v' (.tick s)) := by
  by_cases hconnected : (w.client s).connected = true
  · have hnews : ∀ t, ((w.step G.toDuo (.tick s)).client t).news = (w.client t).news := by
      intro t
      rw [World.step_tick_client G.toDuo hconnected]
      exact news_setClient (Repl.getNextFrameForCBR_news _) t
    rcases tick_moves hG h.rel hconnected with ⟨x, rest, hout, hrel⟩ | ⟨hout, hrel, hpoll, -⟩
    · refine ⟨v.transmit s, ⟨hrel, h.handover.transmit h.rel.addressed s,
        h.order.transmit h.rel.addressed s, ?_, ?_⟩, fun _ => .inl ?_⟩
      · refine h.pursued.mono (v.transmit_party s i).2.2 ?_
        intro p hp _
        rw [v.all_transmit]
        exact hp
      · exact h.books.keep hnews
          (fun t => Net.texts_congr (Net.line_transmit h.rel.addressed s t))
          (fun t => Net.receipts_congr (Net.line_transmit h.rel.addressed s t))
      · have hload := Net.load_transmit hout
        omega
    · have hreads : (v.party s).Reads (turn (w.client s) (v.party s)) :=
        mem_epochs_iff.mp (turn_mem _ _)
      have hdrained : ∀ x, v.relay.find? (Net.isFor s (turn (w.client s) (v.party s))) = some x →
          x.body.confirms = true → (v.party s).cur = turn (w.client s) (v.party s) →
          ∀ σ, (v.party s).old = some σ → σ ≠ turn (w.client s) (v.party s) →
            ∀ q ∈ v.relay, q.dest = s → q.epoch ≠ σ := by
        intro x hfind hconfirms hcur σ hold _ q hq hqd hqe
        exact hev (h.rel.fetchesAhead hG hconnected hpoll hfind hconfirms hcur hold hq hqd hqe)
      refine ⟨v.poll s (turn (w.client s) (v.party s)), ⟨hrel, h.handover.poll hreads hdrained,
        h.order.poll s _, ?_, ?_⟩, fun _ => ?_⟩
      · refine h.pursued.mono (by rw [Net.poll_party]) ?_
        intro p hp _
        rw [v.all_poll]
        exact hp
      · exact h.books.keep hnews (h.handover.texts_poll (h.order s) hreads hdrained)
          (fun t => v.receipts_poll s t _)
      · cases hfind : v.relay.find? (Net.isFor s (turn (w.client s) (v.party s))) with
        | none =>
            refine .inr ⟨?_, hout, hfind⟩
            unfold Net.poll
            rw [hfind]
        | some x =>
            have hload := Net.load_poll hfind
            exact .inl (by omega)
  · have hstay : w.step G.toDuo (.tick s) = w := if_neg hconnected
    rw [hstay]
    exact ⟨v, h, fun hc => absurd hc hconnected⟩

theorem responds_order (h : G.Ledger i w₀ sent w v) {m : Message} {l : List Message}
    {p' : Party EphemeralKey Bytes} (hm : v.incoming s = m :: l)
    (hresponds : G.Responds s m.body ((v.party s).hear m) p') :
    InOrder ((v.take s).set s p') ∧ Pursued ((v.take s).set s p') i := by
  have hmem : m ∈ v.all := (v.mem_all s).mpr (.inr (.inr (.inr (.inl (hm ▸ List.mem_cons_self)))))
  have hdest := h.rel.addressed.incoming s m (hm ▸ List.mem_cons_self)
  obtain ⟨hcur, hpending, hout⟩ := Party.hear_fields (p := v.party s) (m := m)
  obtain ⟨dest, epoch, body⟩ := m
  obtain rfl : dest = s := hdest
  cases body with
  | text content =>
      obtain rfl := hresponds
      have hout' : (((v.party dest).hear ⟨dest, epoch, .text content⟩).queue dest
          (.receipt (hashPayload G.sodium content))).out = (v.party dest).out ++ [_] :=
        congrArg (· ++ [_]) hout
      exact ⟨(h.order.take dest).append hcur hcur hout', h.pursued.read hm rfl hpending hout'⟩
  | receipt content =>
      obtain rfl := hresponds
      exact ⟨(h.order.take dest).set_same hcur hout,
        h.pursued.read hm rfl hpending (hout.trans (List.append_nil _).symm)⟩
  | request e =>
      obtain ⟨e', -, rfl⟩ := hresponds
      rw [Party.hear_answer]
      refine ⟨h.handover.inOrder_answer h.rel.addressed h.order hm, ?_⟩
      refine Pursued.of_rotates (x := (v.party dest).packet dest (.ack e e')) ?_ rfl
      rw [(v.take dest).all_set_append dest (q := (v.party dest).packet dest (.ack e e')) rfl]
      exact Multiset.mem_cons_self _ _
  | ack e e' =>
      obtain rfl := hresponds
      obtain rfl := h.handover.ack_dest hmem
      -- the initiator has no old epoch to give up
      have hold : (v.party dest).old ≠ some epoch := by
        rw [h.handover.initiator]
        rintro ⟨⟩
      rw [Party.hear_eq_giveUp rfl hold, Party.giveUp_eq_self h.handover.initiator]
      refine ⟨h.handover.inOrder_complete h.rel.addressed h.order hm, ?_⟩
      intro hne
      rw [Net.set_party_self] at hne
      exact absurd rfl hne

theorem receive (hG : G.Honest) (henc : Encrypts G.sodium) (h : G.Ledger i w₀ sent w v)
    (hdraw : ((G.tape s).keypair (w.client s).keyDraws).isSome = true) :
    ∃ v', G.Ledger i w₀ sent (w.step G.toDuo (.receive s)) v' ∧ Moves w v v' (.receive s) := by
  have hincoming := h.rel.incoming s
  cases hcons : w.incoming s with
  | nil =>
      have hstay : w.step G.toDuo (.receive s) = w := by
        simp only [World.step, hcons]
      rw [hcons] at hincoming
      rw [hstay]
      exact ⟨v, h, .inr ⟨rfl, List.forall₂_nil_left_iff.mp hincoming⟩⟩
  | cons f frames =>
      rw [hcons] at hincoming
      obtain ⟨m, l, hfm, hl, hm⟩ := List.forall₂_cons_left_iff.mp hincoming
      have hdest := h.rel.dest s m (hm ▸ List.mem_cons_self)
      have hreads := h.handover.reads_incoming h.rel.addressed (hm ▸ List.mem_cons_self)
      obtain ⟨p', hresponds, hclient⟩ := onFrameReceived_responds henc hG (h.rel.client s) hfm hdest
        (h.rel.expected h.handover.agreement s m l hm) hreads hdraw
      have hstep : w.step G.toDuo (.receive s) =
          { w.setClient s ((w.client s).onFrameReceived (G.setup s) f) with
            incoming := Function.update w.incoming s frames } := by
        simp only [World.step, hcons]
      obtain ⟨horder, hpursued⟩ := h.responds_order hm hresponds
      obtain ⟨queued, hout, htexts, hreceipts, hweight⟩ := hresponds.queued
      rw [Party.hear_fields.2.2] at hout
      refine ⟨(v.take s).set s p', ⟨?_, handover_reacts h.handover h.rel.addressed hm
        hresponds.reacts, horder, hpursued, ?_⟩, .inl ?_⟩
      · rw [hstep]
        have hset := (h.rel.set hclient).setIncoming (s := s) hl
          (fun m' hm' => h.rel.dest s m' (hm ▸ List.mem_cons_of_mem _ hm'))
        have htail : (v.incoming s).tail = l := by
          rw [hm, List.tail_cons]
        unfold Net.take
        rw [htail]
        exact hset
      · rw [hstep]
        exact h.books.read hm (onFrameReceived_news hG (h.rel.client s) hfm hdest hreads) hout htexts
          hreceipts (World.setClient_self ..) (World.setClient_other ..)
      · have hload := Net.load_take hm
        rw [Net.load_set (v := v.take s) hout]
        omega

theorem send (hG : G.Honest) (henc : Encrypts G.sodium) (h : G.Ledger i w₀ sent w v) (text : Bytes)
    (hone : w.OneInitiator G.toDuo i (.send s text)) :
    ∃ v', G.Ledger i w₀ (fun t => sent t ++ (Event.typed? t (.send s text)).toList)
      (w.step G.toDuo (.send s text)) v' := by
  obtain ⟨p₁, hstarts, hclient⟩ := handleSend_queues henc (h.rel.client s) text
  have hrel : G.Rel (w.step G.toDuo (.send s text)) (v.set s (p₁.queue s (.text text))) :=
    h.rel.set hclient
  have hfollows : G.Follows w v (v.set s (p₁.queue s (.text text))) (.send s text) :=
    ⟨p₁, _, hstarts, .inr rfl, rfl⟩
  have hhandover := hfollows.handover hG h.rel hrel h.handover hone trivial
  have hnews := Repl.handleSend_news (E := G.setup s) (w.client s) (G.aliasName s) text
  rcases hstarts with rfl | ⟨e, -, -, rfl⟩
  · refine ⟨_, hrel, hhandover, h.order.append rfl rfl rfl, ?_, h.books.send hnews rfl rfl rfl⟩
    refine h.pursued.mono ?_ ?_
    · by_cases hs : i = s
      · subst hs
        rw [Net.set_party_self]
        rfl
      · rw [Net.set_party_ne _ hs]
    · intro p hp _
      rw [v.all_set_append s (q := (v.party s).packet s (.text text)) rfl]
      exact Multiset.mem_cons_of_mem hp
  · -- the request of a rotation goes first
    have horder := (h.order.append (s := s) (p := (v.party s).start s e) rfl rfl rfl)
    have hqueued := horder.append (s := s) (x := (v.party s).packet s (.text text))
      (p := ((v.party s).start s e).queue s (.text text)) (by rw [Net.set_party_self]; rfl)
      (by rw [Net.set_party_self]; rfl)
      (by rw [Net.set_party_self]; rfl)
    rw [Net.set_set] at hqueued
    have hout : (((v.party s).start s e).queue s (.text text)).out = (v.party s).out ++
        [(v.party s).packet s (.request e), (v.party s).packet s (.text text)] :=
      List.append_assoc _ _ _
    refine ⟨_, hrel, hhandover, hqueued, ?_, h.books.send hnews hout rfl rfl⟩
    refine Pursued.of_rotates (x := (v.party s).packet s (.request e)) ?_ rfl
    rw [Net.all_set, hout, Multiset.mem_add]
    exact .inl (List.mem_append_right _ List.mem_cons_self)

theorem connect (h : G.Ledger i w₀ sent w v) :
    G.Ledger i w₀ sent (w.step G.toDuo (.connect s)) v := by
  refine ⟨?_, h.handover, h.order, h.pursued, ?_⟩
  · exact (v.set_party_eq s) ▸ h.rel.set (handleConnect_client (h.rel.client s))
  · exact h.books.keep (news_setClient (Repl.handleConnect_news _)) (fun _ => rfl) (fun _ => rfl)

/-- **One event keeps the ledger.** -/
theorem step (hG : G.Honest) (henc : Encrypts G.sodium) (h : G.Ledger i w₀ sent w v)
    (hev : w.Orderly G.toDuo i ev) :
    ∃ v', G.Ledger i w₀ (fun t => sent t ++ (ev.typed? t).toList) (w.step G.toDuo ev) v' := by
  have hsame : (fun t => sent t ++ (none : Option Bytes).toList) = sent :=
    funext fun t => List.append_nil _
  obtain ⟨hone, hdrains, hdraws⟩ := hev
  cases ev with
  | send s text => exact h.send hG henc text hone
  | tick s =>
      obtain ⟨v', hv', -⟩ := h.tick hG hdrains
      exact ⟨v', hsame.symm ▸ hv'⟩
  | receive s =>
      obtain ⟨v', hv', -⟩ := h.receive hG henc (hdraws s)
      exact ⟨v', hsame.symm ▸ hv'⟩
  | connect s => exact ⟨v, hsame.symm ▸ h.connect⟩
  | restart s => exact hone.elim

theorem run (hG : G.Honest) (henc : Encrypts G.sodium) (h : G.Ledger i w₀ sent w v)
    {events : List Event} (hrun : World.Along G.toDuo (fun w => w.Orderly G.toDuo i) w events) :
    ∃ v', G.Ledger i w₀ (fun t => sent t ++ typed t events) (World.run G.toDuo w events) v' := by
  induction events generalizing w v sent with
  | nil =>
      have hsame : (fun t => sent t ++ typed t []) = sent := funext fun t => List.append_nil _
      exact ⟨v, hsame.symm ▸ h⟩
  | cons ev events ih =>
      obtain ⟨v₁, hv₁⟩ := h.step hG henc hrun.1
      obtain ⟨v', hv'⟩ := ih hv₁ hrun.2
      refine ⟨v', ?_⟩
      have htyped : (fun t => sent t ++ typed t (ev :: events)) =
          fun t => sent t ++ (ev.typed? t).toList ++ typed t events := by
        funext t
        unfold typed
        rw [List.filterMap_cons, List.append_assoc]
        cases ev.typed? t <;> rfl
      rw [htyped]
      exact hv'

end Ledger

theorem Established.ledger (hw : G.Established w) (i : Side) :
    G.Ledger i w (fun _ => []) w initialNetwork where
  rel := hw.rel
  handover := initialNetwork_handover i
  order := fun _ => List.Pairwise.nil
  pursued := fun hne => absurd rfl hne
  books := ⟨fun _ => rfl, fun _ => rfl⟩

/-! ## Rounds -/

theorem connected_step (hmoves : ev.moves = true) (t : Side)
    (hconnected : (w.client t).connected = true) :
    ((w.step G.toDuo ev).client t).connected = true := by
  have hset : ∀ {s : Side} {r : Repl}, r.connected = (w.client s).connected →
      ((w.setClient s r).client t).connected = true := by
    intro s r hr
    rcases Side.eq_or_eq_other s t with rfl | rfl
    · rw [World.setClient_self, hr, hconnected]
    · rw [World.setClient_other, hconnected]
  cases ev with
  | tick s =>
      by_cases hs : (w.client s).connected = true
      · rw [World.step_tick_client G.toDuo hs]
        exact hset (Repl.getNextFrameForCBR_list _).connected
      · rw [show w.step G.toDuo (.tick s) = w from if_neg hs]
        exact hconnected
  | receive s =>
      unfold World.step
      dsimp only
      split
      · exact hconnected
      · exact hset (Repl.onFrameReceived_list _ _).connected
  | send s text => cases hmoves
  | connect s => cases hmoves
  | restart s => cases hmoves

/-- A tick that finds nothing moves the index of its client. -/
theorem Rests.index (hG : G.Honest) (h : G.Rel w v)
    (hconnected : ∀ t, (w.client t).connected = true) (hrests : Rests w v ev) (t : Side) :
    ((w.step G.toDuo ev).client t).currentPollIndex =
      if ev = .tick t then ((w.client t).currentPollIndex + 1) % (epochs (v.party t)).length
      else (w.client t).currentPollIndex := by
  cases ev with
  | tick s =>
      rcases Side.eq_or_eq_other s t with rfl | rfl
      · rcases tick_moves hG h (hconnected t) with ⟨x, rest, hout, -⟩ | ⟨-, -, -, hindex⟩
        · rw [hrests.1] at hout
          cases hout
        · rw [if_pos rfl, hindex]
      · rw [World.step_tick_client G.toDuo (hconnected s),
          Function.update_of_ne (Side.other_ne s), if_neg]
        exact fun heq => Side.ne_other s (Event.tick.inj heq)
  | receive s =>
      have hnil : w.incoming s = [] := by
        have hincoming := h.incoming s
        rw [show v.incoming s = [] from hrests] at hincoming
        exact List.forall₂_nil_right_iff.mp hincoming
      rw [if_neg nofun]
      simp only [World.step, hnil]
  | send s text => exact hrests.elim
  | connect s => exact hrests.elim
  | restart s => exact hrests.elim

/-- In a run of ticks and reads nobody finds anything: no read a packet that was fetched, no
tick one in the outbox or in the mailbox whose turn it is. -/
def FindsNothing (w : World) (v : Network) (events : List Event) : Prop :=
  ∀ s, (.receive s ∈ events → v.incoming s = []) ∧ (.tick s ∈ events → (v.party s).out = []) ∧
    ∀ ep ∈ turns (epochs (v.party s)) (v.party s).cur (events.count (.tick s))
      (w.client s).currentPollIndex, v.relay.find? (Net.isFor s ep) = none

theorem FindsNothing.cons (hrests : Rests w v ev)
    (hindex : ∀ t, (w'.client t).currentPollIndex =
      if ev = .tick t then ((w.client t).currentPollIndex + 1) % (epochs (v.party t)).length
      else (w.client t).currentPollIndex) {events : List Event} (h : FindsNothing w' v events) :
    FindsNothing w v (ev :: events) := by
  intro s
  obtain ⟨hreceive, htick, hturns⟩ := h s
  rw [hindex s] at hturns
  refine ⟨?_, ?_, ?_⟩
  · intro hmem
    rcases List.mem_cons.mp hmem with rfl | hmem
    · exact hrests
    · exact hreceive hmem
  · intro hmem
    rcases List.mem_cons.mp hmem with rfl | hmem
    · exact hrests.1
    · exact htick hmem
  · by_cases hev : ev = .tick s
    · subst hev
      rw [if_pos rfl] at hturns
      rw [List.count_cons_self, turns]
      intro ep hep
      rcases List.mem_cons.mp hep with rfl | hep
      · exact hrests.2
      · exact hturns ep hep
    · rw [if_neg hev] at hturns
      rw [List.count_cons_of_ne hev]
      exact hturns

/-- **A run of ticks and reads moves a packet, or nobody finds anything.** -/
theorem Ledger.run_moves (hG : G.Honest) (henc : Encrypts G.sodium) (h : G.Ledger i w₀ sent w v)
    (hconnected : ∀ t, (w.client t).connected = true) {events : List Event}
    (hmoves : ∀ ev ∈ events, ev.moves = true)
    (hrun : World.Along G.toDuo (fun w => w.Orderly G.toDuo i) w events) :
    ∃ v', G.Ledger i w₀ sent (World.run G.toDuo w events) v' ∧
      (∀ t, ((World.run G.toDuo w events).client t).connected = true) ∧
      (v'.load < v.load ∨ (v' = v ∧ FindsNothing w v events)) := by
  induction events generalizing w v with
  | nil =>
      refine ⟨v, h, hconnected, .inr ⟨rfl, fun s => ⟨nofun, nofun, ?_⟩⟩⟩
      intro ep hep
      cases hep
  | cons ev events ih =>
      have hev := hmoves ev List.mem_cons_self
      obtain ⟨v₁, h₁, hmove⟩ : ∃ v₁, G.Ledger i w₀ sent (w.step G.toDuo ev) v₁ ∧
          Moves w v v₁ ev := by
        obtain ⟨-, hdrains, hdraws⟩ := hrun.1
        cases ev with
        | tick s =>
            obtain ⟨v₁, h₁, hmove⟩ := h.tick hG hdrains
            exact ⟨v₁, h₁, hmove (hconnected s)⟩
        | receive s => exact h.receive hG henc (hdraws s)
        | send s text => cases hev
        | connect s => cases hev
        | restart s => cases hev
      obtain ⟨v', h', hconnected', hrest⟩ := ih h₁ (fun t => connected_step hev t (hconnected t))
        (fun ev' hev' => hmoves ev' (List.mem_cons_of_mem _ hev')) hrun.2
      refine ⟨v', h', hconnected', ?_⟩
      rcases hmove with hless | ⟨rfl, hrests⟩
      · left
        rcases hrest with hless' | ⟨rfl, -⟩
        · exact hless'.trans hless
        · exact hless
      · rcases hrest with hless' | ⟨rfl, hnothing⟩
        · exact .inl hless'
        · exact .inr ⟨rfl, hnothing.cons hrests (hrests.index hG h.rel hconnected)⟩

/-- When nobody finds anything in a fair round, nothing is left. -/
theorem FindsNothing.drained {round : List Event} (hfair : Fair round) (hv : Handover v i)
    (h : FindsNothing w v round) : v.Drained := by
  have htick : ∀ s, .tick s ∈ round := fun s =>
    List.count_pos_iff.mp (Nat.zero_lt_of_lt (hfair.2 s).2)
  refine hv.drained (fun s => (h s).2.1 (htick s)) (fun s => (h s).1 (hfair.2 s).1) ?_
  intro p hp hreads
  have hlength : (epochs (v.party p.dest)).length ≤ round.count (.tick p.dest) := by
    refine le_trans ?_ (hfair.2 p.dest).2
    unfold epochs
    cases (v.party p.dest).old with
    | none => exact Nat.le_succ 1
    | some ep => exact Nat.le_refl 2
  have hnone := (h p.dest).2.2 p.epoch (mem_turns hlength (mem_epochs_iff.mpr hreads) _ _)
  exact List.find?_eq_none.mp hnone p hp (decide_eq_true ⟨rfl, rfl⟩)

/-- **Enough fair rounds leave nothing under way.** -/
theorem Ledger.run_rounds (hG : G.Honest) (henc : Encrypts G.sodium) (h : G.Ledger i w₀ sent w v)
    (hconnected : ∀ t, (w.client t).connected = true) {rounds : List (List Event)}
    (hfair : ∀ round ∈ rounds, Fair round) (hlong : v.load ≤ rounds.length)
    (hrun : World.Along G.toDuo (fun w => w.Orderly G.toDuo i) w rounds.flatten) :
    ∃ v', G.Ledger i w₀ sent (World.run G.toDuo w rounds.flatten) v' ∧ v'.Drained := by
  induction rounds generalizing w v with
  | nil => exact ⟨v, h, Net.drained_of_load (Nat.le_zero.mp hlong)⟩
  | cons round rounds ih =>
      rw [List.flatten_cons] at hrun ⊢
      have hround := hfair round List.mem_cons_self
      obtain ⟨hbegun, hrest⟩ := hrun.split
      obtain ⟨v₁, h₁, hconnected₁, hmoved⟩ := h.run_moves hG henc hconnected hround.1 hbegun
      have hload : v₁.load ≤ rounds.length := by
        rcases hmoved with hless | ⟨rfl, hnothing⟩
        · rw [List.length_cons] at hlong
          omega
        · rw [(hnothing.drained hround h.handover).load]
          exact Nat.zero_le _
      have hrun' : World.run G.toDuo w (round ++ rounds.flatten) =
          World.run G.toDuo (World.run G.toDuo w round) rounds.flatten := List.foldl_append
      rw [hrun']
      exact ih h₁ hconnected₁ (fun round' hmem => hfair round' (List.mem_cons_of_mem _ hmem)) hload
        hrest

/-! ## What a related network says about the system -/

/-- The load is bounded by the number of frames. -/
theorem Rel.load_le (h : G.Rel w v) : v.load ≤ 6 * w.underWay := by
  have hout : ∀ s, (w.client s).outbox.length = (v.party s).out.length := by
    intro s
    obtain ⟨c, hc, -⟩ := h.client s
    exact hc.outbox.length_eq
  unfold Net.load World.underWay
  rw [hout, hout, h.relay.length_eq, (h.incoming .left).length_eq, (h.incoming .right).length_eq]
  have h₁ := Net.weigh_le 0 (v.party .left).out
  have h₂ := Net.weigh_le 0 (v.party .right).out
  have h₃ := Net.weigh_le 1 v.relay
  have h₄ := Net.weigh_le 2 (v.incoming .left)
  have h₅ := Net.weigh_le 2 (v.incoming .right)
  omega

theorem Rel.underWay_of_drained (h : G.Rel w v) (hv : v.Drained) : w.underWay = 0 := by
  have hout : ∀ s, (w.client s).outbox.length = 0 := by
    intro s
    obtain ⟨c, hc, -⟩ := h.client s
    rw [hc.outbox.length_eq, hv.out]
    rfl
  unfold World.underWay
  rw [hout, hout, h.relay.length_eq, hv.relay, (h.incoming .left).length_eq, hv.incoming,
    (h.incoming .right).length_eq, hv.incoming]
  rfl

/-- When nothing is under way, no rotation is half done. -/
theorem Ledger.idle_of_drained (h : G.Ledger i w₀ sent w v) (hv : v.Drained) :
    w.Idle G.toDuo := by
  have hpending : (v.party i).pending = none := by
    by_contra hne
    obtain ⟨p, hp, -⟩ := h.pursued hne
    rw [hv.all] at hp
    exact Multiset.notMem_zero p hp
  intro s
  obtain ⟨c, hc, hagrees⟩ := Client.contact h.rel s
  refine ⟨c, hc, hagrees.idle_iff.mpr ?_⟩
  rcases Side.eq_or_eq_other i s with rfl | rfl
  · exact hpending
  · exact h.handover.other

/-- **Texts are shown once and in order.** In every orderly run the texts on the screen of a
client are the first of those typed at the other, and no more deliveries are reported to a
client than texts were shown to the other. -/
theorem texts_in_order (hG : G.Honest) (henc : Encrypts G.sodium) (hw : G.Established w)
    {events : List Event} (hrun : World.Along G.toDuo (fun w => w.Orderly G.toDuo i) w events)
    (s : Side) :
    ((World.run G.toDuo w events).client s).shown <+:
        (w.client s).shown ++ (typed s.other events).map (fun t => (G.aliasName s, t)) ∧
      ((World.run G.toDuo w events).client s).told (G.aliasName s) +
          (w.client s.other).shown.length ≤
        (w.client s).told (G.aliasName s) +
          ((World.run G.toDuo w events).client s.other).shown.length := by
  obtain ⟨v, hv⟩ := (hw.ledger i).run hG henc hrun
  have hshown := hv.books.shown s
  have htold := hv.books.told s
  rw [List.nil_append] at hshown
  exact ⟨⟨_, hshown⟩, by omega⟩

end Setting

theorem transparent_encrypts : Encrypts transparent := fun _ _ _ => rfl

/-- Bob has read the request that goes before Alice's second text, which is at the relay. -/
def aliceTalks : List Event :=
  .send .left [1] :: rounds 3 ++
    [.send .left [2], .tick .left, .tick .left, .tick .right, .receive .right]

theorem aliceTalks_orderly :
    World.Along toySetting.toDuo (fun w => w.Orderly toySetting.toDuo .left) toyWorld
      aliceTalks := by
  decide +kernel

theorem aliceTalks_typed :
    (typed Side.right.other aliceTalks).map (fun t => (toySetting.aliasName .right, t)) =
      [(ascii "alice", [1]), (ascii "alice", [2])] := by
  decide +kernel

theorem texts_in_order_alice :
    ((World.run toySetting.toDuo toyWorld aliceTalks).client .right).shown <+:
        (toyWorld.client .right).shown ++ [(ascii "alice", [1]), (ascii "alice", [2])] ∧
      ((World.run toySetting.toDuo toyWorld aliceTalks).client .right).shown =
        [(ascii "alice", [1])] := by
  have hshown := (Setting.texts_in_order toySetting_honest transparent_encrypts
    toySetting_established aliceTalks_orderly .right).1
  rw [aliceTalks_typed] at hshown
  exact ⟨hshown, by decide +kernel⟩

namespace Setting

variable {G : Setting} {w : World} {i : Side}

/-- **Texts arrive.** When both clients are connected and both tick and read in enough
rounds, nothing is left under way: every text has been shown, every delivery reported, and
the clients are idle with mirrored sessions. -/
theorem texts_arrive (hG : G.Honest) (henc : Encrypts G.sodium) (hw : G.Established w)
    {events : List Event} {rounds : List (List Event)}
    (hrun : World.Along G.toDuo (fun w => w.Orderly G.toDuo i) w (events ++ rounds.flatten))
    (hconnected : ∀ s, ((World.run G.toDuo w events).client s).connected = true)
    (hfair : ∀ round ∈ rounds, Fair round)
    (hlong : 6 * (World.run G.toDuo w events).underWay ≤ rounds.length) :
    (World.run G.toDuo w (events ++ rounds.flatten)).underWay = 0 ∧
      (World.run G.toDuo w (events ++ rounds.flatten)).Idle G.toDuo ∧
      (World.run G.toDuo w (events ++ rounds.flatten)).Mirrored G.toDuo ∧
      ∀ s, ((World.run G.toDuo w (events ++ rounds.flatten)).client s).shown =
          (w.client s).shown ++ (typed s.other events).map (fun t => (G.aliasName s, t)) ∧
        ((World.run G.toDuo w (events ++ rounds.flatten)).client s).told (G.aliasName s) =
          (w.client s).told (G.aliasName s) + (typed s events).length := by
  obtain ⟨hbegun, hrest⟩ := hrun.split
  obtain ⟨v, hv⟩ := (hw.ledger i).run hG henc hbegun
  obtain ⟨v', hv', hdrained⟩ := hv.run_rounds hG henc hconnected hfair
    (hv.rel.load_le.trans hlong) hrest
  have happend : World.run G.toDuo w (events ++ rounds.flatten) =
      World.run G.toDuo (World.run G.toDuo w events) rounds.flatten := List.foldl_append
  have hidle := hv'.idle_of_drained hdrained
  have hshown : ∀ s, ((World.run G.toDuo w (events ++ rounds.flatten)).client s).shown =
      (w.client s).shown ++ (typed s.other events).map (fun t => (G.aliasName s, t)) := by
    intro s
    have hbooks := hv'.books.shown s
    rw [Net.texts, hdrained.line, List.filterMap_nil, List.map_nil, List.append_nil,
      List.nil_append] at hbooks
    rw [happend]
    exact hbooks
  refine ⟨?_, ?_, ?_, fun s => ⟨hshown s, ?_⟩⟩
  · rw [happend]
    exact hv'.rel.underWay_of_drained hdrained
  · rw [happend]
    exact hidle
  · rw [happend]
    exact hv'.rel.mirrored hv'.handover.agreement hidle
  · have hbooks := hv'.books.told s
    rw [Net.receipts, hdrained.line, List.countP_nil, ← happend, hshown s.other,
      List.length_append, List.length_map, Side.other_other] at hbooks
    omega

end Setting

/-- Both clients read and tick twice. -/
def fairRounds (n : ℕ) : List (List Event) :=
  List.replicate n [.tick .left, .tick .right, .receive .left, .receive .right, .tick .left,
    .tick .right]

theorem texts_arrive_alice :
    (World.run toySetting.toDuo toyWorld aliceTalks).underWay = 2 ∧
      ((World.run toySetting.toDuo toyWorld
          (aliceTalks ++ (fairRounds 12).flatten)).client .right).shown =
        (toyWorld.client .right).shown ++ [(ascii "alice", [1]), (ascii "alice", [2])] := by
  obtain ⟨hrun, hconnected, hfair, hunder⟩ :
      World.Along toySetting.toDuo (fun w => w.Orderly toySetting.toDuo .left) toyWorld
          (aliceTalks ++ (fairRounds 12).flatten) ∧
        (∀ s, ((World.run toySetting.toDuo toyWorld aliceTalks).client s).connected = true) ∧
        (∀ round ∈ fairRounds 12, Fair round) ∧
        (World.run toySetting.toDuo toyWorld aliceTalks).underWay = 2 := by
    decide +kernel
  have hlong : 6 * (World.run toySetting.toDuo toyWorld aliceTalks).underWay ≤
      (fairRounds 12).length := by
    rw [hunder]
    decide
  have hshown := ((Setting.texts_arrive toySetting_honest transparent_encrypts
    toySetting_established hrun hconnected hfair hlong).2.2.2 .right).1
  rw [aliceTalks_typed] at hshown
  exact ⟨hunder, hshown⟩

end BlankChat.Session
