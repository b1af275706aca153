import BlankChat.Lib.Correspondence
import BlankChat.Session.Refinement

/-!
# The two clients and the relay follow the rotation protocol

`Rel` relates a state of the system to a state of the abstract network, `Follows` says
which operations of the network an event amounts to, and `step_follows` is the
simulation: every event of the system is followed by the network, as long as an
acknowledgement reaches a client whose request it answers.
-/

namespace BlankChat.Session

open Lib Lib.Rotation BlankChat.Core Crypto Protocol Client Cli

namespace Setting

variable {G : Setting} {w : World} {v : Network} {s : Side}

/-! ## The simulation relation -/

variable (G) in
structure Rel (w : World) (v : Network) : Prop where
  client : ∀ s, G.Client s (w.client s) (v.party s)
  relay : List.Forall₂ G.Encodes w.relay v.relay
  incoming : ∀ s, List.Forall₂ G.Encodes (w.incoming s) (v.incoming s)
  dest : ∀ s, ∀ m ∈ v.incoming s, m.dest = s

namespace Rel

theorem set (h : G.Rel w v) {r : Repl} {p : Party EphemeralKey Bytes} (hr : G.Client s r p) :
    G.Rel (w.setClient s r) (v.set s p) := by
  refine ⟨?_, h.relay, h.incoming, h.dest⟩
  intro t
  rcases Side.eq_or_eq_other s t with rfl | rfl
  · rw [Net.set_party_self, World.setClient_self]
    exact hr
  · rw [Net.set_party_other, World.setClient_other]
    exact h.client s.other

theorem setIncoming (h : G.Rel w v) {frames : List Frame} {packets : List Message}
    (hframes : List.Forall₂ G.Encodes frames packets) (hdest : ∀ m ∈ packets, m.dest = s) :
    G.Rel { w with incoming := Function.update w.incoming s frames }
      { v with incoming := Function.update v.incoming s packets } := by
  refine ⟨h.client, h.relay, ?_, ?_⟩
  · intro t
    rcases Side.eq_or_eq_other s t with rfl | rfl
    · simp only [Function.update_self]
      exact hframes
    · simp only [Function.update_of_ne (Side.other_ne s)]
      exact h.incoming s.other
  · intro t m hm
    rcases Side.eq_or_eq_other s t with rfl | rfl
    · simp only [Function.update_self] at hm
      exact hdest m hm
    · simp only [Function.update_of_ne (Side.other_ne s)] at hm
      exact h.dest s.other m hm

theorem setRelay (h : G.Rel w v) {frames : List Frame} {packets : List Message}
    (hframes : List.Forall₂ G.Encodes frames packets) :
    G.Rel { w with relay := frames } { v with relay := packets } :=
  ⟨h.client, hframes, h.incoming, h.dest⟩

/-- A frame is in the mailbox of an epoch when its packet is for the epoch. -/
theorem inMailbox_eq (hG : G.Honest) {ep : Epoch EphemeralKey} (hep : G.ValidEpoch ep) {f : Frame}
    {m : Message} (hfm : G.Encodes f m) :
    World.inMailbox (G.sessionOf s ep).rxId f = Net.isFor s ep m := by
  unfold World.inMailbox Net.isFor
  rw [decide_eq_decide, hfm.mailbox]
  constructor
  · intro hid
    exact hG.distinct _ _ _ _ hfm.epoch hep hid
  · rintro ⟨rfl, rfl⟩
    rfl

theorem fetch (hG : G.Honest) (h : G.Rel w v) {ep : Epoch EphemeralKey} (hep : G.ValidEpoch ep) :
    G.Rel (w.fetch s (G.sessionOf s ep).rxId) (v.poll s ep) := by
  have hq : ∀ f m, G.Encodes f m →
      World.inMailbox (G.sessionOf s ep).rxId f = Net.isFor s ep m :=
    fun f m hfm => inMailbox_eq hG hep hfm
  have hfind := forall₂_find? h.relay hq
  have herase := forall₂_eraseP h.relay hq
  unfold World.fetch Net.poll
  cases hv : v.relay.find? (Net.isFor s ep) with
  | none =>
      rw [hv] at hfind
      cases hw : w.relay.find? (World.inMailbox (G.sessionOf s ep).rxId) with
      | none => exact h
      | some f =>
          rw [hw] at hfind
          cases hfind
  | some m =>
      rw [hv] at hfind
      cases hw : w.relay.find? (World.inMailbox (G.sessionOf s ep).rxId) with
      | none =>
          rw [hw] at hfind
          cases hfind
      | some f =>
          rw [hw] at hfind
          cases hfind with
          | some hfm =>
              obtain ⟨-, -, -, -, -, hfor⟩ := Net.find?_split hv
              have hdest : m.dest = s := (decide_eq_true_eq.mp hfor).1
              refine (h.setRelay herase).setIncoming (List.rel_append (h.incoming s) (.cons hfm .nil)) ?_
              intro m' hm'
              rcases List.mem_append.mp hm' with hm' | hm'
              · exact h.dest s m' hm'
              · rw [List.mem_singleton.mp hm', hdest]

end Rel

/-! ## Events -/

variable (G) in
/-- What an event of the system amounts to in the network. -/
def Follows (w : World) (v v' : Network) : Event → Prop
  | .send s text => ∃ p₁ p₂, G.Starts s (v.party s) p₁ ∧ Queues s (.text text) p₁ p₂ ∧ v' = v.set s p₂
  | .tick s =>
      v' = v ∨ ((v.party s).out ≠ [] ∧ v' = v.transmit s) ∨
        ∃ ep, (v.party s).Reads ep ∧ (w.client s).connected = true ∧
          (w.client s).getNextFrameForCBR.1 = Frame.createPoll (G.sessionOf s ep).rxId ∧
          v' = v.poll s ep
  | .receive s =>
      (v.incoming s = [] ∧ v' = v) ∨ ∃ m l, v.incoming s = m :: l ∧
        ((¬ (v.party s).Reads m.epoch ∧ v' = v.take s) ∨
          ∃ p', (v.party s).Reads m.epoch ∧ G.Reacts s m.body ((v.party s).hear m) p' ∧
            v' = (v.take s).set s p')
  | .connect _ => v' = v
  | .restart s => v' = v.restart s

/-- An acknowledgement that a client is about to read answers its request. -/
def Expected (v : Network) : Prop :=
  ∀ s m l, v.incoming s = m :: l → ∀ e e', m.body = .ack e e' → (v.party s).pending = some e

theorem tick_follows (hG : G.Honest) (h : G.Rel w v) (s : Side) :
    ∃ v', G.Follows w v v' (.tick s) ∧ G.Rel (w.step G.toDuo (.tick s)) v' := by
  unfold World.step
  dsimp only
  split
  · next hconnected =>
      have hclient := h.client s
      cases hout : (w.client s).outbox with
      | cons f frames =>
          obtain ⟨m, rest, hpout, hfm, hnext, hrest⟩ := getNextFrameForCBR_send hclient hout
          refine ⟨v.transmit s, .inr (.inl ⟨?_, rfl⟩), ?_⟩
          · rw [hpout]
            exact List.cons_ne_nil _ _
          · rw [hnext]
            unfold World.forward Net.transmit
            rw [if_neg (hfm.action ▸ actionOf_ne_poll _), hpout]
            exact (h.set hrest).setRelay (List.rel_append h.relay (.cons hfm .nil))
      | nil =>
          obtain ⟨ep, hreads, hvalid, hpoll, hrest⟩ :=
            getNextFrameForCBR_poll hclient hconnected hout
          refine ⟨v.poll s ep, .inr (.inr ⟨ep, hreads, hconnected, hpoll, rfl⟩), ?_⟩
          rw [hpoll]
          unfold World.forward
          rw [if_pos (show (Frame.createPoll (G.sessionOf s ep).rxId).action = .poll from rfl)]
          exact (v.set_party_eq s) ▸ (h.set hrest).fetch hG hvalid
  · exact ⟨v, .inl rfl, h⟩

theorem receive_follows (hG : G.Honest) (h : G.Rel w v) (hexpected : Expected v) (s : Side) :
    ∃ v', G.Follows w v v' (.receive s) ∧ G.Rel (w.step G.toDuo (.receive s)) v' := by
  have hincoming := h.incoming s
  unfold World.step
  dsimp only
  split
  · next hnil =>
      rw [hnil] at hincoming
      exact ⟨v, .inl ⟨List.forall₂_nil_left_iff.mp hincoming, rfl⟩, h⟩
  · next f frames hcons =>
      rw [hcons] at hincoming
      obtain ⟨m, l, hfm, hl, hv⟩ := List.forall₂_cons_left_iff.mp hincoming
      have hdest := h.dest s m (hv ▸ List.mem_cons_self)
      have hldest : ∀ m' ∈ l, m'.dest = s := fun m' hm' =>
        h.dest s m' (hv ▸ List.mem_cons_of_mem _ hm')
      obtain ⟨p', hp', hclient⟩ := onFrameReceived_client hG (h.client s) hfm hdest
        (hexpected s m l hv)
      refine ⟨(v.take s).set s p', .inr ⟨m, l, hv, ?_⟩, ?_⟩
      · rcases hp' with ⟨hreads, rfl⟩ | ⟨hreads, hreacts⟩
        · exact .inl ⟨hreads, (v.take s).set_party_eq s⟩
        · exact .inr ⟨p', hreads, hreacts, rfl⟩
      · have hset := (h.set hclient).setIncoming (s := s) hl hldest
        have htail : (v.incoming s).tail = l := by
          rw [hv, List.tail_cons]
        unfold Net.take
        rw [htail]
        exact hset

/-- **Simulation.** The network follows every event of the system. -/
theorem step_follows (hG : G.Honest) (h : G.Rel w v) (hexpected : Expected v) (ev : Event)
    (hread : ∀ s, ev = .restart s → G.Readable) :
    ∃ v', G.Follows w v v' ev ∧ G.Rel (w.step G.toDuo ev) v' := by
  cases ev with
  | send s text =>
      obtain ⟨p₁, p₂, hstarts, hqueues, hclient⟩ := handleSend_client (h.client s) text
      exact ⟨_, ⟨p₁, p₂, hstarts, hqueues, rfl⟩, h.set hclient⟩
  | tick s => exact tick_follows hG h s
  | receive s => exact receive_follows hG h hexpected s
  | connect s =>
      exact ⟨v, rfl, (v.set_party_eq s) ▸ h.set (handleConnect_client (h.client s))⟩
  | restart s =>
      refine ⟨_, rfl, ?_⟩
      exact (h.set (restart_client (hread s rfl) (h.client s))).setIncoming .nil
        (fun m hm => by cases hm)

end Setting

end BlankChat.Session
