import Mathlib.Data.Multiset.Count
import Mathlib.Algebra.Order.Group.Multiset
import Mathlib.Tactic.Abel

/-!
# Key rotation between two parties

Two parties exchange packets over a network of queues. Every packet belongs to an
*epoch*, and a party reads its current epoch and perhaps the one before. A party
starts a rotation with a `request` that carries a new key; the other answers with an
`ack` that carries its own, moves to the epoch of the two keys and keeps the epoch it
comes from; the first party follows when the `ack` arrives.

The rotation is safe as long as nobody answers a request while its own request is
out: `Agreement` is kept by every operation, and under `Agreement` two parties that
wait for nothing are in the same epoch.
-/

namespace BlankChat.Lib

inductive Side : Type where
  | left
  | right
deriving DecidableEq, Repr

namespace Side

def other : Side → Side
  | left => right
  | right => left

@[simp] theorem other_other (s : Side) : s.other.other = s := by cases s <;> rfl

@[simp] theorem other_ne (s : Side) : s.other ≠ s := by cases s <;> decide

@[simp] theorem ne_other (s : Side) : s ≠ s.other := by cases s <;> decide

theorem eq_or_eq_other (s t : Side) : t = s ∨ t = s.other := by cases s <;> cases t <;> decide

instance {P : Side → Prop} [DecidablePred P] : Decidable (∀ s, P s) :=
  decidable_of_iff (P left ∧ P right)
    ⟨fun h s => by cases s; exacts [h.1, h.2], fun h => ⟨h left, h right⟩⟩

end Side

namespace Rotation

/-- An epoch is fixed by the keys of the left and of the right party. -/
inductive Epoch (K : Type) : Type where
  | initial
  | exchange (left right : K)
deriving DecidableEq

/-- The epoch of a party's own key and the key of the other. -/
def Epoch.of {K : Type} : Side → K → K → Epoch K
  | .left, mine, theirs => .exchange mine theirs
  | .right, mine, theirs => .exchange theirs mine

theorem Epoch.of_other {K : Type} (s : Side) (mine theirs : K) :
    Epoch.of s.other theirs mine = Epoch.of s mine theirs := by
  cases s <;> rfl

inductive Body (K T : Type) : Type where
  | text (content : T)
  | receipt (content : T)
  | request (e : K)
  | ack (e e' : K)
deriving DecidableEq

/-- Any packet but a receipt confirms its epoch. -/
def Body.confirms {K T : Type} : Body K T → Bool
  | .receipt _ => false
  | _ => true

def Body.isRequest {K T : Type} : Body K T → Bool
  | .request _ => true
  | _ => false

def Body.isAck {K T : Type} : Body K T → Bool
  | .ack _ _ => true
  | _ => false

structure Packet (K T : Type) : Type where
  dest : Side
  epoch : Epoch K
  body : Body K T
deriving DecidableEq

structure Party (K T : Type) : Type where
  cur : Epoch K
  old : Option (Epoch K) := none
  pending : Option K := none
  out : List (Packet K T) := []

namespace Party

variable {K T : Type}

/-- A packet of the party `s` in its current epoch. -/
def packet (p : Party K T) (s : Side) (b : Body K T) : Packet K T := ⟨s.other, p.cur, b⟩

def queue (p : Party K T) (s : Side) (b : Body K T) : Party K T :=
  { p with out := p.out ++ [p.packet s b] }

def start (p : Party K T) (s : Side) (e : K) : Party K T :=
  { p with pending := some e, out := p.out ++ [p.packet s (.request e)] }

/-- The request for `e` is answered with the own key `e'`. -/
def answer (p : Party K T) (s : Side) (e e' : K) : Party K T :=
  { p with
    cur := Epoch.of s e' e
    old := some p.cur
    out := p.out ++ [p.packet s (.ack e e')] }

/-- The own request for `e` is answered with `e'`. -/
def complete (p : Party K T) (s : Side) (e e' : K) : Party K T :=
  { p with cur := Epoch.of s e e', pending := none }

/-- The old epoch is given up. -/
def giveUp (p : Party K T) : Party K T := { p with old := none }

/-- The old epoch is given up when a packet that confirms the current one is read. -/
def hear [DecidableEq K] (p : Party K T) (m : Packet K T) : Party K T :=
  if m.body.confirms ∧ p.old ≠ some m.epoch then p.giveUp else p

/-- Only the current epoch survives a restart. -/
def restart (p : Party K T) : Party K T := { cur := p.cur }

/-- The epochs a party reads. -/
def Reads (p : Party K T) (ep : Epoch K) : Prop := p.cur = ep ∨ p.old = some ep

theorem giveUp_eq_self {p : Party K T} (h : p.old = none) : p.giveUp = p := by
  unfold giveUp
  rw [← h]

section Hear

variable [DecidableEq K] {p : Party K T} {m : Packet K T}

theorem hear_eq_self (h : m.body.confirms = false ∨ p.old = some m.epoch) : p.hear m = p := by
  unfold hear
  rw [if_neg]
  rintro ⟨hconfirms, hold⟩
  rcases h with h | h
  · rw [h] at hconfirms
    cases hconfirms
  · exact hold h

theorem hear_eq_giveUp (h : m.body.confirms = true) (hold : p.old ≠ some m.epoch) :
    p.hear m = p.giveUp := if_pos ⟨h, hold⟩

/-- Only the old epoch depends on what is heard. -/
theorem hear_fields : (p.hear m).cur = p.cur ∧ (p.hear m).pending = p.pending ∧
    (p.hear m).out = p.out := by
  unfold hear
  split <;> exact ⟨rfl, rfl, rfl⟩

/-- An answer replaces the old epoch, whether or not it was given up before. -/
theorem hear_answer (s : Side) (e e' : K) : (p.hear m).answer s e e' = p.answer s e e' := by
  unfold hear
  split <;> rfl

theorem hear_complete (s : Side) (e e' : K) :
    (p.hear m).complete s e e' = (p.complete s e e').hear m := by
  unfold hear
  rw [show (p.complete s e e').old = p.old from rfl]
  split <;> rfl

end Hear

end Party

/-- Packets are in the outbox of a party, at the relay, or on their way from the
relay to a party that has fetched them. -/
structure Net (K T : Type) : Type where
  party : Side → Party K T
  relay : List (Packet K T) := []
  incoming : Side → List (Packet K T) := fun _ => []

namespace Net

variable {K T : Type}

/-! ## Operations -/

def set (v : Net K T) (s : Side) (p : Party K T) : Net K T :=
  { v with party := Function.update v.party s p }

def packet (v : Net K T) (s : Side) (b : Body K T) : Packet K T := (v.party s).packet s b

def queue (v : Net K T) (s : Side) (b : Body K T) : Net K T :=
  v.set s ((v.party s).queue s b)

def start (v : Net K T) (s : Side) (e : K) : Net K T :=
  v.set s ((v.party s).start s e)

def answer (v : Net K T) (s : Side) (e e' : K) : Net K T :=
  v.set s ((v.party s).answer s e e')

def complete (v : Net K T) (s : Side) (e e' : K) : Net K T :=
  v.set s ((v.party s).complete s e e')

def giveUp (v : Net K T) (s : Side) : Net K T :=
  v.set s (v.party s).giveUp

def transmit (v : Net K T) (s : Side) : Net K T :=
  match (v.party s).out with
  | [] => v
  | p :: rest => { v.set s { v.party s with out := rest } with relay := v.relay ++ [p] }

/-- The packets that wait for a party in an epoch. -/
def isFor [DecidableEq K] (s : Side) (ep : Epoch K) (p : Packet K T) : Bool :=
  p.dest = s ∧ p.epoch = ep

/-- The oldest packet of an epoch is fetched from the relay. -/
def poll [DecidableEq K] (v : Net K T) (s : Side) (ep : Epoch K) : Net K T :=
  match v.relay.find? (isFor s ep) with
  | none => v
  | some p =>
      { v with
        relay := v.relay.eraseP (isFor s ep)
        incoming := Function.update v.incoming s (v.incoming s ++ [p]) }

/-- The oldest fetched packet is consumed. -/
def take (v : Net K T) (s : Side) : Net K T :=
  { v with incoming := Function.update v.incoming s (v.incoming s).tail }

/-- A restart loses the packets that were fetched and not consumed. -/
def restart (v : Net K T) (s : Side) : Net K T :=
  { v.set s (v.party s).restart with incoming := Function.update v.incoming s [] }

/-! ## What the operations do to the parties -/

@[simp] theorem set_party_self (v : Net K T) (s : Side) (p : Party K T) :
    (v.set s p).party s = p := Function.update_self ..

@[simp] theorem set_party_other (v : Net K T) (s : Side) (p : Party K T) :
    (v.set s p).party s.other = v.party s.other :=
  Function.update_of_ne (Side.other_ne s) ..

theorem set_party_ne (v : Net K T) {s t : Side} (h : t ≠ s) (p : Party K T) :
    (v.set s p).party t = v.party t := Function.update_of_ne h ..

@[simp] theorem set_party_eq (v : Net K T) (s : Side) : v.set s (v.party s) = v := by
  unfold set
  rw [Function.update_eq_self]

@[simp] theorem set_set (v : Net K T) (s : Side) (p p' : Party K T) :
    (v.set s p).set s p' = v.set s p' := by
  unfold set
  rw [Function.update_idem]

@[simp] theorem set_incoming (v : Net K T) (s : Side) (p : Party K T) :
    (v.set s p).incoming = v.incoming := rfl

@[simp] theorem set_relay (v : Net K T) (s : Side) (p : Party K T) :
    (v.set s p).relay = v.relay := rfl

@[simp] theorem poll_party [DecidableEq K] (v : Net K T) (s : Side) (ep : Epoch K) :
    (v.poll s ep).party = v.party := by
  unfold poll
  split <;> rfl

theorem transmit_party (v : Net K T) (s t : Side) :
    ((v.transmit s).party t).cur = (v.party t).cur ∧
      ((v.transmit s).party t).old = (v.party t).old ∧
      ((v.transmit s).party t).pending = (v.party t).pending := by
  unfold transmit
  split
  · exact ⟨rfl, rfl, rfl⟩
  · rcases Side.eq_or_eq_other s t with rfl | rfl
    · simp
    · simp

/-! ## The packets of the whole network -/

def all (v : Net K T) : Multiset (Packet K T) :=
  (v.party .left).out + (v.party .right).out + v.relay + v.incoming .left + v.incoming .right

/-- The outbox of one party and everything else. -/
def rest (v : Net K T) (s : Side) : Multiset (Packet K T) :=
  (v.party s.other).out + v.relay + v.incoming .left + v.incoming .right

theorem all_eq (v : Net K T) (s : Side) : v.all = (v.party s).out + v.rest s := by
  cases s with
  | left =>
      unfold all rest Side.other
      abel
  | right =>
      unfold all rest Side.other
      abel

theorem rest_set (v : Net K T) (s : Side) (p : Party K T) : (v.set s p).rest s = v.rest s := by
  unfold rest
  rw [set_party_other]
  rfl

theorem all_set (v : Net K T) (s : Side) (p : Party K T) : (v.set s p).all = p.out + v.rest s := by
  rw [all_eq _ s, set_party_self, rest_set]

theorem all_set_append (v : Net K T) (s : Side) {p : Party K T} {q : Packet K T}
    (h : p.out = (v.party s).out ++ [q]) : (v.set s p).all = q ::ₘ v.all := by
  rw [all_set, h, all_eq v s, ← Multiset.coe_add, Multiset.coe_singleton, add_right_comm,
    add_comm, Multiset.singleton_add]

theorem all_set_same (v : Net K T) (s : Side) {p : Party K T} (h : p.out = (v.party s).out) :
    (v.set s p).all = v.all := by
  rw [all_set, h, all_eq v s]

theorem all_incoming (v : Net K T) (s : Side) (l : List (Packet K T)) :
    { v with incoming := Function.update v.incoming s l }.all + v.incoming s = v.all + l := by
  cases s with
  | left =>
      simp only [all, Function.update_self, Function.update_of_ne (show Side.right ≠ .left by decide)]
      abel
  | right =>
      simp only [all, Function.update_self, Function.update_of_ne (show Side.left ≠ .right by decide)]
      abel

theorem all_transmit (v : Net K T) (s : Side) : (v.transmit s).all = v.all := by
  unfold transmit
  split
  · rfl
  · next p rest hout =>
      rw [all_eq v s, all_eq _ s, hout, ← Multiset.cons_coe]
      unfold Net.rest
      simp only [set_party_self, set_party_other, set_incoming, ← Multiset.coe_add,
        Multiset.coe_singleton]
      rw [← Multiset.singleton_add]
      abel

theorem find?_split {α : Type} {q : α → Bool} {l : List α} {p : α} (h : l.find? q = some p) :
    ∃ l₁ l₂, l = l₁ ++ p :: l₂ ∧ l.eraseP q = l₁ ++ l₂ ∧ (∀ a ∈ l₁, q a = false) ∧ q p = true := by
  obtain ⟨hp, l₁, l₂, rfl, hl₁⟩ := List.find?_eq_some_iff_append.mp h
  have hl₁' : ∀ a ∈ l₁, q a = false := fun a ha => by simpa using hl₁ a ha
  refine ⟨l₁, l₂, rfl, ?_, hl₁', hp⟩
  rw [List.eraseP_append_right _ (fun a ha => by rw [hl₁' a ha]; decide), List.eraseP_cons_of_pos hp]

theorem all_poll [DecidableEq K] (v : Net K T) (s : Side) (ep : Epoch K) :
    (v.poll s ep).all = v.all := by
  unfold poll
  split
  · rfl
  · next p hp =>
      obtain ⟨l₁, l₂, hrelay, herase, -⟩ := find?_split hp
      have h := all_incoming { v with relay := l₁ ++ l₂ } s (v.incoming s ++ [p])
      have hv : v.all = { v with relay := l₁ ++ l₂ }.all + {p} := by
        simp only [all, hrelay, ← Multiset.coe_add, ← Multiset.cons_coe, ← Multiset.singleton_add]
        abel
      rw [herase, hv]
      refine add_right_cancel (b := (v.incoming s : Multiset (Packet K T))) (Eq.trans h ?_)
      rw [← Multiset.coe_add, Multiset.coe_singleton]
      abel

theorem all_take (v : Net K T) {s : Side} {p : Packet K T} {l : List (Packet K T)}
    (h : v.incoming s = p :: l) : v.all = p ::ₘ (v.take s).all := by
  have hall := all_incoming v s l
  have htake : v.take s = { v with incoming := Function.update v.incoming s l } := by
    unfold take
    rw [h, List.tail_cons]
  rw [htake]
  rw [h, ← Multiset.cons_coe, ← Multiset.singleton_add, ← add_assoc] at hall
  rw [← Multiset.singleton_add, add_comm]
  exact (add_right_cancel hall).symm

/-- A restart loses the packets in the outbox and those on their way in. -/
theorem all_restart (v : Net K T) (s : Side) :
    (v.restart s).all + (v.party s).out + v.incoming s = v.all := by
  have hall := all_incoming (v.set s (v.party s).restart) s []
  have hset : (v.set s (v.party s).restart).all = v.rest s := by
    rw [all_set]
    exact zero_add _
  rw [Multiset.coe_nil, add_zero, hset] at hall
  have hrestart : (v.restart s).all + v.incoming s = v.rest s := hall
  rw [add_right_comm, hrestart, all_eq v s, add_comm]

end Net

/-! ## Agreement -/

variable {K T : Type}

/-- A request that the party `s` made. -/
def RequestFrom (s : Side) (p : Packet K T) : Prop :=
  p.dest = s.other ∧ p.body.isRequest = true

instance (s : Side) : DecidablePred (RequestFrom (K := K) (T := T) s) :=
  fun _ => inferInstanceAs (Decidable (_ ∧ _))

def IsAck (p : Packet K T) : Prop := p.body.isAck = true

instance : DecidablePred (IsAck (K := K) (T := T)) := fun _ => inferInstanceAs (Decidable (_ = _))

/-- At most one request of a party is under way, for its pending key and in its
current epoch. -/
structure Requests (v : Net K T) (s : Side) : Prop where
  once : v.all.countP (RequestFrom s) ≤ 1
  own : ∀ p ∈ v.all, RequestFrom s p → ∃ e, (v.party s).pending = some e ∧
    p = v.packet s (.request e)

/-- The other party has answered the request of `s`, and at most this one answer is
under way. -/
structure Ahead (v : Net K T) (s : Side) (e e' : K) : Prop where
  pending : (v.party s).pending = some e
  moved : (v.party s.other).cur = Epoch.of s e e'
  answered : ∀ p ∈ v.all, ¬ RequestFrom s p
  once : v.all.countP IsAck ≤ 1
  ack : ∀ p ∈ v.all, IsAck p → p = ⟨s, (v.party s).cur, .ack e e'⟩

/-- Both parties are in the same epoch, or one of them is ahead. -/
structure Agreement (v : Net K T) : Prop where
  requests : ∀ s, Requests v s
  epochs : ((v.party .left).cur = (v.party .right).cur ∧ ∀ p ∈ v.all, ¬ IsAck p) ∨
    ∃ s e e', Ahead v s e e'

theorem Agreement.idle {v : Net K T} (h : Agreement v) (hidle : ∀ s, (v.party s).pending = none) :
    (v.party .left).cur = (v.party .right).cur := by
  rcases h.epochs with ⟨heq, -⟩ | ⟨s, e, e', hahead⟩
  · exact heq
  · have hpending := hahead.pending
    rw [hidle s] at hpending
    cases hpending

theorem same_epoch {v : Net K T} (h : (v.party .left).cur = (v.party .right).cur) (s : Side) :
    (v.party s.other).cur = (v.party s).cur := by
  cases s with
  | left => exact h.symm
  | right => exact h

theorem same_epoch_iff {v : Net K T} {s : Side} (h : (v.party s.other).cur = (v.party s).cur) :
    (v.party .left).cur = (v.party .right).cur := by
  cases s with
  | left => exact h.symm
  | right => exact h

theorem packet_congr {v v' : Net K T} {s : Side}
    (h : (v'.party s).cur = (v.party s).cur) (b : Body K T) : v'.packet s b = v.packet s b := by
  unfold Net.packet Party.packet
  rw [h]

theorem Requests.none_of_idle {v : Net K T} {s : Side} (h : Requests v s)
    (hidle : (v.party s).pending = none) : ∀ p ∈ v.all, ¬ RequestFrom s p := by
  intro p hp hreq
  obtain ⟨e, he, -⟩ := h.own p hp hreq
  rw [hidle] at he
  cases he

theorem Requests.of_none {v : Net K T} {s : Side} (h : ∀ p ∈ v.all, ¬ RequestFrom s p) :
    Requests v s := by
  constructor
  · rw [Multiset.countP_eq_zero.mpr h]
    exact Nat.zero_le 1
  · intro p hp hreq
    exact absurd hreq (h p hp)

section Mono

variable {v v' : Net K T} (hcur : ∀ s, (v'.party s).cur = (v.party s).cur)
  (hpending : ∀ s, (v'.party s).pending = (v.party s).pending) (hall : v'.all ≤ v.all)

include hcur hpending hall

theorem Requests.mono {s : Side} (h : Requests v s) : Requests v' s := by
  constructor
  · exact (Multiset.countP_le_of_le _ hall).trans h.once
  · intro p hp hreq
    obtain ⟨e, he, rfl⟩ := h.own p (Multiset.mem_of_le hall hp) hreq
    exact ⟨e, (hpending s).trans he, (packet_congr (hcur s) _).symm⟩

theorem Ahead.mono {s : Side} {e e' : K} (h : Ahead v s e e') : Ahead v' s e e' := by
  refine ⟨(hpending s).trans h.pending, (hcur s.other).trans h.moved, ?_, ?_, ?_⟩
  · intro p hp
    exact h.answered p (Multiset.mem_of_le hall hp)
  · exact (Multiset.countP_le_of_le _ hall).trans h.once
  · intro p hp hack
    rw [hcur s]
    exact h.ack p (Multiset.mem_of_le hall hp) hack

/-- Packets may move and get lost as long as nobody changes epoch. -/
theorem Agreement.mono (h : Agreement v) : Agreement v' := by
  refine ⟨fun s => (h.requests s).mono hcur hpending hall, ?_⟩
  rcases h.epochs with ⟨heq, hack⟩ | ⟨s, e, e', hahead⟩
  · refine .inl ⟨by rw [hcur, hcur, heq], ?_⟩
    intro p hp
    exact hack p (Multiset.mem_of_le hall hp)
  · exact .inr ⟨s, e, e', hahead.mono hcur hpending hall⟩

end Mono

namespace Agreement

variable {v : Net K T} {s : Side}

theorem transmit (h : Agreement v) (s : Side) : Agreement (v.transmit s) :=
  h.mono (fun t => (v.transmit_party s t).1) (fun t => (v.transmit_party s t).2.2)
    (le_of_eq (v.all_transmit s))

theorem poll [DecidableEq K] (h : Agreement v) (s : Side) (ep : Epoch K) :
    Agreement (v.poll s ep) :=
  h.mono (fun _ => by rw [Net.poll_party]) (fun _ => by rw [Net.poll_party])
    (le_of_eq (v.all_poll s ep))

theorem take (h : Agreement v) {p : Packet K T} {l : List (Packet K T)}
    (hp : v.incoming s = p :: l) : Agreement (v.take s) := by
  have hle : (v.take s).all ≤ v.all := by
    rw [v.all_take hp]
    exact Multiset.le_cons_self _ _
  exact Agreement.mono (fun t => show ((v.take s).party t).cur = (v.party t).cur from rfl)
    (fun t => show ((v.take s).party t).pending = (v.party t).pending from rfl) hle h

theorem set_fields {p : Party K T} (hcur : p.cur = (v.party s).cur)
    (hpending : p.pending = (v.party s).pending) :
    (∀ t, ((v.set s p).party t).cur = (v.party t).cur) ∧
      ∀ t, ((v.set s p).party t).pending = (v.party t).pending := by
  constructor
  · intro t
    rcases Side.eq_or_eq_other s t with rfl | rfl
    · rw [Net.set_party_self, hcur]
    · rw [Net.set_party_other]
  · intro t
    rcases Side.eq_or_eq_other s t with rfl | rfl
    · rw [Net.set_party_self, hpending]
    · rw [Net.set_party_other]

theorem giveUp (h : Agreement v) (s : Side) : Agreement (v.giveUp s) := by
  obtain ⟨hcur, hpending⟩ := set_fields (v := v) (s := s)
    (p := (v.party s).giveUp) rfl rfl
  exact h.mono hcur hpending (le_of_eq (v.all_set_same s rfl))

theorem hear [DecidableEq K] (h : Agreement v) (s : Side) (m : Packet K T) :
    Agreement (v.set s ((v.party s).hear m)) := by
  unfold Party.hear
  split
  · exact h.giveUp s
  · rw [Net.set_party_eq]
    exact h

theorem queue (h : Agreement v) (s : Side) {b : Body K T} (hreq : b.isRequest = false)
    (hack : b.isAck = false) : Agreement (v.queue s b) := by
  obtain ⟨hcur, hpending⟩ := set_fields (v := v) (s := s)
    (p := (v.party s).queue s b) rfl rfl
  have hall : (v.queue s b).all = v.packet s b ::ₘ v.all := v.all_set_append s rfl
  have hnreq : ∀ t, ¬ RequestFrom t (v.packet s b) := by
    rintro t ⟨-, hr⟩
    rw [show (v.packet s b).body = b from rfl, hreq] at hr
    cases hr
  have hnack : ¬ IsAck (v.packet s b) := by
    intro ha
    rw [IsAck, show (v.packet s b).body = b from rfl, hack] at ha
    cases ha
  constructor
  · intro t
    have hr := h.requests t
    constructor
    · rw [hall, Multiset.countP_cons_of_neg _ (hnreq t)]
      exact hr.once
    · intro p hp hpr
      rw [hall, Multiset.mem_cons] at hp
      rcases hp with rfl | hp
      · exact absurd hpr (hnreq t)
      · obtain ⟨e, he, rfl⟩ := hr.own p hp hpr
        exact ⟨e, (hpending t).trans he, (packet_congr (hcur t) _).symm⟩
  · rcases h.epochs with ⟨heq, hno⟩ | ⟨t, e, e', hahead⟩
    · refine .inl ⟨((hcur _).trans heq).trans (hcur _).symm, ?_⟩
      intro p hp
      rw [hall, Multiset.mem_cons] at hp
      rcases hp with rfl | hp
      · exact hnack
      · exact hno p hp
    · refine .inr ⟨t, e, e', (hpending t).trans hahead.pending,
        (hcur t.other).trans hahead.moved, ?_, ?_, ?_⟩
      · intro p hp
        rw [hall, Multiset.mem_cons] at hp
        rcases hp with rfl | hp
        · exact hnreq t
        · exact hahead.answered p hp
      · rw [hall, Multiset.countP_cons_of_neg _ hnack]
        exact hahead.once
      · intro p hp hpa
        rw [hall, Multiset.mem_cons] at hp
        rcases hp with rfl | hp
        · exact absurd hpa hnack
        · rw [show ((v.queue s b).party t).cur = (v.party t).cur from hcur t]
          exact hahead.ack p hp hpa

theorem start (h : Agreement v) (hidle : (v.party s).pending = none) (e : K) :
    Agreement (v.start s e) := by
  have hall : (v.start s e).all = v.packet s (.request e) ::ₘ v.all := v.all_set_append s rfl
  have hself : ((v.start s e).party s).cur = (v.party s).cur ∧
      ((v.start s e).party s).pending = some e := by
    unfold Net.start
    rw [Net.set_party_self]
    exact ⟨rfl, rfl⟩
  have hother : (v.start s e).party s.other = v.party s.other := Net.set_party_other ..
  have hnone := (h.requests s).none_of_idle hidle
  have hnack : ¬ IsAck (v.packet s (.request e)) := by
    intro ha
    cases ha
  constructor
  · intro t
    rcases Side.eq_or_eq_other s t with rfl | rfl
    · constructor
      · rw [hall, Multiset.countP_cons_of_pos _ ⟨rfl, rfl⟩, Multiset.countP_eq_zero.mpr hnone]
      · intro p hp hreq
        rw [hall, Multiset.mem_cons] at hp
        rcases hp with rfl | hp
        · exact ⟨e, hself.2, (packet_congr hself.1 _).symm⟩
        · exact absurd hreq (hnone p hp)
    · have hnreq : ¬ RequestFrom s.other (v.packet s (.request e)) := by
        rintro ⟨hdest, -⟩
        exact Side.other_ne s (hdest.trans (Side.other_other s))
      constructor
      · rw [hall, Multiset.countP_cons_of_neg _ hnreq]
        exact (h.requests _).once
      · intro p hp hreq
        rw [hall, Multiset.mem_cons] at hp
        rcases hp with rfl | hp
        · exact absurd hreq hnreq
        · obtain ⟨e₁, he₁, rfl⟩ := (h.requests _).own p hp hreq
          exact ⟨e₁, by rw [hother, he₁], (packet_congr (by rw [hother]) _).symm⟩
  · rcases h.epochs with ⟨heq, hno⟩ | ⟨t, e₁, e', hahead⟩
    · refine .inl ⟨same_epoch_iff (s := s) ?_, ?_⟩
      · rw [hother, hself.1, same_epoch heq]
      · intro p hp
        rw [hall, Multiset.mem_cons] at hp
        rcases hp with rfl | hp
        · exact hnack
        · exact hno p hp
    · -- the party that is ahead of the other is not the one that is idle
      obtain rfl : t = s.other := by
        rcases Side.eq_or_eq_other s t with rfl | rfl
        · have hp := hahead.pending
          rw [hidle] at hp
          cases hp
        · rfl
      refine .inr ⟨s.other, e₁, e', by rw [hother, hahead.pending], ?_, ?_, ?_, ?_⟩
      · have hm := hahead.moved
        rw [Side.other_other] at hm ⊢
        rw [hself.1, hm]
      · intro p hp hreq
        rw [hall, Multiset.mem_cons] at hp
        rcases hp with rfl | hp
        · exact Side.other_ne s (hreq.1.trans (Side.other_other s))
        · exact hahead.answered p hp hreq
      · rw [hall, Multiset.countP_cons_of_neg _ hnack]
        exact hahead.once
      · intro p hp hpa
        rw [hall, Multiset.mem_cons] at hp
        rcases hp with rfl | hp
        · exact absurd hpa hnack
        · rw [hother]
          exact hahead.ack p hp hpa

/-- **A request is answered by a party that has none of its own under way.** -/
theorem answer (h : Agreement v) {ep : Epoch K} {e : K} {l : List (Packet K T)}
    (hp : v.incoming s = ⟨s, ep, .request e⟩ :: l) (hidle : (v.party s).pending = none) (e' : K) :
    Agreement ((v.take s).answer s e e') := by
  have htake := v.all_take hp
  have hreq : RequestFrom s.other (⟨s, ep, .request e⟩ : Packet K T) :=
    ⟨(Side.other_other s).symm, rfl⟩
  have hmem : (⟨s, ep, .request e⟩ : Packet K T) ∈ v.all := by
    rw [htake]
    exact Multiset.mem_cons_self _ _
  obtain ⟨e₁, hpending, heq⟩ := (h.requests s.other).own _ hmem hreq
  obtain ⟨-, hep, hbody⟩ := Packet.mk.inj heq
  obtain rfl : e = e₁ := Body.request.inj hbody
  -- the parties are in the same epoch, and no acknowledgement is under way
  obtain ⟨hsame, hno⟩ : (v.party s.other).cur = (v.party s).cur ∧ ∀ p ∈ v.all, ¬ IsAck p := by
    rcases h.epochs with ⟨hcur, hno⟩ | ⟨t, e₁, e₁', hahead⟩
    · exact ⟨same_epoch hcur s, hno⟩
    · exfalso
      rcases Side.eq_or_eq_other s t with rfl | rfl
      · have hp' := hahead.pending
        rw [hidle] at hp'
        cases hp'
      · exact hahead.answered _ hmem hreq
  have hall : ((v.take s).answer s e e').all =
      v.packet s (.ack e e') ::ₘ (v.take s).all := (v.take s).all_set_append s rfl
  have hle : (v.take s).all ≤ v.all := by
    rw [htake]
    exact Multiset.le_cons_self _ _
  have hother : ((v.take s).answer s e e').party s.other = v.party s.other :=
    Net.set_party_other ..
  have hself : (((v.take s).answer s e e').party s).cur = Epoch.of s e' e := by
    unfold Net.answer
    rw [Net.set_party_self]
    rfl
  -- the request was the only one
  have hgone : ∀ p ∈ (v.take s).all, ¬ RequestFrom s.other p := by
    have honce := (h.requests s.other).once
    rw [htake, Multiset.countP_cons_of_pos _ hreq] at honce
    exact Multiset.countP_eq_zero.mp (Nat.le_zero.mp (Nat.le_of_succ_le_succ honce))
  have hnone : ∀ t, ∀ p ∈ ((v.take s).answer s e e').all, ¬ RequestFrom t p := by
    intro t p hp' hr
    rw [hall, Multiset.mem_cons] at hp'
    rcases hp' with rfl | hp'
    · cases hr.2
    · rcases Side.eq_or_eq_other s t with rfl | rfl
      · exact (h.requests t).none_of_idle hidle p (Multiset.mem_of_le hle hp') hr
      · exact hgone p hp' hr
  refine ⟨fun t => .of_none (hnone t), .inr ⟨s.other, e, e', ?_, ?_, hnone _, ?_, ?_⟩⟩
  · rw [hother, hpending]
  · rw [Side.other_other, hself, Epoch.of_other]
  · rw [hall, Multiset.countP_cons_of_pos _ (show IsAck (v.packet s (.ack e e')) from rfl),
      Multiset.countP_eq_zero.mpr (fun p hp' => hno p (Multiset.mem_of_le hle hp'))]
  · intro p hp' hpa
    rw [hall, Multiset.mem_cons] at hp'
    rcases hp' with rfl | hp'
    · rw [hother, hsame]
      rfl
    · exact absurd hpa (hno p (Multiset.mem_of_le hle hp'))

/-- An acknowledgement under way tells who is ahead. -/
theorem ahead_of_ack (h : Agreement v) {ep : Epoch K} {e e' : K}
    (hmem : (⟨s, ep, .ack e e'⟩ : Packet K T) ∈ v.all) : Ahead v s e e' ∧ ep = (v.party s).cur := by
  have hack : IsAck (⟨s, ep, .ack e e'⟩ : Packet K T) := rfl
  rcases h.epochs with ⟨-, hno⟩ | ⟨t, e₁, e₁', hahead⟩
  · exact absurd hack (hno _ hmem)
  · obtain ⟨hst, hep, hbody⟩ := Packet.mk.inj (hahead.ack _ hmem hack)
    obtain ⟨he, he'⟩ := Body.ack.inj hbody
    subst hst he he'
    exact ⟨hahead, hep⟩

/-- **The acknowledgement brings the parties together.** -/
theorem complete (h : Agreement v) {ep : Epoch K} {e e' : K} {l : List (Packet K T)}
    (hp : v.incoming s = ⟨s, ep, .ack e e'⟩ :: l) : Agreement ((v.take s).complete s e e') := by
  have htake := v.all_take hp
  have hack : IsAck (⟨s, ep, .ack e e'⟩ : Packet K T) := rfl
  obtain ⟨hahead, -⟩ := h.ahead_of_ack (htake ▸ Multiset.mem_cons_self _ _)
  have hall : ((v.take s).complete s e e').all = (v.take s).all := (v.take s).all_set_same s rfl
  have hle : ((v.take s).complete s e e').all ≤ v.all := by
    rw [hall, htake]
    exact Multiset.le_cons_self _ _
  have hother : ((v.take s).complete s e e').party s.other = v.party s.other :=
    Net.set_party_other ..
  constructor
  · intro t
    rcases Side.eq_or_eq_other s t with rfl | rfl
    · exact .of_none fun p hp' => hahead.answered p (Multiset.mem_of_le hle hp')
    · constructor
      · exact (Multiset.countP_le_of_le _ hle).trans (h.requests _).once
      · intro p hp' hreq
        obtain ⟨e₁, he₁, rfl⟩ := (h.requests _).own p (Multiset.mem_of_le hle hp') hreq
        exact ⟨e₁, by rw [hother, he₁], (packet_congr (by rw [hother]) _).symm⟩
  · left
    constructor
    · refine same_epoch_iff (s := s) ?_
      rw [hother, hahead.moved]
      unfold Net.complete
      rw [Net.set_party_self]
      rfl
    · have honce := hahead.once
      rw [htake, Multiset.countP_cons_of_pos _ hack] at honce
      rw [hall]
      exact Multiset.countP_eq_zero.mp (Nat.le_zero.mp (Nat.le_of_succ_le_succ honce))

/-- **A restart does no harm** before the own request has left the outbox, or when
there is none. -/
theorem restart (h : Agreement v)
    (hearly : (v.party s).pending = none ∨ ∃ p ∈ (v.party s).out, RequestFrom s p) :
    Agreement (v.restart s) := by
  have hall := v.all_restart s
  have hle : (v.restart s).all + (v.party s).out ≤ v.all := by
    rw [← hall]
    exact Multiset.le_add_right _ _
  have hle' : (v.restart s).all ≤ v.all := (Multiset.le_add_right _ _).trans hle
  have hcur : ∀ t, ((v.restart s).party t).cur = (v.party t).cur := by
    intro t
    rcases Side.eq_or_eq_other s t with rfl | rfl
    · show ((v.set t (v.party t).restart).party t).cur = _
      rw [Net.set_party_self]
      rfl
    · show ((v.set s (v.party s).restart).party s.other).cur = _
      rw [Net.set_party_other]
  have hother : (v.restart s).party s.other = v.party s.other := Net.set_party_other ..
  have hnone : ∀ p ∈ (v.restart s).all, ¬ RequestFrom s p := by
    rcases hearly with hidle | ⟨q, hq, hreq⟩
    · intro p hp
      exact (h.requests s).none_of_idle hidle p (Multiset.mem_of_le hle' hp)
    · -- the only request is in the outbox that is lost
      have honce := (Multiset.countP_le_of_le (RequestFrom s) hle).trans (h.requests s).once
      rw [Multiset.countP_add] at honce
      have hpos : 0 < Multiset.countP (RequestFrom s) ((v.party s).out : Multiset (Packet K T)) :=
        Multiset.countP_pos.mpr ⟨q, Multiset.mem_coe.mpr hq, hreq⟩
      exact Multiset.countP_eq_zero.mp (by omega)
  constructor
  · intro t
    rcases Side.eq_or_eq_other s t with rfl | rfl
    · exact .of_none hnone
    · constructor
      · exact (Multiset.countP_le_of_le _ hle').trans (h.requests _).once
      · intro p hp hreq
        obtain ⟨e, he, rfl⟩ := (h.requests _).own p (Multiset.mem_of_le hle' hp) hreq
        exact ⟨e, by rw [hother, he], (packet_congr (hcur _) _).symm⟩
  · rcases h.epochs with ⟨heq, hno⟩ | ⟨t, e, e', hahead⟩
    · refine .inl ⟨by rw [hcur, hcur, heq], ?_⟩
      intro p hp
      exact hno p (Multiset.mem_of_le hle' hp)
    · -- the party whose request was answered does not restart
      obtain rfl : t = s.other := by
        rcases Side.eq_or_eq_other s t with rfl | rfl
        · exfalso
          rcases hearly with hidle | ⟨q, hq, hreq⟩
          · have hpending := hahead.pending
            rw [hidle] at hpending
            cases hpending
          · refine hahead.answered q ?_ hreq
            rw [v.all_eq t]
            exact Multiset.mem_add.mpr (.inl (Multiset.mem_coe.mpr hq))
        · rfl
      refine .inr ⟨s.other, e, e', by rw [hother, hahead.pending], by rw [hcur, hahead.moved],
        ?_, ?_, ?_⟩
      · intro p hp
        exact hahead.answered p (Multiset.mem_of_le hle' hp)
      · exact (Multiset.countP_le_of_le _ hle').trans hahead.once
      · intro p hp hpa
        rw [hcur]
        exact hahead.ack p (Multiset.mem_of_le hle' hp) hpa

end Agreement

end Rotation

end BlankChat.Lib
