import Mathlib.Data.List.Basic
import Mathlib.Logic.Relation

/-!
# One round trip of a key exchange

An initiator sends a request with the public part of a new key; a responder answers it
with the public part of its own. Each then combines its own key with the key of the
other. The network belongs to somebody else: what was sent once can be delivered at any
time, any number of times, or never. An exchange may also fail, and then the responder
has sent an acknowledgement and has no keys.

`Phase` lists the states of the pair, and `phase_of_reachable` says that there are no
others. What the two have in common is read off from it.
-/

namespace BlankChat.Lib.Handshake

/-- Keys, their public parts, and whether a key combines with a public part. The keys of
the two parties combine on both sides or on neither. -/
structure Scheme (K P : Type) : Type where
  pub : K → P
  Combines : K → P → Prop
  OfInitiator : K → Prop
  OfResponder : K → Prop
  combines_comm : ∀ k k', OfInitiator k → OfResponder k' →
    (Combines k (pub k') ↔ Combines k' (pub k))

/-- What a party waits with, what it has agreed on, and all it has ever sent. -/
structure Party (K P : Type) : Type where
  pending : Option K := none
  keys : Option (K × P) := none
  requests : List K := []
  acks : List (P × K) := []

namespace Party

variable {K P : Type}

def request (p : Party K P) (k : K) : Party K P :=
  { p with pending := some k, requests := p.requests ++ [k] }

/-- The request for `e` is acknowledged with `k`, and the exchange fails. -/
def refuse (p : Party K P) (e : P) (k : K) : Party K P := { p with acks := p.acks ++ [(e, k)] }

def answer (p : Party K P) (e : P) (k : K) : Party K P := { p.refuse e k with keys := some (k, e) }

def complete (p : Party K P) (k : K) (e : P) : Party K P :=
  { p with pending := none, keys := some (k, e) }

end Party

structure State (K P : Type) : Type where
  initiator : Party K P := {}
  responder : Party K P := {}

section

variable {K P : Type} (S : Scheme K P)

inductive Step (σ : State K P) : State K P → Prop where
  | request {k : K} (hk : S.OfInitiator k) (hpending : σ.initiator.pending = none)
      (hkeys : σ.initiator.keys = none) :
      Step σ { σ with initiator := σ.initiator.request k }
  | refuse {k k' : K} (hsent : k ∈ σ.initiator.requests) (hk' : S.OfResponder k')
      (hkeys : σ.responder.keys = none) (hfails : ¬ S.Combines k' (S.pub k)) :
      Step σ { σ with responder := σ.responder.refuse (S.pub k) k' }
  | answer {k k' : K} (hsent : k ∈ σ.initiator.requests) (hk' : S.OfResponder k')
      (hkeys : σ.responder.keys = none) (hcombines : S.Combines k' (S.pub k)) :
      Step σ { σ with responder := σ.responder.answer (S.pub k) k' }
  | complete {k k' : K} {e : P} (hpending : σ.initiator.pending = some k)
      (hsent : (e, k') ∈ σ.responder.acks) (hcombines : S.Combines k (S.pub k')) :
      Step σ { σ with initiator := σ.initiator.complete k (S.pub k') }

/-- The acknowledgements of exchanges with `k` that failed. -/
def Failed (k : K) (acks : List (P × K)) : Prop :=
  ∀ a ∈ acks, S.OfResponder a.2 ∧ ¬ S.Combines a.2 (S.pub k)

/-- The phases of the handshake: nothing, a request, a request and its answer, and keys on
both sides. -/
inductive Phase : State K P → Prop where
  | fresh : Phase {}
  | requested {k : K} {failed : List (P × K)} (hk : S.OfInitiator k) (hfailed : Failed S k failed) :
      Phase ⟨({} : Party K P).request k, { acks := failed }⟩
  | answered {k k' : K} {failed : List (P × K)} (hk : S.OfInitiator k) (hk' : S.OfResponder k')
      (hfailed : Failed S k failed) :
      Phase ⟨({} : Party K P).request k,
        ({ acks := failed } : Party K P).answer (S.pub k) k'⟩
  | completed {k k' : K} {failed : List (P × K)} (hk : S.OfInitiator k) (hk' : S.OfResponder k')
      (hfailed : Failed S k failed) :
      Phase ⟨(({} : Party K P).request k).complete k (S.pub k'),
        ({ acks := failed } : Party K P).answer (S.pub k) k'⟩

variable {S} {σ σ' : State K P}

theorem Failed.not_combines {k k' : K} {e : P} {failed : List (P × K)}
    (h : Failed S k failed) (hk : S.OfInitiator k) (hsent : (e, k') ∈ failed) :
    ¬ S.Combines k (S.pub k') := by
  obtain ⟨hk', hfails⟩ := h _ hsent
  exact fun hcombines => hfails ((S.combines_comm k k' hk hk').mp hcombines)

theorem Step.phase (hstep : Step S σ σ') (h : Phase S σ) : Phase S σ' := by
  cases h with
  | fresh =>
      cases hstep with
      | request hk => exact .requested hk (List.forall_mem_nil _)
      | refuse hsent => cases hsent
      | answer hsent => cases hsent
      | complete hpending => cases hpending
  | requested hk hfailed =>
      cases hstep with
      | request _ hpending => cases hpending
      | refuse hsent hk' _ hfails =>
          obtain rfl := List.mem_singleton.mp hsent
          refine .requested hk ?_
          intro a ha
          rcases List.mem_append.mp ha with ha | ha
          · exact hfailed a ha
          · rw [List.mem_singleton.mp ha]
            exact ⟨hk', hfails⟩
      | answer hsent hk' =>
          obtain rfl := List.mem_singleton.mp hsent
          exact .answered hk hk' hfailed
      | complete hpending hsent hcombines =>
          obtain rfl := Option.some.inj hpending
          exact absurd hcombines (hfailed.not_combines hk hsent)
  | answered hk hk' hfailed =>
      cases hstep with
      | request _ hpending => cases hpending
      | refuse _ _ hkeys => cases hkeys
      | answer _ _ hkeys => cases hkeys
      | complete hpending hsent hcombines =>
          obtain rfl := Option.some.inj hpending
          rcases List.mem_append.mp hsent with hsent | hsent
          · exact absurd hcombines (hfailed.not_combines hk hsent)
          · obtain ⟨-, rfl⟩ := Prod.mk.inj (List.mem_singleton.mp hsent)
            exact .completed hk hk' hfailed
  | completed =>
      cases hstep with
      | request _ _ hkeys => cases hkeys
      | refuse _ _ hkeys => cases hkeys
      | answer _ _ hkeys => cases hkeys
      | complete hpending => cases hpending

theorem Phase.steps (h : Phase S σ) (hsteps : Relation.ReflTransGen (Step S) σ σ') :
    Phase S σ' := by
  induction hsteps with
  | refl => exact h
  | tail _ hstep ih => exact hstep.phase ih

/-- **The states of a handshake**, whatever is delivered, again or never. -/
theorem phase_of_reachable (h : Relation.ReflTransGen (Step S) {} σ) : Phase S σ :=
  Phase.fresh.steps h

namespace Phase

/-- One request is sent at most, and by the initiator. -/
theorem requests (h : Phase S σ) :
    σ.initiator.requests.length ≤ 1 ∧ σ.responder.requests = [] := by
  cases h with
  | fresh => exact ⟨Nat.zero_le _, rfl⟩
  | requested => exact ⟨Nat.le_refl _, rfl⟩
  | answered => exact ⟨Nat.le_refl _, rfl⟩
  | completed => exact ⟨Nat.le_refl _, rfl⟩

/-- Acknowledgements come from the responder, which waits for nothing. -/
theorem responder (h : Phase S σ) : σ.initiator.acks = [] ∧ σ.responder.pending = none := by
  cases h with
  | fresh => exact ⟨rfl, rfl⟩
  | requested => exact ⟨rfl, rfl⟩
  | answered => exact ⟨rfl, rfl⟩
  | completed => exact ⟨rfl, rfl⟩

/-- **Agreement.** When the initiator has keys, the responder has the same. -/
theorem agreement (h : Phase S σ) {k : K} {e : P} (hkeys : σ.initiator.keys = some (k, e)) :
    ∃ k', σ.responder.keys = some (k', S.pub k) ∧ e = S.pub k' ∧ S.OfInitiator k ∧
      S.OfResponder k' := by
  cases h with
  | fresh => cases hkeys
  | requested => cases hkeys
  | answered => cases hkeys
  | completed hk hk' =>
      obtain ⟨rfl, rfl⟩ := Prod.mk.inj (Option.some.inj hkeys)
      exact ⟨_, rfl, rfl, hk, hk'⟩

end Phase

end

end BlankChat.Lib.Handshake
