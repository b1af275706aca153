import BlankChat.Cli.ContactStep
import BlankChat.Lib.Rotation

/-!
# Two clients and a relay

The system that the rotation of keys is about: two clients, each of which knows the
other under some alias, a relay that keeps every mailbox in order and loses nothing,
and for each client the answers of the relay that it has not read yet.

The relay holds the frames of all mailboxes in one list, in the order of their
arrival; a poll takes the first frame of its mailbox. The server has a quota for every
mailbox, and is this relay as long as there is room (`System.Chat`).
-/

namespace BlankChat.Session

open Lib BlankChat.Core Crypto Protocol Client Cli

/-- What does not change: the library, and for each client its randomness, identity
and configuration and the alias under which it knows the other. -/
structure Duo : Type where
  sodium : Sodium
  tape : Side → Tape
  identity : Side → IdentityKey
  pfsMessageInterval : Side → UInt32
  aliasName : Side → Bytes

def Duo.setup (D : Duo) (s : Side) : Setup where
  sodium := D.sodium
  tape := D.tape s
  identity := D.identity s
  pfsMessageInterval := D.pfsMessageInterval s

structure World : Type where
  client : Side → Repl
  relay : List Frame := []
  incoming : Side → List Frame := fun _ => []

inductive Event : Type where
  | send (s : Side) (text : Bytes)
  | tick (s : Side)
  | receive (s : Side)
  | connect (s : Side)
  | restart (s : Side)
deriving DecidableEq

namespace World

def setClient (w : World) (s : Side) (r : Repl) : World :=
  { w with client := Function.update w.client s r }

@[simp] theorem setClient_self (w : World) (s : Side) (r : Repl) :
    (w.setClient s r).client s = r := Function.update_self ..

@[simp] theorem setClient_other (w : World) (s : Side) (r : Repl) :
    (w.setClient s r).client s.other = w.client s.other :=
  Function.update_of_ne (Side.other_ne s) ..

def inMailbox (m : MailboxID) (f : Frame) : Bool := f.mailboxId = m

/-- The frames that wait in a mailbox. -/
def mailbox (w : World) (m : MailboxID) : List Frame := w.relay.filter (inMailbox m)

/-- The answer to a poll: the oldest frame of the mailbox, if there is one. -/
def fetch (w : World) (s : Side) (m : MailboxID) : World :=
  match w.relay.find? (inMailbox m) with
  | none => w
  | some f =>
      { w with
        relay := w.relay.eraseP (inMailbox m)
        incoming := Function.update w.incoming s (w.incoming s ++ [f]) }

/-- A frame reaches the relay: a poll is answered, anything else is stored. -/
def forward (w : World) (s : Side) (f : Frame) : World :=
  if f.action = .poll then w.fetch s f.mailboxId
  else { w with relay := w.relay ++ [f] }

/-- One event. The engine of a client ticks while it is connected; a restart loses
the answers that were not read. -/
def step (D : Duo) (w : World) : Event → World
  | .send s text =>
      w.setClient s ((w.client s).handleSend (D.setup s) (D.aliasName s) text)
  | .tick s =>
      if (w.client s).connected then
        (w.setClient s (w.client s).getNextFrameForCBR.2).forward s
          (w.client s).getNextFrameForCBR.1
      else w
  | .receive s =>
      match w.incoming s with
      | [] => w
      | f :: rest =>
          { w.setClient s ((w.client s).onFrameReceived (D.setup s) f) with
            incoming := Function.update w.incoming s rest }
  | .connect s => w.setClient s ((w.client s).handleConnect (D.setup s))
  | .restart s =>
      { w.setClient s ((w.client s).restart (D.setup s)) with
        incoming := Function.update w.incoming s [] }

def run (D : Duo) (w : World) (events : List Event) : World := events.foldl (step D) w

/-- A condition on each event of a run, in the state in which it happens. -/
def Along (D : Duo) (C : World → Event → Prop) : World → List Event → Prop
  | _, [] => True
  | w, ev :: events => C w ev ∧ Along D C (w.step D ev) events

instance {D : Duo} {C : World → Event → Prop} [∀ w ev, Decidable (C w ev)] :
    (w : World) → (events : List Event) → Decidable (Along D C w events)
  | _, [] => inferInstanceAs (Decidable True)
  | w, ev :: events =>
      have := instDecidableAlong (D := D) (C := C) (w.step D ev) events
      inferInstanceAs (Decidable (_ ∧ _))

/-- The contact of a client. -/
def contact (D : Duo) (w : World) (s : Side) : Option Contact :=
  (w.client s).addressBook.getContact (D.aliasName s)

/-- No client waits for an acknowledgement of its request. -/
def Idle (D : Duo) (w : World) : Prop :=
  ∀ s, ∃ c ∈ w.contact D s, c.pfsState = .idle

/-- The tx half of one session is the rx half of the other. -/
def Mirrored (D : Duo) (w : World) : Prop :=
  ∃ c ∈ w.contact D .left, ∃ c' ∈ w.contact D .right, session c = (session c').swap

/-- No PUSH, hence nothing of a rotation, is left in an outbox, at the relay or
unread. -/
def Settled (w : World) : Prop :=
  (∀ s, ∀ f ∈ (w.client s).outbox ++ w.incoming s, f.action ≠ .push) ∧
    ∀ f ∈ w.relay, f.action ≠ .push

instance (D : Duo) (w : World) : Decidable (w.Idle D) := inferInstanceAs (Decidable (∀ _, _))

instance (D : Duo) (w : World) : Decidable (w.Mirrored D) := inferInstanceAs (Decidable (∃ _, _))

instance (w : World) : Decidable w.Settled := inferInstanceAs (Decidable (_ ∧ _))

theorem run_induction {D : Duo} {C : World → Event → Prop} {P : World → Prop}
    (hstep : ∀ w ev, C w ev → P w → P (w.step D ev)) {w : World} (hw : P w)
    {events : List Event} (h : Along D C w events) : P (run D w events) := by
  induction events generalizing w with
  | nil => exact hw
  | cons ev events ih => exact ih (hstep w ev h.1 hw) h.2

/-- What every event keeps under a condition gives a property of every event. -/
theorem Along.of_invariant {D : Duo} {C Q : World → Event → Prop} {P : World → Prop}
    (hstep : ∀ w ev, C w ev → P w → P (w.step D ev) ∧ Q w ev) {w : World} (hw : P w)
    {events : List Event} (h : Along D C w events) : Along D Q w events := by
  induction events generalizing w with
  | nil => trivial
  | cons ev events ih =>
      obtain ⟨hnext, hq⟩ := hstep w ev h.1 hw
      exact ⟨hq, ih hnext h.2⟩

theorem Along.and {D : Duo} {C C' : World → Event → Prop} {w : World} {events : List Event}
    (h : Along D C w events) (h' : Along D C' w events) :
    Along D (fun w ev => C w ev ∧ C' w ev) w events := by
  induction events generalizing w with
  | nil => trivial
  | cons ev events ih => exact ⟨⟨h.1, h'.1⟩, ih h.2 h'.2⟩

/-! ## The relay -/

theorem filter_eraseP_self {q : Frame → Bool} (l : List Frame) :
    (l.eraseP q).filter q = (l.filter q).tail := by
  induction l with
  | nil => rfl
  | cons f l ih =>
      cases hf : q f with
      | true => rw [List.eraseP_cons_of_pos hf, List.filter_cons_of_pos hf, List.tail_cons]
      | false =>
          rw [List.eraseP_cons_of_neg (by rw [hf]; decide), List.filter_cons_of_neg (by rw [hf]; decide),
            List.filter_cons_of_neg (by rw [hf]; decide), ih]

theorem filter_eraseP_disjoint {q q' : Frame → Bool} (h : ∀ f, q f = true → q' f = false)
    (l : List Frame) : (l.eraseP q).filter q' = l.filter q' := by
  induction l with
  | nil => rfl
  | cons f l ih =>
      cases hf : q f with
      | true => rw [List.eraseP_cons_of_pos hf, List.filter_cons_of_neg (by rw [h f hf]; decide)]
      | false =>
          rw [List.eraseP_cons_of_neg (by rw [hf]; decide), List.filter_cons, List.filter_cons, ih]

theorem mailbox_store (w : World) (f : Frame) (m : MailboxID) :
    { w with relay := w.relay ++ [f] }.mailbox m =
      if f.mailboxId = m then w.mailbox m ++ [f] else w.mailbox m := by
  unfold mailbox
  rw [List.filter_append]
  by_cases hm : f.mailboxId = m
  · rw [if_pos hm, List.filter_cons_of_pos (by simpa [inMailbox] using hm), List.filter_nil]
  · rw [if_neg hm, List.filter_cons_of_neg (by simpa [inMailbox] using hm), List.filter_nil,
      List.append_nil]

theorem mailbox_fetch (w : World) (s : Side) (m m' : MailboxID) :
    (w.fetch s m).mailbox m' = if m' = m then (w.mailbox m).tail else w.mailbox m' := by
  have hrelay : (w.fetch s m).relay = w.relay.eraseP (inMailbox m) := by
    unfold fetch
    split
    · next hnone => rw [List.eraseP_of_forall_not fun f hf => List.find?_eq_none.mp hnone f hf]
    · rfl
  unfold mailbox
  rw [hrelay]
  by_cases hm : m' = m
  · rw [if_pos hm, hm, filter_eraseP_self]
  · rw [if_neg hm, filter_eraseP_disjoint]
    intro f hf
    simp only [inMailbox, decide_eq_true_eq] at hf
    simp [inMailbox, hf, Ne.symm hm]

theorem incoming_fetch (w : World) (s : Side) (m : MailboxID) :
    (w.fetch s m).incoming s = w.incoming s ++ (w.mailbox m).head?.toList := by
  unfold mailbox fetch
  rw [List.head?_filter]
  split
  · next hnone => rw [hnone, Option.toList_none, List.append_nil]
  · next f hsome =>
      rw [hsome]
      exact Function.update_self ..

end World

/-! ## Two clients to run the system on -/

/-- Alice on the left and Bob on the right; both rotate after every message. -/
def toyDuo : Duo where
  sodium := transparent
  tape := fun
    | .left => alice.tape
    | .right => bob.tape
  identity := fun
    | .left => alice.identity
    | .right => bob.identity
  pfsMessageInterval := fun _ => 1
  aliasName := fun
    | .left => ascii "bob"
    | .right => ascii "alice"

/-- The state after the initial handshake: Alice's request and Bob's acknowledgement
have been sent and read. -/
def toyWorld : World where
  client := fun
    | .left => Repl.run (toyDuo.setup .left) {}
        (aliceGreets ++ .tick :: (queued bob bobAnswers).map .receive)
    | .right => Repl.run (toyDuo.setup .right) {} (bobAnswers ++ [.tick])

end BlankChat.Session
