import BlankChat.Lib.BoundedFifo
import BlankChat.Network.TcpSession
import Mathlib.Data.List.AList

/-!
# The message broker — `message_broker.h`, `message_broker.cpp`

A map from mailbox ids to queues of frames. `queues[mid]` creates an empty queue
for an unknown mailbox, so a push that the quota rejects may leave one behind; a
poll that takes the last frame erases the entry.

The broker is compared with the channels of `Lib.BoundedFifo` through what waits
for a mailbox, as wire bytes (`Refines`).
-/

namespace BlankChat.Server

open Lib Protocol Network

structure MessageBroker : Type where
  queues : AList (fun _ : MailboxID => List Frame) := ∅
  maxMessages : UInt32

namespace MessageBroker

/-- The map after evaluating `queues[mid]`. -/
def touch (b : MessageBroker) (mid : MailboxID) : MessageBroker :=
  match b.queues.lookup mid with
  | some _ => b
  | none => { b with queues := b.queues.insert mid [] }

/-- The queue of a mailbox, empty if there is none. -/
def queue (b : MessageBroker) (mid : MailboxID) : List Frame :=
  (b.queues.lookup mid).getD []

def processPush (b : MessageBroker) (frame : Frame) : MessageBroker :=
  let mid := frame.mailboxId
  let b := b.touch mid
  if b.maxMessages.toNat ≤ (b.queue mid).length then b
  else { b with queues := b.queues.insert mid (b.queue mid ++ [frame]) }

def processPoll (b : MessageBroker) (mid : MailboxID) : Option Frame × MessageBroker :=
  match b.queues.lookup mid with
  | none => (none, b)
  | some [] => (none, b)
  | some (frame :: rest) =>
      (some frame,
        if rest = [] then { b with queues := b.queues.erase mid }
        else { b with queues := b.queues.insert mid rest })

instance : FrameHandler MessageBroker where
  processPush := processPush
  processPoll := processPoll

/-! ## What the operations do to the queues -/

@[simp] theorem touch_maxMessages (b : MessageBroker) (mid : MailboxID) :
    (b.touch mid).maxMessages = b.maxMessages := by
  unfold touch
  split <;> rfl

@[simp] theorem queue_touch (b : MessageBroker) (mid m : MailboxID) :
    (b.touch mid).queue m = b.queue m := by
  unfold touch queue
  split
  · rfl
  · next hnone =>
      by_cases h : m = mid
      · subst h
        rw [AList.lookup_insert, hnone]
        rfl
      · rw [AList.lookup_insert_ne h]

@[simp] theorem processPush_maxMessages (b : MessageBroker) (frame : Frame) :
    (b.processPush frame).maxMessages = b.maxMessages := by
  unfold processPush
  dsimp only
  split
  · exact touch_maxMessages b _
  · exact touch_maxMessages b _

@[simp] theorem processPoll_maxMessages (b : MessageBroker) (mid : MailboxID) :
    (b.processPoll mid).2.maxMessages = b.maxMessages := by
  unfold processPoll
  split
  · rfl
  · rfl
  · dsimp only
    split <;> rfl

theorem queue_processPush (b : MessageBroker) (frame : Frame) :
    (b.processPush frame).queue =
      if (b.queue frame.mailboxId).length < b.maxMessages.toNat then
        Function.update b.queue frame.mailboxId (b.queue frame.mailboxId ++ [frame])
      else b.queue := by
  unfold processPush
  simp only [touch_maxMessages, queue_touch]
  by_cases hfull : b.maxMessages.toNat ≤ (b.queue frame.mailboxId).length
  · rw [if_pos hfull, if_neg (Nat.not_lt.mpr hfull)]
    exact funext (queue_touch b _)
  · rw [if_neg hfull, if_pos (Nat.lt_of_not_le hfull)]
    funext m
    by_cases h : m = frame.mailboxId
    · subst h
      rw [Function.update_self, queue, AList.lookup_insert]
      rfl
    · rw [Function.update_of_ne h, queue, AList.lookup_insert_ne h]
      exact queue_touch b _ m

theorem processPoll_eq (b : MessageBroker) (mid : MailboxID) :
    (b.processPoll mid).1 = (b.queue mid).head? ∧
      (b.processPoll mid).2.queue = Function.update b.queue mid (b.queue mid).tail := by
  have hkeep : b.queue mid = [] → b.queue = Function.update b.queue mid (b.queue mid).tail := by
    intro h
    rw [h, List.tail_nil, ← h, Function.update_eq_self]
  unfold processPoll
  split
  · next h =>
      have hq : b.queue mid = [] := by rw [queue, h]; rfl
      exact ⟨by rw [hq]; rfl, hkeep hq⟩
  · next h =>
      have hq : b.queue mid = [] := by rw [queue, h]; rfl
      exact ⟨by rw [hq]; rfl, hkeep hq⟩
  · next frame rest h =>
      have hq : b.queue mid = frame :: rest := by rw [queue, h]; rfl
      refine ⟨by rw [hq]; rfl, funext fun m => ?_⟩
      rw [hq, List.tail_cons]
      by_cases hm : m = mid
      · subst hm
        rw [Function.update_self]
        by_cases hrest : rest = []
        · rw [if_pos hrest, hrest, queue, AList.lookup_erase]
          rfl
        · rw [if_neg hrest, queue, AList.lookup_insert]
          rfl
      · rw [Function.update_of_ne hm]
        by_cases hrest : rest = []
        · rw [if_pos hrest, queue, AList.lookup_erase_ne hm, queue]
        · rw [if_neg hrest, queue, AList.lookup_insert_ne hm, queue]

/-! ## Refinement of the bounded channels -/

/-- What waits for a mailbox, as it goes out, is what the channel holds. -/
def Refines (b : MessageBroker) (σ : MailboxID → Channel RawFrame) : Prop :=
  ∀ m, (b.queue m).map Frame.serialize = (σ m).waiting

theorem refines_empty (max : UInt32) :
    Refines { maxMessages := max } fun _ => {} := fun _ => rfl

theorem Refines.push {b : MessageBroker} {σ : MailboxID → Channel RawFrame}
    (h : b.Refines σ) (frame : Frame) :
    (b.processPush frame).Refines (Function.update σ frame.mailboxId
      ((σ frame.mailboxId).push b.maxMessages.toNat frame.serialize)) := by
  intro m
  have hlen : (b.queue frame.mailboxId).length =
      (σ frame.mailboxId).waiting.length := by
    rw [← h, List.length_map]
  rw [queue_processPush, hlen]
  by_cases hm : m = frame.mailboxId
  · subst hm
    rw [Function.update_self, Channel.waiting_push]
    split
    · rw [Function.update_self, List.map_append, h]
      rfl
    · exact h _
  · rw [Function.update_of_ne hm]
    split
    · rw [Function.update_of_ne hm]
      exact h m
    · exact h m

theorem Refines.poll {b : MessageBroker} {σ : MailboxID → Channel RawFrame}
    (h : b.Refines σ) (mid : MailboxID) :
    (b.processPoll mid).1.map Frame.serialize = (σ mid).poll.1 ∧
      (b.processPoll mid).2.Refines (Function.update σ mid (σ mid).poll.2) := by
  obtain ⟨hans, hqueue⟩ := processPoll_eq b mid
  obtain ⟨hans', hwait⟩ := (σ mid).poll_eq
  refine ⟨?_, fun m => ?_⟩
  · rw [hans, hans', ← h, List.head?_map]
  · rw [hqueue]
    by_cases hm : m = mid
    · subst hm
      rw [Function.update_self, Function.update_self, hwait, ← h, List.map_tail]
    · rw [Function.update_of_ne hm, Function.update_of_ne hm]
      exact h m

end MessageBroker

end BlankChat.Server
