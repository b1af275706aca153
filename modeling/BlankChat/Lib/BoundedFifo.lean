import Mathlib.Data.List.Basic
import Mathlib.Logic.Function.Basic

/-!
# Keyed bounded FIFO channels

A family of channels, one per key. A channel remembers everything it ever
accepted and how much of that it has given out; what is waiting is the
difference. A push is accepted while fewer than `max` values wait, a poll takes
the oldest value that waits, if there is one.

The history is kept on purpose: "the oldest accepted value that no poll has
returned" is `accepted[returned]?`, and a value cannot be returned twice because
`returned` only grows. An implementation that keeps the waiting values alone is
compared with it through `Channel.waiting`.

Polls carry a label, so that the answers of several clients can be told apart.
-/

namespace BlankChat.Lib

/-- A channel: the values accepted so far, and how many of them were returned. -/
structure Channel (V : Type) : Type where
  accepted : List V := []
  returned : ℕ := 0
  returned_le : returned ≤ accepted.length := by simp

namespace Channel

variable {V : Type}

/-- The values that were accepted and not returned, oldest first. -/
def waiting (c : Channel V) : List V := c.accepted.drop c.returned

/-- Accept `v` if fewer than `max` values wait. -/
def push (max : ℕ) (c : Channel V) (v : V) : Channel V :=
  if c.accepted.length - c.returned < max then
    { accepted := c.accepted ++ [v]
      returned := c.returned
      returned_le := by
        rw [List.length_append]
        exact Nat.le_add_right_of_le c.returned_le }
  else c

/-- Return the oldest value that waits. -/
def poll (c : Channel V) : Option V × Channel V :=
  if h : c.returned < c.accepted.length then
    (some c.accepted[c.returned],
      { accepted := c.accepted, returned := c.returned + 1, returned_le := h })
  else (none, c)

theorem waiting_push (max : ℕ) (c : Channel V) (v : V) :
    (c.push max v).waiting =
      if c.waiting.length < max then c.waiting ++ [v] else c.waiting := by
  unfold push waiting
  rw [List.length_drop]
  split
  · exact List.drop_append_of_le_length c.returned_le
  · rfl

theorem poll_eq (c : Channel V) :
    c.poll.1 = c.waiting.head? ∧ c.poll.2.waiting = c.waiting.tail := by
  unfold poll waiting
  split
  · next h =>
      rw [List.drop_eq_getElem_cons h]
      exact ⟨rfl, rfl⟩
  · next h =>
      have hnil : c.accepted.drop c.returned = [] :=
        List.drop_eq_nil_of_le (Nat.le_of_not_lt h)
      simp only [hnil, List.head?_nil, List.tail_nil, and_self]

/-- What a channel has returned, in order. -/
def given (c : Channel V) : List V := c.accepted.take c.returned

theorem given_push (max : ℕ) (c : Channel V) (v : V) :
    (c.push max v).given = c.given := by
  unfold push given
  split
  · exact List.take_append_of_le_length c.returned_le
  · rfl

theorem given_poll (c : Channel V) : c.poll.2.given = c.given ++ c.poll.1.toList := by
  unfold poll given
  split
  · next h => simp only [List.take_add_one, List.getElem?_eq_getElem h]
  · exact (List.append_nil _).symm

end Channel

/-- An operation on the channel of a key; a poll names who asks. -/
inductive FifoOp (L K V : Type) : Type where
  | push (key : K) (value : V)
  | poll (label : L) (key : K)

/-- The answer to a poll: who asked, for which key, and what was returned. -/
structure FifoAnswer (L K V : Type) : Type where
  label : L
  key : K
  value : Option V

def FifoOp.key {L K V : Type} : FifoOp L K V → K
  | .push key _ => key
  | .poll _ key => key

namespace Fifo

variable {L K V : Type}

/-- The values pushed under a key. -/
def pushes [DecidableEq K] (k : K) : List (FifoOp L K V) → List V
  | [] => []
  | .push key value :: ops => if key = k then value :: pushes k ops else pushes k ops
  | .poll _ _ :: ops => pushes k ops

variable [DecidableEq K]

def step (max : ℕ) (σ : K → Channel V) :
    FifoOp L K V → (K → Channel V) × Option (FifoAnswer L K V)
  | .push key value => (Function.update σ key ((σ key).push max value), none)
  | .poll label key =>
      (Function.update σ key (σ key).poll.2, some ⟨label, key, (σ key).poll.1⟩)

def run (max : ℕ) (σ : K → Channel V) : List (FifoOp L K V) → K → Channel V
  | [] => σ
  | op :: ops => run max (step max σ op).1 ops

/-- The answers, in the order of the polls: one for each. -/
def answers (max : ℕ) (σ : K → Channel V) :
    List (FifoOp L K V) → List (FifoAnswer L K V)
  | [] => []
  | op :: ops => (step max σ op).2.toList ++ answers max (step max σ op).1 ops

theorem run_append (max : ℕ) (σ : K → Channel V) (xs ys : List (FifoOp L K V)) :
    run max σ (xs ++ ys) = run max (run max σ xs) ys := by
  induction xs generalizing σ with
  | nil => rfl
  | cons op xs ih => exact ih _

theorem answers_append (max : ℕ) (σ : K → Channel V) (xs ys : List (FifoOp L K V)) :
    answers max σ (xs ++ ys) = answers max σ xs ++ answers max (run max σ xs) ys := by
  induction xs generalizing σ with
  | nil => rfl
  | cons op xs ih =>
      simp only [List.cons_append, answers, run, List.append_assoc, ih]

/-- **Isolation.** The answers for a key are those of the operations on that key,
whatever else goes on and whatever the other channels hold. -/
theorem answers_filter_key (max : ℕ) (k : K) {σ τ : K → Channel V} (h : σ k = τ k)
    (ops : List (FifoOp L K V)) :
    (answers max σ ops).filter (fun a => a.key = k) =
      answers max τ (ops.filter fun op => op.key = k) := by
  induction ops generalizing σ τ with
  | nil => rfl
  | cons op ops ih =>
      by_cases hk : op.key = k
      · -- an operation on `k` does the same to both channels of `k`
        have hstep : (step max σ op).1 k = (step max τ op).1 k ∧
            (step max σ op).2 = (step max τ op).2 := by
          cases op with
          | push key value =>
              obtain rfl : key = k := hk
              simp only [step, Function.update_self, h, and_self]
          | poll label key =>
              obtain rfl : key = k := hk
              simp only [step, Function.update_self, h, and_self]
        have hans : (step max σ op).2.toList.filter (fun a => a.key = k) =
            (step max σ op).2.toList := by
          cases op with
          | push key value => rfl
          | poll label key => simp only [step, Option.toList, List.filter_cons,
              show key = k from hk, decide_true, if_true, List.filter_nil]
        rw [List.filter_cons_of_pos (by simpa using hk), answers, answers,
          List.filter_append, hans, ih hstep.1, hstep.2]
      · -- any other operation leaves the channel of `k` and answers nobody there
        have hstep : (step max σ op).1 k = τ k := by
          rw [← h]
          cases op with
          | push key value => exact Function.update_of_ne (fun he => hk he.symm) _ _
          | poll label key => exact Function.update_of_ne (fun he => hk he.symm) _ _
        have hans : (step max σ op).2.toList.filter (fun a => a.key = k) = [] := by
          cases op with
          | push key value => rfl
          | poll label key => simp only [step, Option.toList, List.filter_cons,
              show ¬ key = k from hk, decide_false, Bool.false_eq_true, if_false,
              List.filter_nil]
        rw [List.filter_cons_of_neg (by simpa using hk), answers, List.filter_append,
          hans, List.nil_append, ih hstep]

/-- **First in, first out, at most once.** The values returned for a key are what
its channel has given out: an initial part of what it accepted, in that order. -/
theorem answers_given (max : ℕ) (k : K) (σ : K → Channel V)
    (ops : List (FifoOp L K V)) :
    (run max σ ops k).given =
      (σ k).given ++
        ((answers max σ ops).filter fun a => a.key = k).filterMap FifoAnswer.value := by
  induction ops generalizing σ with
  | nil => simp [run, answers]
  | cons op ops ih =>
      rw [run, ih, answers, List.filter_append, List.filterMap_append,
        ← List.append_assoc]
      congr 1
      cases op with
      | push key value =>
          by_cases hk : key = k
          · subst hk
            simp [step, Channel.given_push]
          · simp [step, Function.update_of_ne (Ne.symm hk)]
      | poll label key =>
          by_cases hk : key = k
          · subst hk
            cases hp : (σ key).poll.1 <;> simp [step, Channel.given_poll, hp]
          · simp [step, Function.update_of_ne (Ne.symm hk), hk]

/-- What a channel accepts was pushed under its key, in the order of the pushes. -/
theorem accepted_sublist (max : ℕ) (k : K) (σ : K → Channel V)
    (ops : List (FifoOp L K V)) :
    (run max σ ops k).accepted.Sublist ((σ k).accepted ++ pushes k ops) := by
  induction ops generalizing σ with
  | nil => simp [run, pushes]
  | cons op ops ih =>
      rw [run]
      refine (ih _).trans ?_
      cases op with
      | push key value =>
          by_cases hk : key = k
          · subst hk
            simp only [step, Function.update_self, pushes, if_true, Channel.push]
            split
            · simp
            · simp
          · simp [step, pushes, hk, Function.update_of_ne (Ne.symm hk)]
      | poll label key =>
          by_cases hk : key = k
          · subst hk
            have hacc : (σ key).poll.2.accepted = (σ key).accepted := by
              unfold Channel.poll
              split <;> rfl
            simp [step, pushes, hacc]
          · simp [step, pushes, Function.update_of_ne (Ne.symm hk)]

end Fifo

end BlankChat.Lib
