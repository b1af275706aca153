import Mathlib.Data.List.Induction

/-!
# A queue that is written one entry at a time

Producers append to a queue; the front of it is handed to an asynchronous writer, and a
flag says that this was done. When the write has ended a completion handler clears the
flag, takes the front off the queue and, unless the write has failed, starts the next.

The flag is the only thing the code looks at. `outstanding` is what the writer knows: the
writes that were started and whose handlers have not run. That the two agree is proved,
and with it that the handler always finds a front (`run_orderly`).
-/

namespace BlankChat.Lib

structure Pump (α : Type) where
  queue : List α := []
  inProgress : Bool := false
  outstanding : List α := []
  /-- all that was handed to the writer, in order -/
  handed : List α := []

namespace Pump

variable {α : Type}

/-- Start a write, unless one is in progress or there is nothing to write. -/
def pump (p : Pump α) : Pump α :=
  match p.inProgress, p.queue with
  | false, x :: _ =>
      { p with
        inProgress := true
        outstanding := p.outstanding ++ [x]
        handed := p.handed ++ [x] }
  | _, _ => p

/-- The completion handler; `none` if it takes the front of an empty queue. -/
def handler (p : Pump α) (failed : Bool) : Option (Pump α) :=
  match p.queue with
  | [] => none
  | _ :: queue =>
      let p := { p with inProgress := false, queue := queue }
      some (if failed then p else p.pump)

inductive Op (α : Type) : Type where
  | push (x : α)
  | complete (failed : Bool)

/-- One operation. A handler runs only for an outstanding write. -/
def step (p : Pump α) : Op α → Option (Pump α)
  | .push x => some { p with queue := p.queue ++ [x] }.pump
  | .complete failed =>
      match p.outstanding with
      | [] => some p
      | _ :: outstanding => { p with outstanding := outstanding }.handler failed

def run (p : Pump α) (ops : List (Op α)) : Option (Pump α) := ops.foldlM step p

/-- The entries that were queued. -/
def pushed (ops : List (Op α)) : List α :=
  ops.filterMap fun
    | .push x => some x
    | .complete _ => none

/-- The results of the writes that have ended. -/
def completions (ops : List (Op α)) : List Bool :=
  ops.filterMap fun
    | .push _ => none
    | .complete failed => some failed

@[simp] theorem pushed_append (ops ops' : List (Op α)) :
    pushed (ops ++ ops') = pushed ops ++ pushed ops' := List.filterMap_append

@[simp] theorem completions_append (ops ops' : List (Op α)) :
    completions (ops ++ ops') = completions ops ++ completions ops' := List.filterMap_append

/-- What has not been handed to the writer. -/
def waiting (queue : List α) (inProgress : Bool) : List α :=
  if inProgress then queue.tail else queue

/-- The flag says what the writer knows, and the order is that of the queue. -/
structure Orderly (xs : List α) (p : Pump α) : Prop where
  writing : p.inProgress = true → ∃ x rest, p.queue = x :: rest ∧ p.outstanding = [x]
  idle : p.inProgress = false → p.outstanding = []
  order : p.handed ++ waiting p.queue p.inProgress = xs

variable {p p' : Pump α} {ops : List (Op α)} {xs : List α}

@[simp] theorem pump_queue (p : Pump α) : p.pump.queue = p.queue := by
  unfold pump
  split <;> rfl

@[simp] theorem pump_inProgress (p : Pump α) :
    p.pump.inProgress = (p.inProgress || !p.queue.isEmpty) := by
  obtain ⟨queue, inProgress, outstanding, handed⟩ := p
  cases inProgress <;> cases queue <;> rfl

@[simp] theorem pump_handed (p : Pump α) :
    p.pump.handed = p.handed ++ if p.inProgress then [] else p.queue.head?.toList := by
  obtain ⟨queue, inProgress, outstanding, handed⟩ := p
  cases inProgress <;> cases queue <;> simp [pump]

theorem pump_orderly (hflag : p.inProgress = false) (hidle : p.outstanding = [])
    (horder : p.handed ++ p.queue = xs) : Orderly xs p.pump := by
  obtain ⟨queue, inProgress, outstanding, handed⟩ := p
  obtain rfl : inProgress = false := hflag
  obtain rfl : outstanding = [] := hidle
  cases queue with
  | nil => exact ⟨fun h => (by cases h), fun _ => rfl, horder⟩
  | cons x rest =>
      refine ⟨fun _ => ⟨x, rest, rfl, rfl⟩, fun h => (by cases h), ?_⟩
      show (handed ++ [x]) ++ rest = xs
      rw [List.append_assoc]
      exact horder

theorem pump_drained (p : Pump α) (h : p.pump.inProgress = false) : p.pump.queue = [] := by
  rw [pump_inProgress] at h
  rw [pump_queue]
  simpa using (Bool.or_eq_false_iff.mp h).2

theorem Orderly.push (h : Orderly xs p) (x : α) :
    Orderly (xs ++ [x]) { p with queue := p.queue ++ [x] }.pump := by
  obtain ⟨queue, inProgress, outstanding, handed⟩ := p
  cases inProgress with
  | true =>
      obtain ⟨y, rest, rfl, hout⟩ := h.writing rfl
      refine ⟨fun _ => ⟨y, rest ++ [x], rfl, hout⟩, fun hidle => (by cases hidle), ?_⟩
      have horder : handed ++ rest = xs := h.order
      show handed ++ (rest ++ [x]) = xs ++ [x]
      rw [← horder, List.append_assoc]
  | false =>
      have hidle : outstanding = [] := h.idle rfl
      have horder : handed ++ queue = xs := h.order
      refine pump_orderly rfl hidle ?_
      show handed ++ (queue ++ [x]) = xs ++ [x]
      rw [← horder, List.append_assoc]

/-- The pump when the handler of its write has run. -/
def completed (p : Pump α) (failed : Bool) : Pump α :=
  let p := { p with inProgress := false, queue := p.queue.tail, outstanding := [] }
  if failed then p else p.pump

/-- Handlers run while the flag is set, and find a front. -/
theorem Orderly.step_complete (h : Orderly xs p) (failed : Bool) :
    step p (.complete failed) = some (if p.inProgress then p.completed failed else p) := by
  cases hflag : p.inProgress with
  | true =>
      obtain ⟨x, rest, hqueue, hout⟩ := h.writing hflag
      simp only [step, hout, handler, hqueue, completed, List.tail_cons, if_true]
  | false =>
      simp only [step, h.idle hflag]
      rfl

theorem Orderly.completed (h : Orderly xs p) (hflag : p.inProgress = true) (failed : Bool) :
    Orderly xs (p.completed failed) := by
  have horder := h.order
  rw [waiting, if_pos hflag] at horder
  unfold Pump.completed
  cases failed with
  | true => exact ⟨fun h => (by cases h), fun _ => rfl, horder⟩
  | false => exact pump_orderly rfl rfl horder

/-- **A step keeps the order and never fails.** -/
theorem Orderly.step (h : Orderly xs p) (op : Op α) :
    ∃ p', p.step op = some p' ∧ Orderly (xs ++ pushed [op]) p' ∧
      (op ≠ .complete true → (p.inProgress = false → p.queue = []) →
        p'.inProgress = false → p'.queue = []) := by
  cases op with
  | push x => exact ⟨_, rfl, h.push x, fun _ _ => pump_drained _⟩
  | complete failed =>
      refine ⟨_, h.step_complete failed, ?_, ?_⟩
      · show Orderly (xs ++ []) _
        rw [List.append_nil]
        split
        · next hflag => exact h.completed hflag failed
        · exact h
      · intro hok hdrained
        split
        · cases failed with
          | true => exact absurd rfl hok
          | false => exact pump_drained _
        · exact hdrained

theorem run_append (hrun : run {} ops = some p) {op : Op α} (hop : p.step op = some p') :
    run {} (ops ++ [op]) = some p' := by
  rw [run, List.foldlM_append, ← run, hrun]
  simp [hop]

/-- **Every interleaving.** No handler finds the queue empty; the entries that were handed
to the writer are the first that were queued, in order; if no write has failed, none is
left when none is in progress. -/
theorem run_orderly (ops : List (Op α)) :
    ∃ p, run {} ops = some p ∧ Orderly (pushed ops) p ∧
      (.complete true ∉ ops → p.inProgress = false → p.queue = []) := by
  induction ops using List.reverseRecOn with
  | nil =>
      refine ⟨{}, rfl, ⟨fun h => (by cases h), fun _ => rfl, rfl⟩, fun _ _ => rfl⟩
  | append_singleton ops op ih =>
      obtain ⟨p, hrun, horderly, hdrained⟩ := ih
      obtain ⟨p', hstep, horderly', hdrained'⟩ := horderly.step op
      refine ⟨p', ?_, ?_, ?_⟩
      · exact run_append hrun hstep
      · rw [pushed_append]
        exact horderly'
      · intro hok
        apply hdrained'
        · rintro rfl
          exact hok (List.mem_append_right _ List.mem_cons_self)
        · exact hdrained fun hmem => hok (List.mem_append_left _ hmem)

/-- What a queue and its flag say about the writes, when `xs` was queued. -/
structure InOrder (xs queue : List α) (inProgress : Bool) (ok : Prop) (p : Pump α) : Prop where
  single : p.outstanding.length ≤ 1
  front : inProgress = true → ∃ x rest, queue = x :: rest ∧ p.outstanding = [x]
  idle : inProgress = false → p.outstanding = []
  order : p.handed ++ waiting queue inProgress = xs
  drained : ok → p.outstanding = [] → queue = [] ∧ p.handed = xs

theorem InOrder.imp {queue : List α} {inProgress : Bool} {ok ok' : Prop}
    (h : InOrder xs queue inProgress ok p) (hok : ok' → ok) : InOrder xs queue inProgress ok' p :=
  ⟨h.single, h.front, h.idle, h.order, fun h' => h.drained (hok h')⟩

/-- **What the flag is worth.** -/
theorem inOrder_of_run (hrun : run {} ops = some p) :
    InOrder (pushed ops) p.queue p.inProgress (true ∉ completions ops) p := by
  obtain ⟨p', hrun', horderly, hdrained⟩ := run_orderly ops
  obtain rfl := Option.some.inj (hrun.symm.trans hrun')
  refine ⟨?_, horderly.writing, horderly.idle, horderly.order, ?_⟩
  · cases hflag : p.inProgress with
    | true =>
        obtain ⟨x, rest, -, hout⟩ := horderly.writing hflag
        rw [hout]
        exact Nat.le_refl 1
    | false =>
        rw [horderly.idle hflag]
        exact Nat.zero_le 1
  · intro hok hout
    have hok : .complete true ∉ ops := fun hmem => hok (List.mem_filterMap.mpr ⟨_, hmem, rfl⟩)
    have hflag : p.inProgress = false := by
      refine Bool.eq_false_iff.mpr fun hflag => ?_
      obtain ⟨x, rest, -, hout'⟩ := horderly.writing hflag
      rw [hout] at hout'
      cases hout'
    have hqueue := hdrained hok hflag
    have horder := horderly.order
    rw [waiting, hflag, hqueue] at horder
    exact ⟨hqueue, (List.append_nil _).symm.trans horder⟩

/-! ## A component with such a queue -/

/-- A component that keeps such a queue: its operations are those of the pump, except that its
handler looks at the flag. `handed` are the entries it has passed to its writer. -/
structure Component (σ α : Type) where
  queue : σ → List α
  inProgress : σ → Bool
  handed : σ → List α
  write : σ → Op α → σ
  push_queue : ∀ s x, queue (write s (.push x)) = queue s ++ [x]
  push_inProgress : ∀ s x, inProgress (write s (.push x)) = true
  push_handed : ∀ s x, handed (write s (.push x)) =
    handed s ++ if inProgress s then [] else (queue s ++ [x]).head?.toList
  complete_queue : ∀ s failed, queue (write s (.complete failed)) =
    if inProgress s then (queue s).tail else queue s
  complete_inProgress : ∀ s failed, inProgress (write s (.complete failed)) =
    (inProgress s && !failed && !(queue s).tail.isEmpty)
  complete_handed : ∀ s failed, handed (write s (.complete failed)) =
    handed s ++ if inProgress s && !failed then (queue s).tail.head?.toList else []

/-- The component is where the pump is after `ops`, and has handed out what the pump has, after
what it had before. -/
structure Tracks {σ : Type} (C : Component σ α) (before : List α) (ops : List (Op α)) (p : Pump α)
    (s : σ) : Prop where
  run : run {} ops = some p
  queue : p.queue = C.queue s
  inProgress : p.inProgress = C.inProgress s
  handed : before ++ p.handed = C.handed s

section Tracks

variable {σ : Type} {C : Component σ α} {before : List α} {s s' : σ}

theorem tracks_start (hqueue : C.queue s = []) (hidle : C.inProgress s = false) :
    Tracks C (C.handed s) [] {} s :=
  ⟨rfl, hqueue.symm, hidle.symm, List.append_nil _⟩

theorem Tracks.congr (h : Tracks C before ops p s) (hqueue : C.queue s' = C.queue s)
    (hflag : C.inProgress s' = C.inProgress s) (hhanded : C.handed s' = C.handed s) :
    Tracks C before ops p s' :=
  ⟨h.run, h.queue.trans hqueue.symm, h.inProgress.trans hflag.symm, h.handed.trans hhanded.symm⟩

theorem Tracks.push (h : Tracks C before ops p s) (x : α) :
    ∃ p', Tracks C before (ops ++ [.push x]) p' (C.write s (.push x)) := by
  refine ⟨{ p with queue := p.queue ++ [x] }.pump, run_append h.run rfl, ?_, ?_, ?_⟩
  · rw [pump_queue, h.queue, C.push_queue]
  · rw [C.push_inProgress]
    simp
  · rw [pump_handed, C.push_handed, ← List.append_assoc, h.handed, h.queue, h.inProgress]

theorem Tracks.complete (h : Tracks C before ops p s) (failed : Bool) :
    ∃ p', Tracks C before (ops ++ [.complete failed]) p' (C.write s (.complete failed)) := by
  obtain ⟨p', hrun, horderly, -⟩ := run_orderly ops
  obtain rfl := Option.some.inj (h.run.symm.trans hrun)
  refine ⟨_, run_append hrun (horderly.step_complete failed), ?_, ?_, ?_⟩
  · rw [C.complete_queue, ← h.inProgress, ← h.queue]
    cases p.inProgress <;> cases failed <;> simp [completed]
  · rw [C.complete_inProgress, ← h.inProgress, ← h.queue]
    cases hflag : p.inProgress <;> cases failed <;> simp [completed, hflag]
  · rw [C.complete_handed, ← h.handed, ← h.inProgress, ← h.queue]
    cases p.inProgress <;> cases failed <;> simp [completed]

theorem Tracks.write (h : Tracks C before ops p s) (op : Op α) :
    ∃ p', Tracks C before (ops ++ [op]) p' (C.write s op) := by
  cases op with
  | push x => exact h.push x
  | complete failed => exact h.complete failed

theorem Tracks.inOrder (h : Tracks C before ops p s) :
    InOrder (pushed ops) (C.queue s) (C.inProgress s) (true ∉ completions ops) p := by
  rw [← h.queue, ← h.inProgress]
  exact inOrder_of_run h.run

/-- **Any operations on a component that starts idle.** -/
theorem tracks_foldl (hqueue : C.queue s = []) (hidle : C.inProgress s = false)
    (ops : List (Op α)) : ∃ p, Tracks C (C.handed s) ops p (ops.foldl C.write s) := by
  induction ops using List.reverseRecOn with
  | nil => exact ⟨{}, tracks_start hqueue hidle⟩
  | append_singleton ops op ih =>
      obtain ⟨p, htracks⟩ := ih
      rw [List.foldl_append]
      exact htracks.write op

end Tracks

end Pump

end BlankChat.Lib
