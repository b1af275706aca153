import BlankChat.Lib.Run
import Mathlib.Logic.Function.Basic

/-!
# Clients of a shared object

Any number of clients use one object. In `Queued` every client puts its requests into a
queue and finds the answers in another; the object serves the requests of a client in
order, some time after they were made, and the client takes the answers in some time after
they were given. In `Direct` a request is served at the moment it is made.

A client cannot tell the difference. `exists_direct`: whatever happens with the queues, with
direct calls every client could have done the same, in the same order and with the same
answers. The direct run delays what a client does behind a request until the request is
served (`Behind`). This changes the order of what different clients do, but clients meet at
the object only, and there the order stays.

An object may be exchanged for a simpler one that does the same with the requests it meets
in a run (`Exchanges.run`).
-/

namespace BlankChat.Lib.Service

/-- How client `i` makes a request and takes an answer in, and what the object does. -/
structure Scheme (ι σ τ Q R : Type) where
  issue : ι → σ → Q × σ
  accept : ι → σ → R → σ
  serve : τ → ι → Q → τ × List R

variable {ι σ τ Q R : Type}

/-- An object serves some requests, one after the other. -/
def serveAll (serve : τ → Q → τ × List R) (t : τ) : List Q → τ × List R
  | [] => (t, [])
  | request :: requests =>
      ((serveAll serve (serve t request).1 requests).1,
        (serve t request).2 ++ (serveAll serve (serve t request).1 requests).2)

/-! ## The two systems -/

/-- Something that a client does. `work` is what it does by itself. -/
inductive Move (σ R : Type) : Type where
  | work (f : σ → σ)
  | issue
  | accept (answer : R)

/-- `history` is what every client has done. -/
structure Queued (ι σ τ Q R : Type) where
  client : ι → σ
  up : ι → List Q := fun _ => []
  down : ι → List R := fun _ => []
  shared : τ
  history : ι → List (Move σ R) := fun _ => []

inductive Event (ι σ : Type) : Type where
  | work (i : ι) (f : σ → σ)
  | issue (i : ι)
  | serve (i : ι)
  | accept (i : ι)

structure Direct (ι σ τ R : Type) where
  client : ι → σ
  inbox : ι → List R := fun _ => []
  shared : τ
  history : ι → List (Move σ R) := fun _ => []

inductive Act (ι σ : Type) : Type where
  | work (i : ι) (f : σ → σ)
  | call (i : ι)
  | accept (i : ι)

variable (X : Scheme ι σ τ Q R)

section Steps

variable [DecidableEq ι]

def Queued.step (q : Queued ι σ τ Q R) : Event ι σ → Queued ι σ τ Q R
  | .work i f =>
      { q with
        client := Function.update q.client i (f (q.client i))
        history := Function.update q.history i (q.history i ++ [.work f]) }
  | .issue i =>
      { q with
        client := Function.update q.client i (X.issue i (q.client i)).2
        up := Function.update q.up i (q.up i ++ [(X.issue i (q.client i)).1])
        history := Function.update q.history i (q.history i ++ [.issue]) }
  | .serve i =>
      match q.up i with
      | [] => q
      | request :: rest =>
          { q with
            up := Function.update q.up i rest
            down := Function.update q.down i (q.down i ++ (X.serve q.shared i request).2)
            shared := (X.serve q.shared i request).1 }
  | .accept i =>
      match q.down i with
      | [] => q
      | answer :: rest =>
          { q with
            client := Function.update q.client i (X.accept i (q.client i) answer)
            down := Function.update q.down i rest
            history := Function.update q.history i (q.history i ++ [.accept answer]) }

def Queued.run (q : Queued ι σ τ Q R) (events : List (Event ι σ)) : Queued ι σ τ Q R :=
  events.foldl (step X) q

def Direct.step (d : Direct ι σ τ R) : Act ι σ → Direct ι σ τ R
  | .work i f =>
      { d with
        client := Function.update d.client i (f (d.client i))
        history := Function.update d.history i (d.history i ++ [.work f]) }
  | .call i =>
      { client := Function.update d.client i (X.issue i (d.client i)).2
        inbox := Function.update d.inbox i
          (d.inbox i ++ (X.serve d.shared i (X.issue i (d.client i)).1).2)
        shared := (X.serve d.shared i (X.issue i (d.client i)).1).1
        history := Function.update d.history i (d.history i ++ [.issue]) }
  | .accept i =>
      match d.inbox i with
      | [] => d
      | answer :: rest =>
          { d with
            client := Function.update d.client i (X.accept i (d.client i) answer)
            inbox := Function.update d.inbox i rest
            history := Function.update d.history i (d.history i ++ [.accept answer]) }

def Direct.run (d : Direct ι σ τ R) (acts : List (Act ι σ)) : Direct ι σ τ R :=
  acts.foldl (step X) d

variable {X} {i : ι} {d : Direct ι σ τ R} {answer : R} {rest : List R}

theorem Queued.client_work {q : Queued ι σ τ Q R} (f : σ → σ) :
    (q.step X (.work i f)).client i = f (q.client i) := Function.update_self ..

theorem Queued.history_work {q : Queued ι σ τ Q R} (f : σ → σ) :
    (q.step X (.work i f)).history i = q.history i ++ [.work f] := Function.update_self ..

theorem Queued.client_issue {q : Queued ι σ τ Q R} :
    (q.step X (.issue i)).client i = (X.issue i (q.client i)).2 := Function.update_self ..

theorem Queued.up_issue {q : Queued ι σ τ Q R} :
    (q.step X (.issue i)).up i = q.up i ++ [(X.issue i (q.client i)).1] := Function.update_self ..

theorem Queued.history_issue {q : Queued ι σ τ Q R} :
    (q.step X (.issue i)).history i = q.history i ++ [.issue] := Function.update_self ..

theorem Direct.client_work (f : σ → σ) : (d.step X (.work i f)).client i = f (d.client i) :=
  Function.update_self ..

theorem Direct.history_work (f : σ → σ) :
    (d.step X (.work i f)).history i = d.history i ++ [.work f] :=
  Function.update_self ..

theorem Direct.client_call : (d.step X (.call i)).client i = (X.issue i (d.client i)).2 :=
  Function.update_self ..

theorem Direct.inbox_call :
    (d.step X (.call i)).inbox i =
      d.inbox i ++ (X.serve d.shared i (X.issue i (d.client i)).1).2 :=
  Function.update_self ..

theorem Direct.history_call : (d.step X (.call i)).history i = d.history i ++ [.issue] :=
  Function.update_self ..

theorem Direct.client_accept (h : d.inbox i = answer :: rest) :
    (d.step X (.accept i)).client i = X.accept i (d.client i) answer := by
  simp only [step, h]
  exact Function.update_self ..

theorem Direct.inbox_accept (h : d.inbox i = answer :: rest) :
    (d.step X (.accept i)).inbox i = rest := by
  simp only [step, h]
  exact Function.update_self ..

theorem Direct.history_accept (h : d.inbox i = answer :: rest) :
    (d.step X (.accept i)).history i = d.history i ++ [.accept answer] := by
  simp only [step, h]
  exact Function.update_self ..

theorem Direct.shared_accept : (d.step X (.accept i)).shared = d.shared := by
  simp only [step]
  split <;> rfl

theorem Direct.history_step (d : Direct ι σ τ R) (a : Act ι σ) (j : ι) :
    d.history j <+: (d.step X a).history j := by
  have hupdate : ∀ (i : ι) (m : Move σ R),
      d.history j <+: Function.update d.history i (d.history i ++ [m]) j := by
    intro i m
    by_cases hj : j = i
    · subst hj
      rw [Function.update_self]
      exact List.prefix_append _ _
    · rw [Function.update_of_ne hj]
  cases a with
  | work i f => exact hupdate i _
  | call i => exact hupdate i _
  | accept i =>
      simp only [step]
      split
      · exact List.prefix_rfl
      · exact hupdate i _

/-- The first requests of a client are served in a row. -/
theorem Queued.run_serve {q : Queued ι σ τ Q R} {new rest : List Q} (h : q.up i = new ++ rest) :
    q.run X (List.replicate new.length (.serve i)) =
      { q with
        up := Function.update q.up i rest
        down := Function.update q.down i
          (q.down i ++ (serveAll (fun t => X.serve t i) q.shared new).2)
        shared := (serveAll (fun t => X.serve t i) q.shared new).1 } := by
  induction new generalizing q with
  | nil =>
      have hup : Function.update q.up i rest = q.up := Function.update_eq_self_iff.mpr h.symm
      have hdown : Function.update q.down i (q.down i ++ []) = q.down :=
        Function.update_eq_self_iff.mpr (List.append_nil _)
      show q = { q with up := _, down := Function.update q.down i (q.down i ++ []) }
      rw [hup, hdown]
  | cons request new ih =>
      rw [List.length_cons, List.replicate_succ]
      show Queued.run X (q.step X (.serve i)) _ = _
      have hstep : q.step X (.serve i) =
          { q with
            up := Function.update q.up i (new ++ rest)
            down := Function.update q.down i (q.down i ++ (X.serve q.shared i request).2)
            shared := (X.serve q.shared i request).1 } := by
        simp only [step, h]
        rfl
      rw [hstep, ih (Function.update_self ..)]
      dsimp only
      rw [Function.update_idem, Function.update_idem, Function.update_self, List.append_assoc]
      rfl

theorem Queued.run_accept {q : Queued ι σ τ Q R} {new rest : List R} (h : q.down i = new ++ rest) :
    q.run X (List.replicate new.length (.accept i)) =
      { q with
        client := Function.update q.client i (new.foldl (X.accept i) (q.client i))
        down := Function.update q.down i rest
        history := Function.update q.history i (q.history i ++ new.map .accept) } := by
  induction new generalizing q with
  | nil =>
      have hclient : Function.update q.client i (q.client i) = q.client := Function.update_eq_self ..
      have hdown : Function.update q.down i rest = q.down := Function.update_eq_self_iff.mpr h.symm
      have hhistory : Function.update q.history i (q.history i ++ []) = q.history :=
        Function.update_eq_self_iff.mpr (List.append_nil _)
      show q = { q with
        client := Function.update q.client i (q.client i)
        down := _
        history := Function.update q.history i (q.history i ++ []) }
      rw [hclient, hdown, hhistory]
  | cons answer new ih =>
      rw [List.length_cons, List.replicate_succ]
      show Queued.run X (q.step X (.accept i)) _ = _
      have hstep : q.step X (.accept i) =
          { q with
            client := Function.update q.client i (X.accept i (q.client i) answer)
            down := Function.update q.down i (new ++ rest)
            history := Function.update q.history i (q.history i ++ [.accept answer]) } := by
        simp only [step, h]
        rfl
      rw [hstep, ih (Function.update_self ..)]
      dsimp only
      rw [Function.update_idem, Function.update_idem, Function.update_idem, Function.update_self,
        Function.update_self, List.append_assoc]
      rfl

end Steps

/-! ## Another object -/

section Exchange

variable {τ' : Type} {X} {Y : Scheme ι σ τ' Q R} {C : τ → Q → Prop} {abs : τ → τ'}
  {q : Queued ι σ τ Q R}

/-- The request that is served now meets a condition. -/
def Queued.Serves (C : τ → Q → Prop) (q : Queued ι σ τ Q R) : Event ι σ → Prop
  | .serve i => ∀ request ∈ (q.up i).head?, C q.shared request
  | _ => True

/-- The same queues at another object. -/
def Queued.exchange (q : Queued ι σ τ Q R) (abs : τ → τ') : Queued ι σ τ' Q R where
  client := q.client
  up := q.up
  down := q.down
  shared := abs q.shared
  history := q.history

/-- The object of `Y` does with a request what the one of `X` does, where the request meets
the condition. -/
structure Exchanges (C : τ → Q → Prop) (abs : τ → τ') (X : Scheme ι σ τ Q R)
    (Y : Scheme ι σ τ' Q R) : Prop where
  issue : Y.issue = X.issue
  accept : Y.accept = X.accept
  serve : ∀ t i request, C t request →
    Y.serve (abs t) i request = (abs (X.serve t i request).1, (X.serve t i request).2)

variable [DecidableEq ι]

theorem Exchanges.step (h : Exchanges C abs X Y) {e : Event ι σ} (he : q.Serves C e) :
    (q.exchange abs).step Y e = (q.step X e).exchange abs := by
  cases e with
  | work i f => rfl
  | issue i =>
      simp only [Queued.step, Queued.exchange, h.issue]
  | serve i =>
      cases hup : q.up i with
      | nil => simp only [Queued.step, Queued.exchange, hup]
      | cons request rest =>
          have hrequest : C q.shared request := he request (by rw [hup]; rfl)
          simp only [Queued.step, Queued.exchange, hup, h.serve _ i _ hrequest]
  | accept i =>
      cases hdown : q.down i with
      | nil => simp only [Queued.step, Queued.exchange, hdown]
      | cons answer rest => simp only [Queued.step, Queued.exchange, hdown, h.accept]

/-- **Exchanging the object.** The queues and the clients go on as before. -/
theorem Exchanges.run (h : Exchanges C abs X Y) {events : List (Event ι σ)}
    (hevents : Run.Along (Queued.step X) (Queued.Serves C) q events) :
    (q.exchange abs).run Y events = (q.run X events).exchange abs := by
  induction events generalizing q with
  | nil => rfl
  | cons e events ih =>
      show Queued.run Y ((q.exchange abs).step Y e) events = _
      rw [h.step hevents.1]
      exact ih hevents.2

theorem Queued.along_serve {i : ι} {new rest : List Q} (h : q.up i = new ++ rest)
    (hnew : Run.Along (fun t request => (X.serve t i request).1) C q.shared new) :
    Run.Along (Queued.step X) (Queued.Serves C) q (List.replicate new.length (.serve i)) := by
  induction new generalizing q with
  | nil => trivial
  | cons request new ih =>
      have hup : q.up i = request :: (new ++ rest) := h
      have hstep : (q.step X (.serve i)).up i = new ++ rest ∧
          (q.step X (.serve i)).shared = (X.serve q.shared i request).1 := by
        constructor
        · simp only [step, hup]
          exact Function.update_self ..
        · simp only [step, hup]
      rw [List.length_cons, List.replicate_succ]
      refine ⟨fun first hfirst => ?_, ih hstep.1 ?_⟩
      · rw [hup] at hfirst
        obtain rfl := Option.some.inj hfirst
        exact hnew.1
      · rw [hstep.2]
        exact hnew.2

end Exchange

/-! ## What the direct run has put off -/

/-- The state in which some moves bring a client, and the requests it makes. -/
def catchUp (i : ι) : σ → List (Move σ R) → σ × List Q
  | s, [] => (s, [])
  | s, .work f :: ps => catchUp i (f s) ps
  | s, .issue :: ps =>
      ((catchUp i (X.issue i s).2 ps).1, (X.issue i s).1 :: (catchUp i (X.issue i s).2 ps).2)
  | s, .accept answer :: ps => catchUp i (X.accept i s answer) ps

/-- The answers that a client takes in. -/
def accepted : List (Move σ R) → List R
  | [] => []
  | .accept answer :: ps => answer :: accepted ps
  | _ :: ps => accepted ps

/-- What is put off begins with a request: nothing before it has to wait. -/
def Blocked : List (Move σ R) → Prop
  | [] => True
  | p :: _ => p = .issue

/-- A client of the direct run is behind the one of the queued run by `ps`. -/
structure Behind (i : ι) (d : Direct ι σ τ R) (q : Queued ι σ τ Q R) (ps : List (Move σ R)) :
    Prop where
  state : catchUp X i (d.client i) ps = (q.client i, q.up i)
  inbox : d.inbox i = accepted ps ++ q.down i
  history : q.history i = d.history i ++ ps

/-- The object is in the same state, and no client but those in `l` is behind. -/
structure Delayed (l : List ι) (d : Direct ι σ τ R) (q : Queued ι σ τ Q R) : Prop where
  shared : d.shared = q.shared
  behind : ∀ i, ∃ ps, Behind X i d q ps ∧ Blocked ps ∧ (i ∉ l → ps = [])

section Replay

variable {X} {i : ι} {s : σ} {ps : List (Move σ R)}

theorem catchUp_append (i : ι) (s : σ) (ps ps' : List (Move σ R)) :
    catchUp X i s (ps ++ ps') =
      ((catchUp X i (catchUp X i s ps).1 ps').1,
        (catchUp X i s ps).2 ++ (catchUp X i (catchUp X i s ps).1 ps').2) := by
  induction ps generalizing s with
  | nil => rfl
  | cons p ps ih =>
      cases p with
      | work f => exact ih (f s)
      | issue =>
          simp only [List.cons_append, catchUp]
          rw [ih]
      | accept answer => exact ih (X.accept i s answer)

theorem accepted_append (ps ps' : List (Move σ R)) :
    accepted (ps ++ ps') = accepted ps ++ accepted ps' := by
  induction ps with
  | nil => rfl
  | cons p ps ih =>
      cases p with
      | work f => exact ih
      | issue => exact ih
      | accept answer => exact congrArg (answer :: ·) ih

theorem Blocked.append (h : Blocked ps) (hps : ps ≠ []) (ps' : List (Move σ R)) :
    Blocked (ps ++ ps') := by
  cases ps with
  | nil => exact absurd rfl hps
  | cons p ps => exact h

end Replay

/-! ## One client moves -/

section Moves

variable {X} {i : ι} {l : List ι} {d d' : Direct ι σ τ R} {q q' : Queued ι σ τ Q R}
  {ps : List (Move σ R)}

theorem Behind.congr (h : Behind X i d q ps) (hclient : d'.client i = d.client i)
    (hinbox : d'.inbox i = d.inbox i) (hhistory : d'.history i = d.history i)
    (hclient' : q'.client i = q.client i) (hup : q'.up i = q.up i) (hdown : q'.down i = q.down i)
    (hhistory' : q'.history i = q.history i) : Behind X i d' q' ps := by
  refine ⟨?_, ?_, ?_⟩
  · rw [hclient, hclient', hup]
    exact h.state
  · rw [hinbox, hdown]
    exact h.inbox
  · rw [hhistory, hhistory']
    exact h.history

theorem Behind.append (h : Behind X i d q ps)
    (q' : Queued ι σ τ Q R) (p : Move σ R)
    (hclient : (catchUp X i (q.client i) [p]).1 = q'.client i)
    (hup : q'.up i = q.up i ++ (catchUp X i (q.client i) [p]).2)
    (hdown : q.down i = accepted [p] ++ q'.down i) (hhistory : q'.history i = q.history i ++ [p]) :
    Behind X i d q' (ps ++ [p]) := by
  refine ⟨?_, ?_, ?_⟩
  · rw [catchUp_append, h.state, hup, ← hclient]
  · rw [h.inbox, accepted_append, hdown, List.append_assoc]
  · rw [hhistory, h.history, List.append_assoc]

/-- Only client `i` has moved. -/
structure Others (i : ι) (d d' : Direct ι σ τ R) : Prop where
  client : ∀ j, j ≠ i → d'.client j = d.client j
  inbox : ∀ j, j ≠ i → d'.inbox j = d.inbox j
  history : ∀ j, j ≠ i → d'.history j = d.history j

theorem Others.refl (i : ι) (d : Direct ι σ τ R) : Others i d d :=
  ⟨fun _ _ => rfl, fun _ _ => rfl, fun _ _ => rfl⟩

theorem Others.trans {d'' : Direct ι σ τ R} (h : Others i d d') (h' : Others i d' d'') :
    Others i d d'' :=
  ⟨fun j hj => (h'.client j hj).trans (h.client j hj),
    fun j hj => (h'.inbox j hj).trans (h.inbox j hj),
    fun j hj => (h'.history j hj).trans (h.history j hj)⟩

variable [DecidableEq ι]

theorem others_work (i : ι) (d : Direct ι σ τ R) (f : σ → σ) :
    Others i d (d.step X (.work i f)) :=
  ⟨fun _ hj => Function.update_of_ne hj .., fun _ _ => rfl,
    fun _ hj => Function.update_of_ne hj ..⟩

theorem others_call (i : ι) (d : Direct ι σ τ R) : Others i d (d.step X (.call i)) :=
  ⟨fun _ hj => Function.update_of_ne hj .., fun _ hj => Function.update_of_ne hj ..,
    fun _ hj => Function.update_of_ne hj ..⟩

theorem others_accept (i : ι) (d : Direct ι σ τ R) : Others i d (d.step X (.accept i)) := by
  simp only [Direct.step]
  split
  · exact .refl i d
  · exact ⟨fun _ hj => Function.update_of_ne hj .., fun _ hj => Function.update_of_ne hj ..,
      fun _ hj => Function.update_of_ne hj ..⟩

theorem Delayed.move (h : Delayed X l d q) (hothers : Others i d d')
    (hclient : ∀ j, j ≠ i → q'.client j = q.client j) (hup : ∀ j, j ≠ i → q'.up j = q.up j)
    (hdown : ∀ j, j ≠ i → q'.down j = q.down j)
    (hhistory : ∀ j, j ≠ i → q'.history j = q.history j) (hshared : d'.shared = q'.shared)
    (hi : ∃ ps, Behind X i d' q' ps ∧ Blocked ps) : Delayed X (i :: l) d' q' := by
  refine ⟨hshared, fun j => ?_⟩
  by_cases hj : j = i
  · subst hj
    obtain ⟨ps, hbehind, hblocked⟩ := hi
    exact ⟨ps, hbehind, hblocked, fun hmem => absurd List.mem_cons_self hmem⟩
  · obtain ⟨ps, hbehind, hblocked, hnil⟩ := h.behind j
    refine ⟨ps, ?_, hblocked, fun hmem => hnil fun hl => hmem (List.mem_cons_of_mem i hl)⟩
    exact hbehind.congr (hothers.client j hj) (hothers.inbox j hj) (hothers.history j hj)
      (hclient j hj) (hup j hj) (hdown j hj) (hhistory j hj)

/-- What was put off is done, up to the next request. -/
theorem Behind.flush (h : Behind X i d q ps) (hshared : d.shared = q.shared) :
    ∃ acts ps', Behind X i (d.run X acts) q ps' ∧ Blocked ps' ∧ Others i d (d.run X acts) ∧
      (d.run X acts).shared = q.shared := by
  induction ps generalizing d with
  | nil => exact ⟨[], [], h, trivial, .refl i d, hshared⟩
  | cons p ps ih =>
      cases p with
      | issue => exact ⟨[], _, h, rfl, .refl i d, hshared⟩
      | work f =>
          have hnext : Behind X i (d.step X (.work i f)) q ps := by
            refine ⟨?_, h.inbox, ?_⟩
            · rw [Direct.client_work]
              exact h.state
            · rw [Direct.history_work, List.append_assoc]
              exact h.history
          obtain ⟨acts, ps', hbehind, hblocked, hothers, hshared'⟩ := ih hnext hshared
          exact ⟨.work i f :: acts, ps', hbehind, hblocked, (others_work i d f).trans hothers,
            hshared'⟩
      | accept answer =>
          have hinbox : d.inbox i = answer :: (accepted ps ++ q.down i) := h.inbox
          have hnext : Behind X i (d.step X (.accept i)) q ps := by
            refine ⟨?_, Direct.inbox_accept hinbox, ?_⟩
            · rw [Direct.client_accept hinbox]
              exact h.state
            · rw [Direct.history_accept hinbox, List.append_assoc]
              exact h.history
          have hshared₁ : (d.step X (.accept i)).shared = q.shared :=
            Direct.shared_accept.trans hshared
          obtain ⟨acts, ps', hbehind, hblocked, hothers, hshared'⟩ := ih hnext hshared₁
          exact ⟨.accept i :: acts, ps', hbehind, hblocked, (others_accept i d).trans hothers,
            hshared'⟩

/-- All that was put off is done, the requests being served now. -/
theorem Behind.finish (h : Behind X i d q ps) :
    ∃ acts, (d.run X acts).client i = q.client i ∧ (d.run X acts).history i = q.history i ∧
      Others i d (d.run X acts) := by
  -- answers to the requests come behind those that are there
  suffices hmore : ∀ (ps : List (Move σ R)) (d : Direct ι σ τ R) (more : List R) (up : List Q),
      catchUp X i (d.client i) ps = (q.client i, up) →
      d.inbox i = accepted ps ++ (q.down i ++ more) → q.history i = d.history i ++ ps →
      ∃ acts, (d.run X acts).client i = q.client i ∧ (d.run X acts).history i = q.history i ∧
        Others i d (d.run X acts) by
    refine hmore ps d [] (q.up i) h.state ?_ h.history
    rw [List.append_nil]
    exact h.inbox
  intro ps
  induction ps with
  | nil =>
      intro d more up hstate hinbox hhistory
      exact ⟨[], congrArg Prod.fst hstate, (hhistory.trans (List.append_nil _)).symm, .refl i d⟩
  | cons p ps ih =>
      intro d more up hstate hinbox hhistory
      cases p with
      | work f =>
          have hstate' : catchUp X i ((d.step X (.work i f)).client i) ps = (q.client i, up) := by
            rw [Direct.client_work]
            exact hstate
          have hhistory' : q.history i = (d.step X (.work i f)).history i ++ ps := by
            rw [Direct.history_work, List.append_assoc]
            exact hhistory
          obtain ⟨acts, hclient, hsame, hothers⟩ :=
            ih (d.step X (.work i f)) more up hstate' hinbox hhistory'
          exact ⟨.work i f :: acts, hclient, hsame, (others_work i d f).trans hothers⟩
      | issue =>
          have hstate' : catchUp X i ((d.step X (.call i)).client i) ps =
              (q.client i, (catchUp X i (X.issue i (d.client i)).2 ps).2) := by
            rw [Direct.client_call]
            have hclient : (catchUp X i (X.issue i (d.client i)).2 ps).1 = q.client i :=
              congrArg Prod.fst hstate
            rw [← hclient]
          have hinbox' : (d.step X (.call i)).inbox i = accepted ps ++ (q.down i ++
              (more ++ (X.serve d.shared i (X.issue i (d.client i)).1).2)) := by
            rw [Direct.inbox_call, hinbox, List.append_assoc, List.append_assoc]
            rfl
          have hhistory' : q.history i = (d.step X (.call i)).history i ++ ps := by
            rw [Direct.history_call, List.append_assoc]
            exact hhistory
          obtain ⟨acts, hclient, hsame, hothers⟩ := ih _ _ _ hstate' hinbox' hhistory'
          exact ⟨.call i :: acts, hclient, hsame, (others_call i d).trans hothers⟩
      | accept answer =>
          have hhead : d.inbox i = answer :: (accepted ps ++ (q.down i ++ more)) := hinbox
          have hstate' : catchUp X i ((d.step X (.accept i)).client i) ps = (q.client i, up) := by
            rw [Direct.client_accept hhead]
            exact hstate
          have hinbox' := Direct.inbox_accept (X := X) hhead
          have hhistory' : q.history i = (d.step X (.accept i)).history i ++ ps := by
            rw [Direct.history_accept hhead, List.append_assoc]
            exact hhistory
          obtain ⟨acts, hclient, hsame, hothers⟩ := ih _ more up hstate' hinbox' hhistory'
          exact ⟨.accept i :: acts, hclient, hsame, (others_accept i d).trans hothers⟩

end Moves

/-! ## One step of the queued run -/

section Events

variable [DecidableEq ι] {X} {l : List ι} {d : Direct ι σ τ R} {q : Queued ι σ τ Q R}

theorem Delayed.work (h : Delayed X l d q) (i : ι) (f : σ → σ) :
    ∃ acts, Delayed X (i :: l) (d.run X acts) (q.step X (.work i f)) := by
  obtain ⟨ps, hbehind, hblocked, -⟩ := h.behind i
  have hother : ∀ j, j ≠ i → (q.step X (.work i f)).client j = q.client j :=
    fun j hj => Function.update_of_ne hj ..
  by_cases hps : ps = []
  · subst hps
    have hclient : d.client i = q.client i := congrArg Prod.fst hbehind.state
    have hup : [] = q.up i := congrArg Prod.snd hbehind.state
    refine ⟨[.work i f], h.move (others_work (X := X) i d f) hother (fun _ _ => rfl) (fun _ _ => rfl)
      (fun _ hj => Function.update_of_ne hj ..) h.shared ⟨[], ⟨?_, hbehind.inbox, ?_⟩, trivial⟩⟩
    · show catchUp X i ((d.step X (.work i f)).client i) [] =
        ((q.step X (.work i f)).client i, q.up i)
      rw [Direct.client_work, Queued.client_work, hclient, ← hup]
      rfl
    · show (q.step X (.work i f)).history i = (d.step X (.work i f)).history i ++ []
      rw [Queued.history_work, Direct.history_work, hbehind.history, List.append_nil,
        List.append_nil]
  · have hnext : Behind X i d (q.step X (.work i f)) (ps ++ [.work f]) :=
      hbehind.append _ (.work f) (Queued.client_work f).symm (List.append_nil _).symm rfl
        (Queued.history_work f)
    exact ⟨[], h.move (.refl i d) hother (fun _ _ => rfl) (fun _ _ => rfl)
      (fun _ hj => Function.update_of_ne hj ..) h.shared ⟨_, hnext, hblocked.append hps _⟩⟩

theorem Delayed.issue (h : Delayed X l d q) (i : ι) :
    ∃ acts, Delayed X (i :: l) (d.run X acts) (q.step X (.issue i)) := by
  obtain ⟨ps, hbehind, hblocked, -⟩ := h.behind i
  have hnext : Behind X i d (q.step X (.issue i)) (ps ++ [.issue]) :=
    hbehind.append _ .issue Queued.client_issue.symm Queued.up_issue rfl Queued.history_issue
  have hblocked' : Blocked (ps ++ [.issue]) := by
    cases ps with
    | nil => rfl
    | cons p ps => exact hblocked
  exact ⟨[], h.move (.refl i d) (fun _ hj => Function.update_of_ne hj ..)
    (fun _ hj => Function.update_of_ne hj ..) (fun _ _ => rfl)
    (fun _ hj => Function.update_of_ne hj ..) h.shared ⟨_, hnext, hblocked'⟩⟩

theorem Delayed.accept (h : Delayed X l d q) (i : ι) :
    ∃ acts, Delayed X (i :: l) (d.run X acts) (q.step X (.accept i)) := by
  obtain ⟨ps, hbehind, hblocked, -⟩ := h.behind i
  simp only [Queued.step]
  split
  · exact ⟨[], h.move (.refl i d) (fun _ _ => rfl) (fun _ _ => rfl) (fun _ _ => rfl)
      (fun _ _ => rfl) h.shared ⟨ps, hbehind, hblocked⟩⟩
  · next answer rest hdown =>
      by_cases hps : ps = []
      · subst hps
        have hclient : d.client i = q.client i := congrArg Prod.fst hbehind.state
        have hup : [] = q.up i := congrArg Prod.snd hbehind.state
        have hinbox : d.inbox i = answer :: rest := hbehind.inbox.trans hdown
        have hshared : (d.step X (.accept i)).shared = q.shared :=
          Direct.shared_accept.trans h.shared
        refine ⟨[.accept i], h.move (others_accept (X := X) i d)
          (fun _ hj => Function.update_of_ne hj ..) (fun _ _ => rfl) (fun _ hj => Function.update_of_ne hj ..)
          (fun _ hj => Function.update_of_ne hj ..) hshared ⟨[], ⟨?_, ?_, ?_⟩, trivial⟩⟩
        · show catchUp X i ((d.step X (.accept i)).client i) [] = _
          dsimp only
          rw [Direct.client_accept hinbox, Function.update_self, hclient, ← hup]
          rfl
        · show (d.step X (.accept i)).inbox i = _
          dsimp only
          rw [Direct.inbox_accept hinbox, Function.update_self]
          rfl
        · show _ = (d.step X (.accept i)).history i ++ []
          dsimp only
          rw [Direct.history_accept hinbox, Function.update_self, hbehind.history, List.append_nil,
            List.append_nil]
      · have hnext : Behind X i d
            { q with
              client := Function.update q.client i (X.accept i (q.client i) answer)
              down := Function.update q.down i rest
              history := Function.update q.history i (q.history i ++ [.accept answer]) }
            (ps ++ [.accept answer]) := by
          refine hbehind.append _ (.accept answer) ?_ (List.append_nil _).symm ?_
            (Function.update_self ..)
          · dsimp only
            rw [Function.update_self]
            rfl
          · dsimp only
            rw [Function.update_self]
            exact hdown
        exact ⟨[], h.move (.refl i d) (fun _ hj => Function.update_of_ne hj ..)
          (fun _ _ => rfl) (fun _ hj => Function.update_of_ne hj ..)
          (fun _ hj => Function.update_of_ne hj ..) h.shared ⟨_, hnext, hblocked.append hps _⟩⟩

/-- The request that is served is the first thing the direct run has put off. -/
theorem Delayed.serve (h : Delayed X l d q) (i : ι) :
    ∃ acts, Delayed X (i :: l) (d.run X acts) (q.step X (.serve i)) := by
  obtain ⟨ps, hbehind, hblocked, -⟩ := h.behind i
  simp only [Queued.step]
  split
  · exact ⟨[], h.move (.refl i d) (fun _ _ => rfl) (fun _ _ => rfl) (fun _ _ => rfl)
      (fun _ _ => rfl) h.shared ⟨ps, hbehind, hblocked⟩⟩
  · next request rest hup =>
      cases ps with
      | nil =>
          have hnone : [] = q.up i := congrArg Prod.snd hbehind.state
          rw [hup] at hnone
          cases hnone
      | cons p ps =>
          obtain rfl : p = .issue := hblocked
          have hrequests := congrArg Prod.snd hbehind.state
          rw [hup] at hrequests
          obtain ⟨hrequest, hrest⟩ := List.cons.inj hrequests
          have hserved : Behind X i (d.step X (.call i))
              { q with
                up := Function.update q.up i rest
                down := Function.update q.down i (q.down i ++ (X.serve q.shared i request).2)
                shared := (X.serve q.shared i request).1 } ps := by
            refine ⟨?_, ?_, ?_⟩
            · have hclient : (catchUp X i (X.issue i (d.client i)).2 ps).1 = q.client i :=
                congrArg Prod.fst hbehind.state
              dsimp only
              rw [Direct.client_call, Function.update_self, ← hclient, ← hrest]
            · dsimp only
              rw [Direct.inbox_call, hbehind.inbox, hrequest, h.shared, List.append_assoc,
                Function.update_self]
              rfl
            · rw [Direct.history_call, List.append_assoc]
              exact hbehind.history
          have hshared : (d.step X (.call i)).shared = (X.serve q.shared i request).1 := by
            show (X.serve d.shared i (X.issue i (d.client i)).1).1 = _
            rw [hrequest, h.shared]
          obtain ⟨acts, ps', hbehind', hblocked', hothers, hshared'⟩ := hserved.flush hshared
          exact ⟨.call i :: acts, h.move ((others_call i d).trans hothers) (fun _ _ => rfl)
            (fun _ hj => Function.update_of_ne hj ..) (fun _ hj => Function.update_of_ne hj ..)
            (fun _ _ => rfl) hshared' ⟨ps', hbehind', hblocked'⟩⟩

theorem Delayed.step (h : Delayed X l d q) (e : Event ι σ) :
    ∃ acts l', Delayed X l' (d.run X acts) (q.step X e) := by
  cases e with
  | work i f =>
      obtain ⟨acts, hnext⟩ := h.work i f
      exact ⟨acts, _, hnext⟩
  | issue i =>
      obtain ⟨acts, hnext⟩ := h.issue i
      exact ⟨acts, _, hnext⟩
  | serve i =>
      obtain ⟨acts, hnext⟩ := h.serve i
      exact ⟨acts, _, hnext⟩
  | accept i =>
      obtain ⟨acts, hnext⟩ := h.accept i
      exact ⟨acts, _, hnext⟩

end Events

/-! ## Whole runs -/

section Runs

variable [DecidableEq ι] {X}

theorem Delayed.run {l : List ι} {d : Direct ι σ τ R} {q : Queued ι σ τ Q R}
    (h : Delayed X l d q) (events : List (Event ι σ)) :
    ∃ acts l', Delayed X l' (d.run X acts) (q.run X events) := by
  induction events generalizing l d q with
  | nil => exact ⟨[], l, h⟩
  | cons e events ih =>
      obtain ⟨acts, l', hnext⟩ := h.step e
      obtain ⟨acts', l'', hrun⟩ := ih hnext
      refine ⟨acts ++ acts', l'', ?_⟩
      rw [Direct.run, List.foldl_append]
      exact hrun

/-- The clients that are behind catch up, one after the other. -/
theorem Delayed.finish {l : List ι} {d : Direct ι σ τ R} {q : Queued ι σ τ Q R}
    (h : ∀ i, (d.client i = q.client i ∧ d.history i = q.history i) ∨
      i ∈ l ∧ ∃ ps, Behind X i d q ps) :
    ∃ acts, (d.run X acts).client = q.client ∧ (d.run X acts).history = q.history := by
  induction l generalizing d with
  | nil =>
      have hall : ∀ i, d.client i = q.client i ∧ d.history i = q.history i := by
        intro i
        rcases h i with hdone | ⟨hmem, -⟩
        · exact hdone
        · cases hmem
      exact ⟨[], funext fun i => (hall i).1, funext fun i => (hall i).2⟩
  | cons i l ih =>
      have hi : ∃ acts, (d.run X acts).client i = q.client i ∧
          (d.run X acts).history i = q.history i ∧ Others i d (d.run X acts) := by
        rcases h i with ⟨hclient, hhistory⟩ | ⟨-, ps, hbehind⟩
        · exact ⟨[], hclient, hhistory, .refl i d⟩
        · exact hbehind.finish
      obtain ⟨acts, hclient, hhistory, hothers⟩ := hi
      have hnext : ∀ j, ((d.run X acts).client j = q.client j ∧
          (d.run X acts).history j = q.history j) ∨
          j ∈ l ∧ ∃ ps, Behind X j (d.run X acts) q ps := by
        intro j
        by_cases hj : j = i
        · subst hj
          exact .inl ⟨hclient, hhistory⟩
        · rcases h j with ⟨hclient', hhistory'⟩ | ⟨hmem, ps, hbehind⟩
          · exact .inl ⟨(hothers.client j hj).trans hclient', (hothers.history j hj).trans hhistory'⟩
          · exact .inr ⟨(List.mem_cons.mp hmem).resolve_left hj, ps,
              hbehind.congr (hothers.client j hj) (hothers.inbox j hj) (hothers.history j hj)
                rfl rfl rfl rfl⟩
      obtain ⟨acts', hall⟩ := ih hnext
      refine ⟨acts ++ acts', ?_⟩
      rw [Direct.run, List.foldl_append]
      exact hall

/-- **Queues make no difference to the clients.** For every run with queues there is a run
with direct calls in which every client does the same and ends in the same state. If all
requests have been served, the whole system ends in the same state. -/
theorem exists_direct (client : ι → σ) (shared : τ) (events : List (Event ι σ)) :
    let q : Queued ι σ τ Q R := Queued.run X { client := client, shared := shared } events
    (∃ acts,
      (Direct.run X { client := client, shared := shared } acts).client = q.client ∧
        (Direct.run X { client := client, shared := shared } acts).history = q.history) ∧
    ((∀ i, q.up i = []) → ∃ acts,
      Direct.run X { client := client, shared := shared } acts =
        { client := q.client, inbox := q.down, shared := q.shared, history := q.history }) := by
  intro q
  have hstart : Delayed X [] { client := client, shared := shared }
      ({ client := client, shared := shared } : Queued ι σ τ Q R) :=
    ⟨rfl, fun i => ⟨[], ⟨rfl, rfl, rfl⟩, trivial, fun _ => rfl⟩⟩
  obtain ⟨acts, l, hdelayed⟩ := hstart.run events
  constructor
  · have hbehind : ∀ i,
        ((Direct.run X { client := client, shared := shared } acts).client i = q.client i ∧
          (Direct.run X { client := client, shared := shared } acts).history i = q.history i) ∨
        i ∈ l ∧ ∃ ps, Behind X i
          (Direct.run X { client := client, shared := shared } acts) q ps := by
      intro i
      obtain ⟨ps, hb, -, hnil⟩ := hdelayed.behind i
      by_cases hmem : i ∈ l
      · exact .inr ⟨hmem, ps, hb⟩
      · obtain rfl := hnil hmem
        exact .inl ⟨congrArg Prod.fst hb.state, (hb.history.trans (List.append_nil _)).symm⟩
    obtain ⟨acts', hall⟩ := Delayed.finish hbehind
    refine ⟨acts ++ acts', ?_⟩
    rw [Direct.run, List.foldl_append]
    exact hall
  · intro hserved
    have hsame : ∀ i, (Direct.run X { client := client, shared := shared } acts).client i =
        q.client i ∧
        (Direct.run X { client := client, shared := shared } acts).inbox i = q.down i ∧
        (Direct.run X { client := client, shared := shared } acts).history i = q.history i := by
      intro i
      obtain ⟨ps, hb, hblocked, -⟩ := hdelayed.behind i
      cases ps with
      | nil =>
          exact ⟨congrArg Prod.fst hb.state, hb.inbox, (hb.history.trans (List.append_nil _)).symm⟩
      | cons p ps =>
          -- a request that is put off is not served
          obtain rfl : p = .issue := hblocked
          have hup := (congrArg Prod.snd hb.state).trans (hserved i)
          cases hup
    refine ⟨acts, ?_⟩
    rw [← (funext fun i => (hsame i).1 : _ = q.client),
      ← (funext fun i => (hsame i).2.1 : _ = q.down),
      ← (funext fun i => (hsame i).2.2 : _ = q.history), ← hdelayed.shared]

end Runs

end BlankChat.Lib.Service
