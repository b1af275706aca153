import BlankChat.Server.Relay
import BlankChat.Network.MemoryMonitor
import BlankChat.Lib.Run

/-!
# The server process — `tcp_server.cpp`, `StartTimer` of `memory_monitor.cpp`

One thread runs the completion handlers of the acceptor, of the timer of the memory monitor and
of all sessions. A connection that is accepted while the quota is exceeded is dropped; any other
one becomes a session, which nothing but its own socket ends. An acceptor that reports
`operation_aborted` or `bad_descriptor` is not asked again.

`Listener` is the part that decides about connections, without the sessions. The rest is the
relay of `Relay`, whose sessions are numbered in the order in which they were accepted.

Main result: `server_refines`, the sessions of the server are those of a relay that never hears
of the quota.
-/

namespace BlankChat.Server

open Lib Crypto Protocol Network

/-! ## The process -/

/-- How `async_accept` completes; with a connection comes the challenge that `Start` draws if
a session is made of it. -/
inductive AcceptResult : Type where
  | accepted (challenge : ByteVec challengSize)
  | operationAborted
  | badDescriptor
  | failed
deriving DecidableEq

/-- What the event loop delivers: an accept has completed, the timer of the monitor has fired
(with the status file, if it can be read) or was cancelled, or a socket of a session is ready. -/
inductive ServerEvent : Type where
  | accept (result : AcceptResult)
  | timer (cancelled : Bool) (file : Option Bytes)
  | socket (i : ℕ) (e : SocketEvent)
deriving DecidableEq

structure TcpServer : Type where
  acceptorOpen : Bool := true
  /-- calls of `async_accept` that have not completed -/
  acceptsPending : ℕ := 0
  memoryMonitor : MemoryMonitor
  timerPending : Bool := true
  sessions : List TcpSession := []
  broker : MessageBroker

namespace TcpServer

def doAccept (t : TcpServer) : TcpServer := { t with acceptsPending := t.acceptsPending + 1 }

/-- `InitializeSession`. -/
def initializeSession (t : TcpServer) (challenge : ByteVec challengSize) : TcpServer :=
  { t with sessions := t.sessions ++ [TcpSession.start challenge] }

def handleAccept (t : TcpServer) (result : AcceptResult) : TcpServer :=
  if result = .operationAborted ∨ result = .badDescriptor then t
  else if t.memoryMonitor.isQuotaExceeded then t.doAccept
  else
    let t := match result with
      | .accepted challenge => t.initializeSession challenge
      | _ => t
    if t.acceptorOpen then t.doAccept else t

/-- The handler of the timer. -/
def onTimer (t : TcpServer) (cancelled : Bool) (file : Option Bytes) : TcpServer :=
  if cancelled then { t with timerPending := false }
  else
    { t with memoryMonitor := t.memoryMonitor.checkMemory (readStatusFile file)
             timerPending := true }

/-- One completion handler; nothing completes that was not started. -/
def step (S : Sodium) (t : TcpServer) : ServerEvent → TcpServer
  | .accept result =>
      if 0 < t.acceptsPending then
        { t with acceptsPending := t.acceptsPending - 1 }.handleAccept result
      else t
  | .timer cancelled file => if t.timerPending then t.onTimer cancelled file else t
  | .socket i e =>
      match t.sessions[i]? with
      | none => t
      | some s =>
          let sh := TcpSession.step S (s, t.broker) e
          { t with sessions := t.sessions.set i sh.1, broker := sh.2 }

def run (S : Sodium) (t : TcpServer) (events : List ServerEvent) : TcpServer :=
  events.foldl (step S) t

/-- The constructor and `Start`, with the limit that `CalculateMemoryLimit` has found. -/
def start (memoryLimitBytes : UInt64) (max : UInt32) : TcpServer :=
  doAccept { memoryMonitor := { memoryLimitBytes }, broker := { maxMessages := max } }

/-- A socket belongs to a session. -/
def Possible (t : TcpServer) : ServerEvent → Prop
  | .socket i _ => i < t.sessions.length
  | _ => True

instance (t : TcpServer) : (e : ServerEvent) → Decidable (t.Possible e)
  | .socket i _ => inferInstanceAs (Decidable (i < t.sessions.length))
  | .accept _ => inferInstanceAs (Decidable True)
  | .timer _ _ => inferInstanceAs (Decidable True)

end TcpServer

/-! ## What decides about connections -/

/-- The acceptor does not go on after this. -/
def ServerEvent.ends : ServerEvent → Bool
  | .accept .operationAborted | .accept .badDescriptor => true
  | _ => false

def ServerEvent.socket? : ServerEvent → Option (ℕ × SocketEvent)
  | .socket i e => some (i, e)
  | _ => none

/-- The server without its sessions. -/
structure Listener : Type where
  accepting : Bool := true
  checking : Bool := true
  memoryMonitor : MemoryMonitor

namespace Listener

/-- The listener of a server that has just been started. -/
def start (limit : UInt64) : Listener := { memoryMonitor := { memoryLimitBytes := limit } }

def step (l : Listener) : ServerEvent → Listener
  | .accept result => { l with accepting := l.accepting && !(ServerEvent.accept result).ends }
  | .timer cancelled file =>
      if !l.checking then l
      else if cancelled then { l with checking := false }
      else { l with memoryMonitor := l.memoryMonitor.checkMemory (readStatusFile file) }
  | .socket _ _ => l

/-- The connection that a session is made of. -/
def admits (l : Listener) : ServerEvent → Option (ByteVec challengSize)
  | .accept (.accepted challenge) =>
      if l.accepting && !l.memoryMonitor.isQuotaExceeded then some challenge else none
  | _ => none

/-- The connections that sessions are made of, by their challenges. -/
def admitted : Listener → List ServerEvent → List (ByteVec challengSize)
  | _, [] => []
  | l, e :: events => (l.admits e).toList ++ admitted (l.step e) events

end Listener

/-- The texts that the monitor looks at. -/
def statusTexts : List ServerEvent → List Bytes
  | [] => []
  | .timer true _ :: _ => []
  | .timer false file :: events => readStatusFile file :: statusTexts events
  | .accept _ :: events | .socket _ _ :: events => statusTexts events

section Listener

variable (l : Listener) (events : List ServerEvent)

theorem accepting_foldl :
    (events.foldl Listener.step l).accepting = (l.accepting && !events.any ServerEvent.ends) := by
  induction events generalizing l with
  | nil => simp
  | cons e events ih =>
      rw [List.foldl_cons, ih, List.any_cons, Bool.not_or, ← Bool.and_assoc]
      congr 1
      cases e with
      | accept result => rfl
      | socket i e => exact (Bool.and_true _).symm
      | timer cancelled file =>
          rw [Listener.step]
          split
          · exact (Bool.and_true _).symm
          · split <;> exact (Bool.and_true _).symm

theorem memoryMonitor_foldl_of_not_checking (h : l.checking = false) :
    (events.foldl Listener.step l).memoryMonitor = l.memoryMonitor := by
  induction events generalizing l with
  | nil => rfl
  | cons e events ih =>
      rw [List.foldl_cons]
      cases e with
      | accept result => exact ih _ h
      | socket i e => exact ih _ h
      | timer cancelled file =>
          rw [Listener.step, h]
          exact ih _ h

theorem memoryMonitor_foldl (h : l.checking = true) :
    (events.foldl Listener.step l).memoryMonitor =
      (statusTexts events).foldl MemoryMonitor.checkMemory l.memoryMonitor := by
  induction events generalizing l with
  | nil => rfl
  | cons e events ih =>
      rw [List.foldl_cons]
      cases e with
      | accept result => exact ih _ h
      | socket i e => exact ih _ h
      | timer cancelled file =>
          cases cancelled with
          | true =>
              rw [Listener.step, h]
              exact memoryMonitor_foldl_of_not_checking _ events rfl
          | false =>
              rw [Listener.step, h]
              exact ih _ rfl

end Listener

/-! ## The server follows the listener and the relay -/

/-- The server is where the listener is. -/
structure TcpServer.Listens (t : TcpServer) (l : Listener) : Prop where
  acceptorOpen : t.acceptorOpen = true
  accepts : t.acceptsPending = if l.accepting then 1 else 0
  timer : t.timerPending = l.checking
  monitor : t.memoryMonitor = l.memoryMonitor

/-- The sessions of the server are the first ones of the relay; the others have just been
started. -/
structure TcpServer.Realizes (t : TcpServer) (challenge : ℕ → ByteVec challengSize)
    (r : Relay ℕ) : Prop where
  started : ∀ i s, t.sessions[i]? = some s → r.sessions i = s
  waiting : ∀ i, t.sessions.length ≤ i → r.sessions i = TcpSession.start (challenge i)
  broker : t.broker = r.broker

section Refinement

variable {S : Sodium} {t : TcpServer} {l : Listener} {challenge : ℕ → ByteVec challengSize}
  {r : Relay ℕ}

theorem TcpServer.listens_start (limit : UInt64) (max : UInt32) :
    (TcpServer.start limit max).Listens (Listener.start limit) :=
  ⟨rfl, rfl, rfl, rfl⟩

theorem TcpServer.realizes_start (limit : UInt64) (max : UInt32)
    (challenge : ℕ → ByteVec challengSize) :
    (TcpServer.start limit max).Realizes challenge (Relay.start challenge max) :=
  ⟨nofun, fun _ _ => rfl, rfl⟩

/-- A completed accept: the next one is started unless the acceptor is at its end, and the
sessions are as before but for the one that is admitted. -/
theorem TcpServer.step_accept (h : t.Listens l) (result : AcceptResult) :
    (t.step S (.accept result)).Listens (l.step (.accept result)) ∧
      (t.step S (.accept result)).sessions =
        t.sessions ++ (l.admits (.accept result)).toList.map TcpSession.start ∧
      (t.step S (.accept result)).broker = t.broker := by
  obtain ⟨accepting, checking, monitor⟩ := l
  obtain ⟨open', pending, monitor', timer, sessions, broker⟩ := t
  obtain ⟨hopen, haccepts, htimer, hmonitor⟩ := h
  dsimp only at hopen haccepts htimer hmonitor
  subst hopen htimer hmonitor
  cases accepting with
  | false =>
      -- no accept is pending, so none completes
      subst haccepts
      refine ⟨⟨rfl, rfl, rfl, rfl⟩, ?_, rfl⟩
      cases result <;> exact (List.append_nil _).symm
  | true =>
      subst haccepts
      have hstep : step S ⟨true, 1, monitor', timer, sessions, broker⟩ (.accept result) =
          handleAccept ⟨true, 0, monitor', timer, sessions, broker⟩ result := rfl
      rw [if_pos rfl, hstep]
      cases hquota : monitor'.isQuotaExceeded with
      | true =>
          cases result <;>
            simp [handleAccept, hquota, doAccept, Listener.step, ServerEvent.ends,
              Listener.admits, Listens.mk]
      | false =>
          cases result <;>
            simp [handleAccept, hquota, doAccept, initializeSession, Listener.step,
              ServerEvent.ends, Listener.admits, Listens.mk]

theorem TcpServer.step_timer (h : t.Listens l) (cancelled : Bool) (file : Option Bytes) :
    (t.step S (.timer cancelled file)).Listens (l.step (.timer cancelled file)) ∧
      (t.step S (.timer cancelled file)).sessions = t.sessions ∧
      (t.step S (.timer cancelled file)).broker = t.broker := by
  obtain ⟨accepting, checking, monitor⟩ := l
  obtain ⟨open', pending, monitor', timer, sessions, broker⟩ := t
  obtain ⟨hopen, haccepts, htimer, hmonitor⟩ := h
  dsimp only at hopen haccepts htimer hmonitor
  subst hopen htimer hmonitor
  cases timer with
  | false => exact ⟨⟨rfl, haccepts, rfl, rfl⟩, rfl, rfl⟩
  | true => cases cancelled <;> exact ⟨⟨rfl, haccepts, rfl, rfl⟩, rfl, rfl⟩

theorem TcpServer.step_socket {i : ℕ} {s : TcpSession} (hs : t.sessions[i]? = some s)
    (e : SocketEvent) : t.step S (.socket i e) =
      { t with sessions := t.sessions.set i (TcpSession.step S (s, t.broker) e).1
               broker := (TcpSession.step S (s, t.broker) e).2 } := by
  rw [step, hs]

theorem TcpServer.step_no_socket {i : ℕ} (hi : t.sessions[i]? = none) (e : SocketEvent) :
    t.step S (.socket i e) = t := by
  rw [step, hi]

theorem TcpServer.Listens.step (h : t.Listens l) (e : ServerEvent) :
    (t.step S e).Listens (l.step e) := by
  cases e with
  | accept result => exact (step_accept h result).1
  | timer cancelled file => exact (step_timer h cancelled file).1
  | socket i e =>
      cases hi : t.sessions[i]? with
      | none =>
          rw [step_no_socket hi]
          exact h
      | some s =>
          rw [step_socket hi]
          exact ⟨h.acceptorOpen, h.accepts, h.timer, h.monitor⟩

theorem TcpServer.Listens.run (h : t.Listens l) (events : List ServerEvent) :
    (t.run S events).Listens (events.foldl Listener.step l) := by
  induction events generalizing t l with
  | nil => exact h
  | cons e events ih => exact ih (h.step e)

theorem TcpServer.length_step (h : t.Listens l) (e : ServerEvent) :
    (t.step S e).sessions.length = t.sessions.length + (l.admits e).toList.length := by
  cases e with
  | accept result => rw [(step_accept h result).2.1, List.length_append, List.length_map]
  | timer cancelled file =>
      rw [(step_timer h cancelled file).2.1]
      rfl
  | socket i e =>
      cases hi : t.sessions[i]? with
      | none =>
          rw [step_no_socket hi]
          rfl
      | some s =>
          rw [step_socket hi, List.length_set]
          rfl

theorem TcpServer.length_run (h : t.Listens l) (events : List ServerEvent) :
    (t.run S events).sessions.length = t.sessions.length + (l.admitted events).length := by
  induction events generalizing t l with
  | nil => rfl
  | cons e events ih =>
      show ((t.step S e).run S events).sessions.length = _
      rw [ih (h.step e), length_step h e, Listener.admitted, List.length_append, Nat.add_assoc]

/-- **One step.** The relay sees the sockets; for it a new session has been there before. -/
theorem TcpServer.Realizes.step (hr : t.Realizes challenge r) (h : t.Listens l)
    {e : ServerEvent} (he : t.Possible e)
    (hnew : ∀ c ∈ l.admits e, challenge t.sessions.length = c) :
    (t.step S e).Realizes challenge (r.run S e.socket?.toList) := by
  cases e with
  | timer cancelled file =>
      obtain ⟨-, hsessions, hbroker⟩ := step_timer (S := S) h cancelled file
      refine ⟨?_, ?_, hbroker.trans hr.broker⟩
      · rw [hsessions]
        exact hr.started
      · rw [hsessions]
        exact hr.waiting
  | accept result =>
      obtain ⟨-, hsessions, hbroker⟩ := step_accept (S := S) h result
      cases hadmits : l.admits (.accept result) with
      | none =>
          rw [hadmits, Option.toList_none, List.map_nil, List.append_nil] at hsessions
          refine ⟨?_, ?_, hbroker.trans hr.broker⟩
          · rw [hsessions]
            exact hr.started
          · rw [hsessions]
            exact hr.waiting
      | some c =>
          rw [hadmits, Option.toList_some, List.map_singleton] at hsessions
          have hc := hnew c hadmits
          refine ⟨?_, ?_, hbroker.trans hr.broker⟩
          · intro i s hs
            rw [hsessions] at hs
            rcases Nat.lt_trichotomy i t.sessions.length with hlt | rfl | hgt
            · rw [List.getElem?_append_left hlt] at hs
              exact hr.started i s hs
            · rw [List.getElem?_concat_length] at hs
              cases hs
              rw [← hc]
              exact hr.waiting _ le_rfl
            · rw [List.getElem?_eq_none (by simp; omega)] at hs
              cases hs
          · intro i hi
            rw [hsessions, List.length_append] at hi
            exact hr.waiting i (Nat.le_of_add_right_le hi)
  | socket i e =>
      have hlt : i < t.sessions.length := he
      have hi : t.sessions[i]? = some t.sessions[i] := List.getElem?_eq_getElem hlt
      have hsame : TcpSession.step S (r.sessions i, r.broker) e =
          TcpSession.step S (t.sessions[i], t.broker) e := by
        rw [hr.started i _ hi, hr.broker]
      rw [step_socket hi]
      show TcpServer.Realizes _ challenge (r.step S (i, e))
      rw [Relay.step, hsame]
      refine ⟨?_, ?_, rfl⟩
      · intro j s hs
        by_cases hj : j = i
        · subst hj
          rw [List.getElem?_set_self hlt] at hs
          cases hs
          exact Function.update_self ..
        · rw [List.getElem?_set_ne (Ne.symm hj)] at hs
          exact (Function.update_of_ne hj ..).trans (hr.started j s hs)
      · intro j hj
        rw [List.length_set] at hj
        have hne : j ≠ i := by
          rintro rfl
          exact absurd hlt (Nat.not_lt_of_le hj)
        exact (Function.update_of_ne hne ..).trans (hr.waiting j hj)

/-- **A whole run.** The relay sees the sockets of the run, and its sessions have the
challenges of the connections that are admitted in it. -/
theorem TcpServer.Realizes.run {events : List ServerEvent} (hr : t.Realizes challenge r)
    (h : t.Listens l) (hpossible : Run.Along (TcpServer.step S) TcpServer.Possible t events)
    (hnew : ∀ k c, (l.admitted events)[k]? = some c → challenge (t.sessions.length + k) = c) :
    (t.run S events).Realizes challenge (r.run S (events.filterMap ServerEvent.socket?)) := by
  induction events generalizing t l r with
  | nil => exact hr
  | cons e events ih =>
      obtain ⟨he, hrest⟩ := hpossible
      have hone : ∀ c ∈ l.admits e, challenge t.sessions.length = c := by
        intro c hc
        apply hnew 0 c
        rw [Listener.admitted, Option.mem_def.mp hc]
        rfl
      have hlater : ∀ k c, ((l.step e).admitted events)[k]? = some c →
          challenge ((t.step S e).sessions.length + k) = c := by
        intro k c hk
        rw [length_step h e, Nat.add_assoc]
        apply hnew
        rw [Listener.admitted, List.getElem?_append_right (Nat.le_add_right _ _),
          Nat.add_sub_cancel_left]
        exact hk
      have hsockets : r.run S ((e :: events).filterMap ServerEvent.socket?) =
          (r.run S e.socket?.toList).run S (events.filterMap ServerEvent.socket?) := by
        cases e <;> rfl
      rw [hsockets]
      exact ih (hr.step h he hone) (h.step e) hrest hlater

end Refinement

/-! ## The server as a whole -/

/-- The quota is exceeded, by what the monitor has read. -/
def exceeded (limit : UInt64) (events : List ServerEvent) : Bool :=
  ((statusTexts events).foldl MemoryMonitor.checkMemory
    { memoryLimitBytes := limit }).isQuotaExceeded

theorem admits_accepted (limit : UInt64) (events : List ServerEvent) (c : ByteVec challengSize) :
    (events.foldl Listener.step (Listener.start limit)).admits (.accept (.accepted c)) =
      if events.any ServerEvent.ends || exceeded limit events then none else some c := by
  have hflag : (events.foldl Listener.step (Listener.start limit)).memoryMonitor.isQuotaExceeded =
      exceeded limit events := by
    rw [memoryMonitor_foldl _ _ rfl]
    rfl
  rw [Listener.admits, accepting_foldl, hflag]
  cases events.any ServerEvent.ends <;> cases exceeded limit events <;> rfl

/-- **The server is a relay for the connections it admits.** At every time one accept is
pending, until the acceptor has come to its end. A connection becomes a session exactly if this
has not happened and the quota was not exceeded at the last look; from then on the quota is
nothing to it. The sessions are those of a relay that serves the admitted connections alone.
As long as no write fails they queue the challenge and the answers of the bounded channels, one
for each poll, in the order in which the polls of all clients arrive. -/
theorem server_refines (S : Sodium) (limit : UInt64) (max : UInt32) (events : List ServerEvent)
    (hpossible :
      Run.Along (TcpServer.step S) TcpServer.Possible (TcpServer.start limit max) events) :
    let t := (TcpServer.start limit max).run S
    let cs := (Listener.start limit).admitted events
    let sockets := events.filterMap ServerEvent.socket?
    let challenge := fun i => cs.getD i (.replicate _ 0)
    let r := (Relay.start challenge max).run S sockets
    let ops := operations S (fun i => .waiting (challenge i).toList []) sockets
    let answers := Fifo.answers max.toNat (fun _ => {}) ops
    (t events).acceptsPending = (if events.any ServerEvent.ends then 0 else 1) ∧
    (∀ before c, (t (before ++ [.accept (.accepted c)])).sessions.length =
      (t before).sessions.length +
        if before.any ServerEvent.ends || exceeded limit before then 0 else 1) ∧
    (t events).sessions = (List.range cs.length).map r.sessions ∧
    (t events).broker = r.broker ∧
    ((∀ i, .socket i (.written true) ∉ events) →
      ∀ i c, cs[i]? = some c → ∃ s, (t events).sessions[i]? = some s ∧
        enqueued s =
          TcpSession.challengeBytes c :: (answers.filter fun a => a.label = i).map answerBytes) := by
  intro t cs sockets challenge r ops answers
  have hlistens := TcpServer.listens_start limit max
  have hrealizes : (t events).Realizes challenge r := by
    refine (TcpServer.realizes_start limit max challenge).run hlistens hpossible ?_
    intro k c hk
    show cs.getD (0 + k) _ = c
    rw [Nat.zero_add, List.getD_eq_getElem?_getD, show cs[k]? = some c from hk]
    rfl
  have hlength : (t events).sessions.length = cs.length := by
    rw [TcpServer.length_run hlistens]
    exact Nat.zero_add _
  have hget : ∀ i < cs.length, (t events).sessions[i]? = some (r.sessions i) := by
    intro i hi
    have hsome := List.getElem?_eq_getElem (hlength.symm ▸ hi : i < (t events).sessions.length)
    rw [hsome, hrealizes.started i _ hsome]
  refine ⟨?_, ?_, ?_, hrealizes.broker, ?_⟩
  · rw [(hlistens.run events).accepts, accepting_foldl]
    cases events.any ServerEvent.ends <;> rfl
  · intro before c
    have hstep := TcpServer.length_step (S := S) (hlistens.run (S := S) before)
      (.accept (.accepted c))
    rw [admits_accepted] at hstep
    show (TcpServer.run S _ (before ++ _)).sessions.length = _
    rw [TcpServer.run, List.foldl_concat]
    refine hstep.trans ?_
    congr 1
    cases before.any ServerEvent.ends || exceeded limit before <;> rfl
  · apply List.ext_getElem?
    intro i
    rcases Nat.lt_or_ge i cs.length with hi | hi
    · rw [hget i hi, List.getElem?_map, List.getElem?_range hi]
      rfl
    · rw [List.getElem?_eq_none (hlength.le.trans hi), List.getElem?_eq_none (by simpa using hi)]
  · intro hwritten i c hc
    have hi : i < cs.length := (List.getElem?_eq_some_iff.mp hc).1
    refine ⟨r.sessions i, hget i hi, ?_⟩
    have hevents : ∀ ev ∈ sockets, ev.2 ≠ .written true := by
      rintro ⟨j, e⟩ hmem rfl
      obtain ⟨e, he, hsocket⟩ := List.mem_filterMap.mp hmem
      cases e with
      | socket k e =>
          cases hsocket
          exact hwritten j he
      | accept result => cases hsocket
      | timer cancelled file => cases hsocket
    have hchallenge : challenge i = c := by
      show cs.getD i _ = c
      rw [List.getD_eq_getElem?_getD, hc]
      rfl
    rw [← hchallenge]
    exact Relay.run_enqueued (Relay.start_tracks challenge max) hevents i

/-- A connection that comes while the quota is exceeded, between two that do not. The first
client answers its challenge and polls in the meantime. -/
theorem server_refines_quota :
    let c : ByteVec challengSize := .replicate _ 0
    let auth : Bytes := 0x05 :: List.replicate 16 0 ++ [8, 0, 0, 0] ++ List.replicate 8 0
    let poll : Bytes := 0x02 :: List.replicate 16 9 ++ [0, 0, 0, 0]
    let events : List ServerEvent :=
      [.accept (.accepted c), .timer false (some (Core.ascii "VmRSS:\t 5000 kB\n")),
        .accept (.accepted c), .socket 0 (.read (auth ++ poll)),
        .timer false (some (Core.ascii "VmRSS:\t 90 kB\n")), .accept (.accepted c)]
    let t := (TcpServer.start 1048576 8).run transparent events
    t.acceptsPending = 1 ∧ t.sessions.length = 2 ∧
      ∃ s, t.sessions[0]? = some s ∧ (enqueued s).length = 2 := by
  intro c auth poll events t
  obtain ⟨haccepts, -, hsessions, -, hqueued⟩ := server_refines transparent 1048576 8 events
    (by decide +kernel)
  refine ⟨haccepts, ?_, ?_⟩
  · show ((TcpServer.start 1048576 8).run transparent events).sessions.length = 2
    rw [hsessions, List.length_map, List.length_range]
    decide +kernel
  · obtain ⟨s, hs, henqueued⟩ := hqueued (by simp [events]) 0 c (by decide +kernel)
    refine ⟨s, hs, ?_⟩
    rw [henqueued]
    decide +kernel

end BlankChat.Server
