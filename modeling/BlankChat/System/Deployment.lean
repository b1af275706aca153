import BlankChat.Lib.Run
import BlankChat.System.Link

/-!
# Clients, sessions and one broker

The whole deployment: every client has one connection to the relay, the sessions share the
broker, and every connection carries bytes. A step is one completion handler, one tick or
one command, of one client or one session; a read takes any number of bytes that the other
end has been writing. `history` records what the applications did and saw.

What the deployment is for is said without bytes: `mailService` is a broker that serves a
frame of a client at the moment the client hands it over. `deployment_atomic`: the
applications cannot tell the difference. Between the two stands `Service.Queued`, the same
service with a queue in each direction; `Refines.step` relates it to the connections.
-/

namespace BlankChat.System

open Lib BlankChat.Core Crypto Protocol Network Server FrameParser
open Lib.Service (serveAll)

/-! ## The service -/

/-- The broker as the applications see it. -/
def mailService {ι σ : Type} (A : ι → Application σ) :
    Service.Scheme ι σ MessageBroker Frame Frame where
  issue := fun i => (A i).frameProvider
  accept := fun i => (A i).frameReceiver
  serve := fun b _ f => serveFrame b f

/-! ## The deployment -/

structure Deployment (ι σ : Type) : Type where
  clients : ι → TcpClient σ
  relay : Relay ι
  /-- the bytes that each session has read -/
  arrived : ι → Bytes
  history : ι → List (Service.Move σ Frame) := fun _ => []

inductive DeploymentEvent (ι σ : Type) : Type where
  | client (i : ι) (e : NetworkEvent σ)
  | session (i : ι) (e : SocketEvent)

/-- What an application has done in an event, `c` and `c'` being the client before and behind
it. -/
def moves {σ : Type} (c c' : TcpClient σ) : NetworkEvent σ → List (Service.Move σ Frame)
  | .command f => if c.searching then [] else [.work f]
  | _ => (exchanged σ c'.trace).drop (exchanged σ c.trace).length

namespace Deployment

variable {ι σ : Type}

/-- Every client has connected, and its session has started. -/
def start (app : ι → σ) (challenge : ι → ByteVec challengSize) (max : UInt32) :
    Deployment ι σ where
  clients := fun i => ({ app := app i } : TcpClient σ).connect.startAsyncEngine
  relay := Relay.start challenge max
  arrived := fun _ => []

section

variable [DecidableEq ι]

def step (A : ι → Application σ) (S : Sodium) (d : Deployment ι σ) :
    DeploymentEvent ι σ → Deployment ι σ
  | .client i e =>
      { d with
        clients := Function.update d.clients i ((d.clients i).step (A i) S e)
        history := Function.update d.history i
          (d.history i ++ moves (d.clients i) ((d.clients i).step (A i) S e) e) }
  | .session i e =>
      { d with
        relay := d.relay.step S (i, e)
        arrived := Function.update d.arrived i (d.arrived i ++
          if (d.relay.sessions i).readPending then TcpSession.readBytes e else []) }

def run (A : ι → Application σ) (S : Sodium) (d : Deployment ι σ)
    (events : List (DeploymentEvent ι σ)) : Deployment ι σ :=
  events.foldl (step A S) d

end

/-- What the network may do: a read delivers bytes that the other end has been writing, in
their order. The connection is not opened again, and the frames of the application are such
as the parser accepts. -/
def Possible (A : ι → Application σ) (d : Deployment ι σ) : DeploymentEvent ι σ → Prop
  | .client _ .connect => False
  | .client _ .start => False
  | .client i .tick =>
      (d.clients i).isAuthenticated = true → Sendable ((A i).frameProvider (d.clients i).app).1
  | .client i (.read chunk) =>
      TcpClient.bytesOf (d.clients i).trace ++ chunk <+:
        (TcpSession.startedIn (d.relay.sessions i).trace).flatten
  | .client _ _ => True
  | .session i (.read chunk) => d.arrived i ++ chunk <+: (d.clients i).started.flatten
  | .session _ _ => True

/-- The frames that session `i` takes in with an event. -/
def arriving (S : Sodium) (d : Deployment ι σ) (i : ι) (e : SocketEvent) : List Frame :=
  (TcpSession.extractedIn (TcpSession.step S (d.relay.sessions i, d.relay.broker) e).1.trace).drop
    (TcpSession.extractedIn (d.relay.sessions i).trace).length

/-- A condition on the frames that arrive, and on the broker as each of them finds it. -/
def Arrives (C : MessageBroker → Frame → Prop) (S : Sodium) (d : Deployment ι σ) :
    DeploymentEvent ι σ → Prop
  | .client .. => True
  | .session i e =>
      Run.Along (fun b f => (serveFrame b f).1) C d.relay.broker (d.arriving S i e)

instance {C : MessageBroker → Frame → Prop} [∀ b f, Decidable (C b f)] (S : Sodium)
    (d : Deployment ι σ) : (e : DeploymentEvent ι σ) → Decidable (d.Arrives C S e)
  | .client .. => inferInstanceAs (Decidable True)
  | .session .. => inferInstanceAs (Decidable (Run.Along ..))

end Deployment

/-! ## One connection -/

section Connection

variable {σ : Type} {A : Application σ} {S : Sodium} {challenge : ByteVec challengSize}
  {c c' : TcpClient σ} {s s' : TcpSession} {arrived chunk : Bytes} {resp : Option Frame}
  {served done up down : List Frame}

/-- A client and its session: the answer to the challenge and the frames `served` have been
handled by the session, the challenge and the frames `done` by the client; the frames `up` and
`down` are under way. -/
structure Linked (S : Sodium) (challenge : ByteVec challengSize) (c : TcpClient σ) (s : TcpSession)
    (arrived : Bytes) (resp : Option Frame) (served done up down : List Frame) : Prop where
  sent : TcpClient.enqueuedIn c.trace = (resp.toList ++ (served ++ up)).map Frame.serialize
  auth : c.isAuthenticated = resp.isSome
  first : resp = none → served = [] ∧ up = []
  valid : ∀ f ∈ resp, f.Built ∧ TcpSession.ValidAuth S challenge.toList f
  queued : enqueued s = (challengeFrame challenge :: (done ++ down)).map Frame.serialize
  sendable : (∀ f ∈ up, Sendable f) ∧ ∀ f ∈ down, Sendable f
  client : ClientSide challenge c done
  session : SessionSide challenge s arrived resp served
  writes : ∃ results, TcpSession.Mirrored results s

/-- What a session has begun to write is the beginning of what it has queued. -/
theorem startedIn_begins {results : List Bool} (h : TcpSession.Mirrored results s) :
    TcpSession.startedIn s.trace <+: enqueued s := by
  obtain ⟨ops, p, hmirrors, -⟩ := h
  have horder := hmirrors.tracks.inOrder.order
  show _ <+: TcpSession.enqueuedIn s.trace
  rw [show TcpSession.startedIn s.trace = p.handed from hmirrors.tracks.handed.symm,
    hmirrors.pushed, ← horder]
  exact List.prefix_append _ _

theorem started_begins {results : List Bool} (h : TcpClient.Mirrored results c) :
    c.started <+: TcpClient.enqueuedIn c.trace := by
  obtain ⟨ops, p, htracks, hpushed, -⟩ := h
  have horder := htracks.inOrder.order
  rw [show c.started = p.handed from htracks.handed.symm, hpushed, ← horder]
  exact List.prefix_append _ _

theorem linked_start (S : Sodium) (challenge : ByteVec challengSize) (app : σ) :
    Linked S challenge ({ app := app } : TcpClient σ).connect.startAsyncEngine
      (TcpSession.start challenge) [] none [] [] [] [] where
  sent := rfl
  auth := rfl
  first := fun _ => ⟨rfl, rfl⟩
  valid := fun _ h => by cases h
  queued := rfl
  sendable := ⟨List.forall_mem_nil _, List.forall_mem_nil _⟩
  client := .waiting rfl rfl rfl rfl
  session := .waiting rfl rfl rfl rfl
  writes := ⟨[], .start challenge⟩

theorem Linked.of_client (h : Linked S challenge c s arrived resp served done up down)
    (hsent : TcpClient.enqueuedIn c'.trace = TcpClient.enqueuedIn c.trace)
    (hauth : c'.isAuthenticated = c.isAuthenticated) (hclient : ClientSide challenge c' done) :
    Linked S challenge c' s arrived resp served done up down :=
  { h with sent := hsent.trans h.sent, auth := hauth.trans h.auth, client := hclient }

/-- A tick: the application hands a frame over, if the client is authenticated. -/
theorem Linked.doCbrTick (h : Linked S challenge c s arrived resp served done up down)
    (hframe : c.isAuthenticated = true → Sendable (A.frameProvider c.app).1) :
    (c.isAuthenticated = false ∧ (c.doCbrTick A).app = c.app ∧
      exchanged σ (c.doCbrTick A).trace = exchanged σ c.trace ∧
      Linked S challenge (c.doCbrTick A) s arrived resp served done up down) ∨
    (c.isAuthenticated = true ∧ (c.doCbrTick A).app = (A.frameProvider c.app).2 ∧
      exchanged σ (c.doCbrTick A).trace = exchanged σ c.trace ++ [.issue] ∧
      Linked S challenge (c.doCbrTick A) s arrived resp served done
        (up ++ [(A.frameProvider c.app).1]) down) := by
  cases hauth : c.isAuthenticated with
  | false =>
      have htick : c.doCbrTick A = c.record .ticked := by
        unfold TcpClient.doCbrTick
        dsimp only
        rw [if_pos]
        show (!c.isAuthenticated) = true
        rw [hauth]
        rfl
      rw [htick]
      refine .inl ⟨rfl, rfl, (exchanged_append _ _).trans (List.append_nil _),
        h.of_client (TcpClient.enqueuedIn_record _ rfl) rfl ?_⟩
      refine h.client.congr rfl rfl rfl (bytesOf_append fun e he => ?_)
      rw [List.mem_singleton.mp he]
      simp
  | true =>
      have htick : c.doCbrTick A =
          { c with
            app := (A.frameProvider c.app).2
            writeQueue := c.writeQueue ++ [(A.frameProvider c.app).1.serialize]
            writeInProgress := true
            trace := c.trace ++ [.ticked, .provided (A.frameProvider c.app).1.serialize]
            started := c.started ++ TcpClient.newWrites c.writeInProgress
              (c.writeQueue ++ [(A.frameProvider c.app).1.serialize]) } := by
        unfold TcpClient.doCbrTick
        dsimp only
        rw [if_neg (by show ¬ (!c.isAuthenticated) = true; rw [hauth]; decide),
          TcpClient.enqueue_eq]
        simp [TcpClient.record]
      rw [htick]
      refine .inr ⟨rfl, rfl, exchanged_append _ _,
        { h with sent := ?_, first := ?_, sendable := ?_, client := ?_ }⟩
      · show TcpClient.enqueuedIn (c.trace ++ _) = _
        rw [TcpClient.enqueuedIn_append, h.sent]
        simp [TcpClient.enqueuedIn]
      · intro hnone
        have hsome := h.auth
        rw [hauth, hnone] at hsome
        cases hsome
      · exact ⟨List.forall_mem_append.mpr
          ⟨h.sendable.1, List.forall_mem_singleton.mpr (hframe hauth)⟩, h.sendable.2⟩
      · refine h.client.congr rfl rfl rfl (bytesOf_append fun e he => ?_)
        rcases List.mem_cons.mp he with rfl | he
        · simp
        · rw [List.mem_singleton.mp he]
          simp

/-- A read of the client: the application takes in the first of the frames under way. -/
theorem Linked.clientRead (h : Linked S challenge c s arrived resp served done up down)
    (hs : c.searching = false)
    (hchunk : TcpClient.bytesOf c.trace ++ chunk <+: (TcpSession.startedIn s.trace).flatten) :
    ∃ new rest resp', down = new ++ rest ∧
      (c.onRead A S chunk).app = new.foldl A.frameReceiver c.app ∧
      exchanged σ (c.onRead A S chunk).trace = exchanged σ c.trace ++ new.map .accept ∧
      Linked S challenge (c.onRead A S chunk) s arrived resp' served (done ++ new) up rest := by
  obtain ⟨results, hwrites⟩ := h.writes
  have hwire : TcpClient.bytesOf c.trace ++ chunk <+:
      wire (challengeFrame challenge :: (done ++ down)) := by
    refine hchunk.trans ?_
    rw [wire, ← h.queued]
    exact (startedIn_begins hwrites).flatten
  obtain ⟨new, rest, rfl, hclient, happ, hexchanged, hresponds⟩ := h.client.onRead (A := A) (S := S) hs
    h.sendable.2 hwire
  have hqueued : enqueued s =
      (challengeFrame challenge :: (done ++ new ++ rest)).map Frame.serialize := by
    rw [h.queued, List.append_assoc]
  have hsendable : (∀ f ∈ up, Sendable f) ∧ ∀ f ∈ rest, Sendable f :=
    ⟨h.sendable.1, fun f hf => h.sendable.2 f (List.mem_append_right new hf)⟩
  cases hresponds with
  | no hauth hqueue =>
      exact ⟨new, rest, resp, rfl, happ, hexchanged, { h with
        sent := hqueue.trans h.sent
        auth := hauth.trans h.auth
        queued := hqueued
        sendable := hsendable
        client := hclient }⟩
  | @answer resp' hauth hauth' hbuilt hvalid hqueue =>
      have hnone : resp = none := by
        rw [← Option.not_isSome_iff_eq_none, ← h.auth, hauth]
        decide
      subst hnone
      obtain ⟨rfl, rfl⟩ := h.first rfl
      refine ⟨new, rest, some resp', rfl, happ, hexchanged, ?_⟩
      exact
        { sent := by rw [hqueue, h.sent]; rfl
          auth := hauth'
          first := fun h => by cases h
          valid := by
            intro f hf
            obtain rfl := Option.some.inj hf
            exact ⟨hbuilt, hvalid⟩
          queued := hqueued
          sendable := hsendable
          client := hclient
          session := h.session.responds resp'
          writes := h.writes }

/-- A read of the session: the broker serves the first of the frames under way. -/
theorem Linked.sessionRead {b : MessageBroker}
    (h : Linked S challenge c s arrived resp served done up down) (hb : Stored b)
    (hread : s.readPending = true) {results : List Bool} (hwriting : TcpClient.Mirrored results c)
    (hchunk : arrived ++ chunk <+: c.started.flatten) :
    ∃ new rest, up = new ++ rest ∧
      (TcpSession.onRead S (s, b) chunk).2 = (serveAll serveFrame b new).1 ∧
      Linked S challenge c (TcpSession.onRead S (s, b) chunk).1 (arrived ++ chunk) resp
        (served ++ new) done rest (down ++ (serveAll serveFrame b new).2) ∧
      ∃ auth, TcpSession.extractedIn (TcpSession.onRead S (s, b) chunk).1.trace =
          TcpSession.extractedIn s.trace ++ (auth ++ new) ∧
        ∀ f ∈ auth, f.action = .authResponse := by
  have hwire : arrived ++ chunk <+: wire (resp.toList ++ (served ++ up)) := by
    refine hchunk.trans ?_
    rw [wire, ← h.sent]
    exact (started_begins hwriting).flatten
  obtain ⟨new, rest, rfl, hsession, hbroker, hqueued, hextracted⟩ := h.session.onRead (b := b) hread
    h.sendable.1 h.valid (fun hnone => (h.first hnone).2) hwire
  obtain ⟨-, hanswers⟩ := hb.serveAll fun f hf => h.sendable.1 f (List.mem_append_left rest hf)
  obtain ⟨results, hwrites⟩ := h.writes
  refine ⟨new, rest, rfl, hbroker, ?_, hextracted⟩
  exact
    { sent := by rw [h.sent, List.append_assoc]
      auth := h.auth
      first := by
        intro hnone
        obtain ⟨hserved, hup⟩ := h.first hnone
        obtain ⟨hnew, hrest⟩ := List.append_eq_nil_iff.mp hup
        exact ⟨by rw [hserved, hnew, List.append_nil], hrest⟩
      valid := h.valid
      queued := by
        rw [hqueued, h.queued, ← List.map_append, List.cons_append, List.append_assoc]
      sendable := ⟨fun f hf => h.sendable.1 f (List.mem_append_right new hf),
        List.forall_mem_append.mpr ⟨h.sendable.2, hanswers⟩⟩
      client := h.client
      session := hsession
      writes := ⟨results, hwrites.onRead chunk⟩ }

theorem Linked.of_session (h : Linked S challenge c s arrived resp served done up down)
    (hqueued : enqueued s' = enqueued s) (hsession : SessionSide challenge s' arrived resp served)
    (hwrites : ∃ results, TcpSession.Mirrored results s') :
    Linked S challenge c s' arrived resp served done up down :=
  { h with queued := hqueued.trans h.queued, session := hsession, writes := hwrites }

end Connection

/-! ## The connections refine the queues -/

section Refinement

variable {ι σ : Type} {A : ι → Application σ} {S : Sodium} {challenge : ι → ByteVec challengSize}
  {d : Deployment ι σ} {q q' : Service.Queued ι σ MessageBroker Frame Frame} {i : ι}

/-- The service with queues is where the deployment is. -/
structure Refines (S : Sodium) (challenge : ι → ByteVec challengSize) (d : Deployment ι σ)
    (q : Service.Queued ι σ MessageBroker Frame Frame) : Prop where
  apps : ∀ i, (d.clients i).app = q.client i
  history : d.history = q.history
  broker : d.relay.broker = q.shared
  stored : Stored d.relay.broker
  linked : ∀ i, ∃ resp served done, Linked S (challenge i) (d.clients i) (d.relay.sessions i)
    (d.arrived i) resp served done (q.up i) (q.down i)

theorem stored_empty (max : UInt32) : Stored { maxMessages := max } := by
  intro m f hf
  cases hf

theorem refines_start (S : Sodium) (app : ι → σ) (challenge : ι → ByteVec challengSize)
    (max : UInt32) :
    Refines S challenge (Deployment.start app challenge max)
      { client := app, shared := { maxMessages := max } } where
  apps := fun _ => rfl
  history := rfl
  broker := rfl
  stored := stored_empty max
  linked := fun i => ⟨none, [], [], linked_start S (challenge i) (app i)⟩

variable [DecidableEq ι]

theorem Refines.of_client (h : Refines S challenge d q) {c : TcpClient σ}
    {new : List (Service.Move σ Frame)}
    (hhistory : q'.history = Function.update q.history i (q.history i ++ new))
    (hclient : q'.client = Function.update q.client i c.app)
    (hup : ∀ j, j ≠ i → q'.up j = q.up j) (hdown : ∀ j, j ≠ i → q'.down j = q.down j)
    (hshared : q'.shared = q.shared)
    (hlinked : ∃ resp served done, Linked S (challenge i) c (d.relay.sessions i) (d.arrived i)
      resp served done (q'.up i) (q'.down i)) :
    Refines S challenge
      { d with
        clients := Function.update d.clients i c
        history := Function.update d.history i (d.history i ++ new) } q' := by
  refine ⟨fun j => ?_, ?_, h.broker.trans hshared.symm, h.stored, fun j => ?_⟩
  · rw [hclient]
    by_cases hj : j = i
    · subst hj
      simp
    · simpa [Function.update_of_ne hj] using h.apps j
  · rw [hhistory, ← h.history]
  · by_cases hj : j = i
    · subst hj
      simpa using hlinked
    · rw [hup j hj, hdown j hj]
      simpa [Function.update_of_ne hj] using h.linked j

theorem Refines.of_session (h : Refines S challenge d q) (sh : TcpSession × MessageBroker)
    {arrived : Bytes} (hclient : q'.client = q.client) (hhistory : q'.history = q.history)
    (hup : ∀ j, j ≠ i → q'.up j = q.up j)
    (hdown : ∀ j, j ≠ i → q'.down j = q.down j) (hshared : sh.2 = q'.shared) (hstored : Stored sh.2)
    (hlinked : ∃ resp served done, Linked S (challenge i) (d.clients i) sh.1 arrived
      resp served done (q'.up i) (q'.down i)) :
    Refines S challenge
      { d with
        relay := { sessions := Function.update d.relay.sessions i sh.1, broker := sh.2 }
        arrived := Function.update d.arrived i arrived } q' := by
  refine ⟨fun j => (h.apps j).trans (congrFun hclient j).symm, h.history.trans hhistory.symm,
    hshared, hstored, fun j => ?_⟩
  by_cases hj : j = i
  · subst hj
    simpa using hlinked
  · rw [hup j hj, hdown j hj]
    simpa [Function.update_of_ne hj] using h.linked j

/-- Every client goes along with a pump. -/
def Writing (d : Deployment ι σ) : Prop :=
  ∀ i, ∃ results, TcpClient.Mirrored results (d.clients i)

omit [DecidableEq ι] in
theorem writing_start (app : ι → σ) (challenge : ι → ByteVec challengSize) (max : UInt32) :
    Writing (Deployment.start app challenge max) := by
  intro i
  have hempty : TcpClient.Mirrored [] ({ app := app i } : TcpClient σ) :=
    ⟨[], {}, ⟨rfl, rfl, rfl, rfl⟩, rfl, rfl⟩
  exact ⟨[], (hempty.record (e := .connected) rfl).congr rfl rfl rfl rfl⟩

theorem Writing.step (h : Writing d) (e : DeploymentEvent ι σ) : Writing (d.step A S e) := by
  cases e with
  | session i e => exact h
  | client i e =>
      intro j
      by_cases hj : j = i
      · subst hj
        obtain ⟨results, hmirrored⟩ := h j
        show ∃ results, TcpClient.Mirrored results (Function.update d.clients j _ j)
        rw [Function.update_self]
        by_cases hs : (d.clients j).searching = true
        · have hstep : (d.clients j).step (A j) S e = d.clients j := if_pos hs
          rw [hstep]
          exact ⟨results, hmirrored⟩
        · exact ⟨_, hmirrored.step (Bool.eq_false_iff.mpr hs) e⟩
      · show ∃ results, TcpClient.Mirrored results (Function.update d.clients i _ j)
        rw [Function.update_of_ne hj]
        exact h j

/-- The service with queues gets to where the deployment is, and every frame that is served on
the way meets the condition. -/
def CanFollow (A : ι → Application σ) (S : Sodium) (challenge : ι → ByteVec challengSize)
    (C : MessageBroker → Frame → Prop) (d : Deployment ι σ)
    (q : Service.Queued ι σ MessageBroker Frame Frame) : Prop :=
  ∃ events, Refines S challenge d (q.run (mailService A) events) ∧
    Run.Along (Service.Queued.step (mailService A)) (Service.Queued.Serves C) q events

variable {C : MessageBroker → Frame → Prop}

theorem Refines.client (h : Refines S challenge d q) {e : NetworkEvent σ}
    (hpossible : d.Possible A (.client i e)) :
    CanFollow A S challenge C (d.step A S (.client i e)) q := by
  obtain ⟨resp, served, done, hlinked⟩ := h.linked i
  have happ := h.apps i
  have hidle : Function.update q.history i (q.history i ++ []) = q.history :=
    Function.update_eq_self_iff.mpr (List.append_nil _)
  -- an event that neither hands a frame over nor takes one in
  have hquiet : ∀ (c : TcpClient σ) (new : List (Service.Move σ Frame)), new = [] →
      c.app = (d.clients i).app →
      TcpClient.enqueuedIn c.trace = TcpClient.enqueuedIn (d.clients i).trace →
      c.isAuthenticated = (d.clients i).isAuthenticated → ClientSide (challenge i) c done →
      CanFollow A S challenge C
        { d with
          clients := Function.update d.clients i c
          history := Function.update d.history i (d.history i ++ new) } q := by
    rintro c new rfl hcapp hsent hauth hside
    refine ⟨[], h.of_client hidle.symm ?_ (fun _ _ => rfl) (fun _ _ => rfl) rfl
      ⟨resp, served, done, hlinked.of_client hsent hauth hside⟩, trivial⟩
    rw [hcapp, happ]
    exact (Function.update_eq_self i q.client).symm
  by_cases hs : (d.clients i).searching = true
  · have hstep : (d.clients i).step (A i) S e = d.clients i := by
      unfold TcpClient.step
      rw [if_pos hs]
    have hmoves : moves (d.clients i) (d.clients i) e = [] := by
      cases e with
      | command f => exact if_pos hs
      | _ => exact List.drop_length
    rw [Deployment.step, hstep]
    exact hquiet _ _ hmoves rfl rfl rfl hlinked.client
  have hs' : (d.clients i).searching = false := Bool.eq_false_iff.mpr hs
  -- what an application has done, from what is new in the trace
  have hdrop : ∀ (c : TcpClient σ) (new : List (Service.Move σ Frame)),
      exchanged σ c.trace = exchanged σ (d.clients i).trace ++ new →
      (exchanged σ c.trace).drop (exchanged σ (d.clients i).trace).length = new := by
    intro c new hnew
    rw [hnew]
    exact List.drop_left
  have hsame : ∀ c : TcpClient σ, exchanged σ c.trace = exchanged σ (d.clients i).trace →
      (exchanged σ c.trace).drop (exchanged σ (d.clients i).trace).length = [] :=
    fun c hc => hdrop c [] (hc.trans (List.append_nil _).symm)
  unfold Deployment.step TcpClient.step
  dsimp only
  rw [if_neg hs]
  cases e with
  | connect => exact hpossible.elim
  | start => exact hpossible.elim
  | tick =>
      unfold moves
      dsimp only
      split
      · rcases hlinked.doCbrTick hpossible with
          ⟨hauth, hcapp, hexchanged, hlinked'⟩ | ⟨hauth, hcapp, hexchanged, hlinked'⟩
        · rw [hsame _ hexchanged]
          refine ⟨[], h.of_client hidle.symm ?_ (fun _ _ => rfl) (fun _ _ => rfl) rfl
            ⟨_, _, _, hlinked'⟩, trivial⟩
          rw [hcapp, happ]
          exact (Function.update_eq_self i q.client).symm
        · rw [hdrop _ _ hexchanged]
          refine ⟨[.issue i], h.of_client rfl ?_ (fun j hj => Function.update_of_ne hj ..)
            (fun _ _ => rfl) rfl ⟨resp, served, done, ?_⟩, trivial, trivial⟩
          · rw [hcapp, happ]
            rfl
          · show Linked _ _ _ _ _ _ _ _ ((q.step (mailService A) (.issue i)).up i) (q.down i)
            rw [Service.Queued.up_issue, ← happ]
            exact hlinked'
      · exact hquiet _ _ (hsame _ rfl) rfl rfl rfl hlinked.client
  | read chunk =>
      obtain ⟨new, rest, resp', hnew, hcapp, hexchanged, hlinked'⟩ :=
        hlinked.clientRead (A := A i) hs' hpossible
      have hnone : Run.Along (Service.Queued.step (mailService A)) (Service.Queued.Serves C) q
          (List.replicate new.length (.accept i)) := by
        refine Run.along_of_forall_mem fun _ e he => ?_
        rw [List.eq_of_mem_replicate he]
        trivial
      refine ⟨List.replicate new.length (.accept i), ?_, hnone⟩
      unfold moves
      dsimp only
      rw [Service.Queued.run_accept hnew, hdrop _ _ hexchanged]
      refine h.of_client rfl ?_ (fun _ _ => rfl) (fun j hj => Function.update_of_ne hj ..) rfl
        ⟨resp', served, done ++ new, ?_⟩
      · rw [hcapp, happ]
        rfl
      · dsimp only
        rw [Function.update_self]
        exact hlinked'
  | readFailed aborted =>
      dsimp only
      split
      · unfold TcpClient.onReadFailed
        dsimp only
        split
        · exact hquiet _ _ (hsame _ rfl) rfl rfl rfl (hlinked.client.congr rfl rfl rfl rfl)
        · refine hquiet _ _ (hsame _ ((exchanged_append _ _).trans (List.append_nil _))) rfl
            (TcpClient.enqueuedIn_record _ rfl) rfl ?_
          refine hlinked.client.congr rfl rfl rfl (bytesOf_append fun e he => ?_)
          rw [List.mem_singleton.mp he]
          simp
      · exact hquiet _ _ (hsame _ rfl) rfl rfl rfl hlinked.client
  | written errorCode =>
      obtain ⟨hauth, hsearch, -, -, hparser⟩ :=
        TcpClient.onWritten_fields (d.clients i) errorCode
      have htrace := TcpClient.onWritten_trace (d.clients i) errorCode
      refine hquiet _ _ (hsame _ (congrArg _ htrace)) (onWritten_app (d.clients i) errorCode)
        (congrArg _ htrace) hauth ?_
      exact hlinked.client.congr hauth hsearch hparser (congrArg _ htrace)
  | disconnect =>
      refine hquiet _ _ (hsame _ ((exchanged_append _ _).trans (List.append_nil _))) rfl
        (TcpClient.enqueuedIn_record _ rfl) rfl ?_
      refine hlinked.client.congr rfl rfl rfl (bytesOf_append fun e he => ?_)
      rw [List.mem_singleton.mp he]
      simp
  | command f =>
      have hmoves : ∀ c, moves (d.clients i) c (.command f) = [.work f] := fun c => if_neg hs
      rw [hmoves]
      refine ⟨[.work i f], h.of_client rfl ?_ (fun _ _ => rfl) (fun _ _ => rfl) rfl
        ⟨resp, served, done, ?_⟩, trivial, trivial⟩
      · show Function.update q.client i (f (q.client i)) = _
        rw [← happ]
      · exact hlinked.of_client rfl rfl (hlinked.client.congr rfl rfl rfl rfl)

/-- The broker does not see the answer to a challenge. -/
theorem along_served {b : MessageBroker} {auth new : List Frame}
    (hauth : ∀ f ∈ auth, f.action = .authResponse)
    (h : Run.Along (fun b f => (serveFrame b f).1) C b (auth ++ new)) :
    Run.Along (fun b f => (serveFrame b f).1) C b new := by
  induction auth with
  | nil => exact h
  | cons f auth ih =>
      have hsame : (serveFrame b f).1 = b := by rw [serveFrame, hauth f List.mem_cons_self]
      refine ih (fun g hg => hauth g (List.mem_cons_of_mem f hg)) ?_
      rw [← hsame]
      exact h.2

theorem Refines.session (h : Refines S challenge d q) (hwriting : Writing d) {e : SocketEvent}
    (hpossible : d.Possible A (.session i e)) (harrives : d.Arrives C S (.session i e)) :
    CanFollow A S challenge C (d.step A S (.session i e)) q := by
  obtain ⟨resp, served, done, hlinked⟩ := h.linked i
  obtain ⟨results, hwrites⟩ := hlinked.writes
  -- an event in which no frame reaches the broker
  have hquiet : ∀ (s : TcpSession) (extra : Bytes), extra = [] →
      enqueued s = enqueued (d.relay.sessions i) →
      SessionSide (challenge i) s (d.arrived i) resp served →
      (∃ results, TcpSession.Mirrored results s) →
      CanFollow A S challenge C
        { d with
          relay := { sessions := Function.update d.relay.sessions i s, broker := d.relay.broker }
          arrived := Function.update d.arrived i (d.arrived i ++ extra) } q := by
    rintro s extra rfl hqueued hside hmirrored
    rw [List.append_nil]
    exact ⟨[], h.of_session (s, d.relay.broker) rfl rfl (fun _ _ => rfl) (fun _ _ => rfl)
      h.broker h.stored ⟨resp, served, done, hlinked.of_session hqueued hside hmirrored⟩, trivial⟩
  cases e with
  | read chunk =>
      cases hread : (d.relay.sessions i).readPending with
      | false =>
          have hnone : TcpSession.onRead S (d.relay.sessions i, d.relay.broker) chunk =
              (d.relay.sessions i, d.relay.broker) := by
            rw [TcpSession.onRead, if_neg (by rw [hread]; decide)]
          rw [Deployment.step, Relay.step, TcpSession.step, hnone]
          exact hquiet _ _ (by rw [hread]; rfl) rfl hlinked.session hlinked.writes
      | true =>
          obtain ⟨sofar, hclient⟩ := hwriting i
          obtain ⟨new, rest, hnew, hbroker, hlinked', auth, hextracted, hauth⟩ :=
            hlinked.sessionRead h.stored hread hclient hpossible
          have harriving : d.arriving S i (.read chunk) = auth ++ new := by
            rw [Deployment.arriving, TcpSession.step, hextracted]
            exact List.drop_left
          have hserves : Run.Along (Service.Queued.step (mailService A)) (Service.Queued.Serves C) q
              (List.replicate new.length (.serve i)) := by
            refine Service.Queued.along_serve hnew ?_
            rw [← h.broker]
            refine along_served hauth ?_
            rw [← harriving]
            exact harrives
          obtain ⟨hstored, -⟩ := h.stored.serveAll fun f hf =>
            hlinked.sendable.1 f (hnew ▸ List.mem_append_left rest hf)
          refine ⟨List.replicate new.length (.serve i), ?_, hserves⟩
          rw [Service.Queued.run_serve hnew, Deployment.step, Relay.step, TcpSession.step,
            if_pos hread]
          refine h.of_session _ rfl rfl (fun j hj => Function.update_of_ne hj ..)
            (fun j hj => Function.update_of_ne hj ..) ?_ ?_ ⟨resp, served ++ new, done, ?_⟩
          · rw [hbroker, h.broker]
            rfl
          · rw [hbroker]
            exact hstored
          · dsimp only
            rw [Function.update_self, Function.update_self, ← h.broker]
            exact hlinked'
  | readFailed =>
      rw [Deployment.step, Relay.step, TcpSession.step]
      refine hquiet _ _ (by split <;> rfl) rfl
        (hlinked.session.congr (fun h => by cases h) rfl rfl rfl) ?_
      exact ⟨results, hwrites.of_mirrors fun h => h.congr rfl rfl rfl⟩
  | written errorCode =>
      rw [Deployment.step, Relay.step, TcpSession.step]
      exact hquiet _ _ (by split <;> rfl) (enqueued_onWritten _ errorCode)
        (hlinked.session.onWritten errorCode) ⟨_, hwrites.onWritten errorCode⟩

theorem Refines.run (h : Refines S challenge d q) (hwriting : Writing d)
    {events : List (DeploymentEvent ι σ)}
    (hpossible : Run.Along (Deployment.step A S) (Deployment.Possible A) d events)
    (harrives : Run.Along (Deployment.step A S) (Deployment.Arrives C S) d events) :
    CanFollow A S challenge C (d.run A S events) q := by
  induction events generalizing d q with
  | nil => exact ⟨[], h, trivial⟩
  | cons e events ih =>
      have hstep : CanFollow A S challenge C (d.step A S e) q := by
        cases e with
        | client i e => exact h.client hpossible.1
        | session i e => exact h.session hwriting hpossible.1 harrives.1
      obtain ⟨events₁, hnext, hserves₁⟩ := hstep
      obtain ⟨events₂, hrun, hserves₂⟩ := ih hnext (hwriting.step e) hpossible.2 harrives.2
      refine ⟨events₁ ++ events₂, ?_, Run.along_append.mpr ⟨hserves₁, hserves₂⟩⟩
      rw [Service.Queued.run, List.foldl_append]
      exact hrun

theorem canFollow_start {app : ι → σ} {max : UInt32} {events : List (DeploymentEvent ι σ)}
    (hpossible : Run.Along (Deployment.step A S) (Deployment.Possible A)
      (Deployment.start app challenge max) events)
    (harrives : Run.Along (Deployment.step A S) (Deployment.Arrives C S)
      (Deployment.start app challenge max) events) :
    CanFollow A S challenge C ((Deployment.start app challenge max).run A S events)
      { client := app, shared := { maxMessages := max } } :=
  (refines_start S app challenge max).run (writing_start app challenge max) hpossible harrives

theorem arrives_true (events : List (DeploymentEvent ι σ)) :
    Run.Along (Deployment.step A S) (Deployment.Arrives (fun _ _ => True) S) d events := by
  refine Run.along_of_forall_mem fun d e _ => ?_
  cases e with
  | client i e => trivial
  | session i e => exact Run.along_of_forall_mem fun _ _ _ => trivial

end Refinement

/-! ## The deployment and the service -/

section Atomic

variable {ι σ : Type}

/-- Session `i` goes on reading, and has read all that its client has queued. -/
def Deployment.Drained (d : Deployment ι σ) (i : ι) : Prop :=
  (d.relay.sessions i).readPending = true ∧
    d.arrived i = (TcpClient.enqueuedIn (d.clients i).trace).flatten

theorem eq_nil_of_more {fs : List Frame} (hfs : ∀ f ∈ fs, IsFrame f.serialize)
    (h : cutFrame (wire fs) = .more) : fs = [] := by
  cases fs with
  | nil => rfl
  | cons f fs =>
      rw [wire_cons, cutFrame_isFrame (hfs f List.mem_cons_self)] at h
      cases h

theorem Linked.up_eq_nil {S : Sodium} {challenge : ByteVec challengSize} {c : TcpClient σ}
    {s : TcpSession} {arrived : Bytes} {resp : Option Frame} {served done up down : List Frame}
    (h : Linked S challenge c s arrived resp served done up down) (hread : s.readPending = true)
    (harrived : arrived = (TcpClient.enqueuedIn c.trace).flatten) : up = [] := by
  have hwire : arrived = wire (resp.toList ++ (served ++ up)) := by
    rw [harrived, h.sent]
    rfl
  cases h.session with
  | ended hread' => exact absurd (hread.symm.trans hread') (by decide)
  | waiting hstate hcurrent hmore hparser =>
      rw [hwire] at hmore
      have hnone := eq_nil_of_more (fun f hf => ?_) hmore
      · exact (List.append_eq_nil_iff.mp hnone).2
      · rcases List.mem_append.mp hf with hf | hf
        · exact isFrame_serialize (h.valid f (Option.mem_toList.mp hf)).1.payload_length_le
        · exact (h.sendable.1 f hf).isFrame
  | serving hstate harrived' hmore hparser =>
      refine eq_nil_of_more (fun f hf => (h.sendable.1 f hf).isFrame) ?_
      rw [harrived', Option.toList_some, ← List.append_assoc, wire_append] at hwire
      rw [← List.append_cancel_left hwire]
      exact hmore

variable [DecidableEq ι]

variable {A : ι → Application σ} {S : Sodium} {app : ι → σ} {challenge : ι → ByteVec challengSize}
  {max : UInt32} {events : List (DeploymentEvent ι σ)}

/-- What the applications have done could have been done with the mail service. -/
theorem atomic_clients (hpossible : Run.Along (Deployment.step A S) (Deployment.Possible A)
      (Deployment.start app challenge max) events) :
    ∃ acts, ∀ t, t = Service.Direct.run (mailService A)
        { client := app, shared := { maxMessages := max } } acts →
      (∀ i, t.client i = (((Deployment.start app challenge max).run A S events).clients i).app) ∧
        t.history = ((Deployment.start app challenge max).run A S events).history := by
  obtain ⟨events', href, -⟩ := canFollow_start hpossible (arrives_true events)
  obtain ⟨⟨acts, hclient, hhistory⟩, -⟩ :=
    Service.exists_direct (X := mailService A) app { maxMessages := max } events'
  refine ⟨acts, ?_⟩
  rintro t rfl
  exact ⟨fun i => (congrFun hclient i).trans (href.apps i).symm, hhistory.trans href.history.symm⟩

/-- When everything has been read, the broker too is where the mail service would be. -/
theorem atomic_drained (hpossible : Run.Along (Deployment.step A S) (Deployment.Possible A)
      (Deployment.start app challenge max) events)
    (hdrained : ∀ i, ((Deployment.start app challenge max).run A S events).Drained i) :
    ∃ acts, ∀ t, t = Service.Direct.run (mailService A)
        { client := app, shared := { maxMessages := max } } acts →
      (∀ i, t.client i = (((Deployment.start app challenge max).run A S events).clients i).app) ∧
        t.history = ((Deployment.start app challenge max).run A S events).history ∧
        t.shared = ((Deployment.start app challenge max).run A S events).relay.broker := by
  obtain ⟨events', href, -⟩ := canFollow_start hpossible (arrives_true events)
  have hserved : ∀ i, (Service.Queued.run (mailService A)
      { client := app, shared := { maxMessages := max } } events').up i = [] := by
    intro i
    obtain ⟨resp, served, done, hlinked⟩ := href.linked i
    exact hlinked.up_eq_nil (hdrained i).1 (hdrained i).2
  obtain ⟨acts, hrun⟩ :=
    (Service.exists_direct (X := mailService A) app { maxMessages := max } events').2 hserved
  refine ⟨acts, ?_⟩
  rintro t rfl
  rw [hrun]
  exact ⟨fun i => (href.apps i).symm, href.history.symm, href.broker.symm⟩

/-- **The applications use an atomic mail service.** Whatever the clients do, in whatever
pieces the bytes come and in whatever order the handlers of the clients and the sessions run,
the frames could also have been served by the broker at the moment they were handed over:
every application does and sees the same, in the same order. When the sessions have read
everything, the broker has the same frames too. -/
theorem deployment_atomic (A : ι → Application σ) (S : Sodium) (app : ι → σ)
    (challenge : ι → ByteVec challengSize) (max : UInt32) (events : List (DeploymentEvent ι σ))
    (hpossible : Run.Along (Deployment.step A S) (Deployment.Possible A)
      (Deployment.start app challenge max) events) :
    let d := (Deployment.start app challenge max).run A S events
    let service : Service.Direct ι σ MessageBroker Frame :=
      { client := app, shared := { maxMessages := max } }
    (∃ acts, (∀ i, (service.run (mailService A) acts).client i = (d.clients i).app) ∧
      (service.run (mailService A) acts).history = d.history) ∧
    ((∀ i, d.Drained i) → ∃ acts,
      (∀ i, (service.run (mailService A) acts).client i = (d.clients i).app) ∧
      (service.run (mailService A) acts).history = d.history ∧
      (service.run (mailService A) acts).shared = d.relay.broker) := by
  intro d service
  constructor
  · obtain ⟨acts, hacts⟩ := atomic_clients hpossible
    exact ⟨acts, hacts _ rfl⟩
  · intro hdrained
    obtain ⟨acts, hacts⟩ := atomic_drained hpossible hdrained
    exact ⟨acts, hacts _ rfl⟩

/-- Two clients: one pushes a frame, the other one polls and gets it. -/
theorem deployment_atomic_pair :
    let m := MailboxID.fill 9
    let A (i : Bool) : Application (List Frame) :=
      { frameProvider := fun s => (if i then Frame.createPoll m else Frame.createPush m [1], s)
        frameReceiver := fun s f => s ++ [f] }
    ∃ acts, (Service.Direct.run (mailService A)
      { client := fun _ => [], shared := { maxMessages := 1 } } acts).client true =
        [Frame.createPush m [1]] := by
  intro m A
  let resp := Frame.createAuthResponse (MailboxID.fill 0x00) (nonceBytes 1)
  let challenge : ByteVec challengSize := List.Vector.replicate 32 0
  let events : List (DeploymentEvent Bool (List Frame)) :=
    [.client false (.read (challengeFrame challenge).serialize), .client false .tick,
      .client false (.written false),
      .session false (.read (resp.serialize ++ (Frame.createPush m [1]).serialize)),
      .client true (.read (challengeFrame challenge).serialize), .client true .tick,
      .session true (.written false), .client true (.written false),
      .session true (.read (resp.serialize ++ (Frame.createPoll m).serialize)),
      .client true (.read (Frame.createPush m [1]).serialize)]
  have hframe : ∀ i s, Sendable ((A i).frameProvider s).1 := by
    intro i s
    cases i with
    | true => exact sendable_createPoll m
    | false => exact ⟨.push m (by decide), .inl rfl⟩
  have h := deployment_atomic A transparent (fun _ => []) (fun _ => challenge) 1 events
    ⟨List.isPrefixOf_iff_prefix.mp (by decide +kernel), fun _ => hframe _ _, trivial,
      List.isPrefixOf_iff_prefix.mp (by decide +kernel),
      List.isPrefixOf_iff_prefix.mp (by decide +kernel), fun _ => hframe _ _, trivial, trivial,
      List.isPrefixOf_iff_prefix.mp (by decide +kernel),
      List.isPrefixOf_iff_prefix.mp (by decide +kernel), trivial⟩
  obtain ⟨acts, hclient, -⟩ := h.1
  refine ⟨acts, (hclient true).trans ?_⟩
  decide +kernel

end Atomic

end BlankChat.System
