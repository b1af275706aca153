import BlankChat.Server.MessageBroker

/-!
# The relay: sessions that share one broker

Any number of sessions, indexed by `ι`, run on one event loop and share one
message broker. A step is one completion handler of one session.

What the relay is for is said without sessions or parsers: `Connection` reads the
bytes of a client by the stream format and keeps the frames that come after a
valid answer to the challenge; these frames, in the order in which they are
complete, are operations on the bounded channels of `Lib.BoundedFifo`, one
channel per mailbox, and every poll has one answer.

Main result: `relay_fifo`, the bytes the sessions queue for their clients are
those answers.
-/

namespace BlankChat.Server

open Lib Crypto Protocol Network TcpSession

structure Relay (ι : Type) : Type where
  sessions : ι → TcpSession
  broker : MessageBroker

namespace Relay

variable {ι : Type} [DecidableEq ι]

def start (challenge : ι → ByteVec challengSize) (max : UInt32) : Relay ι where
  sessions := fun i => TcpSession.start (challenge i)
  broker := { maxMessages := max }

def step (S : Sodium) (r : Relay ι) (ev : ι × SocketEvent) : Relay ι :=
  let sh := TcpSession.step S (r.sessions ev.1, r.broker) ev.2
  { sessions := Function.update r.sessions ev.1 sh.1, broker := sh.2 }

def run (S : Sodium) (r : Relay ι) (events : List (ι × SocketEvent)) : Relay ι :=
  events.foldl (step S) r

end Relay

/-- The frames a session has queued for its client, in order. -/
def enqueued (s : TcpSession) : List RawFrame :=
  s.trace.filterMap fun
    | .enqueued raw => some raw
    | _ => none

/-! ## The relay by the stream format -/

/-- A connection by the bytes it has received: the challenge is not answered yet,
the client is served (`r` is the unfinished frame), or nothing more is read. -/
inductive Connection : Type where
  | waiting (challenge r : Bytes)
  | serving (r : Bytes)
  | closed

/-- How the first known frame decides about a client. -/
inductive Admission : Type where
  | undecided
  | refused
  | admitted (raws : List RawFrame)

def admission (S : Sodium) (challenge : Bytes) : List RawFrame → Admission
  | [] => .undecided
  | raw :: raws =>
      match frameOf raw with
      | none => admission S challenge raws
      | some f => if ValidAuth S challenge f then .admitted raws else .refused

/-- What a chunk makes of a connection, and the frames to serve in it. -/
def Connection.read (S : Sodium) : Connection → Bytes → Connection × List RawFrame
  | .closed, _ => (.closed, [])
  | .serving r, chunk =>
      match splitStream (r ++ chunk) with
      | (raws, .unfinished r') => (.serving r', raws)
      | (raws, .malformed _) => (.closed, raws)
  | .waiting challenge r, chunk =>
      match admission S challenge (splitStream (r ++ chunk)).1,
        (splitStream (r ++ chunk)).2 with
      | .refused, _ => (.closed, [])
      | .undecided, .unfinished r' => (.waiting challenge r', [])
      | .undecided, .malformed _ => (.closed, [])
      | .admitted raws, .unfinished r' => (.serving r', raws)
      | .admitted raws, .malformed _ => (.closed, raws)

def Connection.event (S : Sodium) (c : Connection) :
    SocketEvent → Connection × List RawFrame
  | .read chunk => c.read S chunk
  | .readFailed => (.closed, [])
  | .written _ => (c, [])

/-- The operation a frame stands for. -/
def opOf {ι : Type} (i : ι) (raw : RawFrame) :
    Option (FifoOp ι MailboxID RawFrame) :=
  match frameOf raw with
  | none => none
  | some f =>
      match f.action with
      | .push | .ack => some (.push f.mailboxId raw)
      | .poll => some (.poll i f.mailboxId)
      | _ => none

/-- The operations of all clients, in the order in which they reach the relay. -/
def operations {ι : Type} [DecidableEq ι] (S : Sodium) (conns : ι → Connection) :
    List (ι × SocketEvent) → List (FifoOp ι MailboxID RawFrame)
  | [] => []
  | (i, ev) :: events =>
      ((conns i).event S ev).2.filterMap (opOf i) ++
        operations S (Function.update conns i ((conns i).event S ev).1) events

/-- The bytes of an answer: the frame as it was received, or the canonical empty
POLL. -/
def answerBytes {ι : Type} (a : FifoAnswer ι MailboxID RawFrame) : RawFrame :=
  a.value.getD (Frame.createPoll a.key).serialize

/-! ## One frame of a session that serves -/

theorem doWrite_enqueued (s : TcpSession) (raw : RawFrame) :
    enqueued (s.doWrite raw) = enqueued s ++ [raw] ∧
      (s.doWrite raw).state = s.state ∧ (s.doWrite raw).socketOpen = s.socketOpen ∧
      (s.doWrite raw).readPending = s.readPending := by
  obtain ⟨_, queue, inProgress, _, _, _, _, trace⟩ := s
  cases inProgress <;> cases queue <;>
    simp [enqueued, doWrite, processWriteQueue, record]

/-- A session that serves a client: what later reads depend on. -/
structure Serves (s : TcpSession) : Prop where
  state : s.state = .authenticated
  socketOpen : s.socketOpen = true

/-- The broker has followed the channels through the operations `ops`, and the
session `s` has queued the answers. -/
structure Answered {ι : Type} (max : ℕ) (σ : MailboxID → Channel RawFrame)
    (ops : List (FifoOp ι MailboxID RawFrame)) (s : TcpSession)
    (sh' : TcpSession × MessageBroker) : Prop where
  refines : sh'.2.Refines (Fifo.run max σ ops)
  quota : sh'.2.maxMessages.toNat = max
  answered : enqueued sh'.1 = enqueued s ++ (Fifo.answers max σ ops).map answerBytes

/-- Answered, and ready for the next frame. -/
structure Served {ι : Type} (max : ℕ) (σ : MailboxID → Channel RawFrame)
    (ops : List (FifoOp ι MailboxID RawFrame)) (s : TcpSession)
    (sh' : TcpSession × MessageBroker) : Prop extends Answered max σ ops s sh' where
  serves : Serves sh'.1
  readPending : sh'.1.readPending = s.readPending

theorem Answered.none {ι : Type} {σ : MailboxID → Channel RawFrame} {s s' : TcpSession}
    {b : MessageBroker} (hb : b.Refines σ) (h : enqueued s' = enqueued s) :
    Answered b.maxMessages.toNat σ ([] : List (FifoOp ι MailboxID RawFrame)) s (s', b) :=
  ⟨hb, rfl, by simp [Fifo.answers, h]⟩

theorem onRaw_served {ι : Type} {S : Sodium} {s : TcpSession} {b : MessageBroker}
    {σ : MailboxID → Channel RawFrame} (i : ι) (hs : Serves s) (hb : b.Refines σ)
    {raw : RawFrame} (hraw : IsFrame raw) :
    Served b.maxMessages.toNat σ (opOf i raw).toList s
      ((reader S).onRaw (s, b) raw) := by
  unfold Reader.onRaw opOf
  cases hf : frameOf raw with
  | none =>
      show Served _ _ [] _ (s, b)
      exact ⟨.none hb rfl, hs, rfl⟩
  | some f =>
      have hser := serialize_frameOf hraw hf
      have hpush : f.action = .push ∨ f.action = .ack →
          Served b.maxMessages.toNat σ
            ([.push f.mailboxId raw] : List (FifoOp ι MailboxID RawFrame)) s
            ((s.record (.extracted f)).record (.processPush f), b.processPush f) := by
        intro hact
        refine ⟨⟨?_, by simp, ?_⟩, ⟨hs.state, hs.socketOpen⟩, rfl⟩
        · rw [← hser hact]
          exact hb.push f
        · simp [Fifo.answers, Fifo.step, enqueued, record]
      show Served _ _ _ _ (processExtractedFrame S (s, b) f).1
      have hstate : (s.record (.extracted f)).state = .authenticated := hs.state
      simp only [processExtractedFrame, hstate]
      cases hact : f.action with
      | push => exact hpush (.inl hact)
      | ack => exact hpush (.inr hact)
      | poll =>
          obtain ⟨hans, hb'⟩ := hb.poll f.mailboxId
          -- both branches queue the bytes of the channel's answer
          have hwrite : ∀ raw', raw' = answerBytes ⟨i, f.mailboxId, (σ f.mailboxId).poll.1⟩ →
              Served b.maxMessages.toNat σ [.poll i f.mailboxId] s
                (((s.record (.extracted f)).record (.processPoll f.mailboxId)).doWrite raw',
                  (b.processPoll f.mailboxId).2) := by
            rintro raw' rfl
            obtain ⟨h₁, h₂, h₃, h₄⟩ := doWrite_enqueued
              ((s.record (.extracted f)).record (.processPoll f.mailboxId))
              (answerBytes ⟨i, f.mailboxId, (σ f.mailboxId).poll.1⟩)
            refine ⟨⟨hb', by simp, ?_⟩, ⟨h₂.trans hs.state, h₃.trans hs.socketOpen⟩, h₄⟩
            rw [h₁]
            simp [Fifo.answers, Fifo.step, enqueued, record]
          simp only [FrameHandler.processPoll]
          cases hpoll : b.processPoll f.mailboxId with
          | mk response b' =>
              rw [hpoll] at hans hwrite
              cases response with
              | some response =>
                  refine hwrite _ ?_
                  rw [answerBytes, ← hans]
                  rfl
              | none =>
                  refine hwrite _ ?_
                  rw [answerBytes, ← hans]
                  rfl
      | authChallenge =>
          show Served _ _ [] _ (s.record (.extracted f), b)
          refine ⟨.none hb ?_, ⟨hs.state, hs.socketOpen⟩, rfl⟩
          simp [enqueued, record]
      | authResponse =>
          show Served _ _ [] _ (s.record (.extracted f), b)
          refine ⟨.none hb ?_, ⟨hs.state, hs.socketOpen⟩, rfl⟩
          simp [enqueued, record]

/-- All frames of a client that is served are handled. -/
theorem absorb_served {ι : Type} {S : Sodium} (i : ι) {raws : List RawFrame}
    (hraws : ∀ raw ∈ raws, IsFrame raw) {s : TcpSession} {b : MessageBroker}
    {σ : MailboxID → Channel RawFrame} (hs : Serves s) (hb : b.Refines σ) :
    ∃ sh', (reader S).absorb (s, b) raws = (sh', none) ∧
      Served b.maxMessages.toNat σ (raws.filterMap (opOf i)) s sh' := by
  induction raws generalizing s b σ with
  | nil => exact ⟨(s, b), rfl, .none hb rfl, hs, rfl⟩
  | cons raw raws ih =>
      have h₁ := onRaw_served (S := S) i hs hb (hraws raw (by simp))
      obtain ⟨sh', habs, h₂⟩ :=
        ih (fun x hx => hraws x (by simp [hx])) h₁.serves h₁.refines
      rw [h₁.quota] at h₂
      have hops : (raw :: raws).filterMap (opOf i) =
          (opOf i raw).toList ++ raws.filterMap (opOf i) := by
        cases h : opOf i raw <;> simp [h]
      refine ⟨sh', ?_, ⟨?_, h₂.quota, ?_⟩, h₂.serves, h₂.readPending.trans h₁.readPending⟩
      · rw [Reader.absorb, if_pos (by exact h₁.serves.socketOpen)]
        exact habs
      · rw [hops, Fifo.run_append]
        exact h₂.refines
      · rw [h₂.answered, h₁.answered, hops, Fifo.answers_append, List.map_append,
          List.append_assoc]

/-! ## One step of a session -/

/-- The session `s` is where the bytes of its client have brought it. -/
def Follows (s : TcpSession) : Connection → Prop
  | .waiting challenge r =>
      s.state = .unauthenticated ∧ s.currentChallenge = challenge ∧
        s.socketOpen = true ∧ s.readPending = true ∧
        s.parser = FrameParser.onBytes r ∧ FrameParser.Unfinished r
  | .serving r =>
      Serves s ∧ s.readPending = true ∧ s.parser = FrameParser.onBytes r ∧
        FrameParser.Unfinished r
  | .closed => s.readPending = false

/-- The frames up to the one that decides about a client are skipped. -/
theorem absorb_admission {S : Sodium} {s : TcpSession} {challenge : Bytes}
    (hstate : s.state = .unauthenticated) (hcur : s.currentChallenge = challenge)
    (ho : s.socketOpen = true) (b : MessageBroker) (raws : List RawFrame) :
    match admission S challenge raws with
    | .undecided => (reader S).absorb (s, b) raws = ((s, b), none)
    | .refused => ∃ s' rest, (reader S).absorb (s, b) raws = ((s', b), some rest) ∧
        s'.socketOpen = false ∧ enqueued s' = enqueued s
    | .admitted rest => (∀ raw ∈ rest, raw ∈ raws) ∧ ∃ s', Serves s' ∧
        s'.readPending = s.readPending ∧ enqueued s' = enqueued s ∧
        (reader S).absorb (s, b) raws = (reader S).absorb (s', b) rest := by
  induction raws with
  | nil => rfl
  | cons raw raws ih =>
      unfold admission
      rw [Reader.absorb, Reader.onRaw]
      cases hf : frameOf raw with
      | none =>
          simp only [show (reader S).isOpen (s, b) = true from ho, if_true]
          revert ih
          cases admission S challenge raws with
          | undecided => exact id
          | refused => exact id
          | admitted rest =>
              rintro ⟨hmem, hrest⟩
              exact ⟨fun x hx => List.mem_cons_of_mem _ (hmem x hx), hrest⟩
      | some f =>
          have hstep : (reader S).onFrame (s, b) f =
              ((((s.record (.extracted f)).handleAuthResponse S f).1, b),
                ((s.record (.extracted f)).handleAuthResponse S f).2) := by
            have hrec : (s.record (.extracted f)).state = .unauthenticated := hstate
            simp only [reader, processExtractedFrame, hrec]
          simp only [hstep]
          by_cases hv : ValidAuth S challenge f
          · rw [handleAuthResponse_valid (by rw [← hcur] at hv; exact hv), if_pos hv,
              if_pos (by exact ho)]
            refine ⟨fun x hx => List.mem_cons_of_mem _ hx,
              { s.record (.extracted f) with state := .authenticated }, ⟨rfl, ho⟩, rfl,
              ?_, rfl⟩
            simp [enqueued, record]
          · rw [handleAuthResponse_invalid (by rw [← hcur] at hv; exact hv), if_neg hv,
              if_neg (by exact Bool.false_ne_true)]
            refine ⟨_, raws, rfl, rfl, ?_⟩
            simp [enqueued, record, close]

/-- Where the end of a chunk leaves a connection that is served. -/
def Connection.served : Tail → Connection
  | .unfinished r => .serving r
  | .malformed _ => .closed

theorem readBytes_served {ι : Type} {S : Sodium} {max : ℕ}
    {σ : MailboxID → Channel RawFrame} {ops : List (FifoOp ι MailboxID RawFrame)}
    {s : TcpSession} {sh sh' : TcpSession × MessageBroker} {data : Bytes}
    (habs : (reader S).absorb sh (splitStream data).1 = (sh', none))
    (h : Served max σ ops s sh') :
    let sh'' := ((reader S).readBytes sh data).1
    Follows { sh''.1 with readPending := sh''.1.socketOpen }
        (Connection.served (splitStream data).2) ∧
      Answered max σ ops s
        ({ sh''.1 with readPending := sh''.1.socketOpen }, sh''.2) := by
  unfold Reader.readBytes
  rw [habs]
  cases htail : (splitStream data).2 with
  | unfinished r =>
      exact ⟨⟨⟨h.serves.state, h.serves.socketOpen⟩, h.serves.socketOpen, rfl,
        splitStream_unfinished htail⟩, h.refines, h.quota, h.answered⟩
  | malformed m =>
      refine ⟨rfl, h.refines, h.quota, ?_⟩
      rw [← h.answered]
      simp [enqueued, reader, close, record]

theorem onWritten_follows {s : TcpSession} {c : Connection} (hs : Follows s c) :
    Follows (s.onWritten false) c ∧ enqueued (s.onWritten false) = enqueued s := by
  obtain ⟨parser, queue, inProgress, state, current, isOpen, pending, trace⟩ := s
  cases inProgress with
  | false => exact ⟨hs, rfl⟩
  | true =>
      rcases queue with _ | ⟨_, _ | ⟨raw, _⟩⟩
      all_goals
        refine ⟨?_, by simp [enqueued, onWritten, processWriteQueue, record]⟩
        cases c with
        | closed => exact hs
        | waiting challenge r => exact hs
        | serving r => exact ⟨⟨hs.1.state, hs.1.socketOpen⟩, hs.2⟩

/-- One completion handler: the session follows its client's bytes and answers
the polls in them. -/
theorem step_answered {ι : Type} {S : Sodium} (i : ι) {s : TcpSession} {c : Connection}
    {b : MessageBroker} {σ : MailboxID → Channel RawFrame} (hs : Follows s c)
    (hb : b.Refines σ) {ev : SocketEvent} (hev : ev ≠ .written true) :
    Follows (TcpSession.step S (s, b) ev).1 (c.event S ev).1 ∧
      Answered b.maxMessages.toNat σ ((c.event S ev).2.filterMap (opOf i)) s
        (TcpSession.step S (s, b) ev) := by
  cases ev with
  | readFailed => exact ⟨rfl, .none hb rfl⟩
  | written errorCode =>
      cases errorCode with
      | true => exact absurd rfl hev
      | false =>
          obtain ⟨hs', henq⟩ := onWritten_follows hs
          exact ⟨hs', .none hb henq⟩
  | read chunk =>
      cases c with
      | closed =>
          have hne : ¬ s.readPending = true := by
            rw [show s.readPending = false from hs]
            exact Bool.false_ne_true
          have hidle : TcpSession.step S (s, b) (.read chunk) = (s, b) := by
            rw [TcpSession.step, onRead, if_neg hne]
          rw [hidle]
          exact ⟨hs, .none hb rfl⟩
      | serving r =>
          obtain ⟨hserves, hread, hparser, hu⟩ := hs
          obtain ⟨sh', habs, hserved⟩ := absorb_served (S := S) i
            (splitStream_isFrame (r ++ chunk))
            (s := { s with readPending := false }) ⟨hserves.state, hserves.socketOpen⟩ hb
          obtain ⟨hfollows, hrefines, hquota, hans⟩ := readBytes_served habs hserved
          have hevent : (Connection.serving r).event S (.read chunk) =
              (Connection.served (splitStream (r ++ chunk)).2,
                (splitStream (r ++ chunk)).1) := by
            simp only [Connection.event, Connection.read]
            cases splitStream (r ++ chunk) with
            | mk raws tail => cases tail <;> rfl
          rw [TcpSession.step, onRead_eq S hread hparser hu, hevent]
          exact ⟨hfollows, hrefines, hquota, hans⟩
      | waiting challenge r =>
          obtain ⟨hstate, hcur, ho, hread, hparser, hu⟩ := hs
          have hadm := absorb_admission (S := S) (s := { s with readPending := false })
            hstate hcur ho b (splitStream (r ++ chunk)).1
          rw [TcpSession.step, onRead_eq S hread hparser hu]
          simp only [Connection.event, Connection.read]
          cases hcase : admission S challenge (splitStream (r ++ chunk)).1 with
          | undecided =>
              rw [hcase] at hadm
              simp only [Reader.readBytes, hadm]
              cases htail : (splitStream (r ++ chunk)).2 with
              | unfinished r' =>
                  exact ⟨⟨hstate, hcur, ho, ho, rfl, splitStream_unfinished htail⟩,
                    .none hb rfl⟩
              | malformed m =>
                  refine ⟨rfl, .none hb ?_⟩
                  simp [enqueued, reader, close, record]
          | refused =>
              rw [hcase] at hadm
              obtain ⟨s', rest, habs, hclosed, henq⟩ := hadm
              simp only [Reader.readBytes, habs]
              exact ⟨hclosed, .none hb henq⟩
          | admitted raws =>
              rw [hcase] at hadm
              obtain ⟨hmem, s', hserves, hpend, henq, habs⟩ := hadm
              obtain ⟨sh', habs', hserved⟩ := absorb_served (S := S) i
                (fun raw hraw => splitStream_isFrame (r ++ chunk) raw (hmem raw hraw))
                hserves hb
              obtain ⟨hfollows, hrefines, hquota, hans⟩ :=
                readBytes_served (habs.trans habs') hserved
              have hans' := hans.trans (congrArg (· ++ _) henq)
              cases htail : (splitStream (r ++ chunk)).2 with
              | unfinished r' =>
                  rw [htail] at hfollows
                  exact ⟨hfollows, hrefines, hquota, hans'⟩
              | malformed m =>
                  rw [htail] at hfollows
                  exact ⟨hfollows, hrefines, hquota, hans'⟩

/-! ## Runs of the relay -/

theorem answers_label {ι : Type} (i : ι) (max : ℕ) (σ : MailboxID → Channel RawFrame)
    (raws : List RawFrame) :
    ∀ a ∈ Fifo.answers max σ (raws.filterMap (opOf i)), a.label = i := by
  induction raws generalizing σ with
  | nil => simp [Fifo.answers]
  | cons raw raws ih =>
      cases h : opOf i raw with
      | none =>
          rw [List.filterMap_cons_none h]
          exact ih σ
      | some op =>
          rw [List.filterMap_cons_some h, Fifo.answers]
          intro a ha
          rcases List.mem_append.mp ha with ha | ha
          · cases op with
            | push key value => simp [Fifo.step] at ha
            | poll label key =>
                have hlabel : label = i := by
                  unfold opOf at h
                  split at h
                  · cases h
                  · split at h <;> cases h
                    rfl
                simp only [Fifo.step, Option.toList, List.mem_singleton] at ha
                rw [ha]
                exact hlabel
          · exact ih _ a ha

section

variable {ι : Type} [DecidableEq ι] {S : Sodium}

/-- The relay is where the bytes of all its clients have brought it. -/
structure Relay.Tracks (r : Relay ι) (conns : ι → Connection)
    (σ : MailboxID → Channel RawFrame) : Prop where
  follows : ∀ i, Follows (r.sessions i) (conns i)
  refines : r.broker.Refines σ

omit [DecidableEq ι] in
theorem Relay.start_tracks (challenge : ι → ByteVec challengSize) (max : UInt32) :
    (Relay.start challenge max).Tracks (fun i => .waiting (challenge i).toList [])
      (fun _ => {}) :=
  ⟨fun _ => ⟨rfl, rfl, rfl, rfl, rfl, FrameParser.unfinished_nil⟩,
    MessageBroker.refines_empty max⟩

/-- Along a run every session queues exactly the answers that are for its client. -/
theorem Relay.run_enqueued {r : Relay ι} {conns : ι → Connection}
    {σ : MailboxID → Channel RawFrame} (h : r.Tracks conns σ)
    {events : List (ι × SocketEvent)} (hev : ∀ ev ∈ events, ev.2 ≠ .written true) (i : ι) :
    enqueued ((r.run S events).sessions i) =
      enqueued (r.sessions i) ++
        ((Fifo.answers r.broker.maxMessages.toNat σ (operations S conns events)).filter
          fun a => a.label = i).map answerBytes := by
  induction events generalizing r conns σ with
  | nil => simp [Relay.run, operations, Fifo.answers]
  | cons ev events ih =>
      obtain ⟨j, ev⟩ := ev
      obtain ⟨hfollows, hrefines, hquota, hans⟩ :=
        step_answered (S := S) j (h.follows j) h.refines (hev (j, ev) (by simp))
      have htracks : (r.step S (j, ev)).Tracks
          (Function.update conns j ((conns j).event S ev).1)
          (Fifo.run r.broker.maxMessages.toNat σ
            (((conns j).event S ev).2.filterMap (opOf j))) := by
        refine ⟨fun k => ?_, hrefines⟩
        by_cases hk : k = j
        · subst hk
          simpa only [Relay.step, Function.update_self] using hfollows
        · simpa only [Relay.step, Function.update_of_ne hk] using h.follows k
      have hih := ih htracks (fun x hx => hev x (by simp [hx]))
      have hmax : (r.step S (j, ev)).broker.maxMessages.toNat =
          r.broker.maxMessages.toNat := hquota
      rw [hmax] at hih
      show enqueued (((r.step S (j, ev)).run S events).sessions i) = _
      rw [hih, operations, Fifo.answers_append, List.filter_append, List.map_append,
        ← List.append_assoc]
      congr 1
      have hlabel := answers_label j r.broker.maxMessages.toNat σ
        ((conns j).event S ev).2
      by_cases hij : i = j
      · subst hij
        rw [List.filter_eq_self.mpr fun a ha => by simpa using hlabel a ha]
        simpa only [Relay.step, Function.update_self] using hans
      · rw [List.filter_eq_nil_iff.mpr fun a ha => by
          simpa [hlabel a ha] using fun h => hij h.symm]
        simp only [Relay.step, Function.update_of_ne hij, List.map_nil, List.append_nil]

/-- **The relay is a bounded FIFO per mailbox, byte for byte.** Every session queues
its challenge and then, in order, one answer for each POLL of its client: the wire
bytes of the oldest PUSH or ACK that was accepted for the mailbox and not yet
returned, or the canonical empty POLL. What was returned for a mailbox is an
initial part of what was accepted for it, and the answers for a mailbox are those
of the operations on it alone. -/
theorem relay_fifo (challenge : ι → ByteVec challengSize) (max : UInt32)
    (events : List (ι × SocketEvent)) (hev : ∀ ev ∈ events, ev.2 ≠ .written true) :
    let ops := operations S (fun i => .waiting (challenge i).toList []) events
    let answers := Fifo.answers max.toNat (fun _ => {}) ops
    let channels := Fifo.run max.toNat (fun _ => {}) ops
    (∀ i, enqueued (((Relay.start challenge max).run S events).sessions i) =
      challengeBytes (challenge i) ::
        (answers.filter fun a => a.label = i).map answerBytes) ∧
    (∀ m, (answers.filter fun a => a.key = m).filterMap FifoAnswer.value =
        (channels m).accepted.take (channels m).returned ∧
      (channels m).accepted.Sublist (Fifo.pushes m ops)) ∧
    ∀ m, answers.filter (fun a => a.key = m) =
      Fifo.answers max.toNat (fun _ => {}) (ops.filter fun op => op.key = m) := by
  intro ops answers channels
  refine ⟨fun i => ?_, fun m => ⟨?_, ?_⟩, fun m => Fifo.answers_filter_key _ m rfl ops⟩
  · exact Relay.run_enqueued (Relay.start_tracks challenge max) hev i
  · exact (Fifo.answers_given max.toNat m (fun _ => {}) ops).symm
  · exact Fifo.accepted_sublist max.toNat m (fun _ => {}) ops

end

/-- Two clients on a relay with room for one frame per mailbox: the first one
answers its challenge and pushes twice, the second one polls twice. -/
theorem relay_fifo_pair :
    let auth : Bytes := 0x05 :: List.replicate 16 0 ++ [8, 0, 0, 0] ++ List.replicate 8 0
    let push (b : UInt8) : Bytes := 0x01 :: List.replicate 16 9 ++ [1, 0, 0, 0] ++ [b]
    let poll : Bytes := 0x02 :: List.replicate 16 9 ++ [0, 0, 0, 0]
    let events : List (Bool × SocketEvent) :=
      [(false, .read (auth ++ push 1 ++ push 2)), (true, .read (auth ++ poll)),
        (true, .written false), (true, .read poll)]
    enqueued (((Relay.start (fun _ => List.Vector.replicate 32 0) 1).run transparent
        events).sessions true) =
      [challengeBytes (List.Vector.replicate 32 0), push 1,
        (Frame.createPoll (MailboxID.fill 9)).serialize] := by
  intro auth push poll events
  have h := (relay_fifo (S := transparent) (fun _ : Bool => List.Vector.replicate 32 0) 1
    events (by decide)).1 true
  rw [h]
  decide +kernel

end BlankChat.Server
