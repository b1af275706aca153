import BlankChat.Crypto.Sodium
import BlankChat.Network.ReadLoop

/-!
# A server session — `tcp_session.h`, `tcp_session.cpp`

A session writes a random challenge, then reads: until the client has answered
the challenge with a proof of work, every frame goes to `HandleAuthResponse`;
afterwards PUSH, ACK and POLL frames go to the frame handler it shares with the
other sessions.

The socket is a pair of flags, `socketOpen` and `readPending` (a read has been
posted and its completion handler will run); `SocketEvent` is what the runtime
can deliver: a completed or failed read, a completed or failed write, in any
order. `trace` records, in order, what an observer of the session sees; the code
does not read it.

Main result: `session_auth_gate`, nothing is served unless the first frame of the bytes
read is a valid proof of work, whatever the bytes and however they are cut.
-/

namespace BlankChat.Network

open Lib BlankChat.Core Crypto Protocol

/-- `IFrameHandler` (`i_frame_handler.h`). -/
class FrameHandler (H : Type) where
  processPush : H → Frame → H
  processPoll : H → MailboxID → Option Frame × H

inductive SessionState : Type where
  | unauthenticated
  | authenticated
deriving DecidableEq, Repr

/-- What a session can be seen to do. -/
inductive SessionEvent : Type where
  | extracted (f : Frame)
  | processPush (f : Frame)
  | processPoll (mid : MailboxID)
  | enqueued (raw : RawFrame)
  | writeStarted (raw : RawFrame)
  | closed
deriving DecidableEq

/-- Calls of the frame handler, and frames for the client. -/
def SessionEvent.serves : SessionEvent → Bool
  | .processPush _ => true
  | .processPoll _ => true
  | .enqueued _ => true
  | _ => false

/-- Events that involve no frame of the client. -/
def SessionEvent.quiet : SessionEvent → Bool
  | .writeStarted _ => true
  | .closed => true
  | _ => false

structure TcpSession : Type where
  parser : FrameParser := {}
  writeQueue : List RawFrame := []
  writeInProgress : Bool := false
  state : SessionState := .unauthenticated
  currentChallenge : Bytes := []
  socketOpen : Bool := true
  readPending : Bool := false
  trace : List SessionEvent := []
deriving DecidableEq

def challengSize : ℕ := 32

namespace TcpSession

def record (s : TcpSession) (e : SessionEvent) : TcpSession :=
  { s with trace := s.trace ++ [e] }

/-- `socket.close(closeEc)`. -/
def close (s : TcpSession) : TcpSession :=
  { s with socketOpen := false }.record .closed

/-! ## Writing -/

/-- `ProcessWriteQueue` up to the `async_write` call. -/
def processWriteQueue (s : TcpSession) : TcpSession :=
  match s.writeInProgress, s.writeQueue with
  | false, raw :: _ =>
      { s with writeInProgress := true }.record (.writeStarted raw)
  | _, _ => s

/-- `DoWrite`. -/
def doWrite (s : TcpSession) (frameData : RawFrame) : TcpSession :=
  ({ s with writeQueue := s.writeQueue ++ [frameData] }.record
    (.enqueued frameData)).processWriteQueue

/-- The completion handler of `async_write`. -/
def onWritten (s : TcpSession) (errorCode : Bool) : TcpSession :=
  if s.writeInProgress then
    let s := { s with writeInProgress := false, writeQueue := s.writeQueue.tail }
    if errorCode then s.close else s.processWriteQueue
  else s

/-! ## Reading -/

/-- The proof of work: the hash of the challenge and the eight bytes of the nonce
starts with three zero digits. -/
def proofOfWork (S : Sodium) (challenge nonce : Bytes) : Bool :=
  (ascii "000").isPrefixOf (hashPayload S (challenge ++ nonce))

/-- `HandleAuthResponse`. -/
def handleAuthResponse (S : Sodium) (s : TcpSession) (frame : Frame) :
    TcpSession × Bool :=
  if frame.action ≠ .authResponse then (s.close, false)
  else if frame.payload.length < 8 then (s.close, false)
  else if proofOfWork S s.currentChallenge (frame.payload.take 8) then
    ({ s with state := .authenticated }, true)
  else (s.close, false)

section

variable {H : Type} [FrameHandler H]

/-- The body of the loop of `ProcessExtractedFrame`; `false` is its `return`. -/
def processExtractedFrame (S : Sodium) (sh : TcpSession × H) (frame : Frame) :
    (TcpSession × H) × Bool :=
  let (s, h) := sh
  let s := s.record (.extracted frame)
  match s.state with
  | .unauthenticated =>
      let (s, ok) := s.handleAuthResponse S frame
      ((s, h), ok)
  | .authenticated =>
      match frame.action with
      | .push | .ack =>
          ((s.record (.processPush frame), FrameHandler.processPush h frame), true)
      | .poll =>
          let s := s.record (.processPoll frame.mailboxId)
          match FrameHandler.processPoll h frame.mailboxId with
          | (some response, h) => ((s.doWrite response.serialize, h), true)
          | (none, h) =>
              ((s.doWrite (Frame.createPoll frame.mailboxId).serialize, h), true)
      | _ => ((s, h), true)

/-- The session's instance of the read loop. -/
def reader (S : Sodium) : Reader (TcpSession × H) where
  parser := fun sh => sh.1.parser
  setParser := fun sh p => ({ sh.1 with parser := p }, sh.2)
  onError := fun sh => (sh.1.close, sh.2)
  onFrame := processExtractedFrame S
  isOpen := fun sh => sh.1.socketOpen
  onStall := fun sh => (sh.1.close, sh.2)

/-- The completion handler of the read that `DoRead` has posted, on the bytes
that were transferred. The next read is posted when the socket is still open. -/
def onRead (S : Sodium) (sh : TcpSession × H) (chunk : Bytes) : TcpSession × H :=
  if sh.1.readPending then
    let sh := ((reader S).readChunk ({ sh.1 with readPending := false }, sh.2) chunk).1
    ({ sh.1 with readPending := sh.1.socketOpen }, sh.2)
  else sh

end

/-- `Start`: write the challenge, then read. -/
def start (challenge : ByteVec challengSize) : TcpSession :=
  let s : TcpSession := { currentChallenge := challenge.toList }
  let challengeFrame :=
    Frame.createAuthChallenge (MailboxID.fill 0x00) challenge.toList
  { s.doWrite challengeFrame.serialize with readPending := true }

end TcpSession

/-- What the runtime delivers to a session. -/
inductive SocketEvent : Type where
  | read (chunk : Bytes)
  | readFailed
  | written (errorCode : Bool)
deriving DecidableEq

def SocketEvent.isWritten : SocketEvent → Bool
  | .written _ => true
  | _ => false

namespace TcpSession

variable {H : Type} [FrameHandler H]

def step (S : Sodium) (sh : TcpSession × H) : SocketEvent → TcpSession × H
  | .read chunk => onRead S sh chunk
  | .readFailed => ({ sh.1 with readPending := false }, sh.2)
  | .written errorCode => (sh.1.onWritten errorCode, sh.2)

def run (S : Sodium) (sh : TcpSession × H) (events : List SocketEvent) :
    TcpSession × H :=
  events.foldl (step S) sh

/-! ## Answers to the challenge -/

/-- An answer to the challenge that the session accepts. -/
def ValidAuth (S : Sodium) (challenge : Bytes) (f : Frame) : Prop :=
  f.action = .authResponse ∧ 8 ≤ f.payload.length ∧
    proofOfWork S challenge (f.payload.take 8) = true

instance (S : Sodium) (challenge : Bytes) (f : Frame) : Decidable (ValidAuth S challenge f) :=
  inferInstanceAs (Decidable (_ ∧ _ ∧ _))

theorem handleAuthResponse_valid {S : Sodium} {s : TcpSession} {f : Frame}
    (h : ValidAuth S s.currentChallenge f) :
    s.handleAuthResponse S f = ({ s with state := .authenticated }, true) := by
  obtain ⟨haction, hlen, hpow⟩ := h
  rw [handleAuthResponse, if_neg (not_not.mpr haction), if_neg (not_lt.mpr hlen),
    if_pos hpow]

theorem handleAuthResponse_invalid {S : Sodium} {s : TcpSession} {f : Frame}
    (h : ¬ ValidAuth S s.currentChallenge f) :
    s.handleAuthResponse S f = (s.close, false) := by
  unfold handleAuthResponse
  by_cases haction : f.action = .authResponse
  · by_cases hlen : f.payload.length < 8
    · rw [if_neg (not_not.mpr haction), if_pos hlen]
    · rw [if_neg (not_not.mpr haction), if_neg hlen, if_neg]
      intro hpow
      exact h ⟨haction, not_lt.mp hlen, hpow⟩
  · rw [if_pos haction]

/-! ## The read loop of a session -/

theorem processExtractedFrame_set (S : Sodium) (sh : TcpSession × H)
    (p : FrameParser) (f : Frame) :
    processExtractedFrame S ({ sh.1 with parser := p }, sh.2) f =
      (({ (processExtractedFrame S sh f).1.1 with parser := p },
        (processExtractedFrame S sh f).1.2), (processExtractedFrame S sh f).2) := by
  obtain ⟨⟨_, queue, inProgress, state, challenge, _, _, _⟩, h⟩ := sh
  cases state with
  | unauthenticated =>
      simp only [processExtractedFrame, record]
      by_cases hf : ValidAuth S challenge f
      · rw [handleAuthResponse_valid (by exact hf),
          handleAuthResponse_valid (by exact hf)]
      · rw [handleAuthResponse_invalid (by exact hf),
          handleAuthResponse_invalid (by exact hf)]
        rfl
  | authenticated =>
      obtain ⟨action, mailboxId, payload⟩ := f
      cases action with
      | poll =>
          simp only [processExtractedFrame, record]
          rcases FrameHandler.processPoll h mailboxId with ⟨_ | response, h'⟩ <;>
            cases inProgress <;> cases queue <;> rfl
      | _ => rfl

theorem reader_lawful (S : Sodium) : (reader (H := H) S).Lawful where
  parser_set := fun _ _ => rfl
  set_self := fun _ => rfl
  set_set := fun _ _ _ => rfl
  isOpen_set := fun _ _ => rfl
  onFrame_set := processExtractedFrame_set S

theorem onRead_eq (S : Sodium) {sh : TcpSession × H} {r : Bytes}
    (hread : sh.1.readPending = true) (hp : sh.1.parser = FrameParser.onBytes r)
    (hu : FrameParser.Unfinished r) (chunk : Bytes) :
    onRead S sh chunk =
      let sh' := ((reader S).readBytes
        ({ sh.1 with readPending := false }, sh.2) (r ++ chunk)).1
      ({ sh'.1 with readPending := sh'.1.socketOpen }, sh'.2) := by
  rw [onRead, if_pos hread]
  simp only [Reader.readChunk_spec (reader_lawful S)
    (show (reader S).parser ({ sh.1 with readPending := false }, sh.2) = _ from hp)
    hu]

/-! ## The authentication gate -/

/-- The bytes of the challenge frame. -/
def challengeBytes (challenge : ByteVec challengSize) : RawFrame :=
  (Frame.createAuthChallenge (MailboxID.fill 0x00) challenge.toList).serialize

/-- No frame has been extracted yet. -/
structure Waiting (challenge : ByteVec challengSize) (h₀ : H)
    (sh : TcpSession × H) : Prop where
  state : sh.1.state = .unauthenticated
  current : sh.1.currentChallenge = challenge.toList
  handler : sh.2 = h₀
  trace : ∃ pre, sh.1.trace = .enqueued (challengeBytes challenge) :: pre ∧
    ∀ e ∈ pre, e.quiet = true

/-- The first frame extracted was a valid answer. -/
structure Admitted (S : Sodium) (challenge : ByteVec challengSize)
    (sh : TcpSession × H) : Prop where
  state : sh.1.state = .authenticated
  trace : ∃ pre f post, sh.1.trace =
      .enqueued (challengeBytes challenge) :: (pre ++ .extracted f :: post) ∧
    (∀ e ∈ pre, e.quiet = true) ∧ ValidAuth S challenge.toList f

/-- The first frame extracted was no valid answer: the session is over. -/
structure Rejected (S : Sodium) (challenge : ByteVec challengSize) (h₀ : H)
    (sh : TcpSession × H) : Prop where
  state : sh.1.state = .unauthenticated
  closed : sh.1.socketOpen = false
  idle : sh.1.readPending = false
  handler : sh.2 = h₀
  trace : ∃ pre f post, sh.1.trace = .enqueued (challengeBytes challenge) ::
      (pre ++ .extracted f :: .closed :: post) ∧
    (∀ e ∈ pre, e.quiet = true) ∧ (∀ e ∈ post, e.quiet = true) ∧
    ¬ ValidAuth S challenge.toList f

variable {S : Sodium} {challenge : ByteVec challengSize} {h₀ : H}
  {sh : TcpSession × H}

theorem processExtractedFrame_readPending (f : Frame) :
    (processExtractedFrame S sh f).1.1.readPending = sh.1.readPending := by
  obtain ⟨⟨_, queue, inProgress, state, challenge, _, _, _⟩, h⟩ := sh
  cases state with
  | unauthenticated =>
      simp only [processExtractedFrame, record]
      by_cases hf : ValidAuth S challenge f
      · rw [handleAuthResponse_valid (by exact hf)]
      · rw [handleAuthResponse_invalid (by exact hf)]
        rfl
  | authenticated =>
      obtain ⟨action, mailboxId, payload⟩ := f
      cases action with
      | poll =>
          simp only [processExtractedFrame, record]
          rcases FrameHandler.processPoll h mailboxId with ⟨_ | response, h'⟩ <;>
            cases inProgress <;> cases queue <;> rfl
      | _ => rfl

/-- One frame moves a waiting session on: a valid answer admits the client,
anything else ends the session. -/
theorem Waiting.processExtractedFrame (hw : Waiting challenge h₀ sh) (f : Frame)
    (hidle : sh.1.readPending = false) :
    Admitted S challenge (TcpSession.processExtractedFrame S sh f).1 ∨
      Rejected S challenge h₀ (TcpSession.processExtractedFrame S sh f).1 := by
  obtain ⟨s, h⟩ := sh
  obtain ⟨hstate, hcur, hh, pre, htrace, hquiet⟩ := hw
  have hstep : TcpSession.processExtractedFrame S (s, h) f =
      ((((s.record (.extracted f)).handleAuthResponse S f).1, h),
        ((s.record (.extracted f)).handleAuthResponse S f).2) := by
    have hrec : (s.record (.extracted f)).state = .unauthenticated := hstate
    simp only [TcpSession.processExtractedFrame, hrec]
  have htr : (s.record (.extracted f)).trace =
      .enqueued (challengeBytes challenge) :: (pre ++ [.extracted f]) := by
    show s.trace ++ [_] = _
    rw [show s.trace = _ from htrace, List.cons_append]
  rw [hstep]
  by_cases hf : ValidAuth S challenge.toList f
  · rw [handleAuthResponse_valid (by rw [← hcur] at hf; exact hf)]
    exact .inl ⟨rfl, pre, f, [], htr, hquiet, hf⟩
  · rw [handleAuthResponse_invalid (by rw [← hcur] at hf; exact hf)]
    refine .inr ⟨hstate, rfl, hidle, hh, pre, f, [], ?_, hquiet, by simp, hf⟩
    show (s.record (.extracted f)).trace ++ [_] = _
    rw [htr]
    simp

/-- A session that serves keeps the authentication it has and only adds to its
trace. -/
theorem processExtractedFrame_authenticated (hs : sh.1.state = .authenticated)
    (f : Frame) :
    (processExtractedFrame S sh f).1.1.state = .authenticated ∧
      ∃ post, (processExtractedFrame S sh f).1.1.trace = sh.1.trace ++ post := by
  obtain ⟨⟨_, queue, inProgress, state, _, _, _, trace⟩, h⟩ := sh
  obtain rfl : state = .authenticated := hs
  obtain ⟨action, mailboxId, payload⟩ := f
  cases action with
  | poll =>
      simp only [processExtractedFrame, record]
      rcases FrameHandler.processPoll h mailboxId with ⟨_ | response, h'⟩ <;>
        cases inProgress <;> cases queue <;>
        simp [doWrite, processWriteQueue, record]
  | _ => simp [processExtractedFrame, record]

theorem Admitted.processExtractedFrame (ha : Admitted S challenge sh) (f : Frame) :
    Admitted S challenge (TcpSession.processExtractedFrame S sh f).1 := by
  obtain ⟨hstate, pre, g, post, htrace, hquiet, hg⟩ := ha
  obtain ⟨hstate', post', htrace'⟩ :=
    processExtractedFrame_authenticated (S := S) hstate f
  refine ⟨hstate', pre, g, post ++ post', ?_, hquiet, hg⟩
  rw [htrace', htrace]
  simp

theorem onWritten_quiet (s : TcpSession) (errorCode : Bool) :
    ∃ post, (s.onWritten errorCode).trace = s.trace ++ post ∧
      (∀ e ∈ post, e.quiet = true) ∧
      (s.onWritten errorCode).state = s.state ∧
      (s.onWritten errorCode).currentChallenge = s.currentChallenge ∧
      (s.onWritten errorCode).readPending = s.readPending ∧
      (s.onWritten errorCode).parser = s.parser ∧
      (s.socketOpen = false → (s.onWritten errorCode).socketOpen = false) := by
  obtain ⟨_, queue, inProgress, _, _, _, _, trace⟩ := s
  cases inProgress with
  | false => exact ⟨[], by simp [onWritten], by simp, rfl, rfl, rfl, rfl, id⟩
  | true =>
      cases errorCode with
      | true =>
          exact ⟨[.closed], rfl, by simp [SessionEvent.quiet], rfl, rfl, rfl, rfl,
            fun _ => rfl⟩
      | false =>
          rcases queue with _ | ⟨_, _ | ⟨raw, _⟩⟩
          · exact ⟨[], (List.append_nil _).symm, by simp, rfl, rfl, rfl, rfl, id⟩
          · exact ⟨[], (List.append_nil _).symm, by simp, rfl, rfl, rfl, rfl, id⟩
          · exact ⟨[.writeStarted raw], rfl, by simp [SessionEvent.quiet], rfl,
              rfl, rfl, rfl, id⟩

/-- A step that involves no frame of the client. -/
structure QuietStep (sh sh' : TcpSession × H) : Prop where
  trace : ∃ post, sh'.1.trace = sh.1.trace ++ post ∧ ∀ e ∈ post, e.quiet = true
  state : sh'.1.state = sh.1.state
  current : sh'.1.currentChallenge = sh.1.currentChallenge
  handler : sh'.2 = sh.2
  closed : sh.1.socketOpen = false → sh'.1.socketOpen = false
  idle : sh.1.socketOpen = false → sh.1.readPending = false →
    sh'.1.readPending = false

/-- What a run from `start` can have come to. -/
def Phase (S : Sodium) (challenge : ByteVec challengSize) (h₀ : H)
    (sh : TcpSession × H) : Prop :=
  Waiting challenge h₀ sh ∨ Admitted S challenge sh ∨ Rejected S challenge h₀ sh

omit [FrameHandler H] in
theorem Phase.quietStep {sh' : TcpSession × H} (hp : Phase S challenge h₀ sh)
    (hq : QuietStep sh sh') : Phase S challenge h₀ sh' := by
  obtain ⟨⟨added, htr, hadded⟩, hst, hcur, hh, hclosed, hidle⟩ := hq
  rcases hp with ⟨hs, hc, hhand, pre, hpre, hpq⟩ | ⟨hs, pre, f, post, hpost, hpq, hf⟩ |
    ⟨hs, ho, hr, hhand, pre, f, post, hpost, hpq, hpostq, hf⟩
  · refine .inl ⟨hst.trans hs, hcur.trans hc, hh.trans hhand, pre ++ added, ?_, ?_⟩
    · rw [htr, hpre, List.cons_append]
    · intro e he
      rcases List.mem_append.mp he with he | he
      · exact hpq e he
      · exact hadded e he
  · refine .inr (.inl ⟨hst.trans hs, pre, f, post ++ added, ?_, hpq, hf⟩)
    rw [htr, hpost]
    simp
  · refine .inr (.inr ⟨hst.trans hs, hclosed ho, hidle ho hr, hh.trans hhand, pre, f,
      post ++ added, ?_, hpq, ?_, hf⟩)
    · rw [htr, hpost]
      simp
    · intro e he
      rcases List.mem_append.mp he with he | he
      · exact hpostq e he
      · exact hadded e he

/-- While a read is posted the parser is inside an unfinished frame. -/
def Parsing (s : TcpSession) : Prop :=
  s.readPending = true →
    ∃ r, s.parser = FrameParser.onBytes r ∧ FrameParser.Unfinished r

/-- Reading a chunk keeps to the phases; a session that is rejected does not read. -/
theorem phase_readBytes (hidle : sh.1.readPending = false)
    (hp : Waiting challenge h₀ sh ∨ Admitted S challenge sh) (data : Bytes) :
    Phase S challenge h₀ ((reader S).readBytes sh data).1 := by
  have hset : ∀ (sh : TcpSession × H) p, QuietStep sh ((reader S).setParser sh p) :=
    fun sh p => ⟨⟨[], (List.append_nil _).symm, by simp⟩, rfl, rfl, rfl, id, fun _ => id⟩
  have hclose : ∀ sh : TcpSession × H, QuietStep sh ((reader S).onError sh) :=
    fun sh => ⟨⟨[.closed], rfl, by simp [SessionEvent.quiet]⟩, rfl, rfl, rfl,
      fun _ => rfl, fun _ => id⟩
  have hphase : ∀ sh : TcpSession × H,
      Waiting challenge h₀ sh ∨ Admitted S challenge sh → Phase S challenge h₀ sh := by
    rintro sh (hw | ha)
    · exact .inl hw
    · exact .inr (.inl ha)
  have hframe : ∀ (sh : TcpSession × H) f, sh.1.readPending = false →
      Waiting challenge h₀ sh ∨ Admitted S challenge sh →
      Admitted S challenge (processExtractedFrame S sh f).1 ∨
        Rejected S challenge h₀ (processExtractedFrame S sh f).1 := by
    rintro sh f hi (hw | ha)
    · exact hw.processExtractedFrame f hi
    · exact .inl (ha.processExtractedFrame f)
  refine Reader.readBytes_rule
    (P := fun sh => sh.1.readPending = false ∧
      (Waiting challenge h₀ sh ∨ Admitted S challenge sh)) ?_ ?_ ?_ ?_ ⟨hidle, hp⟩ data
  · rintro sh p ⟨-, h⟩
    exact (hphase sh h).quietStep (hset sh p)
  · rintro sh p ⟨-, h⟩
    exact ((hphase sh h).quietStep (hset sh p)).quietStep (hclose _)
  · rintro sh f ⟨hi, h⟩ ho
    refine ⟨(processExtractedFrame_readPending f).trans hi, ?_⟩
    rcases hframe sh f hi h with ha | hr
    · exact .inr ha
    · exact absurd (hr.closed.symm.trans ho) Bool.false_ne_true
  · rintro sh f p ⟨hi, h⟩ -
    exact Phase.quietStep (.inr (hframe sh f hi h)) (hset _ p)

/-- The invariant of a session that was started with `challenge`. -/
structure Gate (S : Sodium) (challenge : ByteVec challengSize) (h₀ : H)
    (sh : TcpSession × H) : Prop where
  phase : Phase S challenge h₀ sh
  parsing : Parsing sh.1

omit [FrameHandler H] in
theorem gate_start : Gate S challenge h₀ (start challenge, h₀) := by
  refine ⟨.inl ⟨rfl, rfl, rfl, [.writeStarted (challengeBytes challenge)], rfl, ?_⟩, ?_⟩
  · simp [SessionEvent.quiet]
  · intro _
    exact ⟨[], rfl, FrameParser.unfinished_nil⟩

theorem onRead_parsing (hp : Parsing sh.1) (chunk : Bytes) :
    Parsing (onRead S sh chunk).1 := by
  by_cases hread : sh.1.readPending = true
  · obtain ⟨r, hr, hu⟩ := hp hread
    rw [onRead_eq S hread hr hu]
    intro ho
    exact Reader.readBytes_open (reader_lawful S) (fun _ => rfl) ho
  · rw [onRead, if_neg hread]
    exact hp

theorem Gate.step (hg : Gate S challenge h₀ sh) (ev : SocketEvent) :
    Gate S challenge h₀ (TcpSession.step S sh ev) := by
  obtain ⟨hphase, hparse⟩ := hg
  cases ev with
  | read chunk =>
      refine ⟨?_, onRead_parsing hparse chunk⟩
      by_cases hread : sh.1.readPending = true
      · obtain ⟨r, hr, hu⟩ := hparse hread
        rw [TcpSession.step, onRead_eq S hread hr hu]
        have hp : Waiting challenge h₀ sh ∨ Admitted S challenge sh := by
          rcases hphase with hw | ha | hrej
          · exact .inl hw
          · exact .inr ha
          · exact absurd (hrej.idle.symm.trans hread) Bool.false_ne_true
        have hp' : Waiting challenge h₀ ({ sh.1 with readPending := false }, sh.2) ∨
            Admitted S challenge ({ sh.1 with readPending := false }, sh.2) := by
          rcases hp with ⟨h₁, h₂, h₃, h₄⟩ | ⟨h₁, h₂⟩
          · exact .inl ⟨h₁, h₂, h₃, h₄⟩
          · exact .inr ⟨h₁, h₂⟩
        exact (phase_readBytes rfl hp' (r ++ chunk)).quietStep
          ⟨⟨[], (List.append_nil _).symm, by simp⟩, rfl, rfl, rfl, id, fun ho _ => ho⟩
      · rw [TcpSession.step, onRead, if_neg hread]
        exact hphase
  | readFailed =>
      refine ⟨hphase.quietStep ⟨⟨[], (List.append_nil _).symm, by simp⟩, rfl, rfl, rfl,
        id, fun _ _ => rfl⟩, ?_⟩
      rintro ⟨⟩
  | written errorCode =>
      obtain ⟨post, htr, hq, hst, hcur, hread, hparser, hclosed⟩ :=
        onWritten_quiet sh.1 errorCode
      refine ⟨hphase.quietStep ⟨⟨post, htr, hq⟩, hst, hcur, rfl, hclosed,
        fun _ hi => hread.trans hi⟩, ?_⟩
      intro hr
      obtain ⟨r, hr', hu⟩ := hparse (hread.symm.trans hr)
      exact ⟨r, hparser.trans hr', hu⟩

theorem Gate.run (hg : Gate S challenge h₀ sh) (events : List SocketEvent) :
    Gate S challenge h₀ (TcpSession.run S sh events) := by
  induction events generalizing sh with
  | nil => exact hg
  | cons ev events ih => exact ih (hg.step ev)

/-! ## What the invariant says about a run -/

/-- The part of a trace up to the first extracted frame is determined. -/
theorem first_extracted {pre pre' post post' : List SessionEvent} {f f' : Frame}
    (h : pre ++ .extracted f :: post = pre' ++ .extracted f' :: post')
    (hpre : ∀ g, SessionEvent.extracted g ∉ pre)
    (hpre' : ∀ g, SessionEvent.extracted g ∉ pre') : f = f' ∧ post = post' := by
  rcases List.append_eq_append_iff.mp h with ⟨as, h₁, h₂⟩ | ⟨as, h₁, h₂⟩
  · rcases as with _ | ⟨a, as⟩
    · cases h₂
      exact ⟨rfl, rfl⟩
    · cases h₂
      exact absurd (by rw [h₁]; simp) (hpre' f)
  · rcases as with _ | ⟨a, as⟩
    · cases h₂
      exact ⟨rfl, rfl⟩
    · cases h₂
      exact absurd (by rw [h₁]; simp) (hpre f')

theorem not_extracted_of_quiet {pre : List SessionEvent}
    (h : ∀ e ∈ pre, e.quiet = true) (g : Frame) : SessionEvent.extracted g ∉ pre :=
  fun hg => absurd (h _ hg) Bool.false_ne_true

omit [FrameHandler H] in
theorem Phase.serves (hp : Phase S challenge h₀ sh) {pre post : List SessionEvent}
    {e : SessionEvent}
    (htrace : sh.1.trace = .enqueued (challengeBytes challenge) :: (pre ++ e :: post))
    (he : e.serves = true) :
    ∃ f, .extracted f ∈ pre ∧ ValidAuth S challenge.toList f := by
  have hquiet : ∀ l : List SessionEvent, (∀ x ∈ l, x.quiet = true) → e ∉ l := by
    intro l hl hmem
    have := hl e hmem
    cases e <;> cases he <;> cases this
  rcases hp with ⟨-, -, -, p, hp, hq⟩ | ⟨-, p, f, q, hp, hq, hf⟩ |
    ⟨-, -, -, -, p, f, q, hp, hq, hq', -⟩
  · have heq : pre ++ e :: post = p := List.cons_injective (htrace.symm.trans hp)
    exact absurd (by rw [← heq]; simp) (hquiet p hq)
  · have heq : pre ++ e :: post = p ++ .extracted f :: q :=
      List.cons_injective (htrace.symm.trans hp)
    rcases List.append_eq_append_iff.mp heq with ⟨as, h₁, h₂⟩ | ⟨as, h₁, h₂⟩
    · rcases as with _ | ⟨a, as⟩
      · cases h₂
        cases he
      · cases h₂
        exact absurd (by rw [h₁]; simp) (hquiet p hq)
    · rcases as with _ | ⟨a, as⟩
      · cases h₂
        cases he
      · cases h₂
        exact ⟨f, by rw [h₁]; simp, hf⟩
  · have heq : pre ++ e :: post = p ++ .extracted f :: .closed :: q :=
      List.cons_injective (htrace.symm.trans hp)
    have hmem : e ∈ p ++ .extracted f :: .closed :: q := by
      rw [← heq]
      simp
    rcases List.mem_append.mp hmem with hmem | hmem
    · exact absurd hmem (hquiet p hq)
    · simp only [List.mem_cons] at hmem
      rcases hmem with rfl | rfl | hmem
      · cases he
      · cases he
      · exact absurd hmem (hquiet q hq')

omit [FrameHandler H] in
theorem Phase.rejects (hp : Phase S challenge h₀ sh) {pre post : List SessionEvent}
    {f : Frame} (htrace : sh.1.trace =
      .enqueued (challengeBytes challenge) :: (pre ++ .extracted f :: post))
    (hfirst : ∀ g, SessionEvent.extracted g ∉ pre)
    (hf : ¬ ValidAuth S challenge.toList f) :
    sh.1.socketOpen = false ∧
      ∃ post', post = .closed :: post' ∧ ∀ e ∈ post', e.quiet = true := by
  rcases hp with ⟨-, -, -, p, hp, hq⟩ | ⟨-, p, g, q, hp, hq, hg⟩ |
    ⟨-, ho, -, -, p, g, q, hp, hq, hq', -⟩
  · have heq : pre ++ .extracted f :: post = p :=
      List.cons_injective (htrace.symm.trans hp)
    exact absurd (by rw [← heq]; simp) (not_extracted_of_quiet hq f)
  · obtain ⟨rfl, -⟩ := first_extracted (List.cons_injective (htrace.symm.trans hp))
      hfirst (not_extracted_of_quiet hq)
    exact absurd hg hf
  · obtain ⟨-, rfl⟩ := first_extracted (List.cons_injective (htrace.symm.trans hp))
      hfirst (not_extracted_of_quiet hq)
    exact ⟨ho, q, rfl, hq'⟩

omit [FrameHandler H] in
/-- Without a valid answer the handler has not been touched. -/
theorem Phase.untouched (hp : Phase S challenge h₀ sh)
    (h : ∀ f, .extracted f ∈ sh.1.trace → ¬ ValidAuth S challenge.toList f) :
    sh.2 = h₀ := by
  rcases hp with hw | ⟨-, p, f, q, hp, -, hf⟩ | hr
  · exact hw.handler
  · exact absurd hf (h f (by rw [hp]; simp))
  · exact hr.handler

/-- A reading that closes the socket ends there: neither the rest of the chunk
nor a later chunk is looked at. -/
theorem onRead_closed_append (hp : Parsing sh.1) {c : Bytes}
    (ho : sh.1.socketOpen = true) (hc : (onRead S sh c).1.socketOpen = false)
    (c' : Bytes) : onRead S sh (c ++ c') = onRead S sh c := by
  by_cases hread : sh.1.readPending = true
  · obtain ⟨r, hr, hu⟩ := hp hread
    rw [onRead_eq S hread hr hu] at hc
    rw [onRead_eq S hread hr hu, onRead_eq S hread hr hu, ← List.append_assoc,
      Reader.readBytes_closed_append (reader_lawful S) (by exact ho) (by exact hc)]
  · rw [onRead, if_neg hread] at hc
    exact absurd (hc.symm.trans ho) Bool.false_ne_true

theorem run_idle (hidle : sh.1.readPending = false) (events : List SocketEvent) :
    run S sh events = run S sh (events.filter SocketEvent.isWritten) := by
  induction events generalizing sh with
  | nil => rfl
  | cons ev events ih =>
      cases ev with
      | read chunk =>
          have hstep : step S sh (.read chunk) = sh := by
            rw [step, onRead, if_neg (by rw [hidle]; exact Bool.false_ne_true)]
          show run S (step S sh _) events = run S sh (events.filter _)
          rw [hstep, ih hidle]
      | readFailed =>
          have hstep : step S sh .readFailed = sh := by
            obtain ⟨⟨_, _, _, _, _, _, _, _⟩, h⟩ := sh
            obtain rfl := hidle
            rfl
          show run S (step S sh _) events = run S sh (events.filter _)
          rw [hstep, ih hidle]
      | written errorCode =>
          obtain ⟨-, -, -, -, -, hread, -, -⟩ := onWritten_quiet sh.1 errorCode
          exact ih (hread.trans hidle)

theorem step_authenticated (hp : Parsing sh.1) (hs : sh.1.state = .authenticated)
    (ev : SocketEvent) : (step S sh ev).1.state = .authenticated := by
  cases ev with
  | read chunk =>
      by_cases hread : sh.1.readPending = true
      · obtain ⟨r, hr, hu⟩ := hp hread
        rw [step, onRead_eq S hread hr hu]
        exact Reader.readBytes_rule (R := reader S)
          (P := fun sh => sh.1.state = .authenticated)
          (Q := fun sh => sh.1.state = .authenticated)
          (fun _ _ h => h) (fun _ _ h => h)
          (fun _ f h _ => (processExtractedFrame_authenticated h f).1)
          (fun _ f _ h _ => (processExtractedFrame_authenticated h f).1)
          (show ({ sh.1 with readPending := false }, sh.2).1.state = _ from hs)
          (r ++ chunk)
      · rw [step, onRead, if_neg hread]
        exact hs
  | readFailed => exact hs
  | written errorCode =>
      obtain ⟨-, -, -, hstate, -⟩ := onWritten_quiet sh.1 errorCode
      exact hstate.trans hs

theorem Gate.run_authenticated (hg : Gate S challenge h₀ sh)
    (hs : sh.1.state = .authenticated) (events : List SocketEvent) :
    (TcpSession.run S sh events).1.state = .authenticated := by
  induction events generalizing sh with
  | nil => exact hs
  | cons ev events ih => exact ih (hg.step ev) (step_authenticated hg.parsing hs ev)

omit [FrameHandler H] in
theorem Phase.trace_head (hp : Phase S challenge h₀ sh) :
    ∃ tl, sh.1.trace = .enqueued (challengeBytes challenge) :: tl := by
  rcases hp with ⟨-, -, -, _, h, -⟩ | ⟨-, _, _, _, h, -⟩ | ⟨-, -, -, -, _, _, _, h, -⟩
  all_goals exact ⟨_, h⟩

/-! ## The frames of the bytes that were read -/

/-- The bytes that a socket event brings. -/
def readBytes : SocketEvent → Bytes
  | .read chunk => chunk
  | _ => []

/-- The bytes that were read in a run. A chunk is read only while a read is posted. -/
def bytesRead (S : Sodium) : TcpSession × H → List SocketEvent → Bytes
  | _, [] => []
  | sh, ev :: events =>
      (if sh.1.readPending then readBytes ev else []) ++ bytesRead S (step S sh ev) events

/-- The frames of a known type in a stream. -/
def knownFrames (b : Bytes) : List Frame := (splitStream b).1.filterMap frameOf

/-- The frames that were extracted. -/
def extractedIn (l : List SessionEvent) : List Frame :=
  l.filterMap fun
    | .extracted f => some f
    | _ => none

@[simp] theorem extractedIn_append (l l' : List SessionEvent) :
    extractedIn (l ++ l') = extractedIn l ++ extractedIn l' := List.filterMap_append

theorem extractedIn_quiet {l : List SessionEvent} (h : ∀ e ∈ l, e.quiet = true) :
    extractedIn l = [] := by
  apply List.filterMap_eq_nil_iff.mpr
  intro e he
  cases e with
  | extracted f => exact absurd (h _ he) Bool.false_ne_true
  | _ => rfl

theorem processExtractedFrame_extracted (f : Frame) :
    extractedIn (processExtractedFrame S sh f).1.1.trace = extractedIn sh.1.trace ++ [f] := by
  obtain ⟨⟨_, queue, inProgress, state, challenge, _, _, trace⟩, h⟩ := sh
  cases state with
  | unauthenticated =>
      simp only [processExtractedFrame, record]
      by_cases hf : ValidAuth S challenge f
      · rw [handleAuthResponse_valid (by exact hf)]
        exact extractedIn_append _ _
      · rw [handleAuthResponse_invalid (by exact hf)]
        simp only [close, record, extractedIn_append]
        exact List.append_nil _
  | authenticated =>
      obtain ⟨action, mailboxId, payload⟩ := f
      cases action with
      | poll =>
          simp only [processExtractedFrame, record]
          rcases FrameHandler.processPoll h mailboxId with ⟨_ | response, h'⟩ <;>
            cases inProgress <;> cases queue <;>
            simp [doWrite, processWriteQueue, record, extractedIn]
      | _ => simp [processExtractedFrame, record, extractedIn]

/-- Frames are handled in order; what is not looked at is left because the socket is closed. -/
theorem absorb_extracted (raws : List RawFrame) {sh' : TcpSession × H}
    {rest : Option (List RawFrame)} (h : (reader S).absorb sh raws = (sh', rest)) :
    extractedIn sh'.1.trace ++ (rest.getD []).filterMap frameOf =
        extractedIn sh.1.trace ++ raws.filterMap frameOf ∧
      (rest ≠ none → sh'.1.socketOpen = false) := by
  induction raws generalizing sh with
  | nil =>
      obtain ⟨rfl, rfl⟩ := Prod.mk.inj h
      exact ⟨rfl, fun hne => absurd rfl hne⟩
  | cons raw raws ih =>
      have hraw : extractedIn ((reader S).onRaw sh raw).1.trace =
          extractedIn sh.1.trace ++ (frameOf raw).toList := by
        unfold Reader.onRaw
        cases frameOf raw with
        | none => exact (List.append_nil _).symm
        | some f => exact processExtractedFrame_extracted f
      have hframes : (raw :: raws).filterMap frameOf =
          (frameOf raw).toList ++ raws.filterMap frameOf := by
        cases hf : frameOf raw <;> simp [hf]
      rw [hframes, ← List.append_assoc, ← hraw]
      rw [Reader.absorb] at h
      split at h
      · exact ih h
      · next hclosed =>
          obtain ⟨rfl, rfl⟩ := Prod.mk.inj h
          exact ⟨rfl, fun _ => Bool.eq_false_of_not_eq_true hclosed⟩

/-- The extracted frames are the first of those in the bytes `b`, and all of them as long as
the session goes on. -/
structure Heard (b : Bytes) (s : TcpSession) : Prop where
  first : extractedIn s.trace <+: knownFrames b
  all : s.socketOpen = true ∨ s.readPending = true → extractedIn s.trace = knownFrames b
  parsing : s.readPending = true →
    ∃ r, s.parser = FrameParser.onBytes r ∧ (splitStream b).2 = .unfinished r

theorem Heard.start (challenge : ByteVec challengSize) : Heard [] (start challenge) :=
  ⟨List.prefix_rfl, fun _ => rfl, fun _ => ⟨[], rfl, rfl⟩⟩

theorem Heard.onRead {b : Bytes} (h : Heard b sh.1) (hread : sh.1.readPending = true)
    (chunk : Bytes) : Heard (b ++ chunk) (onRead S sh chunk).1 := by
  obtain ⟨r, hparser, htail⟩ := h.parsing hread
  have hsplit := splitStream_append b chunk
  rw [htail] at hsplit
  have hknown : knownFrames (b ++ chunk) =
      extractedIn sh.1.trace ++ (splitStream (r ++ chunk)).1.filterMap frameOf := by
    rw [h.all (.inr hread)]
    unfold knownFrames
    rw [hsplit, List.filterMap_append]
  have htail' : (splitStream (b ++ chunk)).2 = (splitStream (r ++ chunk)).2 := by rw [hsplit]
  rw [onRead_eq S hread hparser (splitStream_unfinished htail)]
  unfold Reader.readBytes
  cases habsorb : (reader S).absorb ({ sh.1 with readPending := false }, sh.2)
      (splitStream (r ++ chunk)).1 with
  | mk sh' rest =>
      obtain ⟨hextracted, hclosed⟩ := absorb_extracted _ habsorb
      have hextracted : extractedIn sh'.1.trace ++ (rest.getD []).filterMap frameOf =
          knownFrames (b ++ chunk) := hextracted.trans hknown.symm
      cases rest with
      | some raws =>
          have hclosed : sh'.1.socketOpen = false := hclosed (Option.some_ne_none _)
          refine ⟨⟨_, hextracted⟩, fun hgoes => ?_, fun hgoes => ?_⟩
          · have hgoes : sh'.1.socketOpen = true := hgoes.elim id id
            rw [hclosed] at hgoes
            cases hgoes
          · have hgoes : sh'.1.socketOpen = true := hgoes
            rw [hclosed] at hgoes
            cases hgoes
      | none =>
          have hall : extractedIn sh'.1.trace = knownFrames (b ++ chunk) :=
            (List.append_nil _).symm.trans hextracted
          cases hend : (splitStream (r ++ chunk)).2 with
          | unfinished r' =>
              exact ⟨hall ▸ List.prefix_rfl, fun _ => hall, fun _ => ⟨r', rfl, htail'.trans hend⟩⟩
          | malformed m =>
              have hclose : extractedIn (sh'.1.trace ++ [.closed]) = knownFrames (b ++ chunk) := by
                rw [extractedIn_append, hall]
                exact List.append_nil _
              refine ⟨⟨[], (List.append_nil _).trans hclose⟩, fun _ => hclose, fun hgoes => ?_⟩
              cases hgoes

theorem Heard.quiet {b : Bytes} {s s' : TcpSession} (h : Heard b s)
    (htrace : extractedIn s'.trace = extractedIn s.trace)
    (hopen : s'.socketOpen = true → s.socketOpen = true)
    (hread : s'.readPending = true → s.readPending = true) (hparser : s'.parser = s.parser) :
    Heard b s' := by
  refine ⟨htrace ▸ h.first, fun hgoes => htrace.trans (h.all (hgoes.imp hopen hread)), ?_⟩
  intro hposted
  rw [hparser]
  exact h.parsing (hread hposted)

theorem Heard.step {b : Bytes} (h : Heard b sh.1) (ev : SocketEvent) :
    Heard (b ++ if sh.1.readPending then readBytes ev else []) (step S sh ev).1 := by
  cases ev with
  | read chunk =>
      by_cases hread : sh.1.readPending = true
      · rw [if_pos hread]
        exact h.onRead hread chunk
      · rw [if_neg hread, List.append_nil, TcpSession.step, TcpSession.onRead, if_neg hread]
        exact h
  | readFailed =>
      rw [show readBytes SocketEvent.readFailed = [] from rfl, ite_self, List.append_nil]
      exact h.quiet rfl id (fun hread => by cases hread) rfl
  | written errorCode =>
      rw [show readBytes (.written errorCode) = [] from rfl, ite_self, List.append_nil]
      obtain ⟨post, htrace, hquiet, -, -, hread, hparser, hclosed⟩ := onWritten_quiet sh.1 errorCode
      refine h.quiet ?_ ?_ (fun hposted => hread.symm.trans hposted) hparser
      · show extractedIn (sh.1.onWritten errorCode).trace = _
        rw [htrace, extractedIn_append, extractedIn_quiet hquiet, List.append_nil]
      · intro ho
        by_contra hnot
        exact Bool.false_ne_true ((hclosed (Bool.eq_false_of_not_eq_true hnot)).symm.trans ho)

theorem Heard.run {b : Bytes} (h : Heard b sh.1) (events : List SocketEvent) :
    Heard (b ++ bytesRead S sh events) (run S sh events).1 := by
  induction events generalizing sh b with
  | nil =>
      rw [bytesRead, List.append_nil]
      exact h
  | cons ev events ih =>
      rw [bytesRead, ← List.append_assoc]
      exact ih (h.step ev)

omit [FrameHandler H] in
/-- The phases by the frames that were extracted. -/
theorem Phase.decides (hp : Phase S challenge h₀ sh) :
    match extractedIn sh.1.trace with
    | [] => Waiting challenge h₀ sh
    | f :: _ =>
        (ValidAuth S challenge.toList f ∧ Admitted S challenge sh) ∨
          (¬ ValidAuth S challenge.toList f ∧ Rejected S challenge h₀ sh) := by
  have hfirst : ∀ {pre post : List SessionEvent} {f : Frame}, (∀ e ∈ pre, e.quiet = true) →
      extractedIn (.enqueued (challengeBytes challenge) :: (pre ++ .extracted f :: post)) =
        f :: extractedIn post := by
    intro pre post f hquiet
    show extractedIn (pre ++ .extracted f :: post) = _
    rw [extractedIn_append, extractedIn_quiet hquiet]
    rfl
  rcases hp with hw | ha | hr
  · obtain ⟨pre, htrace, hquiet⟩ := hw.trace
    have hnone : extractedIn sh.1.trace = [] := by
      rw [htrace]
      show extractedIn pre = []
      exact extractedIn_quiet hquiet
    rw [hnone]
    exact hw
  · obtain ⟨pre, f, post, htrace, hquiet, hf⟩ := ha.trace
    rw [htrace, hfirst hquiet]
    exact .inl ⟨hf, ha⟩
  · obtain ⟨pre, f, post, htrace, hquiet, -, hf⟩ := hr.trace
    rw [htrace, hfirst hquiet]
    exact .inr ⟨hf, hr⟩

theorem serves_of_quiet {e : SessionEvent} (h : e.quiet = true) : e.serves = false := by
  cases e with
  | writeStarted raw => rfl
  | closed => rfl
  | _ => cases h

omit [FrameHandler H] in
theorem Waiting.shut (h : Waiting challenge h₀ sh) {tl : List SessionEvent}
    (htl : sh.1.trace = .enqueued (challengeBytes challenge) :: tl) :
    sh.1.state = .unauthenticated ∧ sh.2 = h₀ ∧ ∀ e ∈ tl, e.serves = false := by
  obtain ⟨pre, htrace, hquiet⟩ := h.trace
  obtain rfl : tl = pre := List.cons_injective (htl.symm.trans htrace)
  exact ⟨h.state, h.handler, fun e he => serves_of_quiet (hquiet e he)⟩

omit [FrameHandler H] in
theorem Rejected.shut (h : Rejected S challenge h₀ sh) {tl : List SessionEvent}
    (htl : sh.1.trace = .enqueued (challengeBytes challenge) :: tl) :
    sh.1.state = .unauthenticated ∧ sh.2 = h₀ ∧ ∀ e ∈ tl, e.serves = false := by
  obtain ⟨pre, f, post, htrace, hpre, hpost, -⟩ := h.trace
  obtain rfl : tl = pre ++ .extracted f :: .closed :: post :=
    List.cons_injective (htl.symm.trans htrace)
  refine ⟨h.state, h.handler, fun e he => ?_⟩
  simp only [List.mem_append, List.mem_cons] at he
  rcases he with he | rfl | rfl | he
  · exact serves_of_quiet (hpre e he)
  · rfl
  · rfl
  · exact serves_of_quiet (hpost e he)

/-- **The authentication gate.** For every challenge, every sequence of reads, of
any bytes cut in any way, and of write completions: the frames that are extracted are
the first of those in the bytes read, and all of them while the socket is open. If the
first frame of a known type is an AUTH_RESPONSE with a valid proof of work, the session
is authenticated; if it is none, or if there is no frame yet, the handler was not called
and nothing but the challenge was queued, and a first frame that is none has closed the
socket. In the trace, whatever serves the client comes after the valid answer. A closed
reading is over; and an authenticated session stays authenticated. -/
theorem session_auth_gate (S : Sodium) (challenge : ByteVec challengSize) (h₀ : H)
    (events : List SocketEvent) :
    let sh := run S (start challenge, h₀) events
    let known := knownFrames (bytesRead S (start challenge, h₀) events)
    (extractedIn sh.1.trace <+: known ∧
      (sh.1.socketOpen = true → extractedIn sh.1.trace = known)) ∧
    (∀ f rest, known = f :: rest → ValidAuth S challenge.toList f →
      sh.1.socketOpen = true → sh.1.state = .authenticated) ∧
    (∀ f rest, known = f :: rest → ¬ ValidAuth S challenge.toList f →
      sh.1.socketOpen = false) ∧
    (∃ tl, sh.1.trace = .enqueued (challengeBytes challenge) :: tl ∧
      ((∀ f rest, known = f :: rest → ¬ ValidAuth S challenge.toList f) →
        sh.1.state = .unauthenticated ∧ sh.2 = h₀ ∧ ∀ e ∈ tl, e.serves = false) ∧
      (∀ pre e post, tl = pre ++ e :: post → e.serves = true →
        ∃ f, .extracted f ∈ pre ∧ ValidAuth S challenge.toList f) ∧
      (∀ pre f post, tl = pre ++ .extracted f :: post →
        (∀ g, SessionEvent.extracted g ∉ pre) → ¬ ValidAuth S challenge.toList f →
        sh.1.socketOpen = false ∧
          ∃ post', post = .closed :: post' ∧ ∀ e ∈ post', e.quiet = true) ∧
      ((∀ f, .extracted f ∈ tl → ¬ ValidAuth S challenge.toList f) → sh.2 = h₀)) ∧
    (∀ c, sh.1.socketOpen = true → (onRead S sh c).1.socketOpen = false →
      (∀ c', onRead S sh (c ++ c') = onRead S sh c) ∧
      ∀ later, run S (onRead S sh c) later =
        run S (onRead S sh c) (later.filter SocketEvent.isWritten)) ∧
    (sh.1.state = .authenticated →
      ∀ later, (run S sh later).1.state = .authenticated) := by
  intro sh known
  have hg : Gate S challenge h₀ sh := gate_start.run events
  have hstart : Heard [] (start challenge, h₀).1 := Heard.start challenge
  have hheard : Heard (bytesRead S (start challenge, h₀) events) sh.1 := hstart.run events
  have hdecides := hg.phase.decides
  refine ⟨⟨hheard.first, fun ho => hheard.all (.inl ho)⟩, ?_, ?_, ?_, ?_, hg.run_authenticated⟩
  · intro f rest hknown hf ho
    rw [hheard.all (.inl ho), show knownFrames _ = f :: rest from hknown] at hdecides
    rcases hdecides with ⟨-, ha⟩ | ⟨hnot, -⟩
    · exact ha.state
    · exact absurd hf hnot
  · intro f rest hknown hf
    by_contra ho
    have ho : sh.1.socketOpen = true := by simpa using ho
    rw [hheard.all (.inl ho), show knownFrames _ = f :: rest from hknown] at hdecides
    rcases hdecides with ⟨hvalid, -⟩ | ⟨-, hr⟩
    · exact hf hvalid
    · exact Bool.false_ne_true (hr.closed.symm.trans ho)
  · obtain ⟨tl, htl⟩ := hg.phase.trace_head
    refine ⟨tl, htl, ?_, ?_, ?_, ?_⟩
    · intro hnone
      cases hextracted : extractedIn sh.1.trace with
      | nil =>
          rw [hextracted] at hdecides
          exact hdecides.shut htl
      | cons f l =>
          obtain ⟨rest, hrest⟩ := hheard.first
          rw [hextracted] at hdecides hrest
          rcases hdecides with ⟨hvalid, -⟩ | ⟨-, hr⟩
          · exact absurd hvalid (hnone f (l ++ rest) hrest.symm)
          · exact hr.shut htl
    · rintro pre e post rfl he
      exact hg.phase.serves htl he
    · rintro pre f post rfl hfirst hf
      exact hg.phase.rejects htl hfirst hf
    · intro h
      refine hg.phase.untouched fun f hf => h f ?_
      rw [htl] at hf
      simpa using hf
  · intro c ho hc
    refine ⟨onRead_closed_append hg.parsing ho hc, run_idle ?_⟩
    -- the completion handler returned without posting a read
    by_cases hread : sh.1.readPending = true
    · obtain ⟨r, hr, hu⟩ := hg.parsing hread
      rw [onRead_eq S hread hr hu] at hc ⊢
      exact hc
    · rw [onRead, if_neg hread] at hc
      exact absurd (hc.symm.trans ho) Bool.false_ne_true

/-- A handler that keeps the frames it is given. -/
structure PushLog : Type where
  pushes : List Frame := []
deriving DecidableEq

instance : FrameHandler PushLog where
  processPush := fun h f => ⟨h.pushes ++ [f]⟩
  processPoll := fun h _ => (none, h)

def zeroChallenge : ByteVec challengSize := List.Vector.replicate _ 0x00

def zeroAnswer : Frame := Frame.createAuthResponse (MailboxID.fill 0x00) (List.replicate 8 0x00)

def smallPush : Frame := Frame.createPush (MailboxID.fill 0x07) [0x01, 0x02, 0x03]

/-- A client that answers the challenge and pushes a frame, in three pieces. -/
def answersFirst : List SocketEvent :=
  [.read (zeroAnswer.serialize.take 10), .written false,
    .read (zeroAnswer.serialize.drop 10 ++ smallPush.serialize.take 5),
    .read (smallPush.serialize.drop 5)]

/-- A client that pushes first: its answer, in the same chunk, comes too late. -/
def pushesFirst : List SocketEvent :=
  [.read (smallPush.serialize.take 5),
    .read (smallPush.serialize.drop 5 ++ zeroAnswer.serialize)]

/-- The first client is admitted and its push extracted, the second one is not served. -/
theorem session_auth_gate_two :
    let served := run transparent (start zeroChallenge, ({} : PushLog)) answersFirst
    let refused := run transparent (start zeroChallenge, ({} : PushLog)) pushesFirst
    served.1.state = .authenticated ∧ extractedIn served.1.trace = [zeroAnswer, smallPush] ∧
      refused.1.socketOpen = false ∧ refused.2 = {} := by
  have hvalid : ValidAuth transparent zeroChallenge.toList zeroAnswer := by decide +kernel
  have hpush : ¬ ValidAuth transparent zeroChallenge.toList smallPush := by decide +kernel
  have hopen : (run transparent (start zeroChallenge, ({} : PushLog)) answersFirst).1.socketOpen =
      true := by decide +kernel
  have hserved : knownFrames (bytesRead transparent (start zeroChallenge, ({} : PushLog))
      answersFirst) = [zeroAnswer, smallPush] := by decide +kernel
  have hrefused : knownFrames (bytesRead transparent (start zeroChallenge, ({} : PushLog))
      pushesFirst) = [smallPush, zeroAnswer] := by decide +kernel
  obtain ⟨⟨-, hall⟩, hadmits, -⟩ :=
    session_auth_gate transparent zeroChallenge ({} : PushLog) answersFirst
  obtain ⟨-, -, hcloses, ⟨tl, -, hshut, -⟩, -⟩ :=
    session_auth_gate transparent zeroChallenge ({} : PushLog) pushesFirst
  have hnone : ∀ f rest, knownFrames (bytesRead transparent (start zeroChallenge, ({} : PushLog))
      pushesFirst) = f :: rest → ¬ ValidAuth transparent zeroChallenge.toList f := by
    intro f rest hf
    rw [hrefused] at hf
    rw [← (List.cons.inj hf).1]
    exact hpush
  exact ⟨hadmits _ _ hserved hvalid hopen, (hall hopen).trans hserved, hcloses _ _ hrefused hpush,
    (hshut hnone).2.1⟩

end TcpSession

end BlankChat.Network
