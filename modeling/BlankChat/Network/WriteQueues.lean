import BlankChat.Lib.WritePump
import BlankChat.Network.TcpClient

/-!
# The write queues — `TcpSession::DoWrite`, `TcpClient::DoWrite`

Both ends of a connection put frames into a queue and hand the front of it to
`async_write`; the handler of a write that has ended clears `writeInProgress`, pops the
front and starts the next write. The session queues the challenge and the answers to
POLL frames, the client its answer to a challenge and the frames of the ticks.

`Lib.Pump` is this scheme with the writes that the socket still has to complete. The two
ends go along with it, whatever happens on the connection.

Main result: `write_queues_in_order`.
-/

namespace BlankChat.Network

open Lib BlankChat.Core Crypto Protocol

/-! ## The session -/

namespace TcpSession

/-- The frames that were queued. -/
def enqueuedIn (l : List SessionEvent) : List RawFrame :=
  l.filterMap fun
    | .enqueued raw => some raw
    | _ => none

/-- The frames that were handed to the socket. -/
def startedIn (l : List SessionEvent) : List RawFrame :=
  l.filterMap fun
    | .writeStarted raw => some raw
    | _ => none

@[simp] theorem enqueuedIn_append (l l' : List SessionEvent) :
    enqueuedIn (l ++ l') = enqueuedIn l ++ enqueuedIn l' := List.filterMap_append

@[simp] theorem startedIn_append (l l' : List SessionEvent) :
    startedIn (l ++ l') = startedIn l ++ startedIn l' := List.filterMap_append

theorem processWriteQueue_queue (s : TcpSession) :
    s.processWriteQueue.writeQueue = s.writeQueue := by
  unfold processWriteQueue
  split <;> rfl

theorem processWriteQueue_inProgress (s : TcpSession) :
    s.processWriteQueue.writeInProgress = (s.writeInProgress || !s.writeQueue.isEmpty) := by
  obtain ⟨_, queue, inProgress, _, _, _, _, trace⟩ := s
  cases inProgress <;> cases queue <;> rfl

theorem processWriteQueue_started (s : TcpSession) :
    startedIn s.processWriteQueue.trace =
      startedIn s.trace ++ if s.writeInProgress then [] else s.writeQueue.head?.toList := by
  obtain ⟨_, queue, inProgress, _, _, _, _, trace⟩ := s
  cases inProgress with
  | true => exact (List.append_nil _).symm
  | false =>
      cases queue with
      | nil => exact (List.append_nil _).symm
      | cons raw rest => exact startedIn_append trace [.writeStarted raw]

theorem processWriteQueue_enqueued (s : TcpSession) :
    enqueuedIn s.processWriteQueue.trace = enqueuedIn s.trace := by
  unfold processWriteQueue
  split
  · exact (enqueuedIn_append _ _).trans (List.append_nil _)
  · rfl

/-- One operation on the write queue. -/
def write (s : TcpSession) : Pump.Op RawFrame → TcpSession
  | .push raw => s.doWrite raw
  | .complete errorCode => s.onWritten errorCode

theorem onWritten_queue (s : TcpSession) (errorCode : Bool) :
    (s.onWritten errorCode).writeQueue =
      if s.writeInProgress then s.writeQueue.tail else s.writeQueue := by
  unfold onWritten
  dsimp only
  split
  · split
    · rfl
    · exact processWriteQueue_queue _
  · rfl

theorem onWritten_inProgress (s : TcpSession) (errorCode : Bool) :
    (s.onWritten errorCode).writeInProgress =
      (s.writeInProgress && !errorCode && !s.writeQueue.tail.isEmpty) := by
  unfold onWritten
  dsimp only
  split
  · next hflag =>
      cases errorCode with
      | true => simp [close, record]
      | false => simp [hflag, processWriteQueue_inProgress]
  · next hflag => simp [hflag]

theorem doWrite_started (s : TcpSession) (raw : RawFrame) :
    startedIn (s.doWrite raw).trace =
      startedIn s.trace ++ if s.writeInProgress then [] else (s.writeQueue ++ [raw]).head?.toList := by
  rw [doWrite, processWriteQueue_started]
  show startedIn (s.trace ++ [.enqueued raw]) ++ _ = _
  rw [startedIn_append]
  exact congrArg (· ++ _) (List.append_nil _)

theorem onWritten_started (s : TcpSession) (errorCode : Bool) :
    startedIn (s.onWritten errorCode).trace =
      startedIn s.trace ++
        if s.writeInProgress && !errorCode then s.writeQueue.tail.head?.toList else [] := by
  unfold onWritten
  cases s.writeInProgress with
  | false => exact (List.append_nil _).symm
  | true =>
      cases errorCode with
      | true => exact startedIn_append s.trace [.closed]
      | false => exact processWriteQueue_started _

theorem doWrite_inProgress (s : TcpSession) (raw : RawFrame) :
    (s.doWrite raw).writeInProgress = true := by
  rw [doWrite, processWriteQueue_inProgress]
  simp [record]

/-- The write queue of a session, with the buffers it passes to `async_write`. -/
def writer : Pump.Component TcpSession RawFrame where
  queue := writeQueue
  inProgress := writeInProgress
  handed := fun s => startedIn s.trace
  write := write
  push_queue := fun _ _ => processWriteQueue_queue _
  push_inProgress := doWrite_inProgress
  push_handed := doWrite_started
  complete_queue := onWritten_queue
  complete_inProgress := onWritten_inProgress
  complete_handed := onWritten_started

/-- The session and the pump after `ops`. -/
structure Mirrors (ops : List (Pump.Op RawFrame)) (p : Pump RawFrame) (s : TcpSession) : Prop where
  tracks : Pump.Tracks writer [] ops p s
  pushed : enqueuedIn s.trace = Pump.pushed ops

variable {ops : List (Pump.Op RawFrame)} {p : Pump RawFrame} {s s' : TcpSession}

namespace Mirrors

theorem congr (h : Mirrors ops p s) (hqueue : s'.writeQueue = s.writeQueue)
    (hflag : s'.writeInProgress = s.writeInProgress)
    (htrace : s'.trace = s.trace) : Mirrors ops p s' :=
  ⟨h.tracks.congr hqueue hflag (congrArg startedIn htrace),
    (congrArg enqueuedIn htrace).trans h.pushed⟩

theorem record (h : Mirrors ops p s) {e : SessionEvent} (hpushed : enqueuedIn [e] = [])
    (hhanded : startedIn [e] = []) : Mirrors ops p (s.record e) := by
  refine ⟨h.tracks.congr rfl rfl ?_, ?_⟩
  · show startedIn (s.trace ++ [e]) = startedIn s.trace
    rw [startedIn_append, hhanded, List.append_nil]
  · show enqueuedIn (s.trace ++ [e]) = _
    rw [enqueuedIn_append, hpushed, List.append_nil, h.pushed]

theorem close (h : Mirrors ops p s) : Mirrors ops p s.close :=
  (h.congr rfl rfl rfl : Mirrors ops p { s with socketOpen := false }).record rfl rfl

theorem doWrite (h : Mirrors ops p s) (raw : RawFrame) :
    ∃ p', Mirrors (ops ++ [.push raw]) p' (s.doWrite raw) := by
  obtain ⟨p', htracks⟩ := h.tracks.push raw
  refine ⟨p', htracks, ?_⟩
  rw [TcpSession.doWrite, processWriteQueue_enqueued]
  show enqueuedIn (s.trace ++ [_]) = _
  rw [enqueuedIn_append, h.pushed, Pump.pushed_append]
  rfl

theorem onWritten (h : Mirrors ops p s) (errorCode : Bool) :
    ∃ p', Mirrors (ops ++ [.complete errorCode]) p' (s.onWritten errorCode) := by
  obtain ⟨p', htracks⟩ := h.tracks.complete errorCode
  refine ⟨p', htracks, ?_⟩
  rw [Pump.pushed_append]
  refine Eq.trans ?_ (h.pushed.trans (List.append_nil _).symm)
  unfold TcpSession.onWritten
  dsimp only
  split
  · split
    · exact (enqueuedIn_append _ _).trans (List.append_nil _)
    · exact processWriteQueue_enqueued _
  · rfl

end Mirrors

/-- The session goes along with some operations, the writes ending with `results`. -/
def Mirrored (results : List Bool) (s : TcpSession) : Prop :=
  ∃ ops p, Mirrors ops p s ∧ Pump.completions ops = results

namespace Mirrored

variable {results : List Bool}

theorem of_mirrors (h : Mirrored results s)
    (hs : ∀ {ops p}, Mirrors ops p s → Mirrors ops p s') : Mirrored results s' := by
  obtain ⟨ops, p, hmirrors, hresults⟩ := h
  exact ⟨ops, p, hs hmirrors, hresults⟩

theorem doWrite (h : Mirrored results s) (raw : RawFrame) : Mirrored results (s.doWrite raw) := by
  obtain ⟨ops, p, hmirrors, hresults⟩ := h
  obtain ⟨p', hmirrors'⟩ := hmirrors.doWrite raw
  refine ⟨_, p', hmirrors', ?_⟩
  rw [Pump.completions_append, hresults]
  exact List.append_nil results

theorem onWritten (h : Mirrored results s) (errorCode : Bool) :
    Mirrored (results ++ [errorCode]) (s.onWritten errorCode) := by
  obtain ⟨ops, p, hmirrors, hresults⟩ := h
  obtain ⟨p', hmirrors'⟩ := hmirrors.onWritten errorCode
  refine ⟨_, p', hmirrors', ?_⟩
  rw [Pump.completions_append, hresults]
  rfl

theorem start (challenge : ByteVec challengSize) : Mirrored [] (TcpSession.start challenge) := by
  have hempty : Mirrored [] ({ currentChallenge := challenge.toList } : TcpSession) :=
    ⟨[], {}, ⟨⟨rfl, rfl, rfl, rfl⟩, rfl⟩, rfl⟩
  exact (hempty.doWrite _).of_mirrors fun h => h.congr rfl rfl rfl

section

variable {H : Type} [FrameHandler H] {S : Sodium} {sh : TcpSession × H}

/-- A frame of the client is answered with one frame at most. -/
theorem processExtractedFrame (h : Mirrored results sh.1) (f : Frame) :
    Mirrored results (TcpSession.processExtractedFrame S sh f).1.1 := by
  obtain ⟨s, hd⟩ := sh
  have hrecord : Mirrored results (s.record (.extracted f)) :=
    h.of_mirrors fun h => h.record rfl rfl
  unfold TcpSession.processExtractedFrame
  dsimp only
  split
  · unfold handleAuthResponse
    split
    · exact hrecord.of_mirrors Mirrors.close
    · split
      · exact hrecord.of_mirrors Mirrors.close
      · split
        · exact hrecord.of_mirrors fun h => h.congr rfl rfl rfl
        · exact hrecord.of_mirrors Mirrors.close
  · split
    · exact hrecord.of_mirrors fun h => h.record rfl rfl
    · exact hrecord.of_mirrors fun h => h.record rfl rfl
    · have hpoll : Mirrored results ((s.record (.extracted f)).record (.processPoll f.mailboxId)) :=
        hrecord.of_mirrors fun h => h.record rfl rfl
      split <;> exact hpoll.doWrite _
    · exact hrecord

theorem onRead (h : Mirrored results sh.1) (chunk : Bytes) :
    Mirrored results (TcpSession.onRead S sh chunk).1 := by
  unfold TcpSession.onRead
  split
  · have hstart : Mirrored results { sh.1 with readPending := false } :=
      h.of_mirrors fun h => h.congr rfl rfl rfl
    have hread : Mirrored results ((reader S).readChunk ({ sh.1 with readPending := false }, sh.2)
        chunk).1.1 ∨ False := by
      refine Reader.readChunk_rule (P := fun sh : TcpSession × H => Mirrored results sh.1)
        (Q := fun _ => False) ?_ ?_ ?_ ?_ ?_ hstart chunk
      · exact fun sh p h => h.of_mirrors fun h => h.congr rfl rfl rfl
      · exact fun sh f _ h => .inl (h.processExtractedFrame f)
      · exact fun _ => False.elim
      · exact fun sh h => h.of_mirrors Mirrors.close
      · exact fun sh h => h.of_mirrors Mirrors.close
    exact (hread.resolve_right id).of_mirrors fun h => h.congr rfl rfl rfl
  · exact h

end

end Mirrored

/-- The results of the writes of a run. -/
def writtenIn (events : List SocketEvent) : List Bool :=
  events.filterMap fun
    | .written errorCode => some errorCode
    | _ => none

@[simp] theorem writtenIn_append (events events' : List SocketEvent) :
    writtenIn (events ++ events') = writtenIn events ++ writtenIn events' := List.filterMap_append

theorem mem_writtenIn {events : List SocketEvent} {errorCode : Bool} :
    errorCode ∈ writtenIn events ↔ .written errorCode ∈ events := by
  rw [writtenIn, List.mem_filterMap]
  constructor
  · rintro ⟨e, he, heq⟩
    cases e with
    | written errorCode' => exact Option.some.inj heq ▸ he
    | _ => cases heq
  · exact fun h => ⟨_, h, rfl⟩

/-- **A session goes along with a pump in every run.** -/
theorem run_mirrored {H : Type} [FrameHandler H] (S : Sodium) (challenge : ByteVec challengSize)
    (h : H) (events : List SocketEvent) :
    Mirrored (writtenIn events) (run S (start challenge, h) events).1 := by
  induction events using List.reverseRecOn with
  | nil => exact .start challenge
  | append_singleton events e ih =>
      have hrun : run S (start challenge, h) (events ++ [e]) =
          step S (run S (start challenge, h) events) e := List.foldl_append
      rw [hrun, writtenIn_append]
      cases e with
      | read chunk => exact (List.append_nil (writtenIn events)).symm ▸ ih.onRead chunk
      | readFailed =>
          refine (List.append_nil (writtenIn events)).symm ▸ ih.of_mirrors ?_
          exact fun h => h.congr rfl rfl rfl
      | written errorCode => exact ih.onWritten errorCode

end TcpSession

/-! ## The client -/

namespace TcpClient

variable {σ : Type}

/-- The frames that were queued: answers to challenges, and frames of the application. -/
def enqueuedIn (l : List ClientEvent) : List RawFrame :=
  l.filterMap fun
    | .responded raw => some raw
    | .provided raw => some raw
    | _ => none

@[simp] theorem enqueuedIn_append (l l' : List ClientEvent) :
    enqueuedIn (l ++ l') = enqueuedIn l ++ enqueuedIn l' := List.filterMap_append

/-- One operation on the write queue. -/
def write (s : TcpClient σ) : Pump.Op RawFrame → TcpClient σ
  | .push raw => s.enqueue raw
  | .complete errorCode => s.onWritten errorCode

theorem onWritten_queue (s : TcpClient σ) (errorCode : Bool) :
    (s.onWritten errorCode).writeQueue =
      if s.writeInProgress then s.writeQueue.tail else s.writeQueue := by
  unfold onWritten
  simp only [doWrite_eq]
  split
  · split <;> rfl
  · rfl

theorem onWritten_inProgress (s : TcpClient σ) (errorCode : Bool) :
    (s.onWritten errorCode).writeInProgress =
      (s.writeInProgress && !errorCode && !s.writeQueue.tail.isEmpty) := by
  unfold onWritten
  simp only [doWrite_eq]
  split
  · next hflag => cases errorCode <;> simp [hflag]
  · next hflag => simp [hflag]

theorem onWritten_started (s : TcpClient σ) (errorCode : Bool) :
    (s.onWritten errorCode).started =
      s.started ++
        if s.writeInProgress && !errorCode then s.writeQueue.tail.head?.toList else [] := by
  unfold onWritten
  cases s.writeInProgress with
  | false => exact (List.append_nil _).symm
  | true =>
      cases errorCode with
      | true => exact (List.append_nil _).symm
      | false =>
          show (doWrite _).started = _
          rw [doWrite_eq]
          rfl

/-- The write queue of a client, with the buffers it passes to `async_write`. -/
def writer : Pump.Component (TcpClient σ) RawFrame where
  queue := writeQueue
  inProgress := writeInProgress
  handed := started
  write := write
  push_queue := fun s raw => congrArg writeQueue (enqueue_eq s raw)
  push_inProgress := fun s raw => congrArg writeInProgress (enqueue_eq s raw)
  push_handed := fun s raw => congrArg started (enqueue_eq s raw)
  complete_queue := onWritten_queue
  complete_inProgress := onWritten_inProgress
  complete_handed := onWritten_started

/-- The results of the writes of a run. -/
def writtenIn (events : List (NetworkEvent σ)) : List Bool :=
  events.filterMap fun
    | .written errorCode => some errorCode
    | _ => none

@[simp] theorem writtenIn_append (events events' : List (NetworkEvent σ)) :
    writtenIn (events ++ events') = writtenIn events ++ writtenIn events' := List.filterMap_append

theorem mem_writtenIn {events : List (NetworkEvent σ)} {errorCode : Bool} :
    errorCode ∈ writtenIn events ↔ .written errorCode ∈ events := by
  rw [writtenIn, List.mem_filterMap]
  constructor
  · rintro ⟨e, he, heq⟩
    cases e with
    | written errorCode' => exact Option.some.inj heq ▸ he
    | _ => cases heq
  · exact fun h => ⟨_, h, rfl⟩

/-- The client goes along with some operations, the writes ending with `results`. -/
def Mirrored (results : List Bool) (s : TcpClient σ) : Prop :=
  ∃ ops p, Pump.Tracks writer [] ops p s ∧
    enqueuedIn s.trace = Pump.pushed ops ∧ Pump.completions ops = results

namespace Mirrored

variable {results : List Bool} {s s' : TcpClient σ}

theorem congr (h : Mirrored results s) (hqueue : s'.writeQueue = s.writeQueue)
    (hflag : s'.writeInProgress = s.writeInProgress) (hstarted : s'.started = s.started)
    (htrace : enqueuedIn s'.trace = enqueuedIn s.trace) : Mirrored results s' := by
  obtain ⟨ops, p, htracks, hpushed, hresults⟩ := h
  exact ⟨ops, p, htracks.congr hqueue hflag hstarted, htrace.trans hpushed, hresults⟩

theorem record (h : Mirrored results s) {e : ClientEvent} (he : enqueuedIn [e] = []) :
    Mirrored results (s.record e) := by
  refine h.congr rfl rfl rfl ?_
  show enqueuedIn (s.trace ++ [e]) = _
  rw [enqueuedIn_append, he, List.append_nil]

theorem disconnect (h : Mirrored results s) : Mirrored results s.disconnect :=
  (h.congr rfl rfl rfl rfl : Mirrored results { s with socketOpen := false }).record rfl

theorem enqueue (h : Mirrored results s) {e : ClientEvent} {raw : RawFrame}
    (he : enqueuedIn [e] = [raw]) : Mirrored results ((s.record e).enqueue raw) := by
  obtain ⟨ops, p, htracks, hpushed, hresults⟩ := h
  have hnoted : Pump.Tracks writer [] ops p (s.record e) := htracks.congr rfl rfl rfl
  obtain ⟨p', htracks'⟩ := hnoted.push raw
  refine ⟨_, p', htracks', ?_, ?_⟩
  · show enqueuedIn (TcpClient.enqueue (s.record e) raw).trace = _
    rw [enqueue_eq, Pump.pushed_append]
    show enqueuedIn (s.trace ++ [e]) = _
    rw [enqueuedIn_append, hpushed, he]
    rfl
  · rw [Pump.completions_append, hresults]
    exact List.append_nil results

theorem onWritten (h : Mirrored results s) (errorCode : Bool) :
    Mirrored (results ++ [errorCode]) (s.onWritten errorCode) := by
  obtain ⟨ops, p, htracks, hpushed, hresults⟩ := h
  obtain ⟨p', htracks'⟩ := htracks.complete errorCode
  refine ⟨_, p', htracks', ?_, ?_⟩
  · rw [onWritten_trace, hpushed, Pump.pushed_append]
    exact (List.append_nil _).symm
  · rw [Pump.completions_append, hresults]
    rfl

variable {A : Application σ} {S : Sodium}

theorem doCbrTick (h : Mirrored results s) : Mirrored results (s.doCbrTick A) := by
  have hticked : Mirrored results (s.record .ticked) := h.record rfl
  unfold TcpClient.doCbrTick
  dsimp only
  split
  · exact hticked
  · have happ : Mirrored results { s.record .ticked with app := (A.frameProvider s.app).2 } :=
      hticked.congr rfl rfl rfl rfl
    exact happ.enqueue rfl

theorem onFrame (h : Mirrored results s) (f : Frame) :
    Mirrored results (TcpClient.onFrame A S s f).1 := by
  have hrecord : Mirrored results (s.record (.extracted f)) := h.record rfl
  have hanswer : Mirrored results ((s.record (.extracted f)).handleAuthChallenge S f.payload) := by
    unfold handleAuthChallenge
    split
    · exact hrecord.disconnect
    · split
      · exact hrecord.congr rfl rfl rfl rfl
      · exact hrecord.enqueue rfl
  unfold TcpClient.onFrame
  dsimp only
  split
  · split
    · exact hanswer
    · exact hanswer.congr rfl rfl rfl rfl
  · split
    · have happ : Mirrored results { s.record (.extracted f) with
          app := A.frameReceiver (s.record (.extracted f)).app f } := hrecord.congr rfl rfl rfl rfl
      exact happ.record rfl
    · exact hrecord

theorem onRead (h : Mirrored results s) (chunk : Bytes) :
    Mirrored results (s.onRead A S chunk) := by
  unfold TcpClient.onRead
  split
  · have hread : Mirrored results ((reader A S).readChunk (s.record (.bytes chunk)) chunk).1 ∨
        False := by
      refine Reader.readChunk_rule (P := Mirrored results) (Q := fun _ => False) ?_ ?_ ?_ ?_ ?_
        (h.record rfl) chunk
      · exact fun s p h => h.congr rfl rfl rfl rfl
      · exact fun s f _ h => .inl (h.onFrame f)
      · exact fun _ => False.elim
      · exact fun s h => h.disconnect.congr rfl rfl rfl rfl
      · exact fun s h => h.disconnect.congr rfl rfl rfl rfl
    exact hread.resolve_right id
  · exact h

theorem step (h : Mirrored results s) (hs : s.searching = false) (e : NetworkEvent σ) :
    Mirrored (results ++ writtenIn [e]) (s.step A S e) := by
  unfold TcpClient.step
  rw [if_neg (by rw [hs]; exact Bool.false_ne_true)]
  cases e with
  | written errorCode => exact h.onWritten errorCode
  | connect =>
      refine (List.append_nil results).symm ▸ Mirrored.record ?_ rfl
      exact h.congr rfl rfl rfl rfl
  | start => exact (List.append_nil results).symm ▸ h.congr rfl rfl rfl rfl
  | tick =>
      refine (List.append_nil results).symm ▸ ?_
      dsimp only
      split
      · exact h.doCbrTick
      · exact h
  | read chunk => exact (List.append_nil results).symm ▸ h.onRead chunk
  | readFailed aborted =>
      refine (List.append_nil results).symm ▸ ?_
      have hidle : Mirrored results { s with readsPending := s.readsPending - 1 } :=
        h.congr rfl rfl rfl rfl
      dsimp only [onReadFailed]
      split
      · split
        · exact hidle
        · exact hidle.disconnect
      · exact h
  | disconnect => exact (List.append_nil results).symm ▸ h.disconnect
  | command f => exact (List.append_nil results).symm ▸ h.congr rfl rfl rfl rfl

end Mirrored

/-- **A client goes along with a pump in every run.** If the search for a nonce does not
end, no handler runs from then on. -/
theorem run_mirrored (A : Application σ) (S : Sodium) (app : σ) (events : List (NetworkEvent σ)) :
    ∃ results, results <+: writtenIn events ∧
      ((run A S { app := app } events).searching = false → results = writtenIn events) ∧
      Mirrored results (run A S { app := app } events) := by
  induction events using List.reverseRecOn with
  | nil => exact ⟨[], List.nil_prefix, fun _ => rfl, [], {}, ⟨rfl, rfl, rfl, rfl⟩, rfl, rfl⟩
  | append_singleton events e ih =>
      obtain ⟨results, hstart, hall, hmirrored⟩ := ih
      have hrun : run A S { app := app } (events ++ [e]) =
          (run A S { app := app } events).step A S e := List.foldl_append
      rw [hrun, writtenIn_append]
      generalize run A S { app := app } events = s at hall hmirrored
      cases hs : s.searching with
      | true =>
          have hstep : s.step A S e = s := if_pos hs
          rw [hstep]
          refine ⟨results, hstart.trans (List.prefix_append _ _), fun hnot => ?_, hmirrored⟩
          exact absurd (hs.symm.trans hnot) (by decide)
      | false =>
          have hresults := hall hs
          subst hresults
          exact ⟨_, List.prefix_rfl, fun _ => rfl, hmirrored.step hs e⟩

end TcpClient

/-! ## The result -/

/-- **Write queues keep order and never lose or repeat a frame.** For any operations on the
queue of an idle session or client, and in any run of a session from its start and of a
client from its construction: no handler finds the queue empty; at most one write is
outstanding, and while the flag is set it is that of the front; the buffers that were handed
to the socket are the frames queued first, in order. If no write has failed and all handlers
have run, it is all of them, and the queue is empty. -/
theorem write_queues_in_order :
    (∀ (s : TcpSession) (ops : List (Pump.Op RawFrame)),
      s.writeQueue = [] → s.writeInProgress = false → ∀ s', s' = ops.foldl TcpSession.write s →
      ∃ p, Pump.run {} ops = some p ∧
        TcpSession.startedIn s'.trace = TcpSession.startedIn s.trace ++ p.handed ∧
        Pump.InOrder (Pump.pushed ops) s'.writeQueue s'.writeInProgress
          (true ∉ Pump.completions ops) p) ∧
    (∀ (σ : Type) (s : TcpClient σ) (ops : List (Pump.Op RawFrame)),
      s.writeQueue = [] → s.writeInProgress = false → ∀ s', s' = ops.foldl TcpClient.write s →
      ∃ p, Pump.run {} ops = some p ∧
        s'.started = s.started ++ p.handed ∧
        Pump.InOrder (Pump.pushed ops) s'.writeQueue s'.writeInProgress
          (true ∉ Pump.completions ops) p) ∧
    (∀ (H : Type) [FrameHandler H] (S : Sodium) (challenge : ByteVec challengSize) (h : H)
      (events : List SocketEvent), ∀ s,
      s = (TcpSession.run S (TcpSession.start challenge, h) events).1 →
      ∃ ops p, Pump.run {} ops = some p ∧ Pump.pushed ops = TcpSession.enqueuedIn s.trace ∧
        Pump.completions ops = TcpSession.writtenIn events ∧
        p.handed = TcpSession.startedIn s.trace ∧
        Pump.InOrder (TcpSession.enqueuedIn s.trace) s.writeQueue s.writeInProgress
          (.written true ∉ events) p) ∧
    (∀ (σ : Type) (A : Application σ) (S : Sodium) (app : σ) (events : List (NetworkEvent σ)),
      ∀ s, s = TcpClient.run A S { app := app } events →
      ∃ ops p, Pump.run {} ops = some p ∧ Pump.pushed ops = TcpClient.enqueuedIn s.trace ∧
        Pump.completions ops <+: TcpClient.writtenIn events ∧
        (s.searching = false → Pump.completions ops = TcpClient.writtenIn events) ∧
        p.handed = s.started ∧
        Pump.InOrder (TcpClient.enqueuedIn s.trace) s.writeQueue s.writeInProgress
          (.written true ∉ events) p) := by
  refine ⟨?_, ?_, ?_, ?_⟩
  · rintro s ops hqueue hidle s' rfl
    obtain ⟨p, htracks⟩ := Pump.tracks_foldl (C := TcpSession.writer) hqueue hidle ops
    exact ⟨p, htracks.run, htracks.handed.symm, htracks.inOrder⟩
  · rintro σ s ops hqueue hidle s' rfl
    obtain ⟨p, htracks⟩ := Pump.tracks_foldl (C := TcpClient.writer) hqueue hidle ops
    exact ⟨p, htracks.run, htracks.handed.symm, htracks.inOrder⟩
  · intro H _ S challenge h events s hs
    obtain ⟨ops, p, hmirrors, hresults⟩ := TcpSession.run_mirrored S challenge h events
    rw [← hs] at hmirrors
    refine ⟨ops, p, hmirrors.tracks.run, hmirrors.pushed.symm, hresults, hmirrors.tracks.handed, ?_⟩
    rw [hmirrors.pushed]
    refine hmirrors.tracks.inOrder.imp fun hok hmem => ?_
    rw [hresults] at hmem
    exact hok (TcpSession.mem_writtenIn.mp hmem)
  · intro σ A S app events s hs
    obtain ⟨results, hstart, hall, ops, p, htracks, hpushed, hresults⟩ :=
      TcpClient.run_mirrored A S app events
    rw [← hs] at hall htracks hpushed
    subst hresults
    refine ⟨ops, p, htracks.run, hpushed.symm, hstart, hall, htracks.handed, ?_⟩
    rw [hpushed]
    refine htracks.inOrder.imp fun hok hmem => ?_
    exact hok (TcpClient.mem_writtenIn.mp (hstart.subset hmem))

/-- A client that answers a challenge and takes two frames from the application. The first of
these is queued while the answer is being written, the second after the answer was written;
all three handlers run. -/
def busyClient : List (NetworkEvent Unit) :=
  [.connect, .start, .read TcpClient.easyChallenge, .tick, .written false, .tick, .written false,
    .written false]

/-- Two frames are queued at a session while the first is being written. A client has written
its answer and two frames of the application, in this order. -/
theorem write_queues_in_order_two :
    let ops : List (Pump.Op RawFrame) :=
      [.push [1], .push [2], .complete false, .complete false]
    let s := TcpClient.run TcpClient.poller transparent { app := () } busyClient
    let poll := (Frame.createPoll (MailboxID.fill 0x00)).serialize
    TcpSession.startedIn (ops.foldl TcpSession.write {}).trace = [[1], [2]] ∧
      s.writeQueue = [] ∧
      ∃ answer, TcpClient.enqueuedIn s.trace = [answer, poll, poll] ∧
        s.started = [answer, poll, poll] := by
  intro ops s poll
  obtain ⟨hsession, -, -, hclient⟩ := write_queues_in_order
  refine ⟨?_, ?_⟩
  · obtain ⟨p, -, hstarted, horder⟩ := hsession {} ops rfl rfl _ rfl
    obtain ⟨-, hhanded⟩ := horder.drained (by decide) (horder.idle rfl)
    rw [hstarted, hhanded]
    rfl
  · obtain ⟨ops, p, -, -, -, -, hstarted, horder⟩ :=
      hclient Unit TcpClient.poller transparent () busyClient _ rfl
    have hidle : s.writeInProgress = false := by decide +kernel
    obtain ⟨hqueue, hhanded⟩ := horder.drained (by simp [busyClient]) (horder.idle hidle)
    obtain ⟨answer, hanswer⟩ : ∃ answer, TcpClient.enqueuedIn s.trace = [answer, poll, poll] :=
      ⟨((TcpClient.enqueuedIn s.trace).head?.getD []), by decide +kernel⟩
    exact ⟨hqueue, answer, hanswer, hstarted.symm.trans (hhanded.trans hanswer)⟩

end BlankChat.Network
