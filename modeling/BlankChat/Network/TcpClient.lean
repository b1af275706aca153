import BlankChat.Lib.Run
import BlankChat.Network.TcpSession
import Mathlib.Data.List.DropRight

/-!
# The client's connection — `tcp_client.h`, `tcp_client.cpp`

A client answers the challenge of the relay with a proof of work and is authenticated
from then on: every tick of the timer takes a frame from the application and queues it,
and every frame that comes in goes to the application.

One object may be connected again after it was disconnected. `Connect`, `Disconnect` and
`StartAsyncEngine` leave the parser, the write queue and `isAuthenticated` as they are, and the
handler of a read does not ask for the connection it belongs to: if the bytes were there before
`Disconnect`, it may run after the next `Connect`.

The timer is not modelled: a tick may come at any time once the engine was started (a
handler that was queued before `cancel` still runs). `trace` records what an observer
sees and `started` the buffers that were passed to `async_write`; the code reads neither.

Main result: `connection_auth_first`. If `Connect` finds the object as it was constructed and
no read is still to be handled, every connection authenticates before it is used and its frames
are those of its own bytes; `stale_connection` shows what is left over otherwise.
-/

namespace BlankChat.Network

open Lib BlankChat.Core Crypto Protocol FrameParser

/-- The callbacks handed to `StartAsyncEngine`. -/
structure Application (σ : Type) where
  frameProvider : σ → Frame × σ
  frameReceiver : σ → Frame → σ

/-- What a client can be seen to do. -/
inductive ClientEvent : Type where
  | connected
  | ticked
  | bytes (chunk : Bytes)
  | extracted (f : Frame)
  | responded (raw : RawFrame)
  | provided (raw : RawFrame)
  | received (f : Frame)
  | closed
deriving DecidableEq

/-- Frames from the application and frames for it. -/
def ClientEvent.serves : ClientEvent → Bool
  | .provided _ => true
  | .received _ => true
  | _ => false

structure TcpClient (σ : Type) : Type where
  parser : FrameParser := {}
  writeQueue : List RawFrame := []
  writeInProgress : Bool := false
  isAuthenticated : Bool := false
  socketOpen : Bool := false
  /-- the reads that were posted and whose handlers have not run -/
  readsPending : ℕ := 0
  engineStarted : Bool := false
  /-- the search for a nonce does not end -/
  searching : Bool := false
  app : σ
  trace : List ClientEvent := []
  started : List RawFrame := []

/-- The eight bytes that `memcpy` takes from a nonce. -/
def nonceBytes (nonce : UInt64) : Bytes :=
  (List.range 8).map fun i => (nonce >>> UInt64.ofNat (8 * i)).toUInt8

/-- `while (true)` of `HandleAuthChallenge`, with a bound on the passes. -/
def searchNonce (S : Sodium) (challenge : Bytes) : ℕ → UInt64 → Option UInt64
  | 0, _ => none
  | passes + 1, nonce =>
      let nonce := nonce + 1
      if TcpSession.proofOfWork S challenge (nonceBytes nonce) then some nonce
      else searchNonce S challenge passes nonce

/-- The answer to a challenge. The nonce has 64 bits, so a search that has not ended after
`2 ^ 64` passes goes on forever. -/
def authResponse (S : Sodium) (challenge : Payload) : Option Frame :=
  (searchNonce S (challenge.take challengSize) (2 ^ 64) 0).map fun nonce =>
    Frame.createAuthResponse (MailboxID.fill 0x00) (nonceBytes nonce)

namespace TcpClient

variable {σ : Type} (A : Application σ) (S : Sodium)

def record (s : TcpClient σ) (e : ClientEvent) : TcpClient σ :=
  { s with trace := s.trace ++ [e] }

def disconnect (s : TcpClient σ) : TcpClient σ :=
  { s with socketOpen := false }.record .closed

/-- `Connect`, when it succeeds. -/
def connect (s : TcpClient σ) : TcpClient σ :=
  { s with socketOpen := true }.record .connected

/-- `StartAsyncEngine`. -/
def startAsyncEngine (s : TcpClient σ) : TcpClient σ :=
  { s with readsPending := s.readsPending + 1, engineStarted := true }

/-- `DoWrite` up to the `async_write` call. -/
def doWrite (s : TcpClient σ) : TcpClient σ :=
  match s.writeInProgress, s.writeQueue with
  | false, raw :: _ => { s with writeInProgress := true, started := s.started ++ [raw] }
  | _, _ => s

/-- The completion handler of `async_write`. -/
def onWritten (s : TcpClient σ) (errorCode : Bool) : TcpClient σ :=
  if s.writeInProgress then
    let s := { s with writeInProgress := false, writeQueue := s.writeQueue.tail }
    if errorCode then s else s.doWrite
  else s

/-- `writeQueue.push` and the call of `DoWrite` behind it. -/
def enqueue (s : TcpClient σ) (raw : RawFrame) : TcpClient σ :=
  { s with writeQueue := s.writeQueue ++ [raw] }.doWrite

def doCbrTick (s : TcpClient σ) : TcpClient σ :=
  let s := s.record .ticked
  if !s.isAuthenticated then s
  else
    let (frame, app) := A.frameProvider s.app
    ({ s with app := app }.record (.provided frame.serialize)).enqueue frame.serialize

def handleAuthChallenge (s : TcpClient σ) (challenge : Payload) : TcpClient σ :=
  if challenge.length < challengSize then s.disconnect
  else
    match authResponse S challenge with
    | none => { s with searching := true }
    | some respFrame =>
        (s.record (.responded respFrame.serialize)).enqueue respFrame.serialize

/-- The body of the loop over extracted frames. A search that does not end keeps the loop
from going on. -/
def onFrame (s : TcpClient σ) (frame : Frame) : TcpClient σ × Bool :=
  let s := s.record (.extracted frame)
  if frame.action = .authChallenge then
    let s := s.handleAuthChallenge S frame.payload
    if s.searching then (s, false) else ({ s with isAuthenticated := true }, true)
  else if s.isAuthenticated then
    ({ s with app := A.frameReceiver s.app frame }.record (.received frame), true)
  else (s, true)

/-- The client's instance of the read loop. The two branches that drop the connection
return before `DoRead`. -/
def reader : Reader (TcpClient σ) where
  parser := fun s => s.parser
  setParser := fun s p => { s with parser := p }
  onError := fun s => { s.disconnect with readsPending := s.readsPending - 1 }
  onFrame := onFrame A S
  isOpen := fun s => !s.searching
  onStall := fun s => { s.disconnect with readsPending := s.readsPending - 1 }

/-- The completion handler of a read that has delivered bytes. It does not ask whether the
socket is open. It ends with `DoRead`, so as many reads are posted as before. -/
def onRead (s : TcpClient σ) (chunk : Bytes) : TcpClient σ :=
  if 0 < s.readsPending then
    ((reader A S).readChunk (s.record (.bytes chunk)) chunk).1
  else s

/-- The same with an error code. -/
def onReadFailed (s : TcpClient σ) (aborted : Bool) : TcpClient σ :=
  let s := { s with readsPending := s.readsPending - 1 }
  if aborted then s else s.disconnect

end TcpClient

/-- What can happen to a client. -/
inductive NetworkEvent (σ : Type) : Type where
  | connect
  | start
  | tick
  | read (chunk : Bytes)
  | readFailed (aborted : Bool)
  | written (errorCode : Bool)
  | disconnect
  /-- the application changes its own state -/
  | command (f : σ → σ)

namespace TcpClient

variable {σ : Type} (A : Application σ) (S : Sodium)

def step (s : TcpClient σ) (e : NetworkEvent σ) : TcpClient σ :=
  if s.searching then s
  else
    match e with
    | .connect => s.connect
    | .start => s.startAsyncEngine
    | .tick => if s.engineStarted then s.doCbrTick A else s
    | .read chunk => s.onRead A S chunk
    | .readFailed aborted => if 0 < s.readsPending then s.onReadFailed aborted else s
    | .written errorCode => s.onWritten errorCode
    | .disconnect => s.disconnect
    | .command f => { s with app := f s.app }

def run (s : TcpClient σ) (events : List (NetworkEvent σ)) : TcpClient σ :=
  events.foldl (step A S) s

/-- The write that `DoWrite` starts. -/
def newWrites (writeInProgress : Bool) (writeQueue : List RawFrame) : List RawFrame :=
  if writeInProgress then [] else writeQueue.head?.toList

theorem doWrite_eq (s : TcpClient σ) :
    s.doWrite =
      { s with
        writeInProgress := s.writeInProgress || !s.writeQueue.isEmpty
        started := s.started ++ newWrites s.writeInProgress s.writeQueue } := by
  obtain ⟨parser, queue, inProgress, auth, isOpen, pending, begun, searching, app, trace, started⟩ :=
    s
  cases inProgress <;> cases queue <;> simp [doWrite, newWrites]

/-- A frame that is queued is written at once or behind the one that is being written. -/
theorem enqueue_eq (s : TcpClient σ) (raw : RawFrame) :
    s.enqueue raw =
      { s with
        writeQueue := s.writeQueue ++ [raw]
        writeInProgress := true
        started := s.started ++ newWrites s.writeInProgress (s.writeQueue ++ [raw]) } := by
  rw [enqueue, doWrite_eq]
  simp

theorem onWritten_fields (s : TcpClient σ) (errorCode : Bool) :
    (s.onWritten errorCode).isAuthenticated = s.isAuthenticated ∧
      (s.onWritten errorCode).searching = s.searching ∧
      (s.onWritten errorCode).socketOpen = s.socketOpen ∧
      (s.onWritten errorCode).readsPending = s.readsPending ∧
      (s.onWritten errorCode).parser = s.parser := by
  unfold onWritten
  simp only [doWrite_eq]
  split
  · split <;> exact ⟨rfl, rfl, rfl, rfl, rfl⟩
  · exact ⟨rfl, rfl, rfl, rfl, rfl⟩

theorem onWritten_trace (s : TcpClient σ) (errorCode : Bool) :
    (s.onWritten errorCode).trace = s.trace := by
  unfold onWritten
  simp only [doWrite_eq]
  split
  · split <;> rfl
  · rfl

theorem onFrame_set (s : TcpClient σ) (p : FrameParser) (f : Frame) :
    onFrame A S { s with parser := p } f =
      ({ (onFrame A S s f).1 with parser := p }, (onFrame A S s f).2) := by
  obtain ⟨parser, queue, inProgress, auth, isOpen, pending, begun, searching, app, trace, started⟩ :=
    s
  unfold onFrame handleAuthChallenge
  simp only [enqueue_eq, record, disconnect]
  by_cases haction : f.action = .authChallenge
  · rw [if_pos haction, if_pos haction]
    by_cases hsize : f.payload.length < challengSize
    · rw [if_pos hsize, if_pos hsize]
      cases searching <;> rfl
    · rw [if_neg hsize, if_neg hsize]
      cases authResponse S f.payload with
      | none => rfl
      | some resp => cases searching <;> rfl
  · rw [if_neg haction, if_neg haction]
    cases auth <;> rfl

theorem reader_lawful : (reader A S).Lawful where
  parser_set := fun _ _ => rfl
  set_self := fun _ => rfl
  set_set := fun _ _ _ => rfl
  isOpen_set := fun _ _ => rfl
  onFrame_set := onFrame_set A S

/-! ## What a trace says about a connection -/

/-- The events of the current connection. -/
def sinceConnect (l : List ClientEvent) : List ClientEvent := l.rtakeWhile (· ≠ .connected)

/-- The bytes that the current connection has delivered. -/
def bytesOf (l : List ClientEvent) : Bytes :=
  (sinceConnect l).flatMap fun
    | .bytes chunk => chunk
    | _ => []

/-- The frames that were extracted on the current connection. -/
def framesOf (l : List ClientEvent) : List Frame :=
  (sinceConnect l).filterMap fun
    | .extracted f => some f
    | _ => none

/-- On the current connection a challenge was extracted and its answer queued. -/
def Authenticated (S : Sodium) (l : List ClientEvent) : Prop :=
  ∃ before f resp after,
    l = before ++ .extracted f :: .responded resp.serialize :: after ∧
      f.action = .authChallenge ∧ authResponse S f.payload = some resp ∧ .connected ∉ after

/-- Nothing goes from or to the application before that. -/
def AuthFirst (S : Sodium) (l : List ClientEvent) : Prop :=
  ∀ before e after, l = before ++ e :: after → e.serves = true → Authenticated S before

section Trace

variable {S : Sodium} {l : List ClientEvent} {e : ClientEvent}

theorem sinceConnect_append (he : e ≠ .connected) :
    sinceConnect (l ++ [e]) = sinceConnect l ++ [e] :=
  List.rtakeWhile_concat_pos _ _ _ (decide_eq_true he)

theorem sinceConnect_connected : sinceConnect (l ++ [.connected]) = [] :=
  List.rtakeWhile_concat_neg _ _ _ (by simp)

theorem Authenticated.append (h : Authenticated S l) (he : e ≠ .connected) :
    Authenticated S (l ++ [e]) := by
  obtain ⟨before, f, resp, after, rfl, haction, hresp, hafter⟩ := h
  refine ⟨before, f, resp, after ++ [e], ?_, haction, hresp, ?_⟩
  · rw [List.append_assoc]
    rfl
  · rw [List.mem_append, List.mem_singleton]
    rintro (hmem | heq)
    · exact hafter hmem
    · exact he heq.symm

theorem AuthFirst.append (h : AuthFirst S l) (he : e.serves = true → Authenticated S l) :
    AuthFirst S (l ++ [e]) := by
  intro before e' after heq hserves
  rcases List.eq_nil_or_concat after with rfl | ⟨after, e'', rfl⟩
  · obtain ⟨rfl, hlast⟩ := List.append_inj' heq rfl
    obtain rfl : e = e' := (List.cons.inj hlast).1
    exact he hserves
  · rw [List.concat_eq_append, ← List.cons_append, ← List.append_assoc] at heq
    obtain ⟨rfl, -⟩ := List.append_inj' heq rfl
    exact h before e' after rfl hserves

end Trace

/-! ## While frames are handled -/

/-- What holds of a client whose connection has delivered `b` and handled `frames`. -/
structure Handling (S : Sodium) (b : Bytes) (frames : List Frame) (s : TcpClient σ) : Prop where
  auth : s.isAuthenticated = true → Authenticated S s.trace
  first : AuthFirst S s.trace
  bytes : bytesOf s.trace = b
  frames : framesOf s.trace = frames

namespace Handling

variable {A S} {b : Bytes} {frames : List Frame} {s s' : TcpClient σ}

theorem congr (h : Handling S b frames s) (htrace : s'.trace = s.trace)
    (hauth : s'.isAuthenticated = s.isAuthenticated) : Handling S b frames s' := by
  refine ⟨?_, ?_, ?_, ?_⟩
  · rw [htrace, hauth]
    exact h.auth
  · rw [htrace]
    exact h.first
  · rw [htrace]
    exact h.bytes
  · rw [htrace]
    exact h.frames

theorem record (h : Handling S b frames s) {e : ClientEvent} (hconnected : e ≠ .connected)
    (hbytes : ∀ chunk, e ≠ .bytes chunk) (hextracted : ∀ f, e ≠ .extracted f)
    (hserves : e.serves = true → Authenticated S s.trace) :
    Handling S b frames (s.record e) := by
  refine ⟨fun hauth => (h.auth hauth).append hconnected, h.first.append hserves, ?_, ?_⟩
  · show bytesOf (s.trace ++ [e]) = b
    rw [bytesOf, sinceConnect_append hconnected, List.flatMap_append, ← h.bytes]
    cases e with
    | bytes chunk => exact absurd rfl (hbytes chunk)
    | _ => exact List.append_nil _
  · show framesOf (s.trace ++ [e]) = frames
    rw [framesOf, sinceConnect_append hconnected, List.filterMap_append, ← h.frames]
    cases e with
    | extracted f => exact absurd rfl (hextracted f)
    | _ => exact List.append_nil _

theorem bytes_read (h : Handling S b frames s) (chunk : Bytes) :
    Handling S (b ++ chunk) frames (s.record (.bytes chunk)) := by
  have hne : ClientEvent.bytes chunk ≠ .connected := fun heq => by cases heq
  refine ⟨fun hauth => (h.auth hauth).append hne, h.first.append (fun hs => by cases hs), ?_, ?_⟩
  · show bytesOf (s.trace ++ [_]) = b ++ chunk
    rw [bytesOf, sinceConnect_append hne, List.flatMap_append, ← h.bytes]
    exact congrArg (bytesOf s.trace ++ ·) (List.append_nil chunk)
  · show framesOf (s.trace ++ [_]) = frames
    rw [framesOf, sinceConnect_append hne, List.filterMap_append, ← h.frames]
    exact List.append_nil _

theorem extracted (h : Handling S b frames s) (f : Frame) :
    Handling S b (frames ++ [f]) (s.record (.extracted f)) := by
  have hne : ClientEvent.extracted f ≠ .connected := fun heq => by cases heq
  refine ⟨fun hauth => (h.auth hauth).append hne, h.first.append (fun hs => by cases hs), ?_, ?_⟩
  · show bytesOf (s.trace ++ [_]) = b
    rw [bytesOf, sinceConnect_append hne, List.flatMap_append, ← h.bytes]
    exact List.append_nil _
  · show framesOf (s.trace ++ [_]) = frames ++ [f]
    rw [framesOf, sinceConnect_append hne, List.filterMap_append, ← h.frames]
    rfl

theorem enqueue (h : Handling S b frames s) (raw : RawFrame) :
    Handling S b frames (s.enqueue raw) := by
  rw [enqueue_eq]
  exact h.congr rfl rfl

theorem disconnect (h : Handling S b frames s) : Handling S b frames s.disconnect := by
  have hclosed : Handling S b frames { s with socketOpen := false } := h.congr rfl rfl
  exact hclosed.record (fun heq => by cases heq) (fun _ heq => by cases heq)
    (fun _ heq => by cases heq) (fun hs => by cases hs)

end Handling

/-- A challenge or an answer that comes out of the parser was padded. -/
theorem paddedControlPayloadSize_le_of_extractable {f : Frame} (h : Reader.Extractable f)
    (haction : f.action = .authChallenge ∨ f.action = .authResponse) :
    paddedControlPayloadSize ≤ f.payload.length := by
  obtain ⟨action, mailbox, payload, hbuild⟩ := h
  unfold buildFrame at hbuild
  split at hbuild
  · obtain rfl := Option.some.inj hbuild
    rcases haction with haction | haction <;> cases haction
  · split at hbuild
    · obtain rfl := Option.some.inj hbuild
      rcases haction with haction | haction <;> cases haction
    · split at hbuild
      · obtain rfl := Option.some.inj hbuild
        rcases haction with haction | haction <;> cases haction
      · split at hbuild
        · obtain rfl := Option.some.inj hbuild
          exact paddedControlPayloadSize_le_padControl _
        · split at hbuild
          · obtain rfl := Option.some.inj hbuild
            exact paddedControlPayloadSize_le_padControl _
          · cases hbuild

theorem challengSize_le_of_extractable {f : Frame} (h : Reader.Extractable f)
    (haction : f.action = .authChallenge) : challengSize ≤ f.payload.length :=
  le_trans (by decide) (paddedControlPayloadSize_le_of_extractable h (.inl haction))

section Frames

variable {A S} {b : Bytes} {frames : List Frame} {s : TcpClient σ}

theorem Handling.onRaw (h : Handling S b frames s) (raw : RawFrame) :
    Handling S b (frames ++ (frameOf raw).toList) ((reader A S).onRaw s raw) := by
  unfold Reader.onRaw
  cases hf : frameOf raw with
  | none =>
      rw [Option.toList_none, List.append_nil]
      exact h
  | some f =>
      have hext := h.extracted f
      show Handling S b (frames ++ [f]) (TcpClient.onFrame A S s f).1
      unfold TcpClient.onFrame
      dsimp only
      split
      · next haction =>
          have hsize := challengSize_le_of_extractable ⟨_, _, _, hf⟩ haction
          unfold handleAuthChallenge
          rw [if_neg (Nat.not_lt.mpr hsize)]
          cases hresp : authResponse S f.payload with
          | none => exact hext.congr rfl rfl
          | some resp =>
              have hqueue := (hext.record (e := .responded resp.serialize)
                (fun heq => by cases heq) (fun _ heq => by cases heq)
                (fun _ heq => by cases heq) (fun hs => by cases hs)).enqueue resp.serialize
              rw [enqueue_eq] at hqueue
              simp only [enqueue_eq]
              split
              · exact hqueue
              · refine ⟨fun _ => ?_, hqueue.first, hqueue.bytes, hqueue.frames⟩
                refine ⟨s.trace, f, resp, [], ?_, haction, hresp, List.not_mem_nil⟩
                exact List.append_assoc s.trace [.extracted f] [.responded resp.serialize]
      · split
        · next hauth =>
            have hreceived := hext.record (e := .received f) (fun heq => by cases heq)
              (fun _ heq => by cases heq) (fun _ heq => by cases heq) (fun _ => hext.auth hauth)
            exact hreceived.congr rfl rfl
        · exact hext

/-- The frames of a chunk. If the search for a nonce does not end, the rest of them is
never looked at. -/
theorem Handling.absorb (h : Handling S b frames s) (raws : List RawFrame) :
    (∀ s', (reader A S).absorb s raws = (s', none) →
      Handling S b (frames ++ raws.filterMap frameOf) s') ∧
    (∀ s' rest, (reader A S).absorb s raws = (s', some rest) →
      s'.searching = true ∧ ∃ frames', Handling S b frames' s') := by
  induction raws generalizing s frames with
  | nil =>
      constructor
      · rintro s' ⟨⟩
        rw [List.filterMap_nil, List.append_nil]
        exact h
      · rintro s' rest ⟨⟩
  | cons raw raws ih =>
      have hraw := h.onRaw (A := A) raw
      rw [Reader.absorb]
      have hframes : frames ++ (raw :: raws).filterMap frameOf =
          frames ++ (frameOf raw).toList ++ raws.filterMap frameOf := by
        cases hf : frameOf raw with
        | none => rw [List.filterMap_cons_none hf, Option.toList_none, List.append_nil]
        | some f =>
            rw [List.filterMap_cons_some hf, List.append_assoc]
            rfl
      split
      · rw [hframes]
        exact ih hraw
      · next hsearching =>
          constructor
          · rintro s' ⟨⟩
          · rintro s' rest ⟨⟩
            refine ⟨?_, _, hraw⟩
            simpa [reader] using hsearching

end Frames

/-! ## Whole runs -/

/-- The parser has seen the bytes `b` and nothing else. -/
def HasSeen (p : FrameParser) (b : Bytes) : Prop :=
  match (splitStream b).2 with
  | .unfinished r => p = onBytes r
  | .malformed _ => p.hasError = true

/-- The invariant of a client whose connections start afresh: the parser has seen the
bytes of the current connection, and the frames are those of its bytes. -/
structure Own (S : Sodium) (s : TcpClient σ) : Prop where
  auth : s.isAuthenticated = true → Authenticated S s.trace
  first : AuthFirst S s.trace
  parse : s.searching = false → HasSeen s.parser (bytesOf s.trace)
  frames : s.searching = false →
    framesOf s.trace = (splitStream (bytesOf s.trace)).1.filterMap frameOf

/-- `Connect` finds the object as it was constructed, and no read of an earlier connection is
still to be handled. -/
def FreshConnect (s : TcpClient σ) : NetworkEvent σ → Prop
  | .connect => s.isAuthenticated = false ∧ s.parser = {} ∧ s.readsPending = 0
  | _ => True

instance (s : TcpClient σ) : (e : NetworkEvent σ) → Decidable (FreshConnect s e)
  | .connect => inferInstanceAs (Decidable (_ ∧ _))
  | .start | .tick | .read _ | .readFailed _ | .written _ | .disconnect | .command _ =>
      inferInstanceAs (Decidable True)

namespace Own

variable {A S} {s s' : TcpClient σ}

theorem handling (h : Own S s) (hs : s.searching = false) :
    Handling S (bytesOf s.trace) ((splitStream (bytesOf s.trace)).1.filterMap frameOf) s :=
  ⟨h.auth, h.first, rfl, h.frames hs⟩

theorem of_handling (h : Own S s) (hs : s.searching = false)
    (h' : Handling S (bytesOf s.trace)
      ((splitStream (bytesOf s.trace)).1.filterMap frameOf) s')
    (hparser : s'.parser = s.parser) : Own S s' := by
  refine ⟨h'.auth, h'.first, fun _ => ?_, fun _ => ?_⟩
  · rw [h'.bytes, hparser]
    exact h.parse hs
  · rw [h'.bytes]
    exact h'.frames

theorem connect (h : Own S s) (hauth : s.isAuthenticated = false) (hparser : s.parser = {}) :
    Own S s.connect := by
  have hbytes : bytesOf s.connect.trace = [] := by
    show bytesOf (s.trace ++ [.connected]) = []
    rw [bytesOf, sinceConnect_connected]
    rfl
  refine ⟨?_, h.first.append (fun hs => by cases hs), ?_, ?_⟩
  · intro hauth'
    exact absurd (hauth.symm.trans hauth') (by decide)
  · intro _
    rw [hbytes]
    exact hparser
  · intro _
    rw [hbytes]
    show framesOf (s.trace ++ [.connected]) = _
    rw [framesOf, sinceConnect_connected]
    rfl

theorem onRead_unfinished (h : Own S s) (hs : s.searching = false) {r : Bytes}
    (htail : (splitStream (bytesOf s.trace)).2 = .unfinished r) (chunk : Bytes) :
    Own S ((reader A S).readChunk (s.record (.bytes chunk)) chunk).1 := by
  have hparser : s.parser = onBytes r := by
    have hseen := h.parse hs
    unfold HasSeen at hseen
    rwa [htail] at hseen
  have hunfinished := splitStream_unfinished htail
  have hlawful : (reader A S).Lawful := reader_lawful A S
  have hrecorded : (reader A S).parser (s.record (.bytes chunk)) = onBytes r := hparser
  rw [Reader.readChunk_spec hlawful hrecorded hunfinished]
  -- the frames of the connection are those so far and those that the chunk completes
  have hsplit := splitStream_append (bytesOf s.trace) chunk
  rw [htail] at hsplit
  have hframes : ((splitStream (bytesOf s.trace)).1.filterMap frameOf) ++
      (splitStream (r ++ chunk)).1.filterMap frameOf =
      (splitStream (bytesOf s.trace ++ chunk)).1.filterMap frameOf := by
    rw [hsplit, List.filterMap_append]
  obtain ⟨hdone, hstuck⟩ := ((h.handling hs).bytes_read chunk).absorb (A := A)
    (splitStream (r ++ chunk)).1
  rw [hframes] at hdone
  unfold Reader.readBytes
  cases habsorb : (reader A S).absorb (s.record (.bytes chunk))
      (splitStream (r ++ chunk)).1 with
  | mk s' rest =>
      cases rest with
      | some raws =>
          obtain ⟨hsearching, frames', hh⟩ := hstuck s' raws habsorb
          refine ⟨hh.auth, hh.first, ?_, ?_⟩
          · intro hnot
            exact absurd (hsearching.symm.trans hnot) (by decide)
          · intro hnot
            exact absurd (hsearching.symm.trans hnot) (by decide)
      | none =>
          have hh := hdone s' habsorb
          have htail' : (splitStream (bytesOf s.trace ++ chunk)).2 =
              (splitStream (r ++ chunk)).2 := by
            rw [hsplit]
          cases hend : (splitStream (r ++ chunk)).2 with
          | unfinished r' =>
              refine ⟨hh.auth, hh.first, fun _ => ?_, fun _ => ?_⟩
              · show HasSeen _ (bytesOf s'.trace)
                rw [hh.bytes, HasSeen, htail', hend]
                rfl
              · show framesOf s'.trace = (splitStream (bytesOf s'.trace)).1.filterMap frameOf
                rw [hh.bytes]
                exact hh.frames
          | malformed m =>
              have hset : Handling S _ _ ((reader A S).setParser s' (afterHeader
                (m.take headerSize) [] .errorMalformed)) := hh.congr rfl rfl
              have hclosed := hset.disconnect
              refine ⟨hclosed.auth, hclosed.first, fun _ => ?_, fun _ => ?_⟩
              · have hb := hclosed.bytes
                show HasSeen _ (bytesOf (TcpClient.disconnect _).trace)
                rw [hb, HasSeen, htail', hend]
                rfl
              · have hf := hclosed.frames
                rw [← hclosed.bytes] at hf
                exact hf

/-- A read after a malformed header: the connection is dropped once more. -/
theorem onRead_malformed (h : Own S s) (hs : s.searching = false) {m : Bytes}
    (htail : (splitStream (bytesOf s.trace)).2 = .malformed m) (chunk : Bytes) :
    Own S ((reader A S).readChunk (s.record (.bytes chunk)) chunk).1 := by
  have herror : s.parser.hasError = true := by
    have hseen := h.parse hs
    unfold HasSeen at hseen
    rwa [htail] at hseen
  have hsplit := splitStream_append (bytesOf s.trace) chunk
  rw [htail] at hsplit
  have hread := (h.handling hs).bytes_read chunk
  have hframes : (splitStream (bytesOf s.trace)).1.filterMap frameOf =
      (splitStream (bytesOf s.trace ++ chunk)).1.filterMap frameOf := by
    rw [hsplit]
  rw [hframes] at hread
  have hseen : ∀ p : FrameParser, p.hasError = true → HasSeen p (bytesOf s.trace ++ chunk) := by
    intro p hp
    rw [HasSeen, hsplit]
    exact hp
  by_cases hchunk : chunk = []
  · subst hchunk
    refine ⟨hread.auth, hread.first, fun _ => ?_, fun _ => ?_⟩
    · show HasSeen _ (bytesOf (s.record _).trace)
      rw [hread.bytes]
      exact hseen _ herror
    · show framesOf (s.record _).trace = (splitStream (bytesOf (s.record _).trace)).1.filterMap _
      rw [hread.bytes]
      exact hread.frames
  · have hstill : ((reader A S).parser (s.record (.bytes chunk))).hasError = true := herror
    rw [Reader.readChunk_error (reader_lawful A S) hstill hchunk]
    have hclosed := hread.disconnect
    refine ⟨hclosed.auth, hclosed.first, fun _ => ?_, fun _ => ?_⟩
    · show HasSeen _ (bytesOf (TcpClient.disconnect _).trace)
      rw [hclosed.bytes]
      exact hseen _ herror
    · show framesOf (TcpClient.disconnect _).trace =
        (splitStream (bytesOf (TcpClient.disconnect _).trace)).1.filterMap _
      rw [hclosed.bytes]
      exact hclosed.frames

theorem onRead (h : Own S s) (hs : s.searching = false) (chunk : Bytes) :
    Own S (s.onRead A S chunk) := by
  unfold TcpClient.onRead
  split
  · cases htail : (splitStream (bytesOf s.trace)).2 with
    | unfinished r => exact h.onRead_unfinished hs htail chunk
    | malformed m => exact h.onRead_malformed hs htail chunk
  · exact h

theorem doCbrTick (h : Own S s) (hs : s.searching = false) : Own S (s.doCbrTick A) := by
  have hticked := (h.handling hs).record (e := .ticked) (fun heq => by cases heq)
    (fun _ heq => by cases heq) (fun _ heq => by cases heq) (fun hserves => by cases hserves)
  unfold TcpClient.doCbrTick
  dsimp only
  split
  · exact h.of_handling hs hticked rfl
  · next hauth =>
      have hauth : (s.record .ticked).isAuthenticated = true := by simpa using hauth
      have happ : Handling S _ _ { s.record .ticked with app := (A.frameProvider s.app).2 } :=
        hticked.congr rfl rfl
      have hprovided := happ.record (e := .provided (A.frameProvider s.app).1.serialize)
        (fun heq => by cases heq) (fun _ heq => by cases heq) (fun _ heq => by cases heq)
        (fun _ => hticked.auth hauth)
      refine h.of_handling hs (hprovided.enqueue _) ?_
      rw [enqueue_eq]
      rfl

theorem onWritten (h : Own S s) (hs : s.searching = false) (errorCode : Bool) :
    Own S (s.onWritten errorCode) := by
  obtain ⟨hauth, -, -, -, hparser⟩ := onWritten_fields s errorCode
  exact h.of_handling hs ((h.handling hs).congr (onWritten_trace s errorCode) hauth) hparser

theorem disconnect (h : Own S s) (hs : s.searching = false) : Own S s.disconnect :=
  h.of_handling hs (h.handling hs).disconnect rfl

theorem step (h : Own S s) {e : NetworkEvent σ} (he : FreshConnect s e) :
    Own S (s.step A S e) := by
  unfold TcpClient.step
  split
  · exact h
  · next hsearching =>
      have hs : s.searching = false := by simpa using hsearching
      cases e with
      | connect => exact h.connect he.1 he.2.1
      | start => exact h.of_handling hs ((h.handling hs).congr rfl rfl) rfl
      | tick =>
          dsimp only
          split
          · exact h.doCbrTick hs
          · exact h
      | read chunk => exact h.onRead hs chunk
      | readFailed aborted =>
          dsimp only
          split
          · have hidle : Own S { s with readsPending := s.readsPending - 1 } :=
              h.of_handling hs ((h.handling hs).congr rfl rfl) rfl
            cases aborted with
            | true => exact hidle
            | false => exact hidle.disconnect hs
          · exact h
      | written errorCode => exact h.onWritten hs errorCode
      | disconnect => exact h.disconnect hs
      | command f => exact h.of_handling hs ((h.handling hs).congr rfl rfl) rfl

end Own

/-- **Each connection authenticates afresh, if it starts afresh.** In every run in which
`Connect` always finds an object that is not authenticated, whose parser is in its initial
state and that has no read left to handle: on every connection, nothing is taken from the
application and nothing handed to it before a challenge was extracted on this connection and
its answer queued; and the frames extracted on a connection are those of the bytes of this
connection. -/
theorem connection_auth_first (A : Application σ) (S : Sodium) (app : σ)
    (events : List (NetworkEvent σ))
    (hfresh : Run.Along (step A S) FreshConnect { app := app } events) :
    let s := run A S { app := app } events
    AuthFirst S s.trace ∧
      (s.searching = false →
        framesOf s.trace = (splitStream (bytesOf s.trace)).1.filterMap frameOf) := by
  have hstart : Own S ({ app := app } : TcpClient σ) := by
    refine ⟨?_, ?_, fun _ => rfl, fun _ => rfl⟩
    · intro hauth
      cases hauth
    · intro before e after heq
      exact absurd heq.symm (List.append_ne_nil_of_right_ne_nil _ (List.cons_ne_nil _ _))
  have hown := hfresh.induction (P := Own S) (fun s e he h => h.step he) hstart
  exact ⟨hown.first, hown.frames⟩

/-! ## An object that is used twice -/

/-- An application that polls a mailbox and ignores what it gets. -/
def poller : Application Unit where
  frameProvider := fun app => (Frame.createPoll (MailboxID.fill 0x00), app)
  frameReceiver := fun app _ => app

/-- A challenge with an easy answer. -/
def easyChallenge : Bytes :=
  (Frame.createAuthChallenge (MailboxID.fill 0x00) (List.replicate 32 0x00)).serialize

/-- One connection, from the challenge to the first frame of the application. -/
def firstConnection : List (NetworkEvent Unit) :=
  [.connect, .start, .tick, .read easyChallenge, .tick]

/-- The first connection of an object. -/
theorem connection_auth_first_once :
    AuthFirst transparent (run poller transparent { app := () } firstConnection).trace ∧
      ∃ raw, .provided raw ∈ (run poller transparent { app := () } firstConnection).trace := by
  refine ⟨(connection_auth_first poller transparent () firstConnection (by decide +kernel)).1,
    (Frame.createPoll (MailboxID.fill 0x00)).serialize, ?_⟩
  decide +kernel

/-- **A second connection is used without authentication**: its first tick queues a frame
of the application, and no challenge has come in. A connection that follows one cut off
in the middle of a frame takes the beginning of its challenge for the rest of that frame
and finds no challenge. And a challenge that was read on the first connection, but is handled
after the second `Connect`, authenticates the second, on which no read has been posted. -/
theorem stale_connection :
    sinceConnect (run poller transparent { app := () }
        (firstConnection ++ [.disconnect, .connect, .start, .tick])).trace =
      [.ticked, .provided (Frame.createPoll (MailboxID.fill 0x00)).serialize] ∧
    framesOf (run poller transparent { app := () }
        [.connect, .start, .read [0x01, 0x02, 0x03], .disconnect, .connect, .start,
          .read easyChallenge]).trace = [] ∧
      (splitStream easyChallenge).1.length = 1 ∧
    (run poller transparent { app := () }
        [.connect, .start, .disconnect, .connect, .read easyChallenge]).isAuthenticated = true := by
  decide +kernel

end TcpClient

end BlankChat.Network
