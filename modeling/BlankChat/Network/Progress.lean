import BlankChat.Network.ProofOfWork
import BlankChat.Protocol.ParserProgress

/-!
# The read loops make progress — `TcpSession::DoRead`, `TcpClient::DoRead`

`readLoopExit` is the read loop together with the branch in which it ends. The loop is always
entered with a parser that has no complete frame (`Resting`), since every pass extracts what it
has completed; so a pass ends in the error branch or has consumed a byte.

The client's parser is kept when the connection is dropped: one that has met a malformed header
is still in its error state on the next connection, and the first pass ends there.

Main result: `parser_progress`.
-/

namespace BlankChat.Network

open Lib Protocol Crypto FrameParser

/-- Where the loop over a chunk ends. `outOfFuel` is no exit of the source: the bound on the
passes was too small. -/
inductive LoopExit : Type where
  | usedUp
  | parserError
  | closed
  | stalled
  | outOfFuel
deriving DecidableEq, Repr

/-- Between two passes of a read loop: no complete frame is left in the parser. -/
structure Resting (p : FrameParser) : Prop where
  reachable : Reachable p
  not_ready : p.currentState ≠ .frameReady

theorem resting_fresh : Resting {} := ⟨.fresh, by simp⟩

namespace Reader

variable {σ : Type} (R : Reader σ)

/-- `readLoop`, and the branch in which it ends. -/
def readLoopExit : ℕ → σ → Bytes → (σ × Bytes) × LoopExit
  | 0, s, data => ((s, data), if data = [] then .usedUp else .outOfFuel)
  | fuel + 1, s, data =>
      if data = [] then ((s, data), .usedUp)
      else
        let fed := (R.parser s).feedBytes data
        let s := R.setParser s fed.1
        let data := data.drop fed.2
        if fed.1.hasError then ((R.onError s, data), .parserError)
        else
          let s := R.extractLoop 2 s
          if !R.isOpen s then ((s, data), .closed)
          else if fed.2 = 0 then ((R.onStall s, data), .stalled)
          else readLoopExit fuel s data

theorem readLoopExit_fst (fuel : ℕ) (s : σ) (data : Bytes) :
    (R.readLoopExit fuel s data).1 = R.readLoop fuel s data := by
  induction fuel generalizing s data with
  | zero => rfl
  | succ fuel ih =>
      unfold readLoopExit readLoop
      split
      · rfl
      · dsimp only
        split
        · rfl
        · split
          · rfl
          · split
            · rfl
            · exact ih _ _

/-- The loop is done with a chunk: it has used it up, met a parser error, or a frame has closed
the connection. -/
structure Done (result : (σ × Bytes) × LoopExit) : Prop where
  resting : Resting (R.parser result.1.1)
  exit : result.2 = .usedUp ∨ result.2 = .parserError ∨
    result.2 = .closed ∧ R.isOpen result.1.1 = false

variable {R} {s : σ} {data : Bytes}

theorem parser_onFrame (hR : R.Lawful) (s : σ) (f : Frame) :
    R.parser (R.onFrame s f).1 = R.parser s := by
  have hset := hR.onFrame_set s (R.parser s) f
  rw [hR.set_self] at hset
  rw [hset, hR.parser_set]

theorem extractLoop_other (hR : R.Lawful) (h : (R.parser s).currentState ≠ .frameReady)
    (fuel : ℕ) : R.extractLoop (fuel + 1) s = s := by
  rw [extractLoop, tryExtractFrame_other h]
  exact hR.set_self s

theorem extractLoop_complete (hR : R.Lawful) (hreach : Reachable (R.parser s))
    (h : (R.parser s).currentState = .frameReady) (fuel : ℕ) :
    R.extractLoop (fuel + 2) s =
      match (R.parser s).tryExtractFrame.1 with
      | none => R.setParser s {}
      | some f => (R.onFrame (R.setParser s {}) f).1 := by
  have hreset := hreach.bounded.tryExtractFrame_ready h
  rw [extractLoop]
  cases hextract : (R.parser s).tryExtractFrame with
  | mk frame p =>
      rw [hextract] at hreset
      obtain rfl : p = {} := hreset
      cases frame with
      | none => rfl
      | some f =>
          dsimp only
          split
          · apply extractLoop_other hR
            rw [parser_onFrame hR, hR.parser_set]
            simp
          · rfl

/-- The loop over the extracted frames ends after at most two looks, with a parser that has
none. -/
theorem extractLoop_resting (hR : R.Lawful) (h : Reachable (R.parser s)) :
    Resting (R.parser (R.extractLoop 2 s)) ∧
      ∀ fuel, R.extractLoop (fuel + 2) s = R.extractLoop 2 s := by
  by_cases hready : (R.parser s).currentState = .frameReady
  · refine ⟨?_, fun fuel => ?_⟩
    · rw [extractLoop_complete hR h hready]
      cases (R.parser s).tryExtractFrame.1 with
      | none =>
          dsimp only
          rw [hR.parser_set]
          exact resting_fresh
      | some f =>
          dsimp only
          rw [parser_onFrame hR, hR.parser_set]
          exact resting_fresh
    · rw [extractLoop_complete hR h hready, extractLoop_complete hR h hready 0]
  · refine ⟨?_, fun fuel => ?_⟩
    · rw [extractLoop_other hR hready]
      exact ⟨h, hready⟩
    · rw [extractLoop_other hR hready, extractLoop_other hR hready]

/-- **A pass for each byte is enough.** -/
theorem readLoopExit_done (hR : R.Lawful) (herror : ∀ s, R.parser (R.onError s) = R.parser s)
    {fuel : ℕ} (h : Resting (R.parser s)) (hfuel : data.length ≤ fuel) :
    R.Done (R.readLoopExit fuel s data) := by
  induction fuel generalizing s data with
  | zero =>
      obtain rfl := List.eq_nil_of_length_eq_zero (Nat.le_zero.mp hfuel)
      exact ⟨h, .inl rfl⟩
  | succ fuel ih =>
      unfold readLoopExit
      by_cases hdata : data = []
      · rw [if_pos hdata]
        exact ⟨h, .inl rfl⟩
      rw [if_neg hdata]
      dsimp only
      have hfed := h.reachable.feedBytes data
      cases herr : ((R.parser s).feedBytes data).1.hasError with
      | true =>
          have hstate : ((R.parser s).feedBytes data).1.currentState = .errorMalformed :=
            of_decide_eq_true herr
          refine ⟨?_, .inr (.inl rfl)⟩
          rw [if_pos rfl, herror, hR.parser_set]
          exact ⟨hfed, by simp [hstate]⟩
      | false =>
          -- not in its error state afterwards, so not before: the parser took a byte
          have hwants : (R.parser s).wantsBytes = true := by
            by_contra hstop
            have hsame : (R.parser s).feedBytes data = (R.parser s, 0) :=
              feedBytes_stop (Bool.eq_false_iff.mpr hstop) data
            rw [hsame] at herr
            simp [wantsBytes, h.not_ready] at hstop
            simp [hasError, hstop] at herr
          have hconsumed := h.reachable.consumes hdata hwants
          have hextract := (extractLoop_resting hR
            (s := R.setParser s ((R.parser s).feedBytes data).1)
            (by rw [hR.parser_set]; exact hfed)).1
          simp only [Bool.false_eq_true, if_false]
          cases hopen : R.isOpen (R.extractLoop 2
              (R.setParser s ((R.parser s).feedBytes data).1)) with
          | false => exact ⟨hextract, .inr (.inr ⟨rfl, hopen⟩)⟩
          | true =>
              simp only [Bool.not_true, Bool.false_eq_true, if_false]
              rw [if_neg (by omega)]
              exact ih hextract (by rw [List.length_drop]; omega)

end Reader

/-! ## A session -/

namespace TcpSession

variable {H : Type} [FrameHandler H] (S : Sodium)

/-- The branch in which the loop of `DoRead` ends on a chunk. -/
def readExit (sh : TcpSession × H) (chunk : Bytes) : LoopExit :=
  ((reader S).readLoopExit chunk.length ({ sh.1 with readPending := false }, sh.2) chunk).2

variable {S} {sh : TcpSession × H}

theorem loop_done (h : Resting sh.1.parser) (chunk : Bytes) :
    (reader S).Done ((reader S).readLoopExit chunk.length
      ({ sh.1 with readPending := false }, sh.2) chunk) :=
  Reader.readLoopExit_done (reader_lawful S) (fun _ => rfl) h le_rfl

theorem readExit_cases (h : Resting sh.1.parser) (chunk : Bytes) :
    readExit S sh chunk = .usedUp ∨ readExit S sh chunk = .parserError ∨
      readExit S sh chunk = .closed := by
  rcases (loop_done h chunk).exit with hexit | hexit | ⟨hexit, -⟩
  · exact .inl hexit
  · exact .inr (.inl hexit)
  · exact .inr (.inr hexit)

theorem resting_step (h : Resting sh.1.parser) (e : SocketEvent) :
    Resting (step S sh e).1.parser := by
  cases e with
  | read chunk =>
      show Resting (onRead S sh chunk).1.parser
      unfold onRead
      split
      · have hspec := (loop_done (S := S) h chunk).resting
        rw [Reader.readLoopExit_fst] at hspec
        exact hspec
      · exact h
  | readFailed => exact h
  | written errorCode =>
      obtain ⟨-, -, -, -, -, -, hparser, -⟩ := onWritten_quiet sh.1 errorCode
      show Resting (sh.1.onWritten errorCode).parser
      rw [hparser]
      exact h

theorem resting_run (h : Resting sh.1.parser) (events : List SocketEvent) :
    Resting (run S sh events).1.parser := by
  unfold run
  apply List.foldlRecOn (motive := fun sh : TcpSession × H => Resting sh.1.parser) _ _ h
  intro sh h e _
  exact resting_step h e

end TcpSession

/-! ## A client -/

/-- For every challenge a nonce is found. This is an assumption on the hash function: three
zero digits are one hash in 4096, and there are `2 ^ 64` nonces. -/
def SearchEnds (S : Sodium) : Prop := ∀ challenge : Payload, authResponse S challenge ≠ none

theorem searchEnds_thirdNonce : SearchEnds thirdNonce := by
  intro challenge
  rw [authResponse, searchNonce_thirdNonce]
  exact Option.some_ne_none _

namespace TcpClient

variable {σ : Type} (A : Application σ) (S : Sodium)

/-- The branch in which the loop of `DoRead` ends on a chunk; `closed` is a search for a nonce
that does not end. -/
def readExit (s : TcpClient σ) (chunk : Bytes) : LoopExit :=
  ((reader A S).readLoopExit chunk.length (s.record (.bytes chunk)) chunk).2

variable {A S} {s : TcpClient σ}

theorem loop_done (h : Resting s.parser) (chunk : Bytes) :
    (reader A S).Done
      ((reader A S).readLoopExit chunk.length (s.record (.bytes chunk)) chunk) :=
  Reader.readLoopExit_done (reader_lawful A S) (fun _ => rfl) h le_rfl

theorem parser_doCbrTick (s : TcpClient σ) : (s.doCbrTick A).parser = s.parser := by
  unfold doCbrTick
  simp only [enqueue_eq]
  split <;> rfl

theorem resting_step (h : Resting s.parser) (e : NetworkEvent σ) :
    Resting (step A S s e).parser := by
  unfold step
  split
  · exact h
  · cases e with
    | connect => exact h
    | start => exact h
    | tick =>
        dsimp only
        split
        · rw [parser_doCbrTick]
          exact h
        · exact h
    | read chunk =>
        show Resting (s.onRead A S chunk).parser
        unfold onRead
        split
        · have hspec := (loop_done (A := A) (S := S) h chunk).resting
          rw [Reader.readLoopExit_fst] at hspec
          exact hspec
        · exact h
    | readFailed aborted =>
        dsimp only
        unfold onReadFailed
        split
        · cases aborted <;> exact h
        · exact h
    | written errorCode =>
        dsimp only
        rw [(onWritten_fields s errorCode).2.2.2.2]
        exact h
    | disconnect => exact h
    | command f => exact h

theorem resting_run (h : Resting s.parser) (events : List (NetworkEvent σ)) :
    Resting (run A S s events).parser := by
  unfold run
  apply List.foldlRecOn (motive := fun s : TcpClient σ => Resting s.parser) _ _ h
  intro s h e _
  exact resting_step h e

theorem onFrame_searching (hends : SearchEnds S) (s : TcpClient σ) (f : Frame) :
    (onFrame A S s f).1.searching = s.searching := by
  obtain ⟨resp, hresp⟩ := Option.ne_none_iff_exists'.mp (hends f.payload)
  have hchallenge : ∀ s : TcpClient σ,
      (s.handleAuthChallenge S f.payload).searching = s.searching := by
    intro s
    unfold handleAuthChallenge
    simp only [hresp, enqueue_eq]
    split <;> rfl
  unfold onFrame
  dsimp only
  split
  · split
    · exact hchallenge _
    · exact hchallenge _
  · split <;> rfl

theorem readChunk_searching (hends : SearchEnds S) (h : s.searching = false) (chunk : Bytes) :
    ((reader A S).readChunk s chunk).1.searching = false := by
  have hrule := Reader.readChunk_rule (R := reader A S) (P := fun s => s.searching = false)
    (Q := fun _ => False) (fun _ _ hs => hs)
    (fun s f _ hs => .inl ((onFrame_searching hends s f).trans hs)) (fun _ hs => hs.elim)
    (fun _ hs => hs) (fun _ hs => hs) h chunk
  exact hrule.resolve_right id

theorem searching_step (hends : SearchEnds S) (h : s.searching = false) (e : NetworkEvent σ) :
    (step A S s e).searching = false := by
  unfold step
  rw [h]
  simp only [Bool.false_eq_true, if_false]
  cases e with
  | connect => exact h
  | start => exact h
  | tick =>
      dsimp only
      split
      · unfold doCbrTick
        simp only [enqueue_eq]
        split <;> exact h
      · exact h
  | read chunk =>
      show (s.onRead A S chunk).searching = false
      unfold onRead
      split
      · exact readChunk_searching (s := s.record (.bytes chunk)) hends h chunk
      · exact h
  | readFailed aborted =>
      dsimp only
      unfold onReadFailed
      split
      · cases aborted <;> exact h
      · exact h
  | written errorCode =>
      dsimp only
      rw [(onWritten_fields s errorCode).2.1]
      exact h
  | disconnect => exact h
  | command f => rfl

theorem searching_run (hends : SearchEnds S) (h : s.searching = false)
    (events : List (NetworkEvent σ)) : (run A S s events).searching = false := by
  unfold run
  apply List.foldlRecOn (motive := fun s : TcpClient σ => s.searching = false) _ _ h
  intro s h e _
  exact searching_step hends h e

/-- The loop of the client ends with the chunk or on a parser error, unless the search for a
nonce never ends. -/
theorem readExit_cases (h : Resting s.parser) (chunk : Bytes) :
    readExit A S s chunk = .usedUp ∨ readExit A S s chunk = .parserError ∨
      readExit A S s chunk = .closed ∧ (SearchEnds S → s.searching = true) := by
  rcases (loop_done h chunk).exit with hexit | hexit | ⟨hexit, hopen⟩
  · exact .inl hexit
  · exact .inr (.inl hexit)
  · refine .inr (.inr ⟨hexit, fun hends => ?_⟩)
    by_contra hidle
    rw [Reader.readLoopExit_fst] at hopen
    have hsearching := readChunk_searching (A := A) (s := s.record (.bytes chunk)) hends
      (Bool.eq_false_iff.mpr hidle) chunk
    have hstopped : (!((reader A S).readChunk (s.record (.bytes chunk)) chunk).1.searching) =
        false := hopen
    rw [hsearching] at hstopped
    cases hstopped

end TcpClient

/-! ## Progress -/

/-- **The parser always makes progress within fixed buffers.** In every reachable state the
buffers are bounded; `FeedBytes` ends by its guard, and takes at least one byte of non-empty
data unless the parser has a complete frame or an error; a complete frame has its action and
its mailbox. So the read loops of the two ends are done with a chunk within a pass for each
byte, and never in the branch for a pass that consumed nothing. -/
theorem parser_progress :
    (∀ p, Reachable p →
      p.Bounded ∧
      (∀ data,
        Reachable (p.feedBytes data).1 ∧
        (∀ fuel, data.length ≤ fuel → feedLoop fuel p data = feedLoop data.length p data) ∧
        ((feedLoop data.length p data).2 = [] ∨
          (feedLoop data.length p data).1.wantsBytes = false) ∧
        (data ≠ [] → p.currentState ≠ .frameReady → p.currentState ≠ .errorMalformed →
          1 ≤ (p.feedBytes data).2)) ∧
      (p.currentState = .frameReady → p.tryExtractFrame.2 = {})) ∧
    (∀ (H : Type) [FrameHandler H] (S : Sodium) (challenge : ByteVec challengSize) (h : H)
      (events : List SocketEvent) (chunk : Bytes),
      let sh := TcpSession.run S (TcpSession.start challenge, h) events
      TcpSession.readExit S sh chunk = .usedUp ∨ TcpSession.readExit S sh chunk = .parserError ∨
        TcpSession.readExit S sh chunk = .closed) ∧
    (∀ (σ : Type) (A : Application σ) (S : Sodium) (app : σ) (events : List (NetworkEvent σ))
      (chunk : Bytes),
      let s := TcpClient.run A S { app := app } events
      TcpClient.readExit A S s chunk ≠ .stalled ∧ TcpClient.readExit A S s chunk ≠ .outOfFuel ∧
        (SearchEnds S →
          TcpClient.readExit A S s chunk = .usedUp ∨
            TcpClient.readExit A S s chunk = .parserError)) := by
  refine ⟨?_, ?_, ?_⟩
  · intro p h
    refine ⟨h.bounded, fun data => ?_, h.bounded.tryExtractFrame_ready⟩
    refine ⟨h.feedBytes data, fun fuel hfuel => h.feedLoop_fuel hfuel le_rfl,
      (h.feedLoop le_rfl).2.1, ?_⟩
    intro hdata hready herror
    exact h.consumes hdata (by simp [wantsBytes, hready, herror])
  · intro H _ S challenge h events chunk
    exact TcpSession.readExit_cases (TcpSession.resting_run resting_fresh events) chunk
  · intro σ A S app events chunk
    have hresting : Resting (TcpClient.run A S { app := app } events).parser :=
      TcpClient.resting_run resting_fresh events
    dsimp only
    rcases TcpClient.readExit_cases (A := A) (S := S) hresting chunk with
      hexit | hexit | ⟨hexit, hsearching⟩
    · simp [hexit]
    · simp [hexit]
    · refine ⟨by simp [hexit], by simp [hexit], fun hends => ?_⟩
      have hidle := TcpClient.searching_run (A := A) (s := { app := app }) hends rfl events
      rw [hsearching hends] at hidle
      cases hidle

/-- The challenge frame of a session. -/
def sevensRaw : RawFrame := (TcpSession.start sevens).writeQueue.flatten

/-- A parser in the middle of the payload of a challenge takes the next bytes; a client that
has read this much is done with the rest of the frame, although it has to search for a nonce. -/
theorem parser_progress_payload :
    let p := (({} : FrameParser).feedBytes (sevensRaw.take 100)).1
    let s := TcpClient.run TcpClient.poller thirdNonce { app := () }
      [.connect, .start, .read (sevensRaw.take 100)]
    p.currentState = .readingPayload ∧ 1 ≤ (p.feedBytes (sevensRaw.drop 100)).2 ∧
      (TcpClient.readExit TcpClient.poller thirdNonce s (sevensRaw.drop 100) = .usedUp ∨
        TcpClient.readExit TcpClient.poller thirdNonce s (sevensRaw.drop 100) = .parserError) := by
  intro p s
  obtain ⟨hparser, -, hclient⟩ := parser_progress
  have hreach : Reachable p := Reachable.fresh.feedBytes _
  have hstate : p.currentState = .readingPayload := by decide +kernel
  refine ⟨hstate, ?_, ?_⟩
  · refine ((hparser p hreach).2.1 (sevensRaw.drop 100)).2.2.2 (by decide +kernel) ?_ ?_
    · rw [hstate]
      simp
    · rw [hstate]
      simp
  · exact (hclient Unit TcpClient.poller thirdNonce () [.connect, .start, .read (sevensRaw.take 100)]
      (sevensRaw.drop 100)).2.2 searchEnds_thirdNonce

/-- **The refused length stays.** A header that announces `2 ^ 32 - 1` bytes leaves the parser
in its error state, with that number in the field. -/
theorem refused_length_kept :
    Reachable (({} : FrameParser).feedBytes (List.replicate 21 0xFF)).1 ∧
      (({} : FrameParser).feedBytes (List.replicate 21 0xFF)).1.currentState =
        .errorMalformed ∧
      1024 * 1024 <
        (({} : FrameParser).feedBytes (List.replicate 21 0xFF)).1.expectedPayloadLength.toNat := by
  refine ⟨Reachable.fresh.feedBytes _, ?_, ?_⟩
  · decide +kernel
  · decide +kernel

end BlankChat.Network
