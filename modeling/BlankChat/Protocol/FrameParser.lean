import BlankChat.Protocol.Frame

/-!
# The resumable stream parser — `frame_parser.h`, `frame_parser.cpp`

`FeedBytes` copies bytes into the header buffer, then into the payload buffer,
and stops as soon as a frame is complete or the header is malformed;
`TryExtractFrame` takes a complete frame out and resets the parser.

The model keeps the six fields of the class. `currentAction` is the raw action
byte: the source casts the first header byte to `ActionType`, an `enum class`
over `uint8_t`, which holds any byte, and only `TryExtractFrame` compares it with
the enumerators.
-/

namespace BlankChat.Protocol

open Lib

inductive ParserState : Type where
  | readingHeader
  | readingPayload
  | frameReady
  | errorMalformed
deriving DecidableEq, Repr

structure FrameParser : Type where
  currentState : ParserState := .readingHeader
  headerBuffer : Payload := []
  payloadBuffer : Payload := []
  currentAction : Option UInt8 := none
  currentMailbox : Option MailboxID := none
  expectedPayloadLength : UInt32 := 0
deriving DecidableEq

namespace FrameParser

/-- The length field of a header. -/
def headerLength (header : Bytes) : UInt32 :=
  let lengthOffset := actionTypeSize + mailboxIdSize
  leUInt32 (header.getD lengthOffset 0) (header.getD (lengthOffset + 1) 0)
    (header.getD (lengthOffset + 2) 0) (header.getD (lengthOffset + 3) 0)

/-- The mailbox field of a header. -/
def headerMailbox (header : Bytes) : MailboxID :=
  ByteVec.ofSpan mailboxIdSize ((header.drop actionTypeSize).take mailboxIdSize)

/-- `ParseHeader`. -/
def parseHeader (p : FrameParser) : FrameParser :=
  let p : FrameParser :=
    { p with
      currentAction := some (p.headerBuffer.getD 0 0)
      currentMailbox := some (headerMailbox p.headerBuffer)
      expectedPayloadLength := headerLength p.headerBuffer }
  if maxPayloadSize < p.expectedPayloadLength then
    { p with currentState := .errorMalformed }
  else if p.expectedPayloadLength = 0 then
    { p with currentState := .frameReady }
  else
    { p with currentState := .readingPayload }

/-- The guard of the `while` loop of `FeedBytes`. -/
def wantsBytes (p : FrameParser) : Bool :=
  p.currentState ≠ .frameReady && p.currentState ≠ .errorMalformed

/-- One pass through the body of the `while` loop of `FeedBytes`: the parser and
the data that is left. -/
def feedStep (p : FrameParser) (data : Bytes) : FrameParser × Bytes :=
  match p.currentState with
  | .readingHeader =>
      let needed := headerSize - p.headerBuffer.length
      let toCopy := min needed data.length
      let p := { p with headerBuffer := p.headerBuffer ++ data.take toCopy }
      (if p.headerBuffer.length = headerSize then p.parseHeader else p,
        data.drop toCopy)
  | .readingPayload =>
      let needed := p.expectedPayloadLength.toNat - p.payloadBuffer.length
      let toCopy := min needed data.length
      let p := { p with payloadBuffer := p.payloadBuffer ++ data.take toCopy }
      (if p.payloadBuffer.length = p.expectedPayloadLength.toNat then
          { p with currentState := .frameReady }
        else p,
        data.drop toCopy)
  | _ => (p, data)

/-- The `while` loop of `FeedBytes`. -/
def feedLoop : ℕ → FrameParser → Bytes → FrameParser × Bytes
  | 0, p, data => (p, data)
  | fuel + 1, p, data =>
      if data ≠ [] ∧ p.wantsBytes = true then
        feedLoop fuel (p.feedStep data).1 (p.feedStep data).2
      else (p, data)

/-- `FeedBytes`: the parser and the number of bytes consumed. Every pass of the
loop consumes a byte (`feedBytes_spec`), so a pass per byte is enough. -/
def feedBytes (p : FrameParser) (data : Bytes) : FrameParser × ℕ :=
  let r := feedLoop data.length p data
  (r.1, data.length - r.2.length)

/-- The `if` chain of `TryExtractFrame`: the factory function of the action; no
frame for an unknown action. -/
def buildFrame (action : UInt8) (mailbox : MailboxID) (payload : Payload) :
    Option Frame :=
  if action = ActionType.push.toByte then some (.createPush mailbox payload)
  else if action = ActionType.poll.toByte then some (.createPoll mailbox)
  else if action = ActionType.ack.toByte then some (.createAck mailbox payload)
  else if action = ActionType.authChallenge.toByte then
    some (.createAuthChallenge mailbox payload)
  else if action = ActionType.authResponse.toByte then
    some (.createAuthResponse mailbox payload)
  else none

/-- `TryExtractFrame`. An unknown action is consumed without a result: the
parser is reset all the same. -/
def tryExtractFrame (p : FrameParser) : Option Frame × FrameParser :=
  if p.currentState ≠ .frameReady then (none, p)
  else
    match p.currentAction, p.currentMailbox with
    | some action, some mailbox =>
        (buildFrame action mailbox p.payloadBuffer, {})
    | _, _ => (none, { p with currentState := .errorMalformed })

/-- `HasError`. -/
def hasError (p : FrameParser) : Bool := p.currentState = .errorMalformed

/-! ## The parser inside a frame

Between two calls of `FeedBytes` the parser has seen some bytes of an unfinished
frame. `onBytes r` is that state computed from the bytes alone; the fresh parser
is `onBytes []`. -/

/-- `r` does not complete a frame, and its header (if complete) is well formed. -/
def Unfinished (r : Bytes) : Prop :=
  headerSize ≤ r.length →
    headerLength r ≤ maxPayloadSize ∧
      r.length < headerSize + (headerLength r).toNat

instance (r : Bytes) : Decidable (Unfinished r) :=
  inferInstanceAs (Decidable (_ → _))

/-- The parser's fields once the header `h` is complete. -/
def afterHeader (h : Bytes) (payload : Bytes) (state : ParserState) :
    FrameParser where
  currentState := state
  headerBuffer := h
  payloadBuffer := payload
  currentAction := some (h.getD 0 0)
  currentMailbox := some (headerMailbox h)
  expectedPayloadLength := headerLength h

/-- The parser after the bytes `r` of an unfinished frame. -/
def onBytes (r : Bytes) : FrameParser :=
  if r.length < headerSize then { headerBuffer := r }
  else afterHeader (r.take headerSize) (r.drop headerSize) .readingPayload

theorem onBytes_nil : onBytes [] = {} := rfl

theorem unfinished_nil : Unfinished [] := by decide

theorem getD_take {α : Type} (l : List α) (n i : ℕ) (d : α) (h : i < n) :
    (l.take n).getD i d = l.getD i d := by
  simp only [List.getD_eq_getElem?_getD, List.getElem?_take_of_lt h]

theorem headerLength_take (r : Bytes) :
    headerLength (r.take headerSize) = headerLength r := by
  simp only [headerLength]
  rw [getD_take _ _ _ _ (by decide), getD_take _ _ _ _ (by decide),
    getD_take _ _ _ _ (by decide), getD_take _ _ _ _ (by decide)]

theorem headerLength_append {h t : Bytes} (hh : headerSize ≤ h.length) :
    headerLength (h ++ t) = headerLength h := by
  rw [← headerLength_take (h ++ t), List.take_append_of_le_length hh,
    headerLength_take]

theorem onBytes_wantsBytes (r : Bytes) : (onBytes r).wantsBytes = true := by
  unfold onBytes
  split <;> rfl

theorem parseHeader_eq {h : Bytes} :
    parseHeader { headerBuffer := h } =
      afterHeader h [] (if maxPayloadSize < headerLength h then .errorMalformed
        else if headerLength h = 0 then .frameReady else .readingPayload) := by
  simp only [parseHeader]
  split
  · rfl
  · split <;> rfl

/-! ## What `FeedBytes` does, by the bytes it has seen

`cutFrame` splits the first frame off a byte string: the reference reading of the
stream format. Feeding `d` to a parser that has seen `r` is decided by
`cutFrame (r ++ d)` alone. -/

/-- The first frame of a byte string: not complete, malformed, or its bytes and
the bytes after it. -/
inductive Cut : Type where
  | more
  | bad
  | frame (raw rest : Bytes)
deriving DecidableEq

/-- A 21-byte header whose last four bytes are the little-endian length of the
payload; malformed iff the length exceeds one mebibyte. -/
def cutFrame (s : Bytes) : Cut :=
  let length := littleEndian ((s.drop 17).take 4)
  if s.length < 21 then .more
  else if 1024 * 1024 < length then .bad
  else if s.length < 21 + length then .more
  else .frame (s.take (21 + length)) (s.drop (21 + length))

theorem headerLength_toNat (s : Bytes) :
    (headerLength s).toNat = littleEndian ((s.drop 17).take 4) := by
  have hget : ∀ i, s.getD (17 + i) 0 = (s.drop 17).getD i 0 := fun i => by
    simp [List.getD_eq_getElem?_getD, List.getElem?_drop]
  rw [← leUInt32_littleEndian, ← hget, ← hget, ← hget, ← hget]
  rfl

/-- The cut in terms of the parser's own reading of the header. -/
theorem cutFrame_eq (s : Bytes) :
    cutFrame s =
      if s.length < headerSize then .more
      else if maxPayloadSize < headerLength s then .bad
      else if s.length < headerSize + (headerLength s).toNat then .more
      else .frame (s.take (headerSize + (headerLength s).toNat))
        (s.drop (headerSize + (headerLength s).toNat)) := by
  have hmax : maxPayloadSize < headerLength s ↔
      1024 * 1024 < (headerLength s).toNat := by
    rw [UInt32.lt_iff_toNat_lt]
    rfl
  simp only [cutFrame, hmax, headerLength_toNat]
  rfl

theorem cutFrame_more_iff {s : Bytes} : cutFrame s = .more ↔ Unfinished s := by
  rw [cutFrame_eq]
  unfold Unfinished
  by_cases h₁ : s.length < headerSize
  · simp only [h₁, if_true, true_iff]
    intro h
    omega
  · by_cases h₂ : maxPayloadSize < headerLength s
    · simp only [h₁, h₂, if_true, if_false, reduceCtorEq, false_iff]
      intro h
      exact absurd (h (by omega)).1 (UInt32.not_le.mpr h₂)
    · by_cases h₃ : s.length < headerSize + (headerLength s).toNat
      · simp only [h₁, h₂, h₃, if_true, if_false, true_iff]
        exact fun _ => ⟨UInt32.not_lt.mp h₂, trivial⟩
      · simp only [h₁, h₂, h₃, if_false, reduceCtorEq, false_iff]
        intro h
        exact (h (by omega)).2.elim

/-- The state in which `FeedBytes` leaves a parser that has seen the bytes `s`
and the data it has not consumed. -/
def fedState (s : Bytes) : FrameParser × Bytes :=
  match cutFrame s with
  | .more => (onBytes s, [])
  | .bad => (afterHeader (s.take headerSize) [] .errorMalformed,
      s.drop headerSize)
  | .frame raw rest => (afterHeader (raw.take headerSize)
      (raw.drop headerSize) .frameReady, rest)

theorem feedLoop_nil (fuel : ℕ) (p : FrameParser) :
    feedLoop fuel p [] = (p, []) := by
  cases fuel <;> simp [feedLoop]

theorem feedLoop_stop {fuel : ℕ} {p : FrameParser} {data : Bytes}
    (h : p.wantsBytes = false) : feedLoop fuel p data = (p, data) := by
  cases fuel <;> simp [feedLoop, h]

theorem feedBytes_stop {p : FrameParser} (h : p.wantsBytes = false) (data : Bytes) :
    p.feedBytes data = (p, 0) := by
  unfold feedBytes
  rw [feedLoop_stop h]
  simp

theorem feedLoop_step {fuel : ℕ} {p : FrameParser} {data : Bytes}
    (hd : data ≠ []) (h : p.wantsBytes = true) :
    feedLoop (fuel + 1) p data =
      feedLoop fuel (p.feedStep data).1 (p.feedStep data).2 := by
  rw [feedLoop, if_pos ⟨hd, h⟩]

theorem onBytes_of_header {r : Bytes} (hr : headerSize ≤ r.length) :
    onBytes r = afterHeader (r.take headerSize) (r.drop headerSize)
      .readingPayload := by
  rw [onBytes, if_neg (by omega)]

/-- Inside the payload a single pass either takes all the data or completes the
frame. -/
theorem feedLoop_payload {fuel : ℕ} {r d : Bytes} (hr : headerSize ≤ r.length)
    (hu : Unfinished r) (hf : d.length ≤ fuel) :
    feedLoop fuel (onBytes r) d = fedState (r ++ d) := by
  obtain ⟨hmax, hlt⟩ := hu hr
  have hlen : headerLength (r ++ d) = headerLength r := headerLength_append hr
  by_cases hd : d = []
  · subst hd
    rw [feedLoop_nil, List.append_nil, fedState, cutFrame_more_iff.mpr hu]
  obtain ⟨n, rfl⟩ : ∃ n, fuel = n + 1 :=
    ⟨fuel - 1, by have := List.length_pos_of_ne_nil hd; omega⟩
  rw [feedLoop_step hd (onBytes_wantsBytes r)]
  have hpay : (r.drop headerSize).length = r.length - headerSize := by simp
  have hexp : (headerLength (r.take headerSize)).toNat = (headerLength r).toNat := by
    rw [headerLength_take]
  by_cases hfit : (r ++ d).length < headerSize + (headerLength r).toNat
  · -- the data runs out first
    have hcut : cutFrame (r ++ d) = .more := by
      rw [cutFrame_more_iff]
      exact fun _ => ⟨by rw [hlen]; exact hmax, by rw [hlen]; exact hfit⟩
    rw [List.length_append] at hfit
    have hmin : min ((headerLength r).toNat - (r.length - headerSize)) d.length
        = d.length := by omega
    have hstep : (onBytes r).feedStep d = (onBytes (r ++ d), []) := by
      have hr' : headerSize ≤ (r ++ d).length := by simp; omega
      rw [onBytes_of_header hr, onBytes_of_header hr']
      simp only [feedStep, afterHeader, hexp, hpay, hmin, List.take_length,
        List.drop_length, List.length_append]
      rw [if_neg (by omega), List.take_append_of_le_length hr,
        List.drop_append_of_le_length hr]
    rw [hstep, feedLoop_nil, fedState, hcut]
  · -- the frame is completed, possibly with data to spare
    have hcut : cutFrame (r ++ d) =
        .frame ((r ++ d).take (headerSize + (headerLength r).toNat))
          ((r ++ d).drop (headerSize + (headerLength r).toNat)) := by
      rw [cutFrame_eq, hlen, if_neg (by simp; omega),
        if_neg (UInt32.not_lt.mpr hmax), if_neg hfit]
    rw [List.length_append] at hfit
    have hmin : min ((headerLength r).toNat - (r.length - headerSize)) d.length
        = headerSize + (headerLength r).toNat - r.length := by omega
    have htake : ((r ++ d).take (headerSize + (headerLength r).toNat)).take
        headerSize = r.take headerSize := by
      rw [List.take_take, min_eq_left (by omega),
        List.take_append_of_le_length hr]
    have hdrop : ((r ++ d).take (headerSize + (headerLength r).toNat)).drop
        headerSize = r.drop headerSize ++
          d.take (headerSize + (headerLength r).toNat - r.length) := by
      rw [List.take_append, List.take_of_length_le (by omega),
        List.drop_append_of_le_length hr]
    have hrest : (r ++ d).drop (headerSize + (headerLength r).toNat) =
        d.drop (headerSize + (headerLength r).toNat - r.length) := by
      rw [List.drop_append, List.drop_of_length_le (by omega), List.nil_append]
    have hstep : (onBytes r).feedStep d =
        (afterHeader (r.take headerSize)
          (r.drop headerSize ++
            d.take (headerSize + (headerLength r).toNat - r.length)) .frameReady,
          d.drop (headerSize + (headerLength r).toNat - r.length)) := by
      rw [onBytes_of_header hr]
      simp only [feedStep, afterHeader, hexp, hpay, hmin, List.length_append,
        List.length_take]
      rw [if_pos (by omega)]
    rw [hstep, feedLoop_stop rfl, fedState, hcut]
    simp only [htake, hdrop, hrest]

/-- Inside the header a pass either takes all the data or completes the header,
which decides between an error, an empty frame and the payload. -/
theorem feedLoop_header {fuel : ℕ} {r d : Bytes} (hr : r.length < headerSize)
    (hf : d.length ≤ fuel) :
    feedLoop fuel (onBytes r) d = fedState (r ++ d) := by
  have hon : onBytes r = { headerBuffer := r } := by rw [onBytes, if_pos hr]
  by_cases hd : d = []
  · subst hd
    rw [feedLoop_nil, List.append_nil, fedState, cutFrame_eq, if_pos hr]
  obtain ⟨n, rfl⟩ : ∃ n, fuel = n + 1 :=
    ⟨fuel - 1, by have := List.length_pos_of_ne_nil hd; omega⟩
  rw [feedLoop_step hd (onBytes_wantsBytes r)]
  by_cases hfit : r.length + d.length < headerSize
  · have hmin : min (headerSize - r.length) d.length = d.length := by omega
    have hlt : (r ++ d).length < headerSize := by simpa using hfit
    have hstep : (onBytes r).feedStep d = (onBytes (r ++ d), []) := by
      rw [hon]
      simp only [feedStep, hmin, List.take_length, List.drop_length]
      rw [if_neg (by omega), onBytes, if_pos hlt]
    rw [hstep, feedLoop_nil, fedState, cutFrame_eq, if_pos hlt]
  have hmin : min (headerSize - r.length) d.length = headerSize - r.length := by
    omega
  have hle : headerSize ≤ (r ++ d).length := by simp; omega
  have htake : (r ++ d).take headerSize =
      r ++ d.take (headerSize - r.length) := by
    rw [List.take_append, List.take_of_length_le (by omega)]
  have hrest : (r ++ d).drop headerSize = d.drop (headerSize - r.length) := by
    rw [List.drop_append, List.drop_of_length_le (by omega), List.nil_append]
  have hhlen : ((r ++ d).take headerSize).length = headerSize := by simp; omega
  have hstep : (onBytes r).feedStep d =
      (parseHeader { headerBuffer := (r ++ d).take headerSize },
        (r ++ d).drop headerSize) := by
    rw [htake] at hhlen
    rw [hon, htake, hrest]
    simp only [feedStep, hmin]
    rw [if_pos hhlen]
  rw [hstep, parseHeader_eq, headerLength_take]
  by_cases hbad : maxPayloadSize < headerLength (r ++ d)
  · rw [if_pos hbad, feedLoop_stop rfl, fedState, cutFrame_eq, if_neg (by omega),
      if_pos hbad]
  rw [if_neg hbad]
  by_cases hzero : headerLength (r ++ d) = 0
  · rw [if_pos hzero, feedLoop_stop rfl, fedState, cutFrame_eq, if_neg (by omega),
      if_neg hbad, if_neg (by rw [hzero]; simpa using hle)]
    have hempty : ((r ++ d).take headerSize).drop headerSize = [] :=
      List.drop_of_length_le (le_of_eq hhlen)
    simp only [hzero, UInt32.toNat_zero, Nat.add_zero, List.take_take, min_self,
      hempty]
  · -- the header is complete: the next pass is inside the payload
    rw [if_neg hzero]
    have hu : Unfinished ((r ++ d).take headerSize) := by
      intro _
      rw [headerLength_take, hhlen]
      have hpos : 0 < (headerLength (r ++ d)).toNat :=
        Nat.pos_of_ne_zero fun h => hzero (UInt32.toNat_inj.mp h)
      exact ⟨UInt32.not_lt.mp hbad, by omega⟩
    have hstate : afterHeader ((r ++ d).take headerSize) [] .readingPayload =
        onBytes ((r ++ d).take headerSize) := by
      rw [onBytes_of_header (le_of_eq hhlen.symm), List.take_take, min_self,
        List.drop_of_length_le (le_of_eq hhlen)]
    have hfuel : ((r ++ d).drop headerSize).length ≤ n := by
      simp only [List.length_drop, List.length_append]
      omega
    rw [hstate, feedLoop_payload (le_of_eq hhlen.symm) hu hfuel,
      List.take_append_drop]

/-- **`FeedBytes` by the bytes seen.** A parser inside an unfinished frame `r`
that is fed `d` ends in the state the bytes `r ++ d` determine, having consumed
all of `d` but what is left of them. -/
theorem feedBytes_spec {r : Bytes} (hu : Unfinished r) (d : Bytes) :
    (onBytes r).feedBytes d =
      ((fedState (r ++ d)).1, d.length - (fedState (r ++ d)).2.length) := by
  have hloop : feedLoop d.length (onBytes r) d = fedState (r ++ d) := by
    by_cases hr : headerSize ≤ r.length
    · exact feedLoop_payload hr hu le_rfl
    · exact feedLoop_header (by omega) le_rfl
  simp only [feedBytes, hloop]

end FrameParser

end BlankChat.Protocol
