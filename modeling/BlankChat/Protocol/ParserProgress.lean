import BlankChat.Protocol.FrameParser

/-!
# The parser's buffers — `frame_parser.cpp`

The state, the two buffers and the expected length of a parser hang together (`Bounded`):
a parser that waits for bytes has room for at least one more. So every pass of the loop of
`FeedBytes` consumes something, and the loop ends by its own guard.

The states are those of arbitrary calls on arbitrary data, between two passes of the loop as
well as between two calls (`Reachable`).
-/

namespace BlankChat.Protocol

open Lib

namespace FrameParser

inductive Reachable : FrameParser → Prop where
  | fresh : Reachable {}
  | pass {p : FrameParser} (h : Reachable p) {data : Bytes} (hdata : data ≠ [])
      (hwants : p.wantsBytes = true) : Reachable (p.feedStep data).1
  | extract {p : FrameParser} (h : Reachable p) : Reachable p.tryExtractFrame.2

structure Bounded (p : FrameParser) : Prop where
  header_le : p.headerBuffer.length ≤ headerSize
  header_lt : p.currentState = .readingHeader → p.headerBuffer.length < headerSize
  payload_nil : p.currentState = .readingHeader → p.payloadBuffer = []
  payload_le : p.payloadBuffer.length ≤ p.expectedPayloadLength.toNat
  payload_lt : p.currentState = .readingPayload →
    p.payloadBuffer.length < p.expectedPayloadLength.toNat
  payload_small : p.payloadBuffer.length ≤ 1024 * 1024
  expected_le : p.currentState ≠ .errorMalformed → p.expectedPayloadLength.toNat ≤ 1024 * 1024
  parsed : p.currentState ≠ .readingHeader → p.currentAction ≠ none ∧ p.currentMailbox ≠ none

variable {p : FrameParser} {data : Bytes}

theorem bounded_fresh : Bounded {} where
  header_le := Nat.zero_le _
  header_lt := fun _ => by decide
  payload_nil := fun _ => rfl
  payload_le := Nat.zero_le _
  payload_lt := fun h => (by cases h)
  payload_small := Nat.zero_le _
  expected_le := fun _ => Nat.zero_le _
  parsed := fun h => absurd rfl h

/-- A complete header decides between an error, an empty frame and a payload, before any byte
of it was read. -/
theorem bounded_parseHeader (hheader : p.headerBuffer.length = headerSize)
    (hpayload : p.payloadBuffer = []) : p.parseHeader.Bounded := by
  have hmax : maxPayloadSize.toNat = 1024 * 1024 := rfl
  unfold parseHeader
  dsimp only
  split
  · -- the length that is refused stays in the field
    refine ⟨hheader.le, ?_, fun _ => hpayload, ?_, ?_, ?_, ?_, ?_⟩ <;> simp [hpayload]
  · next hle =>
      rw [UInt32.not_lt, UInt32.le_iff_toNat_le, hmax] at hle
      split
      · refine ⟨hheader.le, ?_, fun _ => hpayload, ?_, ?_, ?_, fun _ => hle, ?_⟩ <;>
          simp [hpayload]
      · next hne =>
          have hpos : 0 < (headerLength p.headerBuffer).toNat := by
            apply Nat.pos_of_ne_zero
            intro hzero
            exact hne (UInt32.toNat_inj.mp hzero)
          refine ⟨hheader.le, ?_, fun _ => hpayload, ?_, fun _ => ?_, ?_, fun _ => hle, ?_⟩
          · simp
          · simp [hpayload]
          · rw [hpayload]
            exact hpos
          · simp [hpayload]
          · simp

/-- **One pass of the loop** keeps the bounds and consumes at least one byte. -/
theorem Bounded.feedStep (h : p.Bounded) (hdata : data ≠ []) (hwants : p.wantsBytes = true) :
    (p.feedStep data).1.Bounded ∧ (p.feedStep data).2.length < data.length := by
  have hpos : 0 < data.length := List.length_pos_of_ne_nil hdata
  unfold FrameParser.feedStep
  cases hstate : p.currentState with
  | readingHeader =>
      have hlt := h.header_lt hstate
      have hnil := h.payload_nil hstate
      dsimp only
      refine ⟨?_, ?_⟩
      · split
        · next hfull => exact bounded_parseHeader hfull hnil
        · next hfull =>
            have hle : (p.headerBuffer ++
                data.take (min (headerSize - p.headerBuffer.length) data.length)).length ≤
                  headerSize := by
              rw [List.length_append, List.length_take]
              omega
            have hmax := h.expected_le (by simp [hstate])
            exact ⟨hle, fun _ => lt_of_le_of_ne hle hfull, fun _ => hnil, h.payload_le,
              fun hs => (by cases hs), h.payload_small, fun _ => hmax, fun hs => absurd rfl hs⟩
      · rw [List.length_drop]
        omega
  | readingPayload =>
      have hlt := h.payload_lt hstate
      have hmax := h.expected_le (by simp [hstate])
      dsimp only
      have hle : (p.payloadBuffer ++ data.take (min (p.expectedPayloadLength.toNat -
          p.payloadBuffer.length) data.length)).length ≤ p.expectedPayloadLength.toNat := by
        rw [List.length_append, List.length_take]
        omega
      have hparsed := h.parsed (by simp [hstate])
      refine ⟨?_, ?_⟩
      · split
        · refine ⟨h.header_le, ?_, ?_, hle, ?_, hle.trans hmax, fun _ => hmax,
            fun _ => hparsed⟩ <;> simp
        · next hmore =>
            exact ⟨h.header_le, fun hs => (by cases hs), fun hs => (by cases hs), hle,
              fun _ => lt_of_le_of_ne hle hmore, hle.trans hmax, fun _ => hmax,
              fun _ => hparsed⟩
      · rw [List.length_drop]
        omega
  | frameReady => simp [wantsBytes, hstate] at hwants
  | errorMalformed => simp [wantsBytes, hstate] at hwants

/-- A complete frame is taken out by a reset: the branch for a missing action is not
entered. -/
theorem Bounded.tryExtractFrame_ready (h : p.Bounded) (hready : p.currentState = .frameReady) :
    p.tryExtractFrame.2 = {} := by
  obtain ⟨haction, hmailbox⟩ := h.parsed (by simp [hready])
  obtain ⟨action, haction⟩ := Option.ne_none_iff_exists'.mp haction
  obtain ⟨mailbox, hmailbox⟩ := Option.ne_none_iff_exists'.mp hmailbox
  unfold tryExtractFrame
  rw [if_neg (not_not.mpr hready), haction, hmailbox]

theorem tryExtractFrame_other (h : p.currentState ≠ .frameReady) :
    p.tryExtractFrame = (none, p) := if_pos h

theorem Bounded.tryExtractFrame (h : p.Bounded) : p.tryExtractFrame.2.Bounded := by
  by_cases hready : p.currentState = .frameReady
  · rw [h.tryExtractFrame_ready hready]
    exact bounded_fresh
  · rw [tryExtractFrame_other hready]
    exact h

/-- **The buffers are bounded in every reachable state.** -/
theorem Reachable.bounded (h : Reachable p) : p.Bounded := by
  induction h with
  | fresh => exact bounded_fresh
  | pass _ hdata hwants ih => exact (ih.feedStep hdata hwants).1
  | extract _ ih => exact ih.tryExtractFrame

/-! ## The loop of `FeedBytes` -/

/-- The loop ends by its guard: a pass for each byte is enough. -/
theorem Reachable.feedLoop (h : Reachable p) {fuel : ℕ} (hfuel : data.length ≤ fuel) :
    Reachable (feedLoop fuel p data).1 ∧
      ((feedLoop fuel p data).2 = [] ∨ (feedLoop fuel p data).1.wantsBytes = false) ∧
      (feedLoop fuel p data).2.length ≤ data.length := by
  induction fuel generalizing p data with
  | zero =>
      obtain rfl := List.eq_nil_of_length_eq_zero (Nat.le_zero.mp hfuel)
      exact ⟨h, .inl rfl, le_rfl⟩
  | succ fuel ih =>
      by_cases hguard : data ≠ [] ∧ p.wantsBytes = true
      · obtain ⟨hdata, hwants⟩ := hguard
        have hless := (h.bounded.feedStep hdata hwants).2
        have hfuel' : (p.feedStep data).2.length ≤ fuel := by omega
        obtain ⟨hreach, hend, hle⟩ := ih (h.pass hdata hwants) hfuel'
        rw [feedLoop_step hdata hwants]
        exact ⟨hreach, hend, by omega⟩
      · rw [FrameParser.feedLoop, if_neg hguard]
        refine ⟨h, ?_, le_rfl⟩
        by_cases hdata : data = []
        · exact .inl hdata
        · exact .inr (Bool.eq_false_iff.mpr fun hwants => hguard ⟨hdata, hwants⟩)

theorem Reachable.feedLoop_fuel (h : Reachable p) {fuel fuel' : ℕ}
    (hfuel : data.length ≤ fuel) (hfuel' : data.length ≤ fuel') :
    FrameParser.feedLoop fuel p data = FrameParser.feedLoop fuel' p data := by
  induction fuel generalizing p data fuel' with
  | zero =>
      obtain rfl := List.eq_nil_of_length_eq_zero (Nat.le_zero.mp hfuel)
      rw [feedLoop_nil, feedLoop_nil]
  | succ fuel ih =>
      by_cases hdata : data = []
      · rw [hdata, feedLoop_nil, feedLoop_nil]
      cases hwants : p.wantsBytes with
      | false => rw [feedLoop_stop hwants, feedLoop_stop hwants]
      | true =>
          have hless := (h.bounded.feedStep hdata hwants).2
          obtain ⟨n, rfl⟩ : ∃ n, fuel' = n + 1 :=
            Nat.exists_eq_add_one_of_ne_zero (by omega)
          rw [feedLoop_step hdata hwants, feedLoop_step hdata hwants]
          exact ih (h.pass hdata hwants) (by omega) (by omega)

theorem Reachable.feedBytes (h : Reachable p) (data : Bytes) :
    Reachable (p.feedBytes data).1 := (h.feedLoop le_rfl).1

/-- Non-empty data is never left untouched by a parser that waits for bytes. -/
theorem Reachable.consumes (h : Reachable p) (hdata : data ≠ []) (hwants : p.wantsBytes = true) :
    1 ≤ (p.feedBytes data).2 := by
  obtain ⟨n, hn⟩ := Nat.exists_eq_add_one_of_ne_zero (List.length_pos_of_ne_nil hdata).ne'
  have hless := (h.bounded.feedStep hdata hwants).2
  have hfuel : (p.feedStep data).2.length ≤ n := by omega
  have hrest := ((h.pass hdata hwants).feedLoop hfuel).2.2
  show 1 ≤ data.length - (FrameParser.feedLoop data.length p data).2.length
  rw [hn, feedLoop_step hdata hwants]
  omega

end FrameParser

end BlankChat.Protocol
