import BlankChat.Protocol.FrameParser

/-!
# The stream format

The reference reading of a byte stream: `splitStream` cuts it into the raw bytes
of its frames, one `cutFrame` after the other, and says how it ends, inside an
unfinished frame or at a malformed header. Nothing here knows about chunks; the
law that lets a reader resume (`splitStream_append`) is a fact about the format.
-/

namespace BlankChat.Protocol

open Lib FrameParser

/-- How a stream ends: with the bytes of an unfinished frame, or at a frame whose
header announces too long a payload (`m` starts with that header). -/
inductive Tail : Type where
  | unfinished (r : Bytes)
  | malformed (m : Bytes)
deriving DecidableEq

def splitLoop : ℕ → Bytes → List RawFrame × Tail
  | 0, s => ([], .unfinished s)
  | fuel + 1, s =>
      match cutFrame s with
      | .more => ([], .unfinished s)
      | .bad => ([], .malformed s)
      | .frame raw rest =>
          let r := splitLoop fuel rest
          (raw :: r.1, r.2)

/-- The raw frames of a stream, and how it ends. -/
def splitStream (s : Bytes) : List RawFrame × Tail := splitLoop s.length s

/-- The frame the raw bytes stand for, if their action byte is known. -/
def frameOf (raw : RawFrame) : Option Frame :=
  buildFrame (raw.getD 0 0) (headerMailbox raw) (raw.drop headerSize)

theorem tryExtractFrame_ready (raw : RawFrame) :
    (afterHeader (raw.take headerSize) (raw.drop headerSize) .frameReady).tryExtractFrame =
      (frameOf raw, {}) := by
  have hact : (raw.take headerSize).getD 0 0 = raw.getD 0 0 := getD_take _ _ _ _ (by decide)
  have hmb : headerMailbox (raw.take headerSize) = headerMailbox raw := by
    unfold headerMailbox
    rw [List.drop_take, List.take_take]
    rfl
  simp only [tryExtractFrame, afterHeader, ne_eq, not_true_eq_false, if_false, hact, hmb]
  rfl

/-! ## Cutting one frame -/

theorem cutFrame_frame_append {s raw rest : Bytes}
    (h : cutFrame s = .frame raw rest) :
    s = raw ++ rest ∧ headerSize ≤ raw.length ∧
      raw.length = headerSize + (headerLength raw).toNat ∧
      headerLength raw ≤ maxPayloadSize := by
  rw [cutFrame_eq] at h
  split at h
  · cases h
  · split at h
    · cases h
    · split at h
      · cases h
      · rename_i h₁ h₂ h₃
        injection h with hraw hrest
        subst hraw hrest
        have hlen : headerLength (s.take (headerSize + (headerLength s).toNat)) =
            headerLength s := by
          rw [← headerLength_take, List.take_take, min_eq_left (by omega),
            headerLength_take]
        refine ⟨(List.take_append_drop _ _).symm, ?_, ?_, ?_⟩
        · simp only [List.length_take]
          omega
        · rw [hlen, List.length_take]
          omega
        · rw [hlen]
          exact UInt32.not_lt.mp h₂

theorem cutFrame_bad_iff {s : Bytes} :
    cutFrame s = .bad ↔
      headerSize ≤ s.length ∧ maxPayloadSize < headerLength s := by
  rw [cutFrame_eq]
  by_cases h₁ : s.length < headerSize
  · simp only [h₁, if_true, reduceCtorEq, false_iff]
    omega
  · by_cases h₂ : maxPayloadSize < headerLength s
    · simp only [h₁, h₂, if_true, if_false, true_iff]
      exact ⟨by omega, trivial⟩
    · simp only [h₁, h₂, if_false, and_false, iff_false]
      split <;> simp

/-- What has been cut off does not depend on what follows. -/
theorem cutFrame_append {s t : Bytes} :
    (∀ {raw rest}, cutFrame s = .frame raw rest →
      cutFrame (s ++ t) = .frame raw (rest ++ t)) ∧
    (cutFrame s = .bad → cutFrame (s ++ t) = .bad) := by
  constructor
  · intro raw rest h
    obtain ⟨rfl, hle, hlen, hmax⟩ := cutFrame_frame_append h
    have hl : headerLength (raw ++ (rest ++ t)) = headerLength raw :=
      headerLength_append hle
    rw [List.append_assoc, cutFrame_eq, hl, if_neg (by simp; omega),
      if_neg (UInt32.not_lt.mpr hmax), if_neg (by simp; omega), ← hlen]
    simp
  · intro h
    obtain ⟨hle, hbad⟩ := cutFrame_bad_iff.mp h
    rw [cutFrame_bad_iff, headerLength_append hle]
    exact ⟨by simp; omega, hbad⟩

/-! ## Splitting -/

theorem splitLoop_fuel : ∀ {fuel : ℕ} {s : Bytes}, s.length ≤ fuel →
    splitLoop fuel s = splitStream s := by
  intro fuel
  induction fuel using Nat.strong_induction_on with
  | _ fuel ih =>
      intro s hs
      unfold splitStream
      cases hcut : cutFrame s with
      | more => cases fuel <;> cases s.length <;> simp [splitLoop, hcut]
      | bad =>
          have hpos := (cutFrame_bad_iff.mp hcut).1
          obtain ⟨n, hn⟩ : ∃ n, s.length = n + 1 :=
            ⟨s.length - 1, by unfold headerSize at hpos; omega⟩
          obtain ⟨m, rfl⟩ : ∃ m, fuel = m + 1 := ⟨fuel - 1, by omega⟩
          rw [hn, splitLoop, splitLoop, hcut]
      | frame raw rest =>
          obtain ⟨hs', hle, -, -⟩ := cutFrame_frame_append hcut
          have hlen : s.length = raw.length + rest.length := by
            rw [hs', List.length_append]
          have hpos : 0 < raw.length :=
            lt_of_lt_of_le (by decide : 0 < headerSize) hle
          obtain ⟨n, hn⟩ : ∃ n, s.length = n + 1 := ⟨s.length - 1, by omega⟩
          obtain ⟨m, rfl⟩ : ∃ m, fuel = m + 1 := ⟨fuel - 1, by omega⟩
          have h₁ := ih m (by omega) (s := rest) (by omega)
          have h₂ : splitLoop n rest = splitStream rest := by
            rcases Nat.lt_or_ge n (m + 1) with hlt | hge
            · exact ih n hlt (by omega)
            · obtain rfl : n = m := by omega
              exact h₁
          rw [hn, splitLoop, splitLoop, hcut]
          simp only [h₁, h₂]

theorem splitStream_more {s : Bytes} (h : cutFrame s = .more) :
    splitStream s = ([], .unfinished s) := by
  unfold splitStream
  cases s.length <;> simp [splitLoop, h]

theorem splitStream_bad {s : Bytes} (h : cutFrame s = .bad) :
    splitStream s = ([], .malformed s) := by
  rw [← splitLoop_fuel (Nat.le_succ _), splitLoop, h]

theorem splitStream_frame {s raw rest : Bytes}
    (h : cutFrame s = .frame raw rest) :
    splitStream s = (raw :: (splitStream rest).1, (splitStream rest).2) := by
  have hlen : s.length = raw.length + rest.length := by
    rw [(cutFrame_frame_append h).1, List.length_append]
  rw [← splitLoop_fuel (Nat.le_succ _), splitLoop, h]
  simp only [splitLoop_fuel (show rest.length ≤ s.length by omega)]

/-- Induction along the frames of a stream. -/
theorem stream_induction {motive : Bytes → Prop}
    (more : ∀ s, cutFrame s = .more → motive s)
    (bad : ∀ s, cutFrame s = .bad → motive s)
    (frame : ∀ s raw rest, cutFrame s = .frame raw rest → motive rest →
      motive s) : ∀ s, motive s := by
  intro s
  induction hn : s.length using Nat.strong_induction_on generalizing s with
  | _ n ih =>
      cases hcut : cutFrame s with
      | more => exact more s hcut
      | bad => exact bad s hcut
      | frame raw rest =>
          obtain ⟨hs, hle, -, -⟩ := cutFrame_frame_append hcut
          have hlen : s.length = raw.length + rest.length := by
            rw [hs, List.length_append]
          have hpos : 0 < raw.length :=
            lt_of_lt_of_le (by decide : 0 < headerSize) hle
          exact frame s raw rest hcut (ih rest.length (by omega) rest rfl)

/-- **Resuming.** Splitting a stream and more bytes is splitting the stream and
going on from its unfinished frame; nothing follows a malformed header. -/
theorem splitStream_append (s t : Bytes) :
    splitStream (s ++ t) =
      match (splitStream s).2 with
      | .unfinished r => ((splitStream s).1 ++ (splitStream (r ++ t)).1,
          (splitStream (r ++ t)).2)
      | .malformed m => ((splitStream s).1, .malformed (m ++ t)) := by
  induction s using stream_induction with
  | more s h => rw [splitStream_more h]; rfl
  | bad s h => rw [splitStream_bad h, splitStream_bad (cutFrame_append.2 h)]
  | frame s raw rest h ih =>
      rw [splitStream_frame h, splitStream_frame (cutFrame_append.1 h), ih]
      cases (splitStream rest).2 <;> rfl

theorem splitStream_unfinished {s r : Bytes}
    (h : (splitStream s).2 = .unfinished r) : Unfinished r := by
  induction s using stream_induction with
  | more s hs =>
      rw [splitStream_more hs] at h
      cases h
      exact cutFrame_more_iff.mp hs
  | bad s hs => rw [splitStream_bad hs] at h; cases h
  | frame s raw rest hs ih => rw [splitStream_frame hs] at h; exact ih h

theorem splitStream_malformed {s m : Bytes}
    (h : (splitStream s).2 = .malformed m) : cutFrame m = .bad := by
  induction s using stream_induction with
  | more s hs => rw [splitStream_more hs] at h; cases h
  | bad s hs => rw [splitStream_bad hs] at h; cases h; exact hs
  | frame s raw rest hs ih => rw [splitStream_frame hs] at h; exact ih h

/-- The bytes at the end of a stream that belong to no complete frame. -/
def Tail.bytes : Tail → Bytes
  | .unfinished r => r
  | .malformed m => m

/-- The split loses no byte. -/
theorem splitStream_flatten (s : Bytes) :
    (splitStream s).1.flatten ++ (splitStream s).2.bytes = s := by
  induction s using stream_induction with
  | more s h => rw [splitStream_more h]; rfl
  | bad s h => rw [splitStream_bad h]; rfl
  | frame s raw rest h ih =>
      rw [splitStream_frame h, List.flatten_cons, List.append_assoc, ih]
      exact (cutFrame_frame_append h).1.symm

/-! ## The frames of a stream, byte for byte -/

/-- The raw bytes of one complete frame. -/
structure IsFrame (raw : RawFrame) : Prop where
  header : headerSize ≤ raw.length
  length : raw.length = headerSize + (headerLength raw).toNat
  max : headerLength raw ≤ maxPayloadSize

theorem splitStream_isFrame (s : Bytes) : ∀ raw ∈ (splitStream s).1, IsFrame raw := by
  induction s using stream_induction with
  | more s h => simp [splitStream_more h]
  | bad s h => simp [splitStream_bad h]
  | frame s raw rest h ih =>
      rw [splitStream_frame h]
      intro x hx
      rcases List.mem_cons.mp hx with rfl | hx
      · obtain ⟨-, h₁, h₂, h₃⟩ := cutFrame_frame_append h
        exact ⟨h₁, h₂, h₃⟩
      · exact ih x hx

theorem getD_drop (l : Bytes) (n i : ℕ) : l.getD (n + i) 0 = (l.drop n).getD i 0 := by
  simp [List.getD_eq_getElem?_getD, List.getElem?_drop]

theorem header_eq {raw : Bytes} (h : headerSize ≤ raw.length) :
    raw = raw.getD 0 0 :: ((headerMailbox raw).toList ++
      (leBytes (headerLength raw) ++ raw.drop headerSize)) := by
  have hmb : (headerMailbox raw).toList = (raw.drop 1).take 16 := by
    apply ByteVec.ofSpan_toList
    simp only [List.length_take, List.length_drop, actionTypeSize, mailboxIdSize,
      headerSize] at h ⊢
    omega
  have hlen : leBytes (headerLength raw) = (raw.drop 17).take 4 := by
    simp only [headerLength, actionTypeSize, mailboxIdSize, leBytes_leUInt32, getD_drop raw 17 0,
      getD_drop raw 17 1, getD_drop raw 17 2, getD_drop raw 17 3]
    have hfour : 4 ≤ (raw.drop 17).length :=
      (Nat.le_sub_of_add_le' h).trans_eq List.length_drop.symm
    generalize raw.drop 17 = l at hfour
    rcases l with _ | ⟨a, _ | ⟨b, _ | ⟨c, _ | ⟨d, l⟩⟩⟩⟩
    all_goals first | rfl | simp at hfour
  have hsplit : ∀ n k, raw.drop n = (raw.drop n).take k ++ raw.drop (n + k) := by
    intro n k
    rw [← List.drop_drop, List.take_append_drop]
  rw [hmb, hlen]
  calc raw = raw.getD 0 0 :: raw.drop 1 := by
        cases raw with
        | nil => simp [headerSize] at h
        | cons b raw => rfl
    _ = raw.getD 0 0 :: ((raw.drop 1).take 16 ++ raw.drop 17) := by
        rw [← hsplit 1 16]
    _ = raw.getD 0 0 :: ((raw.drop 1).take 16 ++
          ((raw.drop 17).take 4 ++ raw.drop headerSize)) := by
        rw [show raw.drop headerSize = raw.drop (17 + 4) from rfl, ← hsplit 17 4]

theorem frameOf_fields {raw : RawFrame} {f : Frame} (h : frameOf raw = some f)
    (hact : f.action = .push ∨ f.action = .ack) :
    f.action.toByte = raw.getD 0 0 ∧ f.mailboxId = headerMailbox raw ∧
      f.payload = raw.drop headerSize := by
  unfold frameOf buildFrame at h
  split at h
  · next hp =>
      cases h
      exact ⟨hp.symm, rfl, rfl⟩
  · split at h
    · cases h
      rcases hact with hact | hact <;> cases hact
    · split at h
      · next hp =>
          cases h
          exact ⟨hp.symm, rfl, rfl⟩
      · split at h
        · cases h
          rcases hact with hact | hact <;> cases hact
        · split at h
          · cases h
            rcases hact with hact | hact <;> cases hact
          · cases h

/-- **A stored frame goes out as it came in.** Serialising the frame that was
built from the raw bytes of a PUSH or ACK gives those bytes. -/
theorem serialize_frameOf {raw : RawFrame} {f : Frame} (hraw : IsFrame raw)
    (h : frameOf raw = some f) (hact : f.action = .push ∨ f.action = .ack) :
    f.serialize = raw := by
  obtain ⟨hbyte, hmb, hpay⟩ := frameOf_fields h hact
  have hlen : f.payload.length = (headerLength raw).toNat := by
    rw [hpay, List.length_drop, hraw.length, Nat.add_sub_cancel_left]
  have hplen : f.payloadLength = headerLength raw := by
    rw [Frame.payloadLength, hlen, UInt32.ofNat_toNat]
  rw [serialize_eq (by rw [hlen]; exact UInt32.toNat_lt _), hbyte, hmb, hplen, hpay]
  exact (header_eq hraw.header).symm

/-! ## Frames written to a stream -/

theorem header_written (a : UInt8) (mailbox : MailboxID) (length : UInt32) (payload : Bytes) :
    headerMailbox (a :: (mailbox.toList ++ (leBytes length ++ payload))) = mailbox ∧
      headerLength (a :: (mailbox.toList ++ (leBytes length ++ payload))) = length ∧
      (a :: (mailbox.toList ++ (leBytes length ++ payload))).drop headerSize = payload := by
  have hmb : mailbox.toList.length = 16 := mailbox.toList_length
  have hdrop : (a :: (mailbox.toList ++ (leBytes length ++ payload))).drop 17 =
      leBytes length ++ payload := by
    rw [List.drop_succ_cons, List.drop_left' hmb]
  refine ⟨ByteVec.ofSpan_drop_append (a := [a]) mailbox rfl, ?_, ?_⟩
  · have hget : ∀ i, (a :: (mailbox.toList ++ (leBytes length ++ payload))).getD (17 + i) 0 =
        (leBytes length ++ payload).getD i 0 := fun i => by
      rw [getD_drop, hdrop]
    show leUInt32 (List.getD _ (17 + 0) 0) (List.getD _ (17 + 1) 0) (List.getD _ (17 + 2) 0)
      (List.getD _ (17 + 3) 0) = length
    rw [hget, hget, hget, hget]
    exact leUInt32_leBytes length
  · show (a :: (mailbox.toList ++ (leBytes length ++ payload))).drop (17 + 4) = payload
    rw [← List.drop_drop, hdrop, List.drop_left' (leBytes_length length)]

/-- **What the factory functions build**, from payloads of at most one mebibyte. -/
inductive Frame.Built : Frame → Prop
  | push (id : MailboxID) {payload : Payload} (h : payload.length ≤ maxPayloadSize.toNat) :
      Built (.createPush id payload)
  | poll (id : MailboxID) : Built (.createPoll id)
  | ack (id : MailboxID) {payload : Payload} (h : payload.length ≤ maxPayloadSize.toNat) :
      Built (.createAck id payload)
  | authChallenge (id : MailboxID) {challengeData : Payload}
      (h : challengeData.length ≤ maxPayloadSize.toNat) :
      Built (.createAuthChallenge id challengeData)
  | authResponse (id : MailboxID) {responseData : Payload}
      (h : responseData.length ≤ maxPayloadSize.toNat) :
      Built (.createAuthResponse id responseData)

/-- Padding keeps within the limit, and is done once only. -/
theorem padControl_length_le {data : Payload} (h : data.length ≤ maxPayloadSize.toNat) :
    (Frame.padControl data).length ≤ maxPayloadSize.toNat := by
  unfold Frame.padControl
  split
  · next hlt =>
      rw [List.length_append, List.length_replicate, Nat.add_sub_cancel' hlt.le]
      decide
  · exact h

theorem padControl_padControl (data : Payload) :
    Frame.padControl (Frame.padControl data) = Frame.padControl data :=
  if_neg (Nat.not_lt.mpr (paddedControlPayloadSize_le_padControl data))

theorem Frame.Built.payload_length_le {f : Frame} (h : f.Built) :
    f.payload.length ≤ maxPayloadSize.toNat := by
  cases h with
  | push id h => exact h
  | poll id =>
      rw [createPoll, List.length_replicate]
      decide
  | ack id h => exact h
  | authChallenge id h => exact padControl_length_le h
  | authResponse id h => exact padControl_length_le h

/-- The parser rebuilds a frame through the factory function of its action, which finds
nothing to change. -/
theorem Frame.Built.buildFrame {f : Frame} (h : f.Built) :
    FrameParser.buildFrame f.action.toByte f.mailboxId f.payload = some f := by
  cases h with
  | push id h => rfl
  | poll id => rfl
  | ack id h => rfl
  | authChallenge id h =>
      refine congrArg some ?_
      show createAuthChallenge id (padControl _) = createAuthChallenge id _
      rw [createAuthChallenge, padControl_padControl]
      rfl
  | authResponse id h =>
      refine congrArg some ?_
      show createAuthResponse id (padControl _) = createAuthResponse id _
      rw [createAuthResponse, padControl_padControl]
      rfl

theorem isFrame_serialize {f : Frame} (h : f.payload.length ≤ maxPayloadSize.toNat) :
    IsFrame f.serialize := by
  have hlt : f.payload.length < 2 ^ 32 := h.trans_lt (by decide)
  have hlen : f.payloadLength.toNat = f.payload.length := UInt32.toNat_ofNat_of_lt' hlt
  obtain ⟨-, hheader, -⟩ :=
    header_written f.action.toByte f.mailboxId f.payloadLength f.payload
  rw [serialize_eq hlt]
  have htotal : (f.action.toByte :: (f.mailboxId.toList ++
      (leBytes f.payloadLength ++ f.payload))).length = headerSize + f.payload.length := by
    have hmb : f.mailboxId.toList.length = 16 := f.mailboxId.toList_length
    rw [List.length_cons, List.length_append, List.length_append, leBytes_length, hmb]
    show _ = 21 + _
    omega
  refine ⟨?_, ?_, ?_⟩
  · rw [htotal]
    exact Nat.le_add_right _ _
  · rw [htotal, hheader, hlen]
  · rw [hheader, UInt32.le_iff_toNat_le, hlen]
    exact h

/-- A frame is read back as it was built. -/
theorem frameOf_serialize {f : Frame} (h : f.Built) : frameOf f.serialize = some f := by
  have hlt : f.payload.length < 2 ^ 32 := h.payload_length_le.trans_lt (by decide)
  obtain ⟨hmailbox, -, hpayload⟩ :=
    header_written f.action.toByte f.mailboxId f.payloadLength f.payload
  rw [frameOf, serialize_eq hlt, hmailbox, hpayload]
  exact h.buildFrame

theorem cutFrame_isFrame {raw : RawFrame} (h : IsFrame raw) (rest : Bytes) :
    cutFrame (raw ++ rest) = .frame raw rest := by
  have hle : headerSize ≤ (raw ++ rest).length := by
    rw [List.length_append]
    exact h.header.trans (Nat.le_add_right _ _)
  rw [cutFrame_eq, headerLength_append h.header, if_neg (Nat.not_lt.mpr hle),
    if_neg (UInt32.not_lt.mpr h.max), ← h.length, if_neg (by simp), List.take_left, List.drop_left]

theorem cutFrame_more_of_isFrame {b t : Bytes} (h : IsFrame (b ++ t)) (ht : t ≠ []) :
    cutFrame b = .more := by
  have hwhole := cutFrame_isFrame h []
  rw [List.append_nil] at hwhole
  cases hb : cutFrame b with
  | more => rfl
  | bad =>
      rw [cutFrame_append.2 hb] at hwhole
      cases hwhole
  | frame raw rest =>
      rw [cutFrame_append.1 hb] at hwhole
      have hrest : rest ++ t = [] := (Cut.frame.inj hwhole).2
      exact absurd (List.append_eq_nil_iff.mp hrest).2 ht

/-- **Raw frames one after the other are cut apart again.** -/
theorem splitStream_isFrames {raws : List RawFrame} (h : ∀ raw ∈ raws, IsFrame raw) :
    splitStream raws.flatten = (raws, .unfinished []) := by
  induction raws with
  | nil => rfl
  | cons raw raws ih =>
      rw [List.flatten_cons, splitStream_frame (cutFrame_isFrame (h raw List.mem_cons_self) _),
        ih fun raw' hraw' => h raw' (List.mem_cons_of_mem _ hraw')]

/-! ## What a parser accepts -/

/-- A fresh parser takes all bytes of the frame, reports no error and gives it back. -/
def Accepts (f : Frame) : Prop :=
  let fed := FrameParser.feedBytes {} f.serialize
  fed.2 = f.serialize.length ∧ fed.1.hasError = false ∧ fed.1.tryExtractFrame.1 = some f

/-- **A PUSH or ACK is accepted exactly if its payload is within the limit.** A longer one
is malformed, or its length does not fit the field. -/
theorem accepts_iff {f : Frame} (hact : f.action = .push ∨ f.action = .ack) :
    Accepts f ↔ f.payload.length ≤ maxPayloadSize.toNat := by
  have hfed : FrameParser.feedBytes {} f.serialize = ((fedState f.serialize).1,
      f.serialize.length - (fedState f.serialize).2.length) :=
    feedBytes_spec unfinished_nil f.serialize
  unfold Accepts
  rw [hfed]
  constructor
  · rintro ⟨-, herror, hextract⟩
    unfold fedState at herror hextract
    cases hcut : cutFrame f.serialize with
    | more =>
        rw [hcut] at hextract
        have hwaits : (onBytes f.serialize).currentState ≠ .frameReady := by
          unfold onBytes
          split <;> exact fun h => by cases h
        unfold tryExtractFrame at hextract
        rw [if_pos hwaits] at hextract
        cases hextract
    | bad =>
        rw [hcut] at herror
        cases herror
    | frame raw rest =>
        rw [hcut] at hextract
        dsimp only at hextract
        rw [tryExtractFrame_ready] at hextract
        obtain ⟨-, -, hpayload⟩ := frameOf_fields hextract hact
        obtain ⟨-, -, hlength, hmax⟩ := cutFrame_frame_append hcut
        rw [hpayload, List.length_drop, hlength, Nat.add_sub_cancel_left]
        exact UInt32.le_iff_toNat_le.mp hmax
  · intro hle
    have hbuilt : f.Built := by
      obtain ⟨action, mailboxId, payload⟩ := f
      rcases hact with rfl | rfl
      · exact .push mailboxId hle
      · exact .ack mailboxId hle
    have hcut := cutFrame_isFrame (isFrame_serialize hle) []
    rw [List.append_nil] at hcut
    unfold fedState
    rw [hcut]
    refine ⟨rfl, rfl, ?_⟩
    dsimp only
    rw [tryExtractFrame_ready]
    exact frameOf_serialize hbuilt

end BlankChat.Protocol
