import BlankChat.Network.WriteQueues

/-!
# The proof of work — `TcpClient::HandleAuthChallenge`, `TcpSession::HandleAuthResponse`

The relay sends 32 random bytes in a frame that is padded; the client looks for a nonce,
from 1 upwards, and returns it in a frame that is padded as well. Each side puts the bytes
that are hashed together by itself, from a payload that is longer than what it needs.

Main result: `proof_of_work_agrees`.
-/

namespace BlankChat.Network

open Lib BlankChat.Core Crypto Protocol FrameParser

/-! ## One frame in pieces -/

/-- The rule for a frame that comes in pieces. `E b` holds while only `b` has come, `A` when
the frame was handled. -/
theorem in_pieces {σ ι : Type} {step : σ → ι → σ} {bytes : ι → Bytes} {E : Bytes → σ → Prop}
    {A : σ → Prop} {K : ι → Prop} {raw : RawFrame} (hraw : IsFrame raw)
    (hmore : ∀ s e b, K e → Unfinished b → E b s → cutFrame (b ++ bytes e) = .more →
      E (b ++ bytes e) (step s e))
    (hlast : ∀ s e b, K e → Unfinished b → E b s → b ++ bytes e = raw → bytes e ≠ [] →
      A (step s e))
    (hafter : ∀ s e, K e → A s → bytes e = [] → A (step s e))
    {s : σ} (hs : E [] s) {events : List ι} (hK : ∀ e ∈ events, K e)
    (hbytes : events.flatMap bytes = raw) : A (events.foldl step s) := by
  have hdone : ∀ (events : List ι) (s : σ), (∀ e ∈ events, K e) → A s →
      events.flatMap bytes = [] → A (events.foldl step s) := by
    intro events
    induction events with
    | nil => exact fun s _ h _ => h
    | cons e events ih =>
        intro s hK h hnil
        rw [List.flatMap_cons, List.append_eq_nil_iff] at hnil
        have hstep := hafter s e (hK e List.mem_cons_self) h hnil.1
        exact ih _ (fun e' he' => hK e' (List.mem_cons_of_mem e he')) hstep hnil.2
  suffices hall : ∀ (events : List ι) (b : Bytes) (s : σ), (∀ e ∈ events, K e) →
      cutFrame b = .more → E b s → b ++ events.flatMap bytes = raw → A (events.foldl step s) from
    hall events [] s hK rfl hs hbytes
  intro events
  induction events with
  | nil =>
      -- the frame cannot be unfinished and complete
      intro b s _ hb _ heq
      have hwhole := cutFrame_isFrame hraw []
      rw [List.append_nil, ← heq, List.flatMap_nil, List.append_nil, hb] at hwhole
      cases hwhole
  | cons e events ih =>
      intro b s hK hb h heq
      have hKe := hK e List.mem_cons_self
      have hKs : ∀ e' ∈ events, K e' := fun e' he' => hK e' (List.mem_cons_of_mem e he')
      have hu := cutFrame_more_iff.mp hb
      rw [List.flatMap_cons, ← List.append_assoc] at heq
      by_cases hrest : events.flatMap bytes = []
      · rw [hrest, List.append_nil] at heq
        by_cases hnil : bytes e = []
        · rw [hnil, List.append_nil] at heq
          have hwhole := cutFrame_isFrame hraw []
          rw [List.append_nil, ← heq, hb] at hwhole
          cases hwhole
        · exact hdone events _ hKs (hlast s e b hKe hu h heq hnil) hrest
      · have hmore' := cutFrame_more_of_isFrame (heq ▸ hraw) hrest
        exact ih _ _ hKs hmore' (hmore s e b hKe hu h hmore') heq

/-! ## The search -/

theorem succ_add_ofNat (nonce : UInt64) (i : ℕ) :
    nonce + 1 + UInt64.ofNat (i + 1) = nonce + UInt64.ofNat (i + 1 + 1) := by
  rw [UInt64.ofNat_add (i + 1) 1, UInt64.add_assoc, UInt64.add_comm 1]
  rfl

section Search

variable {S : Sodium} {challenge : Bytes} {passes : ℕ} {nonce n : UInt64}

theorem searchNonce_eq_some (h : searchNonce S challenge passes nonce = some n) :
    TcpSession.proofOfWork S challenge (nonceBytes n) = true ∧
      ∃ j < passes, n = nonce + UInt64.ofNat (j + 1) ∧
        ∀ i < j, TcpSession.proofOfWork S challenge
          (nonceBytes (nonce + UInt64.ofNat (i + 1))) = false := by
  induction passes generalizing nonce with
  | zero => cases h
  | succ passes ih =>
      rw [searchNonce] at h
      split at h
      · next hfound =>
          obtain rfl := Option.some.inj h
          refine ⟨hfound, 0, Nat.succ_pos _, rfl, ?_⟩
          intro i hi
          cases hi
      · next hnot =>
          obtain ⟨hpow, j, hj, hn, hbefore⟩ := ih h
          refine ⟨hpow, j + 1, Nat.succ_lt_succ hj, hn.trans (succ_add_ofNat nonce j), ?_⟩
          intro i hi
          cases i with
          | zero => exact Bool.eq_false_iff.mpr hnot
          | succ i =>
              rw [← succ_add_ofNat]
              exact hbefore i (Nat.lt_of_succ_lt_succ hi)

theorem searchNonce_eq_none (h : searchNonce S challenge passes nonce = none) {i : ℕ}
    (hi : i < passes) :
    TcpSession.proofOfWork S challenge (nonceBytes (nonce + UInt64.ofNat (i + 1))) = false := by
  induction passes generalizing nonce i with
  | zero => cases hi
  | succ passes ih =>
      rw [searchNonce] at h
      split at h
      · cases h
      · next hnot =>
          cases i with
          | zero => exact Bool.eq_false_iff.mpr hnot
          | succ i =>
              rw [← succ_add_ofNat]
              exact ih h (Nat.lt_of_succ_lt_succ hi)

/-- The place of a nonce in the order 1, 2, ..., of the search; 0 is the last. -/
theorem ofNat_place (m : UInt64) : 0 + UInt64.ofNat ((m - 1).toNat + 1) = m := by
  rw [UInt64.ofNat_add, UInt64.ofNat_toNat, UInt64.zero_add]
  exact UInt64.sub_add_cancel m 1

theorem place_ofNat {j : ℕ} (hj : j < 2 ^ 64) :
    (0 + UInt64.ofNat (j + 1) - 1).toNat = j := by
  rw [UInt64.zero_add, UInt64.ofNat_add]
  show (UInt64.ofNat j + 1 - 1).toNat = j
  rw [UInt64.add_sub_cancel, UInt64.toNat_ofNat_of_lt' hj]

/-- `n` is the first nonce, from 1 upwards, that has the property. -/
structure FirstNonce (S : Sodium) (challenge : Bytes) (n : UInt64) : Prop where
  qualifies : TcpSession.proofOfWork S challenge (nonceBytes n) = true
  first : ∀ m : UInt64, m - 1 < n - 1 →
    TcpSession.proofOfWork S challenge (nonceBytes m) = false

/-- **The search ends with the first nonce if there is one.** -/
theorem searchNonce_first (hm : ∃ m, TcpSession.proofOfWork S challenge (nonceBytes m) = true) :
    ∃ n, searchNonce S challenge (2 ^ 64) 0 = some n ∧ FirstNonce S challenge n := by
  generalize hpasses : 2 ^ 64 = passes
  cases h : searchNonce S challenge passes 0 with
  | none =>
      obtain ⟨m, hm⟩ := hm
      have hnot := searchNonce_eq_none h (hpasses ▸ (m - 1).toNat_lt)
      rw [ofNat_place, hm] at hnot
      cases hnot
  | some n =>
      obtain ⟨hpow, j, hj, rfl, hbefore⟩ := searchNonce_eq_some h
      refine ⟨_, rfl, hpow, ?_⟩
      intro m hm
      rw [UInt64.lt_iff_toNat_lt, place_ofNat (hpasses ▸ hj)] at hm
      have hnot := hbefore _ hm
      rwa [ofNat_place] at hnot

/-- In the order of the numbers: nothing between 0 and a nonce other than 0, and 0 only if
there is nothing else. -/
theorem FirstNonce.least (h : FirstNonce S challenge n) :
    (∀ m : UInt64, 0 < m → m < n → TcpSession.proofOfWork S challenge (nonceBytes m) = false) ∧
      (n = 0 → ∀ m : UInt64, m ≠ 0 →
        TcpSession.proofOfWork S challenge (nonceBytes m) = false) := by
  constructor
  · intro m hpos hlt
    apply h.first
    rw [UInt64.lt_iff_toNat_lt] at hpos hlt ⊢
    have hn := n.toNat_lt
    simp only [UInt64.toNat_sub, UInt64.toNat_ofNat, Nat.reducePow, Nat.reduceMod] at hpos ⊢
    omega
  · rintro rfl m hm
    apply h.first
    have hpos : m.toNat ≠ 0 := fun hzero => hm (UInt64.toNat_inj.mp hzero)
    have hlt := m.toNat_lt
    rw [UInt64.lt_iff_toNat_lt]
    simp only [UInt64.toNat_sub, UInt64.toNat_ofNat, Nat.reducePow, Nat.reduceMod]
    omega

end Search

/-! ### A hash with a later nonce -/

/-- The transparent library with a hash that only depends on the last eight bytes: a nonce
qualifies if its lowest byte is 3. -/
def thirdNonce : Sodium :=
  { transparent with
    cryptoGenerichash := fun outLen m =>
      transparentHash outLen [if m.getD (m.length - 8) 0 = 3 then 0 else 1] }

theorem proofOfWork_thirdNonce (challenge : Bytes) (nonce : UInt64) :
    TcpSession.proofOfWork thirdNonce challenge (nonceBytes nonce) = decide (nonce.toUInt8 = 3) := by
  have hlength : (challenge ++ nonceBytes nonce).length - 8 = challenge.length := by
    simp [nonceBytes]
  have hbyte : (challenge ++ nonceBytes nonce).getD challenge.length 0 = nonce.toUInt8 := by
    rw [List.getD_eq_getElem?_getD, List.getElem?_append_right le_rfl, Nat.sub_self]
    exact congrArg UInt64.toUInt8 UInt64.shiftRight_zero
  have hhash : TcpSession.proofOfWork thirdNonce challenge (nonceBytes nonce) =
      (ascii "000").isPrefixOf (encodeHex
        (transparentHash 16 [if nonce.toUInt8 = 3 then 0 else 1]).toList) := by
    show (ascii "000").isPrefixOf (encodeHex (transparentHash 16
      [if (challenge ++ nonceBytes nonce).getD ((challenge ++ nonceBytes nonce).length - 8) 0 = 3
        then 0 else 1]).toList) = _
    rw [hlength, hbyte]
  rw [hhash]
  split
  · next h => rw [decide_eq_true h]; decide
  · next h => rw [decide_eq_false h]; decide

theorem searchNonce_thirdNonce (challenge : Bytes) :
    searchNonce thirdNonce challenge (2 ^ 64) 0 = some 3 := by
  have hpasses : 2 ^ 64 = 2 ^ 64 - 3 + 3 := rfl
  rw [hpasses]
  simp only [searchNonce, proofOfWork_thirdNonce]
  rfl

/-! ## The session -/

namespace TcpSession

/-- The event is no failure. -/
def Succeeds : SocketEvent → Prop
  | .read _ => True
  | .readFailed => False
  | .written errorCode => errorCode = false

variable {H : Type} [FrameHandler H] {S : Sodium} {challenge : Bytes}

/-- The session is open and waits, the parser having seen `b` of the answer. -/
structure Expecting (challenge b : Bytes) (sh : TcpSession × H) : Prop where
  state : sh.1.state = .unauthenticated
  current : sh.1.currentChallenge = challenge
  isOpen : sh.1.socketOpen = true
  reading : sh.1.readPending = true
  parser : sh.1.parser = onBytes b

/-- The answer was accepted, and the session goes on reading. -/
structure Welcomed (sh : TcpSession × H) : Prop where
  state : sh.1.state = .authenticated
  isOpen : sh.1.socketOpen = true
  reading : sh.1.readPending = true
  parser : sh.1.parser = onBytes []

theorem onWritten_open (s : TcpSession) : (s.onWritten false).socketOpen = s.socketOpen := by
  unfold onWritten processWriteQueue
  dsimp only
  split
  · rw [if_neg Bool.false_ne_true]
    split <;> rfl
  · rfl

theorem onRead_more {sh : TcpSession × H} {b d : Bytes} (hread : sh.1.readPending = true)
    (hopen : sh.1.socketOpen = true) (hparser : sh.1.parser = onBytes b) (hu : Unfinished b)
    (hmore : cutFrame (b ++ d) = .more) :
    onRead S sh d = ({ sh.1 with parser := onBytes (b ++ d), readPending := true }, sh.2) := by
  have hp : (reader S).parser ({ sh.1 with readPending := false }, sh.2) = onBytes b := hparser
  rw [onRead, if_pos hread, Reader.readChunk_more (reader_lawful S) hp hu hmore]
  show (({ sh.1 with parser := onBytes (b ++ d), readPending := sh.1.socketOpen } : TcpSession),
    sh.2) = _
  rw [hopen]

theorem onRead_answer {sh : TcpSession × H} {b d : Bytes} {f : Frame}
    (h : Expecting challenge b sh) (hu : Unfinished b) (hframe : IsFrame (b ++ d))
    (hf : frameOf (b ++ d) = some f) (hvalid : ValidAuth S challenge f) :
    Welcomed (onRead S sh d) := by
  obtain ⟨s, hd⟩ := sh
  obtain ⟨hstate, rfl, hopen, hread, hparser⟩ := h
  have hp : (reader S).parser ({ s with readPending := false }, hd) = onBytes b := hparser
  have hraw : (reader S).onRaw ({ s with readPending := false }, hd) (b ++ d) =
      ({ ({ s with readPending := false } : TcpSession).record (.extracted f) with
        state := .authenticated }, hd) := by
    unfold Reader.onRaw
    rw [hf]
    show (processExtractedFrame S _ f).1 = _
    unfold processExtractedFrame
    dsimp only
    rw [show (TcpSession.record { s with readPending := false } _).state = _ from hstate]
    dsimp only
    have hrecorded : ValidAuth S (({ s with readPending := false } : TcpSession).record
        (.extracted f)).currentChallenge f := hvalid
    rw [handleAuthResponse_valid hrecorded]
  have hstill : (reader S).isOpen ((reader S).onRaw ({ s with readPending := false }, hd)
      (b ++ d)) = true := by
    rw [hraw]
    exact hopen
  rw [onRead, if_pos hread, Reader.readChunk_last (reader_lawful S) hp hu hframe hstill, hraw]
  exact ⟨rfl, hopen, hopen, rfl⟩

/-- **A session accepts a valid answer**, in whatever pieces it comes. -/
theorem run_welcomed {challenge : ByteVec challengSize} {f : Frame} (hbuilt : f.Built)
    (hvalid : ValidAuth S challenge.toList f) (h : H) {events : List SocketEvent}
    (hok : ∀ e ∈ events, Succeeds e) (hbytes : events.flatMap readBytes = f.serialize) :
    Welcomed (run S (start challenge, h) events) := by
  have hframe := isFrame_serialize hbuilt.payload_length_le
  refine in_pieces (E := Expecting challenge.toList) hframe ?_ ?_ ?_ ?_ hok hbytes
  · intro sh e b hK hu hexp hmore
    cases e with
    | read chunk =>
        have hmore : cutFrame (b ++ chunk) = .more := hmore
        show Expecting _ (b ++ chunk) (onRead S sh chunk)
        rw [onRead_more hexp.reading hexp.isOpen hexp.parser hu hmore]
        exact ⟨hexp.state, hexp.current, hexp.isOpen, rfl, rfl⟩
    | readFailed => exact hK.elim
    | written errorCode =>
        obtain rfl : errorCode = false := hK
        obtain ⟨-, -, -, hstate, hcurrent, hread, hparser, -⟩ := onWritten_quiet sh.1 false
        show Expecting _ (b ++ []) (sh.1.onWritten false, sh.2)
        rw [List.append_nil]
        exact ⟨hstate.trans hexp.state, hcurrent.trans hexp.current,
          (onWritten_open sh.1).trans hexp.isOpen, hread.trans hexp.reading,
          hparser.trans hexp.parser⟩
  · intro sh e b hK hu hexp heq hne
    cases e with
    | read chunk =>
        have heq : b ++ chunk = f.serialize := heq
        exact onRead_answer hexp hu (heq ▸ hframe) (heq ▸ frameOf_serialize hbuilt) hvalid
    | readFailed => exact absurd rfl hne
    | written errorCode => exact absurd rfl hne
  · intro sh e hK hwelcomed hnil
    cases e with
    | read chunk =>
        obtain rfl : chunk = [] := hnil
        show Welcomed (onRead S sh [])
        rw [onRead_more hwelcomed.reading hwelcomed.isOpen hwelcomed.parser unfinished_nil rfl]
        exact ⟨hwelcomed.state, hwelcomed.isOpen, rfl, rfl⟩
    | readFailed => exact hK.elim
    | written errorCode =>
        obtain rfl : errorCode = false := hK
        obtain ⟨-, -, -, hstate, -, hread, hparser, -⟩ := onWritten_quiet sh.1 false
        exact ⟨hstate.trans hwelcomed.state, (onWritten_open sh.1).trans hwelcomed.isOpen,
          hread.trans hwelcomed.reading, hparser.trans hwelcomed.parser⟩
  · exact ⟨rfl, rfl, rfl, rfl, rfl⟩

end TcpSession

/-! ## The client -/

namespace TcpClient

variable {σ : Type}

/-- The bytes that an event brings. -/
def readBytes : NetworkEvent σ → Bytes
  | .read chunk => chunk
  | _ => []

/-- The connection stays as it is, and no read fails. -/
def Goes : NetworkEvent σ → Prop
  | .tick | .read _ | .written _ | .command _ => True
  | .connect | .start | .readFailed _ | .disconnect => False

/-- The client is connected and waits, the parser having seen `b` of the challenge. -/
structure Expecting (b : Bytes) (s : TcpClient σ) : Prop where
  unknown : s.isAuthenticated = false
  running : s.searching = false
  reading : 0 < s.readsPending
  parser : s.parser = onBytes b
  silent : enqueuedIn s.trace = []

/-- The client has queued its answer first of all, and goes on reading. -/
structure Answered (raw : RawFrame) (s : TcpClient σ) : Prop where
  known : s.isAuthenticated = true
  running : s.searching = false
  reading : 0 < s.readsPending
  parser : s.parser = onBytes []
  answer : ∃ rest, enqueuedIn s.trace = raw :: rest

variable {A : Application σ} {S : Sodium} {s : TcpClient σ} {b d : Bytes} {raw : RawFrame}

theorem onRead_more (hready : 0 < s.readsPending)
    (hparser : s.parser = onBytes b) (hu : Unfinished b) (hmore : cutFrame (b ++ d) = .more) :
    s.onRead A S d = { s.record (.bytes d) with parser := onBytes (b ++ d) } := by
  have hp : (reader A S).parser (s.record (.bytes d)) = onBytes b := hparser
  rw [onRead, if_pos hready, Reader.readChunk_more (reader_lawful A S) hp hu hmore]
  rfl

theorem enqueuedIn_record (e : ClientEvent) (he : enqueuedIn [e] = []) :
    enqueuedIn (s.record e).trace = enqueuedIn s.trace := by
  show enqueuedIn (s.trace ++ [e]) = _
  rw [enqueuedIn_append, he, List.append_nil]

theorem onFrame_challenge {f resp : Frame} (hs : s.searching = false)
    (haction : f.action = .authChallenge) (hsize : challengSize ≤ f.payload.length)
    (hresp : authResponse S f.payload = some resp) :
    onFrame A S s f =
      ({ (s.record (.extracted f)).record (.responded resp.serialize) with
        writeQueue := s.writeQueue ++ [resp.serialize]
        started := s.started ++ newWrites s.writeInProgress (s.writeQueue ++ [resp.serialize])
        writeInProgress := true
        isAuthenticated := true }, true) := by
  have hanswer : (s.record (.extracted f)).handleAuthChallenge S f.payload =
      { (s.record (.extracted f)).record (.responded resp.serialize) with
        writeQueue := s.writeQueue ++ [resp.serialize]
        started := s.started ++ newWrites s.writeInProgress (s.writeQueue ++ [resp.serialize])
        writeInProgress := true } := by
    rw [handleAuthChallenge, if_neg (Nat.not_lt.mpr hsize), hresp]
    exact enqueue_eq _ _
  unfold onFrame
  simp only [hanswer, if_pos haction]
  exact if_neg (by simp [record, hs])

theorem onRead_challenge {f resp : Frame} (h : Expecting b s) (hu : Unfinished b)
    (hframe : IsFrame (b ++ d)) (hf : frameOf (b ++ d) = some f)
    (haction : f.action = .authChallenge) (hsize : challengSize ≤ f.payload.length)
    (hresp : authResponse S f.payload = some resp) :
    Answered resp.serialize (s.onRead A S d) := by
  have hp : (reader A S).parser (s.record (.bytes d)) = onBytes b := h.parser
  have hraw : (reader A S).onRaw (s.record (.bytes d)) (b ++ d) =
      { (((s.record (.bytes d)).record (.extracted f)).record (.responded resp.serialize)) with
        writeQueue := s.writeQueue ++ [resp.serialize]
        started := s.started ++ newWrites s.writeInProgress (s.writeQueue ++ [resp.serialize])
        writeInProgress := true
        isAuthenticated := true } := by
    unfold Reader.onRaw
    rw [hf]
    have hs : (s.record (.bytes d)).searching = false := h.running
    exact congrArg Prod.fst (onFrame_challenge hs haction hsize hresp)
  have hstill : (reader A S).isOpen ((reader A S).onRaw (s.record (.bytes d)) (b ++ d)) = true := by
    rw [hraw]
    show (!s.searching) = true
    rw [h.running]
    rfl
  rw [onRead, if_pos h.reading, Reader.readChunk_last (reader_lawful A S) hp hu hframe hstill, hraw]
  refine ⟨rfl, h.running, h.reading, rfl, [], ?_⟩
  show enqueuedIn (s.trace ++ [_] ++ [_] ++ [_]) = _
  simp only [enqueuedIn_append, h.silent]
  rfl

theorem Expecting.step (h : Expecting b s) {e : NetworkEvent σ} (he : Goes e) (hu : Unfinished b)
    (hmore : cutFrame (b ++ readBytes e) = .more) :
    Expecting (b ++ readBytes e) (s.step A S e) := by
  unfold TcpClient.step
  rw [if_neg (by rw [h.running]; exact Bool.false_ne_true)]
  cases e with
  | connect => exact he.elim
  | start => exact he.elim
  | readFailed => exact he.elim
  | disconnect => exact he.elim
  | read chunk =>
      have hmore : cutFrame (b ++ chunk) = .more := hmore
      show Expecting (b ++ chunk) (s.onRead A S chunk)
      rw [onRead_more h.reading h.parser hu hmore]
      exact ⟨h.unknown, h.running, h.reading, rfl,
        (enqueuedIn_record _ rfl).trans h.silent⟩
  | tick =>
      show Expecting (b ++ []) (if s.engineStarted then s.doCbrTick A else s)
      rw [List.append_nil]
      split
      · unfold doCbrTick
        rw [if_pos (by simp [record, h.unknown])]
        exact ⟨h.unknown, h.running, h.reading, h.parser,
          (enqueuedIn_record _ rfl).trans h.silent⟩
      · exact h
  | written errorCode =>
      obtain ⟨hauth, hsearching, -, hread, hparser⟩ := onWritten_fields s errorCode
      show Expecting (b ++ []) (s.onWritten errorCode)
      rw [List.append_nil]
      exact ⟨hauth.trans h.unknown, hsearching.trans h.running,
        hread ▸ h.reading, hparser.trans h.parser,
        (congrArg enqueuedIn (onWritten_trace s errorCode)).trans h.silent⟩
  | command f =>
      show Expecting (b ++ []) { s with app := f s.app }
      rw [List.append_nil]
      exact ⟨h.unknown, h.running, h.reading, h.parser, h.silent⟩

theorem Answered.step (h : Answered raw s) {e : NetworkEvent σ} (he : Goes e)
    (hnil : readBytes e = []) : Answered raw (s.step A S e) := by
  obtain ⟨rest, hrest⟩ := h.answer
  unfold TcpClient.step
  rw [if_neg (by rw [h.running]; exact Bool.false_ne_true)]
  cases e with
  | connect => exact he.elim
  | start => exact he.elim
  | readFailed => exact he.elim
  | disconnect => exact he.elim
  | read chunk =>
      obtain rfl : chunk = [] := hnil
      show Answered raw (s.onRead A S [])
      rw [onRead_more h.reading h.parser unfinished_nil rfl]
      exact ⟨h.known, h.running, h.reading, rfl, rest,
        (enqueuedIn_record _ rfl).trans hrest⟩
  | tick =>
      show Answered raw (if s.engineStarted then s.doCbrTick A else s)
      split
      · unfold doCbrTick
        rw [if_neg (by simp [record, h.known])]
        dsimp only
        rw [enqueue_eq]
        refine ⟨h.known, h.running, h.reading, h.parser,
          rest ++ [(A.frameProvider s.app).1.serialize], ?_⟩
        show enqueuedIn (s.trace ++ [_] ++ [_]) = _
        simp only [enqueuedIn_append, hrest, List.cons_append, List.append_assoc]
        rfl
      · exact h
  | written errorCode =>
      obtain ⟨hauth, hsearching, -, hread, hparser⟩ := onWritten_fields s errorCode
      exact ⟨hauth.trans h.known, hsearching.trans h.running,
        hread ▸ h.reading, hparser.trans h.parser, rest,
        (congrArg enqueuedIn (onWritten_trace s errorCode)).trans hrest⟩
  | command f => exact ⟨h.known, h.running, h.reading, h.parser, rest, hrest⟩

/-- **A client answers a challenge**, in whatever pieces it comes. -/
theorem run_answered {f resp : Frame} (hbuilt : f.Built) (haction : f.action = .authChallenge)
    (hsize : challengSize ≤ f.payload.length) (hresp : authResponse S f.payload = some resp)
    (app : σ) {events : List (NetworkEvent σ)} (hgoes : ∀ e ∈ events, Goes e)
    (hbytes : events.flatMap readBytes = f.serialize) :
    Answered resp.serialize (run A S { app := app } (.connect :: .start :: events)) := by
  have hframe := isFrame_serialize hbuilt.payload_length_le
  have hstart : Expecting [] (run A S { app := app } [.connect, .start]) :=
    ⟨rfl, rfl, Nat.one_pos, rfl, rfl⟩
  show Answered _ (events.foldl (step A S) (run A S { app := app } [.connect, .start]))
  refine in_pieces (E := Expecting) hframe ?_ ?_ ?_ hstart hgoes hbytes
  · exact fun s e b he hu h hmore => h.step he hu hmore
  · intro s e b he hu h heq hne
    cases e with
    | read chunk =>
        have heq : b ++ chunk = f.serialize := heq
        have hstep : s.step A S (.read chunk) = s.onRead A S chunk :=
          if_neg (by rw [h.running]; exact Bool.false_ne_true)
        rw [hstep]
        exact onRead_challenge h hu (heq ▸ hframe) (heq ▸ frameOf_serialize hbuilt) haction hsize
          hresp
    | _ => exact absurd rfl hne
  · exact fun s e he h hnil => h.step he hnil

end TcpClient

/-! ## Both sides -/

theorem take_padControl (data : Payload) : (Frame.padControl data).take data.length = data := by
  unfold Frame.padControl
  split
  · exact List.take_left
  · exact List.take_length

theorem nonceBytes_length (n : UInt64) : (nonceBytes n).length = 8 := by
  simp [nonceBytes]

theorem validAuth_nonce {S : Sodium} {challenge : Bytes} {n : UInt64}
    (h : TcpSession.proofOfWork S challenge (nonceBytes n) = true) :
    TcpSession.ValidAuth S challenge
      (Frame.createAuthResponse (MailboxID.fill 0x00) (nonceBytes n)) := by
  have hsize : 8 ≤ paddedControlPayloadSize := by decide
  refine ⟨rfl, hsize.trans (paddedControlPayloadSize_le_padControl (nonceBytes n)), ?_⟩
  have htake := take_padControl (nonceBytes n)
  rw [nonceBytes_length] at htake
  show TcpSession.proofOfWork S challenge ((Frame.padControl (nonceBytes n)).take 8) = true
  rw [htake]
  exact h

theorem authResponse_challenge {S : Sodium} {challenge : ByteVec challengSize} {n : UInt64}
    (h : searchNonce S challenge.toList (2 ^ 64) 0 = some n) :
    authResponse S (Frame.padControl challenge.toList) =
      some (Frame.createAuthResponse (MailboxID.fill 0x00) (nonceBytes n)) := by
  have htake := take_padControl challenge.toList
  rw [challenge.toList_length] at htake
  rw [authResponse, htake, h]
  rfl

/-- **Peers agree on the proof of work.** If some nonce qualifies for a challenge, a client
that reads the frame `Start` has queued, in whatever pieces, queues as its first frame an
answer with the first nonce from 1 upwards; and the session, reading this answer in whatever
pieces, is authenticated and stays open. The branches for payloads that are too small are
never taken with a frame from the parser. -/
theorem proof_of_work_agrees (S : Sodium) (challenge : ByteVec challengSize)
    (hsome : ∃ m, TcpSession.proofOfWork S challenge.toList (nonceBytes m) = true) :
    (∃ n, TcpSession.proofOfWork S challenge.toList (nonceBytes n) = true ∧
      (∀ m : UInt64, 0 < m → m < n →
        TcpSession.proofOfWork S challenge.toList (nonceBytes m) = false) ∧
      (n = 0 → ∀ m : UInt64, m ≠ 0 →
        TcpSession.proofOfWork S challenge.toList (nonceBytes m) = false) ∧
      ∀ (σ : Type) (A : Application σ) (app : σ) (events : List (NetworkEvent σ)),
        (∀ e ∈ events, TcpClient.Goes e) →
        events.flatMap TcpClient.readBytes = (TcpSession.start challenge).writeQueue.flatten →
        ∃ raw rest,
          TcpClient.enqueuedIn (TcpClient.run A S { app := app }
            (.connect :: .start :: events)).trace = raw :: rest ∧
          raw = (Frame.createAuthResponse (MailboxID.fill 0x00) (nonceBytes n)).serialize ∧
          ∀ (H : Type) [FrameHandler H] (h : H) (answer : List SocketEvent),
            (∀ e ∈ answer, TcpSession.Succeeds e) →
            answer.flatMap TcpSession.readBytes = raw →
            (TcpSession.run S (TcpSession.start challenge, h) answer).1.state = .authenticated ∧
              (TcpSession.run S (TcpSession.start challenge, h) answer).1.socketOpen = true) ∧
    ∀ (p p' : FrameParser) (f : Frame), p.tryExtractFrame = (some f, p') →
      (f.action = .authChallenge → challengSize ≤ f.payload.length) ∧
      (f.action = .authResponse → 8 ≤ f.payload.length) := by
  constructor
  · obtain ⟨n, hsearch, hfirst⟩ := searchNonce_first hsome
    obtain ⟨hleast, hzero⟩ := hfirst.least
    refine ⟨n, hfirst.qualifies, hleast, hzero, ?_⟩
    intro σ A app events hgoes hbytes
    have hbuilt : (Frame.createAuthChallenge (MailboxID.fill 0x00) challenge.toList).Built :=
      .authChallenge _ (by rw [challenge.toList_length]; decide)
    have hwire : (TcpSession.start challenge).writeQueue.flatten =
        (Frame.createAuthChallenge (MailboxID.fill 0x00) challenge.toList).serialize :=
      List.flatten_singleton
    have hsize : challengSize ≤ (Frame.padControl challenge.toList).length :=
      le_trans (by decide) (paddedControlPayloadSize_le_padControl _)
    have hanswered := TcpClient.run_answered (A := A) hbuilt rfl hsize
      (authResponse_challenge hsearch) app hgoes (hbytes.trans hwire)
    obtain ⟨rest, hrest⟩ := hanswered.answer
    refine ⟨_, rest, hrest, rfl, ?_⟩
    intro H _ h answer hok hread
    have hresp : (Frame.createAuthResponse (MailboxID.fill 0x00) (nonceBytes n)).Built :=
      .authResponse _ (by rw [nonceBytes_length]; decide)
    have hwelcomed := TcpSession.run_welcomed hresp (validAuth_nonce hfirst.qualifies) h hok hread
    exact ⟨hwelcomed.state, hwelcomed.isOpen⟩
  · intro p p' f hextract
    have hextractable := Reader.extractable_of_tryExtractFrame hextract
    refine ⟨fun haction => ?_, fun haction => ?_⟩
    · exact TcpClient.challengSize_le_of_extractable hextractable haction
    · exact le_trans (by decide)
        (TcpClient.paddedControlPayloadSize_le_of_extractable hextractable (.inr haction))

/-- A challenge that a client gets in two pieces, with a tick between them. -/
def challengedInPieces (raw : RawFrame) : List (NetworkEvent Unit) :=
  [.read (raw.take 100), .tick, .read (raw.drop 100)]

theorem challengedInPieces_goes (raw : RawFrame) :
    (∀ e ∈ challengedInPieces raw, TcpClient.Goes e) ∧
      (challengedInPieces raw).flatMap TcpClient.readBytes = raw := by
  constructor
  · intro e he
    simp only [challengedInPieces, List.mem_cons, List.not_mem_nil, or_false] at he
    rcases he with rfl | rfl | rfl <;> trivial
  · show raw.take 100 ++ (raw.drop 100 ++ []) = raw
    rw [List.append_nil, List.take_append_drop]

/-- An answer that the session gets in two pieces, with the end of its write between them. -/
def answeredInPieces (raw : RawFrame) : List SocketEvent :=
  [.read (raw.take 30), .written false, .read (raw.drop 30)]

theorem answeredInPieces_succeeds (raw : RawFrame) :
    (∀ e ∈ answeredInPieces raw, TcpSession.Succeeds e) ∧
      (answeredInPieces raw).flatMap TcpSession.readBytes = raw := by
  constructor
  · intro e he
    simp only [answeredInPieces, List.mem_cons, List.not_mem_nil, or_false] at he
    rcases he with rfl | rfl | rfl <;> trivial
  · show raw.take 30 ++ (raw.drop 30 ++ []) = raw
    rw [List.append_nil, List.take_append_drop]

def sevens : ByteVec challengSize := ⟨List.replicate 32 0x07, rfl⟩

/-- With a hash for which 1 and 2 do not qualify: the challenge is answered with 3, and this
answer is accepted. -/
theorem proof_of_work_agrees_third :
    let s := TcpClient.run TcpClient.poller thirdNonce { app := () }
      (.connect :: .start ::
        challengedInPieces (TcpSession.start sevens).writeQueue.flatten)
    ∃ raw rest, TcpClient.enqueuedIn s.trace = raw :: rest ∧
      raw = (Frame.createAuthResponse (MailboxID.fill 0x00) (nonceBytes 3)).serialize ∧
      (TcpSession.run thirdNonce (TcpSession.start sevens, ({} : TcpSession.PushLog))
        (answeredInPieces raw)).1.state = .authenticated := by
  obtain ⟨⟨n, hn, hleast, -, hrun⟩, -⟩ := proof_of_work_agrees thirdNonce sevens
    ⟨3, by rw [proofOfWork_thirdNonce]; rfl⟩
  -- the first nonce is the least one that ends in 3
  obtain rfl : n = 3 := by
    rw [proofOfWork_thirdNonce, decide_eq_true_iff] at hn
    have hthree : ¬ (3 : UInt64) < n := fun hlt => by
      have hnot := hleast 3 (by decide) hlt
      rw [proofOfWork_thirdNonce] at hnot
      cases hnot
    have hle : n.toNat ≤ 3 := Nat.le_of_not_lt fun hlt => hthree (UInt64.lt_iff_toNat_lt.mpr hlt)
    have hmod : n.toNat % 2 ^ 8 = 3 := congrArg UInt8.toNat hn
    exact UInt64.toNat_inj.mp (by rw [Nat.mod_eq_of_lt (by omega)] at hmod; exact hmod)
  obtain ⟨hgoes, hbytes⟩ :=
    challengedInPieces_goes (TcpSession.start sevens).writeQueue.flatten
  obtain ⟨raw, rest, henqueued, hraw, hsession⟩ :=
    hrun Unit TcpClient.poller () _ hgoes hbytes
  obtain ⟨hsucceeds, hanswer⟩ := answeredInPieces_succeeds raw
  exact ⟨raw, rest, henqueued, hraw,
    (hsession TcpSession.PushLog {} (answeredInPieces raw) hsucceeds hanswer).1⟩

end BlankChat.Network
