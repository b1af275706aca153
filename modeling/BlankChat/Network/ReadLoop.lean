import BlankChat.Protocol.FrameStream
import Mathlib.Data.List.Induction

/-!
# The read loop around the parser — `TcpSession::DoRead`, `TcpClient::DoRead`

Both ends of a connection run the same loop over a chunk the socket has
delivered: feed the rest of the chunk to the parser, drop the connection on a
parser error, hand out every frame `TryExtractFrame` returns, and go on until the
chunk is used up. `Reader` is what the two differ in; `TcpSession` and
`TcpClient` instantiate it.

The loop is resumable at any byte: it does with a chunk what the frames of the
stream format say (`readLoop_spec`), so how a stream is cut into chunks is not
visible (`drive_segmentation`).
-/

namespace BlankChat.Network

open Lib Protocol FrameParser

/-- What a connection does around its parser. -/
structure Reader (σ : Type) where
  parser : σ → FrameParser
  setParser : σ → FrameParser → σ
  /-- the branch `parser.HasError()` -/
  onError : σ → σ
  /-- the body of the loop over extracted frames; `false` is an early return -/
  onFrame : σ → Frame → σ × Bool
  /-- checked after the frames have been handled -/
  isOpen : σ → Bool
  /-- the branch for a pass that consumed nothing -/
  onStall : σ → σ

namespace Reader

variable {σ : Type} (R : Reader σ)

/-- `while (auto frameOpt = parser.TryExtractFrame())`. -/
def extractLoop : ℕ → σ → σ
  | 0, s => s
  | fuel + 1, s =>
      match (R.parser s).tryExtractFrame with
      | (none, p) => R.setParser s p
      | (some f, p) =>
          let r := R.onFrame (R.setParser s p) f
          if r.2 then extractLoop fuel r.1 else r.1

/-- `while (!dataSpan.empty())`: the state and the part of the chunk that was not
read. An extraction resets the parser, so the inner loop runs at most twice
(`extractLoop_ready`). -/
def readLoop : ℕ → σ → Bytes → σ × Bytes
  | 0, s, data => (s, data)
  | fuel + 1, s, data =>
      if data = [] then (s, data)
      else
        let fed := (R.parser s).feedBytes data
        let s := R.setParser s fed.1
        let data := data.drop fed.2
        if fed.1.hasError then (R.onError s, data)
        else
          let s := R.extractLoop 2 s
          if !R.isOpen s then (s, data)
          else if fed.2 = 0 then (R.onStall s, data)
          else readLoop fuel s data

/-- A chunk has as many passes as bytes at most. -/
def readChunk (s : σ) (chunk : Bytes) : σ × Bytes :=
  R.readLoop chunk.length s chunk

/-- The parser is a field of its own: the other operations neither read nor write
it. -/
structure Lawful : Prop where
  parser_set : ∀ s p, R.parser (R.setParser s p) = p
  set_self : ∀ s, R.setParser s (R.parser s) = s
  set_set : ∀ s p q, R.setParser (R.setParser s p) q = R.setParser s q
  isOpen_set : ∀ s p, R.isOpen (R.setParser s p) = R.isOpen s
  onFrame_set : ∀ s p f, R.onFrame (R.setParser s p) f =
    (R.setParser (R.onFrame s f).1 p, (R.onFrame s f).2)

/-! ## What the loop does, frame by frame -/

/-- Handle the frame of some raw bytes; unknown actions are skipped. -/
def onRaw (s : σ) (raw : RawFrame) : σ :=
  match frameOf raw with
  | none => s
  | some f => (R.onFrame s f).1

/-- Handle raw frames in order until the connection is closed. The second
component is what was not looked at, `none` if the connection is still open after
the last frame. -/
def absorb : σ → List RawFrame → σ × Option (List RawFrame)
  | s, [] => (s, none)
  | s, raw :: raws =>
      if R.isOpen (R.onRaw s raw) then absorb (R.onRaw s raw) raws
      else (R.onRaw s raw, some raws)

/-- The state in which reading the bytes `s` from the start of a frame leaves the
connection, and the bytes it did not read. -/
def readBytes (st : σ) (s : Bytes) : σ × Bytes :=
  match R.absorb st (splitStream s).1 with
  | (st', some raws) => (R.setParser st' {},
      raws.flatten ++ (splitStream s).2.bytes)
  | (st', none) =>
      match (splitStream s).2 with
      | .unfinished r => (R.setParser st' (onBytes r), [])
      | .malformed m =>
          (R.onError (R.setParser st'
            (afterHeader (m.take headerSize) [] .errorMalformed)),
            m.drop headerSize)

theorem absorb_append (s : σ) (xs ys : List RawFrame) :
    R.absorb s (xs ++ ys) =
      match R.absorb s xs with
      | (s', none) => R.absorb s' ys
      | (s', some raws) => (s', some (raws ++ ys)) := by
  induction xs generalizing s with
  | nil => rfl
  | cons raw xs ih =>
      simp only [List.cons_append, absorb]
      by_cases h : R.isOpen (R.onRaw s raw) = true
      · rw [if_pos h, if_pos h, ih]
      · rw [if_neg h, if_neg h]

variable {R}

theorem readBytes_frame {st : σ} {s raw rest : Bytes}
    (h : cutFrame s = .frame raw rest) :
    R.readBytes st s =
      if R.isOpen (R.onRaw st raw) then R.readBytes (R.onRaw st raw) rest
      else (R.setParser (R.onRaw st raw) {}, rest) := by
  unfold readBytes
  rw [splitStream_frame h]
  simp only [absorb]
  by_cases ho : R.isOpen (R.onRaw st raw) = true
  · rw [if_pos ho, if_pos ho]
  · rw [if_neg ho, if_neg ho]
    simp only [splitStream_flatten]

theorem onRaw_set (hR : R.Lawful) (st : σ) (p : FrameParser) (raw : RawFrame) :
    R.onRaw (R.setParser st p) raw = R.setParser (R.onRaw st raw) p := by
  unfold onRaw
  cases frameOf raw with
  | none => rfl
  | some f => exact congrArg Prod.fst (hR.onFrame_set st p f)

theorem absorb_set (hR : R.Lawful) (st : σ) (p : FrameParser)
    (raws : List RawFrame) :
    R.absorb (R.setParser st p) raws =
      (R.setParser (R.absorb st raws).1 p, (R.absorb st raws).2) := by
  induction raws generalizing st with
  | nil => rfl
  | cons raw raws ih =>
      simp only [absorb, onRaw_set hR, hR.isOpen_set]
      by_cases h : R.isOpen (R.onRaw st raw) = true
      · rw [if_pos h, if_pos h, ih]
      · rw [if_neg h, if_neg h]

theorem readBytes_set (hR : R.Lawful) (st : σ) (p : FrameParser) (s : Bytes) :
    R.readBytes (R.setParser st p) s = R.readBytes st s := by
  unfold readBytes
  rw [absorb_set hR]
  rcases R.absorb st (splitStream s).1 with ⟨st', _ | raws⟩
  · cases (splitStream s).2 <;> simp only [hR.set_set]
  · simp only [hR.set_set]

theorem extractLoop_onBytes (hR : R.Lawful) (st : σ) (r : Bytes) (fuel : ℕ) :
    R.extractLoop (fuel + 1) (R.setParser st (onBytes r)) =
      R.setParser st (onBytes r) := by
  have hnone : (onBytes r).tryExtractFrame = (none, onBytes r) := by
    unfold onBytes
    split <;> rfl
  rw [extractLoop, hR.parser_set, hnone]
  exact hR.set_set _ _ _

theorem extractLoop_ready (hR : R.Lawful) (st : σ) (raw : RawFrame) :
    R.extractLoop 2 (R.setParser st (afterHeader (raw.take headerSize)
      (raw.drop headerSize) .frameReady)) =
      R.setParser (R.onRaw st raw) {} := by
  rw [extractLoop, hR.parser_set, tryExtractFrame_ready]
  unfold onRaw
  cases frameOf raw with
  | none => exact hR.set_set _ _ _
  | some f =>
      simp only [hR.set_set, hR.onFrame_set]
      -- a further look finds the reset parser empty, an early return does not look
      split
      · exact extractLoop_onBytes hR _ [] 0
      · rfl

/-- **The read loop follows the stream format.** A connection whose parser is
inside the unfinished frame `r` handles a chunk `d` as the frames of `r ++ d`. -/
theorem readLoop_spec (hR : R.Lawful) {st : σ} {r : Bytes}
    (hp : R.parser st = onBytes r) (hu : Unfinished r) :
    ∀ {d : Bytes} {fuel : ℕ}, d.length ≤ fuel →
      R.readLoop fuel st d = R.readBytes st (r ++ d) := by
  intro d fuel
  induction fuel generalizing st r d with
  | zero =>
      intro hd
      obtain rfl : d = [] := List.eq_nil_of_length_eq_zero (by omega)
      rw [List.append_nil, readLoop, readBytes,
        splitStream_more (cutFrame_more_iff.mpr hu)]
      simp only [absorb, ← hp, hR.set_self]
  | succ fuel ih =>
      intro hd
      by_cases hnil : d = []
      · subst hnil
        rw [List.append_nil, readLoop, if_pos rfl, readBytes,
          splitStream_more (cutFrame_more_iff.mpr hu)]
        simp only [absorb, ← hp, hR.set_self]
      have hdpos : 0 < d.length := List.length_pos_of_ne_nil hnil
      rw [readLoop, if_neg hnil, hp, feedBytes_spec hu]
      cases hcut : cutFrame (r ++ d) with
      | more =>
          -- the whole chunk goes into the buffers
          have hfed : fedState (r ++ d) = (onBytes (r ++ d), []) := by
            rw [fedState, hcut]
          have herr : (onBytes (r ++ d)).hasError = false := by
            unfold onBytes
            split <;> rfl
          rw [hfed, readBytes, splitStream_more hcut]
          simp only [herr, List.length_nil, Nat.sub_zero, List.drop_length,
            absorb, Bool.false_eq_true, if_false]
          rw [extractLoop_onBytes hR]
          split
          · rfl
          · rw [if_neg (by omega)]
            cases fuel with
            | zero => rfl
            | succ n => rw [readLoop, if_pos rfl]
      | bad =>
          have hr : r.length < headerSize := by
            by_contra hge
            have hc := cutFrame_bad_iff.mp hcut
            rw [headerLength_append (by omega)] at hc
            exact absurd (hu (by omega)).1 (UInt32.not_le.mpr hc.2)
          have hle := (cutFrame_bad_iff.mp hcut).1
          have hdrop : (r ++ d).drop headerSize =
              d.drop (headerSize - r.length) := by
            rw [List.drop_append, List.drop_of_length_le (by omega),
              List.nil_append]
          have hrest : d.drop (d.length - ((r ++ d).drop headerSize).length) =
              (r ++ d).drop headerSize := by
            rw [List.length_append] at hle
            rw [hdrop, List.length_drop]
            congr 1
            omega
          have hfed : fedState (r ++ d) =
              (afterHeader ((r ++ d).take headerSize) [] .errorMalformed,
                (r ++ d).drop headerSize) := by
            rw [fedState, hcut]
          rw [hfed, readBytes, splitStream_bad hcut]
          simp only [absorb, hrest]
          rfl
      | frame raw rest =>
          obtain ⟨heq, hle, hlen, hmax⟩ := cutFrame_frame_append hcut
          have hfed : fedState (r ++ d) =
              (afterHeader (raw.take headerSize) (raw.drop headerSize)
                .frameReady, rest) := by
            rw [fedState, hcut]
          -- the frame ends inside the chunk, since `r` does not complete it
          have hrlt : r.length < raw.length := by
            by_contra hge
            have hpre : r = raw ++ rest.take (r.length - raw.length) := by
              have := congrArg (List.take r.length) heq
              rwa [List.take_left, List.take_append,
                List.take_of_length_le (by omega)] at this
            have hhl : headerLength r = headerLength raw := by
              rw [hpre, headerLength_append hle]
            have := (hu (by omega)).2
            rw [hhl] at this
            omega
          have hsum : r.length + d.length = raw.length + rest.length := by
            rw [← List.length_append, heq, List.length_append]
          have hrest : d.drop (d.length - rest.length) = rest := by
            have h₁ : (r ++ d).drop raw.length = rest := by
              rw [heq, List.drop_left]
            rw [List.drop_append, List.drop_of_length_le (by omega),
              List.nil_append] at h₁
            rw [← h₁]
            congr 1
            rw [h₁]
            omega
          rw [hfed, readBytes_frame hcut]
          simp only [hrest]
          rw [show (afterHeader (raw.take headerSize) (raw.drop headerSize)
            .frameReady).hasError = false from rfl, extractLoop_ready hR st raw,
            hR.isOpen_set]
          simp only [Bool.false_eq_true, if_false]
          by_cases ho : R.isOpen (R.onRaw st raw) = true
          · simp only [ho, Bool.not_true, Bool.false_eq_true, if_false, if_true]
            rw [if_neg (by omega)]
            have hp' : R.parser (R.setParser (R.onRaw st raw) {}) = onBytes [] := by
              rw [hR.parser_set]
              rfl
            rw [ih hp' unfinished_nil (by omega), List.nil_append,
              readBytes_set hR]
          · simp only [ho, Bool.not_false, if_true, Bool.false_eq_true, if_false]

theorem readChunk_spec (hR : R.Lawful) {st : σ} {r : Bytes}
    (hp : R.parser st = onBytes r) (hu : Unfinished r) (d : Bytes) :
    R.readChunk st d = R.readBytes st (r ++ d) :=
  readLoop_spec hR hp hu le_rfl

theorem readChunk_more (hR : R.Lawful) {st : σ} {r d : Bytes}
    (hp : R.parser st = onBytes r) (hu : Unfinished r)
    (hmore : cutFrame (r ++ d) = .more) :
    R.readChunk st d = (R.setParser st (onBytes (r ++ d)), []) := by
  rw [readChunk_spec hR hp hu, readBytes, splitStream_more hmore]
  rfl

theorem readChunk_last (hR : R.Lawful) {st : σ} {r d : Bytes}
    (hp : R.parser st = onBytes r) (hu : Unfinished r)
    (hraw : IsFrame (r ++ d)) (hopen : R.isOpen (R.onRaw st (r ++ d)) = true) :
    R.readChunk st d = (R.setParser (R.onRaw st (r ++ d)) (onBytes []), []) := by
  have hcut := cutFrame_isFrame hraw []
  rw [List.append_nil] at hcut
  rw [readChunk_spec hR hp hu, readBytes_frame hcut, if_pos hopen]
  rfl

/-- The rule for a property of the connection along a chunk. `P` holds while
frames are being handled, `Q` when the loop has ended. -/
theorem readBytes_rule {P Q : σ → Prop}
    (hpost : ∀ s p, P s → Q (R.setParser s p))
    (herr : ∀ s p, P s → Q (R.onError (R.setParser s p)))
    (hframe : ∀ s f, P s → R.isOpen (R.onFrame s f).1 = true →
      P (R.onFrame s f).1)
    (hclose : ∀ s f p, P s → R.isOpen (R.onFrame s f).1 = false →
      Q (R.setParser (R.onFrame s f).1 p))
    {st : σ} (hst : P st) (s : Bytes) : Q (R.readBytes st s).1 := by
  -- along the frames: `P` as long as the connection is open, then it stops
  have habs : ∀ (raws : List RawFrame) (st : σ), P st →
      (∀ st', R.absorb st raws = (st', none) → P st') ∧
      (∀ st' rest p, R.absorb st raws = (st', some rest) →
        Q (R.setParser st' p)) := by
    intro raws
    induction raws with
    | nil =>
        intro st hst
        refine ⟨?_, ?_⟩
        · rintro st' ⟨⟩
          exact hst
        · rintro st' rest p ⟨⟩
    | cons raw raws ih =>
        intro st hst
        rw [absorb]
        by_cases ho : R.isOpen (R.onRaw st raw) = true
        · have hpre : P (R.onRaw st raw) := by
            unfold onRaw at ho ⊢
            cases hf : frameOf raw with
            | none => exact hst
            | some f =>
                rw [hf] at ho
                exact hframe st f hst ho
          rw [if_pos ho]
          exact ih _ hpre
        · rw [if_neg ho]
          refine ⟨?_, ?_⟩
          · rintro st' ⟨⟩
          · rintro st' rest p ⟨⟩
            unfold onRaw at ho ⊢
            cases hf : frameOf raw with
            | none => exact hpost st p hst
            | some f =>
                rw [hf] at ho
                exact hclose st f p hst (by simpa using ho)
  unfold readBytes
  obtain ⟨hopen, hclosed⟩ := habs (splitStream s).1 st hst
  cases ha : R.absorb st (splitStream s).1 with
  | mk st' rest =>
      cases rest with
      | some raws => exact hclosed _ _ _ ha
      | none =>
          cases (splitStream s).2 with
          | unfinished r => exact hpost _ _ (hopen _ ha)
          | malformed m => exact herr _ _ (hopen _ ha)

/-- The frames that a parser can hand out. -/
def Extractable (f : Frame) : Prop := ∃ action mailbox payload,
  buildFrame action mailbox payload = some f

theorem extractable_of_tryExtractFrame {p p' : FrameParser} {f : Frame}
    (h : p.tryExtractFrame = (some f, p')) : Extractable f := by
  unfold tryExtractFrame at h
  split at h
  · cases h
  · split at h
    · next action mailbox _ _ => exact ⟨action, mailbox, _, (Prod.mk.inj h).1⟩
    · cases h

/-- The rule for a property that does not depend on the parser, whatever state the parser
is in. `P` is kept by every frame that lets the loop go on; a frame that does not leads
to `Q`. -/
theorem extractLoop_rule {P Q : σ → Prop} (hset : ∀ s p, P s → P (R.setParser s p))
    (hframe : ∀ s f, Extractable f → P s →
      P (R.onFrame s f).1 ∨ ((R.onFrame s f).2 = false ∧ Q (R.onFrame s f).1))
    (fuel : ℕ) {st : σ} (hst : P st) :
    P (R.extractLoop fuel st) ∨ Q (R.extractLoop fuel st) := by
  induction fuel generalizing st with
  | zero => exact .inl hst
  | succ fuel ih =>
      unfold extractLoop
      split
      · exact .inl (hset _ _ hst)
      · next f p hextract =>
          rcases hframe (R.setParser st p) f (extractable_of_tryExtractFrame hextract)
            (hset _ _ hst) with hP | ⟨hstop, hQ⟩
          · dsimp only
            split
            · exact ih hP
            · exact .inl hP
          · dsimp only
            rw [hstop]
            exact .inr hQ

theorem readChunk_error (hR : R.Lawful) {s : σ} (h : (R.parser s).hasError = true) {chunk : Bytes}
    (hchunk : chunk ≠ []) : R.readChunk s chunk = (R.onError s, chunk) := by
  have hstate : (R.parser s).currentState = .errorMalformed := of_decide_eq_true h
  have hfed : (R.parser s).feedBytes chunk = (R.parser s, 0) :=
    feedBytes_stop (by simp [wantsBytes, hstate]) chunk
  obtain ⟨n, hn⟩ := Nat.exists_eq_add_one_of_ne_zero (List.length_pos_of_ne_nil hchunk).ne'
  rw [readChunk, hn, readLoop, if_neg hchunk]
  simp only [hfed, hR.set_self, h, if_true, List.drop_zero]

theorem readChunk_rule {P Q : σ → Prop} (hset : ∀ s p, P s → P (R.setParser s p))
    (hframe : ∀ s f, Extractable f → P s →
      P (R.onFrame s f).1 ∨ ((R.onFrame s f).2 = false ∧ Q (R.onFrame s f).1))
    (hQ : ∀ s, Q s → R.isOpen s = false) (herr : ∀ s, P s → P (R.onError s))
    (hstall : ∀ s, P s → P (R.onStall s)) {st : σ} (hst : P st) (chunk : Bytes) :
    P (R.readChunk st chunk).1 ∨ Q (R.readChunk st chunk).1 := by
  unfold readChunk
  generalize chunk.length = fuel
  induction fuel generalizing st chunk with
  | zero => exact .inl hst
  | succ fuel ih =>
      unfold readLoop
      split
      · exact .inl hst
      · dsimp only
        split
        · exact .inl (herr _ (hset _ _ hst))
        · rcases extractLoop_rule hset hframe 2 (hset _ (((R.parser st).feedBytes chunk).1) hst)
            with hP | hstop
          · split
            · exact .inl hP
            · split
              · exact .inl (hstall _ hP)
              · exact ih hP _
          · rw [hQ _ hstop]
            exact .inr hstop

theorem absorb_open {st st' : σ} {raws : List RawFrame}
    (ho : R.isOpen st = true) (h : R.absorb st raws = (st', none)) :
    R.isOpen st' = true := by
  induction raws generalizing st with
  | nil => cases h; exact ho
  | cons raw raws ih =>
      rw [absorb] at h
      split at h
      · exact ih ‹_› h
      · cases h

/-- Frames are left unhandled only when the connection is closed. -/
theorem absorb_closed {st st' : σ} {raws rest : List RawFrame}
    (h : R.absorb st raws = (st', some rest)) : R.isOpen st' = false := by
  induction raws generalizing st with
  | nil => cases h
  | cons raw raws ih =>
      rw [absorb] at h
      split at h
      · exact ih h
      · next hc =>
          cases h
          exact Bool.eq_false_iff.mpr hc

/-- A connection that is open after a chunk is inside an unfinished frame. -/
theorem readBytes_open (hR : R.Lawful) (herr : ∀ s, R.isOpen (R.onError s) = false)
    {st : σ} {s : Bytes} (ho : R.isOpen (R.readBytes st s).1 = true) :
    ∃ r, R.parser (R.readBytes st s).1 = onBytes r ∧ Unfinished r := by
  unfold readBytes at ho ⊢
  cases ha : R.absorb st (splitStream s).1 with
  | mk st' rest =>
      rw [ha] at ho
      cases rest with
      | some raws =>
          simp only [hR.isOpen_set, absorb_closed ha, Bool.false_eq_true] at ho
      | none =>
          cases htail : (splitStream s).2 with
          | unfinished r =>
              exact ⟨r, hR.parser_set _ _, splitStream_unfinished htail⟩
          | malformed m =>
              simp only [htail, herr, Bool.false_eq_true] at ho

/-- Once reading has closed the connection, further bytes change nothing. -/
theorem readBytes_closed_append (hR : R.Lawful) {st : σ} {s : Bytes}
    (ho : R.isOpen st = true) (hc : R.isOpen (R.readBytes st s).1 = false)
    (t : Bytes) : (R.readBytes st (s ++ t)).1 = (R.readBytes st s).1 := by
  have happ := splitStream_append s t
  unfold readBytes at hc ⊢
  cases ha : R.absorb st (splitStream s).1 with
  | mk st' rest =>
      rw [ha] at hc
      cases rest with
      | some raws =>
          -- a frame closed it: the later frames are not looked at
          have hlong : ∃ ys, (splitStream (s ++ t)).1 =
              (splitStream s).1 ++ ys := by
            rw [happ]
            cases (splitStream s).2 with
            | unfinished r => exact ⟨_, rfl⟩
            | malformed m => exact ⟨[], (List.append_nil _).symm⟩
          obtain ⟨ys, hys⟩ := hlong
          rw [hys, absorb_append, ha]
      | none =>
          cases htail : (splitStream s).2 with
          | unfinished r =>
              rw [htail] at hc
              simp only [hR.isOpen_set] at hc
              rw [absorb_open ho ha] at hc
              cases hc
          | malformed m =>
              -- the malformed header closed it: it stays where it is
              have hm := cutFrame_bad_iff.mp (splitStream_malformed htail)
              rw [htail] at happ
              rw [happ, ha]
              simp only [List.take_append_of_le_length hm.1]

theorem readLoop_rest_le (fuel : ℕ) (st : σ) (d : Bytes) :
    (R.readLoop fuel st d).2.length ≤ d.length := by
  induction fuel generalizing st d with
  | zero => exact le_rfl
  | succ fuel ih =>
      rw [readLoop]
      split
      · exact le_rfl
      · dsimp only
        split
        · simp
        · split
          · simp
          · split
            · simp
            · exact (ih _ _).trans (by simp)

end Reader

/-! ## The driver that records what it extracts -/

/-- What can be seen of a run of the driver: the parser, the frames extracted so
far, whether it stopped on an error, and how many bytes it had consumed. -/
structure DriveState : Type where
  parser : FrameParser := {}
  frames : List Frame := []
  stopped : Bool := false
  offset : ℕ := 0
deriving DecidableEq

def recorder : Reader DriveState where
  parser := DriveState.parser
  setParser := fun s p => { s with parser := p }
  onError := fun s => { s with stopped := true }
  onFrame := fun s f => ({ s with frames := s.frames ++ [f] }, true)
  isOpen := fun s => !s.stopped
  onStall := fun s => { s with stopped := true }

theorem recorder_lawful : recorder.Lawful where
  parser_set := fun _ _ => rfl
  set_self := fun _ => rfl
  set_set := fun _ _ _ => rfl
  isOpen_set := fun _ _ => rfl
  onFrame_set := fun _ _ _ => rfl

/-- One chunk; a driver that has stopped reads no more. -/
def driveChunk (s : DriveState) (chunk : Bytes) : DriveState :=
  if s.stopped then s
  else
    let r := recorder.readChunk s chunk
    { r.1 with offset := s.offset + (chunk.length - r.2.length) }

/-- The driver over the chunks of a stream, from a fresh parser. -/
def drive (chunks : List Bytes) : DriveState := chunks.foldl driveChunk {}

/-- The reference parser, applied to the whole stream at once: all complete
frames, those of unknown action skipped; an error right after the first header
that announces too long a payload. -/
def referenceParse (stream : Bytes) : DriveState :=
  let frames := (splitStream stream).1.filterMap frameOf
  match (splitStream stream).2 with
  | .unfinished r =>
      { parser := onBytes r, frames := frames, stopped := false
        offset := stream.length }
  | .malformed m =>
      { parser := afterHeader (m.take headerSize) [] .errorMalformed
        frames := frames, stopped := true
        offset := stream.length - m.length + headerSize }

theorem recorder_absorb {s : DriveState} (h : s.stopped = false)
    (raws : List RawFrame) :
    recorder.absorb s raws =
      ({ s with frames := s.frames ++ raws.filterMap frameOf }, none) := by
  induction raws generalizing s with
  | nil => simp [Reader.absorb]
  | cons raw raws ih =>
      have hraw : recorder.onRaw s raw =
          { s with frames := s.frames ++ (frameOf raw).toList } := by
        unfold Reader.onRaw
        cases frameOf raw <;> simp [recorder]
      have hopen : recorder.isOpen (recorder.onRaw s raw) = true := by
        rw [hraw]
        simp [recorder, h]
      rw [Reader.absorb, if_pos hopen, hraw, ih (by exact h)]
      cases hf : frameOf raw <;> simp [hf]

theorem driveChunk_referenceParse (s c : Bytes) :
    driveChunk (referenceParse s) c = referenceParse (s ++ c) := by
  have happ := splitStream_append s c
  cases htail : (splitStream s).2 with
  | malformed m =>
      rw [htail] at happ
      have hbad := cutFrame_bad_iff.mp (splitStream_malformed htail)
      have hst : (referenceParse s).stopped = true := by
        simp only [referenceParse, htail]
      rw [driveChunk, if_pos hst]
      simp only [referenceParse, htail, happ, List.length_append,
        Nat.add_sub_add_right, List.take_append_of_le_length hbad.1]
  | unfinished r =>
      rw [htail] at happ
      have href : referenceParse s =
          { parser := onBytes r, frames := (splitStream s).1.filterMap frameOf
            stopped := false, offset := s.length } := by
        simp only [referenceParse, htail]
      rw [href]
      have hspec := Reader.readChunk_spec recorder_lawful
        (show recorder.parser ⟨onBytes r, (splitStream s).1.filterMap frameOf, false,
          s.length⟩ = onBytes r from rfl) (splitStream_unfinished htail) c
      have hrest := Reader.readLoop_rest_le (R := recorder) c.length
        { parser := onBytes r, frames := (splitStream s).1.filterMap frameOf
          stopped := false, offset := s.length } c
      rw [← Reader.readChunk, hspec, Reader.readBytes, recorder_absorb rfl] at hrest
      rw [driveChunk, if_neg Bool.false_ne_true, hspec, Reader.readBytes,
        recorder_absorb rfl]
      cases htail' : (splitStream (r ++ c)).2 with
      | unfinished r' =>
          simp only [referenceParse, happ, htail', recorder,
            List.filterMap_append, List.length_nil, Nat.sub_zero,
            List.length_append]
      | malformed m =>
          have hbad := cutFrame_bad_iff.mp (splitStream_malformed htail')
          have hs := congrArg List.length (splitStream_flatten s)
          have hrc := congrArg List.length (splitStream_flatten (r ++ c))
          rw [htail, List.length_append] at hs
          rw [htail', List.length_append, List.length_append] at hrc
          simp only [Tail.bytes] at hs hrc
          simp only [htail', List.length_drop] at hrest
          have hoff : s.length + (c.length - (m.length - headerSize)) =
              s.length + c.length - m.length + headerSize := by
            have := hbad.1
            omega
          simp only [referenceParse, happ, htail', recorder,
            List.filterMap_append, List.length_drop, List.length_append, hoff]

/-- Driving the chunks of a stream is parsing the stream at once. -/
theorem drive_eq_referenceParse (chunks : List Bytes) :
    drive chunks = referenceParse chunks.flatten := by
  induction chunks using List.reverseRecOn with
  | nil => rfl
  | append_singleton chunks c ih =>
      have hsnoc : drive (chunks ++ [c]) = driveChunk (drive chunks) c := by
        unfold drive
        rw [List.foldl_append]
        rfl
      rw [hsnoc, ih, driveChunk_referenceParse, List.flatten_append,
        List.flatten_singleton]

/-- **Segmentation independence.** Two ways of cutting a stream into chunks give
the same frames, the same verdict at the same offset and the same parser, and
these are the reference parser's on the whole stream. -/
theorem drive_segmentation {stream : Bytes} {chunks chunks' : List Bytes}
    (h : chunks.flatten = stream) (h' : chunks'.flatten = stream) :
    drive chunks = drive chunks' ∧ drive chunks = referenceParse stream := by
  rw [drive_eq_referenceParse, drive_eq_referenceParse, h, h']
  exact ⟨rfl, rfl⟩

/-- A frame of unknown action, an empty PUSH and a malformed header, cut in the
middle of a header or not at all. -/
theorem drive_segmentation_mixed :
    let unknown : Bytes := 0x99 :: List.replicate 16 7 ++ [2, 0, 0, 0] ++ [1, 2]
    let push : Bytes := 0x01 :: List.replicate 16 9 ++ [0, 0, 0, 0]
    let bad : Bytes := 0x01 :: List.replicate 16 9 ++ [1, 0, 16, 0] ++ [5]
    let stream := unknown ++ push ++ bad
    drive [stream.take 30, stream.drop 30] = drive [stream] ∧
      drive [stream.take 30, stream.drop 30] = referenceParse stream ∧
      (referenceParse stream).frames =
        [Frame.createPush (MailboxID.fill 9) []] ∧
      (referenceParse stream).offset = 65 := by
  intro unknown push bad stream
  obtain ⟨h₁, h₂⟩ := drive_segmentation
    (show [stream.take 30, stream.drop 30].flatten = stream by simp)
    (show [stream].flatten = stream by simp)
  exact ⟨h₁, h₂, by decide +kernel, by decide +kernel⟩

/-! ## Round trips -/

/-- Frames that were built are read back from the stream of their serialisations. -/
theorem referenceParse_serialize {frames : List Frame} (h : ∀ f ∈ frames, f.Built) :
    referenceParse (frames.map Frame.serialize).flatten =
      { frames := frames, offset := (frames.map Frame.serialize).flatten.length } := by
  have hsplit : splitStream (frames.map Frame.serialize).flatten =
      (frames.map Frame.serialize, .unfinished []) := by
    refine splitStream_isFrames fun raw hraw => ?_
    obtain ⟨f, hf, rfl⟩ := List.mem_map.mp hraw
    exact isFrame_serialize (h f hf).payload_length_le
  have hframes : (frames.map Frame.serialize).filterMap frameOf = frames := by
    rw [List.filterMap_map]
    calc frames.filterMap (frameOf ∘ Frame.serialize)
        = frames.filterMap some := List.filterMap_congr fun f hf => frameOf_serialize (h f hf)
      _ = frames := List.filterMap_some
  unfold referenceParse
  rw [hsplit]
  dsimp only
  rw [hframes]
  rfl

/-- A byte string that the parser consumes whole, as one frame, is that frame's raw
bytes. -/
theorem frameOf_of_extract {raw : Bytes} {f : Frame}
    (hconsumed : (FrameParser.feedBytes {} raw).2 = raw.length)
    (h : ((FrameParser.feedBytes {} raw).1.tryExtractFrame).1 = some f) :
    IsFrame raw ∧ frameOf raw = some f := by
  rw [← onBytes_nil, feedBytes_spec unfinished_nil, List.nil_append] at hconsumed h
  unfold fedState at hconsumed h
  cases hcut : cutFrame raw with
  | more =>
      rw [hcut] at h
      unfold onBytes at h
      dsimp only at h
      split at h
      · cases h
      · cases h
  | bad =>
      rw [hcut] at h
      cases h
  | frame raw' rest =>
      obtain ⟨heq, hle, hlen, hmax⟩ := cutFrame_frame_append hcut
      rw [hcut] at h hconsumed
      dsimp only at h hconsumed
      obtain rfl : rest = [] := by
        refine List.eq_nil_of_length_eq_zero ?_
        rw [heq, List.length_append] at hconsumed
        unfold headerSize actionTypeSize mailboxIdSize at hle
        omega
      rw [List.append_nil] at heq
      subst heq
      rw [tryExtractFrame_ready] at h
      exact ⟨⟨hle, hlen, hmax⟩, h⟩

/-- **The codec round-trips.** However the serialisations of built frames are cut into
chunks, the driver returns exactly these frames, without an error and with an empty
parser; and a byte string that is accepted as one PUSH or ACK is what the frame is
serialised to. -/
theorem codec_round_trip :
    (∀ (frames : List Frame) (chunks : List Bytes), (∀ f ∈ frames, f.Built) →
      chunks.flatten = (frames.map Frame.serialize).flatten →
      (drive chunks).frames = frames ∧ (drive chunks).stopped = false ∧
        (drive chunks).parser = {}) ∧
    (∀ (raw : Bytes) (f : Frame), (FrameParser.feedBytes {} raw).2 = raw.length →
      ((FrameParser.feedBytes {} raw).1.tryExtractFrame).1 = some f →
      f.action = .push ∨ f.action = .ack → f.serialize = raw) := by
  constructor
  · intro frames chunks hbuilt hchunks
    rw [drive_eq_referenceParse, hchunks, referenceParse_serialize hbuilt]
    exact ⟨rfl, rfl, rfl⟩
  · intro raw f hconsumed hextract hact
    obtain ⟨hraw, hf⟩ := frameOf_of_extract hconsumed hextract
    exact serialize_frameOf hraw hf hact

/-- A poll and a push, byte by byte, and the push again from its bytes. -/
theorem codec_round_trip_two :
    let frames := [Frame.createPoll (MailboxID.fill 7), Frame.createPush (MailboxID.fill 9) [1, 2]]
    (drive ((frames.map Frame.serialize).flatten.map fun b => [b])).frames = frames ∧
      (Frame.createPush (MailboxID.fill 9) [1, 2]).serialize =
        0x01 :: List.replicate 16 9 ++ [2, 0, 0, 0] ++ [1, 2] := by
  intro frames
  constructor
  · refine (codec_round_trip.1 frames _ ?_ ?_).1
    · intro f hf
      rcases List.mem_pair.mp hf with rfl | rfl
      · exact .poll _
      · exact .push _ (by decide)
    · rw [← List.flatMap_def, List.flatMap_singleton']
  · exact codec_round_trip.2 _ _ (by decide +kernel) (by decide +kernel) (.inl rfl)

end BlankChat.Network
