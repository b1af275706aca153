import BlankChat.Lib.Service
import BlankChat.Network.ProofOfWork
import BlankChat.Server.Relay

/-!
# The two ends of a connection

A client writes its answer to the challenge and then the frames of its application; the
session of the relay writes the challenge and then the answers of the broker. Each end reads
an initial part of the bytes that the other end was given, cut anywhere.

`ClientSide` and `SessionSide` say how far an end has got: the frames it has handled are the
first of those that the other end has queued, and the bytes it holds back are the beginning
of the next. A read keeps this and does what the frames say, in their order: the client
hands them to its application, the session to the broker.
-/

namespace BlankChat.System

open Lib BlankChat.Core Crypto Protocol Network Server FrameParser
open Lib.Service (serveAll)

/-! ## Frames on the wire -/

/-- A frame that a client may hand to its connection. -/
structure Sendable (f : Frame) : Prop where
  built : f.Built
  action : f.action = .push ∨ f.action = .ack ∨ f.action = .poll

theorem Sendable.isFrame {f : Frame} (h : Sendable f) : IsFrame f.serialize :=
  isFrame_serialize h.built.payload_length_le

theorem sendable_createPoll (m : MailboxID) : Sendable (Frame.createPoll m) :=
  ⟨.poll m, .inr (.inr rfl)⟩

/-- The bytes of some frames. -/
def wire (fs : List Frame) : Bytes := (fs.map Frame.serialize).flatten

@[simp] theorem wire_cons (f : Frame) (fs : List Frame) : wire (f :: fs) = f.serialize ++ wire fs :=
  rfl

@[simp] theorem wire_append (fs fs' : List Frame) : wire (fs ++ fs') = wire fs ++ wire fs' := by
  simp [wire]

/-- An initial part of the bytes of some frames: the frames that are complete, and the
beginning of the next one. -/
theorem splitStream_of_wire {fs : List Frame} (hfs : ∀ f ∈ fs, IsFrame f.serialize) {b : Bytes}
    (h : b <+: wire fs) :
    ∃ new rest r, fs = new ++ rest ∧ b = wire new ++ r ∧ cutFrame r = .more ∧
      splitStream b = (new.map Frame.serialize, .unfinished r) := by
  induction fs generalizing b with
  | nil =>
      obtain rfl : b = [] := List.prefix_nil.mp h
      exact ⟨[], [], [], rfl, rfl, rfl, rfl⟩
  | cons f fs ih =>
      have hf := hfs f List.mem_cons_self
      rw [wire_cons] at h
      by_cases hcomplete : f.serialize <+: b
      · obtain ⟨b', rfl⟩ := hcomplete
        have hrest : b' <+: wire fs := (List.prefix_append_right_inj f.serialize).mp h
        obtain ⟨new, rest, r, rfl, rfl, hmore, hsplit⟩ :=
          ih (fun g hg => hfs g (List.mem_cons_of_mem f hg)) hrest
        refine ⟨f :: new, rest, r, rfl, (List.append_assoc ..).symm, hmore, ?_⟩
        rw [splitStream_frame (cutFrame_isFrame hf _), hsplit]
        rfl
      · -- the bytes end within the first frame
        have hpart := (List.prefix_or_prefix_of_prefix h (List.prefix_append _ _)).resolve_right
          hcomplete
        obtain ⟨t, ht⟩ := hpart
        have hmore : cutFrame b = .more := by
          refine cutFrame_more_of_isFrame (ht ▸ hf) ?_
          rintro rfl
          rw [List.append_nil] at ht
          exact hcomplete (ht ▸ List.prefix_rfl)
        exact ⟨[], f :: fs, b, rfl, rfl, hmore, splitStream_more hmore⟩

/-! ## The broker -/

/-- What a session does with a frame of a client that is served, and its answer. -/
def serveFrame (b : MessageBroker) (f : Frame) : MessageBroker × List Frame :=
  match f.action with
  | .push | .ack => (b.processPush f, [])
  | .poll =>
      match b.processPoll f.mailboxId with
      | (some response, b) => (b, [response])
      | (none, b) => (b, [Frame.createPoll f.mailboxId])
  | _ => (b, [])

/-- The frames that wait are such as a client may hand in. -/
def Stored (b : MessageBroker) : Prop := ∀ m, ∀ f ∈ b.queue m, Sendable f

section Broker

variable {b : MessageBroker} {f : Frame} {fs : List Frame}

theorem Stored.processPush (h : Stored b) (hf : Sendable f) : Stored (b.processPush f) := by
  intro m g hg
  rw [MessageBroker.queue_processPush] at hg
  split at hg
  · by_cases hm : m = f.mailboxId
    · subst hm
      rw [Function.update_self] at hg
      rcases List.mem_append.mp hg with hg | hg
      · exact h _ g hg
      · exact List.mem_singleton.mp hg ▸ hf
    · rw [Function.update_of_ne hm] at hg
      exact h m g hg
  · exact h m g hg

theorem Stored.processPoll (h : Stored b) (m : MailboxID) :
    Stored (b.processPoll m).2 ∧ ∀ g ∈ (b.processPoll m).1, Sendable g := by
  obtain ⟨hanswer, hqueue⟩ := MessageBroker.processPoll_eq b m
  constructor
  · intro m' g hg
    rw [hqueue] at hg
    by_cases hm : m' = m
    · subst hm
      rw [Function.update_self] at hg
      exact h _ g (List.mem_of_mem_tail hg)
    · rw [Function.update_of_ne hm] at hg
      exact h m' g hg
  · intro g hg
    rw [hanswer] at hg
    exact h m g (List.mem_of_mem_head? hg)

theorem Stored.serveFrame (h : Stored b) (hf : Sendable f) :
    Stored (serveFrame b f).1 ∧ ∀ g ∈ (serveFrame b f).2, Sendable g := by
  unfold System.serveFrame
  split
  · exact ⟨h.processPush hf, List.forall_mem_nil _⟩
  · exact ⟨h.processPush hf, List.forall_mem_nil _⟩
  · obtain ⟨hstored, hanswer⟩ := h.processPoll f.mailboxId
    split
    · next response b' hpoll =>
        rw [hpoll] at hstored hanswer
        exact ⟨hstored, List.forall_mem_singleton.mpr (hanswer response rfl)⟩
    · next b' hpoll =>
        rw [hpoll] at hstored
        exact ⟨hstored, List.forall_mem_singleton.mpr (sendable_createPoll _)⟩
  · exact ⟨h, List.forall_mem_nil _⟩

theorem Stored.serveAll (h : Stored b) (hfs : ∀ f ∈ fs, Sendable f) :
    Stored (serveAll System.serveFrame b fs).1 ∧
      ∀ g ∈ (serveAll System.serveFrame b fs).2, Sendable g := by
  induction fs generalizing b with
  | nil => exact ⟨h, List.forall_mem_nil _⟩
  | cons f fs ih =>
      obtain ⟨hstored, hanswers⟩ := h.serveFrame (hfs f List.mem_cons_self)
      obtain ⟨hstored', hanswers'⟩ := ih hstored fun g hg => hfs g (List.mem_cons_of_mem f hg)
      exact ⟨hstored', List.forall_mem_append.mpr ⟨hanswers, hanswers'⟩⟩

end Broker

/-! ## The client's end -/

/-- The challenge as the session sends it. -/
def challengeFrame (challenge : ByteVec challengSize) : Frame :=
  Frame.createAuthChallenge (MailboxID.fill 0x00) challenge.toList

theorem built_challengeFrame (challenge : ByteVec challengSize) :
    (challengeFrame challenge).Built := by
  refine .authChallenge _ ?_
  rw [challenge.toList_length]
  decide

section Client

variable {σ : Type} {A : Application σ} {S : Sodium} {challenge : ByteVec challengSize}
  {c c' : TcpClient σ} {f : Frame} {fs done down : List Frame} {chunk : Bytes}

/-- The application has got some frames. -/
def received (A : Application σ) (c : TcpClient σ) (fs : List Frame) : TcpClient σ :=
  { c with
    app := fs.foldl A.frameReceiver c.app
    trace := c.trace ++ fs.flatMap fun f => [.extracted f, .received f] }

theorem onRaw_sendable (hauth : c.isAuthenticated = true) (hf : Sendable f) :
    (TcpClient.reader A S).onRaw c f.serialize = received A c [f] := by
  have hne : f.action ≠ .authChallenge := by
    rcases hf.action with h | h | h <;> rw [h] <;> exact fun heq => by cases heq
  unfold Reader.onRaw
  rw [frameOf_serialize hf.built]
  show (TcpClient.onFrame A S c f).1 = _
  unfold TcpClient.onFrame
  dsimp only
  rw [if_neg hne, if_pos (show (c.record (.extracted f)).isAuthenticated = true from hauth)]
  simp [received, TcpClient.record]

theorem absorb_received (hauth : c.isAuthenticated = true) (hs : c.searching = false)
    (hfs : ∀ f ∈ fs, Sendable f) :
    (TcpClient.reader A S).absorb c (fs.map Frame.serialize) = (received A c fs, none) := by
  induction fs generalizing c with
  | nil => simp [Reader.absorb, received]
  | cons f fs ih =>
      have hraw := onRaw_sendable (A := A) (S := S) hauth (hfs f List.mem_cons_self)
      have hopen : (TcpClient.reader A S).isOpen (received A c [f]) = true := by
        show (!c.searching) = true
        rw [hs]
        rfl
      have hrest := ih (c := received A c [f]) hauth hs
        fun g hg => hfs g (List.mem_cons_of_mem f hg)
      rw [List.map_cons, Reader.absorb, hraw, if_pos hopen, hrest]
      simp [received]

theorem bytesOf_append {l es : List ClientEvent}
    (h : ∀ e ∈ es, e ≠ .connected ∧ ∀ chunk, e ≠ .bytes chunk) :
    TcpClient.bytesOf (l ++ es) = TcpClient.bytesOf l := by
  induction es using List.reverseRecOn with
  | nil => rw [List.append_nil]
  | append_singleton es e ih =>
      obtain ⟨hne, hbytes⟩ := h e (List.mem_append_right _ List.mem_cons_self)
      rw [← List.append_assoc, TcpClient.bytesOf, TcpClient.sinceConnect_append hne,
        List.flatMap_append, ← TcpClient.bytesOf,
        ih fun e' he' => h e' (List.mem_append_left _ he')]
      cases e with
      | bytes chunk => exact absurd rfl (hbytes chunk)
      | _ => exact List.append_nil _

theorem bytesOf_bytes (l : List ClientEvent) (chunk : Bytes) :
    TcpClient.bytesOf (l ++ [.bytes chunk]) = TcpClient.bytesOf l ++ chunk := by
  rw [TcpClient.bytesOf, TcpClient.sinceConnect_append (fun heq => by cases heq),
    List.flatMap_append]
  exact congrArg (TcpClient.bytesOf l ++ ·) (List.append_nil chunk)

theorem bytesOf_received (A : Application σ) (c : TcpClient σ) (fs : List Frame) :
    TcpClient.bytesOf (received A c fs).trace = TcpClient.bytesOf c.trace := by
  refine bytesOf_append fun e he => ?_
  obtain ⟨f, -, hf⟩ := List.mem_flatMap.mp he
  rcases List.mem_cons.mp hf with rfl | hf
  · simp
  · rw [List.mem_singleton.mp hf]
    simp

theorem enqueuedIn_received (A : Application σ) (c : TcpClient σ) (fs : List Frame) :
    TcpClient.enqueuedIn (received A c fs).trace = TcpClient.enqueuedIn c.trace := by
  have hnone : TcpClient.enqueuedIn (fs.flatMap fun f => [.extracted f, .received f]) = [] := by
    refine List.filterMap_eq_nil_iff.mpr fun e he => ?_
    obtain ⟨f, -, hf⟩ := List.mem_flatMap.mp he
    rcases List.mem_cons.mp hf with rfl | hf
    · rfl
    · rw [List.mem_singleton.mp hf]
  show TcpClient.enqueuedIn (c.trace ++ _) = _
  rw [TcpClient.enqueuedIn_append, hnone, List.append_nil]

/-- What an application has exchanged with the client. -/
def exchanged (σ : Type) (l : List ClientEvent) : List (Service.Move σ Frame) :=
  l.filterMap fun
    | .provided _ => some .issue
    | .received f => some (.accept f)
    | _ => none

@[simp] theorem exchanged_append (l l' : List ClientEvent) :
    exchanged σ (l ++ l') = exchanged σ l ++ exchanged σ l' :=
  List.filterMap_append

theorem exchanged_received (A : Application σ) (c : TcpClient σ) (fs : List Frame) :
    exchanged σ (received A c fs).trace = exchanged σ c.trace ++ fs.map .accept := by
  have hframes : exchanged σ (fs.flatMap fun f => [.extracted f, .received f]) = fs.map .accept := by
    induction fs with
    | nil => rfl
    | cons f fs ih => exact congrArg (Service.Move.accept f :: ·) ih
  show exchanged σ (c.trace ++ _) = _
  rw [exchanged_append, hframes]

/-- How far a client has got: it waits for the rest of the challenge, its search for a nonce
does not end, or its application has been given the frames `done`. -/
inductive ClientSide (challenge : ByteVec challengSize) (c : TcpClient σ) : List Frame → Prop where
  | waiting (hauth : c.isAuthenticated = false) (hs : c.searching = false)
      (hmore : cutFrame (TcpClient.bytesOf c.trace) = .more)
      (hparser : c.parser = onBytes (TcpClient.bytesOf c.trace)) : ClientSide challenge c []
  | stuck (hauth : c.isAuthenticated = false) (hs : c.searching = true) :
      ClientSide challenge c []
  | serving {done : List Frame} {r : Bytes} (hauth : c.isAuthenticated = true)
      (hs : c.searching = false)
      (hbytes : TcpClient.bytesOf c.trace = wire (challengeFrame challenge :: done) ++ r)
      (hmore : cutFrame r = .more) (hparser : c.parser = onBytes r) : ClientSide challenge c done

theorem ClientSide.congr (h : ClientSide challenge c done)
    (hauth : c'.isAuthenticated = c.isAuthenticated) (hs : c'.searching = c.searching)
    (hparser : c'.parser = c.parser)
    (hbytes : TcpClient.bytesOf c'.trace = TcpClient.bytesOf c.trace) :
    ClientSide challenge c' done := by
  cases h with
  | waiting hauth' hs' hmore hparser' =>
      refine .waiting (hauth.trans hauth') (hs.trans hs') (hbytes ▸ hmore) ?_
      rw [hparser, hbytes]
      exact hparser'
  | stuck hauth' hs' => exact .stuck (hauth.trans hauth') (hs.trans hs')
  | serving hauth' hs' hbytes' hmore hparser' =>
      exact .serving (hauth.trans hauth') (hs.trans hs') (hbytes.trans hbytes') hmore
        (hparser.trans hparser')

theorem onWritten_app (c : TcpClient σ) (errorCode : Bool) : (c.onWritten errorCode).app = c.app := by
  unfold TcpClient.onWritten
  simp only [TcpClient.doWrite_eq]
  split
  · split <;> rfl
  · rfl

/-- What a read queues: nothing, or the answer to the challenge. -/
inductive Responds (S : Sodium) (challenge : ByteVec challengSize) (c c' : TcpClient σ) : Prop where
  | no (hauth : c'.isAuthenticated = c.isAuthenticated)
      (hqueue : TcpClient.enqueuedIn c'.trace = TcpClient.enqueuedIn c.trace)
  | answer {resp : Frame} (hauth : c.isAuthenticated = false) (hauth' : c'.isAuthenticated = true)
      (hbuilt : resp.Built) (hvalid : TcpSession.ValidAuth S challenge.toList resp)
      (hqueue : TcpClient.enqueuedIn c'.trace =
        TcpClient.enqueuedIn c.trace ++ [resp.serialize])

theorem challengSize_le_challengeFrame (challenge : ByteVec challengSize) :
    challengSize ≤ (challengeFrame challenge).payload.length :=
  le_trans (by decide) (paddedControlPayloadSize_le_padControl challenge.toList)

theorem valid_authResponse {resp : Frame}
    (h : authResponse S (challengeFrame challenge).payload = some resp) :
    resp.Built ∧ TcpSession.ValidAuth S challenge.toList resp := by
  have htake := take_padControl challenge.toList
  rw [challenge.toList_length] at htake
  obtain ⟨nonce, hnonce, rfl⟩ := Option.map_eq_some_iff.mp h
  rw [show (challengeFrame challenge).payload = Frame.padControl challenge.toList from rfl,
    htake] at hnonce
  refine ⟨.authResponse _ ?_, validAuth_nonce (searchNonce_eq_some hnonce).1⟩
  rw [nonceBytes_length]
  decide

/-- A client that has queued its answer. -/
def answered (c : TcpClient σ) (challenge : ByteVec challengSize) (resp : Frame) : TcpClient σ :=
  { c with
    writeQueue := c.writeQueue ++ [resp.serialize]
    writeInProgress := true
    isAuthenticated := true
    trace := c.trace ++ [.extracted (challengeFrame challenge), .responded resp.serialize]
    started := c.started ++
      TcpClient.newWrites c.writeInProgress (c.writeQueue ++ [resp.serialize]) }

theorem bytesOf_answered (c : TcpClient σ) (challenge : ByteVec challengSize) (resp : Frame) :
    TcpClient.bytesOf (answered c challenge resp).trace = TcpClient.bytesOf c.trace := by
  refine bytesOf_append fun e he => ?_
  rcases List.mem_cons.mp he with rfl | he
  · simp
  · rw [List.mem_singleton.mp he]
    simp

theorem enqueuedIn_answered (c : TcpClient σ) (challenge : ByteVec challengSize) (resp : Frame) :
    TcpClient.enqueuedIn (answered c challenge resp).trace =
      TcpClient.enqueuedIn c.trace ++ [resp.serialize] :=
  TcpClient.enqueuedIn_append _ _

theorem exchanged_answered (c : TcpClient σ) (challenge : ByteVec challengSize) (resp : Frame) :
    exchanged σ (answered c challenge resp).trace = exchanged σ c.trace :=
  (exchanged_append _ _).trans (List.append_nil _)

theorem onRaw_challenge :
    (TcpClient.reader A S).onRaw c (challengeFrame challenge).serialize =
      (TcpClient.onFrame A S c (challengeFrame challenge)).1 := by
  unfold Reader.onRaw
  rw [frameOf_serialize (built_challengeFrame challenge)]
  rfl

/-- The search for a nonce ends: the frames behind the challenge are handled. -/
theorem absorb_challenge {resp : Frame} (hs : c.searching = false)
    (hresp : authResponse S (challengeFrame challenge).payload = some resp)
    (hfs : ∀ f ∈ fs, Sendable f) :
    (TcpClient.reader A S).absorb c ((challengeFrame challenge :: fs).map Frame.serialize) =
      (received A (answered c challenge resp) fs, none) := by
  have hraw : (TcpClient.reader A S).onRaw c (challengeFrame challenge).serialize =
      answered c challenge resp := by
    rw [onRaw_challenge, TcpClient.onFrame_challenge hs rfl
      (challengSize_le_challengeFrame challenge) hresp]
    simp [answered, TcpClient.record]
  have hopen : (TcpClient.reader A S).isOpen (answered c challenge resp) = true := by
    show (!c.searching) = true
    rw [hs]
    rfl
  rw [List.map_cons, Reader.absorb, hraw, if_pos hopen,
    absorb_received (c := answered c challenge resp) rfl hs hfs]

/-- It does not end: they are not. -/
theorem absorb_stuck (hresp : authResponse S (challengeFrame challenge).payload = none) :
    (TcpClient.reader A S).absorb c ((challengeFrame challenge :: fs).map Frame.serialize) =
      ({ c.record (.extracted (challengeFrame challenge)) with searching := true },
        some (fs.map Frame.serialize)) := by
  have hsearch : TcpClient.handleAuthChallenge S
      (c.record (.extracted (challengeFrame challenge))) (challengeFrame challenge).payload =
      { c.record (.extracted (challengeFrame challenge)) with searching := true } := by
    unfold TcpClient.handleAuthChallenge
    rw [if_neg (Nat.not_lt.mpr (challengSize_le_challengeFrame challenge)), hresp]
  have hraw : (TcpClient.reader A S).onRaw c (challengeFrame challenge).serialize =
      { c.record (.extracted (challengeFrame challenge)) with searching := true } := by
    rw [onRaw_challenge]
    unfold TcpClient.onFrame
    dsimp only
    rw [if_pos (show (challengeFrame challenge).action = .authChallenge from rfl), hsearch]
    rfl
  rw [List.map_cons, Reader.absorb, hraw, if_neg (by exact Bool.false_ne_true)]

/-- **A read of the client.** The frames that it completes go to the application. -/
theorem ClientSide.onRead (h : ClientSide challenge c done) (hs : c.searching = false)
    (hdown : ∀ f ∈ down, Sendable f)
    (hchunk : TcpClient.bytesOf c.trace ++ chunk <+:
      wire (challengeFrame challenge :: (done ++ down))) :
    ∃ new rest, down = new ++ rest ∧ ClientSide challenge (c.onRead A S chunk) (done ++ new) ∧
      (c.onRead A S chunk).app = new.foldl A.frameReceiver c.app ∧
      exchanged σ (c.onRead A S chunk).trace = exchanged σ c.trace ++ new.map .accept ∧
      Responds S challenge c (c.onRead A S chunk) := by
  unfold TcpClient.onRead
  split
  swap
  · exact ⟨[], down, rfl, (List.append_nil done).symm ▸ h, rfl, (List.append_nil _).symm,
      .no rfl rfl⟩
  have hframes : ∀ f ∈ challengeFrame challenge :: down, IsFrame f.serialize := by
    intro f hf
    rcases List.mem_cons.mp hf with rfl | hf
    · exact isFrame_serialize (built_challengeFrame challenge).payload_length_le
    · exact (hdown f hf).isFrame
  have hrecorded : TcpClient.bytesOf (c.record (.bytes chunk)).trace =
      TcpClient.bytesOf c.trace ++ chunk := bytesOf_bytes c.trace chunk
  have hqueue : TcpClient.enqueuedIn (c.record (.bytes chunk)).trace =
      TcpClient.enqueuedIn c.trace := TcpClient.enqueuedIn_record _ rfl
  have hexchanged : exchanged σ (c.record (.bytes chunk)).trace = exchanged σ c.trace :=
    (exchanged_append _ _).trans (List.append_nil _)
  cases h with
  | stuck hauth hs' => exact absurd (hs.symm.trans hs') (by decide)
  | waiting hauth _ hmore hparser =>
      have hp : (TcpClient.reader A S).parser (c.record (.bytes chunk)) =
          onBytes (TcpClient.bytesOf c.trace) := hparser
      rw [Reader.readChunk_spec (TcpClient.reader_lawful A S) hp (cutFrame_more_iff.mp hmore),
        Reader.readBytes]
      obtain ⟨new, rest, r, hnew, hb, hmore', hsplit⟩ := splitStream_of_wire hframes hchunk
      rw [hsplit]
      cases new with
      | nil =>
          -- the challenge is not complete yet
          have hr : TcpClient.bytesOf c.trace ++ chunk = r := hb
          refine ⟨[], down, rfl, ?_, rfl, hexchanged.trans (List.append_nil _).symm, .no rfl hqueue⟩
          refine .waiting hauth hs ?_ ?_
          · show cutFrame (TcpClient.bytesOf (c.record (.bytes chunk)).trace) = _
            rw [hrecorded, hr]
            exact hmore'
          · show onBytes r = onBytes (TcpClient.bytesOf (c.record (.bytes chunk)).trace)
            rw [hrecorded, hr]
      | cons f new =>
          obtain ⟨rfl, hrest⟩ := List.cons.inj hnew
          have hnewSendable : ∀ f ∈ new, Sendable f :=
            fun f hf => hdown f (hrest ▸ List.mem_append_left rest hf)
          cases hresp : authResponse S (challengeFrame challenge).payload with
          | none =>
              rw [absorb_stuck hresp]
              refine ⟨[], down, rfl, .stuck hauth rfl, rfl, ?_, .no rfl
                ((TcpClient.enqueuedIn_record _ rfl).trans hqueue)⟩
              show exchanged σ ((c.record (.bytes chunk)).trace ++ [_]) = _
              rw [exchanged_append, hexchanged]
              rfl
          | some resp =>
              obtain ⟨hbuilt, hvalid⟩ := valid_authResponse hresp
              rw [absorb_challenge (c := c.record (.bytes chunk)) hs hresp hnewSendable]
              refine ⟨new, rest, hrest, ?_, rfl, ?_, .answer hauth rfl hbuilt hvalid ?_⟩
              · refine .serving rfl hs ?_ hmore' rfl
                exact ((bytesOf_received A _ new).trans
                  ((bytesOf_answered ..).trans hrecorded)).trans hb
              · refine (exchanged_received A _ new).trans ?_
                rw [exchanged_answered, hexchanged]
              · refine (enqueuedIn_received A _ new).trans ?_
                rw [enqueuedIn_answered, hqueue]
  | @serving _ r hauth _ hbytes hmore hparser =>
      have hp : (TcpClient.reader A S).parser (c.record (.bytes chunk)) = onBytes r := hparser
      rw [Reader.readChunk_spec (TcpClient.reader_lawful A S) hp (cutFrame_more_iff.mp hmore),
        Reader.readBytes]
      have hnext : r ++ chunk <+: wire down := by
        rw [hbytes, ← List.cons_append, wire_append, List.append_assoc] at hchunk
        exact (List.prefix_append_right_inj _).mp hchunk
      obtain ⟨new, rest, r', hnew, hb, hmore', hsplit⟩ := splitStream_of_wire
        (fun f hf => (hdown f hf).isFrame) hnext
      have hnewSendable : ∀ f ∈ new, Sendable f :=
        fun f hf => hdown f (hnew ▸ List.mem_append_left rest hf)
      rw [hsplit, absorb_received (c := c.record (.bytes chunk)) hauth hs hnewSendable]
      refine ⟨new, rest, hnew, ?_, rfl, ?_, .no rfl ((enqueuedIn_received A _ new).trans hqueue)⟩
      swap
      · exact (exchanged_received A _ new).trans (by rw [hexchanged])
      refine .serving hauth hs ?_ hmore' rfl
      refine ((bytesOf_received A _ new).trans hrecorded).trans ?_
      rw [hbytes, List.append_assoc, hb, ← List.cons_append, wire_append, List.append_assoc]

end Client

/-! ## The session's end -/

section Session

variable {S : Sodium} {challenge : ByteVec challengSize} {s s' : TcpSession} {b : MessageBroker}
  {sh sh' : TcpSession × MessageBroker} {f : Frame} {fs up done : List Frame}
  {resp : Option Frame} {arrived chunk : Bytes}

/-- A session and the broker have served the frames `fs`. -/
structure Serviced (sh : TcpSession × MessageBroker) (fs : List Frame)
    (sh' : TcpSession × MessageBroker) : Prop where
  broker : sh'.2 = (serveAll serveFrame sh.2 fs).1
  queued : enqueued sh'.1 = enqueued sh.1 ++ (serveAll serveFrame sh.2 fs).2.map Frame.serialize
  extracted : TcpSession.extractedIn sh'.1.trace = TcpSession.extractedIn sh.1.trace ++ fs
  state : sh'.1.state = sh.1.state
  socketOpen : sh'.1.socketOpen = sh.1.socketOpen

theorem Serviced.refl (sh : TcpSession × MessageBroker) : Serviced sh [] sh :=
  ⟨rfl, (List.append_nil _).symm, (List.append_nil _).symm, rfl, rfl⟩

theorem Serviced.cons {sh'' : TcpSession × MessageBroker} (h : Serviced sh [f] sh')
    (h' : Serviced sh' fs sh'') : Serviced sh (f :: fs) sh'' := by
  have hone : sh'.2 = (serveFrame sh.2 f).1 := h.broker
  refine ⟨?_, ?_, ?_, h'.state.trans h.state, h'.socketOpen.trans h.socketOpen⟩
  · rw [h'.broker, hone]
    rfl
  · have hqueued : enqueued sh'.1 = enqueued sh.1 ++ (serveFrame sh.2 f).2.map Frame.serialize := by
      rw [h.queued]
      simp [serveAll]
    rw [h'.queued, hqueued, hone, List.append_assoc, ← List.map_append]
    rfl
  · rw [h'.extracted, h.extracted, List.append_assoc]
    rfl

theorem enqueued_record {e : SessionEvent} (he : TcpSession.enqueuedIn [e] = []) :
    enqueued (s.record e) = enqueued s := by
  show TcpSession.enqueuedIn (s.trace ++ [e]) = _
  rw [TcpSession.enqueuedIn_append, he, List.append_nil]
  rfl

theorem onRaw_serviced (hstate : s.state = .authenticated) (hf : Sendable f) :
    Serviced (s, b) [f] ((TcpSession.reader S).onRaw (s, b) f.serialize) := by
  have hserve : serveAll serveFrame b [f] = ((serveFrame b f).1, (serveFrame b f).2) := by
    simp [serveAll]
  have hrecord : (s.record (.extracted f)).state = .authenticated := hstate
  unfold Reader.onRaw
  rw [frameOf_serialize hf.built]
  show Serviced _ _ (TcpSession.processExtractedFrame S (s, b) f).1
  have hextracted : TcpSession.extractedIn (TcpSession.processExtractedFrame S (s, b) f).1.1.trace =
      TcpSession.extractedIn s.trace ++ [f] := TcpSession.processExtractedFrame_extracted f
  simp only [TcpSession.processExtractedFrame, hrecord] at hextracted ⊢
  have hpush : serveFrame b f = (b.processPush f, []) →
      Serviced (s, b) [f] ((s.record (.extracted f)).record (.processPush f), b.processPush f) := by
    intro heq
    refine ⟨?_, ?_, ?_, rfl, rfl⟩
    · rw [hserve, heq]
    · rw [hserve, heq, List.map_nil, List.append_nil, enqueued_record rfl, enqueued_record rfl]
    · simp [TcpSession.record, TcpSession.extractedIn]
  have hpoll : ∀ response b', serveFrame b f = (b', [response]) →
      TcpSession.extractedIn (((s.record (.extracted f)).record (.processPoll f.mailboxId)).doWrite
        response.serialize).trace = TcpSession.extractedIn s.trace ++ [f] →
      Serviced (s, b) [f]
        (((s.record (.extracted f)).record (.processPoll f.mailboxId)).doWrite response.serialize,
          b') := by
    intro response b' heq hnoted
    obtain ⟨hqueued, hstate', hopen, -⟩ := doWrite_enqueued
      ((s.record (.extracted f)).record (.processPoll f.mailboxId)) response.serialize
    refine ⟨?_, ?_, hnoted, hstate', hopen⟩
    · rw [hserve, heq]
    · rw [hserve, heq, hqueued, enqueued_record rfl, enqueued_record rfl]
      rfl
  rcases hf.action with haction | haction | haction
  · rw [haction]
    exact hpush (by simp [serveFrame, haction])
  · rw [haction]
    exact hpush (by simp [serveFrame, haction])
  · rw [haction] at hextracted ⊢
    have hserves : serveFrame b f = match b.processPoll f.mailboxId with
        | (some response, b) => (b, [response])
        | (none, b) => (b, [Frame.createPoll f.mailboxId]) := by
      simp only [serveFrame, haction]
    rcases hanswer : FrameHandler.processPoll b f.mailboxId with ⟨_ | response, b'⟩
    · rw [hanswer] at hextracted
      exact hpoll _ b' (hserves.trans (by rw [show b.processPoll _ = _ from hanswer])) hextracted
    · rw [hanswer] at hextracted
      exact hpoll response b' (hserves.trans (by rw [show b.processPoll _ = _ from hanswer]))
        hextracted

/-- The frames of a chunk. A session whose socket was closed while the handler waited to run
gets no further than the first. -/
theorem absorb_serviced (S : Sodium) (s : TcpSession) (b : MessageBroker) (fs : List Frame)
    (hstate : s.state = .authenticated) (hfs : ∀ f ∈ fs, Sendable f) :
    ∃ new rest sh' stop, fs = new ++ rest ∧ Serviced (s, b) new sh' ∧
      (TcpSession.reader S).absorb (s, b) (fs.map Frame.serialize) = (sh', stop) ∧
      (s.socketOpen = true → rest = [] ∧ stop = none) := by
  induction fs generalizing s b with
  | nil => exact ⟨[], [], (s, b), none, rfl, .refl _, rfl, fun _ => ⟨rfl, rfl⟩⟩
  | cons f fs ih =>
      have hone := onRaw_serviced (S := S) (b := b) hstate (hfs f List.mem_cons_self)
      rw [List.map_cons, Reader.absorb]
      split
      · obtain ⟨new, rest, sh', stop, hnew, hserved, habsorb, hopen⟩ := ih
          (s := ((TcpSession.reader S).onRaw (s, b) f.serialize).1)
          (b := ((TcpSession.reader S).onRaw (s, b) f.serialize).2)
          (hone.state.trans hstate) fun g hg => hfs g (List.mem_cons_of_mem f hg)
        exact ⟨f :: new, rest, sh', stop, congrArg (f :: ·) hnew, hone.cons hserved, habsorb,
          fun hs => hopen (hone.socketOpen.trans hs)⟩
      · next hclosed =>
        refine ⟨[f], fs, _, _, rfl, hone, rfl, fun hs => ?_⟩
        exact absurd (hone.socketOpen.trans hs) hclosed

/-- How far a session has got: it reads no more, it waits for the rest of the answer, or the
broker has been given the frames `done`. -/
inductive SessionSide (challenge : ByteVec challengSize) (s : TcpSession) (arrived : Bytes) :
    Option Frame → List Frame → Prop where
  | ended {resp : Option Frame} {done : List Frame} (hread : s.readPending = false) :
      SessionSide challenge s arrived resp done
  | waiting {resp : Option Frame} (hstate : s.state = .unauthenticated)
      (hcurrent : s.currentChallenge = challenge.toList) (hmore : cutFrame arrived = .more)
      (hparser : s.parser = onBytes arrived) : SessionSide challenge s arrived resp []
  | serving {resp : Frame} {done : List Frame} {r : Bytes} (hstate : s.state = .authenticated)
      (harrived : arrived = wire (resp :: done) ++ r) (hmore : cutFrame r = .more)
      (hparser : s.parser = onBytes r) : SessionSide challenge s arrived (some resp) done

theorem SessionSide.congr (h : SessionSide challenge s arrived resp done)
    (hread : s'.readPending = true → s.readPending = true) (hstate : s'.state = s.state)
    (hcurrent : s'.currentChallenge = s.currentChallenge) (hparser : s'.parser = s.parser) :
    SessionSide challenge s' arrived resp done := by
  cases h with
  | ended hread' =>
      exact .ended (Bool.eq_false_iff.mpr fun h => absurd ((hread h).symm.trans hread') (by decide))
  | waiting hstate' hcurrent' hmore hparser' =>
      exact .waiting (hstate.trans hstate') (hcurrent.trans hcurrent') hmore
        (hparser.trans hparser')
  | serving hstate' harrived hmore hparser' =>
      exact .serving (hstate.trans hstate') harrived hmore (hparser.trans hparser')

theorem enqueued_onWritten (s : TcpSession) (errorCode : Bool) :
    enqueued (s.onWritten errorCode) = enqueued s := by
  unfold TcpSession.onWritten
  dsimp only
  split
  · split
    · exact enqueued_record rfl
    · exact TcpSession.processWriteQueue_enqueued _
  · rfl

/-- The handler of a write has to do with the queue and the socket only. -/
theorem SessionSide.onWritten (h : SessionSide challenge s arrived resp done) (errorCode : Bool) :
    SessionSide challenge (s.onWritten errorCode) arrived resp done := by
  unfold TcpSession.onWritten TcpSession.processWriteQueue
  dsimp only
  split
  · split
    · exact h.congr id rfl rfl rfl
    · split <;> exact h.congr id rfl rfl rfl
  · exact h

theorem SessionSide.responds (h : SessionSide challenge s arrived none done) (resp : Frame) :
    SessionSide challenge s arrived (some resp) done := by
  cases h with
  | ended hread => exact .ended hread
  | waiting hstate hcurrent hmore hparser => exact .waiting hstate hcurrent hmore hparser

/-- A session that has accepted an answer. -/
def admitted (s : TcpSession) (resp : Frame) : TcpSession :=
  { s.record (.extracted resp) with state := .authenticated }

theorem enqueued_admitted (s : TcpSession) (resp : Frame) :
    enqueued (admitted s resp) = enqueued s :=
  enqueued_record rfl

theorem extractedIn_admitted (s : TcpSession) (resp : Frame) :
    TcpSession.extractedIn (admitted s resp).trace = TcpSession.extractedIn s.trace ++ [resp] :=
  TcpSession.extractedIn_append _ _

theorem onRaw_answer {resp : Frame} (hstate : s.state = .unauthenticated)
    (hcurrent : s.currentChallenge = challenge.toList) (hbuilt : resp.Built)
    (hvalid : TcpSession.ValidAuth S challenge.toList resp) :
    (TcpSession.reader S).onRaw (s, b) resp.serialize = (admitted s resp, b) := by
  have hrecord : (s.record (.extracted resp)).state = .unauthenticated := hstate
  have hcheck : TcpSession.ValidAuth S (s.record (.extracted resp)).currentChallenge resp := by
    show TcpSession.ValidAuth S s.currentChallenge resp
    rw [hcurrent]
    exact hvalid
  unfold Reader.onRaw
  rw [frameOf_serialize hbuilt]
  show (TcpSession.processExtractedFrame S (s, b) resp).1 = _
  unfold TcpSession.processExtractedFrame
  dsimp only
  rw [hrecord]
  dsimp only
  rw [TcpSession.handleAuthResponse_valid hcheck]
  rfl

/-- What reading some bytes leaves behind, by what becomes of their frames. -/
theorem readBytes_absorb {st st' : TcpSession × MessageBroker} {bytes r : Bytes}
    {raws : List RawFrame} {stop : Option (List RawFrame)}
    (hsplit : splitStream bytes = (raws, .unfinished r))
    (habsorb : (TcpSession.reader S).absorb st raws = (st', stop)) :
    ∃ p, ((TcpSession.reader S).readBytes st bytes).1 = ({ st'.1 with parser := p }, st'.2) ∧
      (stop = none → p = onBytes r) := by
  rw [Reader.readBytes, hsplit, habsorb]
  cases stop with
  | none => exact ⟨onBytes r, rfl, fun _ => rfl⟩
  | some rest => exact ⟨{}, rfl, fun h => by cases h⟩

/-- The end of the handler: the next read is posted if the socket is open. -/
theorem SessionSide.of_serving {resp : Frame} {r : Bytes} {p : FrameParser}
    (hstate : s.state = .authenticated) (harrived : arrived = wire (resp :: done) ++ r)
    (hmore : cutFrame r = .more) (hp : s.socketOpen = true → p = onBytes r) :
    SessionSide challenge { s with parser := p, readPending := s.socketOpen } arrived (some resp)
      done := by
  cases hopen : s.socketOpen with
  | false => exact .ended rfl
  | true => exact .serving hstate harrived hmore (hp hopen)

/-- **A read of the session.** The frames that it completes go to the broker, the answer to the
challenge apart, and the answers of the broker are queued. -/
theorem SessionSide.onRead (h : SessionSide challenge s arrived resp done)
    (hread : s.readPending = true) (hup : ∀ f ∈ up, Sendable f)
    (hresp : ∀ f ∈ resp, f.Built ∧ TcpSession.ValidAuth S challenge.toList f)
    (hnone : resp = none → up = [])
    (hchunk : arrived ++ chunk <+: wire (resp.toList ++ (done ++ up))) :
    ∃ new rest, up = new ++ rest ∧
      SessionSide challenge (TcpSession.onRead S (s, b) chunk).1 (arrived ++ chunk) resp
        (done ++ new) ∧
      (TcpSession.onRead S (s, b) chunk).2 = (serveAll serveFrame b new).1 ∧
      enqueued (TcpSession.onRead S (s, b) chunk).1 =
        enqueued s ++ (serveAll serveFrame b new).2.map Frame.serialize ∧
      ∃ auth, TcpSession.extractedIn (TcpSession.onRead S (s, b) chunk).1.trace =
          TcpSession.extractedIn s.trace ++ (auth ++ new) ∧
        ∀ f ∈ auth, f.action = .authResponse := by
  cases h with
  | ended hread' => exact absurd (hread.symm.trans hread') (by decide)
  | waiting hstate hcurrent hmore hparser =>
      rw [TcpSession.onRead_eq S (show (s, b).1.readPending = true from hread) hparser
        (cutFrame_more_iff.mp hmore)]
      dsimp only
      have hframes : ∀ f ∈ resp.toList ++ up, IsFrame f.serialize := by
        intro f hf
        rcases List.mem_append.mp hf with hf | hf
        · exact isFrame_serialize (hresp f (Option.mem_toList.mp hf)).1.payload_length_le
        · exact (hup f hf).isFrame
      obtain ⟨new, rest, r, hnew, hb, hmore', hsplit⟩ := splitStream_of_wire hframes hchunk
      cases new with
      | nil =>
          -- the answer is not complete yet
          have hr : arrived ++ chunk = r := hb
          have hnothing : (TcpSession.reader S).absorb ({ s with readPending := false }, b) [] =
              (({ s with readPending := false }, b), none) := rfl
          obtain ⟨p, hrun, hp⟩ := readBytes_absorb hsplit hnothing
          rw [hrun, hr]
          exact ⟨[], up, rfl, .waiting hstate hcurrent hmore' (hp rfl), rfl,
            (List.append_nil _).symm, [], (List.append_nil _).symm, List.forall_mem_nil _⟩
      | cons f new =>
          cases resp with
          | none =>
              rw [hnone rfl] at hnew
              cases hnew
          | some resp =>
              obtain ⟨rfl, hrest⟩ := List.cons.inj hnew
              have hup' : up = new ++ rest := hrest
              obtain ⟨hbuilt, hvalid⟩ := hresp resp rfl
              have hauth : ∀ f ∈ [resp], f.action = .authResponse :=
                List.forall_mem_singleton.mpr hvalid.1
              have hraw := onRaw_answer (S := S) (b := b) (s := { s with readPending := false })
                hstate hcurrent hbuilt hvalid
              by_cases hopen : s.socketOpen = true
              · obtain ⟨new', rest', sh', stop, hnew', hserved, habsorb, hall⟩ :=
                  absorb_serviced S (admitted { s with readPending := false } resp) b new rfl
                    fun f hf => hup f (hup' ▸ List.mem_append_left rest hf)
                obtain ⟨rfl, rfl⟩ := hall hopen
                rw [List.append_nil] at hnew'
                subst hnew'
                have hwhole : (TcpSession.reader S).absorb ({ s with readPending := false }, b)
                    ((resp :: new).map Frame.serialize) = (sh', none) := by
                  rw [List.map_cons, Reader.absorb, hraw, if_pos (by exact hopen)]
                  exact habsorb
                obtain ⟨p, hrun, hp⟩ := readBytes_absorb hsplit hwhole
                rw [hrun]
                refine ⟨new, rest, hrest, ?_, hserved.broker, ?_, [resp], ?_, hauth⟩
                · exact .of_serving hserved.state hb hmore' fun _ => hp rfl
                · exact hserved.queued.trans (by rw [enqueued_admitted]; rfl)
                · rw [← List.append_assoc, ← extractedIn_admitted s resp]
                  exact hserved.extracted
              · have hstop : (TcpSession.reader S).absorb ({ s with readPending := false }, b)
                    ((resp :: new).map Frame.serialize) =
                    ((admitted { s with readPending := false } resp, b),
                      some (new.map Frame.serialize)) := by
                  rw [List.map_cons, Reader.absorb, hraw, if_neg (by exact hopen)]
                obtain ⟨p, hrun, -⟩ := readBytes_absorb hsplit hstop
                rw [hrun]
                refine ⟨[], up, rfl, .ended ?_, rfl, ?_, [resp], ?_, hauth⟩
                · exact Bool.eq_false_iff.mpr hopen
                · exact (enqueued_admitted _ resp).trans (List.append_nil _).symm
                · exact extractedIn_admitted s resp
  | @serving resp _ r hstate harrived hmore hparser =>
      rw [TcpSession.onRead_eq S (show (s, b).1.readPending = true from hread) hparser
        (cutFrame_more_iff.mp hmore)]
      dsimp only
      have hnext : r ++ chunk <+: wire up := by
        rw [harrived, show (some resp).toList ++ (done ++ up) = (resp :: done) ++ up from rfl,
          wire_append, List.append_assoc] at hchunk
        exact (List.prefix_append_right_inj _).mp hchunk
      obtain ⟨new, rest, r', hnew, hb, hmore', hsplit⟩ := splitStream_of_wire
        (fun f hf => (hup f hf).isFrame) hnext
      obtain ⟨new', rest', sh', stop, hnew', hserved, habsorb, hall⟩ :=
        absorb_serviced S { s with readPending := false } b new hstate
          fun f hf => hup f (hnew ▸ List.mem_append_left rest hf)
      obtain ⟨p, hrun, hp⟩ := readBytes_absorb hsplit habsorb
      rw [hrun]
      refine ⟨new', rest' ++ rest, ?_, ?_, hserved.broker, hserved.queued, [], hserved.extracted,
        List.forall_mem_nil _⟩
      · rw [hnew, hnew', List.append_assoc]
      · by_cases hopen : s.socketOpen = true
        · obtain ⟨rfl, rfl⟩ := hall hopen
          rw [List.append_nil] at hnew'
          subst hnew'
          refine .of_serving (hserved.state.trans hstate) ?_ hmore' fun _ => hp rfl
          rw [harrived, List.append_assoc, hb, ← List.cons_append, wire_append, List.append_assoc]
        · refine .ended ?_
          show sh'.1.socketOpen = false
          rw [hserved.socketOpen]
          exact Bool.eq_false_iff.mpr hopen

end Session

end BlankChat.System
