import BlankChat.Cli.Repl
import BlankChat.Network.TcpClient

/-!
# What the length of the traffic shows

A client that is connected queues one frame for every tick of its timer, and one for
every challenge. All frames fill whole cells, and one cell is enough for everything but a
long text. So the lengths of the frames tell how many ticks and challenges there were,
and nothing about what the client does.

Main result: `traffic_shape`.
-/

namespace BlankChat.Cli

open Lib BlankChat.Core Crypto Protocol Client Network

/-! ## The content of a frame -/

/-- What a frame from the application is there for. -/
inductive Content : Type where
  | poll
  | text (t : Bytes)
  | receipt
  | rotateRequest
  | rotateAck

/-- The frame was built for the content, with some key and nonce. -/
def Carries (S : Sodium) (f : Frame) : Content → Prop
  | .poll => ∃ mailboxId, f = Frame.createPoll mailboxId
  | .text t => ∃ mailboxId key nonce ciphertext,
      encryptWithPadding S key nonce (buildTextMessage t) = some ciphertext ∧
        f = Frame.createPush mailboxId ciphertext
  | .receipt => ∃ mailboxId key nonce text ciphertext,
      encryptWithPadding S key nonce (hashPayload S text) = some ciphertext ∧
        f = Frame.createAck mailboxId ciphertext
  | .rotateRequest => ∃ mailboxId key nonce ephemeral signature ciphertext,
      encryptWithPadding S key nonce (buildPfsRotateRequest ephemeral signature) =
          some ciphertext ∧
        f = Frame.createPush mailboxId ciphertext
  | .rotateAck => ∃ mailboxId key nonce ephemeral signature ciphertext,
      encryptWithPadding S key nonce (buildPfsRotateAck ephemeral signature) =
          some ciphertext ∧
        f = Frame.createPush mailboxId ciphertext

/-- The bytes of the frame on the wire, as it should be. -/
def Content.wireLength : Content → ℕ
  | .text t => 498 * ((t.length + 63 + 497) / 498)
  | _ => 498

/-- A payload that leaves room for the header in whole cells is written as it is. -/
theorem serialize_length_of_cells {f : Frame} {n : ℕ}
    (h : f.payload.length + headerSize = 498 * n) : f.serialize.length = 498 * n := by
  rw [serialize_length, h]
  rw [show headerSize = 21 from rfl] at h
  omega

theorem buildPfsRotate_length (opcode : PayloadOpcode) (e : PublicKeyType) (sig : Signature) :
    (buildPfsRotate opcode e sig).length = 97 := by
  have he : e.toList.length = 32 := e.toList_length
  have hsig : sig.toList.length = 64 := sig.toList_length
  simp only [buildPfsRotate, List.length_cons, List.length_append, he, hsig]

theorem hashPayload_length (S : Sodium) (text : Bytes) : (hashPayload S text).length = 32 := by
  have hhash : (S.cryptoGenerichash 16 text).toList.length = 16 :=
    (S.cryptoGenerichash 16 text).toList_length
  unfold hashPayload
  rw [encodeHex_length, hhash]

theorem paddedControl_length {data : Payload} (h : data.length < paddedControlPayloadSize) :
    (Frame.padControl data).length = paddedControlPayloadSize := by
  unfold Frame.padControl
  rw [if_pos h, List.length_append, List.length_replicate]
  omega

/-- **Every frame has the length of its content.** -/
theorem Carries.serialize_length {S : Sodium} (hS : S.AeadLength) {f : Frame} {content : Content}
    (h : Carries S f content) : f.serialize.length = content.wireLength := by
  have hcell : ∀ {n : ℕ}, n ≤ 436 → 498 * cells n = 498 := by
    intro n hn
    unfold cells
    omega
  cases content with
  | poll =>
      obtain ⟨mailboxId, rfl⟩ := h
      refine serialize_length_of_cells (n := 1) ?_
      show (List.replicate paddedControlPayloadSize 0x00).length + headerSize = _
      rw [List.length_replicate]
      rfl
  | text t =>
      obtain ⟨mailboxId, key, nonce, ciphertext, hct, rfl⟩ := h
      have hlen := serialize_length_of_cells (f := Frame.createPush mailboxId ciphertext)
        (encryptWithPadding_length hS hct)
      rw [hlen]
      rfl
  | receipt =>
      obtain ⟨mailboxId, key, nonce, text, ciphertext, hct, rfl⟩ := h
      have hlen := serialize_length_of_cells (f := Frame.createAck mailboxId ciphertext)
        (encryptWithPadding_length hS hct)
      rw [hlen, hashPayload_length]
      exact hcell (by decide)
  | rotateRequest =>
      obtain ⟨mailboxId, key, nonce, e, sig, ciphertext, hct, rfl⟩ := h
      have hlen := serialize_length_of_cells (f := Frame.createPush mailboxId ciphertext)
        (encryptWithPadding_length hS hct)
      rw [hlen, buildPfsRotateRequest, buildPfsRotate_length]
      exact hcell (by decide)
  | rotateAck =>
      obtain ⟨mailboxId, key, nonce, e, sig, ciphertext, hct, rfl⟩ := h
      have hlen := serialize_length_of_cells (f := Frame.createPush mailboxId ciphertext)
        (encryptWithPadding_length hS hct)
      rw [hlen, buildPfsRotateAck, buildPfsRotate_length]
      exact hcell (by decide)

theorem authResponse_length {S : Sodium} {challenge : Payload} {resp : Frame}
    (h : authResponse S challenge = some resp) : resp.serialize.length = 498 := by
  obtain ⟨nonce, -, rfl⟩ := Option.map_eq_some_iff.mp h
  refine serialize_length_of_cells (n := 1) ?_
  show (Frame.padControl (nonceBytes nonce)).length + headerSize = _
  rw [paddedControl_length]
  · rfl
  · show ((List.range 8).map _).length < _
    rw [List.length_map, List.length_range]
    decide

/-! ## What gets into the outbox -/

/-- The frame carries something; if that is a text, then one of `T`. -/
def Carried (S : Sodium) (T : Bytes → Prop) (f : Frame) : Prop :=
  ∃ content, Carries S f content ∧ ∀ t, content = .text t → T t

/-- Whatever is new in the outbox carries something. -/
def Pushes (E : Setup) (T : Bytes → Prop) (r r' : Repl) : Prop :=
  ∀ f ∈ r'.outbox, f ∈ r.outbox ∨ Carried E.sodium T f

namespace Pushes

variable {E : Setup} {T : Bytes → Prop} {r r' r'' : Repl}

theorem of_eq (h : r'.outbox = r.outbox) : Pushes E T r r' := by
  intro f hf
  rw [h] at hf
  exact .inl hf

theorem trans (h : Pushes E T r r') (h' : Pushes E T r' r'') : Pushes E T r r'' := by
  intro f hf
  rcases h' f hf with hf | hf
  · exact h f hf
  · exact .inr hf

theorem push (h : Pushes E T r r') {f : Frame} (hf : Carried E.sodium T f) :
    Pushes E T r (r'.push f) := by
  intro f' hf'
  rcases List.mem_append.mp hf' with hf' | hf'
  · exact h f' hf'
  · rw [List.mem_singleton.mp hf']
    exact .inr hf

end Pushes

namespace Repl

variable {E : Setup} {T : Bytes → Prop} (r : Repl) (a : Bytes) (c : Contact)

theorem initiatePfsRotation_pushes : Pushes E T r (r.initiatePfsRotation E c).2.1 := by
  unfold initiatePfsRotation generate encrypt
  dsimp only
  split
  · exact .of_eq rfl
  · split
    · next h =>
          obtain ⟨-, rfl⟩ := Prod.mk.inj h
          exact .of_eq rfl
    · next h =>
        obtain ⟨-, rfl⟩ := Prod.mk.inj h
        split
        · next h' =>
              obtain ⟨-, rfl⟩ := Prod.mk.inj h'
              exact .of_eq rfl
        · next h' =>
            obtain ⟨hct, rfl⟩ := Prod.mk.inj h'
            refine Pushes.push (.of_eq rfl) ⟨.rotateRequest, ⟨_, _, _, _, _, _, hct, rfl⟩, ?_⟩
            intro t ht
            cases ht

theorem maybeStartInitialPfs_pushes : Pushes E T r (r.maybeStartInitialPfs E a c).1 := by
  unfold maybeStartInitialPfs
  split
  · exact .of_eq rfl
  · have h := initiatePfsRotation_pushes (E := E) (T := T) r c
    split
    · next heq =>
        rw [heq] at h
        exact h.trans (.of_eq rfl)
    · next heq =>
        rw [heq] at h
        exact h

theorem checkMessageInterval_pushes : Pushes E T r (r.checkMessageInterval E c).1 := by
  unfold checkMessageInterval
  split
  · exact Pushes.trans (.of_eq rfl) (initiatePfsRotation_pushes (r.print .thresholdReached) c)
  · exact .of_eq rfl

theorem startPendingInitialPfs_pushes : Pushes E T r (r.startPendingInitialPfs E) := by
  unfold startPendingInitialPfs
  generalize r.contactAliases = l
  induction l generalizing r with
  | nil => exact .of_eq rfl
  | cons a l ih =>
      rw [List.foldl_cons]
      refine Pushes.trans ?_ (ih _)
      split
      · exact (maybeStartInitialPfs_pushes r a _).trans (.of_eq rfl)
      · exact .of_eq rfl

theorem queueText_pushes {text : Bytes} (htext : T text) :
    Pushes E T r (r.queueText E a c text) := by
  unfold queueText encrypt
  split
  · next h =>
        obtain ⟨-, rfl⟩ := Prod.mk.inj h
        exact .of_eq rfl
  · next h =>
      obtain ⟨hct, rfl⟩ := Prod.mk.inj h
      refine Pushes.trans (Pushes.push (.of_eq rfl) ⟨.text text, ⟨_, _, _, _, hct, rfl⟩, ?_⟩)
        (.of_eq rfl)
      intro t ht
      cases ht
      exact htext

theorem handleSend_pushes {text : Bytes} (htext : T text) :
    Pushes E T r (r.handleSend E a text) := by
  unfold handleSend
  split
  · exact .of_eq rfl
  · next c _ =>
      split
      · exact (maybeStartInitialPfs_pushes r a c).trans (.of_eq rfl)
      · refine Pushes.trans ?_ (queueText_pushes _ a _ htext)
        refine Pushes.trans (Pushes.trans ?_ (checkMessageInterval_pushes _ c)) (.of_eq rfl)
        exact .of_eq rfl

theorem handleAddContact_pushes (pubKey : Option PublicKeyType) :
    Pushes E T r (r.handleAddContact E a pubKey) := by
  have hremember : ∀ r : Repl, Pushes E T r (r.rememberAlias a) := by
    intro r
    unfold rememberAlias
    split <;> exact .of_eq rfl
  unfold handleAddContact
  split
  · exact .of_eq rfl
  · split
    · exact .of_eq rfl
    · next book _ =>
        dsimp only
        generalize hr₁ : ({ r with addressBook := book }.print (.contactAdded a)).rememberAlias a = r₁
        have hadded : Pushes E T r r₁ := by
          rw [← hr₁]
          exact Pushes.trans (.of_eq rfl) (hremember _)
        split
        · exact hadded
        · next c _ =>
            exact (hadded.trans (maybeStartInitialPfs_pushes r₁ a c)).trans (.of_eq rfl)

theorem handleTextMessage_pushes (plaintext msgData : Bytes) :
    Pushes E T r (r.handleTextMessage E a c plaintext msgData) := by
  unfold handleTextMessage encrypt
  dsimp only
  split
  · next h =>
        obtain ⟨-, rfl⟩ := Prod.mk.inj h
        exact .of_eq rfl
  · next h =>
      obtain ⟨hct, rfl⟩ := Prod.mk.inj h
      refine Pushes.trans (Pushes.push (.of_eq rfl)
        ⟨.receipt, ⟨_, _, _, _, _, hct, rfl⟩, ?_⟩) (.of_eq rfl)
      intro t ht
      cases ht

theorem answerRotation_pushes (e : PublicKeyType) (k : EphemeralKey) :
    Pushes E T r (r.answerRotation E a c e k).1 := by
  unfold answerRotation encrypt
  dsimp only
  split
  · next h =>
        obtain ⟨-, rfl⟩ := Prod.mk.inj h
        exact .of_eq rfl
  · next ciphertext r₁ h =>
      obtain ⟨hct, rfl⟩ := Prod.mk.inj h
      have hpush : ∀ {r' : Repl}, r'.outbox = r.outbox →
          Pushes E T r (r'.push (Frame.createPush c.txMailboxId ciphertext)) := by
        intro r' hr'
        refine Pushes.push (.of_eq hr') ⟨.rotateAck, ⟨_, _, _, _, _, _, hct, rfl⟩, ?_⟩
        intro t ht
        cases ht
      split
      · exact hpush rfl
      · exact Pushes.trans (hpush rfl) (.of_eq rfl)

theorem handlePfsRotateRequest_pushes (plaintext : Bytes) :
    Pushes E T r (r.handlePfsRotateRequest E a c plaintext).1 := by
  unfold handlePfsRotateRequest generate
  split
  · exact .of_eq rfl
  · split
    · exact .of_eq rfl
    · split
      · exact Pushes.trans (.of_eq rfl) (maybeStartInitialPfs_pushes _ a c)
      · split
        · next h =>
              obtain ⟨-, rfl⟩ := Prod.mk.inj h
              exact .of_eq rfl
        · next h =>
            obtain ⟨-, rfl⟩ := Prod.mk.inj h
            exact Pushes.trans (.of_eq rfl) (answerRotation_pushes _ a c _ _)

theorem handlePfsRotateAck_pushes (plaintext : Bytes) :
    Pushes E T r (r.handlePfsRotateAck E a c plaintext).1 := by
  unfold handlePfsRotateAck
  split
  · split
    · exact .of_eq rfl
    · dsimp only
      split
      · exact .of_eq rfl
      · split <;> exact .of_eq rfl
  · exact .of_eq rfl

theorem dispatch_pushes (plaintext : Bytes) : Pushes E T r (r.dispatch E a c plaintext).1 := by
  unfold dispatch
  split
  · split
    · exact .of_eq rfl
    · split
      · exact .of_eq rfl
      · exact handleTextMessage_pushes r a c _ _
  · exact handlePfsRotateRequest_pushes r a c plaintext
  · exact handlePfsRotateAck_pushes r a c plaintext
  · exact .of_eq rfl

theorem onFrameReceived_pushes (f : Frame) : Pushes E T r (r.onFrameReceived E f) := by
  have hdrop : ∀ a c usedOld, Pushes E T r (r.dropOldMailbox a c usedOld).1 := by
    intro a c usedOld
    unfold dropOldMailbox
    split <;> exact .of_eq rfl
  unfold onFrameReceived
  split
  · exact .of_eq rfl
  · dsimp only
    split
    · exact .of_eq rfl
    · split
      · exact .of_eq rfl
      · split
        · refine Pushes.trans ?_ (.of_eq rfl)
          unfold processPushFrame
          split
          · exact .of_eq rfl
          · exact (hdrop _ _ _).trans (dispatch_pushes _ _ _ _)
        · unfold processAckFrame
          split <;> exact .of_eq rfl
        · exact .of_eq rfl

theorem handleConnect_pushes : Pushes E T r (r.handleConnect E) :=
  Pushes.trans (.of_eq rfl) (startPendingInitialPfs_pushes _)

theorem getNextFrameForCBR_spec :
    (r.getNextFrameForCBR.1 ∈ r.outbox ∨ Carries E.sodium r.getNextFrameForCBR.1 .poll) ∧
      Pushes E T r r.getNextFrameForCBR.2 := by
  unfold getNextFrameForCBR
  split
  · next f outbox hout =>
      refine ⟨.inl (by rw [hout]; exact List.mem_cons_self), ?_⟩
      intro f' hf'
      rw [hout]
      exact .inl (List.mem_cons_of_mem _ hf')
  · split
    · exact ⟨.inr ⟨_, rfl⟩, .of_eq rfl⟩
    · exact ⟨.inr ⟨_, rfl⟩, .of_eq rfl⟩

end Repl

/-! ## The client on its connection -/

/-- The callbacks that `HandleConnect` hands to the network. -/
def application (E : Setup) : Application Repl where
  frameProvider := Repl.getNextFrameForCBR
  frameReceiver := fun r f => r.onFrameReceived E f

/-- What can happen to a client and its connection. -/
inductive ClientInput : Type where
  | connect
  | send (aliasName text : Bytes)
  | add (aliasName : Bytes) (pubKey : Option PublicKeyType)
  | tick
  | read (chunk : Bytes)
  | readFailed (aborted : Bool)
  | written (errorCode : Bool)
  | disconnect

/-- `HandleConnect` connects and starts the engine; the other commands concern the
application only. -/
def ClientInput.events (E : Setup) : ClientInput → List (NetworkEvent Repl)
  | .connect => [.connect, .start, .command (Repl.handleConnect E)]
  | .send aliasName text => [.command fun r => r.handleSend E aliasName text]
  | .add aliasName pubKey => [.command fun r => r.handleAddContact E aliasName pubKey]
  | .tick => [.tick]
  | .read chunk => [.read chunk]
  | .readFailed aborted => [.readFailed aborted]
  | .written errorCode => [.written errorCode]
  | .disconnect => [.disconnect]

/-- The client process with its connection. -/
def runClient (E : Setup) (inputs : List ClientInput) : TcpClient Repl :=
  TcpClient.run (application E) E.sodium { app := {} } (inputs.flatMap (ClientInput.events E))

/-- A tick (`false`) or a challenge (`true`). -/
def storyEvent : ClientEvent → Option Bool
  | .ticked => some false
  | .extracted f => if f.action = .authChallenge then some true else none
  | _ => none

/-- The ticks and the challenges of a trace, in order. -/
def story (l : List ClientEvent) : List Bool := l.filterMap storyEvent

def enqueuedLength : ClientEvent → Option ℕ
  | .responded raw => some raw.length
  | .provided raw => some raw.length
  | _ => none

/-- The lengths of the frames that were queued, in order. -/
def enqueuedLengths (l : List ClientEvent) : List ℕ := l.filterMap enqueuedLength

/-- What a story makes a client queue: one cell for each challenge, and one for each tick
after the first of them. -/
def expectedLengths (authenticated : Bool) : List Bool → List ℕ
  | [] => []
  | true :: l => 498 :: expectedLengths true l
  | false :: l =>
      if authenticated then 498 :: expectedLengths true l else expectedLengths false l

theorem story_append (l l' : List ClientEvent) : story (l ++ l') = story l ++ story l' :=
  List.filterMap_append

theorem enqueuedLengths_append (l l' : List ClientEvent) :
    enqueuedLengths (l ++ l') = enqueuedLengths l ++ enqueuedLengths l' :=
  List.filterMap_append

theorem expectedLengths_append (authenticated : Bool) (l l' : List Bool) :
    expectedLengths authenticated (l ++ l') = expectedLengths authenticated l ++
      expectedLengths (authenticated || l.any id) l' := by
  induction l generalizing authenticated with
  | nil =>
      rw [List.any_nil, Bool.or_false]
      rfl
  | cons b l ih =>
      cases b with
      | true => simp [expectedLengths, ih]
      | false => cases authenticated <;> simp [expectedLengths, ih]

section Shape

variable {E : Setup} {T : Bytes → Prop} {s s' : TcpClient Repl}

/-- What the application has queued carries something. -/
def Ready (E : Setup) (T : Bytes → Prop) (r : Repl) : Prop :=
  ∀ f ∈ r.outbox, Carried E.sodium T f

theorem Ready.pushes {r r' : Repl} (h : Ready E T r) (hpushes : Pushes E T r r') :
    Ready E T r' := by
  intro f hf
  rcases hpushes f hf with hf | hf
  · exact h f hf
  · exact hf

theorem Ready.provided {r : Repl} (h : Ready E T r) :
    Carried E.sodium T r.getNextFrameForCBR.1 ∧ Ready E T r.getNextFrameForCBR.2 := by
  obtain ⟨hframe, hpushes⟩ := Repl.getNextFrameForCBR_spec (E := E) (T := T) r
  refine ⟨?_, h.pushes hpushes⟩
  rcases hframe with hframe | hframe
  · exact h _ hframe
  · refine ⟨.poll, hframe, ?_⟩
    intro t ht
    cases ht

/-- The invariant of a client that is not stuck: what was queued is what the story of its
trace makes it queue, if all frames of the application fit into one cell. -/
structure Shape (E : Setup) (T : Bytes → Prop) (s : TcpClient Repl) : Prop where
  ready : Ready E T s.app
  running : s.searching = false
  auth : s.isAuthenticated = (story s.trace).any id
  responses : ∀ raw, .responded raw ∈ s.trace → raw.length = 498
  lengths : (∀ t, T t → t.length ≤ 435) →
    enqueuedLengths s.trace = expectedLengths false (story s.trace)

/-- A client whose search for a nonce does not end. -/
structure Stuck (E : Setup) (T : Bytes → Prop) (s : TcpClient Repl) : Prop where
  ready : Ready E T s.app
  stuck : s.searching = true
  responses : ∀ raw, .responded raw ∈ s.trace → raw.length = 498

/-- A frame of the application is one cell long when texts are short. -/
theorem Carried.serialize_length {f : Frame} (hS : E.sodium.AeadLength)
    (h : Carried E.sodium T f) (hshort : ∀ t, T t → t.length ≤ 435) :
    f.serialize.length = 498 := by
  obtain ⟨content, hcarries, htext⟩ := h
  rw [hcarries.serialize_length hS]
  cases content with
  | text t =>
      have hlen := hshort t (htext t rfl)
      show 498 * ((t.length + 63 + 497) / 498) = 498
      omega
  | _ => rfl

namespace Shape

/-- **What a step must do**: the events it adds to the trace queue what their part of the
story requires. -/
theorem extend (h : Shape E T s) {l : List ClientEvent} (hready : Ready E T s'.app)
    (hrunning : s'.searching = false) (htrace : s'.trace = s.trace ++ l)
    (hauth : s'.isAuthenticated = (s.isAuthenticated || (story l).any id))
    (hresponses : ∀ raw, .responded raw ∈ l → raw.length = 498)
    (hlengths : (∀ t, T t → t.length ≤ 435) →
      enqueuedLengths l = expectedLengths s.isAuthenticated (story l)) : Shape E T s' := by
  refine ⟨hready, hrunning, ?_, ?_, ?_⟩
  · rw [hauth, htrace, story_append, List.any_append, h.auth]
  · intro raw hraw
    rw [htrace] at hraw
    rcases List.mem_append.mp hraw with hraw | hraw
    · exact h.responses raw hraw
    · exact hresponses raw hraw
  · intro hshort
    rw [htrace, enqueuedLengths_append, story_append, expectedLengths_append, h.lengths hshort,
      hlengths hshort, Bool.false_or, h.auth]

theorem congr (h : Shape E T s) (hready : Ready E T s'.app)
    (hsearching : s'.searching = s.searching) (hauth : s'.isAuthenticated = s.isAuthenticated)
    (htrace : s'.trace = s.trace) : Shape E T s' := by
  refine h.extend (l := []) hready (hsearching.trans h.running) ?_ ?_ ?_ fun _ => rfl
  · rw [htrace, List.append_nil]
  · rw [hauth]
    exact (Bool.or_false _).symm
  · exact fun raw hraw => absurd hraw List.not_mem_nil

theorem record (h : Shape E T s) {e : ClientEvent} (hstory : storyEvent e = none)
    (hlength : enqueuedLength e = none) : Shape E T (s.record e) := by
  have hs : story [e] = [] := List.filterMap_cons_none hstory
  have hl : enqueuedLengths [e] = [] := List.filterMap_cons_none hlength
  refine h.extend h.ready h.running rfl ?_ ?_ ?_
  · rw [hs]
    exact (Bool.or_false _).symm
  · intro raw hraw
    rw [← List.mem_singleton.mp hraw] at hlength
    cases hlength
  · intro _
    rw [hs, hl]
    rfl

theorem disconnect (h : Shape E T s) : Shape E T s.disconnect := by
  have hclosed : Shape E T { s with socketOpen := false } := h.congr h.ready rfl rfl rfl
  exact hclosed.record (e := .closed) rfl rfl

/-- A tick before authentication queues nothing; afterwards it queues one frame. -/
theorem doCbrTick (hS : E.sodium.AeadLength) (h : Shape E T s) :
    Shape E T (s.doCbrTick (application E)) := by
  unfold TcpClient.doCbrTick
  dsimp only
  split
  · next hnot =>
      have hauth : s.isAuthenticated = false := by
        rw [Bool.not_eq_true'] at hnot
        exact hnot
      refine h.extend (l := [.ticked]) h.ready h.running rfl (Bool.or_false _).symm ?_ ?_
      · intro raw hraw
        cases List.mem_singleton.mp hraw
      · intro _
        rw [hauth]
        rfl
  · next hyes =>
      have hauth : s.isAuthenticated = true := by
        rw [Bool.not_eq_true, Bool.not_eq_false'] at hyes
        exact hyes
      obtain ⟨hcarried, hready⟩ := h.ready.provided
      rw [TcpClient.enqueue_eq]
      refine h.extend (l := [.ticked, .provided (Repl.getNextFrameForCBR s.app).1.serialize])
        hready h.running (List.append_assoc _ _ _) (Bool.or_false _).symm ?_ ?_
      · intro raw hraw
        simp only [List.mem_cons, reduceCtorEq, List.not_mem_nil, or_self] at hraw
      · intro hshort
        rw [hauth]
        exact congrArg (fun n => [n]) (hcarried.serialize_length hS hshort)

theorem onFrame (h : Shape E T s) {f : Frame} (hf : Reader.Extractable f) :
    Shape E T (s.onFrame (application E) E.sodium f).1 ∨
      ((s.onFrame (application E) E.sodium f).2 = false ∧
        Stuck E T (s.onFrame (application E) E.sodium f).1) := by
  unfold TcpClient.onFrame
  dsimp only
  split
  · next haction =>
      unfold TcpClient.handleAuthChallenge
      rw [if_neg (Nat.not_lt.mpr (TcpClient.challengSize_le_of_extractable hf haction))]
      cases hresp : authResponse E.sodium f.payload with
      | none =>
          refine .inr ⟨rfl, h.ready, rfl, ?_⟩
          intro raw hraw
          rcases List.mem_append.mp hraw with hraw | hraw
          · exact h.responses raw hraw
          · cases List.mem_singleton.mp hraw
      | some resp =>
          have hlen := authResponse_length hresp
          have hstory : story [.extracted f, .responded resp.serialize] = [true] :=
            List.filterMap_cons_some (if_pos haction)
          simp only [TcpClient.enqueue_eq]
          have hgoing : ¬ (((s.record (.extracted f)).record
              (.responded resp.serialize)).searching = true) := by
            show ¬ s.searching = true
            rw [h.running]
            decide
          rw [if_neg hgoing]
          refine .inl (h.extend (l := [.extracted f, .responded resp.serialize]) h.ready h.running
            (List.append_assoc _ _ _) ?_ ?_ ?_)
          · rw [hstory]
            exact (Bool.or_true _).symm
          · intro raw hraw
            simp only [List.mem_cons, reduceCtorEq, false_or, List.not_mem_nil, or_false,
              ClientEvent.responded.injEq] at hraw
            rw [hraw]
            exact hlen
          · intro _
            rw [hstory]
            exact congrArg (fun n => [n]) hlen
  · next haction =>
      have hextracted : Shape E T (s.record (.extracted f)) := h.record (if_neg haction) rfl
      split
      · have hreceived := hextracted.record (e := .received f) rfl rfl
        refine .inl (hreceived.congr ?_ rfl rfl rfl)
        exact h.ready.pushes (Repl.onFrameReceived_pushes _ f)
      · exact .inl hextracted

theorem onRead (h : Shape E T s) (chunk : Bytes) :
    Shape E T (s.onRead (application E) E.sodium chunk) ∨
      Stuck E T (s.onRead (application E) E.sodium chunk) := by
  unfold TcpClient.onRead
  split
  · refine Reader.readChunk_rule ?_ ?_ ?_ ?_ ?_
      (h.record (e := .bytes chunk) rfl rfl) chunk
    · intro s p hs
      exact hs.congr hs.ready rfl rfl rfl
    · intro s f hf hs
      exact hs.onFrame hf
    · intro s hs
      show (!s.searching) = false
      rw [hs.stuck]
      rfl
    · intro s hs
      exact hs.disconnect.congr hs.ready rfl rfl rfl
    · intro s hs
      exact hs.disconnect.congr hs.ready rfl rfl rfl
  · exact .inl h

theorem onWritten (h : Shape E T s) (errorCode : Bool) : Shape E T (s.onWritten errorCode) := by
  unfold TcpClient.onWritten
  simp only [TcpClient.doWrite_eq]
  split
  · split <;> exact h.congr h.ready rfl rfl rfl
  · exact h

theorem step (hS : E.sodium.AeadLength) (h : Shape E T s) {e : NetworkEvent Repl}
    (he : ∀ f, e = .command f → ∀ r, Pushes E T r (f r)) :
    Shape E T (s.step (application E) E.sodium e) ∨
      Stuck E T (s.step (application E) E.sodium e) := by
  unfold TcpClient.step
  rw [if_neg (by rw [h.running]; decide)]
  cases e with
  | connect =>
      have hopen : Shape E T { s with socketOpen := true } :=
        h.congr h.ready rfl rfl rfl
      exact .inl (hopen.record (e := .connected) rfl rfl)
  | start => exact .inl (h.congr h.ready rfl rfl rfl)
  | tick =>
      left
      dsimp only
      split
      · exact h.doCbrTick hS
      · exact h
  | read chunk => exact h.onRead chunk
  | readFailed aborted =>
      left
      have hidle : Shape E T { s with readsPending := s.readsPending - 1 } :=
        h.congr h.ready rfl rfl rfl
      dsimp only
      split
      · cases aborted with
        | true => exact hidle
        | false => exact hidle.disconnect
      · exact h
  | written errorCode => exact .inl (h.onWritten errorCode)
  | disconnect => exact .inl h.disconnect
  | command f => exact .inl (h.congr (h.ready.pushes (he f rfl s.app)) rfl rfl rfl)

end Shape

theorem events_pushes {input : ClientInput} (htext : ∀ a t, input = .send a t → T t) :
    ∀ e ∈ input.events E, ∀ f, e = .command f → ∀ r, Pushes E T r (f r) := by
  intro e he f hf r
  cases input with
  | connect =>
      rw [hf] at he
      simp only [ClientInput.events, List.mem_cons, List.not_mem_nil, or_false, reduceCtorEq,
        NetworkEvent.command.injEq, false_or] at he
      rw [he]
      exact Repl.handleConnect_pushes r
  | send a t =>
      obtain rfl := List.mem_singleton.mp he
      obtain rfl := NetworkEvent.command.inj hf
      exact Repl.handleSend_pushes r a (htext a t rfl)
  | add a pk =>
      obtain rfl := List.mem_singleton.mp he
      obtain rfl := NetworkEvent.command.inj hf
      exact Repl.handleAddContact_pushes r a pk
  | _ =>
      obtain rfl := List.mem_singleton.mp he
      cases hf

theorem run_shape (hS : E.sodium.AeadLength) (inputs : List ClientInput)
    (htext : ∀ a t, .send a t ∈ inputs → T t) :
    Shape E T (runClient E inputs) ∨ Stuck E T (runClient E inputs) := by
  unfold runClient TcpClient.run
  refine List.foldlRecOn (motive := fun s => Shape E T s ∨ Stuck E T s) _ _ ?_ ?_
  · left
    refine ⟨List.forall_mem_nil _, rfl, rfl, ?_, fun _ => rfl⟩
    exact fun raw hraw => absurd hraw List.not_mem_nil
  · rintro s (hs | hs) e he
    · obtain ⟨input, hinput, he⟩ := List.mem_flatMap.mp he
      refine hs.step hS (events_pushes ?_ e he)
      rintro a t rfl
      exact htext a t hinput
    · right
      unfold TcpClient.step
      rw [if_pos hs.stuck]
      exact hs

end Shape

/-! ## The main result -/

/-- **The shape of the traffic does not depend on secrets.** In every run of a client, a
tick while it is authenticated queues exactly one frame, which is as long as its content
requires, and every answer to a challenge fills one cell. So if all texts have at most 435
bytes, two runs of any two clients with the same ticks and challenges queue frames of the
same lengths. -/
theorem traffic_shape :
    (∀ (E : Setup) (inputs : List ClientInput), E.sodium.AeadLength →
      let s := runClient E inputs
      (s.engineStarted = true → s.isAuthenticated = true → s.searching = false →
        ∃ f content, Carries E.sodium f content ∧
          f.serialize.length = content.wireLength ∧
          (s.step (application E) E.sodium .tick).writeQueue = s.writeQueue ++ [f.serialize] ∧
          (s.step (application E) E.sodium .tick).trace =
            s.trace ++ [.ticked, .provided f.serialize]) ∧
      ∀ raw, .responded raw ∈ s.trace → raw.length = 498) ∧
    ∀ (E E' : Setup) (inputs inputs' : List ClientInput),
      E.sodium.AeadLength → E'.sodium.AeadLength →
      (∀ a t, .send a t ∈ inputs → t.length ≤ 435) →
      (∀ a t, .send a t ∈ inputs' → t.length ≤ 435) →
      (runClient E inputs).searching = false → (runClient E' inputs').searching = false →
      story (runClient E inputs).trace = story (runClient E' inputs').trace →
      enqueuedLengths (runClient E inputs).trace = enqueuedLengths (runClient E' inputs').trace := by
  have hexpected : ∀ (E : Setup) (inputs : List ClientInput), E.sodium.AeadLength →
      (∀ a t, .send a t ∈ inputs → t.length ≤ 435) → (runClient E inputs).searching = false →
      enqueuedLengths (runClient E inputs).trace =
        expectedLengths false (story (runClient E inputs).trace) := by
    intro E inputs hS hshort hrunning
    rcases run_shape (T := fun t => t.length ≤ 435) hS inputs hshort with h | h
    · exact h.lengths fun _ ht => ht
    · exact absurd (h.stuck.symm.trans hrunning) (by decide)
  constructor
  · intro E inputs hS
    have hrun := run_shape (T := fun _ => True) hS inputs fun _ _ _ => trivial
    constructor
    · intro hstarted hauth hrunning
      have hready : Ready E (fun _ => True) (runClient E inputs).app := by
        rcases hrun with h | h
        · exact h.ready
        · exact h.ready
      obtain ⟨⟨content, hcarries, -⟩, -⟩ := hready.provided
      refine ⟨_, content, hcarries, hcarries.serialize_length hS, ?_⟩
      unfold TcpClient.step
      rw [if_neg (by rw [hrunning]; decide), if_pos hstarted]
      unfold TcpClient.doCbrTick
      dsimp only
      rw [if_neg (by rw [show (TcpClient.record _ _).isAuthenticated = _ from hauth]; decide),
        TcpClient.enqueue_eq]
      exact ⟨rfl, List.append_assoc _ _ _⟩
    · rcases hrun with h | h
      · exact h.responses
      · exact h.responses
  · intro E E' inputs inputs' hS hS' hshort hshort' hrunning hrunning' hstory
    rw [hexpected E inputs hS hshort hrunning, hexpected E' inputs' hS' hshort' hrunning', hstory]

/-- The transparent library with a tag of the right length. -/
def tagged : Sodium :=
  { transparent with
    aeadEncrypt := fun k _ m => some (m ++ k.toList.take macSize)
    aeadDecrypt := fun k _ c =>
      if c.drop (c.length - macSize) = k.toList.take macSize then
        some (c.take (c.length - macSize))
      else none }

theorem tagged_aeadLength : tagged.AeadLength := by
  intro k n m c h
  have hk : k.toList.length = 32 := k.toList_length
  rw [← Option.some.inj h, List.length_append, List.length_take, hk]
  rfl

/-- A client that starts a handshake, and one without contacts that only polls. -/
theorem traffic_shape_handshake :
    let busy := runClient { alice with sodium := tagged }
      [.add (ascii "bob") (some bob.identity.publicKey), .connect, .tick,
        .read TcpClient.easyChallenge, .tick, .tick]
    let idle := runClient { bob with sodium := tagged }
      [.connect, .tick, .read TcpClient.easyChallenge, .tick, .tick]
    busy.trace ≠ idle.trace ∧ enqueuedLengths busy.trace = enqueuedLengths idle.trace ∧
      enqueuedLengths idle.trace = [498, 498, 498] := by
  refine ⟨by decide +kernel, ?_, by decide +kernel⟩
  exact traffic_shape.2 _ _ _ _ tagged_aeadLength tagged_aeadLength (by simp) (by simp)
    (by decide +kernel) (by decide +kernel) (by decide +kernel)

end BlankChat.Cli
