import BlankChat.Cli.ContactStep
import BlankChat.Cli.Traffic
import BlankChat.Lib.Correspondence

/-!
# The length of a text and the limit of the relay

The parser of the relay rejects a frame whose payload is longer than a mebibyte and drops
the connection. `ReadSecurePayload` takes a line of any length, and nothing on the way from
the line to the frame looks at the length.

Main result: `send_accepted_iff`, up to which length a text is sent in a frame that the
relay accepts.
-/

namespace BlankChat.Cli

open Lib BlankChat.Core Crypto Protocol Client Network

/-- `ReadSecurePayload`: one blank is skipped, then the rest of the line is the payload. The
second component is what is left of the input. -/
def readSecurePayload (cin : Bytes) : Payload × Bytes :=
  let cin :=
    match cin with
    | [] => []
    | character :: rest => if character = 0x20 then rest else character :: rest
  (cin.takeWhile (· ≠ 0x0A), (cin.dropWhile (· ≠ 0x0A)).tail)

/-- The line is the text, whatever its length. -/
theorem readSecurePayload_line {text : Bytes} (h : 0x0A ∉ text) (rest : Bytes) :
    readSecurePayload (0x20 :: (text ++ 0x0A :: rest)) = (text, rest) := by
  have hline : ∀ b ∈ text, decide (b ≠ 0x0A) = true := by
    intro b hb
    apply decide_eq_true
    rintro rfl
    exact h hb
  show ((text ++ 0x0A :: rest).takeWhile (· ≠ 0x0A),
    ((text ++ 0x0A :: rest).dropWhile (· ≠ 0x0A)).tail) = (text, rest)
  rw [List.takeWhile_append_of_pos hline, List.dropWhile_append_of_pos hline]
  simp

theorem Started.queued {E : Setup} {G : Guard} {r : Repl} {c : Contact} {p : Repl × Contact}
    (h : Started E G r c p) :
    ∃ items, Queued E r p.1 items ∧ ∀ i ∈ items, ∃ k, i.content = .request k := by
  rcases h with ⟨-, hquiet⟩ | ⟨k, -, hquiet, -⟩
  · exact ⟨[], hquiet.queued, List.forall_mem_nil _⟩
  · refine ⟨_, hquiet.queued, ?_⟩
    intro i hi
    rw [List.mem_singleton.mp hi]
    exact ⟨k, rfl⟩

namespace Repl

/-- `HandleSend` up to the encryption of the text, for a contact with a session. -/
def prepareText (E : Setup) (r : Repl) (aliasName : Bytes) (c : Contact) (rawPayload : Bytes) :
    Repl × Contact :=
  let (timestamp, r) := r.now E
  let r := r.appendMessage
    { id := hashPayload E.sodium rawPayload
      timestamp := timestamp
      direction := .outbound
      aliasName := aliasName
      status := .pendingAck
      payload := rawPayload }
  let (r, c) := r.checkMessageInterval E c
  let c := { c with messageCounter := c.messageCounter + 1 }
  (r.putContact aliasName c, c)

/-- `HandleSend` queues the text: there is a session, and the encryption succeeds. -/
def queuesText (E : Setup) (r : Repl) (aliasName rawPayload : Bytes) : Bool :=
  match r.addressBook.getContact aliasName with
  | none => false
  | some c =>
      let p := r.prepareText E aliasName c rawPayload
      c.initialPfsComplete &&
        (p.1.encrypt E p.2.txKey (buildTextMessage rawPayload)).1.isSome

variable {E : Setup} (r : Repl) (aliasName : Bytes) (c : Contact) (text : Bytes)

theorem handleSend_complete {c : Contact} (hc : r.addressBook.getContact aliasName = some c)
    (hcomplete : c.initialPfsComplete = true) :
    r.handleSend E aliasName text =
      (r.prepareText E aliasName c text).1.queueText E aliasName
        (r.prepareText E aliasName c text).2 text := by
  unfold handleSend prepareText
  rw [hc]
  dsimp only
  rw [hcomplete]
  rfl

theorem prepareText_queued (hcomplete : c.initialPfsComplete = true) :
    ∃ items, Queued E r (r.prepareText E aliasName c text).1 items ∧
      ∀ i ∈ items, ∃ k, i.content = .request k := by
  unfold prepareText
  dsimp only
  generalize hr₁ : ((r.now E).2.appendMessage _) = r₁
  have hout : r₁.outbox = r.outbox := by
    rw [← hr₁]
    rfl
  obtain ⟨items, ⟨fs, hfs, hitems⟩, hrequests⟩ :=
    (checkMessageInterval_started (E := E) (G := {}) r₁ c hcomplete fun _ => trivial).queued
  refine ⟨items, ⟨fs, ?_, hitems⟩, hrequests⟩
  rw [← hout]
  exact hfs

theorem queueText_queued :
    ∃ items, Queued E r (r.queueText E aliasName c text) items ∧
      items = if (r.encrypt E c.txKey (buildTextMessage text)).1.isSome then [.to c (.text text)]
        else [] := by
  unfold queueText
  split
  · next r₁ he =>
      rw [he]
      obtain ⟨-, rfl⟩ := Prod.mk.inj he
      exact ⟨[], .of_eq rfl, rfl⟩
  · next ct r₁ he =>
      have hitem := inFrame_of_encrypt (E := E) c (.text text) he
      rw [he]
      obtain ⟨-, rfl⟩ := Prod.mk.inj he
      exact ⟨_, .push hitem rfl, rfl⟩

/-- **What a send queues**: perhaps a request, and the text if there is a session and the
encryption succeeds. -/
theorem handleSend_queued :
    ∃ items, Queued E r (r.handleSend E aliasName text) items ∧
      (∀ i ∈ items, (∃ k, i.content = .request k) ∨ i.content = .text text) ∧
      (queuesText E r aliasName text = true ↔ ∃ i ∈ items, i.content = .text text) := by
  cases hc : r.addressBook.getContact aliasName with
  | none =>
      refine ⟨[], ?_, List.forall_mem_nil _, ?_⟩
      · unfold handleSend
        rw [hc]
        exact .of_eq rfl
      · unfold queuesText
        rw [hc]
        simp
  | some c =>
      cases hcomplete : c.initialPfsComplete with
      | false =>
          obtain ⟨items, ⟨fs, hfs, hitems⟩, hrequests⟩ :=
            (maybeStartInitialPfs_started (E := E) (G := {}) r aliasName c).queued
          have hnot : queuesText E r aliasName text = false := by
            unfold queuesText
            rw [hc]
            dsimp only
            rw [hcomplete, Bool.false_and]
          have hsend : (r.handleSend E aliasName text).outbox =
              (r.maybeStartInitialPfs E aliasName c).1.outbox := by
            unfold handleSend
            rw [hc]
            dsimp only
            rw [hcomplete]
            rfl
          refine ⟨items, ⟨fs, hsend.trans hfs, hitems⟩, fun i hi => .inl (hrequests i hi), ?_⟩
          rw [hnot]
          constructor
          · intro hyes
            cases hyes
          · rintro ⟨i, hi, htext⟩
            obtain ⟨k, hk⟩ := hrequests i hi
            rw [hk] at htext
            cases htext
      | true =>
          obtain ⟨items, hqueued, hrequests⟩ :=
            prepareText_queued (E := E) r aliasName c text hcomplete
          rw [handleSend_complete r aliasName text hc hcomplete]
          have hqueues : queuesText E r aliasName text =
              ((r.prepareText E aliasName c text).1.encrypt E
                (r.prepareText E aliasName c text).2.txKey (buildTextMessage text)).1.isSome := by
            unfold queuesText
            rw [hc]
            dsimp only
            rw [hcomplete, Bool.true_and]
          obtain ⟨items', hqueued', hitems'⟩ := queueText_queued (E := E)
            (r.prepareText E aliasName c text).1 aliasName (r.prepareText E aliasName c text).2 text
          rw [← hqueues] at hitems'
          refine ⟨items ++ items', hqueued.trans hqueued', ?_, ?_⟩
          · intro i hi
            rcases List.mem_append.mp hi with hi | hi
            · exact .inl (hrequests i hi)
            · rw [hitems'] at hi
              split at hi
              · rw [List.mem_singleton.mp hi]
                exact .inr rfl
              · cases hi
          · constructor
            · intro hyes
              rw [hitems', if_pos hyes]
              exact ⟨_, List.mem_append_right _ (List.mem_singleton.mpr rfl), rfl⟩
            · rintro ⟨i, hi, htext⟩
              rcases List.mem_append.mp hi with hi | hi
              · obtain ⟨k, hk⟩ := hrequests i hi
                rw [hk] at htext
                cases htext
              · rw [hitems'] at hi
                split at hi
                · next hyes => exact hyes
                · cases hi

end Repl

/-! ## The limit -/

/-- The longest text that a frame within the limit has room for. -/
def maxTextSize : ℕ := 1048227

/-- The frame of an item is accepted exactly if the plaintext is at most one byte longer
than that: the cells are filled up, and 2105 of them are within the limit. -/
theorem Item.InFrame.accepts_iff {E : Setup} (hS : E.sodium.AeadLength) {f : Frame} {i : Item}
    (h : i.InFrame E f) : Accepts f ↔ (i.content.plaintext E).length ≤ maxTextSize + 1 := by
  obtain ⟨nonce, ciphertext, hct, rfl⟩ := h
  have haction : i.content.action = .push ∨ i.content.action = .ack := by
    cases i.content with
    | receipt content => exact .inr rfl
    | _ => exact .inl rfl
  have hlen := encryptWithPadding_length hS hct
  rw [Protocol.accepts_iff haction]
  show ciphertext.length ≤ 1048576 ↔ _ ≤ 1048228
  unfold cells at hlen
  rw [show headerSize = 21 from rfl] at hlen
  omega

section Relay

variable {H : Type} [FrameHandler H] (S : Sodium) {sh : TcpSession × H} {f : Frame}

theorem onRead_accepted (hread : sh.1.readPending = true) (hparser : sh.1.parser = {})
    (hopen : sh.1.socketOpen = true) (hauth : sh.1.state = .authenticated)
    (hpush : f.action = .push) (h : Accepts f) :
    (TcpSession.onRead S sh f.serialize).1.socketOpen = true := by
  have hle := (Protocol.accepts_iff (.inl hpush)).mp h
  have hbuilt : f.Built := by
    obtain ⟨action, mailboxId, payload⟩ := f
    obtain rfl : action = .push := hpush
    exact .push mailboxId hle
  have hcut := cutFrame_isFrame (isFrame_serialize hle) []
  rw [List.append_nil] at hcut
  obtain ⟨s, h⟩ := sh
  have hraw : (TcpSession.reader S).onRaw ({ s with readPending := false }, h) f.serialize =
      ((({ s with readPending := false }.record (.extracted f)).record (.processPush f),
        FrameHandler.processPush h f)) := by
    unfold Reader.onRaw
    rw [frameOf_serialize hbuilt]
    show (TcpSession.processExtractedFrame S _ f).1 = _
    unfold TcpSession.processExtractedFrame
    dsimp only
    rw [show (TcpSession.record { s with readPending := false } _).state = _ from hauth, hpush]
  rw [TcpSession.onRead_eq S hread (hparser.trans FrameParser.onBytes_nil.symm)
    FrameParser.unfinished_nil, List.nil_append]
  dsimp only
  rw [Reader.readBytes_frame hcut, hraw]
  have hstill : (TcpSession.reader (H := H) S).isOpen
      ((({ s with readPending := false }.record (.extracted f)).record (.processPush f),
        FrameHandler.processPush h f)) = true := hopen
  rw [if_pos hstill]
  exact hopen

/-- A payload beyond the limit, of a length that fits the field, closes the session. -/
theorem onRead_oversized (hread : sh.1.readPending = true) (hparser : sh.1.parser = {})
    (hmax : maxPayloadSize.toNat < f.payload.length) (hfits : f.payload.length < 2 ^ 32) :
    (TcpSession.onRead S sh f.serialize).1.socketOpen = false := by
  have hcut : FrameParser.cutFrame f.serialize = .bad := by
    obtain ⟨-, hheader, -⟩ :=
      header_written f.action.toByte f.mailboxId f.payloadLength f.payload
    have hmailbox : f.mailboxId.toList.length = 16 := f.mailboxId.toList_length
    rw [serialize_eq hfits, FrameParser.cutFrame_eq, hheader, if_neg, if_pos]
    · rw [UInt32.lt_iff_toNat_lt, Frame.payloadLength, UInt32.toNat_ofNat_of_lt' hfits]
      exact hmax
    · rw [List.length_cons, List.length_append, List.length_append, leBytes_length, hmailbox]
      show ¬ _ < 21
      omega
  rw [TcpSession.onRead_eq S hread (hparser.trans FrameParser.onBytes_nil.symm)
    FrameParser.unfinished_nil, List.nil_append]
  unfold Reader.readBytes
  rw [splitStream_bad hcut]
  rfl

end Relay

/-- **Up to which length a text can be sent.** What `HandleSend` queues for a line is
accepted by the parser of the relay exactly if the text has at most 1048227 bytes or is not
queued at all; and a PUSH that is accepted leaves the session of the client open. -/
theorem send_accepted_iff (E : Setup) (hS : E.sodium.AeadLength) (r : Repl)
    (aliasName line : Bytes) :
    let text := (readSecurePayload line).1
    ∃ fs, (r.handleSend E aliasName text).outbox = r.outbox ++ fs ∧
      ((∀ f ∈ fs, Accepts f) ↔
        (r.queuesText E aliasName text = true → text.length ≤ maxTextSize)) ∧
      ∀ (H : Type) [FrameHandler H] (sh : TcpSession × H) (f : Frame), f ∈ fs → Accepts f →
        sh.1.readPending = true → sh.1.parser = {} → sh.1.socketOpen = true →
        sh.1.state = .authenticated →
        (TcpSession.onRead E.sodium sh f.serialize).1.socketOpen = true := by
  intro text
  obtain ⟨items, ⟨fs, hfs, hitems⟩, hcontents, hqueues⟩ :=
    Repl.handleSend_queued (E := E) r aliasName text
  have hrequest : ∀ k, ((Outgoing.request k).plaintext E).length ≤ maxTextSize + 1 := by
    intro k
    show (buildPfsRotate _ _ _).length ≤ _
    rw [buildPfsRotate_length]
    decide
  refine ⟨fs, hfs, ?_, ?_⟩
  · rw [hqueues]
    constructor
    · rintro hall ⟨i, hi, htext⟩
      obtain ⟨f, hf, hframe⟩ := forall₂_mem_right hitems hi
      have hlen := (hframe.accepts_iff hS).mp (hall f hf)
      rw [htext] at hlen
      exact Nat.le_of_succ_le_succ hlen
    · intro hshort f hf
      obtain ⟨i, hi, hframe⟩ := forall₂_mem hitems hf
      rw [hframe.accepts_iff hS]
      rcases hcontents i hi with ⟨k, hk⟩ | htext
      · rw [hk]
        exact hrequest k
      · rw [htext]
        exact Nat.succ_le_succ (hshort ⟨i, hi, htext⟩)
  · intro H _ sh f hf haccepts hread hparser hopen hauth
    obtain ⟨i, hi, hframe⟩ := forall₂_mem hitems hf
    have hpush : f.action = .push := by
      obtain ⟨-, -, -, rfl⟩ := hframe
      rcases hcontents i hi with ⟨k, hk⟩ | htext
      · rw [hk]
        rfl
      · rw [htext]
        rfl
    exact onRead_accepted E.sodium hread hparser hopen hauth hpush haccepts

/-! ## A line that is too long -/

def taggedAlice : Setup := { alice with sodium := tagged }

def taggedBob : Setup := { bob with sodium := tagged }

/-- Alice after the initial handshake with Bob. -/
def aliceReady : Repl :=
  Repl.run taggedAlice {} (aliceGreets ++ (queued taggedBob
    (bobWaits ++ (queued taggedAlice aliceGreets).map .receive)).map .receive)

theorem aliceReady_queuesText (text : Bytes) :
    aliceReady.queuesText taggedAlice (ascii "bob") text = true := by
  have hrun : (aliceReady.addressBook.getContact (ascii "bob")).any
      (fun c => c.initialPfsComplete) = true := by
    decide +kernel
  obtain ⟨c, hc, hcomplete⟩ := (Option.any_eq_true _ _).mp hrun
  unfold Repl.queuesText
  rw [hc]
  dsimp only
  rw [hcomplete]
  rfl

/-- A text beyond the limit is queued in a frame that the parser of the relay does not
accept and for which the session closes the socket. -/
theorem aliceReady_rejected {text : Bytes} (hlong : text.length = maxTextSize + 1) :
    ∃ fs, (aliceReady.handleSend taggedAlice (ascii "bob") text).outbox =
        aliceReady.outbox ++ fs ∧
      ∃ f ∈ fs, ¬ Accepts f ∧ ∀ (H : Type) [FrameHandler H] (sh : TcpSession × H),
        sh.1.readPending = true → sh.1.parser = {} →
        (TcpSession.onRead tagged sh f.serialize).1.socketOpen = false := by
  obtain ⟨items, ⟨fs, hfs, hitems⟩, -, hqueues⟩ :=
    Repl.handleSend_queued (E := taggedAlice) aliceReady (ascii "bob") text
  obtain ⟨i, hi, htext⟩ := hqueues.mp (aliceReady_queuesText text)
  obtain ⟨f, hf, hframe⟩ := forall₂_mem_right hitems hi
  have hlength : (i.content.plaintext taggedAlice).length = maxTextSize + 1 + 1 := by
    rw [htext, ← hlong]
    rfl
  refine ⟨fs, hfs, f, hf, ?_, ?_⟩
  · rw [hframe.accepts_iff tagged_aeadLength, hlength]
    exact Nat.not_succ_le_self _
  · intro H _ sh hread hparser
    obtain ⟨nonce, ciphertext, hct, rfl⟩ := hframe
    have hpayload := encryptWithPadding_length tagged_aeadLength hct
    rw [hlength, show headerSize = 21 from rfl] at hpayload
    unfold cells maxTextSize at hpayload
    refine onRead_oversized tagged hread hparser ?_ ?_
    · show 1048576 < ciphertext.length
      omega
    · show ciphertext.length < 4294967296
      omega

/-- The rest of a send command with a text that is one byte too long. -/
def longLine : Bytes := 0x20 :: (List.replicate (maxTextSize + 1) 0x61 ++ [0x0A])

theorem readSecurePayload_longLine :
    (readSecurePayload longLine).1.length = maxTextSize + 1 := by
  have hline : (0x0A : UInt8) ∉ List.replicate (maxTextSize + 1) 0x61 := by
    intro hmem
    exact absurd (List.eq_of_mem_replicate hmem) (by decide)
  rw [longLine, readSecurePayload_line hline, List.length_replicate]

/-- **A text that is one byte too long ends the connection.** -/
theorem long_text_rejected :
    ∃ fs, (aliceReady.handleSend taggedAlice (ascii "bob") (readSecurePayload longLine).1).outbox =
        aliceReady.outbox ++ fs ∧
      ∃ f ∈ fs, ¬ Accepts f ∧ ∀ (H : Type) [FrameHandler H] (sh : TcpSession × H),
        sh.1.readPending = true → sh.1.parser = {} →
        (TcpSession.onRead tagged sh f.serialize).1.socketOpen = false :=
  aliceReady_rejected readSecurePayload_longLine

/-- A short text is accepted. -/
theorem send_accepted_iff_short :
    ∃ fs, (aliceReady.handleSend taggedAlice (ascii "bob") (ascii "hi")).outbox =
        aliceReady.outbox ++ fs ∧ ∀ f ∈ fs, Accepts f := by
  obtain ⟨fs, hfs, haccepts, -⟩ :=
    send_accepted_iff taggedAlice tagged_aeadLength aliceReady (ascii "bob") (ascii " hi\n")
  exact ⟨fs, hfs, haccepts.mpr fun _ => by decide⟩

end BlankChat.Cli
