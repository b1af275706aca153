import BlankChat.Cli.Delivery

/-!
# What the two ends of a conversation record

`HandleSend` appends an entry with the text, `HandleTextMessage` one with the plaintext it
was parsed from, that is with the opcode in front. Both take the hash of the text for the
id, and the acknowledgement carries it.

Main result: `texts_recorded`. The ids of the two entries agree and the acknowledgement
carries them, but the payloads never do; so in a run in which a text comes in, and in no
other, an entry differs from what was sent. `opcode_recorded` is such a run.
-/

namespace BlankChat.Cli

open Lib BlankChat.Core Crypto Protocol Client ConversationCache

/-- What `HandleSend` appends. -/
def sentEntry (E : Setup) (aliasName text : Bytes) (timestamp : UInt64) : CacheEntry where
  id := hashPayload E.sodium text
  timestamp := timestamp
  direction := .outbound
  aliasName := aliasName
  status := .pendingAck
  payload := text

/-- What `HandleTextMessage` appends for the plaintext of a text. -/
def receivedEntry (E : Setup) (aliasName text : Bytes) (timestamp : UInt64) : CacheEntry where
  id := hashPayload E.sodium text
  timestamp := timestamp
  direction := .inbound
  aliasName := aliasName
  status := .delivered
  payload := buildTextMessage text

namespace Repl

/-- The text that an input brings from a contact with a session, with the alias. -/
def acceptedText (E : Setup) (r : Repl) : Input → Option (Bytes × Bytes)
  | .receive f =>
      (opened E r (.receive f)).bind fun p =>
        if p.1.2.initialPfsComplete then
          (parseTextMessage p.2).map fun text =>
            (r.addressBook.getAliasByRxMailboxId f.mailboxId, text)
        else none
  | _ => none

/-- The acknowledgement of a text, unless its encryption fails. -/
def receipts (E : Setup) (r : Repl) (c : Contact) (text : Bytes) : List Item :=
  if (r.encrypt E c.txKey (hashPayload E.sodium text)).1 = none then []
  else [.to c (.receipt text)]

variable {E : Setup} (r : Repl) (aliasName : Bytes) (c : Contact)

/-- The text of a contact with a session is recorded and acknowledged; nothing else in a
PUSH gets into the history. -/
theorem dispatch_text (plaintext : Bytes) :
    ((c.initialPfsComplete = false ∨ parseTextMessage plaintext = none) ∧
      (r.dispatch E aliasName c plaintext).1.cache = r.cache) ∨
    ∃ text, c.initialPfsComplete = true ∧ parseTextMessage plaintext = some text ∧
      r.dispatch E aliasName c plaintext =
        (r.handleTextMessage E aliasName c plaintext text, c) := by
  unfold dispatch
  cases hopcode : extractOpcode plaintext with
  | none =>
      refine .inl ⟨.inr ?_, rfl⟩
      rw [parseTextMessage, hopcode]
      rfl
  | some opcode =>
      cases opcode with
      | textMessage =>
          cases hcomplete : c.initialPfsComplete with
          | false => exact .inl ⟨.inl rfl, rfl⟩
          | true =>
              have hparse : parseTextMessage plaintext = some (plaintext.drop 1) := by
                rw [parseTextMessage, if_pos hopcode]
              refine .inr ⟨plaintext.drop 1, rfl, hparse, ?_⟩
              rw [hparse]
              rfl
      | pfsRotateRequest =>
          refine .inl ⟨.inr ?_, handlePfsRotateRequest_cache r aliasName c plaintext⟩
          rw [parseTextMessage, hopcode]
          rfl
      | pfsRotateAck =>
          refine .inl ⟨.inr ?_, handlePfsRotateAck_cache r aliasName c plaintext⟩
          rw [parseTextMessage, hopcode]
          rfl

theorem handleTextMessage_queued (plaintext text : Bytes) :
    Queued E r (r.handleTextMessage E aliasName c plaintext text) (receipts E r c text) := by
  unfold handleTextMessage
  dsimp only
  split
  · next r₁ he =>
      have hnone : receipts E r c text = [] := if_pos (congrArg Prod.fst he)
      obtain ⟨-, rfl⟩ := Prod.mk.inj he
      rw [hnone]
      exact .of_eq rfl
  · next ct r₁ he =>
      have hsome : receipts E r c text = [.to c (.receipt text)] :=
        if_neg fun hnone => Option.some_ne_none ct ((congrArg Prod.fst he).symm.trans hnone)
      have hitem := inFrame_of_encrypt (E := E) c (.receipt text) he
      obtain ⟨-, rfl⟩ := Prod.mk.inj he
      rw [hsome]
      exact .push hitem rfl

theorem acceptedText_of_not_opened {f : Frame} (h : opened E r (.receive f) = none) :
    acceptedText E r (.receive f) = none := by
  unfold acceptedText
  dsimp only
  rw [h]
  rfl

theorem onFrameReceived_cache_of_not_opened {f : Frame} (h : opened E r (.receive f) = none) :
    (r.onFrameReceived E f).cache = r.cache ∨
      ∃ a id, (r.onFrameReceived E f).cache = r.cache.updateMessageStatus a id .delivered := by
  unfold onFrameReceived
  split
  · exact .inl rfl
  · dsimp only
    split
    · exact .inl rfl
    · next hempty =>
        split
        · exact .inl rfl
        · next c hc =>
            split
            · next hpush =>
                left
                have hclosed : decryptAndUnpad E.sodium (selectedKey c f) f.payload = none := by
                  by_contra hne
                  obtain ⟨plaintext, hdec⟩ := Option.ne_none_iff_exists'.mp hne
                  rw [opened_receive ⟨rfl, hempty, hc⟩ hpush hdec] at h
                  cases h
                unfold selectedKey at hclosed
                unfold processPushFrame
                rw [hclosed]
                rfl
            · unfold processAckFrame
              split
              · exact .inl rfl
              · next id _ => exact .inr ⟨_, id, rfl⟩
            · exact .inl rfl

/-- **What a frame does to the histories**: a text from a contact with a session is
recorded and acknowledged, and any other frame changes a status at most. -/
theorem onFrameReceived_text (f : Frame) :
    (acceptedText E r (.receive f) = none ∧
      ((r.onFrameReceived E f).cache = r.cache ∨
        ∃ a id, (r.onFrameReceived E f).cache = r.cache.updateMessageStatus a id .delivered)) ∨
    ∃ a c text timestamp, acceptedText E r (.receive f) = some (a, text) ∧
      (r.onFrameReceived E f).cache = r.cache.appendMessage (receivedEntry E a text timestamp) ∧
      r.addressBook.getContact a = some c ∧
      Queued E r (r.onFrameReceived E f) (receipts E r c text) := by
  cases hopened : opened E r (.receive f) with
  | none =>
      exact .inl ⟨acceptedText_of_not_opened r hopened,
        onFrameReceived_cache_of_not_opened r hopened⟩
  | some q =>
      obtain ⟨p, plaintext⟩ := q
      obtain ⟨a, c, hrouted, hpush, hdec, hp⟩ := opened_routed hopened
      rw [onFrameReceived_push hrouted hpush hdec]
      unfold accept
      dsimp only
      rw [← hp]
      have hcache : p.1.cache = r.cache := by
        rw [hp]
        exact dropOldMailbox_cache r a c _
      have hout : p.1.outbox = r.outbox ∧ ∀ text, receipts E p.1 p.2 text = receipts E r c text := by
        rcases dropOldMailbox_cases r a c (usedOldKey c f.mailboxId) with hsame | ⟨-, -, hdrop⟩
        · rw [hp, hsame]
          exact ⟨rfl, fun _ => rfl⟩
        · rw [hp, hdrop]
          exact ⟨rfl, fun _ => rfl⟩
      have haccepted : acceptedText E r (.receive f) =
          if p.2.initialPfsComplete then (parseTextMessage plaintext).map fun text => (a, text)
          else none := by
        unfold acceptedText
        dsimp only
        rw [hopened, hrouted.found]
        rfl
      rcases dispatch_text (E := E) p.1 a p.2 plaintext with
        ⟨hnot, hdispatch⟩ | ⟨text, hcomplete, hparse, hdispatch⟩
      · refine .inl ⟨?_, .inl (hdispatch.trans hcache)⟩
        rw [haccepted]
        rcases hnot with hincomplete | hparse
        · rw [hincomplete]
          rfl
        · rw [hparse]
          exact ite_self none
      · obtain ⟨timestamp, htext⟩ :=
          handleTextMessage_cache (E := E) p.1 a p.2 plaintext text
        obtain ⟨fs, hfs, hitems⟩ := handleTextMessage_queued (E := E) p.1 a p.2 plaintext text
        rw [hout.2] at hitems
        refine .inr ⟨a, c, text, timestamp, ?_, ?_, hrouted.contact, fs, ?_, hitems⟩
        · rw [haccepted, hcomplete, hparse]
          rfl
        · rw [hdispatch, ← hcache]
          show (handleTextMessage E p.1 a p.2 plaintext text).cache = _
          rw [htext, parseTextMessage_eq_some_iff.mp hparse]
          rfl
        · rw [hdispatch, ← hout.1]
          exact hfs

theorem handleSend_text {c : Contact} (hc : r.addressBook.getContact aliasName = some c)
    (hcomplete : c.initialPfsComplete = true) (text : Bytes) :
    ∃ timestamp, (r.handleSend E aliasName text).cache =
      r.cache.appendMessage (sentEntry E aliasName text timestamp) := by
  refine ⟨E.tape.time r.timeDraws, ?_⟩
  unfold handleSend
  rw [hc]
  dsimp only
  rw [hcomplete]
  show (queueText E _ aliasName _ text).cache = _
  rw [queueText_cache]
  show (checkMessageInterval E _ c).1.cache = _
  rw [checkMessageInterval_cache]
  rfl

/-- **All that a step does to the histories**: it records a text that is sent or accepted,
or changes a status at most. -/
theorem step_text (i : Input) :
    (acceptedText E r i = none ∧
      ((r.step E i).cache = r.cache ∨
        (∃ a text timestamp,
          (r.step E i).cache = r.cache.appendMessage (sentEntry E a text timestamp)) ∨
        ∃ a id, (r.step E i).cache = r.cache.updateMessageStatus a id .delivered)) ∨
    ∃ a c text timestamp, acceptedText E r i = some (a, text) ∧
      (r.step E i).cache = r.cache.appendMessage (receivedEntry E a text timestamp) ∧
      r.addressBook.getContact a = some c ∧ Queued E r (r.step E i) (receipts E r c text) := by
  cases i with
  | connect => exact .inl ⟨rfl, .inl (startPendingInitialPfs_cache _)⟩
  | send a text =>
      refine .inl ⟨rfl, ?_⟩
      show (r.handleSend E a text).cache = _ ∨ _
      cases hc : r.addressBook.getContact a with
      | none =>
          left
          unfold handleSend
          rw [hc]
          rfl
      | some c =>
          cases hcomplete : c.initialPfsComplete with
          | false =>
              left
              unfold handleSend
              rw [hc]
              dsimp only
              rw [hcomplete]
              exact maybeStartInitialPfs_cache r a c
          | true =>
              obtain ⟨timestamp, hsend⟩ := handleSend_text (E := E) r a hc hcomplete text
              exact .inr (.inl ⟨a, text, timestamp, hsend⟩)
  | add a pubKey => exact .inl ⟨rfl, .inl (handleAddContact_cache r a pubKey)⟩
  | tick => exact .inl ⟨rfl, .inl (getNextFrameForCBR_cache r)⟩
  | receive f =>
      rcases onFrameReceived_text (E := E) r f with ⟨hnone, hcache | hupdate⟩ | haccepted
      · exact .inl ⟨hnone, .inl hcache⟩
      · exact .inl ⟨hnone, .inr (.inr hupdate)⟩
      · exact .inr haccepted
  | restart => exact .inl ⟨rfl, .inl rfl⟩

end Repl

/-! ## The main result -/

/-- One acknowledgement goes to the contact and carries the id; none, if its encryption
fails. -/
def Acknowledges (E : Setup) (r r' : Repl) (a text id : Bytes) : Prop :=
  ∃ c, r.addressBook.getContact a = some c ∧ Queued E r r' (r.receipts E c text) ∧
    ∀ i ∈ r.receipts E c text, i.content.action = .ack ∧ i.content.plaintext E = id

/-- A text that is accepted is recorded as it was sent, and the acknowledgement carries its
id. -/
def RecordsText (E : Setup) (r : Repl) (i : Input) : Prop :=
  ∀ a text, r.acceptedText E i = some (a, text) →
    ∃ e, (r.step E i).cache.lines a = r.cache.lines a ++ [e] ∧ e.direction = .inbound ∧
      e.id = hashPayload E.sodium text ∧ e.payload = text ∧
      Acknowledges E r (r.step E i) a text e.id

/-- The id of every entry is the hash of its payload. -/
def IdsMatch (E : Setup) (cache : ConversationCache) : Prop :=
  ∀ a, ∀ e ∈ cache.lines a, e.id = hashPayload E.sodium e.payload

namespace IdsMatch

variable {E : Setup} {cache : ConversationCache}

theorem appendMessage (h : IdsMatch E cache) {e : CacheEntry}
    (he : e.id = hashPayload E.sodium e.payload) : IdsMatch E (cache.appendMessage e) := by
  intro a e' he'
  by_cases ha : a = e.aliasName
  · subst ha
    rw [lines_appendMessage] at he'
    rcases List.mem_append.mp he' with he' | he'
    · exact h _ e' he'
    · rw [List.mem_singleton.mp he']
      exact he
  · rw [lines_appendMessage_ne _ ha] at he'
    exact h a e' he'

theorem updateMessageStatus (h : IdsMatch E cache) (a id : Bytes) (status : MessageStatus) :
    IdsMatch E (cache.updateMessageStatus a id status) := by
  intro a' e he
  by_cases ha : a' = a
  · subst ha
    rw [lines_updateMessageStatus] at he
    unfold updatedLines at he
    dsimp only at he
    split at he
    · exact forall_mem_setStatus (fun e he => h a' e (List.mem_of_mem_filter he))
        (fun e he => he) e he
    · exact h a' e he
  · rw [lines_updateMessageStatus_ne _ ha] at he
    exact h a' e he

end IdsMatch

namespace Repl

variable {E : Setup} {r : Repl}

/-- An accepted text is recorded under the id of the text, with the opcode in front. -/
theorem acceptedText_recorded {i : Input} {a text : Bytes}
    (h : r.acceptedText E i = some (a, text)) :
    ∃ e, (r.step E i).cache.lines a = r.cache.lines a ++ [e] ∧ e.direction = .inbound ∧
      e.id = hashPayload E.sodium text ∧ e.payload = buildTextMessage text ∧
      Acknowledges E r (r.step E i) a text e.id := by
  rcases step_text (E := E) r i with ⟨hnone, -⟩ | ⟨a', c, text', timestamp, hsome, hcache,
    hcontact, hqueued⟩
  · rw [hnone] at h
    cases h
  · obtain ⟨rfl, rfl⟩ := Prod.mk.inj (Option.some.inj (hsome.symm.trans h))
    refine ⟨receivedEntry E a' text' timestamp, ?_, rfl, rfl, rfl, c, hcontact, hqueued, ?_⟩
    · rw [hcache]
      exact lines_appendMessage r.cache (receivedEntry E a' text' timestamp)
    · intro item hitem
      unfold receipts at hitem
      split at hitem
      · cases hitem
      · rw [List.mem_singleton.mp hitem]
        exact ⟨rfl, rfl⟩

theorem acceptedText_of_inFrame {A B : Setup} {i : Item} {f : Frame} {a text : Bytes}
    {c : Contact} (hsodium : A.sodium = B.sodium) (hS : B.sodium.AeadCorrect)
    (htext : i.content = .text text) (hframe : i.InFrame A f) (hrouted : r.Routed f a c)
    (hcomplete : c.initialPfsComplete = true) (hkey : selectedKey c f = i.key) :
    r.acceptedText B (.receive f) = some (a, text) := by
  obtain ⟨nonce, ciphertext, hct, hf⟩ := hframe
  rw [htext] at hct hf
  have hdec : decryptAndUnpad B.sodium (selectedKey c f) f.payload =
      some (buildTextMessage text) := by
    rw [hkey, hf]
    exact decryptAndUnpad_encryptWithPadding hS (hsodium ▸ hct)
  have hpush : f.action = .push := by
    rw [hf]
    rfl
  have hstill : (r.dropOldMailbox a c (usedOldKey c f.mailboxId)).2.initialPfsComplete = true := by
    rcases dropOldMailbox_cases r a c (usedOldKey c f.mailboxId) with hsame | ⟨-, -, hdrop⟩
    · rw [hsame]
      exact hcomplete
    · rw [hdrop]
      exact hcomplete
  unfold acceptedText
  dsimp only
  rw [opened_receive hrouted hpush hdec, hrouted.found]
  show (if _ then _ else _) = _
  rw [if_pos hstill, parseTextMessage_build]
  rfl

end Repl

/-- No text is recorded as it was sent. -/
theorem not_recordsText {E : Setup} {r : Repl} {i : Input} {a text : Bytes}
    (h : r.acceptedText E i = some (a, text)) : ¬ RecordsText E r i := by
  intro hrecords
  obtain ⟨e, hlines, -, -, hpayload, -⟩ := Repl.acceptedText_recorded h
  obtain ⟨e', hlines', -, -, hpayload', -⟩ := hrecords a text h
  obtain rfl : e = e' := by
    have hlast := List.append_cancel_left (hlines.symm.trans hlines')
    exact (List.cons.inj hlast).1
  have hlength := congrArg List.length (hpayload.symm.trans hpayload')
  exact absurd hlength (Nat.succ_ne_self _)

theorem IdsMatch.step {E : Setup} {r : Repl} {i : Input} (h : IdsMatch E r.cache)
    (hnone : r.acceptedText E i = none) : IdsMatch E (r.step E i).cache := by
  rcases Repl.step_text (E := E) r i with
    ⟨-, hcache | ⟨a, text, timestamp, hcache⟩ | ⟨a, id, hcache⟩⟩ | ⟨a, c, text, -, hsome, -⟩
  · rw [hcache]
    exact h
  · rw [hcache]
    exact h.appendMessage rfl
  · rw [hcache]
    exact h.updateMessageStatus a id .delivered
  · rw [hnone] at hsome
    cases hsome

/-- **What the two ends record.** The entry of a sent text has the hash of the text for its
id and the text for its payload. A frame with that text, opened by a contact with a
session, is accepted; the entry of an accepted text has the same id, which the
acknowledgement carries, but its payload has the opcode in front. So what a client records
is what was sent to it, and all its ids are hashes of the payloads, exactly in the runs in
which it accepts no text. -/
theorem texts_recorded (E : Setup) (inputs : List Input) :
    (∀ (r : Repl) (a : Bytes) (c : Contact) (text : Bytes),
      r.addressBook.getContact a = some c → c.initialPfsComplete = true →
      ∃ e, (r.handleSend E a text).cache.lines a = r.cache.lines a ++ [e] ∧
        e.direction = .outbound ∧ e.id = hashPayload E.sodium text ∧ e.payload = text) ∧
    (∀ (A : Setup) (r : Repl) (i : Item) (f : Frame) (a : Bytes) (c : Contact) (text : Bytes),
      A.sodium = E.sodium → E.sodium.AeadCorrect → i.content = .text text → i.InFrame A f →
      r.Routed f a c → c.initialPfsComplete = true → Repl.selectedKey c f = i.key →
      r.acceptedText E (.receive f) = some (a, text)) ∧
    (∀ (r : Repl) (i : Input) (a text : Bytes),
      r.acceptedText E i = some (a, text) →
      ∃ e, (r.step E i).cache.lines a = r.cache.lines a ++ [e] ∧ e.direction = .inbound ∧
        e.id = hashPayload E.sodium text ∧ e.payload = buildTextMessage text ∧
        Acknowledges E r (r.step E i) a text e.id) ∧
    ((Run.Along (Repl.step E) (RecordsText E) {} inputs ∧
        IdsMatch E (Repl.run E {} inputs).cache) ↔
      Run.Along (Repl.step E) (fun r i => r.acceptedText E i = none) {} inputs) := by
  refine ⟨?_, ?_, ?_, ?_⟩
  · intro r a c text hc hcomplete
    obtain ⟨timestamp, hsend⟩ := Repl.handleSend_text (E := E) r a hc hcomplete text
    refine ⟨sentEntry E a text timestamp, ?_, rfl, rfl, rfl⟩
    rw [hsend]
    exact lines_appendMessage r.cache (sentEntry E a text timestamp)
  · intro A r i f a c text hsodium hS htext hframe hrouted hcomplete hkey
    exact Repl.acceptedText_of_inFrame hsodium hS htext hframe hrouted hcomplete hkey
  · intro r i a text h
    exact Repl.acceptedText_recorded h
  · constructor
    · rintro ⟨hrecords, -⟩
      refine hrecords.mono (P := fun _ => True) (fun _ _ _ _ => trivial) trivial ?_
      intro r i _ hi
      rw [Option.eq_none_iff_forall_ne_some]
      rintro ⟨a, text⟩ hsome
      exact not_recordsText hsome hi
    · intro hnone
      constructor
      · refine hnone.mono (P := fun _ => True) (fun _ _ _ _ => trivial) trivial ?_
        intro r i _ hi a text hsome
        rw [hi] at hsome
        cases hsome
      · refine hnone.induction (P := fun r => IdsMatch E r.cache) ?_ ?_
        · intro r i hi h
          exact h.step hi
        · intro a e he
          cases he

/-! ## A text between two clients -/

/-- Alice and Bob have completed the handshake, and Alice sends a text. -/
def aliceWrites : List Input := aliceCompletes ++ [.send (ascii "bob") (ascii "hi")]

/-- The frames that Alice has queued since the handshake. -/
def aliceText : List Frame :=
  (queued alice aliceWrites).drop (queued alice aliceCompletes).length

/-- Bob after receiving them. -/
def bobReads : Repl := Repl.run bob {} (bobAnswers ++ aliceText.map .receive)

/-- **Bob records the opcode with the text**: the entries of Bob and Alice have the id of the
text, but the payload of Bob's starts with the opcode, and the id is not its hash. -/
theorem opcode_recorded :
    (((Repl.run alice {} aliceWrites).cache.lines (ascii "bob")).map fun e => (e.id, e.payload)) =
        [(hashPayload transparent (ascii "hi"), ascii "hi")] ∧
      ((bobReads.cache.lines (ascii "alice")).map fun e => (e.id, e.payload)) =
        [(hashPayload transparent (ascii "hi"), buildTextMessage (ascii "hi"))] ∧
      ∃ e ∈ bobReads.cache.lines (ascii "alice"), e.id ≠ hashPayload transparent e.payload := by
  decide +kernel

/-- What Alice has recorded is in order. Bob accepts the text, and records it under the same
id. -/
theorem texts_recorded_toy :
    ((Repl.run alice {} aliceWrites).cache.lines (ascii "bob")).length = 1 ∧
      IdsMatch alice (Repl.run alice {} aliceWrites).cache ∧
      ∃ e, ((Repl.run bob {} bobAnswers).step bob (.receive (aliceText.headD
          (Frame.createPoll (MailboxID.fill 0))))).cache.lines (ascii "alice") =
        (Repl.run bob {} bobAnswers).cache.lines (ascii "alice") ++ [e] ∧
      e.id = hashPayload bob.sodium (ascii "hi") := by
  refine ⟨by decide +kernel, ((texts_recorded alice aliceWrites).2.2.2.mpr (by decide +kernel)).2,
    ?_⟩
  obtain ⟨e, hlines, -, hid, -⟩ := (texts_recorded bob bobAnswers).2.2.1 (Repl.run bob {} bobAnswers)
    (.receive (aliceText.headD (Frame.createPoll (MailboxID.fill 0)))) (ascii "alice") (ascii "hi")
    (by decide +kernel)
  exact ⟨e, hlines, hid⟩

end BlankChat.Cli
