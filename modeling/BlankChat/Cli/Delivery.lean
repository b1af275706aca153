import BlankChat.Cli.ContactStep
import BlankChat.Lib.Run

/-!
# The delivery status of sent texts

`HandleSend` writes an entry that waits for its acknowledgement, `HandleTextMessage`
one that needs none, and `ProcessAckFrame` marks the first entry with the acknowledged
id as delivered. An id is the hash of a text, so texts that repeat share it.

Main result: `delivery_counts`. The delivered entries count the acknowledgements exactly
if every acknowledgement finds an entry first that waits for it; `repeated_text_pending`
is a run in which the second acknowledgement of a repeated text does not.
-/

namespace BlankChat.Cli

open Lib BlankChat.Core Crypto Protocol Client ConversationCache

namespace Repl

variable {E : Setup}

/-! ## What a step does to the history of an alias -/

/-- The id of the text that a send appends to the history of `a`. -/
def sentText (E : Setup) (a : Bytes) (r : Repl) : Input → Option Bytes
  | .send a' text =>
      match r.addressBook.getContact a with
      | some c =>
          if a' = a ∧ c.initialPfsComplete then some (hashPayload E.sodium text) else none
      | none => none
  | _ => none

/-- The id in an acknowledgement from `a` that is processed. -/
def processedAck (E : Setup) (a : Bytes) (r : Repl) : Input → Option Bytes
  | .receive f =>
      match r.addressBook.getContact a with
      | some c =>
          if f.action = .ack ∧ r.addressBook.getAliasByRxMailboxId f.mailboxId = a ∧ a ≠ [] then
            decryptAndUnpad E.sodium (selectedKey c f) f.payload
          else none
      | none => none
  | _ => none

/-- How the lines `l` of an alias can change, with the text sent and the
acknowledgement processed meanwhile. -/
inductive HistoryStep (a : Bytes) (l : List CacheEntry) :
    Option Bytes → Option Bytes → List CacheEntry → Prop where
  | same : HistoryStep a l none none l
  | sent {e : CacheEntry} (hwritten : Written a e) (hdir : e.direction = .outbound)
      (hstatus : e.status = .pendingAck) : HistoryStep a l (some e.id) none (l ++ [e])
  | received {e : CacheEntry} (hwritten : Written a e) (hdir : e.direction = .inbound)
      (hstatus : e.status = .delivered) : HistoryStep a l none none (l ++ [e])
  | acked (id : Bytes) : HistoryStep a l none (some id) (updatedLines id .delivered l)

/-! ### Handlers that leave the history alone -/

theorem initiatePfsRotation_cache (r : Repl) (c : Contact) :
    (r.initiatePfsRotation E c).2.1.cache = r.cache := by
  unfold initiatePfsRotation generate encrypt
  dsimp only
  split
  · rfl
  · split
    · next h => rw [← (Prod.mk.inj h).2]
    · next h =>
        obtain ⟨-, rfl⟩ := Prod.mk.inj h
        split
        · next h' => rw [← (Prod.mk.inj h').2]
        · next h' => rw [← (Prod.mk.inj h').2]; rfl

theorem maybeStartInitialPfs_cache (r : Repl) (a : Bytes) (c : Contact) :
    (r.maybeStartInitialPfs E a c).1.cache = r.cache := by
  unfold maybeStartInitialPfs
  split
  · rfl
  · have h := initiatePfsRotation_cache (E := E) r c
    split
    · next heq => rw [heq] at h; exact h
    · next heq => rw [heq] at h; exact h

theorem checkMessageInterval_cache (r : Repl) (c : Contact) :
    (r.checkMessageInterval E c).1.cache = r.cache := by
  unfold checkMessageInterval
  split
  · exact initiatePfsRotation_cache (r.print .thresholdReached) c
  · rfl

theorem startPendingInitialPfs_cache (r : Repl) :
    (r.startPendingInitialPfs E).cache = r.cache := by
  unfold startPendingInitialPfs
  generalize r.contactAliases = l
  induction l generalizing r with
  | nil => rfl
  | cons a l ih =>
      rw [List.foldl_cons, ih]
      split
      · exact maybeStartInitialPfs_cache r a _
      · rfl

theorem queueText_cache (r : Repl) (a : Bytes) (c : Contact) (text : Bytes) :
    (r.queueText E a c text).cache = r.cache := by
  unfold queueText encrypt
  split
  · next h => rw [← (Prod.mk.inj h).2]; rfl
  · next h => rw [← (Prod.mk.inj h).2]; rfl

theorem rememberAlias_cache (r : Repl) (a : Bytes) : (r.rememberAlias a).cache = r.cache := by
  unfold rememberAlias
  split <;> rfl

theorem handleAddContact_cache (r : Repl) (a : Bytes) (pubKey : Option PublicKeyType) :
    (r.handleAddContact E a pubKey).cache = r.cache := by
  unfold handleAddContact
  split
  · rfl
  · split
    · rfl
    · dsimp only
      split
      · exact rememberAlias_cache _ a
      · exact (maybeStartInitialPfs_cache _ a _).trans (rememberAlias_cache _ a)

theorem getNextFrameForCBR_cache (r : Repl) : r.getNextFrameForCBR.2.cache = r.cache := by
  unfold getNextFrameForCBR
  split
  · rfl
  · split <;> rfl

theorem answerRotation_cache (r : Repl) (a : Bytes) (c : Contact) (e : PublicKeyType)
    (k : EphemeralKey) : (r.answerRotation E a c e k).1.cache = r.cache := by
  rw [answerRotation_eq]
  unfold encrypt
  split
  · next h => rw [← (Prod.mk.inj h).2]
  · next h =>
      obtain ⟨-, rfl⟩ := Prod.mk.inj h
      split <;> rfl

theorem handlePfsRotateRequest_cache (r : Repl) (a : Bytes) (c : Contact) (plaintext : Bytes) :
    (r.handlePfsRotateRequest E a c plaintext).1.cache = r.cache := by
  unfold handlePfsRotateRequest generate
  split
  · rfl
  · split
    · rfl
    · split
      · exact maybeStartInitialPfs_cache _ a c
      · split
        · next h => rw [← (Prod.mk.inj h).2]
        · next h =>
            obtain ⟨-, rfl⟩ := Prod.mk.inj h
            exact answerRotation_cache _ a c _ _

theorem handlePfsRotateAck_cache (r : Repl) (a : Bytes) (c : Contact) (plaintext : Bytes) :
    (r.handlePfsRotateAck E a c plaintext).1.cache = r.cache := by
  unfold handlePfsRotateAck
  split
  · split
    · rfl
    · dsimp only
      split
      · rfl
      · split <;> rfl
  · rfl

theorem dropOldMailbox_cache (r : Repl) (a : Bytes) (c : Contact) (usedOld : Bool) :
    (r.dropOldMailbox a c usedOld).1.cache = r.cache := by
  unfold dropOldMailbox
  split <;> rfl

/-! ### Handlers that write to it -/

theorem acceptsString_hashPayload (S : Sodium) (text : Bytes) :
    acceptsString (hashPayload S text) = true :=
  acceptsString_encodeHex _

theorem handleTextMessage_cache (r : Repl) (a : Bytes) (c : Contact) (plaintext msgData : Bytes) :
    ∃ timestamp, (r.handleTextMessage E a c plaintext msgData).cache = r.cache.appendMessage
      { id := hashPayload E.sodium msgData
        timestamp := timestamp
        direction := .inbound
        aliasName := a
        status := .delivered
        payload := plaintext } := by
  refine ⟨E.tape.time r.timeDraws, ?_⟩
  unfold handleTextMessage encrypt
  dsimp only
  split
  · next h => rw [← (Prod.mk.inj h).2]; rfl
  · next h => rw [← (Prod.mk.inj h).2]; rfl

/-- A plaintext appends an inbound entry or leaves the history alone. -/
theorem dispatch_cache (r : Repl) (a : Bytes) (c : Contact) (plaintext : Bytes) :
    (r.dispatch E a c plaintext).1.cache = r.cache ∨
      ∃ e, Written a e ∧ e.direction = .inbound ∧ e.status = .delivered ∧
        (r.dispatch E a c plaintext).1.cache = r.cache.appendMessage e := by
  unfold dispatch
  split
  · split
    · exact .inl rfl
    · split
      · exact .inl rfl
      · next msgData _ =>
          obtain ⟨timestamp, h⟩ := handleTextMessage_cache (E := E) r a c plaintext msgData
          exact .inr ⟨_, ⟨rfl, acceptsString_hashPayload _ _⟩, rfl, rfl, h⟩
  · exact .inl (handlePfsRotateRequest_cache r a c plaintext)
  · exact .inl (handlePfsRotateAck_cache r a c plaintext)
  · exact .inl rfl

theorem HistoryStep.of_received {a a' : Bytes} {cache : ConversationCache} {e : CacheEntry}
    (hwritten : Written a' e) (hdir : e.direction = .inbound) (hstatus : e.status = .delivered) :
    HistoryStep a (cache.lines a) none none ((cache.appendMessage e).lines a) := by
  by_cases ha : a = a'
  · obtain rfl : e.aliasName = a := hwritten.1.trans ha.symm
    rw [lines_appendMessage]
    exact .received ⟨rfl, hwritten.2⟩ hdir hstatus
  · rw [lines_appendMessage_ne]
    · exact .same
    · rwa [hwritten.1]

theorem processPushFrame_history (r : Repl) (a' : Bytes) (c : Contact) (usedOld : Bool)
    (payload a : Bytes) :
    HistoryStep a (r.cache.lines a) none none
      ((r.processPushFrame E a' c usedOld payload).1.cache.lines a) := by
  unfold processPushFrame
  split
  · exact .same
  · next plaintext _ =>
      have hdrop := dropOldMailbox_cache r a' c usedOld
      generalize r.dropOldMailbox a' c usedOld = p at hdrop
      rw [← hdrop]
      rcases dispatch_cache (E := E) p.1 a' p.2 plaintext with
        h | ⟨e, hwritten, hdir, hstatus, h⟩
      · dsimp only
        rw [h]
        exact .same
      · dsimp only
        rw [h]
        exact .of_received hwritten hdir hstatus

theorem processAckFrame_history (r : Repl) (a : Bytes) (c : Contact) (usedOld : Bool)
    (payload : Bytes) :
    HistoryStep a (r.cache.lines a) none (decryptAndUnpad E.sodium (keyToUse c usedOld) payload)
      ((r.processAckFrame E a c usedOld payload).cache.lines a) := by
  unfold processAckFrame
  split
  · next hdec =>
      rw [hdec]
      exact .same
  · next id hdec =>
      rw [hdec]
      show HistoryStep a _ none _ ((r.cache.updateMessageStatus a id .delivered).lines a)
      rw [lines_updateMessageStatus]
      exact .acked id

theorem processAckFrame_lines_ne (r : Repl) {a a' : Bytes} (ha : a ≠ a') (c : Contact)
    (usedOld : Bool) (payload : Bytes) :
    (r.processAckFrame E a' c usedOld payload).cache.lines a = r.cache.lines a := by
  unfold processAckFrame
  split
  · rfl
  · exact lines_updateMessageStatus_ne _ ha _ _

theorem processedAck_eq_none {r : Repl} {f : Frame} {a : Bytes}
    (h : f.action ≠ .ack ∨ r.addressBook.getAliasByRxMailboxId f.mailboxId ≠ a ∨ a = []) :
    processedAck E a r (.receive f) = none := by
  unfold processedAck
  dsimp only
  split
  · apply if_neg
    rintro ⟨hack, halias, hne⟩
    rcases h with h | h | h
    · exact h hack
    · exact h halias
    · exact hne h
  · rfl

theorem processedAck_of_routed {r : Repl} {f : Frame} {a : Bytes} {c : Contact}
    (hrouted : Routed r f a c) (hack : f.action = .ack) :
    processedAck E a r (.receive f) =
      decryptAndUnpad E.sodium (keyToUse c (usedOldKey c f.mailboxId)) f.payload := by
  unfold processedAck
  dsimp only
  rw [hrouted.contact]
  exact if_pos ⟨hack, hrouted.found, hrouted.nonempty⟩

theorem onFrameReceived_history (r : Repl) (f : Frame) (a : Bytes) :
    HistoryStep a (r.cache.lines a) none (processedAck E a r (.receive f))
      ((r.onFrameReceived E f).cache.lines a) := by
  unfold onFrameReceived
  split
  · next hpoll =>
      rw [processedAck_eq_none (.inl (by rw [hpoll]; decide))]
      exact .same
  · dsimp only
    generalize halias : r.addressBook.getAliasByRxMailboxId f.mailboxId = a'
    have hne : a' ≠ a → processedAck E a r (.receive f) = none := by
      intro ha
      exact processedAck_eq_none (.inr (.inl (halias ▸ ha)))
    split
    · next hempty =>
        rw [processedAck_eq_none]
        · exact .same
        · by_cases ha : a = []
          · exact .inr (.inr ha)
          · exact .inr (.inl fun h => ha (h.symm.trans (halias.trans hempty)))
    · next hnonempty =>
        split
        · next hnone =>
            have hzero : processedAck E a r (.receive f) = none := by
              by_cases ha : a' = a
              · unfold processedAck
                rw [← ha, hnone]
              · exact hne ha
            rw [hzero]
            exact .same
        · next c hc =>
            split
            · next hpush =>
                rw [processedAck_eq_none (.inl (by rw [hpush]; decide))]
                exact processPushFrame_history r a' c _ _ a
            · next hack =>
                by_cases ha : a' = a
                · subst ha
                  rw [processedAck_of_routed ⟨halias, hnonempty, hc⟩ hack]
                  exact processAckFrame_history r a' c _ _
                · rw [hne ha, processAckFrame_lines_ne r (Ne.symm ha)]
                  exact .same
            · next hpush hack =>
                rw [processedAck_eq_none (.inl hack)]
                exact .same

theorem handleSend_history (r : Repl) (a' text a : Bytes) :
    HistoryStep a (r.cache.lines a) (sentText E a r (.send a' text)) none
      ((r.handleSend E a' text).cache.lines a) := by
  have hother : a' ≠ a → sentText E a r (.send a' text) = none := by
    intro ha
    unfold sentText
    dsimp only
    split
    · exact if_neg fun h => ha h.1
    · rfl
  unfold handleSend
  split
  · next hnone =>
      by_cases ha : a' = a
      · subst ha
        unfold sentText
        rw [hnone]
        exact .same
      · rw [hother ha]
        exact .same
  · next c hc =>
      split
      · next hincomplete =>
          have hnone : sentText E a r (.send a' text) = none := by
            by_cases ha : a' = a
            · subst ha
              unfold sentText
              dsimp only
              rw [hc]
              exact if_neg fun h => by simp [h.2] at hincomplete
            · exact hother ha
          rw [hnone]
          show HistoryStep a _ none none ((r.maybeStartInitialPfs E a' c).1.cache.lines a)
          rw [maybeStartInitialPfs_cache]
          exact .same
      · next hcomplete =>
          dsimp only
          rw [queueText_cache]
          show HistoryStep a _ _ none ((checkMessageInterval E _ c).1.cache.lines a)
          rw [checkMessageInterval_cache]
          by_cases ha : a' = a
          · subst ha
            have hsent : sentText E a' r (.send a' text) =
                some (hashPayload E.sodium text) := by
              unfold sentText
              dsimp only
              rw [hc]
              exact if_pos ⟨rfl, by simpa using hcomplete⟩
            rw [hsent]
            show HistoryStep a' _ _ none ((r.cache.appendMessage _).lines a')
            rw [lines_appendMessage]
            exact .sent (e := ⟨_, _, .outbound, a', .pendingAck, text⟩)
              ⟨rfl, acceptsString_hashPayload _ _⟩ rfl rfl
          · rw [hother ha]
            show HistoryStep a _ none none ((r.cache.appendMessage _).lines a)
            rw [lines_appendMessage_ne _ (Ne.symm ha)]
            exact .same

/-- **All that a step can do to a history.** -/
theorem step_history (r : Repl) (i : Input) (a : Bytes) :
    HistoryStep a (r.cache.lines a) (sentText E a r i) (processedAck E a r i)
      ((r.step E i).cache.lines a) := by
  cases i with
  | connect =>
      have h : (r.step E .connect).cache = r.cache := startPendingInitialPfs_cache _
      rw [h]
      exact .same
  | send a' text => exact handleSend_history r a' text a
  | add a' pubKey =>
      have h : (r.step E (.add a' pubKey)).cache = r.cache := handleAddContact_cache r a' pubKey
      rw [h]
      exact .same
  | tick =>
      have h : (r.step E .tick).cache = r.cache := getNextFrameForCBR_cache r
      rw [h]
      exact .same
  | receive f => exact onFrameReceived_history r f a
  | restart => exact .same

/-! ## The lines of an alias -/

/-- An entry as the client leaves it: what came in is delivered, what goes out waits or
is delivered. -/
structure Kept (a : Bytes) (e : CacheEntry) : Prop where
  written : Written a e
  inbound : e.direction = .inbound → e.status = .delivered
  outbound : e.direction = .outbound → e.status = .pendingAck ∨ e.status = .delivered

/-- The texts with id `h` that were sent and are marked as delivered. -/
def deliveredTexts (l : List CacheEntry) (h : Bytes) : ℕ :=
  l.countP fun e => e.direction = .outbound ∧ e.id = h ∧ e.status = .delivered

/-- Those that still wait for an acknowledgement. -/
def waitingTexts (l : List CacheEntry) (h : Bytes) : ℕ :=
  l.countP fun e => e.direction = .outbound ∧ e.id = h ∧ e.status = .pendingAck

def inboundEntries (l : List CacheEntry) : List CacheEntry :=
  l.filter fun e => e.direction = .inbound

/-- The entry that an acknowledgement of `id` updates is a sent text that waits for it. -/
def Awaited (l : List CacheEntry) (id : Bytes) : Prop :=
  ((l.filter CacheEntry.readable).find? fun e => e.id = id).any fun e =>
    e.direction = .outbound && e.status = .pendingAck

instance (l : List CacheEntry) (id : Bytes) : Decidable (Awaited l id) :=
  inferInstanceAs (Decidable (_ = true))

/-- **What an acknowledgement does**: it marks the first entry with its id if that is a
sent text that waits, and nothing otherwise. -/
theorem updatedLines_cases {a : Bytes} {l : List CacheEntry} (hl : ∀ e ∈ l, Kept a e)
    (id : Bytes) :
    (Awaited l id ∧ ∃ l₁ e l₂, l = l₁ ++ e :: l₂ ∧ e.direction = .outbound ∧ e.id = id ∧
      e.status = .pendingAck ∧
      updatedLines id .delivered l = l₁ ++ { e with status := .delivered } :: l₂) ∨
    (¬ Awaited l id ∧ updatedLines id .delivered l = l) := by
  unfold Awaited updatedLines
  rw [filter_readable fun e he => (hl e he).written]
  split
  · cases hfind : l.find? fun e => e.id = id with
    | none =>
        right
        refine ⟨by simp, ?_⟩
        have hnone := List.find?_eq_none.mp hfind
        exact if_neg fun hany => by
          obtain ⟨e, he, heid⟩ := List.any_eq_true.mp hany
          exact hnone e he heid
    | some e =>
        obtain ⟨heid, l₁, l₂, rfl, hl₁⟩ := List.find?_eq_some_iff_append.mp hfind
        have hid : e.id = id := of_decide_eq_true heid
        have hbefore : ∀ e' ∈ l₁, e'.id ≠ id := by
          intro e' he'
          simpa using hl₁ e' he'
        have hkept := hl e (by simp)
        have hset : (if (l₁ ++ e :: l₂).any (fun e => e.id = id) then
            setStatus id .delivered (l₁ ++ e :: l₂) else l₁ ++ e :: l₂) =
              l₁ ++ { e with status := .delivered } :: l₂ := by
          rw [if_pos (List.any_eq_true.mpr ⟨e, by simp, heid⟩), setStatus_append_cons _ hbefore hid]
        -- an entry that does not wait is delivered already
        have hsame : e.status = .delivered → { e with status := .delivered } = e := by
          intro hdelivered
          rw [← hdelivered]
        cases hdir : e.direction with
        | inbound =>
            right
            refine ⟨by simp [hdir], ?_⟩
            rw [hset, hsame (hkept.inbound hdir)]
        | outbound =>
            rcases hkept.outbound hdir with hpending | hdelivered
            · exact .inl ⟨by simp [hdir, hpending], l₁, e, l₂, rfl, hdir, hid, hpending, hset⟩
            · right
              refine ⟨by simp [hdelivered], ?_⟩
              rw [hset, hsame hdelivered]
  · exact .inr ⟨by simp, rfl⟩

section Step

variable {a : Bytes} {l l' : List CacheEntry} {s k : Option Bytes}

theorem HistoryStep.kept (h : HistoryStep a l s k l') (hl : ∀ e ∈ l, Kept a e) :
    ∀ e ∈ l', Kept a e := by
  have happend : ∀ e, Kept a e → ∀ e' ∈ l ++ [e], Kept a e' := by
    intro e he e' he'
    rcases List.mem_append.mp he' with he' | he'
    · exact hl e' he'
    · rw [List.mem_singleton.mp he']
      exact he
  cases h with
  | same => exact hl
  | sent hwritten hdir hstatus =>
      refine happend _ ⟨hwritten, ?_, fun _ => .inl hstatus⟩
      rw [hdir]
      exact fun h => by cases h
  | received hwritten hdir hstatus =>
      refine happend _ ⟨hwritten, fun _ => hstatus, ?_⟩
      rw [hdir]
      exact fun h => by cases h
  | acked id =>
      rcases updatedLines_cases hl id with ⟨-, l₁, e, l₂, rfl, hdir, -, -, heq⟩ | ⟨-, heq⟩
      · rw [heq]
        intro e' he'
        rcases List.mem_append.mp he' with he' | he'
        · exact hl e' (List.mem_append_left _ he')
        · rcases List.mem_cons.mp he' with rfl | he'
          · exact ⟨(hl e (by simp)).written, fun _ => rfl, fun _ => .inr rfl⟩
          · exact hl e' (by simp [he'])
      · rw [heq]
        exact hl

/-- The delivered texts count the acknowledgement exactly if it was awaited. -/
theorem HistoryStep.deliveredTexts_iff (h : HistoryStep a l s k l') (hl : ∀ e ∈ l, Kept a e) :
    (∀ x, deliveredTexts l' x = deliveredTexts l x + if k = some x then 1 else 0) ↔
      ∀ id ∈ k, Awaited l id := by
  unfold deliveredTexts
  cases h with
  | same => simp
  | sent hwritten hdir hstatus => simp [List.countP_append, hstatus]
  | received hwritten hdir hstatus => simp [List.countP_append, hdir]
  | acked id =>
      rcases updatedLines_cases hl id with ⟨hawaited, l₁, e, l₂, rfl, hdir, hid, hpending, heq⟩ |
        ⟨hnot, heq⟩
      · refine iff_of_true (fun x => ?_) (by simpa using hawaited)
        rw [heq]
        by_cases hx : id = x
        · simp [List.countP_append, hdir, hid, hpending, hx, Nat.add_assoc]
        · simp [List.countP_append, hdir, hid, hpending, hx]
      · refine iff_of_false (fun hcount => ?_) (by simpa using hnot)
        have hid := hcount id
        rw [heq, if_pos rfl] at hid
        omega

/-- A send adds a waiting text, an awaited acknowledgement takes one. -/
theorem HistoryStep.waitingTexts (h : HistoryStep a l s k l') (hl : ∀ e ∈ l, Kept a e)
    (hk : ∀ id ∈ k, Awaited l id) (x : Bytes) :
    waitingTexts l' x + (if k = some x then 1 else 0) =
      waitingTexts l x + if s = some x then 1 else 0 := by
  unfold Repl.waitingTexts
  cases h with
  | same => rfl
  | sent hwritten hdir hstatus =>
      simp [List.countP_append, List.countP_cons, hdir, hstatus]
  | received hwritten hdir hstatus => simp [List.countP_append, hdir]
  | acked id =>
      rcases updatedLines_cases hl id with ⟨-, l₁, e, l₂, rfl, hdir, hid, hpending, heq⟩ |
        ⟨hnot, -⟩
      · rw [heq]
        by_cases hx : id = x
        · simp [List.countP_append, hdir, hid, hpending, hx, Nat.add_assoc]
        · simp [List.countP_append, hdir, hid, hpending, hx]
      · exact absurd (hk id rfl) hnot

theorem HistoryStep.inboundEntries {id : Bytes} (h : HistoryStep a l s (some id) l')
    (hl : ∀ e ∈ l, Kept a e) : inboundEntries l' = inboundEntries l := by
  cases h with
  | acked id =>
      rcases updatedLines_cases hl id with ⟨-, l₁, e, l₂, rfl, hdir, -, -, heq⟩ | ⟨-, heq⟩
      · rw [heq]
        simp [Repl.inboundEntries, hdir]
      · rw [heq]

end Step

/-! ## Whole runs -/

/-- An acknowledgement from `a` comes in when the entry it updates is a sent text that
waits for it. -/
def AckAwaited (E : Setup) (a : Bytes) (r : Repl) (i : Input) : Prop :=
  ∀ id ∈ processedAck E a r i, Awaited (r.cache.lines a) id

instance (E : Setup) (a : Bytes) (r : Repl) (i : Input) : Decidable (AckAwaited E a r i) :=
  inferInstanceAs (Decidable (∀ id ∈ processedAck E a r i, Awaited (r.cache.lines a) id))

theorem step_kept (a : Bytes) (r : Repl) (i : Input) (hl : ∀ e ∈ r.cache.lines a, Kept a e) :
    ∀ e ∈ (r.step E i).cache.lines a, Kept a e :=
  (step_history r i a).kept hl

theorem run_kept (a : Bytes) (inputs : List Input) :
    ∀ e ∈ (run E {} inputs).cache.lines a, Kept a e :=
  List.foldlRecOn (motive := fun r : Repl => ∀ e ∈ r.cache.lines a, Kept a e) inputs (step E)
    (List.forall_mem_nil _) fun r hr i _ => step_kept a r i hr

/-- **When the delivery status is exact.** After every part of a run the delivered texts
of every id count its acknowledgements, exactly if every acknowledgement was awaited when
it came in. Then the texts that wait are those sent and not acknowledged. No
acknowledgement alters an entry that came in. -/
theorem delivery_counts (E : Setup) (a : Bytes) (inputs : List Input) :
    ((∀ inputs', inputs' <+: inputs → ∀ h,
        deliveredTexts ((run E {} inputs').cache.lines a) h =
          Run.occurrences (step E) (processedAck E a) h {} inputs') ↔
      Run.Along (step E) (AckAwaited E a) {} inputs) ∧
    (Run.Along (step E) (AckAwaited E a) {} inputs → ∀ h,
      waitingTexts ((run E {} inputs).cache.lines a) h +
          Run.occurrences (step E) (processedAck E a) h {} inputs =
        Run.occurrences (step E) (sentText E a) h {} inputs) ∧
    ∀ i, processedAck E a (run E {} inputs) i ≠ none →
      inboundEntries (((run E {} inputs).step E i).cache.lines a) =
        inboundEntries ((run E {} inputs).cache.lines a) := by
  have hstart : ∀ e ∈ ({} : Repl).cache.lines a, Kept a e := List.forall_mem_nil _
  refine ⟨?_, ?_, ?_⟩
  · refine Iff.trans ?_ (Run.tracks_iff (fun r h => deliveredTexts (r.cache.lines a) h)
      (fun r i => step_kept (E := E) a r i)
      (fun r i hr => (step_history r i a).deliveredTexts_iff hr) hstart)
    refine forall₃_congr fun inputs' _ x => ?_
    rw [show deliveredTexts (({} : Repl).cache.lines a) x = 0 from rfl, Nat.zero_add]
    exact Iff.rfl
  · intro hawaited x
    have h := hawaited.balance (fun r h => waitingTexts (r.cache.lines a) h)
      (fun r i => step_kept a r i)
      (fun r i hr hi => (step_history r i a).waitingTexts hr hi) hstart x
    rw [show waitingTexts (({} : Repl).cache.lines a) x = 0 from rfl, Nat.zero_add] at h
    exact h
  · intro i hi
    obtain ⟨id, hid⟩ := Option.ne_none_iff_exists'.mp hi
    have h := step_history (E := E) (run E {} inputs) i a
    rw [hid] at h
    exact h.inboundEntries (run_kept a inputs)

/-- Bob sends the texts; Alice reads and acknowledges them; Bob gets the
acknowledgements. -/
def bobSends (texts : List Bytes) : List Input :=
  bobAnswers ++ texts.map (.send (ascii "alice"))

def aliceReads (texts : List Bytes) : List Input :=
  aliceGreets ++ (queued bob (bobSends texts)).map .receive

/-- The first frame of Alice is the request of the handshake. -/
def bobAcknowledged (texts : List Bytes) : List Input :=
  bobSends texts ++ ((queued alice (aliceReads texts)).drop 1).map .receive

/-- Two different texts: both are delivered. -/
theorem delivery_counts_different :
    waitingTexts ((run bob {} (bobAcknowledged [ascii "hi", ascii "yo"])).cache.lines
      (ascii "alice")) (hashPayload transparent (ascii "hi")) = 0 := by
  have h := (delivery_counts bob (ascii "alice")
    (bobAcknowledged [ascii "hi", ascii "yo"])).2.1 (by decide +kernel)
    (hashPayload transparent (ascii "hi"))
  have hcounts :
      Run.occurrences (step bob) (processedAck bob (ascii "alice"))
        (hashPayload transparent (ascii "hi")) {} (bobAcknowledged [ascii "hi", ascii "yo"]) = 1 ∧
      Run.occurrences (step bob) (sentText bob (ascii "alice"))
        (hashPayload transparent (ascii "hi")) {} (bobAcknowledged [ascii "hi", ascii "yo"]) = 1 := by
    decide +kernel
  rw [hcounts.1, hcounts.2] at h
  omega

/-- **A repeated text.** Bob sends the same text twice and both are acknowledged; one of
them waits forever. -/
theorem repeated_text_pending :
    let inputs := bobAcknowledged [ascii "hi", ascii "hi"]
    let h := hashPayload transparent (ascii "hi")
    Run.occurrences (step bob) (sentText bob (ascii "alice")) h {} inputs = 2 ∧
      Run.occurrences (step bob) (processedAck bob (ascii "alice")) h {} inputs = 2 ∧
      deliveredTexts ((run bob {} inputs).cache.lines (ascii "alice")) h = 1 ∧
      waitingTexts ((run bob {} inputs).cache.lines (ascii "alice")) h = 1 := by
  decide +kernel

end Repl

end BlankChat.Cli
