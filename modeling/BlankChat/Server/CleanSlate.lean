import BlankChat.Lib.Run
import BlankChat.Server.MessageBroker

/-!
# What the broker keeps — `message_broker.cpp`

An entry of the map comes into being in the quota test, by `queues[mid]`, and goes with the
poll that takes the last frame of its queue. An entry without a frame is never erased: a poll
returns before it gets there. So the map is as large as what waits, unless the quota rejects
a push to a mailbox that has no entry yet, and that happens with a quota of zero only.

Main result: `cleanSlate_iff`.
-/

namespace BlankChat.Server

open Lib Protocol

/-- A call on the broker. -/
inductive Call : Type where
  | push (frame : Frame)
  | poll (mid : MailboxID)

namespace Call

/-- The call as an operation on the channel of its mailbox. -/
def op : Call → FifoOp Unit MailboxID RawFrame
  | .push frame => .push frame.mailboxId frame.serialize
  | .poll mid => .poll () mid

def IsPoll : Call → Prop
  | .push _ => False
  | .poll _ => True

end Call

namespace MessageBroker

def call (b : MessageBroker) : Call → MessageBroker
  | .push frame => b.processPush frame
  | .poll mid => (b.processPoll mid).2

/-- The broker that `MessageBroker(max)` builds, after some calls. -/
def afterCalls (max : UInt32) (calls : List Call) : MessageBroker :=
  calls.foldl call { maxMessages := max }

/-- What waits for a mailbox after the calls: what was accepted and has not been returned. -/
def waitingAfter (max : UInt32) (calls : List Call) (m : MailboxID) : List RawFrame :=
  (Fifo.run max.toNat (fun _ => {}) (calls.map Call.op) m).waiting

/-- The quota rejects the push, or the polled mailbox is unknown. -/
def Refused (b : MessageBroker) : Call → Prop
  | .push frame => b.maxMessages.toNat ≤ (b.queue frame.mailboxId).length
  | .poll mid => mid ∉ b.queues

/-- The map holds what waits and nothing else: an entry for each mailbox for which a frame
waits, with no more frames than the quota; nothing at all once everything was polled; and a
call that is refused leaves it alone. -/
structure CleanSlate (max : UInt32) (calls : List Call) : Prop where
  entries : ∀ m, m ∈ (afterCalls max calls).queues ↔ waitingAfter max calls m ≠ []
  bounded : ∀ m q, (afterCalls max calls).queues.lookup m = some q → q.length ≤ max.toNat
  polled : (∀ m, waitingAfter max calls m = []) → (afterCalls max calls).queues = ∅
  refused : Run.Along call (fun b c => b.Refused c → (b.call c).queues = b.queues)
    { maxMessages := max } calls

variable {b : MessageBroker} {m mid : MailboxID}

/-! ## Calls -/

@[simp] theorem call_maxMessages (b : MessageBroker) (c : Call) :
    (b.call c).maxMessages = b.maxMessages := by
  cases c with
  | push frame => exact processPush_maxMessages b frame
  | poll mid => exact processPoll_maxMessages b mid

theorem touch_of_mem (h : mid ∈ b.queues) : b.touch mid = b := by
  obtain ⟨q, hq⟩ := Option.isSome_iff_exists.mp (AList.lookup_isSome.mpr h)
  unfold touch
  rw [hq]

theorem lookup_touch_ne (h : m ≠ mid) :
    (b.touch mid).queues.lookup m = b.queues.lookup m := by
  unfold touch
  split
  · rfl
  · exact AList.lookup_insert_ne h

theorem lookup_touch_self : (b.touch mid).queues.lookup mid = some (b.queue mid) := by
  unfold touch queue
  split
  · next q hq => simp [hq]
  · next hnone => simp [hnone]

theorem mem_of_queue_ne (h : b.queue m ≠ []) : m ∈ b.queues := by
  apply AList.lookup_isSome.mp
  cases hlookup : b.queues.lookup m with
  | none =>
      refine absurd ?_ h
      rw [queue, hlookup]
      rfl
  | some q => rfl

theorem touch_of_full (hmax : b.maxMessages ≠ 0)
    (hfull : b.maxMessages.toNat ≤ (b.queue mid).length) : b.touch mid = b := by
  apply touch_of_mem
  apply mem_of_queue_ne
  apply List.ne_nil_of_length_pos
  refine Nat.lt_of_lt_of_le (Nat.pos_of_ne_zero ?_) hfull
  intro hzero
  exact hmax (UInt32.toNat_inj.mp hzero)

/-- A push that the quota rejects still evaluates `queues[mid]`. -/
theorem processPush_of_full {frame : Frame}
    (h : b.maxMessages.toNat ≤ (b.queue frame.mailboxId).length) :
    b.processPush frame = b.touch frame.mailboxId := by
  unfold processPush
  simp only [touch_maxMessages, queue_touch, if_pos h]

/-! ## The quota -/

/-- No queue is longer than the quota. -/
def WithinQuota (b : MessageBroker) : Prop :=
  ∀ m, (b.queue m).length ≤ b.maxMessages.toNat

theorem WithinQuota.call (h : b.WithinQuota) (c : Call) : (b.call c).WithinQuota := by
  intro m
  rw [call_maxMessages]
  cases c with
  | push frame =>
      show ((b.processPush frame).queue m).length ≤ _
      rw [queue_processPush]
      split
      · next hroom =>
          by_cases hm : m = frame.mailboxId
          · subst hm
            rw [Function.update_self, List.length_append, List.length_singleton]
            exact hroom
          · rw [Function.update_of_ne hm]
            exact h m
      · exact h m
  | poll mid =>
      show ((b.processPoll mid).2.queue m).length ≤ _
      rw [(processPoll_eq b mid).2]
      by_cases hm : m = mid
      · subst hm
        rw [Function.update_self, List.length_tail]
        exact (Nat.sub_le _ _).trans (h m)
      · rw [Function.update_of_ne hm]
        exact h m

/-! ## Entries without a frame -/

/-- An entry for which nothing waits. -/
def Stale (b : MessageBroker) : Prop := ∃ m, b.queues.lookup m = some []

theorem not_stale_iff : ¬ b.Stale ↔ ∀ m, m ∈ b.queues ↔ b.queue m ≠ [] := by
  constructor
  · intro hstale m
    refine ⟨?_, mem_of_queue_ne⟩
    intro hm hnil
    obtain ⟨q, hq⟩ := Option.isSome_iff_exists.mp (AList.lookup_isSome.mpr hm)
    rw [queue, hq] at hnil
    exact hstale ⟨m, hq.trans (congrArg some hnil)⟩
  · rintro hentries ⟨m, hm⟩
    apply (hentries m).mp
    · exact AList.lookup_isSome.mp (by rw [hm]; rfl)
    · rw [queue, hm]
      rfl

/-- What a poll does to an entry: the others stay, and its own is erased with the last
frame. -/
theorem lookup_processPoll (b : MessageBroker) (mid m : MailboxID) :
    (b.processPoll mid).2.queues.lookup m = b.queues.lookup m ∨
      m = mid ∧ b.queue mid ≠ [] ∧ (b.processPoll mid).2.queues.lookup m ≠ some [] := by
  unfold processPoll
  split
  · exact .inl rfl
  · exact .inl rfl
  · next frame rest h =>
      by_cases hm : m = mid
      · subst hm
        refine .inr ⟨rfl, ?_, ?_⟩
        · simp [queue, h]
        · dsimp only
          split
          · simp
          · next hrest => simpa using hrest
      · dsimp only
        split
        · exact .inl (AList.lookup_erase_ne hm)
        · exact .inl (AList.lookup_insert_ne hm)

/-- With a quota, no call leaves an entry behind; a poll never does. -/
theorem call_not_stale (h : ¬ b.Stale) {c : Call} (hc : b.maxMessages ≠ 0 ∨ c.IsPoll) :
    ¬ (b.call c).Stale := by
  rintro ⟨m, hm⟩
  cases c with
  | push frame =>
      by_cases hfull : b.maxMessages.toNat ≤ (b.queue frame.mailboxId).length
      · change (b.processPush frame).queues.lookup m = some [] at hm
        rw [processPush_of_full hfull, touch_of_full (hc.resolve_right id) hfull] at hm
        exact h ⟨m, hm⟩
      · change (b.processPush frame).queues.lookup m = some [] at hm
        unfold processPush at hm
        simp only [touch_maxMessages, queue_touch, if_neg hfull] at hm
        by_cases hmid : m = frame.mailboxId
        · subst hmid
          simp at hm
        · rw [AList.lookup_insert_ne hmid, lookup_touch_ne hmid] at hm
          exact h ⟨m, hm⟩
  | poll mid =>
      rcases lookup_processPoll b mid m with hsame | ⟨-, -, hne⟩
      · exact h ⟨m, hsame.symm.trans hm⟩
      · exact hne hm

/-- Without a quota every push is rejected, and leaves an entry. -/
theorem stale_of_push (hmax : b.maxMessages = 0) (hb : b.WithinQuota) (frame : Frame) :
    (b.call (.push frame)).Stale := by
  have hzero : b.maxMessages.toNat = 0 := congrArg UInt32.toNat hmax
  have hnil : b.queue frame.mailboxId = [] :=
    List.eq_nil_of_length_eq_zero (Nat.le_zero.mp (hzero ▸ hb frame.mailboxId))
  refine ⟨frame.mailboxId, ?_⟩
  show (b.processPush frame).queues.lookup _ = _
  rw [processPush_of_full (hzero ▸ Nat.zero_le _), lookup_touch_self, hnil]

theorem Stale.call (h : b.Stale) (hmax : b.maxMessages = 0) (c : Call) : (b.call c).Stale := by
  obtain ⟨m, hm⟩ := h
  refine ⟨m, ?_⟩
  cases c with
  | push frame =>
      have hzero : b.maxMessages.toNat = 0 := congrArg UInt32.toNat hmax
      show (b.processPush frame).queues.lookup m = _
      rw [processPush_of_full (hzero ▸ Nat.zero_le _)]
      by_cases hmid : m = frame.mailboxId
      · rw [touch_of_mem (hmid ▸ AList.lookup_isSome.mp (by rw [hm]; rfl))]
        exact hm
      · rw [lookup_touch_ne hmid]
        exact hm
  | poll mid =>
      rcases lookup_processPoll b mid m with hsame | ⟨rfl, hne, -⟩
      · exact hsame.trans hm
      · -- a poll only takes from a queue that has a frame
        exact absurd (by rw [queue, hm]; rfl) hne

theorem refused_queues {c : Call} (hc : b.maxMessages ≠ 0 ∨ c.IsPoll) (h : b.Refused c) :
    (b.call c).queues = b.queues := by
  cases c with
  | push frame =>
      show (b.processPush frame).queues = _
      rw [processPush_of_full h, touch_of_full (hc.resolve_right id) h]
  | poll mid =>
      show (b.processPoll mid).2.queues = _
      unfold processPoll
      rw [AList.lookup_eq_none.mpr h]

/-! ## Sequences of calls -/

theorem refines_foldl (calls : List Call) {σ : MailboxID → Channel RawFrame}
    (h : b.Refines σ) :
    (calls.foldl call b).Refines (Fifo.run b.maxMessages.toNat σ (calls.map Call.op)) := by
  induction calls generalizing b σ with
  | nil => exact h
  | cons c calls ih =>
      have hstep : (b.call c).Refines (Fifo.step b.maxMessages.toNat σ c.op).1 := by
        cases c with
        | push frame => exact h.push frame
        | poll mid => exact (h.poll mid).2
      have hrest := ih hstep
      rw [call_maxMessages] at hrest
      exact hrest

theorem waitingAfter_eq (max : UInt32) (calls : List Call) (m : MailboxID) :
    waitingAfter max calls m = ((afterCalls max calls).queue m).map Frame.serialize :=
  (refines_foldl calls (refines_empty max) m).symm

theorem along_maxMessages (max : UInt32) (calls : List Call) :
    Run.Along call (fun b _ => b.maxMessages = max) { maxMessages := max } calls :=
  Run.along_of_invariant (fun b c h => (call_maxMessages b c).trans h) rfl

theorem withinQuota_afterCalls (max : UInt32) (calls : List Call) :
    (afterCalls max calls).WithinQuota := by
  unfold afterCalls
  apply List.foldlRecOn (motive := WithinQuota)
  · exact fun _ => Nat.zero_le _
  · intro b h c _
    exact h.call c

theorem afterCalls_maxMessages (max : UInt32) (calls : List Call) :
    (afterCalls max calls).maxMessages = max := by
  unfold afterCalls
  apply List.foldlRecOn (motive := fun b : MessageBroker => b.maxMessages = max)
  · rfl
  · intro b h c _
    exact (call_maxMessages b c).trans h

theorem not_stale_empty (max : UInt32) :
    ¬ Stale { maxMessages := max } := by
  rintro ⟨m, hm⟩
  cases hm

/-- **The broker leaves a clean slate exactly if it has a quota**, or nothing is pushed. With
a quota of zero, which the configuration admits, each push to a new mailbox leaves an entry
that no call removes. -/
theorem cleanSlate_iff (max : UInt32) (calls : List Call) :
    CleanSlate max calls ↔ max ≠ 0 ∨ ∀ c ∈ calls, c.IsPoll := by
  constructor
  · intro hclean
    by_cases hmax : max = 0
    · right
      have hstale : ¬ (afterCalls max calls).Stale := by
        apply not_stale_iff.mpr
        intro m
        rw [hclean.entries, waitingAfter_eq, ne_eq, List.map_eq_nil_iff]
      apply @Run.Along.forall_mem _ _ call { maxMessages := max } calls Call.IsPoll
      refine Run.along_of_not_damaged (P := fun b => b.maxMessages = 0 ∧ b.WithinQuota)
        ?_ ?_ ?_ ⟨hmax, fun _ => Nat.zero_le _⟩ hstale
      · intro b c h
        exact ⟨(call_maxMessages b c).trans h.1, h.2.call c⟩
      · intro b c h hc
        cases c with
        | push frame => exact stale_of_push h.1 h.2 frame
        | poll mid => exact absurd trivial hc
      · intro b c h hdamaged
        exact hdamaged.call h.1 c
    · exact .inl hmax
  · intro hwhen
    have hcalls : Run.Along call (fun b c => b.maxMessages ≠ 0 ∨ c.IsPoll)
        { maxMessages := max } calls := by
      rcases hwhen with hmax | hpolls
      · refine (along_maxMessages max calls).mono (P := fun _ => True) ?_ trivial ?_
        · exact fun _ _ _ _ => trivial
        · intro b c _ hb
          left
          rw [hb]
          exact hmax
      · exact Run.along_of_forall_mem fun _ c hc => .inr (hpolls c hc)
    have hentries : ∀ m, m ∈ (afterCalls max calls).queues ↔ waitingAfter max calls m ≠ [] := by
      intro m
      have hstale : ¬ (afterCalls max calls).Stale :=
        hcalls.induction (fun _ _ hc h => call_not_stale h hc) (not_stale_empty max)
      rw [not_stale_iff.mp hstale, waitingAfter_eq, ne_eq, ne_eq, List.map_eq_nil_iff]
    refine ⟨hentries, ?_, ?_, ?_⟩
    · intro m q hq
      have hlength := withinQuota_afterCalls max calls m
      rw [queue, hq, afterCalls_maxMessages] at hlength
      exact hlength
    · intro hpolled
      apply AList.ext
      apply List.eq_nil_iff_forall_not_mem.mpr
      intro e he
      exact (hentries e.1).mp (AList.mem_keys.mpr (List.mem_map_of_mem he)) (hpolled e.1)
    · exact hcalls.mono (P := fun _ => True) (fun _ _ _ _ => trivial) trivial
        fun b c _ hc => refused_queues hc

/-- A message for a mailbox. -/
def letter : Frame := ⟨.push, MailboxID.fill 7, [1, 2, 3]⟩

/-- Pushed and polled under a quota of one: the map is empty again. -/
theorem cleanSlate_one :
    (afterCalls 1 [.push letter, .poll (MailboxID.fill 7)]).queues = ∅ := by
  refine ((cleanSlate_iff 1 [.push letter, .poll (MailboxID.fill 7)]).mpr (.inl ?_)).polled ?_
  · decide
  · intro m
    rw [waitingAfter_eq]
    rfl

/-- **A quota of zero.** The push is rejected, nothing waits, and the entry it has left is
still there after a poll. -/
theorem quota_zero_leaves_entry :
    MailboxID.fill 7 ∈ (afterCalls 0 [.push letter, .poll (MailboxID.fill 7)]).queues ∧
      waitingAfter 0 [.push letter, .poll (MailboxID.fill 7)] (MailboxID.fill 7) = [] ∧
      ¬ CleanSlate 0 [.push letter, .poll (MailboxID.fill 7)] := by
  have hentry : MailboxID.fill 7 ∈
      (afterCalls 0 [.push letter, .poll (MailboxID.fill 7)]).queues := by
    decide +kernel
  have hwaiting :
      waitingAfter 0 [.push letter, .poll (MailboxID.fill 7)] (MailboxID.fill 7) = [] := by
    decide +kernel
  exact ⟨hentry, hwaiting, fun hclean => (hclean.entries _).mp hentry hwaiting⟩

end MessageBroker

end BlankChat.Server
