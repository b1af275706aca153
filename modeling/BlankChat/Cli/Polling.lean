import BlankChat.Cli.Persistence
import BlankChat.Lib.RoundRobin

/-!
# Which mailboxes a client polls

The client keeps a list of the aliases it polls for; `HandleConnect` fills it from the
address book and `HandleAddContact` adds to it. `GetNextFrameForCBR` sends what is in the
outbox first, and otherwise goes round the mailboxes of these aliases, from wherever its
index stands.

Main result: `polling_covers`.
-/

namespace BlankChat.Cli

open Lib BlankChat.Core Crypto Protocol Client

/-! ## The aliases of the address book -/

/-- The address book has a contact under the alias. -/
def Known (b : AddressBook) (a : Bytes) : Prop := (b.getContact a).isSome = true

theorem known_iff_mem {b : AddressBook} {a : Bytes} : Known b a ↔ a ∈ b.getAllAliases :=
  AList.lookup_isSome

theorem known_putContact {b : AddressBook} {a a' : Bytes} {c : Contact} :
    Known (b.putContact a c) a' ↔ a' = a ∨ Known b a' := by
  unfold Known
  by_cases ha : a' = a
  · subst ha
    rw [AddressBook.getContact_putContact]
    simp
  · rw [AddressBook.getContact_putContact_ne _ ha]
    simp [ha]

theorem known_putBack {b : AddressBook} {a a' : Bytes} {c c' : Contact}
    (h : b.getContact a = some c) : Known (b.putContact a c') a' ↔ Known b a' := by
  rw [known_putContact]
  constructor
  · rintro (rfl | hknown)
    · exact Option.isSome_iff_exists.mpr ⟨c, h⟩
    · exact hknown
  · exact .inr

/-- The current and old receive mailboxes of all contacts. -/
def openMailboxes (b : AddressBook) : List MailboxID :=
  b.contacts.entries.flatMap fun e => e.2.rxMailboxId :: e.2.oldRxMailboxId.toList

/-! ## The handlers leave the list alone -/

/-- The aliases to poll for, the connection and the index are as before. -/
structure SameList (r r' : Repl) : Prop where
  aliases : r'.contactAliases = r.contactAliases
  connected : r'.connected = r.connected
  index : r'.currentPollIndex = r.currentPollIndex

theorem SameList.trans {r r' r'' : Repl} (h : SameList r r') (h' : SameList r' r'') :
    SameList r r'' :=
  ⟨h'.aliases.trans h.aliases, h'.connected.trans h.connected, h'.index.trans h.index⟩

namespace Repl

variable {E : Setup} (r : Repl) (a : Bytes) (c : Contact)

theorem initiatePfsRotation_list : SameList r (r.initiatePfsRotation E c).2.1 := by
  unfold initiatePfsRotation generate encrypt
  dsimp only
  split
  · exact ⟨rfl, rfl, rfl⟩
  · split
    · next h =>
        obtain ⟨-, rfl⟩ := Prod.mk.inj h
        exact ⟨rfl, rfl, rfl⟩
    · next h =>
        obtain ⟨-, rfl⟩ := Prod.mk.inj h
        split
        · next h' =>
            obtain ⟨-, rfl⟩ := Prod.mk.inj h'
            exact ⟨rfl, rfl, rfl⟩
        · next h' =>
            obtain ⟨-, rfl⟩ := Prod.mk.inj h'
            exact ⟨rfl, rfl, rfl⟩

theorem maybeStartInitialPfs_list : SameList r (r.maybeStartInitialPfs E a c).1 := by
  unfold maybeStartInitialPfs
  split
  · exact ⟨rfl, rfl, rfl⟩
  · have h := initiatePfsRotation_list (E := E) r c
    split
    · next heq =>
        rw [heq] at h
        exact ⟨h.aliases, h.connected, h.index⟩
    · next heq =>
        rw [heq] at h
        exact h

theorem startPendingInitialPfs_list : SameList r (r.startPendingInitialPfs E) := by
  unfold startPendingInitialPfs
  generalize r.contactAliases = l
  induction l generalizing r with
  | nil => exact ⟨rfl, rfl, rfl⟩
  | cons a l ih =>
      rw [List.foldl_cons]
      refine SameList.trans ?_ (ih _)
      split
      · next c _ =>
          have h := maybeStartInitialPfs_list (E := E) r a c
          exact ⟨h.aliases, h.connected, h.index⟩
      · exact ⟨rfl, rfl, rfl⟩

theorem queueText_list (text : Bytes) : SameList r (r.queueText E a c text) := by
  unfold queueText encrypt
  split
  · next h =>
      obtain ⟨-, rfl⟩ := Prod.mk.inj h
      exact ⟨rfl, rfl, rfl⟩
  · next h =>
      obtain ⟨-, rfl⟩ := Prod.mk.inj h
      exact ⟨rfl, rfl, rfl⟩

theorem handleSend_list (text : Bytes) : SameList r (r.handleSend E a text) := by
  unfold handleSend
  split
  · exact ⟨rfl, rfl, rfl⟩
  · next c _ =>
      split
      · have h := maybeStartInitialPfs_list (E := E) r a c
        exact ⟨h.aliases, h.connected, h.index⟩
      · refine SameList.trans ?_ (queueText_list _ a _ text)
        have h : ∀ r₁ : Repl, SameList r₁ (r₁.checkMessageInterval E c).1 := by
          intro r₁
          unfold checkMessageInterval
          split
          · have h := initiatePfsRotation_list (E := E) (r₁.print .thresholdReached) c
            exact ⟨h.aliases, h.connected, h.index⟩
          · exact ⟨rfl, rfl, rfl⟩
        exact ⟨(h _).aliases, (h _).connected, (h _).index⟩

theorem handleTextMessage_list (plaintext text : Bytes) :
    SameList r (r.handleTextMessage E a c plaintext text) := by
  unfold handleTextMessage encrypt
  dsimp only
  split
  · next h =>
      obtain ⟨-, rfl⟩ := Prod.mk.inj h
      exact ⟨rfl, rfl, rfl⟩
  · next h =>
      obtain ⟨-, rfl⟩ := Prod.mk.inj h
      exact ⟨rfl, rfl, rfl⟩

theorem answerRotation_list (e : PublicKeyType) (k : EphemeralKey) :
    SameList r (r.answerRotation E a c e k).1 := by
  rw [answerRotation_eq]
  unfold encrypt
  split
  · next h =>
      obtain ⟨-, rfl⟩ := Prod.mk.inj h
      exact ⟨rfl, rfl, rfl⟩
  · next h =>
      obtain ⟨-, rfl⟩ := Prod.mk.inj h
      split <;> exact ⟨rfl, rfl, rfl⟩

theorem handlePfsRotateRequest_list (plaintext : Bytes) :
    SameList r (r.handlePfsRotateRequest E a c plaintext).1 := by
  unfold handlePfsRotateRequest generate
  split
  · exact ⟨rfl, rfl, rfl⟩
  · split
    · exact ⟨rfl, rfl, rfl⟩
    · split
      · have h := maybeStartInitialPfs_list (E := E)
          (r.print (.ignoringSimultaneousRequest a)) a c
        exact ⟨h.aliases, h.connected, h.index⟩
      · split
        · next h =>
            obtain ⟨-, rfl⟩ := Prod.mk.inj h
            exact ⟨rfl, rfl, rfl⟩
        · next h =>
            obtain ⟨-, rfl⟩ := Prod.mk.inj h
            have h := answerRotation_list (E := E) { r with keyDraws := r.keyDraws + 1 } a c
            exact ⟨(h _ _).aliases, (h _ _).connected, (h _ _).index⟩

theorem handlePfsRotateAck_list (plaintext : Bytes) :
    SameList r (r.handlePfsRotateAck E a c plaintext).1 := by
  unfold handlePfsRotateAck
  split
  · split
    · exact ⟨rfl, rfl, rfl⟩
    · dsimp only
      split
      · exact ⟨rfl, rfl, rfl⟩
      · split <;> exact ⟨rfl, rfl, rfl⟩
  · exact ⟨rfl, rfl, rfl⟩

theorem dispatch_list (plaintext : Bytes) : SameList r (r.dispatch E a c plaintext).1 := by
  unfold dispatch
  split
  · split
    · exact ⟨rfl, rfl, rfl⟩
    · split
      · exact ⟨rfl, rfl, rfl⟩
      · exact handleTextMessage_list r a c _ _
  · exact handlePfsRotateRequest_list r a c plaintext
  · exact handlePfsRotateAck_list r a c plaintext
  · exact ⟨rfl, rfl, rfl⟩

theorem onFrameReceived_list (f : Frame) : SameList r (r.onFrameReceived E f) := by
  unfold onFrameReceived
  split
  · exact ⟨rfl, rfl, rfl⟩
  · dsimp only
    generalize r.addressBook.getAliasByRxMailboxId f.mailboxId = a
    split
    · exact ⟨rfl, rfl, rfl⟩
    · split
      · exact ⟨rfl, rfl, rfl⟩
      · next c _ =>
          split
          · unfold processPushFrame
            split
            · exact ⟨rfl, rfl, rfl⟩
            · next plaintext _ =>
                dsimp only
                generalize hdropped : r.dropOldMailbox a c _ = dropped
                have hdrop : SameList r dropped.1 := by
                  rw [← hdropped]
                  unfold dropOldMailbox
                  split <;> exact ⟨rfl, rfl, rfl⟩
                have h := hdrop.trans (dispatch_list (E := E) dropped.1 a dropped.2 plaintext)
                exact ⟨h.aliases, h.connected, h.index⟩
          · unfold processAckFrame
            split <;> exact ⟨rfl, rfl, rfl⟩
          · exact ⟨rfl, rfl, rfl⟩

theorem handleConnect_index : (r.handleConnect E).currentPollIndex = r.currentPollIndex :=
  (startPendingInitialPfs_list _).index

theorem handleAddContact_index (pubKey : Option PublicKeyType) :
    (r.handleAddContact E a pubKey).currentPollIndex = r.currentPollIndex := by
  have hremember : ∀ r₁ : Repl, (r₁.rememberAlias a).currentPollIndex = r₁.currentPollIndex := by
    intro r₁
    unfold rememberAlias
    split <;> rfl
  unfold handleAddContact
  split
  · rfl
  · split
    · rfl
    · dsimp only
      split
      · exact hremember _
      · next c _ =>
          show (maybeStartInitialPfs E _ a c).1.currentPollIndex = _
          rw [(maybeStartInitialPfs_list _ a c).index, hremember]
          rfl

theorem getNextFrameForCBR_list :
    SameList { r with currentPollIndex := r.getNextFrameForCBR.2.currentPollIndex }
      r.getNextFrameForCBR.2 := by
  unfold getNextFrameForCBR
  split
  · exact ⟨rfl, rfl, rfl⟩
  · split <;> exact ⟨rfl, rfl, rfl⟩

end Repl

theorem Action.known {E : Setup} {G : Guard} {r r' : Repl} (h : Action E G r r')
    (hadds : ∀ pk, ¬ G.adds pk) (hrestarts : ¬ G.restarts) (a : Bytes) :
    Known r'.addressBook a ↔ Known r.addressBook a := by
  cases h with
  | quiet h => rw [h.book]
  | change hquiet hc =>
      show Known (AddressBook.putContact _ _ _) a ↔ _
      rw [hquiet.book]
      exact known_putBack hc
  | save => exact Iff.rfl
  | text hbook _ hc =>
      rw [hbook]
      exact known_putBack hc
  | add hpk => exact absurd hpk (hadds _)
  | tick _ hbook => rw [hbook]
  | restart h => exact absurd h hrestarts

theorem GuardedActions.known {E : Setup} {G : Guard} {r r' : Repl} (h : GuardedActions E G r r')
    (hadds : ∀ pk, ¬ G.adds pk) (hrestarts : ¬ G.restarts) (a : Bytes) :
    Known r'.addressBook a ↔ Known r.addressBook a := by
  induction h with
  | refl => exact Iff.rfl
  | tail _ haction ih => exact (haction.known hadds hrestarts a).trans ih

/-! ## The list and the address book -/

/-- The aliases to poll for are distinct and known; while the client is connected they are
all there are. -/
structure Listed (r : Repl) : Prop where
  nodup : r.contactAliases.Nodup
  known : ∀ a ∈ r.contactAliases, Known r.addressBook a
  all : r.connected = true → ∀ a, Known r.addressBook a → a ∈ r.contactAliases

namespace Listed

variable {E : Setup} {r r' : Repl}

theorem work (h : Listed r) (hlist : SameList r r')
    (hknown : ∀ a, Known r'.addressBook a ↔ Known r.addressBook a) : Listed r' := by
  refine ⟨?_, ?_, ?_⟩
  · rw [hlist.aliases]
    exact h.nodup
  · rw [hlist.aliases]
    exact fun a ha => (hknown a).mpr (h.known a ha)
  · rw [hlist.aliases, hlist.connected]
    exact fun hconnected a ha => h.all hconnected a ((hknown a).mp ha)

theorem index (h : Listed r) {i : ℕ} : Listed { r with currentPollIndex := i } :=
  ⟨h.nodup, h.known, h.all⟩

theorem connect : Listed (r.handleConnect E) := by
  unfold Repl.handleConnect
  dsimp only
  generalize hr₁ : Repl.mk _ _ _ _ _ _ _ _ _ _ _ = r₁
  have hlisted : Listed r₁ := by
    rw [← hr₁]
    exact ⟨AList.keys_nodup _, fun a => known_iff_mem.mpr, fun _ a => known_iff_mem.mp⟩
  have hactions : GuardedActions E { adds := fun _ => False, restarts := False } r₁
      (r₁.startPendingInitialPfs E) := Repl.startPendingInitialPfs_actions r₁
  exact hlisted.work (Repl.startPendingInitialPfs_list r₁) (hactions.known (fun _ => id) id)

theorem rememberAlias (h : Listed r) (a : Bytes)
    (hknown : ∀ a', Known r'.addressBook a' ↔ a' = a ∨ Known r.addressBook a')
    (hlist : SameList r r') : Listed (r'.rememberAlias a) := by
  unfold Repl.rememberAlias
  rw [hlist.aliases]
  split
  · next hmem =>
      refine ⟨?_, ?_, ?_⟩
      · rw [hlist.aliases]
        exact h.nodup
      · rw [hlist.aliases]
        exact fun a' ha' => (hknown a').mpr (.inr (h.known a' ha'))
      · rw [hlist.aliases, hlist.connected]
        intro hconnected a' ha'
        rcases (hknown a').mp ha' with rfl | ha'
        · exact hmem
        · exact h.all hconnected a' ha'
  · next hmem =>
      refine ⟨?_, ?_, ?_⟩
      · exact List.concat_eq_append ▸ h.nodup.concat hmem
      · intro a' ha'
        rcases List.mem_append.mp ha' with ha' | ha'
        · exact (hknown a').mpr (.inr (h.known a' ha'))
        · exact (hknown a').mpr (.inl (List.mem_singleton.mp ha'))
      · intro hconnected a' ha'
        rcases (hknown a').mp ha' with rfl | ha'
        · exact List.mem_append_right _ (List.mem_singleton.mpr rfl)
        · exact List.mem_append_left _ (h.all (hlist.connected ▸ hconnected) a' ha')

theorem add (h : Listed r) (a : Bytes) (pubKey : Option PublicKeyType) :
    Listed (r.handleAddContact E a pubKey) := by
  unfold Repl.handleAddContact
  split
  · exact h.work ⟨rfl, rfl, rfl⟩ fun _ => Iff.rfl
  · next publicKey =>
      split
      · exact h.work ⟨rfl, rfl, rfl⟩ fun _ => Iff.rfl
      · next book hbook =>
          obtain ⟨d, -, rfl⟩ := Option.map_eq_some_iff.mp hbook
          dsimp only
          generalize hr₁ : Repl.rememberAlias _ a = r₁
          have hlisted : Listed r₁ := by
            rw [← hr₁]
            refine h.rememberAlias a ?_ ⟨rfl, rfl, rfl⟩
            exact fun _ => known_putContact
          split
          · exact hlisted
          · next c hc =>
              have hlist := Repl.maybeStartInitialPfs_list (E := E) r₁ a c
              have hactions : GuardedActions E { adds := fun _ => False, restarts := False } r₁ _ :=
                Repl.Started.actions (Repl.maybeStartInitialPfs_started r₁ a c) hc
              exact hlisted.work ⟨hlist.aliases, hlist.connected, hlist.index⟩ (hactions.known (fun _ => id) id)

/-- **Every step keeps the list in order.** -/
theorem step (h : Listed r) (i : Input) : Listed (r.step E i) := by
  cases i with
  | connect => exact connect
  | add a pubKey => exact h.add a pubKey
  | restart =>
      refine ⟨List.nodup_nil, List.forall_mem_nil _, ?_⟩
      intro hconnected
      cases hconnected
  | send a text =>
      refine h.work (Repl.handleSend_list r a text)
        ((Repl.step_actions r (.send a text)).known ?_ ?_)
      · rintro pk ⟨a', ha'⟩
        cases ha'
      · intro hrestart
        cases hrestart
  | tick =>
      have hlist := Repl.getNextFrameForCBR_list r
      refine h.index.work hlist ((Repl.step_actions r .tick).known ?_ ?_)
      · rintro pk ⟨a', ha'⟩
        cases ha'
      · intro hrestart
        cases hrestart
  | receive f =>
      refine h.work (Repl.onFrameReceived_list r f)
        ((Repl.step_actions r (.receive f)).known ?_ ?_)
      · rintro pk ⟨a', ha'⟩
        cases ha'
      · intro hrestart
        cases hrestart

theorem run (E : Setup) (inputs : List Input) : Listed (Repl.run E {} inputs) := by
  refine List.foldlRecOn (motive := Listed) inputs (Repl.step E) ?_ ?_
  · refine ⟨List.nodup_nil, List.forall_mem_nil _, ?_⟩
    intro hconnected
    cases hconnected
  · intro r h i _
    exact h.step i

/-- The list has every alias of the address book once. -/
theorem aliases_perm (h : Listed r) (hconnected : r.connected = true) :
    r.contactAliases.Perm r.addressBook.getAllAliases := by
  apply (List.perm_ext_iff_of_nodup h.nodup (AList.keys_nodup _)).mpr
  intro a
  exact ⟨fun ha => known_iff_mem.mp (h.known a ha), fun ha => h.all hconnected a (known_iff_mem.mpr ha)⟩

theorem activeMailboxes_perm (h : Listed r) (hconnected : r.connected = true) :
    r.activeMailboxes.Perm (openMailboxes r.addressBook) := by
  unfold Repl.activeMailboxes openMailboxes
  refine ((h.aliases_perm hconnected).flatMap_right _).trans ?_
  show (List.flatMap _ (List.map _ _)).Perm _
  rw [List.flatMap_map]
  refine List.Perm.of_eq (List.flatMap_congr fun e he => ?_)
  have hlookup : r.addressBook.getContact e.1 = some e.2 := AList.mem_lookup_iff.mpr he
  rw [hlookup]

end Listed

/-! ## Going round -/

namespace Repl

variable {E : Setup}

/-- The frames of the next calls of `GetNextFrameForCBR`. -/
def nextFrames : ℕ → Repl → List Frame
  | 0, _ => []
  | k + 1, r => r.getNextFrameForCBR.1 :: nextFrames k r.getNextFrameForCBR.2

/-- The client after these calls. -/
def afterFrames : ℕ → Repl → Repl
  | 0, r => r
  | k + 1, r => afterFrames k r.getNextFrameForCBR.2

/-- The outbox is sent first, in its order, and the index stays. -/
theorem nextFrames_outbox (r : Repl) {k : ℕ} (hk : k ≤ r.outbox.length) :
    nextFrames k r = r.outbox.take k ∧
      afterFrames k r = { r with outbox := r.outbox.drop k } := by
  induction k generalizing r with
  | zero => exact ⟨rfl, rfl⟩
  | succ k ih =>
      cases houtbox : r.outbox with
      | nil =>
          rw [houtbox] at hk
          cases hk
      | cons f outbox =>
          have hnext : r.getNextFrameForCBR = (f, { r with outbox := outbox }) := by
            unfold getNextFrameForCBR
            rw [houtbox]
          rw [houtbox] at hk
          have hrest := ih { r with outbox := outbox } (Nat.le_of_succ_le_succ hk)
          rw [nextFrames, afterFrames, hnext, hrest.1, hrest.2]
          exact ⟨rfl, rfl⟩

/-- With an empty outbox the mailbox after the index has its turn. -/
theorem getNextFrameForCBR_poll {r : Repl} (houtbox : r.outbox = [])
    (hactive : r.activeMailboxes ≠ []) :
    r.getNextFrameForCBR =
      (Frame.createPoll (r.activeMailboxes.getD ((r.currentPollIndex + 1) % r.activeMailboxes.length)
          (MailboxID.fill 0x00)),
        { r with currentPollIndex := (r.currentPollIndex + 1) % r.activeMailboxes.length }) := by
  unfold getNextFrameForCBR
  rw [houtbox]
  exact if_neg hactive

/-- `activeMailboxes.at` is in range. -/
theorem getNextFrameForCBR_at {r : Repl} (houtbox : r.outbox = [])
    (hactive : r.activeMailboxes ≠ []) :
    ∃ h : r.getNextFrameForCBR.2.currentPollIndex < r.activeMailboxes.length,
      r.getNextFrameForCBR.1 =
        Frame.createPoll (r.activeMailboxes.get ⟨r.getNextFrameForCBR.2.currentPollIndex, h⟩) := by
  have hlt := Nat.mod_lt (r.currentPollIndex + 1) (List.length_pos_iff.mpr hactive)
  rw [getNextFrameForCBR_poll houtbox hactive]
  refine ⟨hlt, ?_⟩
  rw [List.getD_eq_getElem _ _ hlt]
  rfl

/-- The polls of a run: the frames of the ticks that find the outbox empty. -/
def polls (E : Setup) : Repl → List Input → List Frame
  | _, [] => []
  | r, .tick :: inputs =>
      if r.outbox = [] then r.getNextFrameForCBR.1 :: polls E r.getNextFrameForCBR.2 inputs
      else polls E r.getNextFrameForCBR.2 inputs
  | r, i :: inputs => polls E (r.step E i) inputs

theorem polls_cons {r : Repl} {i : Input} {inputs : List Input} (h : i ≠ .tick) :
    polls E r (i :: inputs) = polls E (r.step E i) inputs := by
  cases i <;> first | rfl | exact absurd rfl h

theorem step_index (r : Repl) {i : Input} (htick : i ≠ .tick) (hrestart : i ≠ .restart) :
    (r.step E i).currentPollIndex = r.currentPollIndex := by
  cases i with
  | connect => exact r.handleConnect_index
  | add a pubKey => exact r.handleAddContact_index a pubKey
  | restart => exact absurd rfl hrestart
  | send a text => exact (r.handleSend_list a text).index
  | tick => exact absurd rfl htick
  | receive f => exact (r.onFrameReceived_list f).index

/-- **While the mailboxes to poll stay the same, the polls of a run take turns.** -/
theorem polls_eq_turns {l : List MailboxID} (hl : l ≠ []) {r : Repl} {inputs : List Input}
    (h : Run.Along (step E) (fun s _ => s.activeMailboxes = l) r inputs) :
    polls E r inputs =
      (turns l (MailboxID.fill 0x00) (polls E r inputs).length r.currentPollIndex).map
        Frame.createPoll := by
  induction inputs generalizing r with
  | nil => rfl
  | cons i inputs ih =>
      have hrest := ih h.2
      by_cases htick : i = .tick
      · subst htick
        have hstep : r.step E .tick = r.getNextFrameForCBR.2 := rfl
        rw [hstep] at hrest
        rw [polls]
        split
        · next houtbox =>
            have hactive : r.activeMailboxes ≠ [] := h.1 ▸ hl
            rw [getNextFrameForCBR_poll houtbox hactive, h.1] at hrest ⊢
            rw [List.length_cons, turns, List.map_cons, ← hrest]
        · next houtbox =>
            have hindex : r.getNextFrameForCBR.2.currentPollIndex = r.currentPollIndex := by
              unfold getNextFrameForCBR
              split
              · rfl
              · next hempty => exact absurd hempty houtbox
            rw [← hindex]
            exact hrest
      · rw [polls_cons htick]
        by_cases hrestart : i = .restart
        · subst hrestart
          cases inputs with
          | nil => rfl
          | cons j inputs => exact absurd h.2.1.symm hl
        · rw [← step_index r htick hrestart]
          exact hrest

theorem nextFrames_eq_turns {r : Repl} (houtbox : r.outbox = [])
    (hactive : r.activeMailboxes ≠ []) (k : ℕ) :
    nextFrames k r =
      (turns r.activeMailboxes (MailboxID.fill 0x00) k r.currentPollIndex).map
        Frame.createPoll := by
  induction k generalizing r with
  | zero => rfl
  | succ k ih =>
      have hrest : ∀ i, nextFrames k { r with currentPollIndex := i } = _ :=
        fun i => ih houtbox hactive
      rw [nextFrames, getNextFrameForCBR_poll houtbox hactive, hrest, turns, List.map_cons]
      rfl

end Repl

/-- As many turns as there are mailboxes, for any order of the mailboxes. -/
theorem turns_cover {l l' : List MailboxID} (h : l.Perm l') (d : MailboxID) (i : ℕ) :
    ((turns l d l'.length i).map Frame.createPoll).Perm (l'.map Frame.createPoll) := by
  rw [← h.length_eq]
  exact ((turns_perm l d i).trans h).map _

/-- **Polling covers every open mailbox.** In every state of a run in which the client is
connected, its list of aliases is that of the address book, without repetition. From any
index, as many consecutive calls as there are mailboxes poll each of them once, when the
outbox is empty; so do as many polls of a further run, whatever happens between the ticks, as
long as the mailboxes stay the same. The index is in range, and what is in the outbox goes
first, in order, and leaves the index. -/
theorem polling_covers (E : Setup) (inputs : List Input)
    (hconnected : (Repl.run E {} inputs).connected = true) :
    (Repl.run E {} inputs).contactAliases.Nodup ∧
    (∀ a, a ∈ (Repl.run E {} inputs).contactAliases ↔
      Known (Repl.run E {} inputs).addressBook a) ∧
    (∀ index, ∀ r, r = { Repl.run E {} inputs with currentPollIndex := index } →
      (r.outbox = [] →
        (Repl.nextFrames (openMailboxes r.addressBook).length r).Perm
          ((openMailboxes r.addressBook).map Frame.createPoll)) ∧
      (∀ more, Run.Along (Repl.step E) (fun s _ => s.activeMailboxes = r.activeMailboxes) r more →
        (Repl.polls E r more).length = (openMailboxes r.addressBook).length →
        (Repl.polls E r more).Perm ((openMailboxes r.addressBook).map Frame.createPoll)) ∧
      (r.outbox = [] → r.activeMailboxes ≠ [] →
        ∃ h : r.getNextFrameForCBR.2.currentPollIndex < r.activeMailboxes.length,
          r.getNextFrameForCBR.1 = Frame.createPoll
            (r.activeMailboxes.get ⟨r.getNextFrameForCBR.2.currentPollIndex, h⟩)) ∧
      ∀ k ≤ r.outbox.length, Repl.nextFrames k r = r.outbox.take k ∧
        Repl.afterFrames k r = { r with outbox := r.outbox.drop k }) := by
  have hlisted := Listed.run E inputs
  refine ⟨hlisted.nodup, fun a => ⟨hlisted.known a, hlisted.all hconnected a⟩, ?_⟩
  rintro index r hr
  have hperm : r.activeMailboxes.Perm (openMailboxes r.addressBook) := by
    rw [hr]
    exact hlisted.index.activeMailboxes_perm hconnected
  refine ⟨?_, ?_, Repl.getNextFrameForCBR_at, fun k => Repl.nextFrames_outbox r⟩
  · intro houtbox
    by_cases hactive : r.activeMailboxes = []
    · rw [hactive] at hperm
      rw [hperm.nil_eq.symm]
      exact .refl _
    · rw [Repl.nextFrames_eq_turns houtbox hactive]
      exact turns_cover hperm _ _
  · intro more hsame hcount
    by_cases hactive : r.activeMailboxes = []
    · rw [hactive] at hperm
      rw [hperm.nil_eq.symm] at hcount ⊢
      rw [List.eq_nil_of_length_eq_zero hcount]
      exact .refl _
    · rw [Repl.polls_eq_turns hactive hsame, hcount]
      exact turns_cover hperm _ _

/-- Bob has answered a rotation of Alice, whose old mailbox stays open, and adds another
contact: three mailboxes, once the outbox is empty. -/
def bobAddsCarol : List Input :=
  bobAnswersRotation ++ [.add (ascii "carol") (some (toyKey 3))] ++ List.replicate 5 .tick

theorem polling_covers_bob :
    let r := { Repl.run bob {} bobAddsCarol with currentPollIndex := 7 }
    (openMailboxes r.addressBook).length = 3 ∧
      (Repl.nextFrames 3 r).Perm ((openMailboxes r.addressBook).map Frame.createPoll) := by
  intro r
  have hlength : (openMailboxes r.addressBook).length = 3 := by decide +kernel
  have hcovers := (polling_covers bob bobAddsCarol (by decide +kernel)).2.2 7 r rfl
  refine ⟨hlength, ?_⟩
  rw [← hlength]
  exact hcovers.1 (by decide +kernel)

end BlankChat.Cli
