import BlankChat.Cli.ContactStep
import BlankChat.Lib.Run
import Mathlib.Logic.Relation

/-!
# The actions of a client

Whatever happens to a client is a sequence of a few actions on its address book, its
file and its log of encryptions. Its `Guard` says what the
input allows. An invariant is proved for each `Action` and holds along every run by
`along_actions`.
-/

namespace BlankChat.Cli

open Lib BlankChat.Core Crypto Protocol Client

/-- The changes of a contact outside of a send: a move, or the loss of the old mailbox. -/
inductive ContactChange (E : Setup) (o : Occasion) (c : Contact) : Contact → Prop where
  | step {c' : Contact} (h : ContactStep E o c c') : ContactChange E o c c'
  | droppedOld (hitems : o.items = []) : ContactChange E o c (droppedOld c)

/-- One more message was sent. -/
def counted (c : Contact) : Contact := { c with messageCounter := c.messageCounter + 1 }

/-- The counter has reached the interval, and no rotation is under way. -/
def Due (E : Setup) (c : Contact) : Prop :=
  0 < E.pfsMessageInterval ∧ E.pfsMessageInterval ≤ c.messageCounter ∧ c.pfsState = .idle

/-- The key pairs from `lo` to `hi` are generated, and encryption succeeds. -/
structure Reliable (E : Setup) (lo hi : ℕ) : Prop where
  keys : ∀ n, lo ≤ n → n < hi → E.tape.keypair n ≠ none
  encrypts : ∀ key nonce plaintext, encryptWithPadding E.sodium key nonce plaintext ≠ none

/-- One action. -/
inductive Action (E : Setup) (G : Guard) (r : Repl) : Repl → Prop where
  | quiet {r' : Repl} {items : List Item} (h : Quiet E r r' items)
      (hitems : ∀ i ∈ items, i.IsReceipt) : Action E G r r'
  | change {r₁ : Repl} {items : List Item} {a : Bytes} {c c' : Contact}
      (hquiet : Quiet E r r₁ items) (hc : r.addressBook.getContact a = some c)
      (h : ContactChange E (.between G r r₁ items) c c') : Action E G r (r₁.putContact a c')
  | save : Action E G r { r with addressBook := r.addressBook.saveToDisk }
  | text {r' : Repl} {items : List Item} {a text : Bytes} {c : Contact}
      (hbook : r'.addressBook = r.addressBook.putContact a (counted c))
      (hdraws : r'.keyDraws = r.keyDraws) (hc : r.addressBook.getContact a = some c)
      (hcomplete : c.initialPfsComplete = true)
      (hdue : Reliable E G.draws r.keyDraws → ¬ Due E c)
      (hlog : r'.encryptions = r.encryptions ++ [(c.txKey, buildTextMessage text)])
      (hqueued : Queued E r r' items) (hitems : ∀ i ∈ items, i = .to c (.text text))
      (htexts : G.texts text) : Action E G r r'
  | add {a : Bytes} {pk : PublicKeyType} {d : DerivedMailboxes} (hadds : G.adds pk)
      (hd : derivePairwiseMailboxes E.sodium E.identity pk = some d) :
      Action E G r (r.putContact a (AddressBook.bootstrapContact a pk none d))
  | tick {r' : Repl} (h : G.ticks) (hbook : r'.addressBook = r.addressBook)
      (hdraws : r'.keyDraws = r.keyDraws) (hlog : r'.encryptions = r.encryptions)
      (houtbox : r'.outbox = r.outbox.tail) : Action E G r r'
  | restart (h : G.restarts) : Action E G r (r.restart E)

/-- Any number of actions that an input allows. -/
abbrev GuardedActions (E : Setup) (G : Guard) : Repl → Repl → Prop :=
  Relation.ReflTransGen (Action E G)

/-- Any number of actions. -/
abbrev Actions (E : Setup) : Repl → Repl → Prop :=
  GuardedActions E {}

/-! ## Handlers are sequences of actions -/

theorem Action.mono {E : Setup} {G G' : Guard} {r r' : Repl} (h : Action E G r r')
    (hG : G.Le G') : Action E G' r r' := by
  cases h with
  | quiet h hitems => exact .quiet h hitems
  | change hquiet hc h =>
      refine .change hquiet hc ?_
      cases h with
      | step h => exact .step (h.mono hG)
      | droppedOld hitems => exact .droppedOld hitems
  | save => exact .save
  | text hbook hdraws hc hcomplete hdue hlog hqueued hitems htexts =>
      refine .text hbook hdraws hc hcomplete (fun hreliable => hdue ?_) hlog hqueued hitems
        (hG.texts _ htexts)
      exact ⟨fun n hlo => hreliable.keys n (hG.draws.trans hlo), hreliable.encrypts⟩
  | add hpk hd => exact .add (hG.adds _ hpk) hd
  | tick h hbook hdraws hlog houtbox => exact .tick (hG.ticks h) hbook hdraws hlog houtbox
  | restart h => exact .restart (hG.restarts h)

theorem Action.draws {E : Setup} {G : Guard} {r r' : Repl} (h : Action E G r r') :
    r.keyDraws ≤ r'.keyDraws := by
  cases h with
  | quiet h => exact h.draws
  | change hquiet => exact hquiet.draws
  | save => exact le_rfl
  | text _ hdraws => exact hdraws.ge
  | add => exact le_rfl
  | tick _ _ hdraws => exact hdraws.ge
  | restart => exact le_rfl

namespace Repl

variable {E : Setup} {G : Guard} {r : Repl} {a : Bytes} {c : Contact}

/-- Writing back a contact that was just written changes nothing. -/
theorem save_putContact (r : Repl) (a : Bytes) (c : Contact) :
    (r.save a c).putContact a c = r.save a c := by
  unfold putContact save
  rw [AddressBook.putContact_self (by simp)]

theorem quiet_action {r' : Repl} (h : Quiet E r r' []) : Action E G r r' :=
  .quiet h (List.forall_mem_nil _)

/-- A handler is quiet work, at most one change, and at most one save. -/
theorem Handled.actions {p : Repl × Contact} (h : Handled E G a r c p)
    (hc : r.addressBook.getContact a = some c) :
    GuardedActions E G r (p.1.putContact a p.2) := by
  obtain ⟨r', c'⟩ := p
  obtain ⟨r₁, items, hquiet, hwork, hcontact⟩ := h
  dsimp only at hwork hcontact ⊢
  have hput : GuardedActions E G r (r₁.putContact a c') := by
    rcases hcontact with ⟨rfl, hreceipts⟩ | hstep
    · rw [putContact, hquiet.book, AddressBook.putContact_self hc, ← hquiet.book]
      exact .single (.quiet hquiet hreceipts)
    · exact .single (.change hquiet hc (.step hstep))
  rcases hwork with rfl | rfl
  · exact hput
  · rw [save_putContact]
    exact hput.tail .save

theorem Started.actions {p : Repl × Contact} (h : Started E G r c p)
    (hc : r.addressBook.getContact a = some c) :
    GuardedActions E G r (p.1.putContact a p.2) :=
  Handled.actions (h.handled a) hc

theorem accept_actions (hc : r.addressBook.getContact a = some c) (usedOld : Bool)
    (plaintext : Bytes)
    (hanswers : ∀ k e, (r.dropOldMailbox a c usedOld).1.answer (r.dropOldMailbox a c usedOld).2 E
      plaintext = some (k, e) → G.answers (r.dropOldMailbox a c usedOld).2 k e)
    (hcompletes : ∀ ack, parsePfsRotateAck plaintext = some ack →
      G.completes (r.dropOldMailbox a c usedOld).2 ack.ephemeralPublicKey) :
    GuardedActions E G r (r.accept E a c usedOld plaintext) := by
  have hdispatch := dispatch_handled _ a _ plaintext hanswers hcompletes
  unfold accept
  rcases dropOldMailbox_cases r a c usedOld with hd | ⟨-, -, hd⟩
  · rw [hd] at hdispatch ⊢
    exact Handled.actions hdispatch hc
  · rw [hd] at hdispatch ⊢
    have hdrop : GuardedActions E G r
        ((r.print (.transitionConfirmed a)).save a (droppedOld c)) :=
      .tail (.single (.change (.print r _) hc (.droppedOld rfl))) .save
    refine hdrop.trans (Handled.actions hdispatch ?_)
    exact AddressBook.getContact_putContact _ _ _

/-- The send starts a rotation with a contact after the handshake. -/
def Rotates (E : Setup) (r : Repl) (i : Input) (c : Contact) : Prop :=
  ∃ a text c', i = .send a text ∧ r.addressBook.getContact a = some c ∧
    c.initialPfsComplete = true ∧ (r.step E i).addressBook.getContact a = some c' ∧
    c'.pfsState ≠ c.pfsState

/-- What an input allows in a state. -/
def guardOf (E : Setup) (r : Repl) (i : Input) : Guard where
  draws := r.keyDraws
  texts := fun text => ∃ a, i = .send a text
  rotates := Rotates E r i
  answers := fun c k e => answering E r i = some (c, k, e)
  completes := fun c e => completing E r i = some (c, e)
  adds := fun pk => ∃ a, i = .add a (some pk)
  ticks := i = .tick
  restarts := i = .restart

theorem onFrameReceived_actions (r : Repl) (f : Frame) :
    GuardedActions E (guardOf E r (.receive f)) r (r.onFrameReceived E f) := by
  rcases onFrameReceived_cases (E := E) r f with hquiet | ⟨a, c, pt, hrouted, hpush, hdec, heq⟩
  · exact .single (quiet_action hquiet)
  · rw [heq]
    have hopened := opened_receive hrouted hpush hdec
    refine accept_actions hrouted.contact _ _ ?_ ?_
    · intro k e hanswer
      show (opened E r (.receive f)).bind _ = _
      rw [hopened]
      dsimp only [Option.bind_some]
      rw [hanswer]
      rfl
    · intro ack hack
      show (opened E r (.receive f)).bind _ = _
      rw [hopened]
      dsimp only [Option.bind_some]
      rw [hack]
      rfl

theorem startPendingInitialPfs_actions (r : Repl) :
    GuardedActions E G r (r.startPendingInitialPfs E) := by
  unfold startPendingInitialPfs
  generalize r.contactAliases = l
  induction l generalizing r with
  | nil => exact .refl
  | cons a l ih =>
      rw [List.foldl_cons]
      refine .trans ?_ (ih _)
      split
      · next c hc => exact Started.actions (maybeStartInitialPfs_started r a c) hc
      · exact .refl

/-- A rotation that is due is started, unless a key pair or a ciphertext is missing. -/
theorem checkMessageInterval_due (r : Repl) (c : Contact)
    (hreliable : Reliable E r.keyDraws (r.checkMessageInterval E c).1.keyDraws) :
    ¬ Due E (r.checkMessageInterval E c).2 := by
  unfold checkMessageInterval at hreliable ⊢
  split
  · next hdue =>
      rw [if_pos hdue] at hreliable
      unfold initiatePfsRotation at hreliable ⊢
      rw [if_neg (not_not.mpr hdue.2.2)] at hreliable ⊢
      obtain ⟨k, hk⟩ : ∃ k, E.tape.keypair (r.print .thresholdReached).keyDraws = some k := by
        refine Option.ne_none_iff_exists'.mp fun hnone => ?_
        refine hreliable.keys r.keyDraws le_rfl ?_ hnone
        unfold generate
        rw [hnone]
        exact Nat.lt_succ_self _
      unfold generate
      rw [hk]
      dsimp only
      split
      · next he => exact absurd (congrArg Prod.fst he) (hreliable.encrypts _ _ _)
      · rintro ⟨-, -, hidle⟩
        cases hidle
  · next hdue => exact hdue

theorem queueText_action (hc : r.addressBook.getContact a = some c)
    (hcomplete : c.initialPfsComplete = true)
    (hdue : Reliable E G.draws r.keyDraws → ¬ Due E c) {text : Bytes} (htexts : G.texts text) :
    Action E G r ((r.putContact a (counted c)).queueText E a (counted c) text) := by
  unfold queueText
  split
  · next r₁ he =>
      obtain ⟨-, rfl⟩ := Prod.mk.inj he
      exact .text rfl rfl hc hcomplete hdue rfl (.of_eq rfl) (List.forall_mem_nil _) htexts
  · next ct r₁ he =>
      have hitem := inFrame_of_encrypt (E := E) (counted c) (.text text) he
      obtain ⟨-, rfl⟩ := Prod.mk.inj he
      exact .text rfl rfl hc hcomplete hdue rfl (.push hitem rfl)
        (fun i hi => List.mem_singleton.mp hi) htexts

theorem queueText_addressBook (r : Repl) (a : Bytes) (c : Contact) (text : Bytes) :
    (r.queueText E a c text).addressBook = r.addressBook := by
  unfold queueText
  split
  · next he =>
      obtain ⟨-, rfl⟩ := Prod.mk.inj he
      rfl
  · next he =>
      obtain ⟨-, rfl⟩ := Prod.mk.inj he
      rfl

/-- A send after the handshake: perhaps a rotation, then the counter and the text. -/
theorem handleSend_actions (r : Repl) (a text : Bytes) :
    GuardedActions E (guardOf E r (.send a text)) r (r.handleSend E a text) := by
  generalize hG : guardOf E r (.send a text) = G
  have htexts : G.texts text := hG ▸ ⟨a, rfl⟩
  have hdraws : G.draws = r.keyDraws := hG ▸ rfl
  have hrotates : ∀ c c', r.addressBook.getContact a = some c → c.initialPfsComplete = true →
      (r.handleSend E a text).addressBook.getContact a = some c' →
      c'.pfsState ≠ c.pfsState → G.rotates c :=
    fun c c' hc hcomplete hc' hstate => hG ▸ ⟨a, text, c', rfl, hc, hcomplete, hc', hstate⟩
  clear hG
  unfold handleSend at hrotates ⊢
  split
  · exact .single (quiet_action (.print r _))
  · next c hc =>
      rw [hc] at hrotates
      split
      · have hstart := maybeStartInitialPfs_started (E := E) (G := G) r a c
        exact (Started.actions hstart hc).tail (quiet_action (.print _ _))
      · next hcomplete =>
          have hdone : c.initialPfsComplete = true := by simpa using hcomplete
          have hrotates := hrotates c
          dsimp only at hrotates ⊢
          rw [if_neg hcomplete] at hrotates
          generalize hr₁ : (r.now E).2.appendMessage _ = r₁ at hrotates ⊢
          have hquiet : Quiet E r r₁ [] := hr₁ ▸ .of_eq rfl rfl rfl rfl
          have hc₁ : r₁.addressBook.getContact a = some c := by rw [hquiet.book, hc]
          have hstart := checkMessageInterval_started (E := E) (G := G) r₁ c hdone fun hstate => by
            refine hrotates (counted (r₁.checkMessageInterval E c).2) rfl hdone ?_ hstate
            rw [queueText_addressBook]
            exact AddressBook.getContact_putContact _ _ _
          have hdue : Reliable E G.draws (r₁.checkMessageInterval E c).1.keyDraws →
              ¬ Due E (r₁.checkMessageInterval E c).2 := by
            intro hreliable
            refine checkMessageInterval_due r₁ c ⟨fun n hlo => ?_, hreliable.encrypts⟩
            exact hreliable.keys n ((hdraws.le.trans hquiet.draws).trans hlo)
          generalize r₁.checkMessageInterval E c = p at hstart hdue ⊢
          have hsame : p.2.initialPfsComplete = c.initialPfsComplete := by
            rcases hstart with ⟨h, -⟩ | ⟨k, h, -⟩
            · rw [h]
            · rw [h]
              rfl
          have hput : GuardedActions E G r₁ _ := Started.actions hstart hc₁
          refine (Relation.ReflTransGen.head (quiet_action hquiet) hput).trans ?_
          have hread : (p.1.putContact a p.2).addressBook.getContact a = some p.2 :=
            AddressBook.getContact_putContact _ _ _
          have htext := queueText_action (G := G) hread (hsame.trans hdone) hdue htexts
          rw [putContact, putContact, AddressBook.putContact_putContact] at htext
          exact .single htext

/-- A new contact is stored, saved and perhaps greeted, or there is only a notice. -/
theorem handleAddContact_cases (r : Repl) (a : Bytes) (pubKey : Option PublicKeyType) :
    Quiet E r (r.handleAddContact E a pubKey) [] ∨
      ∃ pk d, pubKey = some pk ∧ derivePairwiseMailboxes E.sodium E.identity pk = some d ∧
        GuardedActions E G (r.save a (AddressBook.bootstrapContact a pk none d))
          (r.handleAddContact E a pubKey) := by
  unfold handleAddContact
  split
  · exact .inl (.print r _)
  · next pk =>
      split
      · exact .inl (.print r _)
      · next book hbook =>
          obtain ⟨d, hd, rfl⟩ := Option.map_eq_some_iff.mp hbook
          refine .inr ⟨pk, d, rfl, hd, ?_⟩
          refine .head (quiet_action ((Quiet.print _ (.contactAdded a)).before
            (rememberAlias_quiet _ a))) ?_
          dsimp only
          split
          · exact .refl
          · next c hc => exact Started.actions (maybeStartInitialPfs_started _ a c) hc

theorem handleAddContact_actions (r : Repl) (a : Bytes) {pubKey : Option PublicKeyType}
    (hG : ∀ pk, pubKey = some pk → G.adds pk) :
    GuardedActions E G r (r.handleAddContact E a pubKey) := by
  rcases handleAddContact_cases (E := E) (G := G) r a pubKey with hquiet | ⟨pk, d, hpk, hd, hrest⟩
  · exact .single (quiet_action hquiet)
  · have hadd : GuardedActions E G r (r.save a (AddressBook.bootstrapContact a pk none d)) :=
      .tail (.single (.add (hG pk hpk) hd)) .save
    exact hadd.trans hrest

theorem getNextFrameForCBR_action (r : Repl) (hG : G.ticks) :
    Action E G r r.getNextFrameForCBR.2 := by
  unfold getNextFrameForCBR
  split
  · next hout => exact .tick hG rfl rfl rfl (by rw [hout]; rfl)
  · next hout =>
      split
      · exact quiet_action (.refl r)
      · exact quiet_action (.of_eq rfl rfl rfl rfl)

theorem step_actions (r : Repl) (i : Input) :
    GuardedActions E (guardOf E r i) r (r.step E i) := by
  cases i with
  | connect =>
      have hquiet : Quiet E r { r.print .connectedToRelay with
          connected := true, contactAliases := r.addressBook.getAllAliases } [] :=
        .of_eq rfl rfl rfl rfl
      exact .head (quiet_action hquiet) (startPendingInitialPfs_actions _)
  | send a text => exact handleSend_actions r a text
  | add a pubKey =>
      refine handleAddContact_actions r a ?_
      rintro pk rfl
      exact ⟨a, rfl⟩
  | tick => exact .single (getNextFrameForCBR_action r rfl)
  | receive f => exact onFrameReceived_actions r f
  | restart => exact .single (.restart rfl)

/-- **A run is a sequence of actions**, each of them allowed by its input. -/
theorem along_actions {C : Repl → Input → Prop} (hC : ∀ r i, C r i → (guardOf E r i).Le G)
    {r : Repl} {inputs : List Input} (h : Run.Along (step E) C r inputs) :
    GuardedActions E G r (run E r inputs) := by
  refine h.induction (P := GuardedActions E G r) ?_ .refl
  intro r₁ i hi hr₁
  exact hr₁.trans (Relation.ReflTransGen.mono (fun _ _ h => h.mono (hC r₁ i hi)) _ _
    (step_actions r₁ i))

theorem run_actions (r : Repl) (inputs : List Input) : Actions E r (run E r inputs) :=
  along_actions (fun _ _ _ => {})
    (Run.along_of_forall_mem (C := fun _ _ => True) fun _ _ _ => trivial)

theorem actions_induction {P : Repl → Prop} (hstep : ∀ r r', Action E G r r' → P r → P r')
    {r r' : Repl} (h : GuardedActions E G r r') (hr : P r) : P r' := by
  induction h with
  | refl => exact hr
  | tail _ haction ih => exact hstep _ _ haction ih

theorem run_induction {P : Repl → Prop} (hstep : ∀ G r r', Action E G r r' → P r → P r')
    {r : Repl} (hr : P r) (inputs : List Input) : P (run E r inputs) :=
  actions_induction (hstep _) (run_actions r inputs) hr

end Repl

end BlankChat.Cli
