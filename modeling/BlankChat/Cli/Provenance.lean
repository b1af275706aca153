import BlankChat.Cli.Dispatch
import BlankChat.Cli.Recording
import BlankChat.Cli.RotationEffect

/-!
# Why a client sends what it sends

Every frame in the outbox is there for a reason: the user typed its text, it acknowledges
a text that was accepted, it answers a request, or it starts a rotation with a key pair
that was drawn. It is encrypted in the session that the contact had before the input
came. And the texts that the client prints and records are those it accepts.

`Emits` is the notion that all handlers are measured by; `step_emits` and `step_records`
say what a step sends, prints and records.
-/

namespace BlankChat.Cli

open Lib BlankChat.Core Crypto Protocol Client

/-- A contact that the client knows, or one that the input adds. -/
def Addressee (E : Setup) (r : Repl) (inp : Input) (a : Bytes) (c : Contact) : Prop :=
  r.addressBook.getContact a = some c ∨
    ∃ pk d, inp = .add a (some pk) ∧
      derivePairwiseMailboxes E.sodium E.identity pk = some d ∧
      c = AddressBook.bootstrapContact a pk none d

/-- Why an item is sent. -/
inductive Justified (E : Setup) (r : Repl) (inp : Input) : Item → Prop where
  | text {a t : Bytes} {c : Contact} (hsend : inp = .send a t)
      (hc : r.addressBook.getContact a = some c) : Justified E r inp (.to c (.text t))
  | receipt {a t : Bytes} {c : Contact} (haccepted : r.acceptedText E inp = some (a, t))
      (hc : r.addressBook.getContact a = some c) : Justified E r inp (.to c (.receipt t))
  | request {n : ℕ} {k : EphemeralKey} {a : Bytes} {c : Contact}
      (hk : E.tape.keypair n = some k) (hc : Addressee E r inp a c) :
      Justified E r inp (.to c (.request k))
  | ack {n : ℕ} {k : EphemeralKey} {e : PublicKeyType} {a : Bytes} {c c' : Contact}
      (hk : E.tape.keypair n = some k) (hanswers : Repl.answering E r inp = some (c', k, e))
      (hc : r.addressBook.getContact a = some c) : Justified E r inp (.to c (.ack e k))

/-- What is new in the outbox are items of one kind, and what is new on the screen are
texts of one kind. -/
structure Emits (E : Setup) (P : Item → Prop) (N : Bytes → Bytes → Prop) (r r' : Repl) :
    Prop where
  frames : ∀ f ∈ r'.outbox, f ∈ r.outbox ∨ ∃ i : Item, i.InFrame E f ∧ P i
  texts : ∀ a t, Notice.newMessage a t ∈ r'.notices → .newMessage a t ∈ r.notices ∨ N a t

namespace Emits

variable {E : Setup} {P : Item → Prop} {N : Bytes → Bytes → Prop} {r r' r'' : Repl}

theorem of_eq (houtbox : r'.outbox = r.outbox) (hnotices : r'.notices = r.notices) :
    Emits E P N r r' :=
  ⟨fun _ hf => .inl (houtbox ▸ hf), fun _ _ hn => .inl (hnotices ▸ hn)⟩

theorem refl (r : Repl) : Emits E P N r r := of_eq rfl rfl

theorem trans (h : Emits E P N r r') (h' : Emits E P N r' r'') : Emits E P N r r'' where
  frames f hf := by
    rcases h'.frames f hf with hf | hf
    · exact h.frames f hf
    · exact .inr hf
  texts a t hn := by
    rcases h'.texts a t hn with hn | hn
    · exact h.texts a t hn
    · exact .inr hn

theorem print (h : Emits E P N r r') {n : Notice} (hn : ∀ a t, n = .newMessage a t → N a t) :
    Emits E P N r (r'.print n) where
  frames := h.frames
  texts a t hmem := by
    rcases List.mem_append.mp hmem with hmem | hmem
    · exact h.texts a t hmem
    · exact .inr (hn a t (List.mem_singleton.mp hmem).symm)

theorem say (h : Emits E P N r r') (n : Notice) (hn : ∀ a t, n ≠ .newMessage a t) :
    Emits E P N r (r'.print n) :=
  h.print fun a t heq => absurd heq (hn a t)

theorem notice (r : Repl) (n : Notice) (hn : ∀ a t, n ≠ .newMessage a t) :
    Emits E P N r (r.print n) :=
  (refl r).say n hn

theorem putContact (h : Emits E P N r r') (a : Bytes) (c : Contact) :
    Emits E P N r (r'.putContact a c) :=
  ⟨h.frames, h.texts⟩

theorem push (h : Emits E P N r r') {f : Frame} {i : Item} (hf : i.InFrame E f) (hi : P i) :
    Emits E P N r (r'.push f) where
  frames f' hf' := by
    rcases List.mem_append.mp hf' with hf' | hf'
    · exact h.frames f' hf'
    · rw [List.mem_singleton.mp hf']
      exact .inr ⟨i, hf, hi⟩
  texts := h.texts

end Emits

namespace Repl

variable {E : Setup} {P : Item → Prop} {N : Bytes → Bytes → Prop} (r : Repl) (a : Bytes)
  (c : Contact)

/-! ## Handlers -/

theorem initiatePfsRotation_emits
    (hP : ∀ n k, E.tape.keypair n = some k → P (.to c (.request k))) :
    Emits E P N r (r.initiatePfsRotation E c).2.1 := by
  unfold initiatePfsRotation
  split
  · exact .refl r
  · split
    · next r₁ hg =>
        obtain ⟨-, rfl⟩ := Prod.mk.inj hg
        exact .of_eq rfl rfl
    · next k r₁ hg =>
        obtain ⟨hk, rfl⟩ := Prod.mk.inj hg
        dsimp only
        split
        · next r₂ he =>
            obtain ⟨-, rfl⟩ := Prod.mk.inj he
            exact .of_eq rfl rfl
        · next ct r₂ he =>
            have hitem := inFrame_of_encrypt (E := E) c (.request k) he
            obtain ⟨-, rfl⟩ := Prod.mk.inj he
            refine Emits.push ?_ hitem (hP _ k hk)
            exact .of_eq rfl rfl

theorem maybeStartInitialPfs_emits
    (hP : ∀ n k, E.tape.keypair n = some k → P (.to c (.request k))) :
    Emits E P N r (r.maybeStartInitialPfs E a c).1 := by
  unfold maybeStartInitialPfs
  split
  · exact .refl r
  · have h := initiatePfsRotation_emits (N := N) r c hP
    split
    · next heq =>
        rw [heq] at h
        exact h.say _ fun _ _ => nofun
    · next heq =>
        rw [heq] at h
        exact h

theorem checkMessageInterval_emits
    (hP : ∀ n k, E.tape.keypair n = some k → P (.to c (.request k))) :
    Emits E P N r (r.checkMessageInterval E c).1 := by
  unfold checkMessageInterval
  split
  · exact (Emits.notice r .thresholdReached fun _ _ => nofun).trans
      (initiatePfsRotation_emits _ c hP)
  · exact .refl r

theorem queueText_emits (text : Bytes) (hP : P (.to c (.text text))) :
    Emits E P N r (r.queueText E a c text) := by
  unfold queueText
  split
  · next r₁ he =>
      obtain ⟨-, rfl⟩ := Prod.mk.inj he
      refine Emits.say ?_ _ fun _ _ => nofun
      exact .of_eq rfl rfl
  · next ct r₁ he =>
      have hitem := inFrame_of_encrypt (E := E) c (.text text) he
      obtain ⟨-, rfl⟩ := Prod.mk.inj he
      refine Emits.say (.push ?_ hitem hP) _ fun _ _ => nofun
      exact .of_eq rfl rfl

theorem handleTextMessage_emits (plaintext msgData : Bytes) (hN : N a msgData)
    (hP : P (.to c (.receipt msgData))) :
    Emits E P N r (r.handleTextMessage E a c plaintext msgData) := by
  unfold handleTextMessage
  dsimp only
  have hshown : Emits E P N r (r.print (.newMessage a msgData)) := by
    refine (Emits.refl r).print ?_
    intro a' t heq
    cases heq
    exact hN
  split
  · next r₁ he =>
      obtain ⟨-, rfl⟩ := Prod.mk.inj he
      exact hshown.trans (.of_eq rfl rfl)
  · next ct r₁ he =>
      have hitem := inFrame_of_encrypt (E := E) c (.receipt msgData) he
      obtain ⟨-, rfl⟩ := Prod.mk.inj he
      refine Emits.say (.push (hshown.trans ?_) hitem hP) _ fun _ _ => nofun
      exact .of_eq rfl rfl

theorem answerRotation_emits (e : PublicKeyType) (k : EphemeralKey)
    (hP : ∀ ct, (r.encrypt E c.txKey ((Outgoing.ack e k).plaintext E)).1 = some ct →
      P (.to c (.ack e k))) :
    Emits E P N r (r.answerRotation E a c e k).1 := by
  rw [answerRotation_eq]
  split
  · next r₁ he =>
      obtain ⟨-, rfl⟩ := Prod.mk.inj he
      exact .of_eq rfl rfl
  · next ct r₁ he =>
      have hitem := inFrame_of_encrypt (E := E) c (.ack e k) he
      have hack := hP ct (congrArg Prod.fst he)
      obtain ⟨-, rfl⟩ := Prod.mk.inj he
      have hpush : Emits E P N r (r.encrypt E c.txKey (buildPfsRotateAck k.publicKey
          (sign E (e.toList ++ k.publicKey.toList)))).2 := .of_eq rfl rfl
      split
      · exact hpush.push hitem hack
      · have hsaid := (hpush.push hitem hack).say (.rotationAnswered a) fun _ _ => nofun
        exact hsaid.trans (.of_eq rfl rfl)

theorem handlePfsRotateRequest_emits (plaintext : Bytes)
    (hrequest : ∀ n k, E.tape.keypair n = some k → P (.to c (.request k)))
    (hack : ∀ n k e, E.tape.keypair n = some k → r.answer c E plaintext = some (k, e) →
      P (.to c (.ack e k))) :
    Emits E P N r (r.handlePfsRotateRequest E a c plaintext).1 := by
  unfold handlePfsRotateRequest
  split
  · exact .refl r
  · next req hreq =>
      split
      · exact .refl r
      · next hsig =>
          split
          · exact (Emits.notice r (.ignoringSimultaneousRequest a) fun _ _ => nofun).trans
              (maybeStartInitialPfs_emits _ a c hrequest)
          · next hrole =>
              split
              · next r₁ hg =>
                  obtain ⟨-, rfl⟩ := Prod.mk.inj hg
                  exact .of_eq rfl rfl
              · next k r₁ hg =>
                  have hk : E.tape.keypair r.keyDraws = some k := congrArg Prod.fst hg
                  have hdrawn : Emits E P N r r₁ := by
                    obtain ⟨-, rfl⟩ := Prod.mk.inj hg
                    exact .of_eq rfl rfl
                  refine hdrawn.trans (answerRotation_emits r₁ a c _ k ?_)
                  intro ct hct
                  refine hack _ k _ hk ?_
                  unfold answer
                  rw [hreq]
                  dsimp only
                  rw [if_neg hsig, if_neg hrole, hg]
                  dsimp only
                  rw [show (r₁.encrypt E c.txKey (buildPfsRotateAck _ _)).1 = some ct from hct]
                  rfl

theorem handlePfsRotateAck_emits (plaintext : Bytes) :
    Emits E P N r (r.handlePfsRotateAck E a c plaintext).1 := by
  unfold handlePfsRotateAck
  split
  · split
    · exact .refl r
    · dsimp only
      split
      · exact .refl r
      · split
        · exact .refl r
        · have hsaid : Emits E P N r (r.print (.rotationCompleted a)) :=
            .notice r _ fun _ _ => nofun
          exact hsaid.trans (.of_eq rfl rfl)
  · exact .notice r _ fun _ _ => nofun

theorem dropOldMailbox_emits (usedOld : Bool) :
    Emits E P N r (r.dropOldMailbox a c usedOld).1 := by
  unfold dropOldMailbox
  split
  · have hsaid : Emits E P N r (r.print (.transitionConfirmed a)) :=
      .notice r _ fun _ _ => nofun
    exact hsaid.trans (.of_eq rfl rfl)
  · exact .refl r

/-! ## Inputs -/

theorem to_eq_of_session {c c' : Contact} (h : session c' = session c) (content : Outgoing) :
    Item.to c' content = Item.to c content := by
  have hid : c'.txMailboxId = c.txMailboxId := congrArg DerivedMailboxes.txId h
  have hkey : c'.txKey = c.txKey := congrArg DerivedMailboxes.txKey h
  unfold Item.to
  rw [hid, hkey]

theorem Started.session {G : Guard} {r : Repl} {c : Contact} {p : Repl × Contact}
    (h : Started E G r c p) : session p.2 = session c ∧ p.1.addressBook = r.addressBook := by
  rcases h with ⟨heq, hquiet⟩ | ⟨k, heq, hquiet, -⟩
  · rw [heq]
    exact ⟨rfl, hquiet.book⟩
  · rw [heq]
    exact ⟨rfl, hquiet.book⟩

theorem startPendingInitialPfs_emits (r₀ : Repl)
    (hP : ∀ a c n k, r₀.addressBook.getContact a = some c → E.tape.keypair n = some k →
      P (.to c (.request k)))
    (hr : ∀ a c, r.addressBook.getContact a = some c →
      ∃ c₀, r₀.addressBook.getContact a = some c₀ ∧ session c = session c₀) :
    Emits E P N r (r.startPendingInitialPfs E) := by
  unfold startPendingInitialPfs
  generalize r.contactAliases = l
  induction l generalizing r with
  | nil => exact .refl r
  | cons a l ih =>
      rw [List.foldl_cons]
      split
      · next c hc =>
          obtain ⟨c₀, hc₀, hsession⟩ := hr a c hc
          obtain ⟨hsame, hbook⟩ :=
            Started.session (maybeStartInitialPfs_started (E := E) (G := {}) r a c)
          have hstart : Emits E P N r (r.maybeStartInitialPfs E a c).1 := by
            refine maybeStartInitialPfs_emits r a c ?_
            intro n k hk
            rw [to_eq_of_session hsession]
            exact hP a c₀ n k hc₀ hk
          refine (hstart.putContact a (r.maybeStartInitialPfs E a c).2).trans (ih _ ?_)
          intro a' c' hc'
          have hput : ((r.maybeStartInitialPfs E a c).1.addressBook.putContact a
              (r.maybeStartInitialPfs E a c).2).getContact a' = some c' := hc'
          rcases AddressBook.getContact_putContact_cases hput with ⟨rfl, rfl⟩ | ⟨-, hold⟩
          · exact ⟨c₀, hc₀, hsame.trans hsession⟩
          · rw [hbook] at hold
            exact hr a' c' hold
      · exact ih r hr

theorem handleSend_emits (text : Bytes) :
    Emits E (Justified E r (.send a text)) N r (r.handleSend E a text) := by
  unfold handleSend
  split
  · exact .notice r _ fun _ _ => nofun
  · next c hc =>
      have hrequest : ∀ n k, E.tape.keypair n = some k →
          Justified E r (.send a text) (.to c (.request k)) := fun n k hk =>
        .request hk (.inl hc)
      split
      · have hstart := maybeStartInitialPfs_emits (N := N) r a c hrequest
        exact (hstart.putContact a _).say _ fun _ _ => nofun
      · next hcomplete =>
          dsimp only
          generalize hr₁ : (r.now E).2.appendMessage _ = r₁
          have hrecorded : Emits E (Justified E r (.send a text)) N r r₁ := by
            rw [← hr₁]
            exact .of_eq rfl rfl
          have hstarted := checkMessageInterval_started (E := E) (G := {}) r₁ c
            (by simpa using hcomplete) fun _ => trivial
          obtain ⟨hsession, -⟩ := Started.session hstarted
          have hchecked := hrecorded.trans (checkMessageInterval_emits r₁ c hrequest)
          refine (hchecked.putContact a _).trans (queueText_emits _ a _ text ?_)
          rw [show Item.to _ (.text text) = Item.to c (.text text) from
            to_eq_of_session (hsession ▸ rfl) _]
          exact .text rfl hc

theorem rememberAlias_emits : Emits E P N r (r.rememberAlias a) := by
  unfold rememberAlias
  split
  · exact .refl r
  · exact .of_eq rfl rfl

theorem handleAddContact_emits (pubKey : Option PublicKeyType) :
    Emits E (Justified E r (.add a pubKey)) N r (r.handleAddContact E a pubKey) := by
  unfold handleAddContact
  split
  · exact .notice r _ fun _ _ => nofun
  · next pk =>
      split
      · exact .notice r _ fun _ _ => nofun
      · next book hbook =>
          obtain ⟨d, hd, rfl⟩ := Option.map_eq_some_iff.mp hbook
          dsimp only
          generalize hr₁ : rememberAlias _ a = r₁
          have hadded : Emits E (Justified E r (.add a (some pk))) N r r₁ ∧
              r₁.addressBook = (r.addressBook.putContact a
                (AddressBook.bootstrapContact a pk none d)).saveToDisk := by
            rw [← hr₁]
            refine ⟨Emits.trans (Emits.say ?_ (.contactAdded a) fun _ _ => nofun)
              (rememberAlias_emits _ a),
              (rememberAlias_quiet (E := E) _ a).book⟩
            exact .of_eq rfl rfl
          obtain ⟨hemits, hread⟩ := hadded
          split
          · exact hemits
          · next c hc =>
              rw [hread, AddressBook.getContact_saveToDisk, AddressBook.getContact_putContact]
                at hc
              obtain rfl := Option.some.inj hc
              refine (hemits.trans (maybeStartInitialPfs_emits r₁ a _ ?_)).putContact a _
              intro n k hk
              exact .request hk (.inr ⟨pk, d, rfl, hd, rfl⟩)

/-- An accepted frame: what goes out belongs to the contact it is routed to. -/
theorem accept_emits {f : Frame} {plaintext : Bytes} {r : Repl} {a : Bytes} {c : Contact}
    (hrouted : Routed r f a c) (hpush : f.action = .push)
    (hdec : decryptAndUnpad E.sodium (selectedKey c f) f.payload = some plaintext) :
    Emits E (Justified E r (.receive f)) (fun a t => r.acceptedText E (.receive f) = some (a, t)) r
      (r.accept E a c (usedOldKey c f.mailboxId) plaintext) := by
  have hopened := opened_receive hrouted hpush hdec
  have hdrop := dropOldMailbox_emits (E := E) (P := Justified E r (.receive f))
    (N := fun a t => r.acceptedText E (.receive f) = some (a, t)) r a c
    (usedOldKey c f.mailboxId)
  have hsession : ∀ content, Item.to (r.dropOldMailbox a c (usedOldKey c f.mailboxId)).2 content =
      Item.to c content := by
    intro content
    rcases dropOldMailbox_cases r a c (usedOldKey c f.mailboxId) with hd | ⟨-, -, hd⟩
    · rw [hd]
    · rw [hd]
      rfl
  unfold accept
  generalize r.dropOldMailbox a c (usedOldKey c f.mailboxId) = p at hopened hdrop hsession ⊢
  obtain ⟨r₁, c₁⟩ := p
  dsimp only at hdrop hsession ⊢
  refine (hdrop.trans ?_).putContact a _
  have hrequest : ∀ n k, E.tape.keypair n = some k →
      Justified E r (.receive f) (.to c₁ (.request k)) := by
    intro n k hk
    rw [hsession]
    exact .request hk (.inl hrouted.contact)
  unfold dispatch
  split
  · split
    · exact .notice r₁ _ fun _ _ => nofun
    · next hcomplete =>
        split
        · exact .refl r₁
        · next msgData hparse =>
            have haccepted : r.acceptedText E (.receive f) = some (a, msgData) := by
              unfold acceptedText
              dsimp only
              rw [hopened, hrouted.found]
              dsimp only [Option.bind_some]
              rw [if_pos (by simpa using hcomplete), hparse]
              rfl
            refine handleTextMessage_emits r₁ a c₁ plaintext msgData haccepted ?_
            rw [hsession]
            exact .receipt haccepted hrouted.contact
  · refine handlePfsRotateRequest_emits r₁ a c₁ plaintext hrequest ?_
    intro n k e hk hanswer
    have hanswering : answering E r (.receive f) = some (c₁, k, e) := by
      unfold answering
      rw [hopened]
      dsimp only [Option.bind_some]
      rw [hanswer]
      rfl
    rw [hsession]
    exact .ack hk hanswering hrouted.contact
  · exact handlePfsRotateAck_emits r₁ a c₁ plaintext
  · exact .refl r₁

/-- What a step does to the histories, and why. -/
inductive Records (E : Setup) (r : Repl) (inp : Input) : ConversationCache → Prop where
  | same : Records E r inp r.cache
  | sent {a t : Bytes} {timestamp : UInt64} (hsend : inp = .send a t) :
      Records E r inp (r.cache.appendMessage (sentEntry E a t timestamp))
  | received {a t : Bytes} {timestamp : UInt64} (haccepted : r.acceptedText E inp = some (a, t)) :
      Records E r inp (r.cache.appendMessage (receivedEntry E a t timestamp))
  | acked {f : Frame} {a id : Bytes} {c : Contact} (hreceive : inp = .receive f)
      (hrouted : Routed r f a c)
      (hdec : decryptAndUnpad E.sodium (selectedKey c f) f.payload = some id) :
      Records E r inp (r.cache.updateMessageStatus a id .delivered)

/-- A frame that is not opened sends nothing, and acknowledges a text at most. -/
theorem onFrameReceived_closed {f : Frame} (hclosed : opened E r (.receive f) = none) :
    Emits E P N r (r.onFrameReceived E f) ∧
      Records E r (.receive f) (r.onFrameReceived E f).cache := by
  unfold onFrameReceived
  split
  · exact ⟨.refl r, .same⟩
  · dsimp only
    split
    · exact ⟨.notice r _ fun _ _ => nofun, .same⟩
    · next hempty =>
        split
        · exact ⟨.refl r, .same⟩
        · next c hc =>
            split
            · next hpush =>
                have hnone : decryptAndUnpad E.sodium
                    (keyToUse c (usedOldKey c f.mailboxId)) f.payload = none := by
                  by_contra hne
                  obtain ⟨plaintext, hdec⟩ := Option.ne_none_iff_exists'.mp hne
                  rw [opened_receive ⟨rfl, hempty, hc⟩ hpush hdec] at hclosed
                  cases hclosed
                unfold processPushFrame
                rw [hnone]
                exact ⟨(Emits.notice r .malformedPush fun _ _ => nofun).putContact _ c, .same⟩
            · unfold processAckFrame
              split
              · exact ⟨.notice r _ fun _ _ => nofun, .same⟩
              · next id hdec =>
                  refine ⟨Emits.say ?_ _ fun _ _ => nofun, .acked rfl ⟨rfl, hempty, hc⟩ hdec⟩
                  exact .of_eq rfl rfl
            · exact ⟨.refl r, .same⟩

theorem onFrameReceived_emits (f : Frame) :
    Emits E (Justified E r (.receive f)) (fun a t => r.acceptedText E (.receive f) = some (a, t)) r
      (r.onFrameReceived E f) := by
  cases hopened : opened E r (.receive f) with
  | none => exact (onFrameReceived_closed r hopened).1
  | some q =>
      obtain ⟨p, plaintext⟩ := q
      obtain ⟨a, c, hrouted, hpush, hdec, -⟩ := opened_routed hopened
      rw [onFrameReceived_push hrouted hpush hdec]
      exact accept_emits hrouted hpush hdec

/-- **Everything a client sends has its reason in the input**, and a text is printed only
when it is accepted. -/
theorem step_emits (inp : Input) :
    Emits E (Justified E r inp) (fun a t => r.acceptedText E inp = some (a, t)) r
      (r.step E inp) := by
  cases inp with
  | connect =>
      have hgreeted : Emits E (Justified E r .connect)
          (fun a t => r.acceptedText E .connect = some (a, t)) r
          { r.print .connectedToRelay with
            connected := true, contactAliases := r.addressBook.getAllAliases } :=
        (Emits.notice r .connectedToRelay fun _ _ => nofun).trans (.of_eq rfl rfl)
      refine hgreeted.trans (startPendingInitialPfs_emits _ r ?_ ?_)
      · intro a c n k hc hk
        exact .request hk (.inl hc)
      · intro a c hc
        exact ⟨c, hc, rfl⟩
  | send a text => exact handleSend_emits r a text
  | add a pubKey => exact handleAddContact_emits r a pubKey
  | tick =>
      show Emits E _ _ r r.getNextFrameForCBR.2
      unfold getNextFrameForCBR
      split
      · next f outbox hout =>
          refine ⟨fun g hg => .inl ?_, fun a t hn => .inl hn⟩
          rw [hout]
          exact List.mem_cons_of_mem f hg
      · split
        · exact .refl r
        · exact .of_eq rfl rfl
  | receive f => exact onFrameReceived_emits r f
  | restart => exact ⟨List.forall_mem_nil _, fun a t => nofun⟩

theorem acceptedText_printed {r : Repl} {inp : Input} {a t : Bytes}
    (h : r.acceptedText E inp = some (a, t)) : .newMessage a t ∈ (r.step E inp).notices := by
  cases inp with
  | receive f =>
      obtain ⟨⟨p, plaintext⟩, hopened, htext⟩ := Option.bind_eq_some_iff.mp h
      obtain ⟨a', c, hrouted, hpush, hdec, rfl⟩ := opened_routed hopened
      dsimp only at htext
      split at htext
      · next hcomplete =>
          obtain ⟨t', hparse, heq⟩ := Option.map_eq_some_iff.mp htext
          obtain ⟨hfound, rfl⟩ := Prod.mk.inj heq
          obtain rfl : a' = a := hrouted.found.symm.trans hfound
          show _ ∈ (r.onFrameReceived E f).notices
          rw [onFrameReceived_push hrouted hpush hdec]
          unfold accept
          dsimp only
          rw [dispatch_of_text hparse, if_pos hcomplete]
          show _ ∈ (handleTextMessage E _ _ _ plaintext t').notices
          unfold handleTextMessage
          dsimp only
          split
          · next he =>
              obtain ⟨-, rfl⟩ := Prod.mk.inj he
              exact List.mem_append_right _ (List.mem_singleton.mpr rfl)
          · next he =>
              obtain ⟨-, rfl⟩ := Prod.mk.inj he
              exact List.mem_append_left _ (List.mem_append_right _ (List.mem_singleton.mpr rfl))
      · cases htext
  | _ => cases h

theorem onFrameReceived_records (f : Frame) :
    Records E r (.receive f) (r.onFrameReceived E f).cache := by
  rcases onFrameReceived_text (E := E) r f with ⟨hnone, -⟩ | ⟨a, c, t, timestamp, haccepted, hcache, -⟩
  · cases hopened : opened E r (.receive f) with
    | some q =>
        obtain ⟨p, plaintext⟩ := q
        obtain ⟨a, c, hrouted, hpush, hdec, hp⟩ := opened_routed hopened
        have hcache : (r.onFrameReceived E f).cache = r.cache := by
          rw [onFrameReceived_push hrouted hpush hdec]
          unfold accept
          dsimp only
          rcases dispatch_text (E := E) (r.dropOldMailbox a c (usedOldKey c f.mailboxId)).1 a
            (r.dropOldMailbox a c (usedOldKey c f.mailboxId)).2 plaintext with
            ⟨-, hsame⟩ | ⟨t, hcomplete, hparse, -⟩
          · exact hsame.trans (dropOldMailbox_cache r a c _)
          · rw [← hp] at hcomplete
            unfold acceptedText at hnone
            dsimp only at hnone
            rw [hopened] at hnone
            dsimp only [Option.bind_some] at hnone
            rw [if_pos hcomplete, hparse] at hnone
            cases hnone
        rw [hcache]
        exact .same
    | none =>
        exact (onFrameReceived_closed (P := fun _ => True) (N := fun _ _ => True) r hopened).2
  · rw [hcache]
    exact .received haccepted

/-- **Everything a client records has its reason in the input.** -/
theorem step_records (inp : Input) : Records E r inp (r.step E inp).cache := by
  have hsame : ∀ cache, cache = r.cache → Records E r inp cache := by
    rintro cache rfl
    exact .same
  cases inp with
  | connect => exact hsame _ (startPendingInitialPfs_cache _)
  | add a pubKey => exact hsame _ (handleAddContact_cache r a pubKey)
  | tick => exact hsame _ (getNextFrameForCBR_cache r)
  | restart => exact .same
  | receive f => exact onFrameReceived_records r f
  | send a t =>
      show Records E r (.send a t) (r.handleSend E a t).cache
      cases hc : r.addressBook.getContact a with
      | none =>
          refine hsame _ ?_
          unfold handleSend
          rw [hc]
          rfl
      | some c =>
          cases hcomplete : c.initialPfsComplete with
          | false =>
              refine hsame _ ?_
              unfold handleSend
              rw [hc]
              dsimp only
              rw [hcomplete]
              exact maybeStartInitialPfs_cache r a c
          | true =>
              obtain ⟨timestamp, hcache⟩ := handleSend_text (E := E) r a hc hcomplete t
              rw [hcache]
              exact .sent rfl

end Repl

end BlankChat.Cli
