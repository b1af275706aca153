import BlankChat.Cli.Repl

/-!
# What a client does to a contact

Every handler works quietly for a while (it prints, draws, encrypts, queues items)
and may then save the address book; the contact it was given comes back unchanged or
moved by one `ContactStep`. `Handled` says this once for all handlers, and
`onFrameReceived_cases` for the frames that come in.
-/

namespace BlankChat.Cli

open Lib BlankChat.Core Crypto Protocol Client

/-! ## Sessions and states of a contact -/

/-- The session of a contact: ids and keys of both directions. -/
def session (c : Contact) : DerivedMailboxes where
  txId := c.txMailboxId
  txKey := c.txKey
  rxId := c.rxMailboxId
  rxKey := c.rxKey

/-- A rotation request is out. -/
def initiated (c : Contact) (k : EphemeralKey) : Contact :=
  { c with pfsState := .rotationRequested, pendingEphemeralKey := some k, messageCounter := 0 }

/-- The current mailbox is kept as the old one, except in the initial handshake. -/
def keepOld (c : Contact) : Contact :=
  if c.initialPfsComplete then
    { c with oldRxMailboxId := some c.rxMailboxId, oldRxKey := some c.rxKey }
  else c

/-- A rotation request is answered. -/
def answered (c : Contact) (d : DerivedMailboxes) : Contact :=
  { Repl.withSession (keepOld c) d with
    messageCounter := 0
    initialPfsComplete := true
    pfsState := if c.initialPfsComplete then c.pfsState else .idle }

/-- The acknowledgement of our request is in. -/
def completed (c : Contact) (d : DerivedMailboxes) : Contact :=
  { Repl.withSession c d with
    pfsState := .idle
    pendingEphemeralKey := none
    messageCounter := 0
    initialPfsComplete := true }

/-- The old mailbox is given up. -/
def droppedOld (c : Contact) : Contact :=
  { c with oldRxMailboxId := none, oldRxKey := none }

/-- A client answers a request unless it is the initiator of the initial handshake. -/
def Answers (E : Setup) (c : Contact) : Prop :=
  c.initialPfsComplete = true ∨ Repl.isInitialPfsInitiator E c = false

/-- A client starts a rotation after the initial handshake, or as its initiator. -/
def Initiates (E : Setup) (c : Contact) : Prop :=
  c.initialPfsComplete = true ∨ Repl.isInitialPfsInitiator E c = true

/-! ## What is queued -/

/-- What a client sends to a contact. -/
inductive Outgoing : Type where
  | text (content : Bytes)
  | receipt (content : Bytes)
  | request (k : EphemeralKey)
  | ack (e : PublicKeyType) (k : EphemeralKey)

namespace Outgoing

def plaintext (E : Setup) : Outgoing → Bytes
  | .text content => buildTextMessage content
  | .receipt content => hashPayload E.sodium content
  | .request k => buildPfsRotateRequest k.publicKey (Repl.sign E k.publicKey.toList)
  | .ack e k =>
      buildPfsRotateAck k.publicKey (Repl.sign E (e.toList ++ k.publicKey.toList))

def action : Outgoing → ActionType
  | .receipt _ => .ack
  | _ => .push

end Outgoing

/-- What is sent, to which mailbox and under which key. -/
structure Item : Type where
  mailboxId : MailboxID
  key : SymmetricKey
  content : Outgoing

/-- The item for a contact in its current session. -/
def Item.to (c : Contact) (content : Outgoing) : Item where
  mailboxId := c.txMailboxId
  key := c.txKey
  content := content

/-- The frame is the encrypted item. -/
def Item.InFrame (E : Setup) (f : Frame) (i : Item) : Prop :=
  ∃ nonce ciphertext,
    encryptWithPadding E.sodium i.key nonce (i.content.plaintext E) = some ciphertext ∧
      f = ⟨i.content.action, i.mailboxId, ciphertext⟩

def Item.IsReceipt (i : Item) : Prop := ∃ content, i.content = .receipt content

/-- The items were queued, in this order. -/
def Queued (E : Setup) (r r' : Repl) (items : List Item) : Prop :=
  ∃ fs, r'.outbox = r.outbox ++ fs ∧ List.Forall₂ (Item.InFrame E) fs items

namespace Queued

variable {E : Setup} {r r' r'' : Repl} {items items' : List Item}

theorem of_eq (h : r'.outbox = r.outbox) : Queued E r r' [] :=
  ⟨[], by rw [h, List.append_nil], .nil⟩

theorem push {f : Frame} {i : Item} (h : i.InFrame E f) (hout : r'.outbox = r.outbox ++ [f]) :
    Queued E r r' [i] :=
  ⟨[f], hout, .cons h .nil⟩

theorem trans (h : Queued E r r' items) (h' : Queued E r' r'' items') :
    Queued E r r'' (items ++ items') := by
  obtain ⟨fs, hfs, hitems⟩ := h
  obtain ⟨fs', hfs', hitems'⟩ := h'
  refine ⟨fs ++ fs', ?_, List.rel_append hitems hitems'⟩
  rw [hfs', hfs, List.append_assoc]

end Queued

/-! ## The moves of a contact -/

/-- What an input allows: the texts of a send, the contacts for which a rotation is
started, the requests that are answered (with the key pair of the answer and the key of
the request), the acknowledgements that complete one, new contacts, a tick, the end of
the process. `draws` is the number of key pairs drawn before. -/
structure Guard : Type where
  draws : ℕ := 0
  texts : Bytes → Prop := fun _ => True
  rotates : Contact → Prop := fun _ => True
  answers : Contact → EphemeralKey → PublicKeyType → Prop := fun _ _ _ => True
  completes : Contact → PublicKeyType → Prop := fun _ _ => True
  adds : PublicKeyType → Prop := fun _ => True
  ticks : Prop := True
  restarts : Prop := True

/-- `G'` allows all that `G` allows. -/
structure Guard.Le (G G' : Guard) : Prop where
  draws : G'.draws ≤ G.draws := by exact Nat.zero_le _
  texts : ∀ t, G.texts t → G'.texts t := by exact fun _ _ => trivial
  rotates : ∀ c, G.rotates c → G'.rotates c := by exact fun _ _ => trivial
  answers : ∀ c k e, G.answers c k e → G'.answers c k e := by exact fun _ _ _ _ => trivial
  completes : ∀ c e, G.completes c e → G'.completes c e := by exact fun _ _ _ => trivial
  adds : ∀ pk, G.adds pk → G'.adds pk := by exact fun _ _ => trivial
  ticks : G.ticks → G'.ticks := by exact fun _ => trivial
  restarts : G.restarts → G'.restarts := by exact fun _ => trivial

/-- The circumstances in which a handler moves a contact: a key that is drawn on the way
has a number between `lo` and `hi`, `log` is what was encrypted on the way and `items` is
what was queued. -/
structure Occasion : Type where
  lo : ℕ
  hi : ℕ
  log : List (SymmetricKey × Bytes)
  items : List Item
  guard : Guard

/-- The circumstances of the work between two states. -/
def Occasion.between (G : Guard) (r r' : Repl) (items : List Item) : Occasion where
  lo := r.keyDraws
  hi := r'.keyDraws
  log := r'.encryptions.drop r.encryptions.length
  items := items
  guard := G

/-- How a handler can move a contact. -/
inductive ContactStep (E : Setup) (o : Occasion) (c : Contact) : Contact → Prop where
  | initiated {n : ℕ} {k : EphemeralKey} (hidle : c.pfsState = .idle) (hlo : o.lo ≤ n)
      (hhi : n < o.hi) (hk : E.tape.keypair n = some k) (hrole : Initiates E c)
      (hlog : (c.txKey, (Outgoing.request k).plaintext E) ∈ o.log)
      (hitems : o.items = [.to c (.request k)])
      (hrotates : c.initialPfsComplete = true → o.guard.rotates c) :
      ContactStep E o c (initiated c k)
  | answered {n : ℕ} {k : EphemeralKey} {e : PublicKeyType} {sig : Signature}
      {secret : ByteVec 32} (hrole : Answers E c)
      (hsig : E.sodium.cryptoSignVerifyDetached sig e.toList c.publicKey = true)
      (hlo : o.lo ≤ n) (hhi : n < o.hi) (hk : E.tape.keypair n = some k)
      (hsecret : E.sodium.cryptoScalarmult k.secretKey e = some secret)
      (hanswers : o.guard.answers c k e) (hitems : o.items = [.to c (.ack e k)]) :
      ContactStep E o c (answered c (deriveMailboxes E.sodium secret k.publicKey e))
  | keptOld {n : ℕ} {k : EphemeralKey} {e : PublicKeyType}
      (hsecret : E.sodium.cryptoScalarmult k.secretKey e = none)
      (hanswers : o.guard.answers c k e) (hk : E.tape.keypair n = some k)
      (hitems : o.items = [.to c (.ack e k)]) :
      ContactStep E o c (keepOld c)
  | completed {k : EphemeralKey} {e : PublicKeyType} {sig : Signature} {secret : ByteVec 32}
      (hstate : c.pfsState = .rotationRequested) (hpending : c.pendingEphemeralKey = some k)
      (hsig : E.sodium.cryptoSignVerifyDetached sig (k.publicKey.toList ++ e.toList)
        c.publicKey = true)
      (hsecret : E.sodium.cryptoScalarmult k.secretKey e = some secret)
      (hcompletes : o.guard.completes c e) (hitems : o.items = []) :
      ContactStep E o c (completed c (deriveMailboxes E.sodium secret k.publicKey e))

theorem ContactStep.mono {E : Setup} {o : Occasion} {G : Guard} {c c' : Contact}
    (h : ContactStep E o c c') (hG : o.guard.Le G) :
    ContactStep E { o with guard := G } c c' := by
  cases h with
  | initiated hidle hlo hhi hk hrole hlog hitems hrotates =>
      exact .initiated hidle hlo hhi hk hrole hlog hitems fun h => hG.rotates _ (hrotates h)
  | answered hrole hsig hlo hhi hk hsecret hanswers hitems =>
      exact .answered hrole hsig hlo hhi hk hsecret (hG.answers _ _ _ hanswers) hitems
  | keptOld hsecret hanswers hk hitems =>
      exact .keptOld hsecret (hG.answers _ _ _ hanswers) hk hitems
  | completed hstate hpending hsig hsecret hcompletes hitems =>
      exact .completed hstate hpending hsig hsecret (hG.completes _ _ hcompletes) hitems

/-! ## Quiet work -/

def IsText (plaintext : Bytes) : Prop := extractOpcode plaintext = some .textMessage

/-- The address book is untouched, no text is encrypted, and the items are queued. -/
structure Quiet (E : Setup) (r r' : Repl) (items : List Item) : Prop where
  book : r'.addressBook = r.addressBook
  draws : r.keyDraws ≤ r'.keyDraws
  log : ∃ l, r'.encryptions = r.encryptions ++ l ∧ ∀ p ∈ l, ¬ IsText p.2
  queued : Queued E r r' items

namespace Quiet

variable {E : Setup} {r r' r'' : Repl} {items items' : List Item}

theorem of_eq (book : r'.addressBook = r.addressBook) (draws : r'.keyDraws = r.keyDraws)
    (log : r'.encryptions = r.encryptions) (outbox : r'.outbox = r.outbox) :
    Quiet E r r' [] :=
  ⟨book, draws.ge, ⟨[], by rw [log, List.append_nil], fun _ hp => by cases hp⟩, .of_eq outbox⟩

theorem refl (r : Repl) : Quiet E r r [] := of_eq rfl rfl rfl rfl

theorem trans (h : Quiet E r r' items) (h' : Quiet E r' r'' items') :
    Quiet E r r'' (items ++ items') := by
  obtain ⟨l, hl, hlt⟩ := h.log
  obtain ⟨l', hl', hlt'⟩ := h'.log
  refine ⟨h'.book.trans h.book, h.draws.trans h'.draws, ⟨l ++ l', ?_, ?_⟩,
    h.queued.trans h'.queued⟩
  · rw [hl', hl, List.append_assoc]
  · intro p hp
    rcases List.mem_append.mp hp with hp | hp
    · exact hlt p hp
    · exact hlt' p hp

theorem before (h : Quiet E r r' []) (h' : Quiet E r' r'' items) : Quiet E r r'' items :=
  h.trans h'

theorem after (h : Quiet E r r' items) (h' : Quiet E r' r'' []) : Quiet E r r'' items := by
  have htrans := h.trans h'
  rwa [List.append_nil] at htrans

theorem print (r : Repl) (n : Notice) : Quiet E r (r.print n) [] := of_eq rfl rfl rfl rfl

theorem push (r : Repl) {f : Frame} {i : Item} (h : i.InFrame E f) :
    Quiet E r (r.push f) [i] :=
  ⟨rfl, le_rfl, ⟨[], (List.append_nil _).symm, fun _ hp => by cases hp⟩, .push h rfl⟩

theorem generate (r : Repl) : Quiet E r (r.generate E).2 [] :=
  ⟨rfl, Nat.le_succ _, ⟨[], (List.append_nil _).symm, fun _ hp => by cases hp⟩, .of_eq rfl⟩

theorem encrypt (r : Repl) (key : SymmetricKey) {plaintext : Bytes}
    (h : ¬ IsText plaintext) : Quiet E r (r.encrypt E key plaintext).2 [] :=
  ⟨rfl, le_rfl, ⟨[(key, plaintext)], rfl, fun p hp => by
    rw [List.mem_singleton.mp hp]
    exact h⟩, .of_eq rfl⟩

end Quiet

theorem not_isText_buildPfsRotate {opcode : PayloadOpcode} (h : opcode ≠ .textMessage)
    (e : PublicKeyType) (sig : Signature) : ¬ IsText (buildPfsRotate opcode e sig) := by
  unfold IsText
  rw [extractOpcode_buildPfsRotate]
  exact fun heq => h (Option.some.inj heq)

/-- A message id is made of hex digits, none of which is an opcode. -/
theorem extractOpcode_hashPayload (S : Sodium) (payload : Bytes) :
    extractOpcode (hashPayload S payload) = none := by
  unfold hashPayload
  obtain ⟨l, hl⟩ := S.cryptoGenerichash 16 payload
  cases l with
  | nil => cases hl
  | cons b l =>
      obtain ⟨high, -, hhigh, -⟩ := hexCharToInt_hexIntToChar b
      have hne : ∀ op : PayloadOpcode, hexIntToChar (b >>> 4) ≠ op.toByte := by
        intro op hop
        rw [hop] at hhigh
        cases op <;> cases hhigh
      show extractOpcode (encodeHex (b :: l)) = none
      rw [encodeHex_cons]
      simp only [extractOpcode, if_neg (hne _)]

theorem not_isText_hashPayload (S : Sodium) (payload : Bytes) :
    ¬ IsText (hashPayload S payload) := by
  unfold IsText
  rw [extractOpcode_hashPayload]
  exact fun h => by cases h

/-! ## Handlers -/

/-- Quiet work, then perhaps a save; the contact is unchanged and gets at most receipts,
or it is moved once. -/
structure Handled (E : Setup) (G : Guard) (aliasName : Bytes) (r : Repl) (c : Contact)
    (p : Repl × Contact) : Prop where
  result : ∃ r₁ items, Quiet E r r₁ items ∧ (p.1 = r₁ ∨ p.1 = r₁.save aliasName p.2) ∧
    ((p.2 = c ∧ ∀ i ∈ items, i.IsReceipt) ∨ ContactStep E (.between G r r₁ items) c p.2)

/-- Nothing is queued, or a request with the next key and the contact waits for its
acknowledgement. -/
def Started (E : Setup) (G : Guard) (r : Repl) (c : Contact) (p : Repl × Contact) : Prop :=
  (p.2 = c ∧ Quiet E r p.1 []) ∨
    ∃ k, p.2 = initiated c k ∧ Quiet E r p.1 [.to c (.request k)] ∧
      ContactStep E (.between G r p.1 [.to c (.request k)]) c (initiated c k)

theorem Handled.same {E : Setup} {G : Guard} {aliasName : Bytes} {r r' : Repl} {c : Contact}
    (h : Quiet E r r' []) : Handled E G aliasName r c (r', c) :=
  ⟨r', [], h, .inl rfl, .inl ⟨rfl, List.forall_mem_nil _⟩⟩

theorem Started.handled {E : Setup} {G : Guard} {r : Repl} {c : Contact} {p : Repl × Contact}
    (h : Started E G r c p) (aliasName : Bytes) : Handled E G aliasName r c p := by
  obtain ⟨r', c'⟩ := p
  rcases h with ⟨rfl, hquiet⟩ | ⟨k, rfl, hquiet, hstep⟩
  · exact .same hquiet
  · exact ⟨r', _, hquiet, .inl rfl, .inr hstep⟩

theorem Started.print {E : Setup} {G : Guard} {r : Repl} {c : Contact} {p : Repl × Contact}
    (h : Started E G r c p) (n : Notice) : Started E G r c (p.1.print n, p.2) := by
  rcases h with ⟨hc, hquiet⟩ | ⟨k, hc, hquiet, hstep⟩
  · exact .inl ⟨hc, hquiet.after (.print _ _)⟩
  · exact .inr ⟨k, hc, hquiet.after (.print _ _), hstep⟩

theorem Started.of_print {E : Setup} {G : Guard} {r : Repl} {c : Contact} {p : Repl × Contact}
    {n : Notice} (h : Started E G (r.print n) c p) : Started E G r c p := by
  rcases h with ⟨hc, hquiet⟩ | ⟨k, hc, hquiet, hstep⟩
  · exact .inl ⟨hc, (Quiet.print r n).before hquiet⟩
  · exact .inr ⟨k, hc, (Quiet.print r n).before hquiet, hstep⟩

namespace Repl

variable {E : Setup} {G : Guard} (r : Repl) (aliasName : Bytes) (c : Contact)

theorem inFrame_of_encrypt (content : Outgoing) {ciphertext : Bytes} {r r' : Repl}
    (h : r.encrypt E c.txKey (content.plaintext E) = (some ciphertext, r')) :
    (Item.to c content).InFrame E ⟨content.action, c.txMailboxId, ciphertext⟩ :=
  ⟨_, ciphertext, congrArg Prod.fst h, rfl⟩

theorem initiatePfsRotation_started (hrole : Initiates E c)
    (hrotates : c.initialPfsComplete = true →
      (r.initiatePfsRotation E c).2.2.pfsState ≠ c.pfsState → G.rotates c) :
    Started E G r c (r.initiatePfsRotation E c).2 := by
  unfold initiatePfsRotation at hrotates ⊢
  split
  · exact .inl ⟨rfl, .refl r⟩
  · next hidle =>
      rw [if_neg hidle] at hrotates
      have hgen : Quiet E r (r.generate E).2 [] := .generate r
      split
      · next r₁ hg =>
          rw [hg] at hgen
          exact .inl ⟨rfl, hgen⟩
      · next k r₁ hg =>
          obtain ⟨hk, rfl⟩ := Prod.mk.inj hg
          have hidle : c.pfsState = .idle := not_not.mp hidle
          have henc := hgen.before (.encrypt (E := E) _ c.txKey
            (not_isText_buildPfsRotate (show PayloadOpcode.pfsRotateRequest ≠ .textMessage by decide)
              k.publicKey (sign E k.publicKey.toList)))
          dsimp only
          split
          · next r₂ he =>
              obtain ⟨-, rfl⟩ := Prod.mk.inj he
              exact .inl ⟨rfl, henc⟩
          · next ct r₂ he =>
              have hitem := inFrame_of_encrypt (E := E) c (.request k) he
              rw [hg] at hrotates
              dsimp only at hrotates
              rw [he] at hrotates
              obtain ⟨-, rfl⟩ := Prod.mk.inj he
              refine .inr ⟨k, rfl, henc.before (.push _ hitem),
                .initiated hidle le_rfl (Nat.lt_succ_self _) hk hrole ?_ rfl fun hcomplete => ?_⟩
              · show _ ∈ List.drop r.encryptions.length (r.encryptions ++ [_])
                rw [List.drop_left]
                exact List.mem_cons_self
              · refine hrotates hcomplete ?_
                rw [hidle]
                exact fun h => by cases h

theorem maybeStartInitialPfs_started :
    Started E G r c (r.maybeStartInitialPfs E aliasName c) := by
  unfold maybeStartInitialPfs
  split
  · exact .inl ⟨rfl, .refl r⟩
  · next hguard =>
    simp only [Bool.or_eq_true, Bool.not_eq_true', decide_eq_true_eq, not_or, Bool.not_eq_true,
      Bool.not_eq_false] at hguard
    have hstart := initiatePfsRotation_started (E := E) (G := G) r c (.inr hguard.2) fun hcomplete =>
      absurd (hcomplete.symm.trans hguard.1.1.2) (by decide)
    split
    · next r' c' heq =>
        rw [heq] at hstart
        exact hstart.print _
    · next r' c' heq =>
        rw [heq] at hstart
        exact hstart

theorem checkMessageInterval_started (hcomplete : c.initialPfsComplete = true)
    (hrotates : (r.checkMessageInterval E c).2.pfsState ≠ c.pfsState → G.rotates c) :
    Started E G r c (r.checkMessageInterval E c) := by
  unfold checkMessageInterval at hrotates ⊢
  split
  · next hdue =>
      rw [if_pos hdue] at hrotates
      exact Started.of_print (initiatePfsRotation_started _ c (.inl hcomplete) fun _ => hrotates)
  · exact .inl ⟨rfl, .refl r⟩

theorem rememberAlias_quiet : Quiet E r (r.rememberAlias aliasName) [] := by
  unfold rememberAlias
  split <;> exact .of_eq rfl rfl rfl rfl

theorem handleTextMessage_quiet (plaintext msgData : Bytes) :
    ∃ items, Quiet E r (r.handleTextMessage E aliasName c plaintext msgData) items ∧
      ∀ i ∈ items, i.IsReceipt := by
  unfold handleTextMessage
  have hwork : ∀ (entry : CacheEntry),
      Quiet E r ((((r.print (.newMessage aliasName msgData)).now E).2.appendMessage entry).encrypt E
        c.txKey (hashPayload E.sodium msgData)).2 [] := by
    intro entry
    have hnoted : Quiet E r (((r.print (.newMessage aliasName msgData)).now E).2.appendMessage
        entry) [] := .of_eq rfl rfl rfl rfl
    exact hnoted.before (.encrypt _ _ (not_isText_hashPayload _ _))
  dsimp only
  split
  · next r₁ he =>
      obtain ⟨-, rfl⟩ := Prod.mk.inj he
      exact ⟨[], hwork _, List.forall_mem_nil _⟩
  · next ct r₁ he =>
      have hitem := inFrame_of_encrypt (E := E) c (.receipt msgData) he
      obtain ⟨-, rfl⟩ := Prod.mk.inj he
      refine ⟨_, ((hwork _).before (.push _ hitem)).after (.print _ _), ?_⟩
      intro i hi
      rw [List.mem_singleton.mp hi]
      exact ⟨msgData, rfl⟩

/-- The answer to a request in terms of the moves of a contact. -/
theorem answerRotation_eq (e : PublicKeyType) (k : EphemeralKey) :
    r.answerRotation E aliasName c e k =
      match r.encrypt E c.txKey
        (buildPfsRotateAck k.publicKey (sign E (e.toList ++ k.publicKey.toList))) with
      | (none, r) => (r, c)
      | (some ct, r) =>
          match E.sodium.cryptoScalarmult k.secretKey e with
          | none => (r.push (Frame.createPush c.txMailboxId ct), keepOld c)
          | some secret =>
              let c' := answered c (deriveMailboxes E.sodium secret k.publicKey e)
              (((r.push (Frame.createPush c.txMailboxId ct)).print
                (.rotationAnswered aliasName)).save aliasName c', c') := by
  unfold answerRotation answered keepOld withSession
  cases c.initialPfsComplete <;> rfl

/-- The key pair with which `HandlePfsRotateRequest` answers and the key it answers to;
`none` if it returns before the acknowledgement is queued. -/
def answer (E : Setup) (plaintext : Bytes) : Option (EphemeralKey × PublicKeyType) :=
  match parsePfsRotateRequest plaintext with
  | none => none
  | some reqData =>
      if !E.sodium.cryptoSignVerifyDetached reqData.signature
          reqData.ephemeralPublicKey.toList c.publicKey then none
      else if !c.initialPfsComplete && isInitialPfsInitiator E c then none
      else
        match r.generate E with
        | (none, _) => none
        | (some k, r) =>
            (r.encrypt E c.txKey (buildPfsRotateAck k.publicKey
              (sign E (reqData.ephemeralPublicKey.toList ++ k.publicKey.toList)))).1.map
                fun _ => (k, reqData.ephemeralPublicKey)

theorem answer_eq_some {r : Repl} {c : Contact} {plaintext : Bytes} {k : EphemeralKey}
    {e : PublicKeyType} (h : r.answer c E plaintext = some (k, e)) :
    ∃ req, parsePfsRotateRequest plaintext = some req ∧ Answers E c ∧
      e = req.ephemeralPublicKey := by
  unfold answer at h
  split at h
  · cases h
  · next req hreq =>
      split at h
      · cases h
      · split at h
        · cases h
        · next hrole =>
            split at h
            · cases h
            · obtain ⟨ct, -, heq⟩ := Option.map_eq_some_iff.mp h
              obtain ⟨-, rfl⟩ := Prod.mk.inj heq
              refine ⟨req, hreq, ?_, rfl⟩
              unfold Answers
              cases hcomplete : c.initialPfsComplete with
              | true => exact .inl rfl
              | false => exact .inr (by simpa [hcomplete] using hrole)

theorem answerRotation_handled {r₀ : Repl} {e : PublicKeyType} {sig : Signature}
    {k : EphemeralKey} (hquiet : Quiet E r₀ r []) (hdraws : r₀.keyDraws < r.keyDraws)
    (hk : E.tape.keypair r₀.keyDraws = some k) (hrole : Answers E c)
    (hsig : E.sodium.cryptoSignVerifyDetached sig e.toList c.publicKey = true)
    (hG : ∀ ct, (r.encrypt E c.txKey ((Outgoing.ack e k).plaintext E)).1 = some ct →
      G.answers c k e) :
    Handled E G aliasName r₀ c (r.answerRotation E aliasName c e k) := by
  rw [answerRotation_eq]
  have henc := hquiet.before (.encrypt (E := E) _ c.txKey
    (not_isText_buildPfsRotate (show PayloadOpcode.pfsRotateAck ≠ .textMessage by decide)
      k.publicKey (sign E (e.toList ++ k.publicKey.toList))))
  split
  · next r₁ he =>
      obtain ⟨-, rfl⟩ := Prod.mk.inj he
      exact .same henc
  · next ct r₁ he =>
      have hanswers := hG ct (congrArg Prod.fst he)
      have hitem := inFrame_of_encrypt (E := E) c (.ack e k) he
      obtain ⟨-, rfl⟩ := Prod.mk.inj he
      have hpush := henc.before (.push _ hitem)
      split
      · next hfail => exact ⟨_, _, hpush, .inl rfl, .inr (.keptOld hfail hanswers hk rfl)⟩
      · next secret hsecret =>
          exact ⟨_, _, hpush.after (.print _ _), .inr rfl,
            .inr (.answered hrole hsig le_rfl hdraws hk hsecret hanswers rfl)⟩

theorem handlePfsRotateRequest_handled (plaintext : Bytes)
    (hG : ∀ k e, r.answer c E plaintext = some (k, e) → G.answers c k e) :
    Handled E G aliasName r c (r.handlePfsRotateRequest E aliasName c plaintext) := by
  unfold handlePfsRotateRequest
  split
  · exact .same (.refl r)
  · next req hreq =>
      split
      · exact .same (.refl r)
      · next hsig =>
          split
          · exact (Started.of_print (maybeStartInitialPfs_started
              (r.print (.ignoringSimultaneousRequest aliasName)) aliasName c)).handled aliasName
          · next hrole =>
              have hgen : Quiet E r (r.generate E).2 [] := .generate r
              split
              · next r₁ hg =>
                  rw [hg] at hgen
                  exact .same hgen
              · next k r₁ hg =>
                  have hk : E.tape.keypair r.keyDraws = some k := congrArg Prod.fst hg
                  have hdraws : r.keyDraws < (r.generate E).2.keyDraws := Nat.lt_succ_self _
                  rw [hg] at hgen hdraws
                  refine answerRotation_handled _ aliasName c hgen hdraws hk ?_
                    (by simpa using hsig) ?_
                  · unfold Answers
                    cases hcomplete : c.initialPfsComplete with
                    | true => exact .inl rfl
                    | false => exact .inr (by simpa [hcomplete] using hrole)
                  · intro ct hct
                    refine hG k req.ephemeralPublicKey ?_
                    unfold answer
                    rw [hreq]
                    dsimp only
                    rw [if_neg hsig, if_neg hrole, hg]
                    dsimp only
                    rw [show (r₁.encrypt E c.txKey (buildPfsRotateAck _ _)).1 = some ct from hct]
                    rfl

theorem handlePfsRotateAck_handled (plaintext : Bytes)
    (hG : ∀ ack, parsePfsRotateAck plaintext = some ack →
      G.completes c ack.ephemeralPublicKey) :
    Handled E G aliasName r c (r.handlePfsRotateAck E aliasName c plaintext) := by
  unfold handlePfsRotateAck
  split
  · next pending hstate hpending =>
      split
      · exact .same (.refl r)
      · next ack hack =>
          dsimp only
          split
          · exact .same (.refl r)
          · next hsig =>
              split
              · exact .same (.refl r)
              · next secret hsecret =>
                  exact ⟨_, _, .print r _, .inr rfl,
                    .inr (.completed hstate hpending (by simpa using hsig) hsecret (hG ack hack)
                      rfl)⟩
  · exact .same (.print r _)

theorem dispatch_handled (plaintext : Bytes)
    (hanswers : ∀ k e, r.answer c E plaintext = some (k, e) → G.answers c k e)
    (hcompletes : ∀ ack, parsePfsRotateAck plaintext = some ack →
      G.completes c ack.ephemeralPublicKey) :
    Handled E G aliasName r c (r.dispatch E aliasName c plaintext) := by
  unfold dispatch
  split
  · split
    · exact .same (.print r _)
    · split
      · exact .same (.refl r)
      · next msgData _ =>
          obtain ⟨items, hquiet, hreceipts⟩ :=
            handleTextMessage_quiet (E := E) r aliasName c plaintext msgData
          exact ⟨_, items, hquiet, .inl rfl, .inl ⟨rfl, hreceipts⟩⟩
  · exact handlePfsRotateRequest_handled r aliasName c plaintext hanswers
  · exact handlePfsRotateAck_handled r aliasName c plaintext hcompletes
  · exact .same (.refl r)

/-- The old mailbox goes with a save, or nothing happens. -/
theorem dropOldMailbox_cases (usedOld : Bool) :
    r.dropOldMailbox aliasName c usedOld = (r, c) ∨
      (c.oldRxMailboxId.isSome = true ∧ usedOld = false ∧
        r.dropOldMailbox aliasName c usedOld =
          ((r.print (.transitionConfirmed aliasName)).save aliasName (droppedOld c),
            droppedOld c)) := by
  unfold dropOldMailbox
  split
  · next h =>
      simp only [Bool.and_eq_true, Bool.not_eq_true'] at h
      exact .inr ⟨h.2, h.1, rfl⟩
  · exact .inl rfl

/-! ## Frames -/

/-- A frame is routed to the first contact that listens to its mailbox. -/
structure Routed (r : Repl) (f : Frame) (aliasName : Bytes) (c : Contact) : Prop where
  found : r.addressBook.getAliasByRxMailboxId f.mailboxId = aliasName
  nonempty : aliasName ≠ []
  contact : r.addressBook.getContact aliasName = some c

/-- The key `ProcessPushFrame` and `ProcessAckFrame` select for a frame. -/
def selectedKey (c : Contact) (f : Frame) : SymmetricKey :=
  keyToUse c (usedOldKey c f.mailboxId)

/-- What an accepted PUSH does: the old mailbox may go, then the plaintext is
dispatched and the contact written back. -/
def accept (E : Setup) (r : Repl) (aliasName : Bytes) (c : Contact) (usedOld : Bool)
    (plaintext : Bytes) : Repl :=
  let p := r.dropOldMailbox aliasName c usedOld
  let q := p.1.dispatch E aliasName p.2 plaintext
  q.1.putContact aliasName q.2

/-- The plaintext of a frame that is accepted, with the client and the contact as the
dispatch gets them. -/
def opened (E : Setup) (r : Repl) : Input → Option ((Repl × Contact) × Bytes)
  | .receive f =>
      let aliasName := r.addressBook.getAliasByRxMailboxId f.mailboxId
      if f.action ≠ .push ∨ aliasName = [] then none
      else
        match r.addressBook.getContact aliasName with
        | none => none
        | some c =>
            (decryptAndUnpad E.sodium (selectedKey c f) f.payload).map fun plaintext =>
              (r.dropOldMailbox aliasName c (usedOldKey c f.mailboxId), plaintext)
  | _ => none

/-- A frame that is opened is routed to the contact whose key opens it. -/
theorem opened_routed {r : Repl} {f : Frame} {p : Repl × Contact} {plaintext : Bytes}
    (h : opened E r (.receive f) = some (p, plaintext)) :
    ∃ a c, Routed r f a c ∧ f.action = .push ∧
      decryptAndUnpad E.sodium (selectedKey c f) f.payload = some plaintext ∧
      p = r.dropOldMailbox a c (usedOldKey c f.mailboxId) := by
  unfold opened at h
  dsimp only at h
  split at h
  · cases h
  · next hguard =>
      rw [not_or, not_not] at hguard
      split at h
      · cases h
      · next c hc =>
          obtain ⟨plaintext', hdec, heq⟩ := Option.map_eq_some_iff.mp h
          obtain ⟨rfl, rfl⟩ := Prod.mk.inj heq
          exact ⟨_, c, ⟨rfl, hguard.2, hc⟩, hguard.1, hdec, rfl⟩

theorem opened_eq_some {r : Repl} {i : Input} {p : Repl × Contact} {plaintext : Bytes}
    (h : opened E r i = some (p, plaintext)) :
    ∃ f aliasName c, i = .receive f ∧ r.addressBook.getContact aliasName = some c ∧
      p = r.dropOldMailbox aliasName c (usedOldKey c f.mailboxId) ∧
      decryptAndUnpad E.sodium (selectedKey c f) f.payload = some plaintext := by
  cases i with
  | receive f =>
      obtain ⟨a, c, hrouted, -, hdec, hp⟩ := opened_routed h
      exact ⟨f, a, c, rfl, hrouted.contact, hp, hdec⟩
  | _ => cases h

/-- The request that an input brings and the client answers: the contact as the handler
gets it, the key pair of the answer and the key of the request. -/
def answering (E : Setup) (r : Repl) (i : Input) :
    Option (Contact × EphemeralKey × PublicKeyType) :=
  (opened E r i).bind fun p => (p.1.1.answer p.1.2 E p.2).map fun q => (p.1.2, q)

/-- The acknowledgement that an input brings: the contact and the key in it. -/
def completing (E : Setup) (r : Repl) (i : Input) : Option (Contact × PublicKeyType) :=
  (opened E r i).bind fun p =>
    (parsePfsRotateAck p.2).map fun ack => (p.1.2, ack.ephemeralPublicKey)

theorem opened_receive {r : Repl} {f : Frame} {aliasName : Bytes} {c : Contact}
    {plaintext : Bytes} (hrouted : Routed r f aliasName c) (hpush : f.action = .push)
    (hdec : decryptAndUnpad E.sodium (selectedKey c f) f.payload = some plaintext) :
    opened E r (.receive f) =
      some (r.dropOldMailbox aliasName c (usedOldKey c f.mailboxId), plaintext) := by
  unfold opened
  dsimp only
  rw [hrouted.found, if_neg (by rw [hpush]; exact not_or.mpr ⟨not_not.mpr rfl, hrouted.nonempty⟩),
    hrouted.contact]
  dsimp only
  rw [hdec]
  rfl

theorem onFrameReceived_push {r : Repl} {f : Frame} {aliasName : Bytes} {c : Contact}
    {plaintext : Bytes} (hrouted : Routed r f aliasName c) (hpush : f.action = .push)
    (hdec : decryptAndUnpad E.sodium (selectedKey c f) f.payload = some plaintext) :
    r.onFrameReceived E f = r.accept E aliasName c (usedOldKey c f.mailboxId) plaintext := by
  unfold selectedKey at hdec
  unfold onFrameReceived
  rw [if_neg (by rw [hpush]; decide)]
  dsimp only
  rw [hrouted.found, if_neg hrouted.nonempty, hrouted.contact, hpush]
  dsimp only
  unfold processPushFrame
  rw [hdec]
  rfl

/-- **All that a frame can do**: nothing to the address book, or what an accepted
PUSH does. -/
theorem onFrameReceived_cases (f : Frame) :
    Quiet E r (r.onFrameReceived E f) [] ∨
      ∃ aliasName c plaintext, Routed r f aliasName c ∧ f.action = .push ∧
        decryptAndUnpad E.sodium (selectedKey c f) f.payload = some plaintext ∧
        r.onFrameReceived E f =
          r.accept E aliasName c (usedOldKey c f.mailboxId) plaintext := by
  unfold onFrameReceived
  split
  · exact .inl (.refl r)
  · dsimp only
    split
    · exact .inl (.print r _)
    · next hne =>
        split
        · exact .inl (.refl r)
        · next c hc =>
            split
            · next hpush =>
                unfold processPushFrame
                cases hdec : decryptAndUnpad E.sodium
                    (keyToUse c (usedOldKey c f.mailboxId)) f.payload with
                | none =>
                    left
                    refine .of_eq ?_ rfl rfl rfl
                    exact AddressBook.putContact_self hc
                | some plaintext => exact .inr ⟨_, c, plaintext, ⟨rfl, hne, hc⟩, hpush, hdec, rfl⟩
            · left
              unfold processAckFrame
              split
              · exact .print r _
              · exact .of_eq rfl rfl rfl rfl
            · exact .inl (.refl r)

end Repl

end BlankChat.Cli
