import BlankChat.Session.World

/-!
# The clients refine the rotation protocol

An epoch of the abstract protocol stands for a session: mailbox ids and keys of both
directions. `Encodes` relates a frame to a packet, `Agrees` a contact to a party,
`Carries` the rest of a client to its outbox. The lemmas of this file say what each
handler does to a client that is related to a party; they are put together in
`Session.Simulation`.
-/

namespace BlankChat.Session

open Lib Lib.Rotation BlankChat.Core Crypto Protocol Client Cli

/-- Two clients with a session, and how much of the tapes is used up when it is in
place. -/
structure Setting extends Duo where
  initial : DerivedMailboxes
  firstDraw : Side → ℕ
  note : Side → Option Bytes

abbrev Message : Type := Packet EphemeralKey Bytes
abbrev Network : Type := Net EphemeralKey Bytes

namespace Setting

variable (G : Setting)

/-! ## Sessions -/

/-- The session of an epoch as the left client sees it. -/
def leftSession : Epoch EphemeralKey → DerivedMailboxes
  | .initial => G.initial
  | .exchange l r =>
      deriveMailboxes G.sodium
        ((G.sodium.cryptoScalarmult l.secretKey r.publicKey).getD (List.Vector.replicate 32 0))
        l.publicKey r.publicKey

def sessionOf : Side → Epoch EphemeralKey → DerivedMailboxes
  | .left, ep => G.leftSession ep
  | .right, ep => (G.leftSession ep).swap

theorem sessionOf_other (s : Side) (ep : Epoch EphemeralKey) :
    G.sessionOf s.other ep = (G.sessionOf s ep).swap := by
  cases s <;> rfl

/-- The key pair is drawn from the tape of the client after the start. -/
def DrawnBy (s : Side) (k : EphemeralKey) : Prop :=
  ∃ n, G.firstDraw s ≤ n ∧ (G.tape s).keypair n = some k

def ValidEpoch : Epoch EphemeralKey → Prop
  | .initial => True
  | .exchange l r => G.DrawnBy .left l ∧ G.DrawnBy .right r

theorem validEpoch_of {s : Side} {mine theirs : EphemeralKey} (hmine : G.DrawnBy s mine)
    (htheirs : G.DrawnBy s.other theirs) : G.ValidEpoch (Epoch.of s mine theirs) := by
  cases s with
  | left => exact ⟨hmine, htheirs⟩
  | right => exact ⟨htheirs, hmine⟩

/-- What is assumed of the library for honest clients. -/
structure Honest : Prop where
  aead : G.sodium.AeadCorrect
  agree : ∀ l r, G.DrawnBy .left l → G.DrawnBy .right r → ∃ secret,
    G.sodium.cryptoScalarmult l.secretKey r.publicKey = some secret ∧
    G.sodium.cryptoScalarmult r.secretKey l.publicKey = some secret
  verify : ∀ s m, G.sodium.cryptoSignVerifyDetached
    (G.sodium.cryptoSignDetached m (G.identity s).secretKey) m (G.identity s).publicKey = true
  distinct : ∀ s t ep ep', G.ValidEpoch ep → G.ValidEpoch ep' →
    (G.sessionOf s ep).rxId = (G.sessionOf t ep').rxId → s = t ∧ ep = ep'
  named : ∀ s, G.aliasName s ≠ []

variable {G}

/-- Each client derives the session of the exchange from its own secret key. -/
theorem Honest.derive (h : G.Honest) {s : Side} {mine theirs : EphemeralKey}
    (hmine : G.DrawnBy s mine) (htheirs : G.DrawnBy s.other theirs) :
    ∃ secret, G.sodium.cryptoScalarmult mine.secretKey theirs.publicKey = some secret ∧
      deriveMailboxes G.sodium secret mine.publicKey theirs.publicKey =
        G.sessionOf s (Epoch.of s mine theirs) := by
  cases s with
  | left =>
      obtain ⟨secret, hl, -⟩ := h.agree mine theirs hmine htheirs
      refine ⟨secret, hl, ?_⟩
      show _ = deriveMailboxes G.sodium _ mine.publicKey theirs.publicKey
      rw [hl, Option.getD_some]
  | right =>
      obtain ⟨secret, hl, hr⟩ := h.agree theirs mine htheirs hmine
      refine ⟨secret, hr, ?_⟩
      show _ = (deriveMailboxes G.sodium _ theirs.publicKey mine.publicKey).swap
      rw [hl, Option.getD_some, ← deriveMailboxes_swap]

/-! ## Frames and packets -/

variable (G)

/-- The plaintext that a client makes of a body. -/
def plain (s : Side) : Body EphemeralKey Bytes → Bytes
  | .text content => buildTextMessage content
  | .receipt content => content
  | .request e =>
      buildPfsRotateRequest e.publicKey (Repl.sign (G.setup s) e.publicKey.toList)
  | .ack e e' =>
      buildPfsRotateAck e'.publicKey
        (Repl.sign (G.setup s) (e.publicKey.toList ++ e'.publicKey.toList))

def actionOf : Body EphemeralKey Bytes → ActionType
  | .receipt _ => .ack
  | _ => .push

theorem actionOf_ne_poll (b : Body EphemeralKey Bytes) : actionOf b ≠ .poll := by
  cases b <;> exact fun h => by cases h

/-- The keys in a body are drawn by those who name them. -/
def ValidBody (sender : Side) : Body EphemeralKey Bytes → Prop
  | .request e => G.DrawnBy sender e
  | .ack e e' => G.DrawnBy sender.other e ∧ G.DrawnBy sender e'
  | _ => True

/-- The frame carries the packet. -/
structure Encodes (f : Frame) (p : Message) : Prop where
  mailbox : f.mailboxId = (G.sessionOf p.dest p.epoch).rxId
  action : f.action = actionOf p.body
  payload : ∃ nonce, encryptWithPadding G.sodium (G.sessionOf p.dest p.epoch).rxKey nonce
    (G.plain p.dest.other p.body) = some f.payload
  epoch : G.ValidEpoch p.epoch
  body : G.ValidBody p.dest.other p.body

/-! ## Contacts and parties -/

/-- The contact of a client shows the state of the party. -/
structure Agrees (s : Side) (c : Contact) (p : Party EphemeralKey Bytes) : Prop where
  aliasName : c.aliasName = G.aliasName s
  note : c.note = G.note s
  peer : c.publicKey = (G.identity s.other).publicKey
  complete : c.initialPfsComplete = true
  session : session c = G.sessionOf s p.cur
  oldId : c.oldRxMailboxId = p.old.map fun ep => (G.sessionOf s ep).rxId
  oldKey : c.oldRxKey = p.old.map fun ep => (G.sessionOf s ep).rxKey
  state : c.pfsState = if p.pending.isSome then .rotationRequested else .idle
  pending : c.pendingEphemeralKey = p.pending
  validCur : G.ValidEpoch p.cur
  validOld : ∀ ep, p.old = some ep → G.ValidEpoch ep
  drawn : ∀ e, p.pending = some e → G.DrawnBy s e

/-- The rest of a client: its book holds the one contact, the file has its persistent
part, and the outbox carries the packets `out`. -/
structure Carries (s : Side) (r : Repl) (c : Contact) (out : List Message) : Prop where
  contacts : r.addressBook.contacts = AList.singleton (G.aliasName s) c
  file : ∃ c₀, r.addressBook.file = syncContactsToDisk [c₀] ∧
    AddressBook.persistent c₀ = AddressBook.persistent c
  aliases : r.connected = true → r.contactAliases = [G.aliasName s]
  draws : G.firstDraw s ≤ r.keyDraws
  outbox : List.Forall₂ G.Encodes r.outbox out
  dest : ∀ p ∈ out, p.dest = s.other

variable {G} {s : Side} {r r' : Repl} {c c' : Contact} {out : List Message}

theorem Carries.getContact (h : G.Carries s r c out) :
    r.addressBook.getContact (G.aliasName s) = some c :=
  AddressBook.getContact_single h.contacts

theorem Carries.work (h : G.Carries s r c out) (hbook : r'.addressBook = r.addressBook)
    (haliases : r'.contactAliases = r.contactAliases) (hconnected : r'.connected = r.connected)
    (hdraws : r.keyDraws ≤ r'.keyDraws) (hout : r'.outbox = r.outbox) :
    G.Carries s r' c out where
  contacts := hbook ▸ h.contacts
  file := hbook ▸ h.file
  aliases := by
    rw [haliases, hconnected]
    exact h.aliases
  draws := h.draws.trans hdraws
  outbox := hout ▸ h.outbox
  dest := h.dest

theorem Carries.push (h : G.Carries s r c out) {f : Frame} {p : Message} (hp : G.Encodes f p)
    (hdest : p.dest = s.other) : G.Carries s (r.push f) c (out ++ [p]) where
  contacts := h.contacts
  file := h.file
  aliases := h.aliases
  draws := h.draws
  outbox := List.rel_append h.outbox (.cons hp .nil)
  dest := by
    intro q hq
    rcases List.mem_append.mp hq with hq | hq
    · exact h.dest q hq
    · rw [List.mem_singleton.mp hq, hdest]

theorem Carries.put (h : G.Carries s r c out)
    (hc : AddressBook.persistent c' = AddressBook.persistent c) :
    G.Carries s (r.putContact (G.aliasName s) c') c' out where
  contacts := AddressBook.putContact_single h.contacts c'
  file := by
    obtain ⟨c₀, hfile, hc₀⟩ := h.file
    exact ⟨c₀, hfile, hc₀.trans hc.symm⟩
  aliases := h.aliases
  draws := h.draws
  outbox := h.outbox
  dest := h.dest

theorem Carries.save (h : G.Carries s r c out) (c' : Contact) :
    G.Carries s (r.save (G.aliasName s) c') c' out where
  contacts := AddressBook.putContact_single h.contacts c'
  file := by
    refine ⟨c', ?_, rfl⟩
    show syncContactsToDisk (List.map Sigma.snd (AddressBook.putContact _ _ _).contacts.entries) = _
    rw [AddressBook.putContact_single h.contacts]
    rfl
  aliases := h.aliases
  draws := h.draws
  outbox := h.outbox
  dest := h.dest

variable {p : Party EphemeralKey Bytes}

/-! ## Moves of a contact and of its party -/

namespace Agrees

theorem queue (h : G.Agrees s c p) (b : Body EphemeralKey Bytes) :
    G.Agrees s c (p.queue s b) :=
  ⟨h.aliasName, h.note, h.peer, h.complete, h.session, h.oldId, h.oldKey, h.state, h.pending,
    h.validCur, h.validOld, h.drawn⟩

theorem start (h : G.Agrees s c p) {e : EphemeralKey} (he : G.DrawnBy s e) :
    G.Agrees s (initiated c e) (p.start s e) := by
  refine ⟨h.aliasName, h.note, h.peer, h.complete, h.session, h.oldId, h.oldKey, rfl, rfl,
    h.validCur, h.validOld, ?_⟩
  intro e' he'
  obtain rfl := Option.some.inj he'
  exact he

theorem counted (h : G.Agrees s c p) (n : UInt32) :
    G.Agrees s { c with messageCounter := n } p :=
  ⟨h.aliasName, h.note, h.peer, h.complete, h.session, h.oldId, h.oldKey, h.state, h.pending,
    h.validCur, h.validOld, h.drawn⟩

theorem giveUp (h : G.Agrees s c p) : G.Agrees s (droppedOld c) p.giveUp :=
  ⟨h.aliasName, h.note, h.peer, h.complete, h.session, rfl, rfl, h.state, h.pending, h.validCur,
    fun _ hep => (by cases hep), h.drawn⟩

theorem answer (h : G.Agrees s c p) {e e' : EphemeralKey} (he : G.DrawnBy s.other e)
    (he' : G.DrawnBy s e') :
    G.Agrees s (answered c (G.sessionOf s (Epoch.of s e' e))) (p.answer s e e') := by
  have hkeep : keepOld c =
      { c with oldRxMailboxId := some c.rxMailboxId, oldRxKey := some c.rxKey } := by
    rw [keepOld, if_pos h.complete]
  unfold answered
  rw [hkeep, h.complete]
  refine ⟨h.aliasName, h.note, h.peer, rfl, rfl, ?_, ?_, h.state, h.pending,
    G.validEpoch_of he' he, ?_, h.drawn⟩
  · exact congrArg some (congrArg DerivedMailboxes.rxId h.session)
  · exact congrArg some (congrArg DerivedMailboxes.rxKey h.session)
  · intro ep hep
    obtain rfl := Option.some.inj hep
    exact h.validCur

theorem completes (h : G.Agrees s c p) {e e' : EphemeralKey} (he : p.pending = some e)
    (he' : G.DrawnBy s.other e') :
    G.Agrees s (completed c (G.sessionOf s (Epoch.of s e e'))) (p.complete s e e') :=
  ⟨h.aliasName, h.note, h.peer, rfl, rfl, h.oldId, h.oldKey, rfl, rfl,
    G.validEpoch_of (h.drawn e he) he', h.validOld, fun _ hk => by cases hk⟩

theorem restart (h : G.Agrees s c p) : G.Agrees s (AddressBook.persistent c) p.restart :=
  ⟨h.aliasName, h.note, h.peer, h.complete, h.session, rfl, rfl, rfl, rfl, h.validCur,
    fun _ hep => (by cases hep), fun _ hk => (by cases hk)⟩

/-- What the client encrypts for its contact is a packet in the current epoch. -/
theorem encodes (h : G.Agrees s c p) {b : Body EphemeralKey Bytes} {nonce : Nonce}
    {ciphertext : Bytes}
    (hct : encryptWithPadding G.sodium c.txKey nonce (G.plain s b) = some ciphertext)
    (hb : G.ValidBody s b) :
    G.Encodes ⟨actionOf b, c.txMailboxId, ciphertext⟩ (p.packet s b) := by
  have hkey : (G.sessionOf s.other p.cur).rxKey = c.txKey := by
    rw [sessionOf_other, ← h.session]
    rfl
  have hid : (G.sessionOf s.other p.cur).rxId = c.txMailboxId := by
    rw [sessionOf_other, ← h.session]
    rfl
  refine ⟨hid.symm, rfl, ⟨nonce, ?_⟩, h.validCur, ?_⟩
  · show encryptWithPadding _ (G.sessionOf s.other p.cur).rxKey _ (G.plain s.other.other b) = _
    rw [hkey, Side.other_other, hct]
  · show G.ValidBody s.other.other b
    rw [Side.other_other]
    exact hb

theorem idle_iff (h : G.Agrees s c p) : c.pfsState = .idle ↔ p.pending = none := by
  rw [h.state]
  cases p.pending with
  | none => simp
  | some e => simp

end Agrees

/-! ## Handlers -/

variable (G) in
/-- A handler leaves a client and a contact that are related to a party; the contact
that is stored differs from it at most in what a restart loses. -/
structure Leaves (s : Side) (q : Repl × Contact) (p : Party EphemeralKey Bytes) : Prop where
  stored : ∃ c₀, G.Carries s q.1 c₀ p.out ∧
    AddressBook.persistent q.2 = AddressBook.persistent c₀
  agrees : G.Agrees s q.2 p

variable (G) in
/-- A client is related to a party. -/
def Client (s : Side) (r : Repl) (p : Party EphemeralKey Bytes) : Prop :=
  ∃ c, G.Carries s r c p.out ∧ G.Agrees s c p

namespace Leaves

theorem work (h : G.Leaves s (r, c) p) (hbook : r'.addressBook = r.addressBook)
    (haliases : r'.contactAliases = r.contactAliases) (hconnected : r'.connected = r.connected)
    (hdraws : r.keyDraws ≤ r'.keyDraws) (hout : r'.outbox = r.outbox) : G.Leaves s (r', c) p := by
  obtain ⟨⟨c₀, hc₀, hsame⟩, hagrees⟩ := h
  exact ⟨⟨c₀, hc₀.work hbook haliases hconnected hdraws hout, hsame⟩, hagrees⟩

theorem print (h : G.Leaves s (r, c) p) (n : Notice) : G.Leaves s (r.print n, c) p :=
  h.work rfl rfl rfl le_rfl rfl

theorem put (h : G.Leaves s (r, c) p) : G.Client s (r.putContact (G.aliasName s) c) p := by
  obtain ⟨⟨c₀, hc₀, hsame⟩, hagrees⟩ := h
  exact ⟨c, hc₀.put hsame, hagrees⟩

theorem save (h : G.Leaves s (r, c) p) {p' : Party EphemeralKey Bytes} (hout : p'.out = p.out)
    (hagrees : G.Agrees s c' p') : G.Leaves s (r.save (G.aliasName s) c', c') p' := by
  obtain ⟨⟨c₀, hc₀, -⟩, -⟩ := h
  exact ⟨⟨c', hout ▸ hc₀.save c', rfl⟩, hagrees⟩

theorem push (h : G.Leaves s (r, c) p) {b : Body EphemeralKey Bytes} {nonce : Nonce}
    {ciphertext : Bytes}
    (hct : encryptWithPadding G.sodium c.txKey nonce (G.plain s b) = some ciphertext)
    (hb : G.ValidBody s b) :
    G.Leaves s (r.push ⟨actionOf b, c.txMailboxId, ciphertext⟩, c) (p.queue s b) := by
  obtain ⟨⟨c₀, hc₀, hsame⟩, hagrees⟩ := h
  exact ⟨⟨c₀, hc₀.push (hagrees.encodes hct hb) rfl, hsame⟩, hagrees.queue b⟩

theorem encrypt (h : G.Leaves s (r, c) p) (key : SymmetricKey) (plaintext : Bytes) :
    G.Leaves s ((r.encrypt (G.setup s) key plaintext).2, c) p :=
  h.work rfl rfl rfl le_rfl rfl

theorem drawn (h : G.Leaves s (r, c) p) {k : EphemeralKey}
    (hk : (G.tape s).keypair r.keyDraws = some k) : G.DrawnBy s k := by
  obtain ⟨⟨c₀, hc₀, -⟩, -⟩ := h
  exact ⟨r.keyDraws, hc₀.draws, hk⟩

theorem generate (h : G.Leaves s (r, c) p) : G.Leaves s ((r.generate (G.setup s)).2, c) p :=
  h.work rfl rfl rfl (Nat.le_succ _) rfl

end Leaves

variable (G) in
/-- Nothing happens, or the party starts a rotation. -/
def Starts (s : Side) (p p' : Party EphemeralKey Bytes) : Prop :=
  p' = p ∨ ∃ e, p.pending = none ∧ G.DrawnBy s e ∧ p' = p.start s e

theorem initiatePfsRotation_leaves (h : G.Leaves s (r, c) p) :
    ∃ p', G.Starts s p p' ∧ G.Leaves s (r.initiatePfsRotation (G.setup s) c).2 p' := by
  unfold Repl.initiatePfsRotation
  split
  · exact ⟨p, .inl rfl, h⟩
  · next hidle =>
      have hnone : p.pending = none := h.agrees.idle_iff.mp (not_not.mp hidle)
      have hgen := h.generate
      split
      · next r₁ hg =>
          rw [hg] at hgen
          exact ⟨p, .inl rfl, hgen⟩
      · next k r₁ hg =>
          obtain ⟨hk, rfl⟩ := Prod.mk.inj hg
          have hdrawn := h.drawn hk
          dsimp only
          split
          · next r₂ he =>
              obtain ⟨-, rfl⟩ := Prod.mk.inj he
              exact ⟨p, .inl rfl, hgen.encrypt _ _⟩
          · next ct r₂ he =>
              obtain ⟨hct, rfl⟩ := Prod.mk.inj he
              refine ⟨p.start s k, .inr ⟨k, hnone, hdrawn, rfl⟩, ?_, h.agrees.start hdrawn⟩
              obtain ⟨c₀, hc₀, hsame⟩ := ((hgen.encrypt c.txKey _).push
                (show encryptWithPadding G.sodium c.txKey _ (G.plain s (.request k)) = some ct
                  from hct) hdrawn).stored
              exact ⟨c₀, hc₀, hsame⟩

theorem checkMessageInterval_leaves (h : G.Leaves s (r, c) p) :
    ∃ p', G.Starts s p p' ∧ G.Leaves s (r.checkMessageInterval (G.setup s) c) p' := by
  unfold Repl.checkMessageInterval
  split
  · exact initiatePfsRotation_leaves (h.print _)
  · exact ⟨p, .inl rfl, h⟩

/-- Nothing happens, or a packet is queued. -/
def Queues (s : Side) (b : Body EphemeralKey Bytes) (p p' : Party EphemeralKey Bytes) : Prop :=
  p' = p ∨ p' = p.queue s b

theorem queueText_client (h : G.Carries s r c p.out) (hagrees : G.Agrees s c p) (text : Bytes) :
    ∃ p', Queues s (.text text) p p' ∧
      G.Client s (r.queueText (G.setup s) (G.aliasName s) c text) p' := by
  unfold Repl.queueText
  split
  · next r₁ he =>
      obtain ⟨-, rfl⟩ := Prod.mk.inj he
      exact ⟨p, .inl rfl, c, h.work rfl rfl rfl le_rfl rfl, hagrees⟩
  · next ct r₁ he =>
      obtain ⟨hct, rfl⟩ := Prod.mk.inj he
      have hwork : G.Carries s (r.encrypt (G.setup s) c.txKey (buildTextMessage text)).2 c p.out :=
        h.work rfl rfl rfl le_rfl rfl
      have hpush := hwork.push (hagrees.encodes (b := .text text) hct trivial) rfl
      exact ⟨_, .inr rfl, c, hpush.work rfl rfl rfl le_rfl rfl, hagrees.queue _⟩

theorem countText_client (h : G.Leaves s (r, c) p) (text : Bytes) :
    ∃ p', Queues s (.text text) p p' ∧
      G.Client s ((r.putContact (G.aliasName s)
          { c with messageCounter := c.messageCounter + 1 }).queueText (G.setup s)
        (G.aliasName s) { c with messageCounter := c.messageCounter + 1 } text) p' := by
  obtain ⟨⟨c₀, hc₀, hsame⟩, hagrees⟩ := h
  have hput : G.Carries s (r.putContact (G.aliasName s)
      { c with messageCounter := c.messageCounter + 1 }) _ _ := hc₀.put hsame
  exact queueText_client hput (hagrees.counted _) text

/-- **A send** queues the text, perhaps after the request of a rotation. -/
theorem handleSend_client (h : G.Client s r p) (text : Bytes) :
    ∃ p₁ p₂, G.Starts s p p₁ ∧ Queues s (.text text) p₁ p₂ ∧
      G.Client s (r.handleSend (G.setup s) (G.aliasName s) text) p₂ := by
  obtain ⟨c, hc, hagrees⟩ := h
  have hleaves : G.Leaves s (r, c) p := ⟨⟨c, hc, rfl⟩, hagrees⟩
  obtain ⟨r', hr', heq⟩ : ∃ r', G.Leaves s (r', c) p ∧
      r.handleSend (G.setup s) (G.aliasName s) text =
        let q := r'.checkMessageInterval (G.setup s) c
        (q.1.putContact (G.aliasName s)
          { q.2 with messageCounter := q.2.messageCounter + 1 }).queueText (G.setup s)
          (G.aliasName s) { q.2 with messageCounter := q.2.messageCounter + 1 } text := by
    unfold Repl.handleSend
    rw [hc.getContact]
    dsimp only
    rw [hagrees.complete, if_neg (by decide)]
    refine ⟨_, ?_, rfl⟩
    exact hleaves.work rfl rfl rfl le_rfl rfl
  rw [heq]
  obtain ⟨p₁, hstarts, hp₁⟩ := checkMessageInterval_leaves hr'
  obtain ⟨p₂, hqueues, hclient⟩ := countText_client hp₁ text
  exact ⟨p₁, p₂, hstarts, hqueues, hclient⟩

/-! ## Incoming frames -/

variable (G) in
/-- What a party does with a packet it reads. -/
def Reacts (s : Side) : Body EphemeralKey Bytes → Party EphemeralKey Bytes →
    Party EphemeralKey Bytes → Prop
  | .text _, p, p' => ∃ content, Queues s (.receipt content) p p'
  | .receipt _, p, p' => p' = p
  | .request e, p, p' => p' = p ∨ ∃ e', G.DrawnBy s e' ∧ p' = p.answer s e e'
  | .ack e e', p, p' => p' = p.complete s e e'

theorem handleTextMessage_leaves (h : G.Leaves s (r, c) p) (plaintext msgData : Bytes) :
    ∃ p', (∃ content, Queues s (.receipt content) p p') ∧
      G.Leaves s (r.handleTextMessage (G.setup s) (G.aliasName s) c plaintext msgData, c) p' := by
  unfold Repl.handleTextMessage
  dsimp only
  split
  · next r₁ he =>
      obtain ⟨-, rfl⟩ := Prod.mk.inj he
      exact ⟨p, ⟨[], .inl rfl⟩, h.work rfl rfl rfl le_rfl rfl⟩
  · next ct r₁ he =>
      obtain ⟨hct, rfl⟩ := Prod.mk.inj he
      refine ⟨_, ⟨hashPayload (G.setup s).sodium msgData, .inr rfl⟩, ?_⟩
      refine (Leaves.push (b := .receipt _) ?_ hct trivial).print _
      exact h.work rfl rfl rfl le_rfl rfl

theorem answerRotation_leaves (hG : G.Honest) (h : G.Leaves s (r, c) p) {e k : EphemeralKey}
    (he : G.DrawnBy s.other e) (hk : G.DrawnBy s k) :
    ∃ p', (p' = p ∨ p' = p.answer s e k) ∧
      G.Leaves s (r.answerRotation (G.setup s) (G.aliasName s) c e.publicKey k) p' := by
  obtain ⟨secret, hsecret, hderive⟩ := hG.derive hk he
  rw [Repl.answerRotation_eq]
  split
  · next r₁ henc =>
      obtain ⟨-, rfl⟩ := Prod.mk.inj henc
      exact ⟨p, .inl rfl, h.encrypt _ _⟩
  · next ct r₁ henc =>
      obtain ⟨hct, rfl⟩ := Prod.mk.inj henc
      rw [show (G.setup s).sodium.cryptoScalarmult k.secretKey e.publicKey = some secret
        from hsecret]
      dsimp only
      rw [show deriveMailboxes (G.setup s).sodium secret k.publicKey e.publicKey =
        G.sessionOf s (Epoch.of s k e) from hderive]
      refine ⟨_, .inr rfl, Leaves.save (c := c) (p := p.queue s (.ack e k)) ?_ rfl
        (h.agrees.answer he hk)⟩
      exact ((h.encrypt c.txKey _).push (b := .ack e k) hct ⟨he, hk⟩).print _

theorem handlePfsRotateRequest_leaves (hG : G.Honest) (h : G.Leaves s (r, c) p)
    {e : EphemeralKey} (he : G.DrawnBy s.other e) :
    ∃ p', G.Reacts s (.request e) p p' ∧
      G.Leaves s (r.handlePfsRotateRequest (G.setup s) (G.aliasName s) c
        (G.plain s.other (.request e))) p' := by
  have hsig : (G.setup s).sodium.cryptoSignVerifyDetached
      (Repl.sign (G.setup s.other) e.publicKey.toList) e.publicKey.toList c.publicKey = true := by
    rw [h.agrees.peer]
    exact hG.verify s.other _
  unfold Repl.handlePfsRotateRequest
  rw [show parsePfsRotateRequest (G.plain s.other (.request e)) =
    some ⟨e.publicKey, Repl.sign (G.setup s.other) e.publicKey.toList⟩
    from parsePfsRotate_build ..]
  dsimp only
  rw [hsig, if_neg (by decide), h.agrees.complete, if_neg (by simp)]
  have hgen := h.generate
  split
  · next r₁ hg =>
      rw [hg] at hgen
      exact ⟨p, .inl rfl, hgen⟩
  · next k r₁ hg =>
      obtain ⟨hk, rfl⟩ := Prod.mk.inj hg
      have hdrawn := h.drawn hk
      obtain ⟨p', hp', hleaves⟩ := answerRotation_leaves hG hgen he hdrawn
      refine ⟨p', ?_, hleaves⟩
      rcases hp' with rfl | rfl
      · exact .inl rfl
      · exact .inr ⟨k, hdrawn, rfl⟩

theorem handlePfsRotateAck_leaves (hG : G.Honest) (h : G.Leaves s (r, c) p)
    {e e' : EphemeralKey} (he' : G.DrawnBy s.other e') (hpending : p.pending = some e) :
    G.Leaves s (r.handlePfsRotateAck (G.setup s) (G.aliasName s) c
      (G.plain s.other (.ack e e'))) (p.complete s e e') := by
  obtain ⟨secret, hsecret, hderive⟩ := hG.derive (h.agrees.drawn e hpending) he'
  have hstate : c.pfsState = .rotationRequested := by
    rw [h.agrees.state, hpending]
    rfl
  have hsig : (G.setup s).sodium.cryptoSignVerifyDetached
      (Repl.sign (G.setup s.other) (e.publicKey.toList ++ e'.publicKey.toList))
      (e.publicKey.toList ++ e'.publicKey.toList) c.publicKey = true := by
    rw [h.agrees.peer]
    exact hG.verify s.other _
  unfold Repl.handlePfsRotateAck
  rw [hstate, h.agrees.pending, hpending]
  dsimp only
  rw [show parsePfsRotateAck (G.plain s.other (.ack e e')) =
    some ⟨e'.publicKey, Repl.sign (G.setup s.other) (e.publicKey.toList ++ e'.publicKey.toList)⟩
    from parsePfsRotate_build ..]
  dsimp only
  rw [hsig, if_neg (by decide), show (G.setup s).sodium.cryptoScalarmult e.secretKey e'.publicKey =
    some secret from hsecret]
  dsimp only
  rw [show deriveMailboxes (G.setup s).sodium secret e.publicKey e'.publicKey =
    G.sessionOf s (Epoch.of s e e') from hderive]
  exact (h.print _).save rfl (h.agrees.completes hpending he')

/-- **The dispatch** of the plaintext that the other client made of a body. -/
theorem dispatch_leaves (hG : G.Honest) (h : G.Leaves s (r, c) p) {b : Body EphemeralKey Bytes}
    (hb : G.ValidBody s.other b) (hconfirms : b.confirms = true)
    (hack : ∀ e e', b = .ack e e' → p.pending = some e) :
    ∃ p', G.Reacts s b p p' ∧
      G.Leaves s (r.dispatch (G.setup s) (G.aliasName s) c (G.plain s.other b)) p' := by
  unfold Repl.dispatch
  cases b with
  | text content =>
      rw [show extractOpcode (G.plain s.other (.text content)) = some .textMessage from rfl]
      dsimp only
      rw [h.agrees.complete, if_neg (by decide),
        show parseTextMessage (G.plain s.other (.text content)) = some content from rfl]
      exact handleTextMessage_leaves h _ content
  | receipt content => cases hconfirms
  | request e =>
      rw [show extractOpcode (G.plain s.other (.request e)) = some .pfsRotateRequest from rfl]
      exact handlePfsRotateRequest_leaves hG h hb
  | ack e e' =>
      rw [show extractOpcode (G.plain s.other (.ack e e')) = some .pfsRotateAck from rfl]
      exact ⟨_, rfl, handlePfsRotateAck_leaves hG h hb.2 (hack e e' rfl)⟩

section Routing

variable {f : Frame} {m : Message}

/-- A mailbox tells the epoch. -/
theorem Honest.rxId_inj (hG : G.Honest) {ep ep' : Epoch EphemeralKey} (hep : G.ValidEpoch ep)
    (hep' : G.ValidEpoch ep') : (G.sessionOf s ep).rxId = (G.sessionOf s ep').rxId ↔ ep = ep' :=
  ⟨fun h => (hG.distinct s s ep ep' hep hep' h).2, fun h => h ▸ rfl⟩

variable (hG : G.Honest) (h : G.Agrees s c p) (hf : G.Encodes f m) (hdest : m.dest = s)

include hG h hf hdest

theorem usedOldKey_iff : Repl.usedOldKey c f.mailboxId = true ↔ p.old = some m.epoch := by
  unfold Repl.usedOldKey
  rw [decide_eq_true_eq, h.oldId, hf.mailbox, hdest]
  cases hold : p.old with
  | none => simp
  | some ep =>
      rw [Option.map_some, Option.some.injEq, Option.some.injEq]
      exact hG.rxId_inj (h.validOld ep hold) hf.epoch

/-- The client listens to the mailbox of a packet when the party reads its epoch. -/
theorem listensTo_iff :
    AddressBook.listensTo f.mailboxId c = true ↔ p.Reads m.epoch := by
  have hold := usedOldKey_iff hG h hf hdest
  have hcur : c.rxMailboxId = f.mailboxId ↔ p.cur = m.epoch := by
    rw [hf.mailbox, hdest]
    rw [show c.rxMailboxId = (G.sessionOf s p.cur).rxId from congrArg DerivedMailboxes.rxId h.session]
    exact hG.rxId_inj h.validCur hf.epoch
  unfold AddressBook.listensTo Party.Reads
  rw [Bool.or_eq_true, decide_eq_true_eq, hcur]
  exact or_congr Iff.rfl hold

/-- The key that is selected for a packet is the key of its epoch. -/
theorem selectedKey_eq (hreads : p.Reads m.epoch) :
    Repl.selectedKey c f = (G.sessionOf s m.epoch).rxKey := by
  have hused := usedOldKey_iff hG h hf hdest
  unfold Repl.selectedKey Repl.keyToUse
  by_cases hold : p.old = some m.epoch
  · rw [hused.mpr hold, h.oldKey, hold]
    rfl
  · rw [Bool.eq_false_iff.mpr fun hu => hold (hused.mp hu)]
    rw [← hreads.resolve_right hold]
    exact congrArg DerivedMailboxes.rxKey h.session

theorem decrypt_packet (hreads : p.Reads m.epoch) :
    decryptAndUnpad G.sodium (Repl.selectedKey c f) f.payload = some (G.plain s.other m.body) := by
  obtain ⟨nonce, hct⟩ := hf.payload
  rw [hdest] at hct
  rw [selectedKey_eq hG h hf hdest hreads]
  exact decryptAndUnpad_encryptWithPadding hG.aead hct

end Routing

/-- The old mailbox is given up with the first packet in the current one. -/
theorem dropOldMailbox_leaves (hG : G.Honest) (h : G.Leaves s (r, c) p) {f : Frame} {m : Message}
    (hf : G.Encodes f m) (hdest : m.dest = s) (hconfirms : m.body.confirms = true) :
    G.Leaves s (r.dropOldMailbox (G.aliasName s) c (Repl.usedOldKey c f.mailboxId)) (p.hear m) := by
  have hused : Repl.usedOldKey c f.mailboxId = true ↔ p.old = some m.epoch :=
    usedOldKey_iff hG h.agrees hf hdest
  by_cases hold : p.old = some m.epoch
  · rw [Party.hear_eq_self (.inr hold), hused.mpr hold]
    exact h
  · rw [Party.hear_eq_giveUp hconfirms hold, Bool.eq_false_iff.mpr fun hu => hold (hused.mp hu)]
    unfold Repl.dropOldMailbox
    split
    · exact (h.print (.transitionConfirmed (G.aliasName s))).save rfl h.agrees.giveUp
    · next hnone =>
        have hpold : p.old = none := by
          rw [h.agrees.oldId] at hnone
          cases hp : p.old with
          | none => rfl
          | some ep => simp [hp] at hnone
        rw [Party.giveUp_eq_self hpold]
        exact h

/-- **What an incoming frame does**: nothing when its epoch is not read; otherwise the
old epoch may be given up, and the party reacts to the packet. -/
theorem onFrameReceived_client (hG : G.Honest) (h : G.Client s r p) {f : Frame} {m : Message}
    (hf : G.Encodes f m) (hdest : m.dest = s)
    (hack : ∀ e e', m.body = .ack e e' → p.pending = some e) :
    ∃ p', ((¬ p.Reads m.epoch ∧ p' = p) ∨ (p.Reads m.epoch ∧ G.Reacts s m.body (p.hear m) p')) ∧
      G.Client s (r.onFrameReceived (G.setup s) f) p' := by
  obtain ⟨c, hc, hagrees⟩ := h
  have hleaves : G.Leaves s (r, c) p := ⟨⟨c, hc, rfl⟩, hagrees⟩
  have hlistens := listensTo_iff hG hagrees hf hdest
  have hroute := AddressBook.getAliasByRxMailboxId_single hc.contacts f.mailboxId
  have haction := hf.action
  by_cases hreads : p.Reads m.epoch
  · rw [hlistens.mpr hreads, if_pos rfl] at hroute
    have hdec := decrypt_packet hG hagrees hf hdest hreads
    have hrouted : Repl.Routed r f (G.aliasName s) c := ⟨hroute, hG.named s, hc.getContact⟩
    cases hconfirms : m.body.confirms with
    | true =>
        have hpush : f.action = .push := by
          rw [haction]
          cases hb : m.body <;> rw [hb] at hconfirms <;> first | rfl | cases hconfirms
        rw [Repl.onFrameReceived_push hrouted hpush hdec]
        have hdrop := dropOldMailbox_leaves hG hleaves hf hdest hconfirms
        have hvalid := hf.body
        rw [hdest] at hvalid
        obtain ⟨p', hreacts, hp'⟩ := dispatch_leaves hG hdrop hvalid hconfirms
          (fun e e' hb => Party.hear_fields.2.1.trans (hack e e' hb))
        exact ⟨p', .inr ⟨hreads, hreacts⟩, hp'.put⟩
    | false =>
        -- a receipt only marks a message as delivered
        obtain ⟨content, hb⟩ : ∃ content, m.body = .receipt content := by
          cases hb : m.body with
          | receipt content => exact ⟨content, rfl⟩
          | _ => rw [hb] at hconfirms; cases hconfirms
        refine ⟨p, .inr ⟨hreads, ?_⟩, c, ?_, hagrees⟩
        · rw [hb, Party.hear_eq_self (.inl hconfirms)]
          rfl
        · rw [hb] at haction
          unfold Repl.onFrameReceived
          rw [if_neg (haction ▸ actionOf_ne_poll _)]
          dsimp only
          rw [hroute, if_neg (hG.named s), hc.getContact, haction]
          dsimp only [actionOf]
          unfold Repl.processAckFrame
          unfold Repl.selectedKey at hdec
          rw [show decryptAndUnpad (G.setup s).sodium _ f.payload = _ from hdec]
          exact hc.work rfl rfl rfl le_rfl rfl
  · refine ⟨p, .inl ⟨hreads, rfl⟩, c, ?_, hagrees⟩
    rw [Bool.eq_false_iff.mpr fun hl => hreads (hlistens.mp hl), if_neg (by decide)] at hroute
    unfold Repl.onFrameReceived
    rw [if_neg (haction ▸ actionOf_ne_poll _)]
    dsimp only
    rw [hroute, if_pos rfl]
    exact hc.work rfl rfl rfl le_rfl rfl

/-! ## Ticks, connections, restarts -/

theorem getNextFrameForCBR_send (h : G.Client s r p) {f : Frame} {frames : List Frame}
    (hout : r.outbox = f :: frames) :
    ∃ m rest, p.out = m :: rest ∧ G.Encodes f m ∧ r.getNextFrameForCBR.1 = f ∧
      G.Client s r.getNextFrameForCBR.2 { p with out := rest } := by
  obtain ⟨c, hc, hagrees⟩ := h
  have hencodes := hc.outbox
  rw [hout] at hencodes
  obtain ⟨m, rest, hfm, hrest, hpout⟩ := List.forall₂_cons_left_iff.mp hencodes
  have hnext : r.getNextFrameForCBR = (f, { r with outbox := frames }) := by
    unfold Repl.getNextFrameForCBR
    rw [hout]
  rw [hnext]
  refine ⟨m, rest, hpout, hfm, rfl, c, ?_, ?_⟩
  · refine ⟨hc.contacts, hc.file, hc.aliases, hc.draws, hrest, ?_⟩
    intro q hq
    exact hc.dest q (hpout ▸ List.mem_cons_of_mem _ hq)
  · exact ⟨hagrees.aliasName, hagrees.note, hagrees.peer, hagrees.complete, hagrees.session,
      hagrees.oldId, hagrees.oldKey, hagrees.state, hagrees.pending, hagrees.validCur,
      hagrees.validOld, hagrees.drawn⟩

/-- The mailboxes of a connected client are those of the epochs the party reads. -/
theorem activeMailboxes_reads (hc : G.Carries s r c out) (hagrees : G.Agrees s c p)
    (hconnected : r.connected = true) :
    r.activeMailboxes ≠ [] ∧ ∀ id ∈ r.activeMailboxes, ∃ ep, p.Reads ep ∧ G.ValidEpoch ep ∧
      id = (G.sessionOf s ep).rxId := by
  have hactive : r.activeMailboxes = c.rxMailboxId :: c.oldRxMailboxId.toList := by
    unfold Repl.activeMailboxes
    rw [hc.aliases hconnected, List.flatMap_cons, hc.getContact, List.flatMap_nil, List.append_nil]
  rw [hactive]
  refine ⟨List.cons_ne_nil _ _, ?_⟩
  intro id hid
  rcases List.mem_cons.mp hid with rfl | hid
  · exact ⟨p.cur, .inl rfl, hagrees.validCur, congrArg DerivedMailboxes.rxId hagrees.session⟩
  · rw [hagrees.oldId, Option.mem_toList, Option.map_eq_some_iff] at hid
    obtain ⟨ep, hep, rfl⟩ := hid
    exact ⟨ep, .inr hep, hagrees.validOld ep hep, rfl⟩

theorem getNextFrameForCBR_poll (h : G.Client s r p) (hconnected : r.connected = true)
    (hout : r.outbox = []) :
    ∃ ep, p.Reads ep ∧ G.ValidEpoch ep ∧
      r.getNextFrameForCBR.1 = Frame.createPoll (G.sessionOf s ep).rxId ∧
      G.Client s r.getNextFrameForCBR.2 p := by
  obtain ⟨c, hc, hagrees⟩ := h
  obtain ⟨hne, hreads⟩ := activeMailboxes_reads hc hagrees hconnected
  have hlt : (r.currentPollIndex + 1) % r.activeMailboxes.length < r.activeMailboxes.length :=
    Nat.mod_lt _ (List.length_pos_iff.mpr hne)
  obtain ⟨ep, hep, hvalid, hid⟩ := hreads _ (List.getElem_mem hlt)
  have hnext : r.getNextFrameForCBR = (Frame.createPoll (G.sessionOf s ep).rxId,
      { r with
        outbox := []
        currentPollIndex := (r.currentPollIndex + 1) % r.activeMailboxes.length }) := by
    unfold Repl.getNextFrameForCBR
    rw [hout, if_neg hne, ← hid]
    dsimp only
    rw [List.getD_eq_getElem _ _ hlt]
  rw [hnext]
  exact ⟨ep, hep, hvalid, rfl, c, hc.work rfl rfl rfl le_rfl hout.symm, hagrees⟩

/-- A connection does nothing to a contact that has its session. -/
theorem handleConnect_client (h : G.Client s r p) :
    G.Client s (r.handleConnect (G.setup s)) p := by
  obtain ⟨c, hc, hagrees⟩ := h
  have haliases : r.addressBook.getAllAliases = [G.aliasName s] := by
    unfold AddressBook.getAllAliases
    rw [hc.contacts]
    rfl
  let r₁ : Repl := { r.print .connectedToRelay with
    connected := true, contactAliases := [G.aliasName s] }
  have hc₁ : G.Carries s r₁ c p.out :=
    ⟨hc.contacts, hc.file, fun _ => rfl, hc.draws, hc.outbox, hc.dest⟩
  have heq : r.handleConnect (G.setup s) = r₁.putContact (G.aliasName s) c := by
    show Repl.startPendingInitialPfs (G.setup s)
      { r.print .connectedToRelay with
        connected := true, contactAliases := r.addressBook.getAllAliases } = _
    rw [haliases]
    show List.foldl _ r₁ [G.aliasName s] = _
    rw [List.foldl_cons, List.foldl_nil, hc₁.getContact]
    dsimp only
    rw [show r₁.maybeStartInitialPfs (G.setup s) (G.aliasName s) c = (r₁, c) by
      unfold Repl.maybeStartInitialPfs
      rw [if_pos (by simp [hagrees.complete])]]
  rw [heq]
  exact ⟨c, hc₁.put rfl, hagrees⟩

variable (G) in
/-- The contact can be read back from the file. -/
structure Readable : Prop where
  aliasName : ∀ s, acceptsString (G.aliasName s) = true
  note : ∀ s note, G.note s = some note → acceptsString note = true

/-- A restart keeps the session and loses the rest. -/
theorem restart_client (hread : G.Readable) (h : G.Client s r p) :
    G.Client s (r.restart (G.setup s)) p.restart := by
  obtain ⟨c, hc, hagrees⟩ := h
  obtain ⟨c₀, hfile, hsame⟩ := hc.file
  have halias : c₀.aliasName = G.aliasName s :=
    (congrArg Contact.aliasName hsame).trans hagrees.aliasName
  have hnote : c₀.note = G.note s := (congrArg Contact.note hsame).trans hagrees.note
  have haccepts : acceptsObject (contactObject c₀) = true := by
    refine acceptsObject_contactObject ?_ ?_
    · rw [halias]
      exact hread.aliasName s
    · rw [hnote]
      exact hread.note s
  refine ⟨AddressBook.persistent c, ?_, hagrees.restart⟩
  refine ⟨?_, ⟨c₀, hfile, hsame⟩, fun hconn => (by cases hconn), hc.draws, .nil,
    fun _ hq => (by cases hq)⟩
  show (AddressBook.initializeFrom G.sodium (G.identity s) r.addressBook.file).contacts = _
  rw [hfile, AddressBook.initializeFrom_single _ _ haccepts, hsame, halias]

end Setting

end BlankChat.Session
