import BlankChat.Cli.ContactInvariant
import BlankChat.Cli.Provenance
import BlankChat.Session.Handshake

/-!
# Whose words the screen shows

Two clients on a network that belongs to the relay, without any limit on what they do:
they add each other under any names and any number of times, rotate their sessions
whenever it is due, and restart. The relay replays, reorders, drops and relabels what it
has seen. A key with which a client reads has a key of its own as the last part of the
hash; one with which it writes has a key of its peer there. So nothing that a client has
written can be given back to it, and what it can open its peer has written.

Main results: `texts_authentic`, every text that is printed or recorded was typed by the
peer; `receipts_authentic`, a text is marked as delivered only if the peer has printed
one with the same id.
-/

namespace BlankChat.Session

open Lib BlankChat.Core Crypto Protocol Client Cli

/-! ## What is assumed of the library -/

namespace Duo

variable (D : Duo)

/-- A public key that the client uses in an exchange. -/
def KeyOf (s : Side) (b : PublicKeyType) : Prop :=
  D.exchangeKey s = some b ∨ ∃ k, D.Drawn s k ∧ k.publicKey = b

/-- A ciphertext opens under no other key and to nothing else, the hash of an exchange
tells which key comes second, and no public key belongs to both clients. -/
structure Sealed : Prop where
  aead : D.sodium.AeadIdeal
  hash : ∀ secret secret' a a' b b', D.OwnKey b → D.OwnKey b' →
    hashKey (extendedHash D.sodium secret a b) = hashKey (extendedHash D.sodium secret' a' b') →
      b = b'
  apart : ∀ b, D.KeyOf .left b → ¬ D.KeyOf .right b

/-- A key with which the client may read: one of its own keys comes last. -/
def Reads (s : Side) (key : SymmetricKey) : Prop :=
  ∃ secret a b, D.KeyOf s b ∧ key = hashKey (extendedHash D.sodium secret a b)

variable {D}

theorem Sealed.keyOf_unique (hD : D.Sealed) {s t : Side} {b : PublicKeyType} (hs : D.KeyOf s b)
    (ht : D.KeyOf t b) : s = t := by
  cases s with
  | left =>
      cases t with
      | left => rfl
      | right => exact absurd ht (hD.apart b hs)
  | right =>
      cases t with
      | left => exact absurd hs (hD.apart b ht)
      | right => rfl

/-- Nobody reads with the keys of the other. -/
theorem Sealed.reads_unique (hD : D.Sealed) {s t : Side} {key : SymmetricKey}
    (hs : D.Reads s key) (ht : D.Reads t key) : s = t := by
  obtain ⟨secret, a, b, hb, rfl⟩ := hs
  obtain ⟨secret', a', b', hb', heq⟩ := ht
  obtain rfl := hD.hash secret secret' a a' b b' ⟨s, hb⟩ ⟨t, hb'⟩ heq
  exact hD.keyOf_unique hb hb'

end Duo

/-! ## The keys of the contacts -/

/-- A contact for the peer: the client reads with its own keys, writes with those of the
peer, and has drawn what is pending. -/
structure Paired (D : Duo) (s : Side) (c : Contact) : Prop where
  peer : c.publicKey = (D.identity s.other).publicKey
  rx : D.Reads s c.rxKey
  tx : D.Reads s.other c.txKey
  old : ∀ key, c.oldRxKey = some key → D.Reads s key
  pending : ∀ k, c.pendingEphemeralKey = some k → D.Drawn s k

/-- What the clients do: they add each other, and rotate with the keys of each other. -/
def pairGuard (D : Duo) (s : Side) : Guard where
  answers := fun _ _ e => D.KeyOf s.other e
  completes := fun _ e => D.KeyOf s.other e
  adds := fun pk => pk = (D.identity s.other).publicKey

namespace Paired

variable {D : Duo} {s : Side} {c c' : Contact}

theorem withKeys (h : Paired D s c) {secret : ByteVec 32} {ours theirs : PublicKeyType}
    (hours : D.KeyOf s ours) (htheirs : D.KeyOf s.other theirs)
    (hsession : session c' = deriveMailboxes D.sodium secret ours theirs)
    (hpeer : c'.publicKey = c.publicKey)
    (hold : ∀ key, c'.oldRxKey = some key → D.Reads s key)
    (hpending : ∀ k, c'.pendingEphemeralKey = some k → c.pendingEphemeralKey = some k) :
    Paired D s c' where
  peer := hpeer.trans h.peer
  rx := ⟨secret, theirs, ours, hours, congrArg DerivedMailboxes.rxKey hsession⟩
  tx := ⟨secret, ours, theirs, htheirs, congrArg DerivedMailboxes.txKey hsession⟩
  old := hold
  pending k hk := h.pending k (hpending k hk)

theorem keepOld (h : Paired D s c) : Paired D s (keepOld c) := by
  unfold Cli.keepOld
  split
  · refine ⟨h.peer, h.rx, h.tx, ?_, h.pending⟩
    intro key hkey
    obtain rfl := Option.some.inj hkey
    exact h.rx
  · exact h

theorem change {o : Occasion} (hguard : o.guard = pairGuard D s)
    (hchange : ContactChange (D.setup s) o c c') (h : Paired D s c) : Paired D s c' := by
  cases hchange with
  | droppedOld => exact ⟨h.peer, h.rx, h.tx, fun _ => nofun, h.pending⟩
  | step hstep =>
      cases hstep with
      | @initiated n k hidle hlo hhi hk =>
          refine ⟨h.peer, h.rx, h.tx, h.old, ?_⟩
          intro k' hk'
          obtain rfl := Option.some.inj hk'
          exact ⟨n, hk⟩
      | @answered n k e sig secret hrole hsig hlo hhi hk hsecret hanswers =>
          rw [hguard] at hanswers
          have hkeep := h.keepOld
          exact hkeep.withKeys (.inr ⟨k, ⟨n, hk⟩, rfl⟩) hanswers rfl rfl hkeep.old fun _ hk => hk
      | keptOld => exact h.keepOld
      | @completed k e sig secret hstate hpending hsig hsecret hcompletes =>
          rw [hguard] at hcompletes
          exact h.withKeys (.inr ⟨k, h.pending k hpending, rfl⟩) hcompletes rfl rfl h.old
            fun _ => nofun

theorem bootstrap {a : Bytes} {d : DerivedMailboxes} (hd : D.bootstrap s = some d) :
    Paired D s (AddressBook.bootstrapContact a (D.identity s.other).publicKey none d) := by
  obtain ⟨ours, sk, theirs, secret, hours, -, htheirs, -, rfl⟩ := Duo.bootstrap_eq_some hd
  exact ⟨rfl, ⟨secret, theirs, ours, .inl hours, rfl⟩, ⟨secret, ours, theirs, .inl htheirs, rfl⟩,
    fun _ => nofun, fun _ => nofun⟩

theorem invariant (D : Duo) (s : Side) :
    ContactInvariant (D.setup s) (pairGuard D s) fun _ => Paired D s where
  mono _ _ _ _ hc := hc
  bootstrap _ a pk d hadds hd := by
    obtain rfl : pk = (D.identity s.other).publicKey := hadds
    exact .bootstrap hd
  change _ _ _ _ hguard hchange hc := hc.change hguard hchange
  counted _ _ hc := ⟨hc.peer, hc.rx, hc.tx, hc.old, hc.pending⟩
  persistent _ _ hc := ⟨hc.peer, hc.rx, hc.tx, fun _ => nofun, fun _ => nofun⟩

/-- The key that is selected for a frame is one with which the client may read. -/
theorem selectedKey (h : Paired D s c) (f : Frame) : D.Reads s (Repl.selectedKey c f) := by
  unfold Repl.selectedKey Repl.keyToUse
  split
  · next key _ hkey => exact h.old key hkey
  · exact h.rx

end Paired

/-! ## A hostile network without limits -/

namespace Wire

/-- A ciphertext that the client can open, in a frame of any kind, is one that a client
has sent. -/
def Genuine (D : Duo) (w : Wire) (s : Side) (f : Frame) : Prop :=
  ∀ a c plaintext, Repl.Routed (w.client s) f a c →
    decryptAndUnpad D.sodium (Repl.selectedKey c f) f.payload = some plaintext →
    ∃ t, ∃ g ∈ w.sent t, g.payload = f.payload

/-- What may happen: the clients add nobody but each other, and are given no forged
frames. -/
def Possible (D : Duo) (w : Wire) : Side × Input → Prop
  | (s, .add _ pk) => ∀ key, pk = some key → key = (D.identity s.other).publicKey
  | (s, .receive f) => w.Genuine D s f
  | _ => True

/-- The client has printed the text, at some point of the run. -/
def Printed (D : Duo) (moves : List (Side × Input)) (s : Side) (t : Bytes) : Prop :=
  ∃ begun, begun <+: moves ∧ ∃ a, .newMessage a t ∈ ((run D {} begun).client s).notices

/-- The user of the client has entered the text. -/
def Typed (moves : List (Side × Input)) (s : Side) (t : Bytes) : Prop :=
  ∃ a, (s, .send a t) ∈ moves

end Wire

section Provenance

variable {D : Duo} {s : Side} {w : Wire} {inp : Input} {typed printed : Side → Bytes → Prop}

/-- What a client means with an item. -/
def Meant (D : Duo) (typed printed : Side → Bytes → Prop) (s : Side) : Outgoing → Prop
  | .text t => typed s t
  | .receipt t => printed s t
  | .request k => D.Drawn s k
  | .ack _ k => D.Drawn s k

/-- The frame carries an item that the client means, under a key of the peer. -/
def Truthful (D : Duo) (typed printed : Side → Bytes → Prop) (s : Side) (f : Frame) : Prop :=
  ∃ i : Item, i.InFrame (D.setup s) f ∧ D.Reads s.other i.key ∧ Meant D typed printed s i.content

/-- The history of an alias: a text that came in was typed by the peer, and one that was
delivered has been printed by it. -/
structure Recorded (D : Duo) (typed printed : Side → Bytes → Prop) (s : Side)
    (e : CacheEntry) : Prop where
  hashed : ∃ t, e.id = hashPayload D.sodium t
  inbound : e.direction = .inbound → ∃ t, e.payload = buildTextMessage t ∧ typed s.other t
  delivered : e.direction = .outbound → e.status = .delivered →
    ∃ t, hashPayload D.sodium t = e.id ∧ printed s.other t

/-- What holds of a client and of the frames it has sent. -/
structure Trusted (D : Duo) (typed printed : Side → Bytes → Prop) (s : Side)
    (sent : List Frame) (r : Repl) : Prop where
  contacts : AllContacts (fun _ => Paired D s) r
  frames : ∀ f ∈ sent ++ r.outbox, Truthful D typed printed s f
  screen : ∀ a t, Notice.newMessage a t ∈ r.notices → typed s.other t
  history : ∀ a, ∀ e ∈ r.cache.lines a, Recorded D typed printed s e

/-- What is assumed of an input: it may happen, and what is entered and printed counts as
typed and printed. -/
structure Noted (D : Duo) (typed printed : Side → Bytes → Prop) (w : Wire)
    (m : Side × Input) : Prop where
  possible : w.Possible D m
  typed : ∀ a t, m.2 = .send a t → typed m.1 t
  printed : ∀ a t, .newMessage a t ∈ ((w.step D m).client m.1).notices → printed m.1 t

/-- **What a client can open its peer has written**, and meant. -/
theorem opened_meant (hD : D.Sealed) (h : ∀ s, Trusted D typed printed s (w.sent s) (w.client s))
    {f : Frame} (hgenuine : w.Genuine D s f) {a : Bytes} {c : Contact} {plaintext : Bytes}
    (hrouted : Repl.Routed (w.client s) f a c)
    (hdec : decryptAndUnpad D.sodium (Repl.selectedKey c f) f.payload = some plaintext) :
    ∃ i : Item, plaintext = i.content.plaintext (D.setup s.other) ∧
      Meant D typed printed s.other i.content := by
  obtain ⟨t, g, hg, hpayload⟩ := hgenuine a c plaintext hrouted hdec
  obtain ⟨i, ⟨nonce, ct, henc, rfl⟩, hkey, hmeant⟩ :=
    (h t).frames g (List.mem_append_left _ hg)
  have hct : ct = f.payload := hpayload
  rw [← hct] at hdec
  obtain ⟨hsame, hplain⟩ := decryptAndUnpad_ideal hD.aead henc hdec
  have hreads := ((h s).contacts.contacts a c hrouted.contact).2.selectedKey f
  rw [hsame] at hreads
  obtain rfl : s.other = t := by
    rw [hD.reads_unique hreads hkey, Side.other_other]
  exact ⟨i, hplain, hmeant⟩

theorem text_of_parse {E : Setup} {content : Outgoing} {t : Bytes}
    (h : parseTextMessage (content.plaintext E) = some t) : content = .text t := by
  have hplain := parseTextMessage_eq_some_iff.mp h
  have hop : extractOpcode (content.plaintext E) = some .textMessage := by
    rw [hplain]
    rfl
  cases content with
  | text t' =>
      have hcons : (0x01 : UInt8) :: t' = 0x01 :: t := hplain
      rw [(List.cons.inj hcons).2]
  | receipt t' => exact absurd (hop.symm.trans (extractOpcode_hashPayload _ _)) nofun
  | request k => exact absurd (hop.symm.trans (extractOpcode_buildPfsRotate _ _ _)) nofun
  | ack e k => exact absurd (hop.symm.trans (extractOpcode_buildPfsRotate _ _ _)) nofun

/-- An id is that of no message but a receipt. -/
theorem receipt_of_hash {E : Setup} {content : Outgoing} {t : Bytes}
    (h : content.plaintext E = hashPayload E.sodium t) : ∃ t', content = .receipt t' := by
  have hop : extractOpcode (content.plaintext E) = none := by
    rw [h]
    exact extractOpcode_hashPayload _ _
  cases content with
  | receipt t' => exact ⟨t', rfl⟩
  | text t' => exact absurd hop nofun
  | request k => exact absurd (hop.symm.trans (extractOpcode_buildPfsRotate _ _ _)) nofun
  | ack e k => exact absurd (hop.symm.trans (extractOpcode_buildPfsRotate _ _ _)) nofun

variable (hD : D.Sealed) (h : ∀ s, Trusted D typed printed s (w.sent s) (w.client s))
include hD h

theorem opened_push (hpossible : w.Possible D (s, inp)) {p : Repl × Contact} {plaintext : Bytes}
    (hopened : Repl.opened (D.setup s) (w.client s) inp = some (p, plaintext)) :
    ∃ i : Item, plaintext = i.content.plaintext (D.setup s.other) ∧
      Meant D typed printed s.other i.content := by
  cases inp with
  | receive f =>
      obtain ⟨a, c, hrouted, -, hdec, -⟩ := Repl.opened_routed hopened
      exact opened_meant hD h hpossible hrouted hdec
  | _ => cases hopened

/-- A text that is accepted was typed by the peer. -/
theorem accepted_typed (hpossible : w.Possible D (s, inp)) {a t : Bytes}
    (haccepted : (w.client s).acceptedText (D.setup s) inp = some (a, t)) :
    typed s.other t := by
  cases inp with
  | receive f =>
      obtain ⟨⟨p, plaintext⟩, hopened, htext⟩ := Option.bind_eq_some_iff.mp haccepted
      dsimp only at htext
      split at htext
      · obtain ⟨t', hparse, heq⟩ := Option.map_eq_some_iff.mp htext
        obtain ⟨-, rfl⟩ := Prod.mk.inj heq
        obtain ⟨i, rfl, hmeant⟩ := opened_push hD h hpossible hopened
        rw [text_of_parse hparse] at hmeant
        exact hmeant
      · cases htext
  | _ => cases haccepted

theorem guardOf_le_pairGuard (hpossible : w.Possible D (s, inp)) :
    (Repl.guardOf (D.setup s) (w.client s) inp).Le (pairGuard D s) where
  answers c k e hanswering := by
    obtain ⟨⟨p, plaintext⟩, hopened, hmap⟩ := Option.bind_eq_some_iff.mp hanswering
    obtain ⟨⟨k', e'⟩, hanswer, heq⟩ := Option.map_eq_some_iff.mp hmap
    obtain ⟨-, hpair⟩ := Prod.mk.inj heq
    obtain ⟨rfl, rfl⟩ := Prod.mk.inj hpair
    obtain ⟨i, rfl, hmeant⟩ := opened_push hD h hpossible hopened
    obtain ⟨req, hreq, -, he⟩ := Repl.answer_eq_some hanswer
    obtain ⟨k₀, hk₀, hpub⟩ := requestKey_of_parse hreq
    unfold requestKey at hk₀
    split at hk₀
    · next hcontent =>
        obtain rfl := Option.some.inj hk₀
        rw [hcontent] at hmeant
        exact .inr ⟨_, hmeant, (he.trans hpub).symm⟩
    · cases hk₀
  completes c e hcompleting := by
    obtain ⟨⟨p, plaintext⟩, hopened, hmap⟩ := Option.bind_eq_some_iff.mp hcompleting
    obtain ⟨ack, hack, heq⟩ := Option.map_eq_some_iff.mp hmap
    obtain ⟨-, rfl⟩ := Prod.mk.inj heq
    obtain ⟨i, rfl, hmeant⟩ := opened_push hD h hpossible hopened
    obtain ⟨⟨e₀, k₀⟩, hk₀, hpub⟩ := ackKeys_of_parse hack
    unfold ackKeys at hk₀
    split at hk₀
    · next hcontent =>
        obtain ⟨rfl, rfl⟩ := Prod.mk.inj (Option.some.inj hk₀)
        rw [hcontent] at hmeant
        exact .inr ⟨_, hmeant, hpub.symm⟩
    · cases hk₀
  adds pk hadds := by
    obtain ⟨a, rfl⟩ := hadds
    exact hpossible pk rfl

theorem step_contacts (hpossible : w.Possible D (s, inp)) :
    AllContacts (fun _ => Paired D s) ((w.client s).step (D.setup s) inp) := by
  have hactions : GuardedActions (D.setup s) (pairGuard D s) (w.client s)
      ((w.client s).step (D.setup s) inp) :=
    Relation.ReflTransGen.mono
      (fun _ _ haction => haction.mono (guardOf_le_pairGuard hD h hpossible)) _ _
      (Repl.step_actions _ _)
  exact Repl.actions_induction (fun _ _ haction hr => hr.action (Paired.invariant D s) haction)
    hactions (h s).contacts

omit hD in
/-- What a client has a reason to send it means. -/
theorem justified_truthful (hnoted : Noted D typed printed w (s, inp)) {i : Item}
    (hi : Justified (D.setup s) (w.client s) inp i) :
    D.Reads s.other i.key ∧ Meant D typed printed s i.content := by
  have htx : ∀ {a c}, (w.client s).addressBook.getContact a = some c →
      D.Reads s.other c.txKey := fun hc => ((h s).contacts.contacts _ _ hc).2.tx
  cases hi with
  | text hsend hc => exact ⟨htx hc, hnoted.typed _ _ hsend⟩
  | @receipt a t c haccepted hc =>
      refine ⟨htx hc, hnoted.printed a t ?_⟩
      show _ ∈ (Function.update w.client s _ s).notices
      rw [Function.update_self]
      exact Repl.acceptedText_printed haccepted
  | request hk hc =>
      rcases hc with hc | ⟨pk, d, rfl, hd, rfl⟩
      · exact ⟨htx hc, _, hk⟩
      · obtain rfl := hnoted.possible pk rfl
        exact ⟨(Paired.bootstrap (a := []) hd).tx, _, hk⟩
  | ack hk hanswers hc => exact ⟨htx hc, _, hk⟩

theorem step_recorded (hnoted : Noted D typed printed w (s, inp)) (a : Bytes) :
    ∀ e ∈ ((w.client s).step (D.setup s) inp).cache.lines a, Recorded D typed printed s e := by
  have hold := (h s).history a
  have hrecords := Repl.step_records (E := D.setup s) (w.client s) inp
  generalize ((w.client s).step (D.setup s) inp).cache = cache at hrecords
  intro e he
  cases hrecords with
  | same => exact hold e he
  | @sent a' t timestamp hsend =>
      rcases ConversationCache.mem_lines_appendMessage he with he | rfl
      · exact hold e he
      · exact ⟨⟨t, rfl⟩, nofun, fun _ => nofun⟩
  | @received a' t timestamp haccepted =>
      rcases ConversationCache.mem_lines_appendMessage he with he | rfl
      · exact hold e he
      · exact ⟨⟨t, rfl⟩, fun _ => ⟨t, rfl, accepted_typed hD h hnoted.possible haccepted⟩, nofun⟩
  | @acked f a' id c hreceive hrouted hdec =>
      subst hreceive
      rcases ConversationCache.mem_lines_updateMessageStatus he with he | ⟨e₀, he₀, hid, rfl⟩
      · exact hold e he
      · obtain ⟨hhashed, hinbound, -⟩ := hold e₀ he₀
        refine ⟨hhashed, hinbound, fun _ _ => ?_⟩
        -- the id is the hash of a text, so the ciphertext is a receipt of the peer
        obtain ⟨i, hplain, hmeant⟩ := opened_meant hD h hnoted.possible hrouted hdec
        obtain ⟨t, ht⟩ := hhashed
        obtain ⟨t', hreceipt⟩ := receipt_of_hash (E := D.setup s.other)
          (hplain.symm.trans (hid.symm.trans ht))
        rw [hreceipt] at hplain hmeant
        exact ⟨t', hplain.symm.trans hid.symm, hmeant⟩

theorem step_trusted (hnoted : Noted D typed printed w (s, inp)) :
    Trusted D typed printed s (w.sent s ++ Wire.emitted (w.client s) inp)
      ((w.client s).step (D.setup s) inp) := by
  have hemits := Repl.step_emits (E := D.setup s) (w.client s) inp
  refine ⟨step_contacts hD h hnoted.possible, ?_, ?_, ?_⟩
  · intro f hf
    have hold : f ∈ w.sent s ++ (w.client s).outbox → Truthful D typed printed s f :=
      (h s).frames f
    rw [List.append_assoc, List.mem_append, List.mem_append] at hf
    rcases hf with hf | hf | hf
    · exact hold (List.mem_append_left _ hf)
    · refine hold (List.mem_append_right _ ?_)
      cases inp with
      | tick => exact List.mem_of_mem_take hf
      | _ => cases hf
    · rcases hemits.frames f hf with hf | ⟨i, hframe, hi⟩
      · exact hold (List.mem_append_right _ hf)
      · exact ⟨i, hframe, justified_truthful h hnoted hi⟩
  · intro a t ht
    rcases hemits.texts a t ht with ht | haccepted
    · exact (h s).screen a t ht
    · exact accepted_typed hD h hnoted.possible haccepted
  · exact fun a => step_recorded hD h hnoted a

theorem wire_step_trusted {m : Side × Input} (hnoted : Noted D typed printed w m) (s : Side) :
    Trusted D typed printed s ((w.step D m).sent s) ((w.step D m).client s) := by
  obtain ⟨t, inp⟩ := m
  by_cases hs : s = t
  · subst hs
    have hstep := step_trusted hD h hnoted
    unfold Wire.step
    dsimp only
    rw [Function.update_self, Function.update_self]
    exact hstep
  · unfold Wire.step
    dsimp only
    rw [Function.update_of_ne hs, Function.update_of_ne hs]
    exact h s

end Provenance

/-! ## The main results -/

theorem run_trusted {D : Duo} (hD : D.Sealed) {moves : List (Side × Input)}
    (hmoves : Run.Along (Wire.step D) (Wire.Possible D) {} moves) (s : Side) :
    Trusted D (Wire.Typed moves) (Wire.Printed D moves) s ((Wire.run D {} moves).sent s)
      ((Wire.run D {} moves).client s) := by
  have htyped : Run.Along (Wire.step D)
      (fun _ m => ∀ a t, m.2 = .send a t → Wire.Typed moves m.1 t) {} moves := by
    refine Run.along_of_forall_mem ?_
    rintro w ⟨s, inp⟩ hm a t rfl
    exact ⟨a, hm⟩
  have hprinted : Run.Along (Wire.step D) (fun w m => ∀ a t,
      .newMessage a t ∈ ((w.step D m).client m.1).notices → Wire.Printed D moves m.1 t) {}
      moves := by
    refine Run.along_of_beginnings ?_
    intro begun m hbegun a t ht
    refine ⟨begun ++ [m], hbegun, a, ?_⟩
    unfold Wire.run
    rw [List.foldl_append]
    exact ht
  have hnoted := (hmoves.and (htyped.and hprinted)).induction
    (P := fun w => ∀ s, Trusted D (Wire.Typed moves) (Wire.Printed D moves) s (w.sent s)
      (w.client s))
    (fun w m hm hw => wire_step_trusted hD hw ⟨hm.1, hm.2.1, hm.2.2⟩) ?_
  · exact hnoted s
  · intro s
    refine ⟨⟨fun a c hc => ?_, [], rfl, List.forall_mem_nil _⟩, List.forall_mem_nil _,
      fun a t => nofun, fun a => List.forall_mem_nil _⟩
    cases hc

/-- **The screen and the history show the words of the peer.** However the relay replays,
reorders, drops or relabels frames, and through any number of rotations, restarts and
repeated additions of the contact: a text that is printed was typed by the user of the
other client, and so was every text in the history that counts as received. -/
theorem texts_authentic (D : Duo) (hD : D.Sealed) (moves : List (Side × Input))
    (hmoves : Run.Along (Wire.step D) (Wire.Possible D) {} moves) (s : Side) (a : Bytes) :
    (∀ t, .newMessage a t ∈ ((Wire.run D {} moves).client s).notices →
      Wire.Typed moves s.other t) ∧
    ∀ e ∈ ((Wire.run D {} moves).client s).cache.lines a, e.direction = .inbound →
      ∃ t, e.payload = buildTextMessage t ∧ Wire.Typed moves s.other t := by
  have h := run_trusted hD hmoves s
  exact ⟨h.screen a, fun e he => (h.history a e he).inbound⟩

/-! ### A relay that replays -/

/-- The first byte of a public key tells to whom it belongs. -/
theorem toyDuo_keyOf {s : Side} {pk : PublicKeyType} (h : toyDuo.KeyOf s pk) :
    ∃ b : UInt8, pk = toyKey b ∧ (s = .left ↔ b ≠ 2 ∧ b < 64) := by
  have hleft : ∀ n < 32, (16 : UInt8) + UInt8.ofNat n ≠ 2 ∧ (16 : UInt8) + UInt8.ofNat n < 64 := by
    decide
  have hright : ∀ n < 32, ¬ (64 : UInt8) + UInt8.ofNat n < 64 := by decide
  cases s with
  | left =>
      rcases h with h | ⟨k, ⟨n, hk⟩, rfl⟩
      · exact ⟨1, (Option.some.inj h).symm, by decide⟩
      · obtain ⟨hn, rfl⟩ :=
          toySetup_keypair (show (toySetup 1 16 1).tape.keypair n = some k from hk)
        exact ⟨_, rfl, iff_of_true rfl (hleft n hn)⟩
  | right =>
      rcases h with h | ⟨k, ⟨n, hk⟩, rfl⟩
      · exact ⟨2, (Option.some.inj h).symm, by decide⟩
      · obtain ⟨hn, rfl⟩ :=
          toySetup_keypair (show (toySetup 2 64 0).tape.keypair n = some k from hk)
        exact ⟨_, rfl, iff_of_false nofun fun hlt => hright n hn hlt.2⟩

theorem toyDuo_sealed : toyDuo.Sealed where
  aead := toyDuo_ideal.aead
  hash := toyDuo_ideal.hash
  apart := by
    intro pk hleft hright
    obtain ⟨b, hb, hside⟩ := toyDuo_keyOf hleft
    obtain ⟨b', hb', hside'⟩ := toyDuo_keyOf hright
    obtain rfl : b = b' := congrArg (fun v => v.toList.getD 0 0) (hb.symm.trans hb')
    exact absurd (hside'.mpr (hside.mp rfl)) nofun

/-- A relay that gives what it has seen to anybody, under any label and any number of
times. -/
def Wire.Replays (D : Duo) (w : Wire) : Side × Input → Prop
  | (s, .add _ pk) => pk = some (D.identity s.other).publicKey
  | (_, .receive f) => ∃ g ∈ w.sent .left ++ w.sent .right, g.payload = f.payload
  | _ => True

instance (D : Duo) (w : Wire) : (m : Side × Input) → Decidable (w.Replays D m)
  | (_, .add _ _) => inferInstanceAs (Decidable (_ = _))
  | (_, .receive _) => inferInstanceAs (Decidable (∃ g ∈ _, _))
  | (_, .connect) => inferInstanceAs (Decidable True)
  | (_, .tick) => inferInstanceAs (Decidable True)
  | (_, .send _ _) => inferInstanceAs (Decidable True)
  | (_, .restart) => inferInstanceAs (Decidable True)

theorem Wire.Replays.possible {D : Duo} {w : Wire} {m : Side × Input} (h : w.Replays D m) :
    w.Possible D m := by
  obtain ⟨s, inp⟩ := m
  cases inp with
  | add a pk =>
      intro key hkey
      exact Option.some.inj (hkey.symm.trans h)
  | receive f =>
      rintro a c plaintext - -
      obtain ⟨g, hg, hpayload⟩ := h
      rcases List.mem_append.mp hg with hg | hg
      · exact ⟨.left, g, hg, hpayload⟩
      · exact ⟨.right, g, hg, hpayload⟩
  | _ => trivial

/-- Alice writes; Bob gets the text once as it is and once as an acknowledgement, restarts,
and gets it again; then its receipt goes back. -/
def toyTalk : List (Side × Input) :=
  let written := toyHandshake ++
    [(Side.left, Input.send (ascii "bob") (ascii "hi")), (Side.left, Input.tick)]
  let texts := ((Wire.run toyDuo {} written).sent .left).drop 1
  let read := written ++ texts.map (fun f => (Side.right, Input.receive f)) ++
    texts.map (fun f => (Side.right, Input.receive { f with action := .ack })) ++
    [(Side.right, Input.restart), (Side.right, Input.connect)] ++
    texts.map (fun f => (Side.right, Input.receive f)) ++ [(Side.right, Input.tick)]
  let receipts := ((Wire.run toyDuo {} read).sent .right).drop 1
  read ++ receipts.map fun f => (Side.left, Input.receive f)

theorem toyTalk_replays : Run.Along (Wire.step toyDuo) (Wire.Replays toyDuo) {} toyTalk := by
  decide +kernel

theorem toyTalk_possible : Run.Along (Wire.step toyDuo) (Wire.Possible toyDuo) {} toyTalk :=
  toyTalk_replays.mono (P := fun _ => True) (fun _ _ _ _ => trivial) trivial
    fun _ _ _ hm => hm.possible

/-- What Bob reads Alice has typed. -/
theorem texts_authentic_toy :
    .newMessage (ascii "alice") (ascii "hi") ∈ ((Wire.run toyDuo {} toyTalk).client .right).notices ∧
      Wire.Typed toyTalk .left (ascii "hi") := by
  have hshown : .newMessage (ascii "alice") (ascii "hi") ∈
      ((Wire.run toyDuo {} toyTalk).client .right).notices := by decide +kernel
  exact ⟨hshown, (texts_authentic toyDuo toyDuo_sealed toyTalk toyTalk_possible .right
    (ascii "alice")).1 (ascii "hi") hshown⟩

/-- **A text is delivered when the peer has seen it.** Whatever the relay does, an entry
of the history is marked as delivered only if the other client has printed a text with
the same id. -/
theorem receipts_authentic (D : Duo) (hD : D.Sealed) (moves : List (Side × Input))
    (hmoves : Run.Along (Wire.step D) (Wire.Possible D) {} moves) (s : Side) (a : Bytes) :
    ∀ e ∈ ((Wire.run D {} moves).client s).cache.lines a, e.direction = .outbound →
      e.status = .delivered →
      ∃ t, hashPayload D.sodium t = e.id ∧ Wire.Printed D moves s.other t :=
  fun e he => ((run_trusted hD hmoves s).history a e he).delivered

/-- The text of Alice is delivered, and Bob has printed it. -/
theorem receipts_authentic_toy :
    ∃ e ∈ ((Wire.run toyDuo {} toyTalk).client .left).cache.lines (ascii "bob"),
      e.direction = .outbound ∧ e.status = .delivered ∧
      ∃ t, hashPayload toyDuo.sodium t = e.id ∧ Wire.Printed toyDuo toyTalk .right t := by
  have hdelivered : ∃ e ∈ ((Wire.run toyDuo {} toyTalk).client .left).cache.lines (ascii "bob"),
      e.direction = .outbound ∧ e.status = .delivered := by decide +kernel
  obtain ⟨e, he, hdir, hstatus⟩ := hdelivered
  exact ⟨e, he, hdir, hstatus, receipts_authentic toyDuo toyDuo_sealed toyTalk toyTalk_possible
    .left (ascii "bob") e he hdir hstatus⟩

end BlankChat.Session
