import BlankChat.Cli.Action
import BlankChat.Lib.Correspondence
import BlankChat.Lib.Handshake
import BlankChat.Session.World
import Mathlib.Data.List.Lex

/-!
# The initial handshake on a hostile network

Two clients add each other, connect, tick and try to send at any time. The network
belongs to the relay: it gives a client any frame, with any action and any mailbox id,
as long as a ciphertext that the client accepts was made by one of the two.

Each client follows its party of `Lib.Handshake`. `Shows` relates the two: the contact
shows the state of the party, and the frames queued so far show what it has sent.

Main result: `handshake_agreement`.
-/

namespace BlankChat.Session

open Lib Lib.Handshake BlankChat.Core Crypto Protocol Client Cli

/-! ## What is assumed of the library -/

namespace Duo

variable (D : Duo)

/-- The public key of an identity in the form that exchanges use. -/
def exchangeKey (s : Side) : Option PublicKeyType :=
  (D.identity s).getCurve25519PublicKey D.sodium

/-- The key pair is drawn from the tape of the client. -/
def Drawn (s : Side) (k : EphemeralKey) : Prop := ∃ n, (D.tape s).keypair n = some k

/-- A public key that one of the clients uses in an exchange. -/
def OwnKey (b : PublicKeyType) : Prop :=
  ∃ s, D.exchangeKey s = some b ∨ ∃ k, D.Drawn s k ∧ k.publicKey = b

/-- The session that a client derives when it adds the other. -/
def bootstrap (s : Side) : Option DerivedMailboxes :=
  derivePairwiseMailboxes D.sodium (D.identity s) (D.identity s.other).publicKey

/-- The client has the smaller public key. -/
def First (s : Side) : Prop :=
  (D.identity s).publicKey.toList.map UInt8.toNat <
    (D.identity s.other).publicKey.toList.map UInt8.toNat

/-- Ideal cryptography: AEAD decryption inverts encryption and a ciphertext opens under
no other key and to nothing else, scalar multiplication commutes, the hash of an exchange
tells which key comes second, and no key pair drawn is that of an identity. -/
structure Ideal : Prop where
  correct : D.sodium.AeadCorrect
  aead : D.sodium.AeadIdeal
  identities : ∀ sk pk sk' pk', (D.identity .left).getCurve25519SecretKey D.sodium = some sk →
    (D.identity .right).getCurve25519SecretKey D.sodium = some sk' →
    D.exchangeKey .left = some pk → D.exchangeKey .right = some pk' →
    D.sodium.cryptoScalarmult sk pk' = D.sodium.cryptoScalarmult sk' pk
  exchanges : ∀ k k', D.Drawn .left k → D.Drawn .right k' →
    D.sodium.cryptoScalarmult k.secretKey k'.publicKey =
      D.sodium.cryptoScalarmult k'.secretKey k.publicKey
  hash : ∀ secret secret' a a' b b', D.OwnKey b → D.OwnKey b' →
    hashKey (extendedHash D.sodium secret a b) = hashKey (extendedHash D.sodium secret' a' b') →
      b = b'
  fresh : ∀ s t k, D.Drawn s k → D.exchangeKey t ≠ some k.publicKey

variable {D}

theorem Ideal.exchange_comm (hD : D.Ideal) {s : Side} {k k' : EphemeralKey} (hk : D.Drawn s k)
    (hk' : D.Drawn s.other k') :
    D.sodium.cryptoScalarmult k.secretKey k'.publicKey =
      D.sodium.cryptoScalarmult k'.secretKey k.publicKey := by
  cases s with
  | left => exact hD.exchanges k k' hk hk'
  | right => exact (hD.exchanges k' k hk' hk).symm

theorem bootstrap_eq_some {s : Side} {d : DerivedMailboxes} (h : D.bootstrap s = some d) :
    ∃ ours sk theirs secret, D.exchangeKey s = some ours ∧
      (D.identity s).getCurve25519SecretKey D.sodium = some sk ∧
      D.exchangeKey s.other = some theirs ∧ D.sodium.cryptoScalarmult sk theirs = some secret ∧
      d = deriveMailboxes D.sodium secret ours theirs :=
  derivePairwiseMailboxes_eq_some h

theorem Ideal.bootstrap_mirrored (hD : D.Ideal) {d d' : DerivedMailboxes}
    (h : D.bootstrap .left = some d) (h' : D.bootstrap .right = some d') : d = d'.swap := by
  obtain ⟨ours, sk, theirs, secret, hours, hsk, htheirs, hsecret, rfl⟩ := bootstrap_eq_some h
  obtain ⟨ours', sk', theirs', secret', hours', hsk', htheirs', hsecret', rfl⟩ :=
    bootstrap_eq_some h'
  obtain rfl := Option.some.inj (hours.symm.trans htheirs')
  obtain rfl := Option.some.inj (htheirs.symm.trans hours')
  have hcomm := hD.identities sk ours sk' theirs hsk hsk' hours htheirs
  obtain rfl := Option.some.inj (hsecret.symm.trans (hcomm.trans hsecret'))
  rfl

/-- The handshake of two clients, started by `i`. -/
def scheme (hD : D.Ideal) (i : Side) : Scheme EphemeralKey PublicKeyType where
  pub := EphemeralKey.publicKey
  Combines := fun k e => D.sodium.cryptoScalarmult k.secretKey e ≠ none
  OfInitiator := D.Drawn i
  OfResponder := D.Drawn i.other
  combines_comm := fun _ _ hk hk' => by rw [hD.exchange_comm hk hk']

end Duo

/-! ## Two clients and a hostile network -/

/-- The clients, and the frames other than polls that each has sent. -/
structure Wire : Type where
  client : Side → Repl := fun _ => {}
  sent : Side → List Frame := fun _ => []

namespace Wire

/-- The frame that an input takes from the outbox. -/
def emitted (r : Repl) : Input → List Frame
  | .tick => r.outbox.take 1
  | _ => []

/-- One client gets an input. -/
def step (D : Duo) (w : Wire) (m : Side × Input) : Wire where
  client := Function.update w.client m.1 ((w.client m.1).step (D.setup m.1) m.2)
  sent := Function.update w.sent m.1 (w.sent m.1 ++ emitted (w.client m.1) m.2)

def run (D : Duo) (w : Wire) (moves : List (Side × Input)) : Wire := moves.foldl (step D) w

def contact (D : Duo) (w : Wire) (s : Side) : Option Contact :=
  (w.client s).addressBook.getContact (D.aliasName s)

/-- All frames other than polls that a client has ever queued. -/
def queued (w : Wire) (s : Side) : List Frame := w.sent s ++ (w.client s).outbox

/-- A ciphertext that the client accepts is one that a client has sent. -/
def Unforged (D : Duo) (w : Wire) (s : Side) (f : Frame) : Prop :=
  Repl.opened (D.setup s) (w.client s) (.receive f) ≠ none →
    ∃ t, ∃ g ∈ w.sent t, g.payload = f.payload

/-- What may happen: the client adds the other once, sends as long as this starts no
periodic rotation, and is given frames that are not forged; it does not restart. -/
def Allowed (D : Duo) (w : Wire) : Side × Input → Prop
  | (s, .add a pk) =>
      a = D.aliasName s ∧ pk = some (D.identity s.other).publicKey ∧ w.contact D s = none
  | (s, .send a text) => ∀ c, ¬ Repl.Rotates (D.setup s) (w.client s) (.send a text) c
  | (s, .receive f) => w.Unforged D s f
  | (_, .connect) => True
  | (_, .tick) => True
  | (_, .restart) => False

/-- The frame is an encrypted PFS_ROTATE_REQUEST. -/
def IsRequest (D : Duo) (f : Frame) : Prop :=
  ∃ key nonce e sig,
    encryptWithPadding D.sodium key nonce (buildPfsRotateRequest e sig) = some f.payload

end Wire

/-! ## Clients and parties -/

abbrev ClientParty : Type := Party EphemeralKey PublicKeyType

/-- The key of a request. -/
def requestKey (i : Item) : Option EphemeralKey :=
  match i.content with
  | .request k => some k
  | _ => none

/-- The two keys of an acknowledgement. -/
def ackKeys (i : Item) : Option (PublicKeyType × EphemeralKey) :=
  match i.content with
  | .ack e k => some (e, k)
  | _ => none

/-- The frames carry these requests, all of them in the bootstrap session, and these
acknowledgements. -/
def Says (D : Duo) (s : Side) (frames : List Frame) (requests : List EphemeralKey)
    (acks : List (PublicKeyType × EphemeralKey)) : Prop :=
  ∃ items, List.Forall₂ (Item.InFrame (D.setup s)) frames items ∧
    items.filterMap requestKey = requests ∧ items.filterMap ackKeys = acks ∧
    ∀ i ∈ items, requestKey i ≠ none → ∃ d, D.bootstrap s = some d ∧ i.key = d.txKey

/-- The contact shows the state of the party. -/
structure Follows (D : Duo) (s : Side) (c : Contact) (p : ClientParty) : Prop where
  peer : c.publicKey = (D.identity s.other).publicKey
  old : c.oldRxMailboxId = none
  state : c.pfsState = if p.pending.isSome then .rotationRequested else .idle
  pending : c.pendingEphemeralKey = p.pending
  drawn : ∀ k, p.pending = some k → D.Drawn s k
  early : p.keys = none → c.initialPfsComplete = false ∧ D.bootstrap s = some (session c)
  complete : ∀ k e, p.keys = some (k, e) → c.initialPfsComplete = true ∧ D.Drawn s k ∧
    ∃ secret, D.sodium.cryptoScalarmult k.secretKey e = some secret ∧
      session c = deriveMailboxes D.sodium secret k.publicKey e

/-- A client that has sent some frames shows the state of a party. -/
structure Shows (D : Duo) (s : Side) (sent : List Frame) (r : Repl) (p : ClientParty) : Prop where
  history : Says D s (sent ++ r.outbox) p.requests p.acks
  contacts : ∀ a c, r.addressBook.getContact a = some c → a = D.aliasName s ∧ Follows D s c p
  absent : r.addressBook.getContact (D.aliasName s) = none → p.pending = none ∧ p.keys = none

section Parties

variable {D : Duo} {s : Side} {sent frames fs : List Frame} {r r' : Repl} {c c' : Contact}
  {p p' : ClientParty} {items : List Item} {requests : List EphemeralKey}
  {acks : List (PublicKeyType × EphemeralKey)}

theorem Says.append (h : Says D s frames requests acks)
    (hitems : List.Forall₂ (Item.InFrame (D.setup s)) fs items)
    (hkey : ∀ i ∈ items, requestKey i ≠ none → ∃ d, D.bootstrap s = some d ∧ i.key = d.txKey) :
    Says D s (frames ++ fs) (requests ++ items.filterMap requestKey)
      (acks ++ items.filterMap ackKeys) := by
  obtain ⟨items₀, hframes, rfl, rfl, hkey₀⟩ := h
  refine ⟨items₀ ++ items, List.rel_append hframes hitems, List.filterMap_append,
    List.filterMap_append, ?_⟩
  intro i hi
  rcases List.mem_append.mp hi with hi | hi
  · exact hkey₀ i hi
  · exact hkey i hi

theorem filterMap_plain (h : ∀ i ∈ items, i.IsReceipt ∨ ∃ t, i.content = .text t) :
    items.filterMap requestKey = [] ∧ items.filterMap ackKeys = [] := by
  constructor
  · refine List.filterMap_eq_nil_iff.mpr ?_
    intro i hi
    unfold requestKey
    rcases h i hi with ⟨t, ht⟩ | ⟨t, ht⟩ <;> rw [ht]
  · refine List.filterMap_eq_nil_iff.mpr ?_
    intro i hi
    unfold ackKeys
    rcases h i hi with ⟨t, ht⟩ | ⟨t, ht⟩ <;> rw [ht]

theorem Follows.of_eq (h : Follows D s c p) (hpending : p'.pending = p.pending)
    (hkeys : p'.keys = p.keys) : Follows D s c p' := by
  refine ⟨h.peer, h.old, ?_, ?_, ?_, ?_, ?_⟩
  · rw [hpending]
    exact h.state
  · rw [hpending]
    exact h.pending
  · rw [hpending]
    exact h.drawn
  · rw [hkeys]
    exact h.early
  · rw [hkeys]
    exact h.complete

/-- The counter of the contact does not matter, nor does a key of no old mailbox. -/
theorem Follows.counted (h : Follows D s c p) : Follows D s (counted c) p :=
  ⟨h.peer, h.old, h.state, h.pending, h.drawn, h.early, h.complete⟩

theorem Follows.droppedOld (h : Follows D s c p) : Follows D s (droppedOld c) p :=
  ⟨h.peer, rfl, h.state, h.pending, h.drawn, h.early, h.complete⟩

theorem Follows.keys_eq_none (h : Follows D s c p) (hearly : c.initialPfsComplete = false) :
    p.keys = none := by
  cases hkeys : p.keys with
  | none => rfl
  | some q =>
      obtain ⟨k, e⟩ := q
      exact absurd (hearly.symm.trans (h.complete k e hkeys).1) (by decide)

theorem Follows.initiated (h : Follows D s c p) {k : EphemeralKey} (hk : D.Drawn s k) :
    Follows D s (initiated c k) (p.request k) where
  peer := h.peer
  old := h.old
  state := rfl
  pending := rfl
  drawn k' hk' := by
    obtain rfl := Option.some.inj hk'
    exact hk
  early := h.early
  complete := h.complete

theorem Follows.answered (h : Follows D s c p) (hearly : c.initialPfsComplete = false)
    (hpending : c.pendingEphemeralKey = none) {k : EphemeralKey} {e : PublicKeyType}
    {secret : ByteVec 32} (hk : D.Drawn s k)
    (hsecret : D.sodium.cryptoScalarmult k.secretKey e = some secret) :
    Follows D s (answered c (deriveMailboxes D.sodium secret k.publicKey e)) (p.answer e k) := by
  have hnone : p.pending = none := h.pending.symm.trans hpending
  have hkeep : keepOld c = c := by rw [keepOld, if_neg (by rw [hearly]; decide)]
  unfold Cli.answered
  rw [hkeep, hearly]
  refine ⟨h.peer, h.old, ?_, h.pending, h.drawn, (fun hkeys => by cases hkeys), ?_⟩
  · show PfsState.idle = if p.pending.isSome then _ else _
    rw [hnone]
    rfl
  · intro k' e' hkeys
    obtain ⟨rfl, rfl⟩ := Prod.mk.inj (Option.some.inj hkeys)
    exact ⟨rfl, hk, secret, hsecret, rfl⟩

theorem Follows.completed (h : Follows D s c p) {k : EphemeralKey} {e : PublicKeyType}
    {secret : ByteVec 32} (hpending : p.pending = some k)
    (hsecret : D.sodium.cryptoScalarmult k.secretKey e = some secret) :
    Follows D s (completed c (deriveMailboxes D.sodium secret k.publicKey e))
      (p.complete k e) where
  peer := h.peer
  old := h.old
  state := rfl
  pending := rfl
  drawn k' hk' := by cases hk'
  early hkeys := by cases hkeys
  complete k' e' hkeys := by
    obtain ⟨rfl, rfl⟩ := Prod.mk.inj (Option.some.inj hkeys)
    exact ⟨rfl, h.drawn k hpending, secret, hsecret, rfl⟩

theorem Shows.getContact (h : Shows D s sent r p) {a : Bytes}
    (hc : r.addressBook.getContact a = some c) : Follows D s c p :=
  (h.contacts a c hc).2

theorem Shows.extend (h : Shows D s sent r p) (hqueued : Queued (D.setup s) r r' items)
    (hkey : ∀ i ∈ items, requestKey i ≠ none → ∃ d, D.bootstrap s = some d ∧ i.key = d.txKey)
    (hrequests : p'.requests = p.requests ++ items.filterMap requestKey)
    (hacks : p'.acks = p.acks ++ items.filterMap ackKeys)
    (hcontacts : ∀ a c, r'.addressBook.getContact a = some c →
      a = D.aliasName s ∧ Follows D s c p')
    (habsent : r'.addressBook.getContact (D.aliasName s) = none →
      p'.pending = none ∧ p'.keys = none) : Shows D s sent r' p' := by
  obtain ⟨fs, hout, hitems⟩ := hqueued
  refine ⟨?_, hcontacts, habsent⟩
  rw [hout, ← List.append_assoc, hrequests, hacks]
  exact h.history.append hitems hkey

theorem Shows.put (h : Shows D s sent r p) {a : Bytes} (hqueued : Queued (D.setup s) r r' items)
    (hread : ∀ a₁, r'.addressBook.getContact a₁ = (r.addressBook.putContact a c').getContact a₁)
    (ha : a = D.aliasName s)
    (hkey : ∀ i ∈ items, requestKey i ≠ none → ∃ d, D.bootstrap s = some d ∧ i.key = d.txKey)
    (hrequests : p'.requests = p.requests ++ items.filterMap requestKey)
    (hacks : p'.acks = p.acks ++ items.filterMap ackKeys) (hc' : Follows D s c' p')
    (honly : ∀ a₁ c₁, r.addressBook.getContact a₁ = some c₁ → a₁ = a) : Shows D s sent r' p' := by
  refine h.extend hqueued hkey hrequests hacks ?_ ?_
  · intro a₁ c₁ hc₁
    rw [hread] at hc₁
    rcases AddressBook.getContact_putContact_cases hc₁ with ⟨rfl, rfl⟩ | ⟨hne, hc₁⟩
    · exact ⟨ha, hc'⟩
    · exact absurd (honly a₁ c₁ hc₁) hne
  · intro hnone
    rw [hread, ← ha, AddressBook.getContact_putContact] at hnone
    cases hnone

theorem Shows.plain (h : Shows D s sent r p) (hqueued : Queued (D.setup s) r r' items)
    (hbook : r'.addressBook = r.addressBook)
    (hitems : ∀ i ∈ items, i.IsReceipt ∨ ∃ t, i.content = .text t) : Shows D s sent r' p := by
  obtain ⟨hrequests, hacks⟩ := filterMap_plain hitems
  refine h.extend hqueued ?_ ?_ ?_ (hbook ▸ h.contacts) (hbook ▸ h.absent)
  · intro i hi hsome
    exact absurd (List.filterMap_eq_nil_iff.mp hrequests i hi) hsome
  · rw [hrequests, List.append_nil]
  · rw [hacks, List.append_nil]

/-! ## Actions -/

/-- What the clients of a handshake do not do, and when they answer. -/
structure Fenced (G : Guard) : Prop where
  rotates : ∀ c, ¬ G.rotates c
  answers : ∀ c k e, G.answers c k e →
    c.initialPfsComplete = false ∧ c.pendingEphemeralKey = none
  adds : ∀ pk, ¬ G.adds pk
  ticks : ¬ G.ticks
  restarts : ¬ G.restarts

/-- The move of a party. -/
inductive Moved (D : Duo) (s : Side) (G : Guard) (p : ClientParty) : ClientParty → Prop where
  | same : Moved D s G p p
  | request {k : EphemeralKey} (hk : D.Drawn s k) (hfirst : D.First s)
      (hpending : p.pending = none) (hkeys : p.keys = none) : Moved D s G p (p.request k)
  | refuse {c : Contact} {k : EphemeralKey} {e : PublicKeyType} (hk : D.Drawn s k)
      (hanswers : G.answers c k e) (hkeys : p.keys = none)
      (hfails : D.sodium.cryptoScalarmult k.secretKey e = none) : Moved D s G p (p.refuse e k)
  | answer {c : Contact} {k : EphemeralKey} {e : PublicKeyType} (hk : D.Drawn s k)
      (hanswers : G.answers c k e) (hkeys : p.keys = none)
      (hcombines : D.sodium.cryptoScalarmult k.secretKey e ≠ none) : Moved D s G p (p.answer e k)
  | complete {c : Contact} {k : EphemeralKey} {e : PublicKeyType} (hpending : p.pending = some k)
      (hcompletes : G.completes c e)
      (hcombines : D.sodium.cryptoScalarmult k.secretKey e ≠ none) : Moved D s G p (p.complete k e)

/-- The roles are told apart by the public keys. -/
theorem first_iff (hpeer : c.publicKey = (D.identity s.other).publicKey) :
    Repl.isInitialPfsInitiator (D.setup s) c = true ↔ D.First s := by
  unfold Repl.isInitialPfsInitiator Duo.First
  rw [hpeer]
  exact decide_eq_true_iff

theorem Shows.step {G : Guard} (hG : Fenced G) {r₁ : Repl} {a : Bytes}
    (hquiet : Quiet (D.setup s) r r₁ items) (hc : r.addressBook.getContact a = some c)
    (hstep : ContactStep (D.setup s) (.between G r r₁ items) c c') (h : Shows D s sent r p) :
    ∃ p', Shows D s sent (r₁.putContact a c') p' ∧ Moved D s G p p' := by
  have honly : ∀ a₁ c₁, r.addressBook.getContact a₁ = some c₁ → a₁ = a := fun a₁ c₁ hc₁ =>
    (h.contacts a₁ c₁ hc₁).1.trans (h.contacts a c hc).1.symm
  obtain ⟨ha, hfollows⟩ := h.contacts a c hc
  have hread : ∀ a₁, (r₁.putContact a c').addressBook.getContact a₁ =
      (r.addressBook.putContact a c').getContact a₁ := fun a₁ => by rw [Repl.putContact, hquiet.book]
  have hqueued : Queued (D.setup s) r (r₁.putContact a c') items := hquiet.queued
  cases hstep with
  | @initiated n k hidle hlo hhi hk hrole hlog hitems hrotates =>
      have hitems : items = [.to c (.request k)] := hitems
      have hearly : c.initialPfsComplete = false :=
        Bool.eq_false_iff.mpr fun hcomplete => hG.rotates c (hrotates hcomplete)
      have hfirst : D.First s := by
        rcases hrole with hcomplete | hrole
        · exact absurd (hearly.symm.trans hcomplete) (by decide)
        · exact (first_iff hfollows.peer).mp hrole
      have hpending : p.pending = none := by
        cases hpending : p.pending with
        | none => rfl
        | some k' =>
            have hstate := hfollows.state
            rw [hidle, hpending] at hstate
            cases hstate
      have hkeys := hfollows.keys_eq_none hearly
      refine ⟨p.request k, ?_, .request ⟨n, hk⟩ hfirst hpending hkeys⟩
      subst hitems
      refine h.put hqueued hread ha ?_ rfl (List.append_nil _).symm
        (hfollows.initiated ⟨n, hk⟩) honly
      intro i hi _
      rw [List.mem_singleton.mp hi]
      exact ⟨_, (hfollows.early hkeys).2, rfl⟩
  | @answered n k e sig secret hrole hsig hlo hhi hk hsecret hanswers hitems =>
      have hitems : items = [.to c (.ack e k)] := hitems
      obtain ⟨hearly, hnone⟩ := hG.answers c k e hanswers
      have hcombines : D.sodium.cryptoScalarmult k.secretKey e ≠ none := by
        rw [show D.sodium.cryptoScalarmult k.secretKey e = some secret from hsecret]
        exact Option.some_ne_none _
      refine ⟨p.answer e k, ?_, .answer ⟨n, hk⟩ hanswers (hfollows.keys_eq_none hearly) hcombines⟩
      subst hitems
      refine h.put hqueued hread ha ?_ (List.append_nil _).symm rfl
        (hfollows.answered hearly hnone ⟨n, hk⟩ hsecret) honly
      intro i hi hsome
      rw [List.mem_singleton.mp hi] at hsome
      exact absurd rfl hsome
  | @keptOld n k e hfails hanswers hk hitems =>
      have hitems : items = [.to c (.ack e k)] := hitems
      obtain ⟨hearly, -⟩ := hG.answers c k e hanswers
      have hkeep : keepOld c = c := by rw [keepOld, if_neg (by rw [hearly]; decide)]
      refine ⟨p.refuse e k, ?_, .refuse ⟨n, hk⟩ hanswers (hfollows.keys_eq_none hearly) hfails⟩
      subst hitems
      refine h.put hqueued hread ha ?_ (List.append_nil _).symm rfl
        (hkeep.symm ▸ hfollows.of_eq rfl rfl) honly
      intro i hi hsome
      rw [List.mem_singleton.mp hi] at hsome
      exact absurd rfl hsome
  | @completed k e sig secret hstate hpending hsig hsecret hcompletes hitems =>
      have hitems : items = [] := hitems
      have hpending : p.pending = some k := hfollows.pending.symm.trans hpending
      have hcombines : D.sodium.cryptoScalarmult k.secretKey e ≠ none := by
        rw [show D.sodium.cryptoScalarmult k.secretKey e = some secret from hsecret]
        exact Option.some_ne_none _
      refine ⟨p.complete k e, ?_, .complete hpending hcompletes hcombines⟩
      subst hitems
      exact h.put hqueued hread ha (List.forall_mem_nil _) (List.append_nil _).symm
        (List.append_nil _).symm (hfollows.completed hpending hsecret) honly

theorem Shows.action {G : Guard} (hG : Fenced G) (haction : Action (D.setup s) G r r')
    (h : Shows D s sent r p) : ∃ p', Shows D s sent r' p' ∧ Moved D s G p p' := by
  cases haction with
  | quiet hquiet hitems =>
      exact ⟨p, h.plain hquiet.queued hquiet.book fun i hi => .inl (hitems i hi), .same⟩
  | @change r₁ items a c c' hquiet hc hchange =>
      cases hchange with
      | step hstep => exact h.step hG hquiet hc hstep
      | droppedOld hitems =>
          have hitems : items = [] := hitems
          obtain ⟨ha, hfollows⟩ := h.contacts a c hc
          subst hitems
          have hqueued : Queued (D.setup s) r (r₁.putContact a (droppedOld c)) [] := hquiet.queued
          refine ⟨p, h.put hqueued ?_ ha (List.forall_mem_nil _)
            (List.append_nil _).symm (List.append_nil _).symm hfollows.droppedOld ?_, .same⟩
          · exact fun a₁ => by rw [Repl.putContact, hquiet.book]
          · exact fun a₁ c₁ hc₁ => (h.contacts a₁ c₁ hc₁).1.trans ha.symm
  | save => exact ⟨p, ⟨h.history, h.contacts, h.absent⟩, .same⟩
  | @text _ items a text c hbook hdraws hc hcomplete hdue hlog hqueued hitems =>
      obtain ⟨ha, hfollows⟩ := h.contacts a c hc
      obtain ⟨hrequests, hacks⟩ := filterMap_plain fun i hi =>
        .inr ⟨text, congrArg Item.content (hitems i hi)⟩
      refine ⟨p, h.put hqueued (fun a₁ => by rw [hbook]) ha ?_ ?_ ?_ hfollows.counted ?_, .same⟩
      · intro i hi hsome
        exact absurd (List.filterMap_eq_nil_iff.mp hrequests i hi) hsome
      · rw [hrequests, List.append_nil]
      · rw [hacks, List.append_nil]
      · exact fun a₁ c₁ hc₁ => (h.contacts a₁ c₁ hc₁).1.trans ha.symm
  | add hadds => exact absurd hadds (hG.adds _)
  | tick hticks => exact absurd hticks hG.ticks
  | restart hrestarts => exact absurd hrestarts hG.restarts

end Parties

/-! ## Inputs -/

section Inputs

variable {D : Duo} {i s : Side} {w : Wire} {inp : Input} {p : ClientParty}
  {σ : State EphemeralKey PublicKeyType}

/-- What an input allows, besides a new contact and a tick. -/
def guardIn (D : Duo) (w : Wire) (s : Side) (inp : Input) : Guard where
  rotates := fun _ => False
  answers := fun c k e => Repl.answering (D.setup s) (w.client s) inp = some (c, k, e)
  completes := fun c e => Repl.completing (D.setup s) (w.client s) inp = some (c, e)
  adds := fun _ => False
  ticks := False
  restarts := False

theorem guardOf_le_guardIn (hrotates : ∀ c, ¬ Repl.Rotates (D.setup s) (w.client s) inp c)
    (hadds : ∀ a pk, inp ≠ .add a pk) (hticks : inp ≠ .tick) (hrestarts : inp ≠ .restart) :
    (Repl.guardOf (D.setup s) (w.client s) inp).Le (guardIn D w s inp) where
  rotates := hrotates
  answers _ _ _ h := h
  completes _ _ h := h
  adds := by
    rintro pk ⟨a, ha⟩
    exact hadds a _ ha
  ticks := hticks
  restarts := hrestarts

theorem follows_bootstrapContact {a : Bytes} {d : DerivedMailboxes}
    (hd : D.bootstrap s = some d) (hpending : p.pending = none) (hkeys : p.keys = none) :
    Follows D s (AddressBook.bootstrapContact a (D.identity s.other).publicKey none d) p where
  peer := rfl
  old := rfl
  state := by
    rw [hpending]
    rfl
  pending := hpending.symm
  drawn k hk := by
    rw [hpending] at hk
    cases hk
  early _ := ⟨rfl, hd⟩
  complete k e hsome := by
    rw [hkeys] at hsome
    cases hsome

/-- An input adds the contact or sends a frame, and the rest are actions under the
guard. -/
theorem Shows.input (hallowed : w.Allowed D (s, inp))
    (h : Shows D s (w.sent s) (w.client s) p) :
    ∃ r₁, Shows D s (w.sent s ++ Wire.emitted (w.client s) inp) r₁ p ∧
      GuardedActions (D.setup s) (guardIn D w s inp) r₁ ((w.client s).step (D.setup s) inp) := by
  have hactions : (Repl.guardOf (D.setup s) (w.client s) inp).Le (guardIn D w s inp) →
      GuardedActions (D.setup s) (guardIn D w s inp) (w.client s)
        ((w.client s).step (D.setup s) inp) := fun hG =>
    Relation.ReflTransGen.mono (fun _ _ haction => haction.mono hG) _ _ (Repl.step_actions _ _)
  have hnosend : (∀ a t, inp ≠ .send a t) →
      ∀ c, ¬ Repl.Rotates (D.setup s) (w.client s) inp c := by
    rintro hne c ⟨a, t, -, heq, -⟩
    exact hne a t heq
  have hsame : Wire.emitted (w.client s) inp = [] →
      Shows D s (w.sent s ++ Wire.emitted (w.client s) inp) (w.client s) p := by
    intro hnil
    rw [hnil, List.append_nil]
    exact h
  cases inp with
  | connect =>
      refine ⟨w.client s, hsame rfl, hactions (guardOf_le_guardIn (hnosend ?_) ?_ ?_ ?_)⟩
      all_goals intros; exact fun heq => by cases heq
  | send a text =>
      refine ⟨w.client s, hsame rfl, hactions (guardOf_le_guardIn hallowed ?_ ?_ ?_)⟩
      all_goals intros; exact fun heq => by cases heq
  | receive f =>
      refine ⟨w.client s, hsame rfl, hactions (guardOf_le_guardIn (hnosend ?_) ?_ ?_ ?_)⟩
      all_goals intros; exact fun heq => by cases heq
  | add a pk =>
      obtain ⟨rfl, rfl, hnone⟩ := hallowed
      rcases Repl.handleAddContact_cases (E := D.setup s)
          (G := guardIn D w s (.add (D.aliasName s) (some (D.identity s.other).publicKey)))
          (w.client s) (D.aliasName s) (some (D.identity s.other).publicKey)
        with hquiet | ⟨pk, d, hpk, hd, hrest⟩
      · exact ⟨w.client s, hsame rfl, .single (Repl.quiet_action hquiet)⟩
      · obtain rfl := Option.some.inj hpk
        obtain ⟨hpending, hkeys⟩ := h.absent hnone
        refine ⟨_, ?_, hrest⟩
        have hqueued : Queued (D.setup s) (w.client s) ((w.client s).save (D.aliasName s)
            (AddressBook.bootstrapContact (D.aliasName s) (D.identity s.other).publicKey none d)) [] :=
          .of_eq rfl
        refine (hsame rfl).put hqueued
          (fun a₁ => AddressBook.getContact_saveToDisk _ a₁) rfl (List.forall_mem_nil _)
          (List.append_nil _).symm (List.append_nil _).symm
          (follows_bootstrapContact hd hpending hkeys) ?_
        intro a₁ c₁ hc₁
        exact (h.contacts a₁ c₁ hc₁).1
  | tick =>
      refine ⟨_, ?_, .refl⟩
      have hbook : ((w.client s).getNextFrameForCBR.2).addressBook = (w.client s).addressBook ∧
          (w.client s).outbox.take 1 ++ ((w.client s).getNextFrameForCBR.2).outbox =
            (w.client s).outbox := by
        unfold Repl.getNextFrameForCBR
        split
        · next hout =>
            rw [hout]
            exact ⟨rfl, rfl⟩
        · next hout =>
            rw [hout]
            split
            · exact ⟨rfl, hout⟩
            · exact ⟨rfl, rfl⟩
      refine ⟨?_, ?_, ?_⟩
      · show Says D s ((w.sent s ++ (w.client s).outbox.take 1) ++
          ((w.client s).getNextFrameForCBR.2).outbox) _ _
        rw [List.append_assoc, hbook.2]
        exact h.history
      · intro a c hc
        exact h.contacts a c (hbook.1 ▸ hc)
      · intro hc
        exact h.absent (hbook.1 ▸ hc)
  | restart => exact absurd hallowed id

/-! ## Frames that are opened -/

/-- The party that a client follows. -/
def party (i : Side) (σ : State EphemeralKey PublicKeyType) (s : Side) : ClientParty :=
  if s = i then σ.initiator else σ.responder

def setParty (i : Side) (σ : State EphemeralKey PublicKeyType) (s : Side) (p : ClientParty) :
    State EphemeralKey PublicKeyType :=
  if s = i then { σ with initiator := p } else { σ with responder := p }

/-- Both clients follow their parties. -/
def Refines (D : Duo) (i : Side) (w : Wire) (σ : State EphemeralKey PublicKeyType) : Prop :=
  ∀ s, Shows D s (w.sent s) (w.client s) (party i σ s)

/-- An opened frame carries an item that one of the clients has queued for the key under
which it is opened. -/
theorem Refines.opened (hD : D.Ideal) (h : Refines D i w σ) (hallowed : w.Allowed D (s, inp))
    {r₁ : Repl} {c : Contact} {plaintext : Bytes}
    (hopened : Repl.opened (D.setup s) (w.client s) inp = some ((r₁, c), plaintext)) :
    Follows D s c (party i σ s) ∧ ∃ t item, c.rxKey = item.key ∧
      plaintext = item.content.plaintext (D.setup t) ∧
      (∀ k, requestKey item = some k → k ∈ (party i σ t).requests ∧
        ∃ d, D.bootstrap t = some d ∧ item.key = d.txKey) ∧
      ∀ q, ackKeys item = some q → q ∈ (party i σ t).acks := by
  obtain ⟨f, a, c₀, rfl, hc₀, hp, hdec⟩ := Repl.opened_eq_some hopened
  have hfollows := (h s).getContact hc₀
  -- there is no old mailbox, so the contact is the one in the book and its key is current
  obtain ⟨-, rfl⟩ : r₁ = w.client s ∧ c = c₀ := by
    rcases Repl.dropOldMailbox_cases (w.client s) a c₀ (Repl.usedOldKey c₀ f.mailboxId)
      with hd | ⟨hsome, -⟩
    · rw [hd] at hp
      exact Prod.mk.inj hp
    · rw [hfollows.old] at hsome
      cases hsome
  have hkey : Repl.selectedKey c f = c.rxKey := by
    have hused : Repl.usedOldKey c f.mailboxId = false := by
      unfold Repl.usedOldKey
      rw [hfollows.old]
      rfl
    unfold Repl.selectedKey
    rw [hused]
    rfl
  obtain ⟨t, g, hg, hpayload⟩ := hallowed (by rw [hopened]; exact Option.some_ne_none _)
  obtain ⟨items, hframes, hrequests, hacks, hboot⟩ := (h t).history
  obtain ⟨item, hitem, nonce, ct, henc, rfl⟩ :=
    forall₂_mem hframes (List.mem_append_left _ hg)
  have hpayload : ct = f.payload := hpayload
  rw [hkey, ← hpayload] at hdec
  obtain ⟨hrx, hplain⟩ := decryptAndUnpad_ideal hD.aead henc hdec
  refine ⟨hfollows, t, item, hrx, hplain, ?_, ?_⟩
  · intro k hk
    refine ⟨?_, hboot item hitem (by rw [hk]; exact Option.some_ne_none _)⟩
    rw [← hrequests]
    exact List.mem_filterMap.mpr ⟨item, hitem, hk⟩
  · intro q hq
    rw [← hacks]
    exact List.mem_filterMap.mpr ⟨item, hitem, hq⟩

theorem requestKey_of_parse {E : Setup} {item : Item} {d : PfsRotateData}
    (h : parsePfsRotateRequest (item.content.plaintext E) = some d) :
    ∃ k, requestKey item = some k ∧ d.ephemeralPublicKey = k.publicKey := by
  have hop := parsePfsRotate_opcode h
  unfold requestKey
  cases hcontent : item.content with
  | text t =>
      rw [hcontent] at hop
      cases hop
  | receipt t =>
      rw [hcontent] at hop
      exact absurd (hop.symm.trans (extractOpcode_hashPayload _ _)) (by decide)
  | request k =>
      rw [hcontent] at h
      have hparse := h.symm.trans (parsePfsRotate_build _ _ _)
      exact ⟨k, rfl, congrArg PfsRotateData.ephemeralPublicKey (Option.some.inj hparse)⟩
  | ack e k =>
      rw [hcontent] at hop
      exact absurd (hop.symm.trans (extractOpcode_buildPfsRotate _ _ _)) (by decide)

theorem ackKeys_of_parse {E : Setup} {item : Item} {d : PfsRotateData}
    (h : parsePfsRotateAck (item.content.plaintext E) = some d) :
    ∃ q, ackKeys item = some q ∧ d.ephemeralPublicKey = q.2.publicKey := by
  have hop := parsePfsRotate_opcode h
  unfold ackKeys
  cases hcontent : item.content with
  | text t =>
      rw [hcontent] at hop
      cases hop
  | receipt t =>
      rw [hcontent] at hop
      exact absurd (hop.symm.trans (extractOpcode_hashPayload _ _)) (by decide)
  | request k =>
      rw [hcontent] at hop
      exact absurd (hop.symm.trans (extractOpcode_buildPfsRotate _ _ _)) (by decide)
  | ack e k =>
      rw [hcontent] at h
      have hparse := h.symm.trans (parsePfsRotate_build _ _ _)
      exact ⟨(e, k), rfl, congrArg PfsRotateData.ephemeralPublicKey (Option.some.inj hparse)⟩

/-- The key of a request opens nothing for a client that has completed the handshake. -/
theorem Follows.not_complete (hD : D.Ideal) {c : Contact} (h : Follows D s c p) {t : Side}
    {d : DerivedMailboxes} (hd : D.bootstrap t = some d) (hkey : c.rxKey = d.txKey) :
    c.initialPfsComplete = false := by
  obtain ⟨ours, sk, theirs, secret, -, -, htheirs, -, rfl⟩ := Duo.bootstrap_eq_some hd
  cases hkeys : p.keys with
  | none => exact (h.early hkeys).1
  | some q =>
      obtain ⟨k, e⟩ := q
      obtain ⟨-, hk, secret', -, hsession⟩ := h.complete k e hkeys
      have hrx : c.rxKey = hashKey (extendedHash D.sodium secret' e k.publicKey) :=
        congrArg DerivedMailboxes.rxKey hsession
      have heq := hD.hash secret' secret e ours k.publicKey theirs ⟨s, .inr ⟨k, hk, rfl⟩⟩
        ⟨t.other, .inl htheirs⟩ (hrx.symm.trans hkey)
      exact absurd (heq ▸ htheirs) (hD.fresh s t.other k hk)

/-- A request that is answered is the initiator's, and it is answered by the other client
before it has completed the handshake. -/
theorem Refines.answering (hD : D.Ideal) (hphase : Phase (D.scheme hD i) σ)
    (h : Refines D i w σ) (hallowed : w.Allowed D (s, inp)) {c : Contact} {k : EphemeralKey}
    {e : PublicKeyType}
    (hanswering : Repl.answering (D.setup s) (w.client s) inp = some (c, k, e)) :
    Follows D s c (party i σ s) ∧ c.initialPfsComplete = false ∧ ¬ D.First s ∧
      ∃ k₀ ∈ σ.initiator.requests, e = k₀.publicKey := by
  obtain ⟨⟨⟨r₁, c₁⟩, plaintext⟩, hopened, hmap⟩ := Option.bind_eq_some_iff.mp hanswering
  obtain ⟨⟨k', e'⟩, hanswer, heq⟩ := Option.map_eq_some_iff.mp hmap
  obtain ⟨rfl, hpair⟩ := Prod.mk.inj heq
  obtain ⟨rfl, rfl⟩ := Prod.mk.inj hpair
  obtain ⟨hfollows, t, item, hkey, rfl, hrequest, -⟩ := h.opened hD hallowed hopened
  obtain ⟨req, hreq, hrole, hereq⟩ := Repl.answer_eq_some hanswer
  obtain ⟨k₀, hk₀, hpub⟩ := requestKey_of_parse hreq
  obtain ⟨hmem, d, hd, hitem⟩ := hrequest k₀ hk₀
  have hearly := hfollows.not_complete hD hd (hkey.trans hitem)
  refine ⟨hfollows, hearly, ?_, k₀, ?_, hereq.trans hpub⟩
  · intro hfirst
    rcases hrole with hcomplete | hrole
    · exact absurd (hearly.symm.trans hcomplete) (by decide)
    · exact absurd ((first_iff hfollows.peer).mpr hfirst) (by rw [hrole]; decide)
  · unfold party at hmem
    split at hmem
    · exact hmem
    · rw [hphase.requests.2] at hmem
      cases hmem

/-- An acknowledgement that completes a rotation is the responder's. -/
theorem Refines.completing (hD : D.Ideal) (hphase : Phase (D.scheme hD i) σ)
    (h : Refines D i w σ) (hallowed : w.Allowed D (s, inp)) {c : Contact} {e : PublicKeyType}
    (hcompleting : Repl.completing (D.setup s) (w.client s) inp = some (c, e)) :
    ∃ q ∈ σ.responder.acks, e = q.2.publicKey := by
  obtain ⟨⟨⟨r₁, c₁⟩, plaintext⟩, hopened, hmap⟩ := Option.bind_eq_some_iff.mp hcompleting
  obtain ⟨ack, hack, heq⟩ := Option.map_eq_some_iff.mp hmap
  obtain ⟨-, rfl⟩ := Prod.mk.inj heq
  obtain ⟨-, t, item, -, rfl, -, hacks⟩ := h.opened hD hallowed hopened
  obtain ⟨q, hq, hpub⟩ := ackKeys_of_parse hack
  refine ⟨q, ?_, hpub⟩
  have hmem := hacks q hq
  unfold party at hmem
  split at hmem
  · rw [hphase.responder.1] at hmem
    cases hmem
  · exact hmem

/-! ## The refinement -/

@[simp] theorem setParty_party (i s : Side) (σ : State EphemeralKey PublicKeyType) :
    setParty i σ s (party i σ s) = σ := by
  unfold setParty party
  split <;> rfl

@[simp] theorem party_setParty (i s : Side) (σ : State EphemeralKey PublicKeyType)
    (p : ClientParty) : party i (setParty i σ s p) s = p := by
  unfold party setParty
  split <;> rfl

theorem party_setParty_other (i s : Side) (σ : State EphemeralKey PublicKeyType)
    (p : ClientParty) : party i (setParty i σ s p) s.other = party i σ s.other := by
  cases i <;> cases s <;> rfl

theorem Refines.set (h : Refines D i w σ) {r : Repl} {sent : List Frame}
    (hr : Shows D s sent r p) :
    Refines D i ⟨Function.update w.client s r, Function.update w.sent s sent⟩
      (setParty i σ s p) := by
  intro t
  rcases Side.eq_or_eq_other s t with rfl | rfl
  · rw [party_setParty]
    simpa only [Function.update_self] using hr
  · rw [party_setParty_other]
    simpa only [Function.update_of_ne (Side.other_ne s)] using h s.other

theorem Duo.First.not_other (h : D.First s) : ¬ D.First s.other := by
  unfold Duo.First at h ⊢
  rw [Side.other_other]
  exact lt_asymm h

theorem Moved.handshake (hD : D.Ideal) (hi : D.First i) (hphase : Phase (D.scheme hD i) σ)
    (h : Refines D i w σ) (hallowed : w.Allowed D (s, inp)) {p p' : ClientParty}
    (hcurrent : Phase (D.scheme hD i) (setParty i σ s p))
    (hmoved : Moved D s (guardIn D w s inp) p p') :
    Relation.ReflTransGen (Step (D.scheme hD i)) (setParty i σ s p) (setParty i σ s p') := by
  rcases Side.eq_or_eq_other i s with rfl | rfl
  · have hset : ∀ p, setParty s σ s p = { σ with initiator := p } := fun p => if_pos rfl
    rw [hset, hset]
    cases hmoved with
    | same => exact .refl
    | request hk _ hpending hkeys => exact .single (.request hk hpending hkeys)
    | refuse _ hanswers => exact absurd hi (h.answering hD hphase hallowed hanswers).2.2.1
    | answer _ hanswers => exact absurd hi (h.answering hD hphase hallowed hanswers).2.2.1
    | complete hpending hcompletes hcombines =>
        obtain ⟨q, hq, rfl⟩ := h.completing hD hphase hallowed hcompletes
        exact .single (.complete hpending hq hcombines)
  · have hset : ∀ p, setParty i σ i.other p = { σ with responder := p } :=
      fun p => if_neg (Side.other_ne i)
    rw [hset] at hcurrent
    rw [hset, hset]
    cases hmoved with
    | same => exact .refl
    | request _ hfirst => exact absurd hfirst hi.not_other
    | refuse hk hanswers hkeys hfails =>
        obtain ⟨-, -, -, k₀, hk₀, rfl⟩ := h.answering hD hphase hallowed hanswers
        exact .single (.refuse hk₀ hk hkeys (not_not.mpr hfails))
    | answer hk hanswers hkeys hcombines =>
        obtain ⟨-, -, -, k₀, hk₀, rfl⟩ := h.answering hD hphase hallowed hanswers
        exact .single (.answer hk₀ hk hkeys hcombines)
    | complete hpending =>
        have hnone := hcurrent.responder.2
        rw [hpending] at hnone
        cases hnone

theorem Refines.step (hD : D.Ideal) (hi : D.First i) (hphase : Phase (D.scheme hD i) σ)
    (h : Refines D i w σ) (hallowed : w.Allowed D (s, inp)) :
    ∃ σ', Relation.ReflTransGen (Step (D.scheme hD i)) σ σ' ∧
      Refines D i (w.step D (s, inp)) σ' := by
  obtain ⟨r₁, hr₁, hactions⟩ := (h s).input hallowed
  have hfenced : Fenced (guardIn D w s inp) := by
    refine ⟨fun _ => id, ?_, fun _ => id, id, id⟩
    intro c k e hanswers
    obtain ⟨hfollows, hearly, hfirst, -⟩ := h.answering hD hphase hallowed hanswers
    refine ⟨hearly, hfollows.pending.trans ?_⟩
    have hne : s ≠ i := fun heq => hfirst (heq ▸ hi)
    unfold party
    rw [if_neg hne]
    exact hphase.responder.2
  have hrun : ∃ p, Relation.ReflTransGen (Step (D.scheme hD i)) σ (setParty i σ s p) ∧
      Shows D s (w.sent s ++ Wire.emitted (w.client s) inp)
        ((w.client s).step (D.setup s) inp) p := by
    refine Repl.actions_induction (P := fun r => ∃ p,
      Relation.ReflTransGen (Step (D.scheme hD i)) σ (setParty i σ s p) ∧
        Shows D s (w.sent s ++ Wire.emitted (w.client s) inp) r p) ?_ hactions ?_
    · rintro r r' haction ⟨p, hsteps, hshows⟩
      obtain ⟨p', hshows', hmoved⟩ := hshows.action hfenced haction
      have hcurrent := hphase.steps hsteps
      exact ⟨p', hsteps.trans (hmoved.handshake hD hi hphase h hallowed hcurrent), hshows'⟩
    · exact ⟨party i σ s, by rw [setParty_party], hr₁⟩
  obtain ⟨p, hsteps, hshows⟩ := hrun
  exact ⟨_, hsteps, h.set hshows⟩

/-- **The clients refine the handshake.** -/
theorem run_refines (hD : D.Ideal) (hi : D.First i) {moves : List (Side × Input)}
    (hmoves : Run.Along (Wire.step D) (Wire.Allowed D) {} moves) :
    ∃ σ, Relation.ReflTransGen (Step (D.scheme hD i)) {} σ ∧
      Refines D i (Wire.run D {} moves) σ := by
  refine hmoves.induction (P := fun w => ∃ σ,
    Relation.ReflTransGen (Step (D.scheme hD i)) {} σ ∧ Refines D i w σ) ?_ ?_
  · rintro w ⟨s, inp⟩ hallowed ⟨σ, hsteps, hrefines⟩
    obtain ⟨σ', hsteps', hrefines'⟩ :=
      hrefines.step hD hi (phase_of_reachable hsteps) hallowed
    exact ⟨σ', hsteps.trans hsteps', hrefines'⟩
  · refine ⟨{}, .refl, ?_⟩
    intro s
    have hfresh : party i {} s = {} := by
      unfold party
      split <;> rfl
    rw [hfresh]
    refine ⟨⟨[], .nil, rfl, rfl, List.forall_mem_nil _⟩, ?_, fun _ => ⟨rfl, rfl⟩⟩
    intro a c hc
    cases hc

end Inputs

/-! ## The main result -/

section Result

variable {D : Duo} {i s : Side} {w : Wire} {σ : State EphemeralKey PublicKeyType}

theorem requestKey_of_isRequest (hD : D.Ideal) {f : Frame} {item : Item}
    (hitem : item.InFrame (D.setup s) f) (h : Wire.IsRequest D f) :
    (requestKey item).isSome = true := by
  obtain ⟨nonce, ct, henc, rfl⟩ := hitem
  obtain ⟨key, nonce', e, sig, hreq⟩ := h
  have hdec := decryptAndUnpad_encryptWithPadding hD.correct hreq
  obtain ⟨-, hplain⟩ := decryptAndUnpad_ideal hD.aead henc hdec
  have hparse : parsePfsRotateRequest (item.content.plaintext (D.setup s)) = some ⟨e, sig⟩ := by
    rw [← hplain]
    exact parsePfsRotate_build _ _ _
  obtain ⟨k, hk, -⟩ := requestKey_of_parse hparse
  rw [hk]
  rfl

theorem Shows.requests (hD : D.Ideal) {p : ClientParty}
    (h : Shows D s (w.sent s) (w.client s) p) (hone : p.requests.length ≤ 1) :
    (w.queued s).Pairwise (fun f g => ¬ (Wire.IsRequest D f ∧ Wire.IsRequest D g)) ∧
      (p.requests = [] → ∀ f ∈ w.queued s, ¬ Wire.IsRequest D f) := by
  obtain ⟨items, hframes, hrequests, -, -⟩ := h.history
  constructor
  · refine forall₂_pairwise hframes (fun f item hitem => requestKey_of_isRequest hD hitem) ?_
    rw [hrequests]
    exact hone
  · intro hnil f hf hreq
    obtain ⟨item, hitem, hframe⟩ := forall₂_mem hframes hf
    have hsome := requestKey_of_isRequest hD hframe hreq
    rw [List.filterMap_eq_nil_iff.mp (hrequests.trans hnil) item hitem] at hsome
    cases hsome

theorem Follows.keys_of_complete {c : Contact} {p : ClientParty} (h : Follows D s c p)
    (hcomplete : c.initialPfsComplete = true) : ∃ k e, p.keys = some (k, e) := by
  cases hkeys : p.keys with
  | none => exact absurd ((h.early hkeys).1.symm.trans hcomplete) (by decide)
  | some q => exact ⟨q.1, q.2, rfl⟩

/-- The initiator has completed the handshake only if the responder has, and then their
sessions are mirrored. -/
theorem Refines.agreement (hD : D.Ideal) (hphase : Phase (D.scheme hD i) σ)
    (h : Refines D i w σ) {c : Contact} (hc : w.contact D i = some c)
    (hcomplete : c.initialPfsComplete = true) :
    ∃ c', w.contact D i.other = some c' ∧ c'.initialPfsComplete = true ∧
      session c = (session c').swap := by
  have hinit : party i σ i = σ.initiator := if_pos rfl
  have hresp : party i σ i.other = σ.responder := if_neg (Side.other_ne i)
  have hfollows := (h i).getContact hc
  obtain ⟨k, e, hkeys⟩ := hfollows.keys_of_complete hcomplete
  obtain ⟨-, hk, secret, hsecret, hsession⟩ := hfollows.complete k e hkeys
  rw [hinit] at hkeys
  obtain ⟨k', hkeys', rfl, -, hk'⟩ := hphase.agreement hkeys
  cases hc' : w.contact D i.other with
  | none =>
      have habsent := ((h i.other).absent hc').2
      rw [hresp, hkeys'] at habsent
      cases habsent
  | some c' =>
      have hfollows' := (h i.other).getContact hc'
      rw [hresp] at hfollows'
      obtain ⟨hdone, -, secret', hsecret', hsession'⟩ := hfollows'.complete _ _ hkeys'
      have hcomm := hD.exchange_comm hk hk'
      obtain rfl := Option.some.inj (hsecret.symm.trans (hcomm.trans hsecret'))
      refine ⟨c', rfl, hdone, ?_⟩
      rw [hsession, hsession']
      rfl

end Result

/-- **One initiator and agreement, whatever the relay does.** Two clients with different
public keys add each other once, connect, tick and send at any time, without a restart and
before either starts a periodic rotation; the relay gives them any frames but forged ones.
Then (i) the bootstrap sessions are mirrored, and a contact has its bootstrap session until
the handshake is complete; (ii) the client with the larger key has queued no request, and
the other at most one; (iii) if that one has completed the handshake, so has the responder;
and (iv) when both have, their sessions are mirrored. -/
theorem handshake_agreement (D : Duo) (hD : D.Ideal)
    (hne : (D.identity .left).publicKey ≠ (D.identity .right).publicKey)
    (moves : List (Side × Input))
    (hmoves : Run.Along (Wire.step D) (Wire.Allowed D) {} moves) :
    (∀ d d', D.bootstrap .left = some d → D.bootstrap .right = some d' → d = d'.swap) ∧
    (∀ s c, (Wire.run D {} moves).contact D s = some c → c.initialPfsComplete = false →
      D.bootstrap s = some (session c)) ∧
    ∃ i, D.First i ∧
      (∀ f ∈ (Wire.run D {} moves).queued i.other, ¬ Wire.IsRequest D f) ∧
      ((Wire.run D {} moves).queued i).Pairwise
        (fun f g => ¬ (Wire.IsRequest D f ∧ Wire.IsRequest D g)) ∧
      (∀ c, (Wire.run D {} moves).contact D i = some c → c.initialPfsComplete = true →
        ∃ c', (Wire.run D {} moves).contact D i.other = some c' ∧
          c'.initialPfsComplete = true) ∧
      ∀ c c', (Wire.run D {} moves).contact D i = some c →
        (Wire.run D {} moves).contact D i.other = some c' →
        c.initialPfsComplete = true → c'.initialPfsComplete = true →
        session c = (session c').swap := by
  obtain ⟨i, hi⟩ : ∃ i, D.First i := by
    have hlists : (D.identity .left).publicKey.toList.map UInt8.toNat ≠
        (D.identity .right).publicKey.toList.map UInt8.toNat := by
      intro heq
      have hinj := List.map_injective_iff.mpr fun _ _ => UInt8.toNat.inj
      exact hne (List.Vector.eq _ _ (hinj heq))
    rcases lt_or_gt_of_ne hlists with hlt | hlt
    · exact ⟨.left, hlt⟩
    · exact ⟨.right, hlt⟩
  obtain ⟨σ, hsteps, hrefines⟩ := run_refines hD hi hmoves
  have hphase := phase_of_reachable hsteps
  have hinit : party i σ i = σ.initiator := if_pos rfl
  have hresp : party i σ i.other = σ.responder := if_neg (Side.other_ne i)
  refine ⟨fun d d' => hD.bootstrap_mirrored, ?_, i, hi, ?_, ?_, ?_, ?_⟩
  · intro s c hc hearly
    have hfollows := (hrefines s).getContact hc
    exact (hfollows.early (hfollows.keys_eq_none hearly)).2
  · have hnone : (party i σ i.other).requests = [] := by rw [hresp, hphase.requests.2]
    exact ((hrefines i.other).requests hD (by rw [hnone]; exact Nat.zero_le _)).2 hnone
  · exact ((hrefines i).requests hD (by rw [hinit]; exact hphase.requests.1)).1
  · intro c hc hcomplete
    obtain ⟨c', hc', hdone, -⟩ := hrefines.agreement hD hphase hc hcomplete
    exact ⟨c', hc', hdone⟩
  · intro c c' hc hc' hcomplete _
    obtain ⟨c'', hc'', -, hmirror⟩ := hrefines.agreement hD hphase hc hcomplete
    obtain rfl := Option.some.inj (hc'.symm.trans hc'')
    exact hmirror

/-! ## A handshake -/

/-- Every public key of the toy clients shows its first byte. -/
theorem toyDuo_drawn {s : Side} {k : EphemeralKey} (h : toyDuo.Drawn s k) :
    ∃ b : UInt8, 16 ≤ b ∧ k = ⟨toyKey b, toyKey b⟩ := by
  have hbyte : ∀ first : UInt8, first = 16 ∨ first = 64 → ∀ n < 32, 16 ≤ first + UInt8.ofNat n := by
    rintro first (rfl | rfl) <;> decide
  obtain ⟨n, hk⟩ := h
  cases s with
  | left =>
      obtain ⟨hn, rfl⟩ := toySetup_keypair (show (toySetup 1 16 1).tape.keypair n = some k from hk)
      exact ⟨_, hbyte 16 (.inl rfl) n hn, rfl⟩
  | right =>
      obtain ⟨hn, rfl⟩ := toySetup_keypair (show (toySetup 2 64 0).tape.keypair n = some k from hk)
      exact ⟨_, hbyte 64 (.inr rfl) n hn, rfl⟩

theorem toyDuo_exchangeKey {s : Side} {pk : PublicKeyType} (h : toyDuo.exchangeKey s = some pk) :
    ∃ b : UInt8, b < 16 ∧ pk = toyKey b := by
  cases s with
  | left => exact ⟨1, by decide, (Option.some.inj h).symm⟩
  | right => exact ⟨2, by decide, (Option.some.inj h).symm⟩

theorem toyDuo_ideal : toyDuo.Ideal where
  correct := transparent_aeadCorrect
  aead := transparent_aeadIdeal
  identities := by
    intro sk pk sk' pk' hsk hsk' hpk hpk'
    obtain rfl := Option.some.inj hsk
    obtain rfl := Option.some.inj hsk'
    obtain rfl := Option.some.inj hpk
    obtain rfl := Option.some.inj hpk'
    decide
  exchanges := by
    intro k k' hk hk'
    obtain ⟨b, -, rfl⟩ := toyDuo_drawn hk
    obtain ⟨b', -, rfl⟩ := toyDuo_drawn hk'
    exact transparent_scalarmult_comm _ _
  hash := by
    have hown : ∀ pk, toyDuo.OwnKey pk → ∃ b, pk = toyKey b := by
      rintro pk ⟨s, hkey | ⟨k, hk, rfl⟩⟩
      · obtain ⟨b, -, hb⟩ := toyDuo_exchangeKey hkey
        exact ⟨b, hb⟩
      · obtain ⟨b, -, rfl⟩ := toyDuo_drawn hk
        exact ⟨b, rfl⟩
    intro secret secret' a a' b b' hb hb' heq
    obtain ⟨x, rfl⟩ := hown b hb
    obtain ⟨y, rfl⟩ := hown b' hb'
    have hbyte : (secret.toList ++ a.toList ++ (toyKey x).toList).getD 64 0 =
        (secret'.toList ++ a'.toList ++ (toyKey y).toList).getD 64 0 :=
      congrArg (fun v => v.toList.getD 2 0) heq
    rw [(getD_parts _ _ _).2, (getD_parts _ _ _).2] at hbyte
    exact congrArg toyKey hbyte
  fresh := by
    intro s t k hk hkey
    obtain ⟨b, hb, rfl⟩ := toyDuo_drawn hk
    obtain ⟨b', hb', heq⟩ := toyDuo_exchangeKey hkey
    obtain rfl : b = b' := congrArg (fun v => v.toList.getD 0 0) heq
    exact absurd hb (UInt8.not_le.mpr hb')

/-- A relay that passes on what it has seen, to anybody and any number of times. -/
def Wire.Relayed (D : Duo) (w : Wire) : Side × Input → Prop
  | (s, .add a pk) =>
      a = D.aliasName s ∧ pk = some (D.identity s.other).publicKey ∧ w.contact D s = none
  | (_, .receive f) => f ∈ w.sent .left ∨ f ∈ w.sent .right
  | (_, .connect) => True
  | (_, .tick) => True
  | _ => False

instance (D : Duo) (w : Wire) : (m : Side × Input) → Decidable (w.Relayed D m)
  | (_, .add _ _) => inferInstanceAs (Decidable (_ ∧ _))
  | (_, .receive _) => inferInstanceAs (Decidable (_ ∨ _))
  | (_, .connect) => inferInstanceAs (Decidable True)
  | (_, .tick) => inferInstanceAs (Decidable True)
  | (_, .send _ _) => inferInstanceAs (Decidable False)
  | (_, .restart) => inferInstanceAs (Decidable False)

theorem Wire.Relayed.allowed {D : Duo} {w : Wire} {m : Side × Input} (h : w.Relayed D m) :
    w.Allowed D m := by
  obtain ⟨s, inp⟩ := m
  cases inp with
  | add => exact h
  | receive f =>
      intro _
      rcases h with hf | hf
      · exact ⟨.left, f, hf, rfl⟩
      · exact ⟨.right, f, hf, rfl⟩
  | connect => trivial
  | tick => trivial
  | send => exact absurd h id
  | restart => exact absurd h id

/-- Both clients add each other and connect; the request goes out. -/
def toyMeeting : List (Side × Input) :=
  [(.left, .add (ascii "bob") (some bob.identity.publicKey)), (.left, .connect),
    (.right, .add (ascii "alice") (some alice.identity.publicKey)), (.right, .connect),
    (.left, .tick)]

/-- The request comes twice and the acknowledgement comes back, once to the wrong client. -/
def toyHandshake : List (Side × Input) :=
  let requests := (Wire.run toyDuo {} toyMeeting).sent .left
  let answered := toyMeeting ++
    (requests ++ requests).map (fun f => (Side.right, Input.receive f)) ++
    [(Side.right, Input.tick)]
  let acks := (Wire.run toyDuo {} answered).sent .right
  answered ++ acks.map (fun f => (Side.right, Input.receive f)) ++
    acks.map fun f => (Side.left, Input.receive f)

theorem handshake_agreement_toy :
    ∃ c ∈ (Wire.run toyDuo {} toyHandshake).contact toyDuo .left,
      ∃ c' ∈ (Wire.run toyDuo {} toyHandshake).contact toyDuo .right,
        c.initialPfsComplete = true ∧ c'.initialPfsComplete = true ∧
          session c = (session c').swap := by
  have hfacts : Run.Along (Wire.step toyDuo) (Wire.Relayed toyDuo) {} toyHandshake ∧
      ∃ c ∈ (Wire.run toyDuo {} toyHandshake).contact toyDuo .left,
        c.initialPfsComplete = true := by decide +kernel
  obtain ⟨hrelayed, c, hc, hcomplete⟩ := hfacts
  have hmoves : Run.Along (Wire.step toyDuo) (Wire.Allowed toyDuo) {} toyHandshake :=
    hrelayed.mono (P := fun _ => True) (fun _ _ _ _ => trivial) trivial
      fun _ _ _ hm => hm.allowed
  obtain ⟨-, -, i, hi, -, -, hthird, hfourth⟩ :=
    handshake_agreement toyDuo toyDuo_ideal (by decide) toyHandshake hmoves
  have hfirst : toyDuo.First .left := by
    unfold Duo.First
    decide
  have hleft : i = .left := by
    cases i with
    | left => rfl
    | right => exact absurd hi hfirst.not_other
  subst hleft
  obtain ⟨c', hc', hdone⟩ := hthird c hc hcomplete
  exact ⟨c, hc, c', hc', hcomplete, hdone, hfourth c c' hc hc' hcomplete hdone⟩

end BlankChat.Session
