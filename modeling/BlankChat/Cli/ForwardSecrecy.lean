import BlankChat.Cli.ContactInvariant
import BlankChat.Cli.SessionOrigin

/-!
# No text under static keys

The bootstrap session of a contact is derived from the two identities alone. Texts
wait until it is replaced: a contact whose initial handshake is complete holds only
keys of exchanges with a key pair drawn from the tape, in memory and in the file that
a restart reads. Under the usual assumption on the hash such keys are no bootstrap
keys.

Main result: `no_text_under_static_keys`.
-/

namespace BlankChat.Cli

open Lib BlankChat.Core Crypto Protocol Client

/-! ## Two kinds of keys -/

/-- What is hashed in an exchange with a key pair of the tape. -/
def ExchangeInput (E : Setup) (x : Bytes) : Prop :=
  ∃ n k e secret, E.tape.keypair n = some k ∧
    E.sodium.cryptoScalarmult k.secretKey e = some secret ∧
    (x = secret.toList ++ k.publicKey.toList ++ e.toList ∨
      x = secret.toList ++ e.toList ++ k.publicKey.toList)

/-- What is hashed for the bootstrap session with a known identity. -/
def StaticInput (E : Setup) (Known : PublicKeyType → Prop) (x : Bytes) : Prop :=
  ∃ pk ours sk theirs secret, Known pk ∧
    E.identity.getCurve25519PublicKey E.sodium = some ours ∧
    E.identity.getCurve25519SecretKey E.sodium = some sk ∧
    E.sodium.ed25519PkToCurve25519 pk = some theirs ∧
    E.sodium.cryptoScalarmult sk theirs = some secret ∧
    (x = secret.toList ++ ours.toList ++ theirs.toList ∨
      x = secret.toList ++ theirs.toList ++ ours.toList)

/-- The key that is derived from a hash input. -/
def inputKey (E : Setup) (x : Bytes) : SymmetricKey :=
  hashKey (E.sodium.cryptoGenerichash extendedHashSize x)

/-- The key comes from an ephemeral exchange. -/
def FromExchange (E : Setup) (key : SymmetricKey) : Prop :=
  ∃ x, ExchangeInput E x ∧ key = inputKey E x

/-- `DerivePairwiseMailboxes` produces the key for a known identity. -/
def StaticKey (E : Setup) (Known : PublicKeyType → Prop) (key : SymmetricKey) : Prop :=
  ∃ pk d, Known pk ∧ derivePairwiseMailboxes E.sodium E.identity pk = some d ∧
    (key = d.txKey ∨ key = d.rxKey)

/-- What is assumed of the hash and of fresh key pairs: an exchange and a bootstrap
session that hash different bytes have different keys, and a drawn public key is
nobody's identity. -/
structure Separated (E : Setup) (Known : PublicKeyType → Prop) : Prop where
  hash : ∀ x y, ExchangeInput E x → StaticInput E Known y → x ≠ y → inputKey E x ≠ inputKey E y
  own : ∀ n k ours, E.tape.keypair n = some k →
    E.identity.getCurve25519PublicKey E.sodium = some ours → k.publicKey ≠ ours
  known : ∀ n k pk theirs, E.tape.keypair n = some k → Known pk →
    E.sodium.ed25519PkToCurve25519 pk = some theirs → k.publicKey ≠ theirs

theorem StaticKey.input {E : Setup} {Known : PublicKeyType → Prop} {key : SymmetricKey}
    (h : StaticKey E Known key) : ∃ y, StaticInput E Known y ∧ key = inputKey E y := by
  obtain ⟨pk, d, hknown, hd, hkey⟩ := h
  obtain ⟨ours, sk, theirs, secret, hours, hsk, htheirs, hsecret, rfl⟩ :=
    derivePairwiseMailboxes_eq_some hd
  rcases hkey with rfl | rfl
  · exact ⟨_, ⟨pk, ours, sk, theirs, secret, hknown, hours, hsk, htheirs, hsecret, .inl rfl⟩, rfl⟩
  · exact ⟨_, ⟨pk, ours, sk, theirs, secret, hknown, hours, hsk, htheirs, hsecret, .inr rfl⟩, rfl⟩

theorem parts_eq {s a b s' a' b' : ByteVec 32}
    (h : s.toList ++ a.toList ++ b.toList = s'.toList ++ a'.toList ++ b'.toList) :
    a = a' ∧ b = b' := by
  have hlen : ∀ v : ByteVec 32, v.toList.length = 32 := fun v => v.toList_length
  obtain ⟨hsa, hb⟩ := List.append_inj h (by simp only [List.length_append, hlen])
  obtain ⟨-, ha⟩ := List.append_inj hsa (by rw [hlen, hlen])
  exact ⟨List.Vector.eq _ _ ha, List.Vector.eq _ _ hb⟩

/-- **A key of an exchange is no bootstrap key.** -/
theorem FromExchange.not_static {E : Setup} {Known : PublicKeyType → Prop}
    (hsep : Separated E Known) {key : SymmetricKey} (h : FromExchange E key) :
    ¬ StaticKey E Known key := by
  intro hstatic
  obtain ⟨x, hx, rfl⟩ := h
  obtain ⟨y, hy, hkey⟩ := hstatic.input
  by_cases hxy : x = y
  · subst hxy
    obtain ⟨n, k, e, secret, hk, -, hx⟩ := hx
    obtain ⟨pk, ours, sk, theirs, secret', hknown, hours, -, htheirs, -, hy⟩ := hy
    have hown := hsep.own n k ours hk hours
    have hpeer := hsep.known n k pk theirs hk hknown htheirs
    -- the drawn key would have to stand where an identity stands
    rcases hx with rfl | rfl <;> rcases hy with hy | hy
    · exact hown (parts_eq hy).1
    · exact hpeer (parts_eq hy).1
    · exact hpeer (parts_eq hy).2
    · exact hown (parts_eq hy).2
  · exact hsep.hash x y hx hy hxy hkey

/-! ## The invariant -/

/-- After the handshake all keys come from exchanges; before it no old mailbox is
kept. -/
structure Rotated (E : Setup) (c : Contact) : Prop where
  keys : c.initialPfsComplete = true → FromExchange E c.rxKey ∧ FromExchange E c.txKey ∧
    ∀ k, c.oldRxKey = some k → FromExchange E k
  early : c.initialPfsComplete = false → c.oldRxMailboxId = none ∧ c.oldRxKey = none
  pending : ∀ k, c.pendingEphemeralKey = some k → ∃ n, E.tape.keypair n = some k

theorem fromExchange_derive {E : Setup} {n : ℕ} {k : EphemeralKey} {e : PublicKeyType}
    {secret : ByteVec 32} (hk : E.tape.keypair n = some k)
    (hsecret : E.sodium.cryptoScalarmult k.secretKey e = some secret) :
    FromExchange E (deriveMailboxes E.sodium secret k.publicKey e).rxKey ∧
      FromExchange E (deriveMailboxes E.sodium secret k.publicKey e).txKey :=
  ⟨⟨_, ⟨n, k, e, secret, hk, hsecret, .inr rfl⟩, rfl⟩,
    ⟨_, ⟨n, k, e, secret, hk, hsecret, .inl rfl⟩, rfl⟩⟩

namespace Rotated

variable {E : Setup} {c c' : Contact}

theorem old (h : Rotated E c) {k : SymmetricKey} (hk : c.oldRxKey = some k) :
    FromExchange E k := by
  cases hcomplete : c.initialPfsComplete with
  | true => exact (h.keys hcomplete).2.2 k hk
  | false =>
      rw [(h.early hcomplete).2] at hk
      cases hk

theorem keepOld (h : Rotated E c) : Rotated E (keepOld c) := by
  unfold Cli.keepOld
  split
  · next hcomplete =>
      obtain ⟨hrx, htx, -⟩ := h.keys hcomplete
      refine ⟨fun _ => ⟨hrx, htx, ?_⟩, ?_, h.pending⟩
      · intro k hk
        obtain rfl := Option.some.inj hk
        exact hrx
      · intro hearly
        rw [show c.initialPfsComplete = false from hearly] at hcomplete
        cases hcomplete
  · exact h

theorem withSession (h : Rotated E c) {d : DerivedMailboxes} (hrx : FromExchange E d.rxKey)
    (htx : FromExchange E d.txKey) (hkeys : session c' = d) (hold : c'.oldRxKey = c.oldRxKey)
    (hcomplete : c'.initialPfsComplete = true)
    (hpending : ∀ k, c'.pendingEphemeralKey = some k → c.pendingEphemeralKey = some k) :
    Rotated E c' := by
  subst hkeys
  refine ⟨fun _ => ⟨hrx, htx, ?_⟩, ?_, fun k hk => h.pending k (hpending k hk)⟩
  · intro k hk
    exact h.old (hold ▸ hk)
  · intro hearly
    rw [hcomplete] at hearly
    cases hearly

theorem change {o : Occasion} (hchange : ContactChange E o c c') (h : Rotated E c) :
    Rotated E c' := by
  cases hchange with
  | step hstep =>
      cases hstep with
      | initiated hidle hlo hhi hk =>
          refine ⟨h.keys, h.early, ?_⟩
          intro k' hk'
          obtain rfl := Option.some.inj hk'
          exact ⟨_, hk⟩
      | answered hrole hsig hlo hhi hk hsecret =>
          obtain ⟨hrx, htx⟩ := fromExchange_derive hk hsecret
          exact h.keepOld.withSession hrx htx rfl rfl rfl (fun _ hk => hk)
      | keptOld => exact h.keepOld
      | completed hstate hpending hsig hsecret =>
          obtain ⟨n, hk⟩ := h.pending _ hpending
          obtain ⟨hrx, htx⟩ := fromExchange_derive hk hsecret
          exact h.withSession hrx htx rfl rfl rfl (fun _ hk => by cases hk)
  | droppedOld =>
      refine ⟨fun hcomplete => ?_, fun _ => ⟨rfl, rfl⟩, h.pending⟩
      obtain ⟨hrx, htx, -⟩ := h.keys hcomplete
      exact ⟨hrx, htx, fun _ hk => by cases hk⟩

theorem persistent (h : Rotated E c) : Rotated E (AddressBook.persistent c) := by
  refine ⟨fun hcomplete => ?_, fun _ => ⟨rfl, rfl⟩, fun _ hk => by cases hk⟩
  obtain ⟨hrx, htx, -⟩ := h.keys hcomplete
  exact ⟨hrx, htx, fun _ hk => by cases hk⟩

theorem bootstrap (a : Bytes) (pk : PublicKeyType) (d : DerivedMailboxes) :
    Rotated E (AddressBook.bootstrapContact a pk none d) := by
  refine ⟨fun hcomplete => ?_, fun _ => ⟨rfl, rfl⟩, fun _ hk => by cases hk⟩
  cases hcomplete

end Rotated

theorem rotated_invariant (E : Setup) (G : Guard) :
    ContactInvariant E G fun _ => Rotated E where
  mono _ _ _ _ hc := hc
  bootstrap _ _ _ _ _ _ := .bootstrap _ _ _
  change _ _ _ _ _ hchange hc := hc.change hchange
  counted _ _ hc := ⟨hc.keys, hc.early, hc.pending⟩
  persistent _ _ hc := hc.persistent

/-- All contacts have the property, and texts were encrypted under keys of exchanges
only. -/
structure Secret (E : Setup) (r : Repl) : Prop where
  all : AllContacts (fun _ => Rotated E) r
  log : ∀ p ∈ r.encryptions, IsText p.2 → FromExchange E p.1

namespace Secret

variable {E : Setup} {G : Guard} {r r' : Repl}

theorem contacts (h : Secret E r) {a : Bytes} {c : Contact}
    (hc : r.addressBook.getContact a = some c) : Rotated E c :=
  (h.all.contacts a c hc).2

theorem quiet {items : List Item} (hquiet : Quiet E r r' items) (h : Secret E r) :
    ∀ p ∈ r'.encryptions, IsText p.2 → FromExchange E p.1 := by
  obtain ⟨l, hlog, hl⟩ := hquiet.log
  intro p hp htext
  rw [hlog] at hp
  rcases List.mem_append.mp hp with hp | hp
  · exact h.log p hp htext
  · exact absurd htext (hl p hp)

theorem action (haction : Action E G r r') (h : Secret E r) : Secret E r' := by
  refine ⟨h.all.action (rotated_invariant E _) haction, ?_⟩
  cases haction with
  | quiet hquiet => exact h.quiet hquiet
  | change hquiet =>
      have hlog := h.quiet hquiet
      exact hlog
  | save => exact h.log
  | text hbook hdraws hc hcomplete hdue hlog =>
      intro p hp htext
      rw [hlog] at hp
      rcases List.mem_append.mp hp with hp | hp
      · exact h.log p hp htext
      · rw [List.mem_singleton.mp hp]
        exact ((h.contacts hc).keys hcomplete).2.1
  | add => exact h.log
  | tick _ _ _ hlog =>
      rw [hlog]
      exact h.log
  | restart => exact h.log

end Secret

theorem run_secret (E : Setup) (inputs : List Input) : Secret E (Repl.run E {} inputs) := by
  refine Repl.run_induction (fun _ r r' => Secret.action) ?_ inputs
  refine ⟨(rotated_invariant E {}).actions .refl, ?_⟩
  intro p hp
  cases hp

/-! ## The main result -/

/-- The key selected for a frame comes from an exchange once the handshake is
complete. -/
theorem Rotated.selectedKey {E : Setup} {c : Contact} (h : Rotated E c)
    (hcomplete : c.initialPfsComplete = true) (f : Frame) :
    FromExchange E (Repl.selectedKey c f) := by
  unfold Repl.selectedKey Repl.keyToUse
  split
  · next k _ hk => exact h.old hk
  · exact (h.keys hcomplete).1

/-- Before the handshake is complete, a text does nothing but raise a warning. -/
theorem text_before_handshake {E : Setup} {r : Repl} {f : Frame} {a : Bytes} {c : Contact}
    {plaintext : Bytes} (h : Rotated E c) (hearly : c.initialPfsComplete = false)
    (hrouted : Repl.Routed r f a c) (hpush : f.action = .push)
    (hdec : decryptAndUnpad E.sodium (Repl.selectedKey c f) f.payload = some plaintext)
    (htext : IsText plaintext) :
    r.onFrameReceived E f = r.print .textBeforeHandshake := by
  rw [Repl.onFrameReceived_push hrouted hpush hdec]
  obtain ⟨hold, -⟩ := h.early hearly
  have hdrop : ∀ b, r.dropOldMailbox a c b = (r, c) := by
    intro b
    unfold Repl.dropOldMailbox
    rw [hold, if_neg (by simp)]
  have hdispatch : r.dispatch E a c plaintext = (r.print .textBeforeHandshake, c) := by
    unfold Repl.dispatch
    rw [show extractOpcode plaintext = some .textMessage from htext]
    dsimp only
    rw [hearly]
    rfl
  unfold Repl.accept
  rw [hdrop]
  dsimp only
  rw [hdispatch]
  unfold Repl.putContact Repl.print
  rw [AddressBook.putContact_self hrouted.contact]

/-- **No text under static keys.** In every state that a client reaches, whatever it
adds, sends, receives and however often it restarts: a complete handshake means that
all keys of the contact come from ephemeral exchanges; no text was ever encrypted
under a bootstrap key; and a text that opens under one is not shown, stored or
acknowledged, the client only prints a warning. -/
theorem no_text_under_static_keys (E : Setup) (Known : PublicKeyType → Prop)
    (hsep : Separated E Known) (inputs : List Input) :
    let r := Repl.run E {} inputs
    (∀ a c, r.addressBook.getContact a = some c → c.initialPfsComplete = true →
      FromExchange E c.rxKey ∧ FromExchange E c.txKey ∧
        (∀ k, c.oldRxKey = some k → FromExchange E k) ∧
        ¬ StaticKey E Known c.rxKey ∧ ¬ StaticKey E Known c.txKey ∧
        ∀ k, c.oldRxKey = some k → ¬ StaticKey E Known k) ∧
    (∀ p ∈ r.encryptions, IsText p.2 → ¬ StaticKey E Known p.1) ∧
    (∀ f a c plaintext, Repl.Routed r f a c → f.action = .push →
      decryptAndUnpad E.sodium (Repl.selectedKey c f) f.payload = some plaintext →
      IsText plaintext → StaticKey E Known (Repl.selectedKey c f) →
      r.onFrameReceived E f = r.print .textBeforeHandshake) := by
  intro r
  have h : Secret E r := run_secret E inputs
  refine ⟨?_, ?_, ?_⟩
  · intro a c hc hcomplete
    obtain ⟨hrx, htx, hold⟩ := (h.contacts hc).keys hcomplete
    exact ⟨hrx, htx, hold, hrx.not_static hsep, htx.not_static hsep,
      fun k hk => (hold k hk).not_static hsep⟩
  · intro p hp htext
    exact (h.log p hp htext).not_static hsep
  · intro f a c plaintext hrouted hpush hdec htext hstatic
    have hc := h.contacts hrouted.contact
    cases hcomplete : c.initialPfsComplete with
    | true => exact absurd hstatic ((hc.selectedKey hcomplete f).not_static hsep)
    | false => exact text_before_handshake hc hcomplete hrouted hpush hdec htext

/-- Alice's drawn keys start with a byte that neither identity starts with. -/
theorem alice_keypair {n : ℕ} {k : EphemeralKey} (h : alice.tape.keypair n = some k) :
    k.publicKey.toList.getD 0 0 ≠ 1 ∧ k.publicKey.toList.getD 0 0 ≠ 2 := by
  obtain ⟨hn, rfl⟩ := toySetup_keypair h
  have hbytes : ∀ i : Fin 32, (16 + UInt8.ofNat i : UInt8) ≠ 1 ∧
      (16 + UInt8.ofNat i : UInt8) ≠ 2 := by decide
  exact hbytes ⟨n, hn⟩

/-- The transparent library keeps Alice's exchanges and the session with Bob apart. -/
theorem separated_alice : Separated alice (· = bob.identity.publicKey) := by
  refine ⟨?_, ?_, ?_⟩
  · rintro x y ⟨n, k, e, secret, hk, -, hx⟩
      ⟨pk, ours, sk, theirs, secret', rfl, hours, -, htheirs, -, hy⟩ - hkey
    obtain rfl : toyKey 1 = ours := Option.some.inj hours
    obtain rfl : toyKey 2 = theirs := Option.some.inj htheirs
    have h32 : x.getD 32 0 = y.getD 32 0 := congrArg (fun v => v.toList.getD 1 0) hkey
    have h64 : x.getD 64 0 = y.getD 64 0 := congrArg (fun v => v.toList.getD 2 0) hkey
    obtain ⟨hne1, hne2⟩ := alice_keypair hk
    rcases hx with rfl | rfl <;> rcases hy with rfl | rfl <;>
      rw [(getD_parts _ _ _).1, (getD_parts _ _ _).1] at h32 <;>
      rw [(getD_parts _ _ _).2, (getD_parts _ _ _).2] at h64
    · exact hne1 h32
    · exact hne2 h32
    · exact hne2 h64
    · exact hne1 h64
  · rintro n k ours hk hours rfl
    have hfirst := congrArg (fun v => v.toList.getD 0 0) (Option.some.inj hours)
    exact (alice_keypair hk).1 hfirst.symm
  · rintro n k pk theirs hk rfl htheirs rfl
    have hfirst := congrArg (fun v => v.toList.getD 0 0) (Option.some.inj htheirs)
    exact (alice_keypair hk).2 hfirst.symm

/-- The first text Alice sends after the handshake. -/
theorem no_text_under_static_keys_alice :
    ∃ p ∈ (Repl.run alice {} (aliceCompletes ++ [.send (ascii "bob") (ascii "hi")])).encryptions,
      IsText p.2 ∧ ¬ StaticKey alice (· = bob.identity.publicKey) p.1 := by
  obtain ⟨-, hlog, -⟩ := no_text_under_static_keys alice _ separated_alice
    (aliceCompletes ++ [.send (ascii "bob") (ascii "hi")])
  have htext : ∃ p ∈ (Repl.run alice {}
      (aliceCompletes ++ [.send (ascii "bob") (ascii "hi")])).encryptions,
      extractOpcode p.2 = some .textMessage := by decide +kernel
  obtain ⟨p, hp, htext⟩ := htext
  exact ⟨p, hp, htext, hlog p hp htext⟩

end BlankChat.Cli
