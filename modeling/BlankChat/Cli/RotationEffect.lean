import BlankChat.Cli.ContactStep

/-!
# What a rotation message does as a whole

A handler of a rotation message should either complete the rotation or leave everything
as it was. `HandlePfsRotateAck` writes nothing before it has the shared secret.
`HandlePfsRotateRequest` queues its acknowledgement, and keeps the current mailbox as the
old one, before it asks the library for the secret; the library may refuse.

Main result: `rotation_all_or_nothing`, the refusal is the only way to half of an effect.
-/

namespace BlankChat.Cli

open Lib BlankChat.Core Crypto Protocol Client

/-- The contact and the outbox are as before, and so is the address book with its file. -/
structure Untouched (r : Repl) (c : Contact) (p : Repl × Contact) : Prop where
  contact : p.2 = c
  outbox : p.1.outbox = r.outbox
  addressBook : p.1.addressBook = r.addressBook

/-- The contact has the session `d` and a counter of zero, and is saved with them. -/
structure Installed (r : Repl) (aliasName : Bytes) (d : DerivedMailboxes)
    (p : Repl × Contact) : Prop where
  session : session p.2 = d
  counter : p.2.messageCounter = 0
  saved : p.1.addressBook = (r.addressBook.putContact aliasName p.2).saveToDisk

/-- A request is answered: the session of the exchange is installed, and exactly one
acknowledgement is queued, under the session before. -/
def RequestCompletes (E : Setup) (r : Repl) (aliasName : Bytes) (c : Contact)
    (plaintext : Bytes) (p : Repl × Contact) : Prop :=
  ∃ req k secret, parsePfsRotateRequest plaintext = some req ∧
    E.tape.keypair r.keyDraws = some k ∧
    E.sodium.cryptoScalarmult k.secretKey req.ephemeralPublicKey = some secret ∧
    Installed r aliasName
      (deriveMailboxes E.sodium secret k.publicKey req.ephemeralPublicKey) p ∧
    Queued E r p.1 [.to c (.ack req.ephemeralPublicKey k)]

/-- An acknowledgement completes our request: the session of the exchange is installed. -/
def AckCompletes (E : Setup) (r : Repl) (aliasName : Bytes) (c : Contact)
    (plaintext : Bytes) (p : Repl × Contact) : Prop :=
  ∃ ack k secret, parsePfsRotateAck plaintext = some ack ∧ c.pendingEphemeralKey = some k ∧
    E.sodium.cryptoScalarmult k.secretKey ack.ephemeralPublicKey = some secret ∧
    Installed r aliasName
      (deriveMailboxes E.sodium secret k.publicKey ack.ephemeralPublicKey) p ∧
    p.1.outbox = r.outbox

/-- The branch in which the initiator of the initial handshake ignores a signed request. -/
def IgnoresRequest (E : Setup) (c : Contact) (plaintext : Bytes) : Prop :=
  ∃ req, parsePfsRotateRequest plaintext = some req ∧
    E.sodium.cryptoSignVerifyDetached req.signature req.ephemeralPublicKey.toList
      c.publicKey = true ∧
    c.initialPfsComplete = false ∧ Repl.isInitialPfsInitiator E c = true

theorem session_keepOld (c : Contact) : session (keepOld c) = session c := by
  unfold keepOld
  split <;> rfl

namespace Repl

variable {E : Setup} (r : Repl) (aliasName : Bytes) (c : Contact) (plaintext : Bytes)

/-- A request is dropped without a trace, or its acknowledgement is queued. Then the
secret decides whether the session is installed. -/
theorem handlePfsRotateRequest_cases (h : ¬ IgnoresRequest E c plaintext) :
    (r.answer c E plaintext = none ∧
      Untouched r c (r.handlePfsRotateRequest E aliasName c plaintext)) ∨
    ∃ req k r₁, parsePfsRotateRequest plaintext = some req ∧
      E.tape.keypair r.keyDraws = some k ∧
      r.answer c E plaintext = some (k, req.ephemeralPublicKey) ∧
      Quiet E r r₁ [.to c (.ack req.ephemeralPublicKey k)] ∧
      r.handlePfsRotateRequest E aliasName c plaintext =
        match E.sodium.cryptoScalarmult k.secretKey req.ephemeralPublicKey with
        | none => (r₁, keepOld c)
        | some secret =>
            let c' := answered c
              (deriveMailboxes E.sodium secret k.publicKey req.ephemeralPublicKey)
            ((r₁.print (.rotationAnswered aliasName)).save aliasName c', c') := by
  unfold handlePfsRotateRequest answer
  cases hreq : parsePfsRotateRequest plaintext with
  | none => exact .inl ⟨rfl, rfl, rfl, rfl⟩
  | some req =>
      dsimp only
      by_cases hsig : E.sodium.cryptoSignVerifyDetached req.signature
          req.ephemeralPublicKey.toList c.publicKey = true
      · have hrole : ¬ (!c.initialPfsComplete && isInitialPfsInitiator E c) = true := by
          intro hrole
          rw [Bool.and_eq_true, Bool.not_eq_true'] at hrole
          exact h ⟨req, hreq, hsig, hrole.1, hrole.2⟩
        simp only [hsig, Bool.not_true, if_neg Bool.false_ne_true, if_neg hrole]
        cases hk : E.tape.keypair r.keyDraws with
        | none =>
            rw [show r.generate E = (none, (r.generate E).2) from Prod.ext hk rfl]
            exact .inl ⟨rfl, rfl, rfl, rfl⟩
        | some k =>
            rw [show r.generate E = (some k, (r.generate E).2) from Prod.ext hk rfl]
            dsimp only
            rw [answerRotation_eq]
            have hquiet := (Quiet.generate (E := E) r).before (.encrypt (E := E) _ c.txKey
              (not_isText_buildPfsRotate (show PayloadOpcode.pfsRotateAck ≠ .textMessage by decide)
                k.publicKey (sign E (req.ephemeralPublicKey.toList ++ k.publicKey.toList))))
            split
            · next r₁ he =>
                refine .inl ⟨?_, rfl, ?_, ?_⟩
                · rw [he]
                  rfl
                · obtain ⟨-, rfl⟩ := Prod.mk.inj he
                  rfl
                · obtain ⟨-, rfl⟩ := Prod.mk.inj he
                  rfl
            · next ct r₁ he =>
                have hitem := inFrame_of_encrypt (E := E) c (.ack req.ephemeralPublicKey k) he
                refine .inr ⟨req, k, r₁.push (Frame.createPush c.txMailboxId ct), rfl, rfl, ?_, ?_,
                  rfl⟩
                · rw [he]
                  rfl
                · obtain ⟨-, rfl⟩ := Prod.mk.inj he
                  exact hquiet.before (.push _ hitem)
      · rw [Bool.not_eq_true] at hsig
        rw [hsig]
        exact .inl ⟨rfl, rfl, rfl, rfl⟩

variable {r aliasName c plaintext}

theorem handlePfsRotateRequest_refused (aliasName : Bytes) {k : EphemeralKey} {e : PublicKeyType}
    (hanswer : r.answer c E plaintext = some (k, e))
    (hrefused : E.sodium.cryptoScalarmult k.secretKey e = none) :
    let p := r.handlePfsRotateRequest E aliasName c plaintext
    Queued E r p.1 [.to c (.ack e k)] ∧ p.2 = keepOld c ∧
      ¬ RequestCompletes E r aliasName c plaintext p ∧ ¬ Untouched r c p := by
  have hnot : ¬ IgnoresRequest E c plaintext := by
    rintro ⟨-, -, -, hinitial, hrole⟩
    obtain ⟨-, -, hanswers, -⟩ := answer_eq_some hanswer
    rcases hanswers with hcomplete | hother
    · exact absurd (hinitial.symm.trans hcomplete) (by decide)
    · exact absurd (hother.symm.trans hrole) (by decide)
  rcases handlePfsRotateRequest_cases r aliasName c plaintext hnot with
    ⟨hnone, -⟩ | ⟨req, k', r₁, hreq, hk, hanswer', hquiet, heq⟩
  · rw [hnone] at hanswer
    cases hanswer
  · obtain ⟨rfl, rfl⟩ := Prod.mk.inj (Option.some.inj (hanswer'.symm.trans hanswer))
    rw [hrefused] at heq
    rw [heq]
    refine ⟨hquiet.queued, rfl, ?_, ?_⟩
    · rintro ⟨req', k, secret, hreq', hk', hsecret, -⟩
      obtain rfl := Option.some.inj (hreq.symm.trans hreq')
      obtain rfl := Option.some.inj (hk.symm.trans hk')
      rw [hrefused] at hsecret
      cases hsecret
    · intro huntouched
      obtain ⟨fs, hfs, hitems⟩ := hquiet.queued
      have hlen := congrArg List.length (hfs.symm.trans huntouched.outbox)
      rw [List.length_append, hitems.length_eq] at hlen
      exact absurd hlen (by simp)

theorem handlePfsRotateRequest_whole (h : ¬ IgnoresRequest E c plaintext)
    (hsecret : ∀ k e, r.answer c E plaintext = some (k, e) →
      (E.sodium.cryptoScalarmult k.secretKey e).isSome = true) :
    let p := r.handlePfsRotateRequest E aliasName c plaintext
    RequestCompletes E r aliasName c plaintext p ∨ Untouched r c p := by
  rcases handlePfsRotateRequest_cases r aliasName c plaintext h with
    ⟨-, huntouched⟩ | ⟨req, k, r₁, hreq, hk, hanswer, hquiet, heq⟩
  · exact .inr huntouched
  · obtain ⟨secret, hsome⟩ := Option.isSome_iff_exists.mp (hsecret _ _ hanswer)
    rw [hsome] at heq
    left
    refine ⟨req, k, secret, hreq, hk, hsome, ?_, ?_⟩
    · rw [heq]
      refine ⟨rfl, rfl, ?_⟩
      show (r₁.addressBook.putContact _ _).saveToDisk = _
      rw [hquiet.book]
    · rw [heq]
      exact hquiet.queued

theorem handlePfsRotateAck_whole :
    let p := r.handlePfsRotateAck E aliasName c plaintext
    AckCompletes E r aliasName c plaintext p ∨ Untouched r c p := by
  unfold handlePfsRotateAck
  split
  · next pending hstate hpending =>
      cases hack : parsePfsRotateAck plaintext with
      | none => exact .inr ⟨rfl, rfl, rfl⟩
      | some ack =>
          dsimp only
          split
          · exact .inr ⟨rfl, rfl, rfl⟩
          · split
            · exact .inr ⟨rfl, rfl, rfl⟩
            · next secret hsecret =>
                exact .inl ⟨ack, pending, secret, hack, hpending, hsecret, ⟨rfl, rfl, rfl⟩, rfl⟩
  · exact .inr ⟨rfl, rfl, rfl⟩

end Repl

/-- **A rotation message has all of its effect or none, unless the library refuses the
secret of a request that is answered.** The request may fail at every other step: its
format, its signature, the draw of a key, the encryption of the acknowledgement. An
acknowledgement has all of its effect or none in every case. -/
theorem rotation_all_or_nothing (E : Setup) (r : Repl) (aliasName : Bytes) (c : Contact)
    (plaintext : Bytes) :
    (¬ IgnoresRequest E c plaintext →
      (RequestCompletes E r aliasName c plaintext
          (r.handlePfsRotateRequest E aliasName c plaintext) ∨
        Untouched r c (r.handlePfsRotateRequest E aliasName c plaintext) ↔
      ∀ k e, r.answer c E plaintext = some (k, e) →
        (E.sodium.cryptoScalarmult k.secretKey e).isSome = true)) ∧
    (AckCompletes E r aliasName c plaintext (r.handlePfsRotateAck E aliasName c plaintext) ∨
      Untouched r c (r.handlePfsRotateAck E aliasName c plaintext)) := by
  refine ⟨?_, Repl.handlePfsRotateAck_whole⟩
  intro hnot
  constructor
  · intro hwhole k e hanswer
    rw [Option.isSome_iff_ne_none]
    intro hrefused
    obtain ⟨-, -, hcompletes, huntouched⟩ :=
      Repl.handlePfsRotateRequest_refused aliasName hanswer hrefused
    exact hwhole.elim hcompletes huntouched
  · exact Repl.handlePfsRotateRequest_whole hnot

/-! ## A key that is refused -/

/-- The transparent library, but a point of small order is refused. -/
def refusing : Sodium :=
  { transparent with
    cryptoScalarmult := fun k p => if p = toyKey 0 then none else transparent.cryptoScalarmult k p }

def cautiousBob : Setup := { bob with sodium := refusing }

/-- Alice signs a point of small order. -/
def degenerateRequest : Bytes :=
  buildPfsRotateRequest (toyKey 0) (Repl.sign alice (toyKey 0).toList)

/-- Bob after the initial handshake. -/
def bobReady : Repl := Repl.run cautiousBob {} bobAnswers

theorem bobReady_answers :
    ∃ c k e, bobReady.addressBook.getContact (ascii "alice") = some c ∧
      c.initialPfsComplete = true ∧
      bobReady.answer c cautiousBob degenerateRequest = some (k, e) ∧
      cautiousBob.sodium.cryptoScalarmult k.secretKey e = none := by
  have hrun : (bobReady.addressBook.getContact (ascii "alice")).any (fun c =>
      c.initialPfsComplete && (bobReady.answer c cautiousBob degenerateRequest).any fun q =>
        (cautiousBob.sodium.cryptoScalarmult q.1.secretKey q.2).isNone) = true := by
    decide +kernel
  obtain ⟨c, hc, hany⟩ := (Option.any_eq_true _ _).mp hrun
  obtain ⟨hcomplete, hanswer⟩ := Bool.and_eq_true_iff.mp hany
  obtain ⟨⟨k, e⟩, hke, hnone⟩ := (Option.any_eq_true _ _).mp hanswer
  exact ⟨c, k, e, hc, hcomplete, hke, Option.isNone_iff_eq_none.mp hnone⟩

/-- **A signed point of small order is half answered**: after the initial handshake, the
acknowledgement is in Bob's outbox and the mailbox is kept as an old one, but there is no
new session. -/
theorem degenerate_request_half_done :
    ∃ c, bobReady.addressBook.getContact (ascii "alice") = some c ∧
      ¬ IgnoresRequest cautiousBob c degenerateRequest ∧
      let p := bobReady.handlePfsRotateRequest cautiousBob (ascii "alice") c degenerateRequest
      ¬ RequestCompletes cautiousBob bobReady (ascii "alice") c degenerateRequest p ∧
        ¬ Untouched bobReady c p ∧ p.1.outbox.length = bobReady.outbox.length + 1 ∧
        p.2.oldRxMailboxId = some c.rxMailboxId ∧ session p.2 = session c := by
  obtain ⟨c, k, e, hc, hcomplete, hanswer, hrefused⟩ := bobReady_answers
  refine ⟨c, hc, ?_, ?_⟩
  · rintro ⟨-, -, -, hinitial, -⟩
    exact absurd (hinitial.symm.trans hcomplete) (by decide)
  · obtain ⟨⟨fs, hfs, hitems⟩, hkept, hcompletes, huntouched⟩ :=
      Repl.handlePfsRotateRequest_refused (ascii "alice") hanswer hrefused
    refine ⟨hcompletes, huntouched, ?_, ?_, ?_⟩
    · rw [hfs, List.length_append, hitems.length_eq]
      rfl
    · rw [hkept, keepOld, if_pos hcomplete]
    · rw [hkept, session_keepOld]

/-- Alice's request of the initial handshake. -/
def greeting : Bytes := (Outgoing.request ⟨toyKey 16, toyKey 16⟩).plaintext alice

/-- The greeting is answered as a whole. -/
theorem rotation_all_or_nothing_greeting :
    let r := Repl.run bob {} bobWaits
    ∃ c q, r.addressBook.getContact (ascii "alice") = some c ∧
      r.answer c bob greeting = some q ∧
      (RequestCompletes bob r (ascii "alice") c greeting
          (r.handlePfsRotateRequest bob (ascii "alice") c greeting) ∨
        Untouched r c (r.handlePfsRotateRequest bob (ascii "alice") c greeting)) := by
  intro r
  have hrun : (r.addressBook.getContact (ascii "alice")).any (fun c =>
      !Repl.isInitialPfsInitiator bob c && (r.answer c bob greeting).isSome) = true := by
    decide +kernel
  obtain ⟨c, hc, hany⟩ := (Option.any_eq_true _ _).mp hrun
  obtain ⟨hrole, hanswer⟩ := Bool.and_eq_true_iff.mp hany
  obtain ⟨q, hq⟩ := Option.isSome_iff_exists.mp hanswer
  refine ⟨c, q, hc, hq, ((rotation_all_or_nothing bob r (ascii "alice") c greeting).1 ?_).mpr ?_⟩
  · rintro ⟨-, -, -, -, hinitiator⟩
    rw [hinitiator] at hrole
    cases hrole
  · exact fun k e _ => rfl

end BlankChat.Cli
