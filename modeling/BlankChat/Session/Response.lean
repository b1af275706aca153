import BlankChat.Cli.Screen
import BlankChat.Lib.Draining
import BlankChat.Session.Mailboxes

/-!
# Clients that answer

`Setting.Reacts` leaves it open whether a client answers: the library may fail to encrypt,
and there may be no key pair. Where neither happens a client answers every packet that
calls for an answer: a text with a receipt that carries its hash, a request with an
acknowledgement (`onFrameReceived_responds`), and what it prints tells what it has read
(`onFrameReceived_news`).
-/

namespace BlankChat.Session

open Lib Lib.Rotation BlankChat.Core Crypto Protocol Client Cli

/-- Encryption does not fail. -/
def Encrypts (S : Sodium) : Prop := ∀ key nonce m, (S.aeadEncrypt key nonce m).isSome = true

theorem Encrypts.encryptWithPadding_ne {S : Sodium} (h : Encrypts S) (key : SymmetricKey)
    (nonce : Nonce) (plaintext : Bytes) : encryptWithPadding S key nonce plaintext ≠ none := by
  unfold encryptWithPadding
  rw [ne_eq, Option.map_eq_none_iff]
  exact Option.isSome_iff_ne_none.mp (h key nonce _)

namespace Setting

variable {G : Setting} {s : Side} {r : Repl} {c : Contact} {p p' : Party EphemeralKey Bytes}
  {f : Frame} {m : Message}

/-! ## Answers -/

variable (G) in
/-- What a party does with a packet it reads, when nothing fails. -/
def Responds (s : Side) : Body EphemeralKey Bytes → Party EphemeralKey Bytes →
    Party EphemeralKey Bytes → Prop
  | .text content, p, p' => p' = p.queue s (.receipt (hashPayload G.sodium content))
  | .receipt _, p, p' => p' = p
  | .request e, p, p' => ∃ e', G.DrawnBy s e' ∧ p' = p.answer s e e'
  | .ack e e', p, p' => p' = p.complete s e e'

theorem Responds.reacts {b : Body EphemeralKey Bytes} (h : G.Responds s b p p') :
    G.Reacts s b p p' := by
  cases b with
  | text content => exact ⟨_, .inr h⟩
  | receipt content => exact h
  | request e => exact .inr h
  | ack e e' => exact h

/-- A text is answered with a receipt, and what else is queued is neither. Any answer is
lighter than the packet that called for it. -/
theorem Responds.queued {b : Body EphemeralKey Bytes} (h : G.Responds s b p p') :
    ∃ l, p'.out = p.out ++ l ∧ l.filterMap (fun q => q.body.text?) = [] ∧
      l.countP (fun q => q.body.isReceipt) = b.text?.toList.length ∧
      Net.weigh 0 l < 3 * b.rank - 2 := by
  cases b with
  | text content =>
      obtain rfl := h
      exact ⟨[_], rfl, rfl, rfl, Nat.lt_succ_self 3⟩
  | receipt content =>
      obtain rfl := h
      exact ⟨[], (List.append_nil _).symm, rfl, rfl, Nat.zero_lt_one⟩
  | request e =>
      obtain ⟨e', -, rfl⟩ := h
      exact ⟨[_], rfl, rfl, rfl, Nat.lt_succ_self 3⟩
  | ack e e' =>
      obtain rfl := h
      exact ⟨[], (List.append_nil _).symm, rfl, rfl, Nat.zero_lt_one⟩

section Handlers

variable (henc : Encrypts G.sodium)

include henc

theorem handleTextMessage_responds (h : G.Leaves s (r, c) p) (plaintext text : Bytes) :
    G.Leaves s (r.handleTextMessage (G.setup s) (G.aliasName s) c plaintext text, c)
      (p.queue s (.receipt (hashPayload G.sodium text))) := by
  unfold Repl.handleTextMessage
  dsimp only
  split
  · next r₁ he => exact absurd (Prod.mk.inj he).1 (henc.encryptWithPadding_ne _ _ _)
  · next ct r₁ he =>
      obtain ⟨hct, rfl⟩ := Prod.mk.inj he
      refine (Leaves.push (b := .receipt _) ?_ hct trivial).print _
      exact h.work rfl rfl rfl le_rfl rfl

theorem answerRotation_responds (hG : G.Honest) (h : G.Leaves s (r, c) p) {e k : EphemeralKey}
    (he : G.DrawnBy s.other e) (hk : G.DrawnBy s k) :
    G.Leaves s (r.answerRotation (G.setup s) (G.aliasName s) c e.publicKey k)
      (p.answer s e k) := by
  obtain ⟨secret, hsecret, hderive⟩ := hG.derive hk he
  rw [Repl.answerRotation_eq]
  split
  · next r₁ henc' => exact absurd (Prod.mk.inj henc').1 (henc.encryptWithPadding_ne _ _ _)
  · next ct r₁ henc' =>
      obtain ⟨hct, rfl⟩ := Prod.mk.inj henc'
      rw [show (G.setup s).sodium.cryptoScalarmult k.secretKey e.publicKey = some secret
        from hsecret]
      dsimp only
      rw [show deriveMailboxes (G.setup s).sodium secret k.publicKey e.publicKey =
        G.sessionOf s (Epoch.of s k e) from hderive]
      refine Leaves.save (c := c) (p := p.queue s (.ack e k)) ?_ rfl (h.agrees.answer he hk)
      exact ((h.encrypt c.txKey _).push (b := .ack e k) hct ⟨he, hk⟩).print _

theorem handlePfsRotateRequest_responds (hG : G.Honest) (h : G.Leaves s (r, c) p)
    {e : EphemeralKey} (he : G.DrawnBy s.other e)
    (hdraw : ((G.tape s).keypair r.keyDraws).isSome = true) :
    ∃ e', G.DrawnBy s e' ∧ G.Leaves s (r.handlePfsRotateRequest (G.setup s) (G.aliasName s) c
      (G.plain s.other (.request e))) (p.answer s e e') := by
  have hsig : (G.setup s).sodium.cryptoSignVerifyDetached
      (Repl.sign (G.setup s.other) e.publicKey.toList) e.publicKey.toList c.publicKey = true := by
    rw [h.agrees.peer]
    exact hG.verify s.other _
  obtain ⟨k, hk⟩ := Option.isSome_iff_exists.mp hdraw
  have hdrawn := h.drawn hk
  have hgen : r.generate (G.setup s) = (some k, (r.generate (G.setup s)).2) := by
    unfold Repl.generate
    rw [show (G.setup s).tape.keypair r.keyDraws = some k from hk]
  unfold Repl.handlePfsRotateRequest
  rw [show parsePfsRotateRequest (G.plain s.other (.request e)) =
    some ⟨e.publicKey, Repl.sign (G.setup s.other) e.publicKey.toList⟩
    from parsePfsRotate_build ..]
  dsimp only
  rw [hsig, if_neg (by decide), h.agrees.complete, if_neg (by simp), hgen]
  exact ⟨k, hdrawn, answerRotation_responds henc hG h.generate he hdrawn⟩

theorem dispatch_responds (hG : G.Honest) (h : G.Leaves s (r, c) p) {b : Body EphemeralKey Bytes}
    (hb : G.ValidBody s.other b) (hrank : b.rank = 2)
    (hdraw : ((G.tape s).keypair r.keyDraws).isSome = true) :
    ∃ p', G.Responds s b p p' ∧
      G.Leaves s (r.dispatch (G.setup s) (G.aliasName s) c (G.plain s.other b)) p' := by
  unfold Repl.dispatch
  cases b with
  | text content =>
      rw [show extractOpcode (G.plain s.other (.text content)) = some .textMessage from rfl]
      dsimp only
      rw [h.agrees.complete, if_neg (by decide),
        show parseTextMessage (G.plain s.other (.text content)) = some content from rfl]
      exact ⟨_, rfl, handleTextMessage_responds henc h _ content⟩
  | request e =>
      rw [show extractOpcode (G.plain s.other (.request e)) = some .pfsRotateRequest from rfl]
      obtain ⟨e', he', hleaves⟩ := handlePfsRotateRequest_responds henc hG h hb hdraw
      exact ⟨_, ⟨e', he', rfl⟩, hleaves⟩
  | receipt content => cases hrank
  | ack e e' => cases hrank

/-- **A client answers what it reads.** -/
theorem onFrameReceived_responds (hG : G.Honest) (h : G.Client s r p) (hf : G.Encodes f m)
    (hdest : m.dest = s) (hack : ∀ e e', m.body = .ack e e' → p.pending = some e)
    (hreads : p.Reads m.epoch) (hdraw : ((G.tape s).keypair r.keyDraws).isSome = true) :
    ∃ p', G.Responds s m.body (p.hear m) p' ∧ G.Client s (r.onFrameReceived (G.setup s) f) p' := by
  by_cases hrank : m.body.rank = 2
  · obtain ⟨c, hc, hagrees⟩ := h
    have hconfirms : m.body.confirms = true := by
      cases hb : m.body <;> rw [hb] at hrank <;> first | rfl | cases hrank
    have hpush : f.action = .push := by
      rw [hf.action]
      cases hb : m.body <;> rw [hb] at hrank <;> first | rfl | cases hrank
    have hroute := AddressBook.getAliasByRxMailboxId_single hc.contacts f.mailboxId
    rw [(listensTo_iff hG hagrees hf hdest).mpr hreads, if_pos rfl] at hroute
    have hrouted : Repl.Routed r f (G.aliasName s) c := ⟨hroute, hG.named s, hc.getContact⟩
    rw [Repl.onFrameReceived_push hrouted hpush (decrypt_packet hG hagrees hf hdest hreads)]
    have hdrop := dropOldMailbox_leaves hG ⟨⟨c, hc, rfl⟩, hagrees⟩ hf hdest hconfirms
    have hdraws : (r.dropOldMailbox (G.aliasName s) c
        (Repl.usedOldKey c f.mailboxId)).1.keyDraws = r.keyDraws := by
      unfold Repl.dropOldMailbox
      split <;> rfl
    have hvalid := hf.body
    rw [hdest] at hvalid
    obtain ⟨p', hresponds, hp'⟩ := dispatch_responds henc hG hdrop hvalid hrank (hdraws ▸ hdraw)
    exact ⟨p', hresponds, hp'.put⟩
  · -- receipts and acknowledgements call for no answer
    obtain ⟨p', hp', hclient⟩ := onFrameReceived_client hG h hf hdest hack
    obtain ⟨-, hreacts⟩ := hp'.resolve_left fun hnot => hnot.1 hreads
    refine ⟨p', ?_, hclient⟩
    cases hb : m.body with
    | text content => exact absurd (by rw [hb]; rfl) hrank
    | request e => exact absurd (by rw [hb]; rfl) hrank
    | receipt content =>
        rw [hb] at hreacts
        exact hreacts
    | ack e e' =>
        rw [hb] at hreacts
        exact hreacts

/-! ## Sends -/

theorem queueText_queues (h : G.Carries s r c p.out) (hagrees : G.Agrees s c p) (text : Bytes) :
    G.Client s (r.queueText (G.setup s) (G.aliasName s) c text) (p.queue s (.text text)) := by
  unfold Repl.queueText
  split
  · next r₁ he => exact absurd (Prod.mk.inj he).1 (henc.encryptWithPadding_ne _ _ _)
  · next ct r₁ he =>
      obtain ⟨hct, rfl⟩ := Prod.mk.inj he
      have hwork : G.Carries s (r.encrypt (G.setup s) c.txKey (buildTextMessage text)).2 c p.out :=
        h.work rfl rfl rfl le_rfl rfl
      have hpush := hwork.push (hagrees.encodes (b := .text text) hct trivial) rfl
      exact ⟨c, hpush.work rfl rfl rfl le_rfl rfl, hagrees.queue _⟩

theorem countText_queues (h : G.Leaves s (r, c) p) (text : Bytes) :
    G.Client s ((r.putContact (G.aliasName s)
        { c with messageCounter := c.messageCounter + 1 }).queueText (G.setup s)
      (G.aliasName s) { c with messageCounter := c.messageCounter + 1 } text)
      (p.queue s (.text text)) := by
  obtain ⟨⟨c₀, hc₀, hsame⟩, hagrees⟩ := h
  have hput : G.Carries s (r.putContact (G.aliasName s)
      { c with messageCounter := c.messageCounter + 1 }) _ _ := hc₀.put hsame
  exact queueText_queues henc hput (hagrees.counted _) text

/-- **A send queues the text**, perhaps after the request of a rotation. -/
theorem handleSend_queues (h : G.Client s r p) (text : Bytes) :
    ∃ p₁, G.Starts s p p₁ ∧
      G.Client s (r.handleSend (G.setup s) (G.aliasName s) text) (p₁.queue s (.text text)) := by
  obtain ⟨c, hc, hagrees⟩ := h
  have hleaves : G.Leaves s (r, c) p := ⟨⟨c, hc, rfl⟩, hagrees⟩
  obtain ⟨r', hr', heq⟩ : ∃ r', G.Leaves s (r', c) p ∧
      r.handleSend (G.setup s) (G.aliasName s) text =
        let q := r'.checkMessageInterval (G.setup s) c
        (q.1.putContact (G.aliasName s)
          { q.2 with messageCounter := q.2.messageCounter + 1 }).queueText (G.setup s)
          (G.aliasName s) { q.2 with messageCounter := q.2.messageCounter + 1 } text := by
    unfold Repl.handleSend
    rw [hc.getContact]
    dsimp only
    rw [hagrees.complete, if_neg (by decide)]
    refine ⟨_, ?_, rfl⟩
    exact hleaves.work rfl rfl rfl le_rfl rfl
  rw [heq]
  obtain ⟨p₁, hstarts, hp₁⟩ := checkMessageInterval_leaves hr'
  exact ⟨p₁, hstarts, countText_queues henc hp₁ text⟩

end Handlers

/-! ## The screen -/

variable (G) in
/-- What a packet brings to the screen. -/
def newsOf (s : Side) : Body EphemeralKey Bytes → List Notice
  | .text content => [.newMessage (G.aliasName s) content]
  | .receipt _ => [.delivered (G.aliasName s)]
  | _ => []

theorem newsOf_shown (s : Side) (b : Body EphemeralKey Bytes) :
    (G.newsOf s b).filterMap Notice.shown? = b.text?.toList.map fun t => (G.aliasName s, t) := by
  cases b <;> rfl

theorem newsOf_told (s : Side) (b : Body EphemeralKey Bytes) :
    (G.newsOf s b).count (.delivered (G.aliasName s)) = if b.isReceipt then 1 else 0 := by
  cases b with
  | receipt content => exact List.count_singleton_self
  | text content => rfl
  | request e => rfl
  | ack e e' => rfl

/-- **The screen tells what a client reads.** -/
theorem onFrameReceived_news (hG : G.Honest) (h : G.Client s r p) (hf : G.Encodes f m)
    (hdest : m.dest = s) (hreads : p.Reads m.epoch) :
    (r.onFrameReceived (G.setup s) f).news = r.news ++ G.newsOf s m.body := by
  obtain ⟨c, hc, hagrees⟩ := h
  have hroute := AddressBook.getAliasByRxMailboxId_single hc.contacts f.mailboxId
  rw [(listensTo_iff hG hagrees hf hdest).mpr hreads, if_pos rfl] at hroute
  have hrouted : Repl.Routed r f (G.aliasName s) c := ⟨hroute, hG.named s, hc.getContact⟩
  have hdec := decrypt_packet hG hagrees hf hdest hreads
  have haction := hf.action
  have hpushed := fun hpush => Repl.onFrameReceived_push_news (E := G.setup s) _ _ hrouted hpush
    hdec hagrees.complete
  cases hb : m.body with
  | receipt content =>
      rw [hb] at haction
      exact Repl.onFrameReceived_ack_news _ _ hrouted haction hdec
  | text content =>
      rw [hb] at haction hpushed
      exact hpushed haction
  | request e =>
      rw [hb] at haction hpushed
      exact hpushed haction
  | ack e e' =>
      rw [hb] at haction hpushed
      exact hpushed haction

end Setting

end BlankChat.Session
