import BlankChat.Cli.SessionOrigin

/-!
# Copies of a rotation request

A request is signed by its sender, but nothing in it names the session it belongs to,
and the client keeps no record of the requests it has answered. A copy is harmless
once the key that opened the request is not selected for its mailbox any more; while
the old mailbox is kept it rotates the session a second time.
-/

namespace BlankChat.Cli

open Lib BlankChat.Core Crypto Protocol Client

namespace Repl

variable {E : Setup}

/-- The frame is a rotation request that moves the session of the contact it is
routed to. -/
structure RotatesBy (E : Setup) (r : Repl) (f : Frame) (a : Bytes) (c : Contact) : Prop where
  routed : Routed r f a c
  push : f.action = .push
  request : ∃ plaintext, decryptAndUnpad E.sodium (selectedKey c f) f.payload = some plaintext ∧
    (parsePfsRotateRequest plaintext).isSome = true
  moved : ((r.onFrameReceived E f).addressBook.getContact a).map session ≠ some (session c)

/-- A frame that was encrypted under another key than the one selected for it leaves
the address book alone. -/
theorem onFrameReceived_wrong_key (hideal : E.sodium.AeadIdeal) {r : Repl} {f : Frame}
    {key : SymmetricKey} {nonce : Nonce} {plaintext : Bytes}
    (hmade : encryptWithPadding E.sodium key nonce plaintext = some f.payload)
    (hkey : ∀ a c, Routed r f a c → selectedKey c f ≠ key) :
    (r.onFrameReceived E f).addressBook = r.addressBook := by
  rcases onFrameReceived_cases (E := E) r f with hquiet | ⟨a, c, pt, hrouted, -, hdec, -⟩
  · exact hquiet.book
  · obtain ⟨heq, -⟩ := decryptAndUnpad_ideal hideal hmade hdec
    exact absurd heq (hkey a c hrouted)

/-- **A copy of a request is harmless once its key is given up.** A client has
answered a rotation request; in any later state in which the key selected for the
mailbox of the request is not the one that opened it, the same frame again moves no
session. -/
theorem request_copy_harmless (E : Setup) (hideal : E.sodium.AeadIdeal)
    (before later : List Input) (f : Frame)
    (hmade : ∃ key nonce plaintext,
      encryptWithPadding E.sodium key nonce plaintext = some f.payload)
    (a : Bytes) (c : Contact) (hrotates : RotatesBy E (run E {} before) f a c)
    (hgivenUp : ∀ a' c', Routed (run E {} (before ++ .receive f :: later)) f a' c' →
      selectedKey c' f ≠ selectedKey c f) :
    ∀ a', ((run E {} (before ++ .receive f :: later ++ [.receive f])).addressBook.getContact
        a').map session =
      ((run E {} (before ++ .receive f :: later)).addressBook.getContact a').map session := by
  intro a'
  obtain ⟨key, nonce, plaintext, hmade⟩ := hmade
  obtain ⟨pt, hdec, -⟩ := hrotates.request
  -- the request was opened with the key it was made with
  obtain ⟨heq, -⟩ := decryptAndUnpad_ideal hideal hmade hdec
  rw [heq] at hgivenUp
  have hbook := onFrameReceived_wrong_key hideal hmade hgivenUp
  rw [run_append E {} (before ++ .receive f :: later)]
  show ((onFrameReceived E _ f).addressBook.getContact a').map session = _
  rw [hbook]

/-! ## The two cases -/

/-- The request of the initial handshake. -/
def initialRequest : Frame :=
  (queued alice aliceGreets).headD (Frame.createPoll (MailboxID.fill 0x00))

/-- The request that Alice queues with the second text. -/
def periodicRequest : Frame :=
  (queued alice (aliceCompletes ++
    [.send (ascii "bob") (ascii "one"), .send (ascii "bob") (ascii "two")])).getD 2
      (Frame.createPoll (MailboxID.fill 0x00))

/-- A frame that the client opens as a request, decided by evaluation. -/
theorem rotatesBy_of_eval {r : Repl} {f : Frame} {a : Bytes} {c : Contact}
    (hc : r.addressBook.getContact a = some c)
    (hfound : r.addressBook.getAliasByRxMailboxId f.mailboxId = a ∧ a ≠ [] ∧ f.action = .push)
    (hrequest : ((r.addressBook.getContact a).bind fun c =>
      (decryptAndUnpad E.sodium (selectedKey c f) f.payload).bind parsePfsRotateRequest).isSome = true)
    (hmoved : ((r.onFrameReceived E f).addressBook.getContact a).map session ≠
      (r.addressBook.getContact a).map session) :
    RotatesBy E r f a c := by
  rw [hc] at hrequest hmoved
  refine ⟨⟨hfound.1, hfound.2.1, hc⟩, hfound.2.2, ?_, hmoved⟩
  cases hdec : decryptAndUnpad E.sodium (selectedKey c f) f.payload with
  | none =>
      rw [Option.bind_some, hdec] at hrequest
      cases hrequest
  | some plaintext =>
      rw [Option.bind_some, hdec] at hrequest
      exact ⟨plaintext, rfl, hrequest⟩

/-- A copy of the initial request is harmless: its mailbox was not kept. -/
theorem request_copy_harmless_initial :
    ∃ c, RotatesBy bob (run bob {} bobWaits) initialRequest (ascii "alice") c ∧
      ((run bob {} (bobWaits ++ [.receive initialRequest] ++
          [.receive initialRequest])).addressBook.getContact (ascii "alice")).map session =
        ((run bob {} (bobWaits ++ [.receive initialRequest])).addressBook.getContact
          (ascii "alice")).map session := by
  obtain ⟨c, hc⟩ := Option.isSome_iff_exists.mp (show
    ((run bob {} bobWaits).addressBook.getContact (ascii "alice")).isSome = true by
      decide +kernel)
  have hrotates : RotatesBy bob (run bob {} bobWaits) initialRequest (ascii "alice") c :=
    rotatesBy_of_eval hc (by decide +kernel) (by decide +kernel) (by decide +kernel)
  refine ⟨c, hrotates, request_copy_harmless bob transparent_aeadIdeal bobWaits [] initialRequest
    ?_ (ascii "alice") c hrotates ?_ (ascii "alice")⟩
  · let made := (run alice {} aliceGreets).encryptions.getD 0 (toyKey 0, [])
    exact ⟨made.1, alice.tape.nonce 0, made.2, by decide +kernel⟩
  · intro a' c' hrouted
    have hunknown : (run bob {} (bobWaits ++ [.receive initialRequest])).addressBook.getAliasByRxMailboxId
        initialRequest.mailboxId = [] := by decide +kernel
    exact absurd (hrouted.found.symm.trans hunknown) hrouted.nonempty

/-- **A copy of a periodic request rotates the session again**: Bob still keeps the
old mailbox, and its key. -/
theorem request_copy_rotates_again :
    ∃ c, RotatesBy bob (run bob {} bobAnswers) periodicRequest (ascii "alice") c ∧
      ((run bob {} (bobAnswers ++ [.receive periodicRequest, .receive periodicRequest])).addressBook.getContact
          (ascii "alice")).map session ≠
        ((run bob {} (bobAnswers ++ [.receive periodicRequest])).addressBook.getContact
          (ascii "alice")).map session := by
  obtain ⟨c, hc⟩ := Option.isSome_iff_exists.mp (show
    ((run bob {} bobAnswers).addressBook.getContact (ascii "alice")).isSome = true by
      decide +kernel)
  refine ⟨c, rotatesBy_of_eval hc (by decide +kernel) (by decide +kernel) (by decide +kernel), ?_⟩
  decide +kernel

end Repl

end BlankChat.Cli
