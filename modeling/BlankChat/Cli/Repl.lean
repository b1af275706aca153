import BlankChat.Client.AddressBook
import BlankChat.Client.ConversationCache
import BlankChat.Client.PayloadFormatter
import BlankChat.Crypto.SymmetricCipher

/-!
# The client — `repl.h`, `repl.cpp`

The state of a client process is the record `Repl`; the commands of the user
(`handleConnect`, `handleSend`, `handleAddContact`) and the callbacks of the network
engine (`getNextFrameForCBR`, `onFrameReceived`) are functions on it. `Setup` is
what does not change: the cryptographic library, the randomness and the time the
system hands out, the identity and the configuration.

A handler that gets a pointer to a contact takes the contact and returns it; it is
written back to the address book where the source's write becomes visible, that is
before every save and at the end.

Two fields are not in the source: the draw counters say how much of the tape is
used up, and `encryptions` lists what was encrypted under which key.
-/

namespace BlankChat.Cli

open Lib BlankChat.Core Crypto Protocol Client

/-- What the client prints (`PrintThreadSafe`, `std::cout`). -/
inductive Notice : Type where
  | connectedToRelay
  | contactNotFound (aliasName : Bytes)
  | sessionNotReady (aliasName : Bytes)
  | thresholdReached
  | encryptionFailed (aliasName : Bytes)
  | messageQueued
  | invalidMnemonic
  | contactAdded (aliasName : Bytes)
  | addContactFailed
  | unknownMailbox
  | newMessage (aliasName text : Bytes)
  | ackQueued
  | ignoringSimultaneousRequest (aliasName : Bytes)
  | rotationAnswered (aliasName : Bytes)
  | unexpectedAck
  | rotationCompleted (aliasName : Bytes)
  | malformedPush
  | malformedAck
  | transitionConfirmed (aliasName : Bytes)
  | textBeforeHandshake
  | delivered (aliasName : Bytes)
  | startingHandshake (aliasName : Bytes)
deriving DecidableEq

structure Setup : Type where
  sodium : Sodium
  tape : Tape
  identity : IdentityKey
  pfsMessageInterval : UInt32

structure Repl : Type where
  addressBook : AddressBook := {}
  cache : ConversationCache := {}
  outbox : List Frame := []
  contactAliases : List Bytes := []
  currentPollIndex : ℕ := 0
  connected : Bool := false
  notices : List Notice := []
  keyDraws : ℕ := 0
  nonceDraws : ℕ := 0
  timeDraws : ℕ := 0
  encryptions : List (SymmetricKey × Bytes) := []

namespace Repl

variable (E : Setup)

/-! ## Small steps -/

def print (r : Repl) (n : Notice) : Repl := { r with notices := r.notices ++ [n] }

/-- `outbox.push`. -/
def push (r : Repl) (f : Frame) : Repl := { r with outbox := r.outbox ++ [f] }

/-- The contact is written back to the address book. -/
def putContact (r : Repl) (aliasName : Bytes) (c : Contact) : Repl :=
  { r with addressBook := r.addressBook.putContact aliasName c }

/-- `addressBook.SaveToDisk()`, with the contact as it is now. -/
def save (r : Repl) (aliasName : Bytes) (c : Contact) : Repl :=
  { r with addressBook := (r.addressBook.putContact aliasName c).saveToDisk }

def appendMessage (r : Repl) (e : CacheEntry) : Repl :=
  { r with cache := r.cache.appendMessage e }

/-- `std::time(nullptr)`. -/
def now (r : Repl) : UInt64 × Repl :=
  (E.tape.time r.timeDraws, { r with timeDraws := r.timeDraws + 1 })

/-- `EphemeralKey::Generate()`. -/
def generate (r : Repl) : Option EphemeralKey × Repl :=
  (E.tape.keypair r.keyDraws, { r with keyDraws := r.keyDraws + 1 })

/-- `SymmetricCipher::EncryptWithPadding`. -/
def encrypt (r : Repl) (key : SymmetricKey) (plaintext : Bytes) : Option Bytes × Repl :=
  (encryptWithPadding E.sodium key (E.tape.nonce r.nonceDraws) plaintext,
    { r with
      nonceDraws := r.nonceDraws + 1
      encryptions := r.encryptions ++ [(key, plaintext)] })

/-- `crypto_sign_detached` with the identity. -/
def sign (message : Bytes) : Signature :=
  E.sodium.cryptoSignDetached message E.identity.secretKey

/-- The session of an exchange: ids and keys of both directions. -/
def withSession (c : Contact) (d : DerivedMailboxes) : Contact :=
  { c with
    txMailboxId := d.txId
    rxMailboxId := d.rxId
    txKey := d.txKey
    rxKey := d.rxKey }

/-! ## Starting a rotation -/

/-- `IsInitialPfsInitiator`: `lexicographical_compare` of the public keys. -/
def isInitialPfsInitiator (c : Contact) : Bool :=
  E.identity.publicKey.toList.map UInt8.toNat < c.publicKey.toList.map UInt8.toNat

/-- `InitiatePfsRotation`, with its return value. -/
def initiatePfsRotation (r : Repl) (c : Contact) : Bool × Repl × Contact :=
  if c.pfsState ≠ .idle then (false, r, c)
  else
    match r.generate E with
    | (none, r) => (false, r, c)
    | (some ephemeral, r) =>
        let reqPayload :=
          buildPfsRotateRequest ephemeral.publicKey (sign E ephemeral.publicKey.toList)
        match r.encrypt E c.txKey reqPayload with
        | (none, r) => (false, r, c)
        | (some ciphertext, r) =>
            (true, r.push (Frame.createPush c.txMailboxId ciphertext),
              { c with
                pfsState := .rotationRequested
                pendingEphemeralKey := some ephemeral
                messageCounter := 0 })

def maybeStartInitialPfs (r : Repl) (aliasName : Bytes) (c : Contact) : Repl × Contact :=
  if !r.connected || c.initialPfsComplete || c.pfsState ≠ .idle ||
      !isInitialPfsInitiator E c then (r, c)
  else
    match r.initiatePfsRotation E c with
    | (true, r, c) => (r.print (.startingHandshake aliasName), c)
    | (false, r, c) => (r, c)

def startPendingInitialPfs (r : Repl) : Repl :=
  r.contactAliases.foldl (fun r aliasName =>
    match r.addressBook.getContact aliasName with
    | some c =>
        let (r, c) := r.maybeStartInitialPfs E aliasName c
        r.putContact aliasName c
    | none => r) r

/-! ## The commands -/

/-- `HandleConnect`, when the connection succeeds. -/
def handleConnect (r : Repl) : Repl :=
  let r := r.print .connectedToRelay
  let r := { r with connected := true, contactAliases := r.addressBook.getAllAliases }
  r.startPendingInitialPfs E

/-- `HandleSend`: a rotation is started when the counter has reached the interval. -/
def checkMessageInterval (r : Repl) (c : Contact) : Repl × Contact :=
  if 0 < E.pfsMessageInterval ∧ E.pfsMessageInterval ≤ c.messageCounter ∧
      c.pfsState = .idle then
    ((r.print .thresholdReached).initiatePfsRotation E c).2
  else (r, c)

/-- `HandleSend`: the text is encrypted for the contact and queued. -/
def queueText (r : Repl) (aliasName : Bytes) (c : Contact) (rawPayload : Bytes) : Repl :=
  match r.encrypt E c.txKey (buildTextMessage rawPayload) with
  | (none, r) => r.print (.encryptionFailed aliasName)
  | (some ciphertext, r) =>
      (r.push (Frame.createPush c.txMailboxId ciphertext)).print .messageQueued

def handleSend (r : Repl) (aliasName rawPayload : Bytes) : Repl :=
  match r.addressBook.getContact aliasName with
  | none => r.print (.contactNotFound aliasName)
  | some c =>
      if !c.initialPfsComplete then
        let (r, c) := r.maybeStartInitialPfs E aliasName c
        (r.putContact aliasName c).print (.sessionNotReady aliasName)
      else
        let (timestamp, r) := r.now E
        let r := r.appendMessage
          { id := hashPayload E.sodium rawPayload
            timestamp := timestamp
            direction := .outbound
            aliasName := aliasName
            status := .pendingAck
            payload := rawPayload }
        let (r, c) := r.checkMessageInterval E c
        let c := { c with messageCounter := c.messageCounter + 1 }
        (r.putContact aliasName c).queueText E aliasName c rawPayload

/-- `HandleAddContact`: the alias is polled from now on. -/
def rememberAlias (r : Repl) (aliasName : Bytes) : Repl :=
  if aliasName ∈ r.contactAliases then r
  else { r with contactAliases := r.contactAliases ++ [aliasName] }

/-- `HandleAddContact` on an alias and the result of decoding the mnemonic. -/
def handleAddContact (r : Repl) (aliasName : Bytes) (pubKey : Option PublicKeyType) : Repl :=
  match pubKey with
  | none => r.print .invalidMnemonic
  | some publicKey =>
      match r.addressBook.addContact E.sodium E.identity aliasName publicKey none with
      | none => r.print .addContactFailed
      | some addressBook =>
          let r := { r with addressBook := addressBook }.print (.contactAdded aliasName)
          let r := r.rememberAlias aliasName
          match r.addressBook.getContact aliasName with
          | none => r
          | some c =>
              let (r, c) := r.maybeStartInitialPfs E aliasName c
              r.putContact aliasName c

/-! ## The outgoing side of the network engine -/

/-- The mailboxes to poll. -/
def activeMailboxes (r : Repl) : List MailboxID :=
  r.contactAliases.flatMap fun aliasName =>
    match r.addressBook.getContact aliasName with
    | some c => c.rxMailboxId :: c.oldRxMailboxId.toList
    | none => []

def getNextFrameForCBR (r : Repl) : Frame × Repl :=
  match r.outbox with
  | frame :: outbox => (frame, { r with outbox := outbox })
  | [] =>
      if r.activeMailboxes = [] then (Frame.createPoll (MailboxID.fill 0x00), r)
      else
        let i := (r.currentPollIndex + 1) % r.activeMailboxes.length
        (Frame.createPoll (r.activeMailboxes.getD i (MailboxID.fill 0x00)),
          { r with currentPollIndex := i })

/-! ## The incoming side -/

def handleTextMessage (r : Repl) (aliasName : Bytes) (c : Contact)
    (plaintext msgData : Bytes) : Repl :=
  let r := r.print (.newMessage aliasName msgData)
  let msgId := hashPayload E.sodium msgData
  let (timestamp, r) := r.now E
  let r := r.appendMessage
    { id := msgId
      timestamp := timestamp
      direction := .inbound
      aliasName := aliasName
      status := .delivered
      payload := plaintext }
  match r.encrypt E c.txKey msgId with
  | (none, r) => r
  | (some ciphertext, r) =>
      (r.push (Frame.createAck c.txMailboxId ciphertext)).print .ackQueued

/-- The part of `HandlePfsRotateRequest` after the checks, with a fresh ephemeral
key: the acknowledgement goes out under the old session, then the new session is
installed. -/
def answerRotation (r : Repl) (aliasName : Bytes) (c : Contact) (e : PublicKeyType)
    (myEphemeral : EphemeralKey) : Repl × Contact :=
  let initialRotation := !c.initialPfsComplete
  let ackSignedData := e.toList ++ myEphemeral.publicKey.toList
  let ackPayload := buildPfsRotateAck myEphemeral.publicKey (sign E ackSignedData)
  match r.encrypt E c.txKey ackPayload with
  | (none, r) => (r, c)
  | (some ciphertextAck, r) =>
      let r := r.push (Frame.createPush c.txMailboxId ciphertextAck)
      let c :=
        if initialRotation then c
        else { c with oldRxMailboxId := some c.rxMailboxId, oldRxKey := some c.rxKey }
      match E.sodium.cryptoScalarmult myEphemeral.secretKey e with
      | none => (r, c)
      | some sharedSecret =>
          let c := withSession c
            (deriveMailboxes E.sodium sharedSecret myEphemeral.publicKey e)
          let c := { c with messageCounter := 0 }
          let c :=
            if initialRotation then { c with initialPfsComplete := true, pfsState := .idle }
            else c
          ((r.print (.rotationAnswered aliasName)).save aliasName c, c)

def handlePfsRotateRequest (r : Repl) (aliasName : Bytes) (c : Contact) (plaintext : Bytes) :
    Repl × Contact :=
  match parsePfsRotateRequest plaintext with
  | none => (r, c)
  | some reqData =>
      if !E.sodium.cryptoSignVerifyDetached reqData.signature
          reqData.ephemeralPublicKey.toList c.publicKey then (r, c)
      else if !c.initialPfsComplete && isInitialPfsInitiator E c then
        (r.print (.ignoringSimultaneousRequest aliasName)).maybeStartInitialPfs E aliasName c
      else
        match r.generate E with
        | (none, r) => (r, c)
        | (some myEphemeral, r) =>
            r.answerRotation E aliasName c reqData.ephemeralPublicKey myEphemeral

def handlePfsRotateAck (r : Repl) (aliasName : Bytes) (c : Contact) (plaintext : Bytes) :
    Repl × Contact :=
  match c.pfsState, c.pendingEphemeralKey with
  | .rotationRequested, some pending =>
      match parsePfsRotateAck plaintext with
      | none => (r, c)
      | some ackData =>
          let ackSignedData := pending.publicKey.toList ++ ackData.ephemeralPublicKey.toList
          if !E.sodium.cryptoSignVerifyDetached ackData.signature ackSignedData
              c.publicKey then (r, c)
          else
            match E.sodium.cryptoScalarmult pending.secretKey ackData.ephemeralPublicKey with
            | none => (r, c)
            | some sharedSecret =>
                let c := withSession c (deriveMailboxes E.sodium sharedSecret
                  pending.publicKey ackData.ephemeralPublicKey)
                let c :=
                  { c with
                    pfsState := .idle
                    pendingEphemeralKey := none
                    messageCounter := 0
                    initialPfsComplete := true }
                ((r.print (.rotationCompleted aliasName)).save aliasName c, c)
  | _, _ => (r.print .unexpectedAck, c)

/-- The key that opens a frame: the old one for the old mailbox. -/
def keyToUse (c : Contact) (usedOldKey : Bool) : SymmetricKey :=
  match usedOldKey, c.oldRxKey with
  | true, some oldRxKey => oldRxKey
  | _, _ => c.rxKey

/-- The dispatch of `ProcessPushFrame` on the opcode. -/
def dispatch (r : Repl) (aliasName : Bytes) (c : Contact) (plaintext : Bytes) :
    Repl × Contact :=
  match extractOpcode plaintext with
  | some .textMessage =>
      if !c.initialPfsComplete then (r.print .textBeforeHandshake, c)
      else
        match parseTextMessage plaintext with
        | none => (r, c)
        | some msgData => (r.handleTextMessage E aliasName c plaintext msgData, c)
  | some .pfsRotateRequest => r.handlePfsRotateRequest E aliasName c plaintext
  | some .pfsRotateAck => r.handlePfsRotateAck E aliasName c plaintext
  | none => (r, c)

/-- The old mailbox is given up on the first message in the current one. -/
def dropOldMailbox (r : Repl) (aliasName : Bytes) (c : Contact) (usedOldKey : Bool) :
    Repl × Contact :=
  if !usedOldKey && c.oldRxMailboxId.isSome then
    let c := { c with oldRxMailboxId := none, oldRxKey := none }
    ((r.print (.transitionConfirmed aliasName)).save aliasName c, c)
  else (r, c)

def processPushFrame (r : Repl) (aliasName : Bytes) (c : Contact) (usedOldKey : Bool)
    (payload : Bytes) : Repl × Contact :=
  match decryptAndUnpad E.sodium (keyToUse c usedOldKey) payload with
  | none => (r.print .malformedPush, c)
  | some plaintext =>
      let (r, c) := r.dropOldMailbox aliasName c usedOldKey
      r.dispatch E aliasName c plaintext

def processAckFrame (r : Repl) (aliasName : Bytes) (c : Contact) (usedOldKey : Bool)
    (payload : Bytes) : Repl :=
  match decryptAndUnpad E.sodium (keyToUse c usedOldKey) payload with
  | none => r.print .malformedAck
  | some msgId =>
      { r with cache := r.cache.updateMessageStatus aliasName msgId .delivered }.print
        (.delivered aliasName)

def usedOldKey (c : Contact) (rxId : MailboxID) : Bool := c.oldRxMailboxId = some rxId

def onFrameReceived (r : Repl) (frame : Frame) : Repl :=
  if frame.action = .poll then r
  else
    let rxId := frame.mailboxId
    let aliasName := r.addressBook.getAliasByRxMailboxId rxId
    if aliasName = [] then r.print .unknownMailbox
    else
      match r.addressBook.getContact aliasName with
      | none => r
      | some c =>
          match frame.action with
          | .push =>
              let (r, c) := r.processPushFrame E aliasName c (usedOldKey c rxId) frame.payload
              r.putContact aliasName c
          | .ack => r.processAckFrame E aliasName c (usedOldKey c rxId) frame.payload
          | _ => r

/-! ## Restart -/

/-- The process ends and a new one starts: memory is lost, the files stay. -/
def restart (r : Repl) : Repl where
  addressBook := AddressBook.initializeFrom E.sodium E.identity r.addressBook.file
  cache := r.cache
  keyDraws := r.keyDraws
  nonceDraws := r.nonceDraws
  timeDraws := r.timeDraws
  encryptions := r.encryptions

end Repl

/-- What can happen to a client. -/
inductive Input : Type where
  | connect
  | send (aliasName text : Bytes)
  | add (aliasName : Bytes) (pubKey : Option PublicKeyType)
  | tick
  | receive (frame : Frame)
  | restart

namespace Repl

def step (E : Setup) (r : Repl) : Input → Repl
  | .connect => r.handleConnect E
  | .send aliasName text => r.handleSend E aliasName text
  | .add aliasName pubKey => r.handleAddContact E aliasName pubKey
  | .tick => r.getNextFrameForCBR.2
  | .receive frame => r.onFrameReceived E frame
  | .restart => r.restart E

def run (E : Setup) (r : Repl) (inputs : List Input) : Repl := inputs.foldl (step E) r

@[simp] theorem run_nil (E : Setup) (r : Repl) : run E r [] = r := rfl

@[simp] theorem run_cons (E : Setup) (r : Repl) (i : Input) (inputs : List Input) :
    run E r (i :: inputs) = run E (r.step E i) inputs := rfl

theorem run_append (E : Setup) (r : Repl) (inputs inputs' : List Input) :
    run E r (inputs ++ inputs') = run E (run E r inputs) inputs' := List.foldl_append

end Repl

/-! ## Two clients to run the model on -/

/-- 32 bytes told apart by the first. -/
def toyKey (b : UInt8) : PublicKeyType := ⟨b :: List.replicate 31 0, rfl⟩

/-- An identity and a tape of 32 key pairs, told apart by their first bytes. -/
def toySetup (identity firstDraw : UInt8) (interval : UInt32) : Setup where
  sodium := transparent
  tape :=
    { keypair := fun n =>
        if n < 32 then
          some ⟨toyKey (firstDraw + UInt8.ofNat n), toyKey (firstDraw + UInt8.ofNat n)⟩
        else none
      nonce := fun n => ⟨UInt8.ofNat n :: List.replicate 23 0, rfl⟩
      time := fun n => UInt64.ofNat n }
  identity :=
    { publicKey := toyKey identity
      secretKey := ⟨List.replicate 32 0 ++ (toyKey identity).toList, rfl⟩ }
  pfsMessageInterval := interval

theorem toySetup_keypair {identity firstDraw : UInt8} {interval : UInt32} {n : ℕ}
    {k : EphemeralKey} (h : (toySetup identity firstDraw interval).tape.keypair n = some k) :
    n < 32 ∧ k = ⟨toyKey (firstDraw + UInt8.ofNat n), toyKey (firstDraw + UInt8.ofNat n)⟩ := by
  have hdraw : (toySetup identity firstDraw interval).tape.keypair n =
      if n < 32 then
        some ⟨toyKey (firstDraw + UInt8.ofNat n), toyKey (firstDraw + UInt8.ofNat n)⟩
      else none := rfl
  rw [hdraw] at h
  split at h
  · next hn => exact ⟨hn, (Option.some.inj h).symm⟩
  · cases h

/-- The initiator of the initial handshake; it rotates after every message. -/
def alice : Setup := toySetup 1 16 1

def bob : Setup := toySetup 2 64 0

/-- Both know each other and are connected; the request of the initial handshake is
in Alice's outbox. -/
def aliceGreets : List Input :=
  [.add (ascii "bob") (some bob.identity.publicKey), .connect]

def bobWaits : List Input :=
  [.add (ascii "alice") (some alice.identity.publicKey), .connect]

/-- The frames a client queues in a run, when none is sent meanwhile. -/
def queued (E : Setup) (inputs : List Input) : List Frame := (Repl.run E {} inputs).outbox

/-- Bob answers the request. -/
def bobAnswers : List Input := bobWaits ++ (queued alice aliceGreets).map .receive

/-- Alice completes the handshake. -/
def aliceCompletes : List Input := aliceGreets ++ (queued bob bobAnswers).map .receive

end BlankChat.Cli
