import BlankChat.Crypto.Sodium

/-!
# The plaintext format — `payload_formatter.h`, `payload_formatter.cpp`

An opcode byte and a body: the text of a message, or an ephemeral key and a
signature over it.
-/

namespace BlankChat.Client

open Lib Crypto

inductive PayloadOpcode : Type where
  | textMessage
  | pfsRotateRequest
  | pfsRotateAck
deriving DecidableEq, Repr

def PayloadOpcode.toByte : PayloadOpcode → UInt8
  | .textMessage => 0x01
  | .pfsRotateRequest => 0x02
  | .pfsRotateAck => 0x03

structure PfsRotateData : Type where
  ephemeralPublicKey : PublicKeyType
  signature : Signature
deriving DecidableEq

def buildTextMessage (textData : Bytes) : Bytes :=
  PayloadOpcode.textMessage.toByte :: textData

/-- An opcode followed by a key and a signature. -/
def buildPfsRotate (opcode : PayloadOpcode) (ephemeralKey : PublicKeyType)
    (signature : Signature) : Bytes :=
  opcode.toByte :: (ephemeralKey.toList ++ signature.toList)

def buildPfsRotateRequest (ephemeralKey : PublicKeyType) (signature : Signature) : Bytes :=
  buildPfsRotate .pfsRotateRequest ephemeralKey signature

def buildPfsRotateAck (ephemeralKey : PublicKeyType) (signature : Signature) : Bytes :=
  buildPfsRotate .pfsRotateAck ephemeralKey signature

def extractOpcode (payload : Bytes) : Option PayloadOpcode :=
  match payload with
  | [] => none
  | rawOpcode :: _ =>
      if rawOpcode = PayloadOpcode.textMessage.toByte then some .textMessage
      else if rawOpcode = PayloadOpcode.pfsRotateRequest.toByte then some .pfsRotateRequest
      else if rawOpcode = PayloadOpcode.pfsRotateAck.toByte then some .pfsRotateAck
      else none

def parseTextMessage (payload : Bytes) : Option Bytes :=
  if extractOpcode payload = some .textMessage then some (payload.drop 1) else none

/-- The body of the two rotation messages: exactly a key and a signature. -/
def parsePfsRotate (opcode : PayloadOpcode) (payload : Bytes) : Option PfsRotateData :=
  if extractOpcode payload ≠ some opcode then none
  else if payload.length ≠ 1 + publicKeySize + cryptoSignBytes then none
  else
    some
      { ephemeralPublicKey := ByteVec.ofSpan publicKeySize ((payload.drop 1).take publicKeySize)
        signature := ByteVec.ofSpan cryptoSignBytes
          ((payload.drop (1 + publicKeySize)).take cryptoSignBytes) }

/-- The source writes the size of the signature here as the number 64. -/
def parsePfsRotateRequest (payload : Bytes) : Option PfsRotateData :=
  parsePfsRotate .pfsRotateRequest payload

def parsePfsRotateAck (payload : Bytes) : Option PfsRotateData :=
  parsePfsRotate .pfsRotateAck payload

/-! ## Parsing what was built -/

@[simp] theorem extractOpcode_buildTextMessage (text : Bytes) :
    extractOpcode (buildTextMessage text) = some .textMessage := rfl

@[simp] theorem extractOpcode_buildPfsRotate (opcode : PayloadOpcode) (e : PublicKeyType)
    (sig : Signature) : extractOpcode (buildPfsRotate opcode e sig) = some opcode := by
  cases opcode <;> rfl

@[simp] theorem parseTextMessage_build (text : Bytes) :
    parseTextMessage (buildTextMessage text) = some text := rfl

theorem parsePfsRotate_build (opcode : PayloadOpcode) (e : PublicKeyType) (sig : Signature) :
    parsePfsRotate opcode (buildPfsRotate opcode e sig) = some ⟨e, sig⟩ := by
  have he : e.toList.length = publicKeySize := e.toList_length
  have hsig : sig.toList.length = cryptoSignBytes := sig.toList_length
  have hlen : (buildPfsRotate opcode e sig).length = 1 + publicKeySize + cryptoSignBytes := by
    simp only [buildPfsRotate, List.length_cons, List.length_append, he, hsig]
    omega
  have hkey : ByteVec.ofSpan publicKeySize
      (((buildPfsRotate opcode e sig).drop 1).take publicKeySize) = e :=
    ByteVec.ofSpan_drop_append (a := [opcode.toByte]) e rfl
  have hsig' : ByteVec.ofSpan cryptoSignBytes
      (((buildPfsRotate opcode e sig).drop (1 + publicKeySize)).take cryptoSignBytes) = sig := by
    have h := ByteVec.ofSpan_drop_append (a := opcode.toByte :: e.toList) (r := []) sig
      (show (opcode.toByte :: e.toList).length = 1 + publicKeySize by
        rw [List.length_cons, he, Nat.add_comm])
    simpa only [buildPfsRotate, List.append_nil, List.cons_append] using h
  rw [parsePfsRotate, extractOpcode_buildPfsRotate, if_neg (fun h => h rfl),
    if_neg (fun h => h hlen), hkey, hsig']

/-! ## What the parsers accept -/

theorem extractOpcode_eq_some_iff {payload : Bytes} {opcode : PayloadOpcode} :
    extractOpcode payload = some opcode ↔ ∃ body, payload = opcode.toByte :: body := by
  cases payload with
  | nil => simp [extractOpcode]
  | cons b body =>
      simp only [extractOpcode, List.cons.injEq, exists_and_left, exists_eq', and_true]
      split
      · next h => cases opcode <;> simp [h, PayloadOpcode.toByte]
      · next h₁ =>
          split
          · next h => cases opcode <;> simp [h, PayloadOpcode.toByte]
          · next h₂ =>
              split
              · next h => cases opcode <;> simp [h, PayloadOpcode.toByte]
              · next h₃ => cases opcode <;> simp [h₁, h₂, h₃]

theorem parseTextMessage_eq_some_iff {payload text : Bytes} :
    parseTextMessage payload = some text ↔ payload = buildTextMessage text := by
  constructor
  · intro h
    unfold parseTextMessage at h
    split at h
    · next hopcode =>
        obtain ⟨body, rfl⟩ := extractOpcode_eq_some_iff.mp hopcode
        obtain rfl := Option.some.inj h
        rfl
    · cases h
  · rintro rfl
    exact parseTextMessage_build text

theorem parsePfsRotate_opcode {opcode : PayloadOpcode} {payload : Bytes} {d : PfsRotateData}
    (h : parsePfsRotate opcode payload = some d) : extractOpcode payload = some opcode := by
  unfold parsePfsRotate at h
  split at h
  · cases h
  · next ho => exact not_not.mp ho

/-- A rotation message is accepted exactly if it was built. -/
theorem parsePfsRotate_eq_some_iff {opcode : PayloadOpcode} {payload : Bytes} {e : PublicKeyType}
    {sig : Signature} :
    parsePfsRotate opcode payload = some ⟨e, sig⟩ ↔ payload = buildPfsRotate opcode e sig := by
  constructor
  · intro h
    obtain ⟨body, rfl⟩ := extractOpcode_eq_some_iff.mp (parsePfsRotate_opcode h)
    unfold parsePfsRotate at h
    split at h
    · cases h
    · split at h
      · cases h
      · next hlength =>
          have hbody : body.length = publicKeySize + cryptoSignBytes := by
            rw [not_not, List.length_cons] at hlength
            omega
          have hkey : (body.take publicKeySize).length = publicKeySize := by
            rw [List.length_take, hbody]
            omega
          have hdrop : (opcode.toByte :: body).drop (1 + publicKeySize) = body.drop publicKeySize := by
            rw [Nat.add_comm, List.drop_succ_cons]
          have hrest : (body.drop publicKeySize).length = cryptoSignBytes := by
            rw [List.length_drop, hbody]
            omega
          obtain ⟨rfl, rfl⟩ := PfsRotateData.mk.inj (Option.some.inj h)
          rw [buildPfsRotate, hdrop, List.drop_succ_cons, List.drop_zero,
            List.take_of_length_le (Nat.le_of_eq hrest), ByteVec.ofSpan_toList hkey,
            ByteVec.ofSpan_toList hrest, List.take_append_drop]
  · rintro rfl
    exact parsePfsRotate_build opcode e sig

end BlankChat.Client
