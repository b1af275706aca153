import BlankChat.Lib.Bytes

/-!
# Wire frames — `protocol_types.h`, `mailbox_id.h`, `frame.h`, `frame.cpp`

A frame is an action byte, a 16-byte mailbox id, a 32-bit little-endian payload
length and the payload. Frames are only built by the factory functions of the
class (its constructor is private), so the length field is always the payload's
size cast to 32 bits; here it is a function of the payload (`payloadLength`).
-/

namespace BlankChat.Protocol

open Lib

abbrev Payload : Type := Bytes
abbrev RawFrame : Type := Bytes

def actionTypeSize : ℕ := 1
def mailboxIdSize : ℕ := 16

/-- Action, mailbox id and the four bytes of a `PayloadLength`. -/
def headerSize : ℕ := actionTypeSize + mailboxIdSize + 4

def torCellPayloadSize : ℕ := 498
def paddedControlPayloadSize : ℕ := torCellPayloadSize - headerSize
def maxPayloadSize : UInt32 := 1024 * 1024

abbrev MailboxID : Type := ByteVec mailboxIdSize

/-- `MailboxID::Fill`. -/
def MailboxID.fill (value : UInt8) : MailboxID :=
  List.Vector.replicate mailboxIdSize value

inductive ActionType : Type where
  | push
  | poll
  | ack
  | authChallenge
  | authResponse
deriving DecidableEq, Repr

def ActionType.toByte : ActionType → UInt8
  | .push => 0x01
  | .poll => 0x02
  | .ack => 0x03
  | .authChallenge => 0x04
  | .authResponse => 0x05

structure Frame : Type where
  action : ActionType
  mailboxId : MailboxID
  payload : Payload
deriving DecidableEq

namespace Frame

/-- `static_cast<PayloadLength>(payload.size())`. -/
def payloadLength (f : Frame) : UInt32 := UInt32.ofNat f.payload.length

def createPush (mailboxId : MailboxID) (payload : Payload) : Frame :=
  ⟨.push, mailboxId, payload⟩

def createPoll (mailboxId : MailboxID) : Frame :=
  ⟨.poll, mailboxId, List.replicate paddedControlPayloadSize 0x00⟩

def createAck (mailboxId : MailboxID) (payload : Payload) : Frame :=
  ⟨.ack, mailboxId, payload⟩

/-- `resize(paddedControlPayloadSize, 0x00)` of a payload that is shorter than
that; a longer one is kept. -/
def padControl (data : Payload) : Payload :=
  if data.length < paddedControlPayloadSize then
    data ++ List.replicate (paddedControlPayloadSize - data.length) 0x00
  else data

def createAuthChallenge (id : MailboxID) (challengeData : Payload) : Frame :=
  ⟨.authChallenge, id, padControl challengeData⟩

def createAuthResponse (id : MailboxID) (responseData : Payload) : Frame :=
  ⟨.authResponse, id, padControl responseData⟩

def serialize (f : Frame) : RawFrame :=
  f.action.toByte :: (f.mailboxId.toList ++ (leBytes f.payloadLength ++
    (if 0 < f.payloadLength ∧ f.payload ≠ [] then f.payload else [])))

end Frame

/-- A control payload never gets shorter by padding, so it holds at least the
eight bytes of a nonce and the thirty-two of a challenge. -/
theorem paddedControlPayloadSize_le_padControl (data : Payload) :
    paddedControlPayloadSize ≤ (Frame.padControl data).length := by
  unfold Frame.padControl
  split
  · simp only [List.length_append, List.length_replicate]
    omega
  · omega

/-- For a payload that fits the length field the wire bytes are header and
payload, whatever the payload. -/
theorem serialize_eq {f : Frame} (h : f.payload.length < 2 ^ 32) :
    f.serialize =
      f.action.toByte :: (f.mailboxId.toList ++
        (leBytes f.payloadLength ++ f.payload)) := by
  unfold Frame.serialize
  by_cases hp : f.payload = []
  · simp [hp]
  · have hlen : 0 < f.payload.length := List.length_pos_of_ne_nil hp
    have hpos : 0 < f.payloadLength := by
      rw [UInt32.lt_iff_toNat_lt, Frame.payloadLength,
        UInt32.toNat_ofNat_of_lt' h]
      exact hlen
    rw [if_pos ⟨hpos, hp⟩]

/-- A payload whose length the field does not round to zero is written. -/
theorem serialize_length {f : Frame} (h : f.payload.length % 2 ^ 32 ≠ 0) :
    f.serialize.length = f.payload.length + headerSize := by
  have hpos : 0 < f.payloadLength := by
    rw [UInt32.lt_iff_toNat_lt, Frame.payloadLength, UInt32.toNat_ofNat']
    exact Nat.pos_of_ne_zero h
  have hne : f.payload ≠ [] := by
    intro hnil
    rw [hnil] at h
    exact h rfl
  have hmailbox : f.mailboxId.toList.length = 16 := f.mailboxId.toList_length
  unfold Frame.serialize
  rw [if_pos ⟨hpos, hne⟩]
  simp only [List.length_cons, List.length_append, leBytes_length, hmailbox]
  show 16 + (4 + f.payload.length) + 1 = f.payload.length + 21
  omega

end BlankChat.Protocol
