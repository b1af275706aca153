import BlankChat.Crypto.Sodium
import BlankChat.Protocol.Frame
import Mathlib.Data.List.GetD

/-!
# Keys and sessions — `identity_key.cpp`, `ephemeral_key.cpp`, `mailbox_derivation.cpp`

Two clients that share a Diffie-Hellman secret derive from it, for each direction,
a mailbox id and a key: 48 bytes of hash over the secret and the two public keys,
the sender's first. The source writes this out three times, for the bootstrap
session, for the answer to a rotation request and for its acknowledgement;
`deriveMailboxes` is the one definition behind all three.
-/

namespace BlankChat.Crypto

open Lib Protocol

def extendedHashSize : ℕ := mailboxIdSize + symmetricKeySize

structure IdentityKey : Type where
  publicKey : PublicKeyType
  secretKey : ByteVec cryptoSignSecretKeyBytes
deriving DecidableEq

namespace IdentityKey

def getCurve25519PublicKey (S : Sodium) (identity : IdentityKey) : Option PublicKeyType :=
  S.ed25519PkToCurve25519 identity.publicKey

def getCurve25519SecretKey (S : Sodium) (identity : IdentityKey) : Option (ByteVec 32) :=
  S.ed25519SkToCurve25519 identity.secretKey

end IdentityKey

structure EphemeralKey : Type where
  publicKey : PublicKeyType
  secretKey : ByteVec 32
deriving DecidableEq

/-- What the system hands to a client, call by call: key pairs
(`crypto_kx_keypair`, which may fail), nonces (`randombytes_buf`) and the time
(`std::time`). -/
structure Tape : Type where
  keypair : ℕ → Option EphemeralKey
  nonce : ℕ → Nonce
  time : ℕ → UInt64

structure DerivedMailboxes : Type where
  txId : MailboxID
  txKey : SymmetricKey
  rxId : MailboxID
  rxKey : SymmetricKey
deriving DecidableEq

/-- `crypto_generichash` of the secret and two public keys. -/
def extendedHash (S : Sodium) (sharedSecret : ByteVec 32) (first second : PublicKeyType) :
    ByteVec extendedHashSize :=
  S.cryptoGenerichash extendedHashSize
    (sharedSecret.toList ++ first.toList ++ second.toList)

/-- The first 16 bytes of the hash. -/
def hashMailbox (h : ByteVec extendedHashSize) : MailboxID :=
  ByteVec.ofSpan mailboxIdSize (h.toList.take mailboxIdSize)

/-- The 32 bytes after them. -/
def hashKey (h : ByteVec extendedHashSize) : SymmetricKey :=
  ByteVec.ofSpan symmetricKeySize ((h.toList.drop mailboxIdSize).take symmetricKeySize)

/-- The session of two public keys and their secret, as its first owner sees it. -/
def deriveMailboxes (S : Sodium) (sharedSecret : ByteVec 32) (ours theirs : PublicKeyType) :
    DerivedMailboxes where
  txId := hashMailbox (extendedHash S sharedSecret ours theirs)
  txKey := hashKey (extendedHash S sharedSecret ours theirs)
  rxId := hashMailbox (extendedHash S sharedSecret theirs ours)
  rxKey := hashKey (extendedHash S sharedSecret theirs ours)

/-- `DerivePairwiseMailboxes`: the bootstrap session of two identities. -/
def derivePairwiseMailboxes (S : Sodium) (ourIdentity : IdentityKey)
    (theirEd25519PublicKey : PublicKeyType) : Option DerivedMailboxes := do
  let ourX25519Pk ← ourIdentity.getCurve25519PublicKey S
  let ourX25519Sk ← ourIdentity.getCurve25519SecretKey S
  let theirX25519Pk ← S.ed25519PkToCurve25519 theirEd25519PublicKey
  let sharedSecret ← S.cryptoScalarmult ourX25519Sk theirX25519Pk
  return deriveMailboxes S sharedSecret ourX25519Pk theirX25519Pk

/-- A session as the other side sees it. -/
def DerivedMailboxes.swap (d : DerivedMailboxes) : DerivedMailboxes where
  txId := d.rxId
  txKey := d.rxKey
  rxId := d.txId
  rxKey := d.txKey

/-- The two owners of a secret derive mirrored sessions. -/
theorem deriveMailboxes_swap (S : Sodium) (sharedSecret : ByteVec 32)
    (ours theirs : PublicKeyType) :
    deriveMailboxes S sharedSecret theirs ours =
      (deriveMailboxes S sharedSecret ours theirs).swap := rfl

theorem derivePairwiseMailboxes_eq_some {S : Sodium} {identity : IdentityKey}
    {pk : PublicKeyType} {d : DerivedMailboxes}
    (h : derivePairwiseMailboxes S identity pk = some d) :
    ∃ ours sk theirs secret, identity.getCurve25519PublicKey S = some ours ∧
      identity.getCurve25519SecretKey S = some sk ∧
      S.ed25519PkToCurve25519 pk = some theirs ∧
      S.cryptoScalarmult sk theirs = some secret ∧
      d = deriveMailboxes S secret ours theirs := by
  unfold derivePairwiseMailboxes at h
  obtain ⟨ours, hours, h⟩ := Option.bind_eq_some_iff.mp h
  obtain ⟨sk, hsk, h⟩ := Option.bind_eq_some_iff.mp h
  obtain ⟨theirs, htheirs, h⟩ := Option.bind_eq_some_iff.mp h
  obtain ⟨secret, hsecret, h⟩ := Option.bind_eq_some_iff.mp h
  exact ⟨ours, sk, theirs, secret, hours, hsk, htheirs, hsecret, (Option.some.inj h).symm⟩

/-! ## The transparent library -/

theorem getD_parts (s : ByteVec 32) (a b : PublicKeyType) :
    (s.toList ++ a.toList ++ b.toList).getD 32 0 = a.toList.getD 0 0 ∧
      (s.toList ++ a.toList ++ b.toList).getD 64 0 = b.toList.getD 0 0 := by
  have hs : s.toList.length = 32 := s.toList_length
  have ha : a.toList.length = 32 := a.toList_length
  constructor
  · rw [List.append_assoc, List.getD_append_right _ _ _ _ (by rw [hs]), hs,
      List.getD_append _ _ _ _ (by rw [ha]; decide)]
  · rw [List.getD_append_right _ _ _ _ (by rw [List.length_append, hs, ha]),
      List.length_append, hs, ha]

/-- A transparent mailbox id shows the two public keys. -/
theorem transparent_mailbox (s : ByteVec 32) (a b : PublicKeyType) :
    (hashMailbox (extendedHash transparent s a b)).toList.getD 1 0 = a.toList.getD 0 0 ∧
      (hashMailbox (extendedHash transparent s a b)).toList.getD 2 0 = b.toList.getD 0 0 :=
  getD_parts s a b

end BlankChat.Crypto
