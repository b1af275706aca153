import BlankChat.Core.StringUtils

/-!
# The cryptographic library

The program calls libsodium for all of its cryptography. The library is a
parameter of the model: `Sodium` lists the functions that are called, with the
array sizes of the library's interface; a call that can fail returns an `Option`.
What is assumed of them is stated where it is used.
-/

namespace BlankChat.Crypto

open Lib BlankChat.Core

def publicKeySize : ℕ := 32
def symmetricKeySize : ℕ := 32
def nonceSize : ℕ := 24
def cryptoSignBytes : ℕ := 64
def cryptoSignSecretKeyBytes : ℕ := 64

abbrev PublicKeyType : Type := ByteVec publicKeySize
abbrev SymmetricKey : Type := ByteVec symmetricKeySize
abbrev Signature : Type := ByteVec cryptoSignBytes
abbrev Nonce : Type := ByteVec nonceSize

structure Sodium : Type where
  /-- `crypto_scalarmult`: secret scalar, point -/
  cryptoScalarmult : ByteVec 32 → PublicKeyType → Option (ByteVec 32)
  /-- `crypto_generichash` without a key: output size, message -/
  cryptoGenerichash : (outLen : ℕ) → Bytes → ByteVec outLen
  /-- `crypto_sign_detached`: message, secret key -/
  cryptoSignDetached : Bytes → ByteVec cryptoSignSecretKeyBytes → Signature
  /-- `crypto_sign_verify_detached`: signature, message, public key -/
  cryptoSignVerifyDetached : Signature → Bytes → PublicKeyType → Bool
  /-- `crypto_aead_xchacha20poly1305_ietf_encrypt`: key, nonce, message -/
  aeadEncrypt : SymmetricKey → Nonce → Bytes → Option Bytes
  /-- `crypto_aead_xchacha20poly1305_ietf_decrypt`: key, nonce, ciphertext -/
  aeadDecrypt : SymmetricKey → Nonce → Bytes → Option Bytes
  /-- `crypto_sign_ed25519_pk_to_curve25519` -/
  ed25519PkToCurve25519 : PublicKeyType → Option PublicKeyType
  /-- `crypto_sign_ed25519_sk_to_curve25519` -/
  ed25519SkToCurve25519 : ByteVec cryptoSignSecretKeyBytes → Option (ByteVec 32)

/-- `HashPayload` (`string_utils.cpp`): the hex digits of a 16-byte hash. -/
def hashPayload (S : Sodium) (payload : Bytes) : Bytes :=
  encodeHex (S.cryptoGenerichash 16 payload).toList

/-! ## A library to run the model on -/

/-- Every sixteenth of the output shows the first byte of each 32-byte part of the
message. -/
def transparentHash (outLen : ℕ) (m : Bytes) : ByteVec outLen :=
  ⟨(List.range outLen).map fun i =>
    [m.getD 0 0, m.getD 32 0, m.getD 64 0].getD (i % 16) 0, by simp⟩

/-- The signer's public key and the first byte of each 32-byte part of the message. -/
def transparentSignature (m : Bytes) (pk : Bytes) : Signature :=
  ByteVec.ofSpan cryptoSignBytes (pk ++ [m.getD 0 0, m.getD 32 0])

/-- An instance that hides nothing and computes fast: public keys are the scalars
themselves, a shared secret is their bytewise sum, a ciphertext is the message
followed by the key. It has the functional laws of the library (secrets agree,
honest signatures verify, decryption inverts encryption under the same key and
fails under another) and no secrecy. -/
def transparent : Sodium where
  cryptoScalarmult := fun k p => some (List.Vector.map₂ (· + ·) k p)
  cryptoGenerichash := transparentHash
  cryptoSignDetached := fun m sk => transparentSignature m (sk.toList.drop 32)
  cryptoSignVerifyDetached := fun sig m pk => sig = transparentSignature m pk.toList
  aeadEncrypt := fun k _ m => some (m ++ k.toList)
  aeadDecrypt := fun k _ c =>
    if c.drop (c.length - 32) = k.toList then some (c.take (c.length - 32)) else none
  ed25519PkToCurve25519 := some
  ed25519SkToCurve25519 := fun sk => some (ByteVec.ofSpan 32 (sk.toList.drop 32))

theorem transparent_scalarmult_comm (a b : ByteVec 32) :
    transparent.cryptoScalarmult a b = transparent.cryptoScalarmult b a := by
  obtain ⟨a, ha⟩ := a
  obtain ⟨b, hb⟩ := b
  refine congrArg some (List.Vector.eq _ _ ?_)
  exact List.zipWith_comm_of_comm fun x y => UInt8.add_comm x y

end BlankChat.Crypto
