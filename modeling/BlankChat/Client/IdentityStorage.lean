import BlankChat.Client.SaveFault

/-!
# The identity file — `identity_storage.cpp`

`SaveIdentity` empties the file and writes the two keys into it. Like `SyncContactsToDisk` it
asks `good()` before the stream is flushed: what it returns says nothing about what gets to
the disk, which is some beginning of the text.

Main result: `loadIdentity_take`, a beginning of the text is loaded as the identity if nothing
but the last line break is missing, and as nothing otherwise.
-/

namespace BlankChat.Client

open Lib BlankChat.Core Crypto Protocol

/-! ## The text -/

/-- What `SaveIdentity` writes. -/
def identityText (identity : IdentityKey) : Bytes :=
  ascii "\x7b\n" ++
  ascii "  \"publicKey\": \"" ++ encodeHex identity.publicKey.toList ++ ascii "\",\n" ++
  ascii "  \"secretKey\": \"" ++ encodeHex identity.secretKey.toList ++ ascii "\"\n" ++
  ascii "\x7d\n"

def publicKeyField (identity : IdentityKey) : Bytes × Bytes :=
  (ascii "publicKey", encodeHex identity.publicKey.toList)

def secretKeyField (identity : IdentityKey) : Bytes × Bytes :=
  (ascii "secretKey", encodeHex identity.secretKey.toList)

theorem plain_publicKeyField (identity : IdentityKey) : PlainField (publicKeyField identity) :=
  ⟨rfl, plain_encodeHex _⟩

theorem plain_secretKeyField (identity : IdentityKey) : PlainField (secretKeyField identity) :=
  ⟨rfl, plain_encodeHex _⟩

theorem identityText_eq (identity : IdentityKey) :
    identityText identity = pairText (publicKeyField identity) (secretKeyField identity) := by
  unfold identityText pairText pairBody keyLine publicKeyField secretKeyField
  simp [ascii]

/-! ## Loading and saving -/

/-- `IdentityKey::Restore`. -/
def restore (pk : PublicKeyType) (sk : Bytes) : Option IdentityKey :=
  if sk.length ≠ cryptoSignSecretKeyBytes then none
  else some ⟨pk, ByteVec.ofSpan cryptoSignSecretKeyBytes sk⟩

/-- The two calls of `find_field`. -/
def findKeys (o : JsonObject) : Option (Bytes × Bytes) := do
  let (value, c) := (JsonCursor.start o).findField (ascii "publicKey")
  let pkHex ← getString value
  let (value, _) := c.findField (ascii "secretKey")
  let skHex ← getString value
  return (pkHex, skHex)

/-- `LoadIdentity`; there is no file if it is `none`. -/
def loadIdentity (J : Simdjson) (file : Option Bytes) : Option IdentityKey := do
  let jsonContent ← file
  let o ← J.root jsonContent
  let (pkHex, skHex) ← findKeys o
  let (pkDecoded, pk) := decodeHexToArray pkHex (List.replicate publicKeySize 0)
  if !pkDecoded then none
  else
    let (skDecoded, sk) := decodeHexToArray skHex (List.replicate cryptoSignSecretKeyBytes 0)
    if !skDecoded then none
    else restore (ByteVec.ofSpan publicKeySize pk) sk

/-- `SaveIdentity`: what it returns, and the file after it. -/
def saveIdentity (file : Option Bytes) (identity : IdentityKey) (o : SaveOutcome) :
    Bool × Option Bytes :=
  if o.opened then (o.good, some ((identityText identity).take o.written)) else (false, file)

/-! ## What is loaded -/

variable (J : Simdjson) (identity : IdentityKey)

theorem restore_toList :
    restore identity.publicKey identity.secretKey.toList = some identity := by
  rw [restore, if_neg (by simp), ByteVec.ofSpan_eq]

theorem findKeys_identity :
    findKeys (pairObject (publicKeyField identity) (secretKeyField identity)) =
      some (encodeHex identity.publicKey.toList, encodeHex identity.secretKey.toList) := by
  simp only [findKeys, pairObject, publicKeyField, secretKeyField, JsonCursor.start,
    JsonCursor.findField, splitAtKey_cons_self, getString, Option.bind_eq_bind, Option.bind_some]
  rfl

/-- **A beginning of the text is the identity or nothing.** -/
theorem loadIdentity_take (n : ℕ) :
    loadIdentity J (some ((identityText identity).take n)) =
      if (identityText identity).length ≤ n + 1 then some identity else none := by
  have hpk := plain_publicKeyField identity
  have hsk := plain_secretKeyField identity
  unfold loadIdentity
  rw [identityText_eq]
  split
  · next hwhole =>
      simp only [Option.bind_eq_bind, Option.bind_some, J.root_whole hpk hsk hwhole,
        findKeys_identity, decodeHexToArray_toList, ByteVec.ofSpan_eq]
      exact restore_toList identity
  · next hcut =>
      simp only [Option.bind_eq_bind, Option.bind_some,
        J.root_cut hpk hsk (Nat.lt_of_not_le hcut), Option.bind_none]

end BlankChat.Client
