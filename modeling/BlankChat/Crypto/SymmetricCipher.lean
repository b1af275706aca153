import BlankChat.Crypto.Sodium
import BlankChat.Protocol.Frame
import Mathlib.Data.List.Induction
import Mathlib.Data.List.TakeWhile

/-!
# Padded encryption — `symmetric_cipher.h`, `symmetric_cipher.cpp`

A plaintext is padded with a marker and zeros so that the frame that carries it
fills whole cells, then encrypted; the nonce goes in front. The size of the key is
part of its type here, so the checks on `key.size()` are gone. The nonce, which the
source draws inside `EncryptWithPadding`, is an argument.
-/

namespace BlankChat.Crypto

open Lib Protocol

def macSize : ℕ := 16
def cryptoOverhead : ℕ := nonceSize + macSize
def totalFixedOverhead : ℕ := headerSize + cryptoOverhead
def paddingMarker : UInt8 := 0x80

/-- The size to which `EncryptWithPadding` fills a plaintext of `n` bytes. -/
def paddedPlaintextSize (n : ℕ) : ℕ :=
  let minPaddedSize := n + 1
  let totalFrameSize := totalFixedOverhead + minPaddedSize
  let cellsNeeded := (totalFrameSize + torCellPayloadSize - 1) / torCellPayloadSize
  let targetFrameSize := cellsNeeded * torCellPayloadSize
  targetFrameSize - totalFixedOverhead

/-- The same computation in `std::size_t`. -/
def paddedPlaintextSize64 (size : UInt64) : UInt64 :=
  let minPaddedSize := size + 1
  let totalFrameSize := UInt64.ofNat totalFixedOverhead + minPaddedSize
  let cellsNeeded :=
    (totalFrameSize + UInt64.ofNat torCellPayloadSize - 1) / UInt64.ofNat torCellPayloadSize
  let targetFrameSize := cellsNeeded * UInt64.ofNat torCellPayloadSize
  targetFrameSize - UInt64.ofNat totalFixedOverhead

def pad (plaintext : Bytes) : Bytes :=
  plaintext ++ [paddingMarker] ++
    List.replicate (paddedPlaintextSize plaintext.length - (plaintext.length + 1)) 0x00

/-- `SymmetricCipher::EncryptWithPadding`. -/
def encryptWithPadding (S : Sodium) (key : SymmetricKey) (nonce : Nonce)
    (plaintext : Bytes) : Option Bytes :=
  (S.aeadEncrypt key nonce (pad plaintext)).map (nonce.toList ++ ·)

/-- The scan from the back: zeros are skipped, then the marker must stand there. -/
def unpad (decrypted : Bytes) : Option Bytes :=
  match decrypted.reverse.dropWhile (· = 0x00) with
  | [] => none
  | marker :: data => if marker = paddingMarker then some data.reverse else none

/-- The loop `while (it != decrypted.rend() && *it == 0x00) ++it`. The reverse iterator is
given by its distance to `rend`: at distance `d + 1` it refers to the byte with index `d`.
The result is the distance at which the loop stops; `none` is a read outside the buffer. -/
def skipZeros (decrypted : Bytes) : ℕ → Option ℕ
  | 0 => some 0
  | d + 1 =>
      match decrypted[d]? with
      | none => none
      | some byte => if byte = 0x00 then skipZeros decrypted d else some (d + 1)

/-- What `DecryptAndUnpad` does behind the decryption, byte by byte: the outer `none` is a
read outside the buffer, the inner one `std::nullopt`. -/
def unpadScan (decrypted : Bytes) : Option (Option Bytes) :=
  match skipZeros decrypted decrypted.length with
  | none => none
  | some 0 => some none
  | some (d + 1) =>
      match decrypted[d]? with
      | none => none
      | some byte =>
          if byte ≠ paddingMarker then some none else some (some (decrypted.take d))

/-- `SymmetricCipher::DecryptAndUnpad`. -/
def decryptAndUnpad (S : Sodium) (key : SymmetricKey) (ciphertext : Bytes) :
    Option Bytes :=
  if ciphertext.length < nonceSize + macSize then none
  else
    (S.aeadDecrypt key (ByteVec.ofSpan nonceSize (ciphertext.take nonceSize))
      (ciphertext.drop nonceSize)).bind unpad

/-- What the authenticated encryption of the library promises to the owner of the
key. -/
structure Sodium.AeadCorrect (S : Sodium) : Prop where
  decrypt_encrypt : ∀ {k n m c}, S.aeadEncrypt k n m = some c → S.aeadDecrypt k n c = some m
  mac_le : ∀ {k n m c}, S.aeadEncrypt k n m = some c → macSize ≤ c.length

/-- What it promises against anybody else: a ciphertext opens under the key it was
made with, to the message it was made from. -/
def Sodium.AeadIdeal (S : Sodium) : Prop :=
  ∀ {k n m c k' m'}, S.aeadEncrypt k n m = some c → S.aeadDecrypt k' n c = some m' →
    k' = k ∧ m' = m

/-- A ciphertext is as long as the message and the tag. -/
def Sodium.AeadLength (S : Sodium) : Prop :=
  ∀ {k n m c}, S.aeadEncrypt k n m = some c → c.length = m.length + macSize

/-! ## The scan from the back -/

theorem zeros_or_marked (s : Bytes) :
    (∃ n, s = List.replicate n 0x00) ∨
      ∃ p m n, m ≠ 0x00 ∧ s = p ++ [m] ++ List.replicate n 0x00 := by
  induction s using List.reverseRecOn with
  | nil => exact .inl ⟨0, rfl⟩
  | append_singleton s b ih =>
      by_cases hb : b = 0x00
      · subst hb
        rcases ih with ⟨n, rfl⟩ | ⟨p, m, n, hm, rfl⟩
        · exact .inl ⟨n + 1, List.replicate_succ'.symm⟩
        · refine .inr ⟨p, m, n + 1, hm, ?_⟩
          rw [List.replicate_succ', List.append_assoc]
      · exact .inr ⟨s, b, 0, hb, by simp⟩

theorem unpad_zeros (n : ℕ) : unpad (List.replicate n 0x00) = none := by
  have hall : ∀ b ∈ List.replicate n (0x00 : UInt8), decide (b = 0x00) = true := by
    intro b hb
    exact decide_eq_true (List.eq_of_mem_replicate hb)
  unfold unpad
  rw [List.reverse_replicate, List.dropWhile_eq_nil_iff.mpr hall]

theorem unpad_marked {p : Bytes} {m : UInt8} {n : ℕ} (hm : m ≠ 0x00) :
    unpad (p ++ [m] ++ List.replicate n 0x00) = if m = paddingMarker then some p else none := by
  have hall : ∀ b ∈ List.replicate n (0x00 : UInt8), decide (b = 0x00) = true := by
    intro b hb
    exact decide_eq_true (List.eq_of_mem_replicate hb)
  have hdrop : (List.replicate n 0x00 ++ m :: p.reverse).dropWhile (· = 0x00) = m :: p.reverse := by
    rw [List.dropWhile_append_of_pos hall, List.dropWhile_cons_of_neg (by simpa using hm)]
  unfold unpad
  rw [List.reverse_append, List.reverse_replicate, List.reverse_append, List.reverse_singleton,
    List.singleton_append, hdrop]
  simp

theorem unpad_eq_some_iff {s p : Bytes} :
    unpad s = some p ↔ ∃ n, s = p ++ [paddingMarker] ++ List.replicate n 0x00 := by
  constructor
  · intro h
    rcases zeros_or_marked s with ⟨n, rfl⟩ | ⟨q, m, n, hm, rfl⟩
    · rw [unpad_zeros] at h
      cases h
    · rw [unpad_marked hm] at h
      split at h
      · next heq =>
          obtain rfl := Option.some.inj h
          exact ⟨n, by rw [heq]⟩
      · cases h
  · rintro ⟨n, rfl⟩
    rw [unpad_marked (by decide), if_pos rfl]

theorem skipZeros_add {s : Bytes} {d n : ℕ}
    (h : ∀ i, d ≤ i → i < d + n → s[i]? = some 0x00) : skipZeros s (d + n) = skipZeros s d := by
  induction n with
  | zero => rfl
  | succ n ih =>
      have hlast : s[d + n]? = some 0x00 := h (d + n) (Nat.le_add_right d n) (by omega)
      rw [← Nat.add_assoc, skipZeros, hlast]
      exact ih fun i hd hn => h i hd (by omega)

/-- The scan reads inside the buffer only, and finds what is to be found. -/
theorem unpadScan_eq (s : Bytes) : unpadScan s = some (unpad s) := by
  rcases zeros_or_marked s with ⟨n, rfl⟩ | ⟨p, m, n, hm, rfl⟩
  · have hskip : skipZeros (List.replicate n 0x00) (0 + n) = some 0 := by
      apply skipZeros_add
      intro i _ hi
      exact List.getElem?_replicate_of_lt (by omega)
    rw [Nat.zero_add] at hskip
    rw [unpad_zeros, unpadScan, List.length_replicate, hskip]
  · have hmark : (p ++ [m] ++ List.replicate n 0x00)[p.length]? = some m := by simp
    have hskip : skipZeros (p ++ [m] ++ List.replicate n 0x00) (p.length + 1 + n) =
        some (p.length + 1) := by
      rw [skipZeros_add, skipZeros, hmark]
      · exact if_neg hm
      · intro i hi hn
        have hlen : (p ++ [m]).length = p.length + 1 := List.length_append
        rw [List.getElem?_append_right (by omega)]
        exact List.getElem?_replicate_of_lt (by omega)
    have htake : (p ++ [m] ++ List.replicate n 0x00).take p.length = p := by simp
    have hlen : (p ++ [m] ++ List.replicate n 0x00).length = p.length + 1 + n := by
      rw [List.length_append, List.length_append, List.length_replicate, List.length_singleton]
    rw [unpad_marked hm, unpadScan, hlen, hskip]
    dsimp only
    rw [hmark, htake]
    dsimp only
    by_cases hp : m = paddingMarker
    · rw [if_pos hp, if_neg (not_not.mpr hp)]
    · rw [if_neg hp, if_pos hp]

theorem unpad_pad (plaintext : Bytes) : unpad (pad plaintext) = some plaintext :=
  unpad_eq_some_iff.mpr ⟨_, rfl⟩

/-! ## Encryption and decryption -/

section

variable {S : Sodium} {key : SymmetricKey} {nonce : Nonce} {plaintext payload : Bytes}

theorem encryptWithPadding_eq_some
    (h : encryptWithPadding S key nonce plaintext = some payload) :
    ∃ c, S.aeadEncrypt key nonce (pad plaintext) = some c ∧
      ByteVec.ofSpan nonceSize (payload.take nonceSize) = nonce ∧
      payload.drop nonceSize = c ∧ payload.length = nonceSize + c.length := by
  obtain ⟨c, hc, rfl⟩ := Option.map_eq_some_iff.mp h
  have hn : nonce.toList.length = nonceSize := nonce.toList_length
  refine ⟨c, hc, ?_, ?_, ?_⟩
  · rw [List.take_append_of_le_length (le_of_eq hn.symm), List.take_of_length_le (le_of_eq hn),
      ByteVec.ofSpan_eq]
  · exact List.drop_left' hn
  · rw [List.length_append, hn]

/-- The number of cells for a plaintext of `n` bytes. -/
def cells (n : ℕ) : ℕ := (n + 62 + 497) / 498

theorem paddedPlaintextSize_add (n : ℕ) :
    paddedPlaintextSize n + totalFixedOverhead = 498 * cells n := by
  unfold paddedPlaintextSize cells totalFixedOverhead cryptoOverhead macSize
  show (21 + (nonceSize + 16) + (n + 1) + 498 - 1) / 498 * 498 - (21 + (nonceSize + 16)) +
    (21 + (nonceSize + 16)) = _
  show (21 + (24 + 16) + (n + 1) + 498 - 1) / 498 * 498 - (21 + (24 + 16)) +
    (21 + (24 + 16)) = _
  omega

theorem succ_le_paddedPlaintextSize (n : ℕ) : n + 1 ≤ paddedPlaintextSize n := by
  have hsize := paddedPlaintextSize_add n
  unfold cells at hsize
  rw [show totalFixedOverhead = 61 from rfl] at hsize
  omega

/-- Nothing wraps at a size that a vector can have. -/
theorem paddedPlaintextSize64_toNat {size : UInt64} (h : size.toNat < 2 ^ 63) :
    (paddedPlaintextSize64 size).toNat = paddedPlaintextSize size.toNat := by
  unfold paddedPlaintextSize64 paddedPlaintextSize
  rw [show totalFixedOverhead = 61 from rfl, show torCellPayloadSize = 498 from rfl]
  simp only [UInt64.toNat_sub, UInt64.toNat_mul, UInt64.toNat_div, UInt64.toNat_add,
    UInt64.toNat_ofNat, UInt64.toNat_ofNat', Nat.reducePow, Nat.reduceMod]
  omega

theorem pad_length (plaintext : Bytes) :
    (pad plaintext).length = paddedPlaintextSize plaintext.length := by
  have hroom := succ_le_paddedPlaintextSize plaintext.length
  simp only [pad, List.length_append, List.length_singleton, List.length_replicate]
  omega

/-- An encrypted payload leaves room for the header in the last cell. -/
theorem encryptWithPadding_length (hS : S.AeadLength)
    (h : encryptWithPadding S key nonce plaintext = some payload) :
    payload.length + headerSize = 498 * cells plaintext.length := by
  obtain ⟨c, hc, -, -, hlen⟩ := encryptWithPadding_eq_some h
  rw [hlen, hS hc, pad_length, ← paddedPlaintextSize_add]
  unfold totalFixedOverhead cryptoOverhead
  omega

/-- The owner of the key reads what was encrypted. -/
theorem decryptAndUnpad_encryptWithPadding (hS : S.AeadCorrect)
    (h : encryptWithPadding S key nonce plaintext = some payload) :
    decryptAndUnpad S key payload = some plaintext := by
  obtain ⟨c, hc, hnonce, hdrop, hlen⟩ := encryptWithPadding_eq_some h
  have hmac := hS.mac_le hc
  rw [decryptAndUnpad, if_neg (by rw [hlen]; exact Nat.not_lt.mpr (Nat.add_le_add_left hmac _)),
    hnonce, hdrop, hS.decrypt_encrypt hc, Option.bind_some, unpad_pad]

/-- Nobody reads it under another key, or reads anything else. -/
theorem decryptAndUnpad_ideal (hS : S.AeadIdeal)
    (h : encryptWithPadding S key nonce plaintext = some payload) {key' : SymmetricKey}
    {plaintext' : Bytes} (h' : decryptAndUnpad S key' payload = some plaintext') :
    key' = key ∧ plaintext' = plaintext := by
  obtain ⟨c, hc, hnonce, hdrop, -⟩ := encryptWithPadding_eq_some h
  unfold decryptAndUnpad at h'
  split at h'
  · cases h'
  · rw [hnonce, hdrop] at h'
    obtain ⟨m, hm, hunpad⟩ := Option.bind_eq_some_iff.mp h'
    obtain ⟨rfl, rfl⟩ := hS hc hm
    rw [unpad_pad] at hunpad
    exact ⟨rfl, (Option.some.inj hunpad).symm⟩

end

/-! ## The transparent library -/

theorem transparent_split (m : Bytes) (k : SymmetricKey) :
    (m ++ k.toList).drop ((m ++ k.toList).length - 32) = k.toList ∧
      (m ++ k.toList).take ((m ++ k.toList).length - 32) = m := by
  have hk : k.toList.length = 32 := k.toList_length
  have hlen : (m ++ k.toList).length - 32 = m.length := by
    rw [List.length_append, hk, Nat.add_sub_cancel]
  rw [hlen]
  exact ⟨List.drop_left, List.take_left⟩

theorem transparent_aeadDecrypt (k k' : SymmetricKey) (n : Nonce) (m : Bytes) :
    transparent.aeadDecrypt k' n (m ++ k.toList) = if k = k' then some m else none := by
  obtain ⟨hdrop, htake⟩ := transparent_split m k
  show (if _ = _ then _ else _) = _
  rw [hdrop, htake]
  by_cases h : k = k'
  · rw [if_pos h, if_pos (congrArg _ h)]
  · rw [if_neg h, if_neg (fun heq => h (List.Vector.eq _ _ heq))]

theorem transparent_aeadCorrect : transparent.AeadCorrect := by
  constructor
  · intro k n m c h
    obtain rfl := Option.some.inj h
    rw [transparent_aeadDecrypt, if_pos rfl]
  · intro k n m c h
    obtain rfl := Option.some.inj h
    have hk : k.toList.length = 32 := k.toList_length
    rw [List.length_append, hk]
    exact Nat.le_add_left 16 (m.length + 16)

theorem transparent_aeadIdeal : transparent.AeadIdeal := by
  intro k n m c k' m' h h'
  obtain rfl := Option.some.inj h
  rw [transparent_aeadDecrypt] at h'
  split at h'
  · next heq => exact ⟨heq.symm, (Option.some.inj h').symm⟩
  · cases h'

/-! ## The padding as a whole -/

/-- **Padding is lossless and unambiguous.** What was encrypted is what is decrypted. Of a
decrypted buffer, `DecryptAndUnpad` returns `p` exactly when the buffer is `p`, the marker
and zeros, and its scan reads inside the buffer only. The padded size has room for the
marker, and is what `std::size_t` arithmetic gives at every size a vector can have. -/
theorem padding_lossless (S : Sodium) (hS : S.AeadCorrect) :
    (∀ key nonce plaintext c, S.aeadEncrypt key nonce (pad plaintext) = some c →
      encryptWithPadding S key nonce plaintext = some (nonce.toList ++ c) ∧
        decryptAndUnpad S key (nonce.toList ++ c) = some plaintext) ∧
    (∀ key ciphertext s, nonceSize + macSize ≤ ciphertext.length →
      S.aeadDecrypt key (ByteVec.ofSpan nonceSize (ciphertext.take nonceSize))
        (ciphertext.drop nonceSize) = some s →
      (∀ p, decryptAndUnpad S key ciphertext = some p ↔
        ∃ n, s = p ++ [paddingMarker] ++ List.replicate n 0x00) ∧
      unpadScan s = some (decryptAndUnpad S key ciphertext)) ∧
    (∀ plaintext : Bytes, plaintext.length + 1 ≤ paddedPlaintextSize plaintext.length ∧
      (pad plaintext).length = paddedPlaintextSize plaintext.length) ∧
    (∀ size : UInt64, size.toNat < 2 ^ 63 →
      (paddedPlaintextSize64 size).toNat = paddedPlaintextSize size.toNat) := by
  refine ⟨?_, ?_, ?_, ?_⟩
  · intro key nonce plaintext c hc
    have hencrypt : encryptWithPadding S key nonce plaintext = some (nonce.toList ++ c) := by
      rw [encryptWithPadding, hc, Option.map_some]
    exact ⟨hencrypt, decryptAndUnpad_encryptWithPadding hS hencrypt⟩
  · intro key ciphertext s hlen hs
    have hunpad : decryptAndUnpad S key ciphertext = unpad s := by
      rw [decryptAndUnpad, if_neg (Nat.not_lt.mpr hlen), hs, Option.bind_some]
    rw [hunpad]
    exact ⟨fun p => unpad_eq_some_iff, unpadScan_eq s⟩
  · intro plaintext
    exact ⟨succ_le_paddedPlaintextSize _, pad_length plaintext⟩
  · intro size hsize
    exact paddedPlaintextSize64_toNat hsize

/-- A plaintext that looks like padding, and a buffer without a marker, in a library that
seals nothing. -/
theorem padding_lossless_transparent :
    let key : SymmetricKey := List.Vector.replicate 32 0x07
    let nonce : Nonce := List.Vector.replicate 24 0x05
    decryptAndUnpad transparent key (nonce.toList ++ (pad [0x80, 0x00] ++ key.toList)) =
        some [0x80, 0x00] ∧
      unpadScan [0x01, 0x00] =
        some (decryptAndUnpad transparent key (nonce.toList ++ ([0x01, 0x00] ++ key.toList))) := by
  intro key nonce
  have hlossless := padding_lossless transparent transparent_aeadCorrect
  refine ⟨(hlossless.1 key nonce [0x80, 0x00] _ rfl).2, ?_⟩
  exact (hlossless.2.1 key _ [0x01, 0x00] (by decide) (by decide)).2

end BlankChat.Crypto
