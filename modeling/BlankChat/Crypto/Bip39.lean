import BlankChat.Core.SecureString
import BlankChat.Crypto.Bip39Dictionary
import BlankChat.Crypto.Sodium
import BlankChat.Lib.BitGroups
import BlankChat.Lib.LowerBound
import Mathlib.Data.List.Induction

/-!
# Mnemonics — `bip39.cpp`

A public key and the first byte of its SHA-256 hash are 264 bits, which `Encode` reads
as 24 numbers of eleven bits and writes as dictionary words with dashes between them.
`Decode` cuts a string at its dashes, looks the words up by binary search, puts the bits
back into 33 bytes and compares the hash. `std::array::at` never throws here: a number
of eleven bits is less than 2048 (`Emitted.lt`).

Main result: `mnemonic_round_trip`. `Decode` returns a key exactly for the string that
`Encode` makes of it. Both directions go through the bits: the 24 numbers that `Encode`
writes have the bits of the buffer (`encode_spec`), and so have the 33 bytes that `Decode`
fills, exactly if they are the buffer (`entropyOf_eq_iff`).
-/

namespace BlankChat.Crypto.Bip39

open Lib BlankChat.Core

def bipBitsAmount : ℕ := 264
def wordsInMnemonic : ℕ := 24
def dash : UInt8 := 0x2D

variable (sha256 : Bytes → ByteVec 32)

/-! ## Encode -/

/-- The key and the first byte of its hash. -/
def bufferOf (pubKey : PublicKeyType) : Bytes :=
  pubKey.toList ++ [(sha256 pubKey.toList).get 0]

structure EncodeState : Type where
  wordIndex : ℕ := 0
  result : SecureString := SecureString.empty

/-- The body of the loop of `Encode`. -/
def encodeStep (buffer : Bytes) (s : EncodeState) (i : ℕ) : EncodeState :=
  let byteIndex := i / 8
  let bitOffset := 7 - i % 8
  let bit := (buffer.getD byteIndex 0).toNat.testBit bitOffset
  let wordIndex := s.wordIndex <<< 1 ||| bit.toNat
  if (i + 1) % 11 = 0 then
    let result := if i > 10 then s.result.pushBack dash else s.result
    { wordIndex := 0, result := result.pushAll (wordlist.getD wordIndex []) }
  else { s with wordIndex := wordIndex }

def encode (pubKey : PublicKeyType) : SecureString :=
  ((List.range bipBitsAmount).foldl (encodeStep (bufferOf sha256 pubKey)) {}).result

/-! ## Decode -/

/-- The loop of `Decode` over the dashes; `rest` is the mnemonic from `start` on, and
`words` are those found so far. -/
def splitMnemonic (words : List Bytes) (rest : Bytes) : Option (List Bytes) :=
  if dash ∈ rest then
    let stop := rest.idxOf dash
    if words.length ≥ wordsInMnemonic - 1 then none
    else splitMnemonic (words ++ [rest.take stop]) (rest.drop (stop + 1))
  else if words.length ≠ wordsInMnemonic - 1 then none
  else some (words ++ [rest])
termination_by rest.length
decreasing_by
  have hpos := List.length_pos_of_mem ‹dash ∈ rest›
  rw [List.length_drop]
  omega

/-- `std::ranges::lower_bound` in the dictionary, and the test of what it found. -/
def lookupWord (word : Bytes) : Option UInt16 :=
  let it := lowerBound (fun w => decide (w < word)) wordlist
  match wordlist[it]? with
  | none => none
  | some found => if found ≠ word then none else some (UInt16.ofNat it)

/-- The body of the second loop of `Decode`. -/
def decodeStep (indices : List UInt16) (entropyWithChecksum : Bytes) (i : ℕ) : Bytes :=
  let wordIndex := i / 11
  let bitInWord := 10 - i % 11
  let bit := (indices.getD wordIndex 0).toNat.testBit bitInWord
  let byteIndex := i / 8
  let bitInByte := 7 - i % 8
  entropyWithChecksum.modify byteIndex
    (· ||| UInt8.ofNat bit.toNat <<< UInt8.ofNat bitInByte)

def entropyOf (indices : List UInt16) : Bytes :=
  (List.range bipBitsAmount).foldl (decodeStep indices) (List.replicate (publicKeySize + 1) 0)

def decode (mnemonic : Bytes) : Option PublicKeyType := do
  let words ← splitMnemonic [] mnemonic
  let indices ← words.mapM lookupWord
  let entropyWithChecksum := entropyOf indices
  let pubKey := entropyWithChecksum.take publicKeySize
  if (sha256 pubKey).get 0 ≠ entropyWithChecksum.getD publicKeySize 0 then none
  else some (ByteVec.ofSpan publicKeySize pubKey)

/-! ## The text of a mnemonic -/

def wordAt (index : ℕ) : Bytes := wordlist.getD index []

/-- The words of the numbers with dashes between them. -/
def mnemonicText (indices : List ℕ) : Bytes := [dash].intercalate (indices.map wordAt)

theorem wordAt_mem {index : ℕ} (h : index < 2 ^ 11) : wordAt index ∈ wordlist := by
  have hlt : index < wordlist.length := by
    rw [length_wordlist]
    exact h
  rw [wordAt, List.getD_eq_getElem _ _ hlt]
  exact List.getElem_mem hlt

theorem intercalate_append_singleton (sep : Bytes) {l : List Bytes} (hl : l ≠ []) (word : Bytes) :
    sep.intercalate (l ++ [word]) = sep.intercalate l ++ (sep ++ word) := by
  induction l with
  | nil => exact absurd rfl hl
  | cons w l ih =>
      cases l with
      | nil => simp [List.intercalate_cons_cons]
      | cons w' l =>
          have hrest := ih (List.cons_ne_nil _ _)
          rw [List.cons_append] at hrest
          rw [List.cons_append, List.cons_append, List.intercalate_cons_cons, hrest,
            List.intercalate_cons_cons]
          simp

theorem mnemonicText_append (indices : List ℕ) (index : ℕ) :
    mnemonicText (indices ++ [index]) =
      mnemonicText indices ++ ((if indices = [] then [] else [dash]) ++ wordAt index) := by
  unfold mnemonicText
  rw [List.map_append]
  split
  · next h =>
      subst h
      simp
  · next h =>
      exact intercalate_append_singleton [dash] (by simpa using h) (wordAt index)

/-- Nine characters a word are enough. -/
theorem length_mnemonicText {indices : List ℕ} (h : ∀ n ∈ indices, n < 2 ^ 11) :
    (mnemonicText indices).length ≤ 9 * indices.length := by
  induction indices using List.reverseRecOn with
  | nil => exact le_rfl
  | append_singleton indices index ih =>
      have hword := (forall_mem_wordlist _ (wordAt_mem (h index (by simp)))).1
      have hrest := ih fun n hn => h n (by simp [hn])
      have hsep : (if indices = [] then ([] : Bytes) else [dash]).length ≤ 1 := by
        split <;> simp
      rw [mnemonicText_append, List.length_append, List.length_append, List.length_append,
        List.length_singleton]
      omega

/-! ## What Encode writes -/

theorem toNat_getD (l : Bytes) (i : ℕ) : (l.getD i 0).toNat = (l.map UInt8.toNat).getD i 0 :=
  (List.getD_map l 0 UInt8.toNat).symm

/-- After `i` bits: the numbers that have been written, and the bits of the next. -/
structure Emitted (buffer : Bytes) (i : ℕ) (s : EncodeState) (indices : List ℕ) : Prop where
  count : indices.length = i / 11
  lt : ∀ n ∈ indices, n < 2 ^ 11
  bits : ∀ p < 11 * indices.length, bitAt 11 indices p = bitAt 8 (buffer.map UInt8.toNat) p
  current : ReadsBits (bitAt 8 (buffer.map UInt8.toNat)) (11 * indices.length) (i % 11) s.wordIndex
  view : s.result.stringView = mnemonicText indices
  capacity : s.result.maxCapacity = 256

theorem emitted_zero (buffer : Bytes) : Emitted buffer 0 {} [] where
  count := rfl
  lt := List.forall_mem_nil _
  bits := fun p hp => absurd hp (Nat.not_lt_zero p)
  current := readsBits_zero _ _
  view := rfl
  capacity := rfl

section Encode

variable {buffer : Bytes} {s : EncodeState} {indices : List ℕ} {i : ℕ}

/-- A word fits as long as it is one of 24. -/
theorem Emitted.stringView_push (h : Emitted buffer i s indices) (hi : i < bipBitsAmount)
    {index : ℕ} (hindex : index < 2 ^ 11) :
    let result := if i > 10 then s.result.pushBack dash else s.result
    (result.pushAll (wordAt index)).stringView = mnemonicText (indices ++ [index]) ∧
      (result.pushAll (wordAt index)).maxCapacity = 256 := by
  have hcount := h.count
  have hlength := length_mnemonicText h.lt
  have hword := (forall_mem_wordlist _ (wordAt_mem hindex)).1
  have hi' : i < 264 := hi
  have hcapacity := h.capacity
  have hview := h.view
  rw [mnemonicText_append, ← hview]
  rw [← hview] at hlength
  by_cases hfirst : i > 10
  · have hne : indices ≠ [] := by
      rintro rfl
      simp only [List.length_nil] at hcount
      omega
    have hdash := SecureString.stringView_pushBack (s := s.result) (by omega) dash
    rw [if_pos hfirst, if_neg hne]
    dsimp only
    rw [SecureString.maxCapacity_pushAll, SecureString.maxCapacity_pushBack, hcapacity,
      SecureString.stringView_pushAll, hdash, List.append_assoc]
    · exact ⟨rfl, rfl⟩
    · rw [hdash, SecureString.maxCapacity_pushBack, List.length_append, List.length_singleton]
      omega
  · have hnil : indices = [] := by
      apply List.eq_nil_of_length_eq_zero
      omega
    rw [if_neg hfirst, if_pos hnil]
    dsimp only
    rw [SecureString.maxCapacity_pushAll, hcapacity, SecureString.stringView_pushAll (by omega),
      List.nil_append]
    exact ⟨rfl, rfl⟩

/-- **One bit.** Every eleventh completes a number, whose word is written. -/
theorem Emitted.step (h : Emitted buffer i s indices) (hi : i < bipBitsAmount) :
    ∃ indices', Emitted buffer (i + 1) (encodeStep buffer s i) indices' := by
  have hcount := h.count
  have hpos : 11 * indices.length + i % 11 = i := by omega
  have hbit : (buffer.getD (i / 8) 0).toNat.testBit (7 - i % 8) =
      bitAt 8 (buffer.map UInt8.toNat) (11 * indices.length + i % 11) := by
    rw [hpos, toNat_getD]
    rfl
  have hread := h.current.push
  rw [← hbit] at hread
  unfold encodeStep
  dsimp only
  by_cases hword : (i + 1) % 11 = 0
  · -- the eleventh bit
    have hmod : i % 11 + 1 = 11 := by omega
    rw [hmod] at hread
    obtain ⟨hview, hcapacity⟩ := h.stringView_push hi hread.lt
    rw [if_pos hword]
    refine ⟨indices ++ [_], ?_, ?_, ?_, ?_, hview, hcapacity⟩
    · rw [List.length_append, List.length_singleton]
      omega
    · intro n hn
      rcases List.mem_append.mp hn with hn | hn
      · exact h.lt n hn
      · rw [List.mem_singleton.mp hn]
        exact hread.lt
    · rw [List.length_append, List.length_singleton]
      exact hread.bitAt_append h.bits
    · rw [hword]
      exact readsBits_zero _ _
  · have hmod : (i + 1) % 11 = i % 11 + 1 := by omega
    rw [if_neg hword]
    refine ⟨indices, ?_, h.lt, h.bits, ?_, h.view, h.capacity⟩
    · rw [hcount]
      omega
    · rw [hmod]
      exact hread

end Encode

theorem emitted_run (buffer : Bytes) : ∀ i ≤ bipBitsAmount,
    ∃ indices, Emitted buffer i ((List.range i).foldl (encodeStep buffer) {}) indices := by
  intro i
  induction i with
  | zero => exact fun _ => ⟨[], emitted_zero buffer⟩
  | succ i ih =>
      intro hi
      obtain ⟨indices, h⟩ := ih (Nat.le_of_succ_le hi)
      rw [List.range_succ, List.foldl_append]
      exact h.step hi

/-- **What `Encode` writes**: the words of 24 numbers with the bits of the buffer, and
all of them. -/
theorem encode_spec (pubKey : PublicKeyType) :
    ∃ indices : List ℕ, indices.length = 24 ∧ (∀ n ∈ indices, n < 2 ^ 11) ∧
      (∀ p < 264, bitAt 11 indices p = bitAt 8 ((bufferOf sha256 pubKey).map UInt8.toNat) p) ∧
      (encode sha256 pubKey).stringView = mnemonicText indices := by
  obtain ⟨indices, h⟩ := emitted_run (bufferOf sha256 pubKey) bipBitsAmount le_rfl
  have hcount : indices.length = 24 := h.count
  refine ⟨indices, hcount, h.lt, ?_, h.view⟩
  have hbits := h.bits
  rw [hcount] at hbits
  exact hbits

/-! ## What Decode reads -/

/-- The loop cuts at every dash, and insists on 24 words. -/
theorem splitMnemonic_eq (words : List Bytes) (rest : Bytes) :
    splitMnemonic words rest =
      if words.length + (rest.splitOn dash).length = 24 then some (words ++ rest.splitOn dash)
      else none := by
  induction words, rest using splitMnemonic.induct with
  | case1 words rest hmem hmany =>
      have hmany' : words.length ≥ 23 := hmany
      obtain ⟨word, rest', rfl, hword⟩ := List.eq_append_cons_of_mem hmem
      have hsplit := List.splitOn_append_cons_self_of_not_mem hword rest'
      have hpos := List.length_pos_of_ne_nil (List.splitOn_ne_nil dash rest')
      rw [splitMnemonic, if_pos hmem, if_pos hmany, if_neg]
      rw [hsplit, List.length_cons]
      omega
  | case2 words rest hmem stop hmany ih =>
      obtain ⟨word, rest', rfl, hword⟩ := List.eq_append_cons_of_mem hmem
      have hsplit := List.splitOn_append_cons_self_of_not_mem hword rest'
      have hstop : stop = word.length := by
        show List.idxOf dash (word ++ dash :: rest') = _
        rw [List.idxOf_append_of_notMem hword, List.idxOf_cons_self, Nat.add_zero]
      have htake : (word ++ dash :: rest').take stop = word := by
        rw [hstop, List.take_left]
      have hdrop : (word ++ dash :: rest').drop (stop + 1) = rest' := by
        rw [hstop, ← List.drop_drop, List.drop_left]
        rfl
      rw [htake, hdrop] at ih
      rw [splitMnemonic, if_pos hmem, if_neg hmany]
      show splitMnemonic (words ++ [List.take stop _]) (List.drop (stop + 1) _) = _
      rw [htake, hdrop, ih, hsplit, List.length_append, List.length_singleton, List.length_cons,
        List.append_assoc, List.singleton_append, Nat.add_assoc, Nat.add_comm 1]
  | case3 words rest hmem hcount =>
      have hcount' : words.length ≠ 23 := hcount
      rw [splitMnemonic, if_neg hmem, if_pos hcount, List.splitOn_eq_singleton hmem, if_neg]
      rw [List.length_singleton]
      omega
  | case4 words rest hmem hcount =>
      have hcount' : ¬ words.length ≠ 23 := hcount
      rw [splitMnemonic, if_neg hmem, if_neg hcount, List.splitOn_eq_singleton hmem, if_pos]
      rw [List.length_singleton]
      omega

/-- **A word is found exactly where it stands in the dictionary.** -/
theorem lookupWord_eq_some {word : Bytes} {index : UInt16} :
    lookupWord word = some index ↔ index.toNat < 2 ^ 11 ∧ word = wordAt index.toNat := by
  constructor
  · intro h
    unfold lookupWord at h
    dsimp only at h
    split at h
    · cases h
    · next found hfound =>
        obtain ⟨hlt, hget⟩ := List.getElem?_eq_some_iff.mp hfound
        split at h
        · cases h
        · next hsame =>
            rw [not_not] at hsame
            subst hsame
            obtain rfl := Option.some.inj h
            rw [length_wordlist] at hlt
            rw [UInt16.toNat_ofNat_of_lt' (Nat.lt_trans hlt (by decide)), wordAt,
              List.getD_eq_getElem?_getD, hfound]
            exact ⟨hlt, rfl⟩
  · rintro ⟨hlt, rfl⟩
    have hindex : index.toNat < wordlist.length := by
      rw [length_wordlist]
      exact hlt
    have hget : wordAt index.toNat = wordlist[index.toNat] := List.getD_eq_getElem _ _ hindex
    have hbound := lowerBound_getElem (fun _ _ => List.lt_asymm) increasing_wordlist hindex
    unfold lookupWord
    dsimp only
    rw [hget, hbound, List.getElem?_eq_getElem hindex]
    simp

theorem mapM_lookupWord {words : List Bytes} {indices : List UInt16} :
    words.mapM lookupWord = some indices ↔
      (∀ n ∈ indices.map UInt16.toNat, n < 2 ^ 11) ∧
        words = (indices.map UInt16.toNat).map wordAt := by
  induction words generalizing indices with
  | nil =>
      rw [List.mapM_nil]
      cases indices with
      | nil => simp
      | cons index indices => simp
  | cons word words ih =>
      rw [List.mapM_cons]
      simp only [Option.bind_eq_bind, Option.bind_eq_some_iff, Option.pure_def, Option.some_inj]
      constructor
      · rintro ⟨index, hindex, rest, hrest, rfl⟩
        obtain ⟨hlt, rfl⟩ := lookupWord_eq_some.mp hindex
        obtain ⟨hall, rfl⟩ := ih.mp hrest
        exact ⟨List.forall_mem_cons.mpr ⟨hlt, hall⟩, rfl⟩
      · rintro ⟨hall, hwords⟩
        cases indices with
        | nil => cases hwords
        | cons index indices =>
            rw [List.map_cons, List.forall_mem_cons] at hall
            rw [List.map_cons, List.map_cons, List.cons.injEq] at hwords
            exact ⟨index, lookupWord_eq_some.mpr ⟨hall.1, hwords.1⟩, indices,
              ih.mpr ⟨hall.2, hwords.2⟩, rfl⟩

/-- The strings that are cut into words of the dictionary are the texts of mnemonics. -/
theorem split_lookup_iff {mnemonic : Bytes} {indices : List UInt16} :
    (splitMnemonic [] mnemonic).bind (fun words => words.mapM lookupWord) = some indices ↔
      indices.length = 24 ∧ (∀ n ∈ indices.map UInt16.toNat, n < 2 ^ 11) ∧
        mnemonic = mnemonicText (indices.map UInt16.toNat) := by
  rw [splitMnemonic_eq, List.length_nil, Nat.zero_add, List.nil_append]
  constructor
  · intro h
    split at h
    · next hcount =>
        obtain ⟨hlt, hwords⟩ := mapM_lookupWord.mp h
        refine ⟨?_, hlt, ?_⟩
        · rw [hwords, List.length_map, List.length_map] at hcount
          exact hcount
        · rw [mnemonicText, ← hwords, List.intercalate_splitOn]
    · cases h
  · rintro ⟨hcount, hlt, rfl⟩
    have hne : (indices.map UInt16.toNat).map wordAt ≠ [] := by
      intro hnil
      rw [List.map_eq_nil_iff, List.map_eq_nil_iff] at hnil
      rw [hnil] at hcount
      cases hcount
    have hdash : ∀ word ∈ (indices.map UInt16.toNat).map wordAt, dash ∉ word := by
      intro word hword
      obtain ⟨n, hn, rfl⟩ := List.mem_map.mp hword
      exact (forall_mem_wordlist _ (wordAt_mem (hlt n hn))).2
    have hsplit : (mnemonicText (indices.map UInt16.toNat)).splitOn dash =
        (indices.map UInt16.toNat).map wordAt :=
      List.splitOn_intercalate dash hdash hne
    rw [hsplit, if_pos (by rw [List.length_map, List.length_map, hcount])]
    exact mapM_lookupWord.mpr ⟨hlt, rfl⟩

theorem map_decodeStep (indices : List UInt16) (entropy : Bytes) (i : ℕ) :
    (decodeStep indices entropy i).map UInt8.toNat =
      orBit 8 (entropy.map UInt8.toNat) i (bitAt 11 (indices.map UInt16.toNat) i) := by
  have hbit : (indices.getD (i / 11) 0).toNat.testBit (10 - i % 11) =
      bitAt 11 (indices.map UInt16.toNat) i := by
    unfold bitAt
    rw [← List.getD_map indices 0 UInt16.toNat]
    rfl
  have hshift : ∀ (b : Bool) (k : ℕ), k < 8 →
      (UInt8.ofNat b.toNat <<< UInt8.ofNat (7 - k)).toNat = b.toNat <<< (7 - k) := by
    decide
  unfold decodeStep orBit
  dsimp only
  rw [hbit]
  apply List.ext_getElem?
  intro j
  rw [List.getElem?_map, List.getElem?_modify, List.getElem?_modify, List.getElem?_map]
  cases entropy[j]? with
  | none => rfl
  | some b =>
      simp only [Option.map_eq_map, Option.map_some, Option.some_inj]
      split
      · rw [UInt8.toNat_or, hshift _ _ (Nat.mod_lt i (by decide))]
      · rfl

theorem map_entropyOf (indices : List UInt16) :
    (entropyOf indices).map UInt8.toNat =
      orBits 8 33 (bitAt 11 (indices.map UInt16.toNat)) 264 := by
  have hfold : ∀ i, ((List.range i).foldl (decodeStep indices) (List.replicate 33 0)).map
      UInt8.toNat = orBits 8 33 (bitAt 11 (indices.map UInt16.toNat)) i := by
    intro i
    induction i with
    | zero => exact List.map_replicate
    | succ i ih =>
        rw [List.range_succ, List.foldl_append, orBits_succ, ← ih]
        exact map_decodeStep indices _ i
  exact hfold 264

theorem bitAt_entropyOf (indices : List UInt16) {p : ℕ} (hp : p < 264) :
    bitAt 8 ((entropyOf indices).map UInt8.toNat) p = bitAt 11 (indices.map UInt16.toNat) p := by
  rw [map_entropyOf, bitAt_orBits _ (by decide), decide_eq_true hp, Bool.true_and]

theorem length_entropyOf (indices : List UInt16) : (entropyOf indices).length = 33 := by
  have h := congrArg List.length (map_entropyOf indices)
  rwa [List.length_map, length_orBits] at h

/-! ## The round trip -/

theorem length_bufferOf (pubKey : PublicKeyType) : (bufferOf sha256 pubKey).length = 33 := by
  rw [bufferOf, List.length_append, List.Vector.toList_length]
  rfl

theorem toNat_lt_of_mem {l : Bytes} : ∀ n ∈ l.map UInt8.toNat, n < 2 ^ 8 := by
  intro n hn
  obtain ⟨b, -, rfl⟩ := List.mem_map.mp hn
  exact b.toNat_lt

/-- **Regrouping loses nothing.** Bytes and words with the same bits determine each
other. -/
theorem entropyOf_eq_iff {buffer : Bytes} (hbuffer : buffer.length = 33) (indices : List UInt16) :
    entropyOf indices = buffer ↔
      ∀ p < 264, bitAt 11 (indices.map UInt16.toNat) p = bitAt 8 (buffer.map UInt8.toNat) p := by
  constructor
  · rintro rfl p hp
    exact (bitAt_entropyOf indices hp).symm
  · intro hbits
    have hlength : ((entropyOf indices).map UInt8.toNat).length =
        (buffer.map UInt8.toNat).length := by
      rw [List.length_map, List.length_map, length_entropyOf, hbuffer]
    have hmap := eq_of_bitAt hlength toNat_lt_of_mem toNat_lt_of_mem (by
      intro p hp
      rw [List.length_map, length_entropyOf] at hp
      rw [bitAt_entropyOf indices hp, hbits p hp])
    exact List.map_injective_iff.mpr (fun _ _ => UInt8.toNat_inj.mp) hmap

/-- The checksum is that of the key exactly if the bytes are the buffer of the key. -/
theorem checksum_iff {entropy : Bytes} (hlength : entropy.length = 33) (pubKey : PublicKeyType) :
    (if (sha256 (entropy.take 32)).get 0 ≠ entropy.getD 32 0 then none
      else some (ByteVec.ofSpan publicKeySize (entropy.take 32))) = some pubKey ↔
      entropy = bufferOf sha256 pubKey := by
  have hlt : 32 < entropy.length := by omega
  have htake : (entropy.take 32).length = publicKeySize := by
    rw [List.length_take, hlength]
    rfl
  have hentropy : entropy = entropy.take 32 ++ [entropy.getD 32 0] := by
    have hdrop : entropy.drop 32 = [entropy.getD 32 0] := by
      rw [List.drop_eq_getElem_cons hlt, List.getD_eq_getElem _ _ hlt, List.cons_inj_right,
        List.drop_eq_nil_iff]
      omega
    rw [← hdrop, List.take_append_drop]
  constructor
  · intro h
    split at h
    · cases h
    · next hsum =>
        rw [not_not] at hsum
        obtain rfl := Option.some.inj h
        rw [bufferOf, ByteVec.ofSpan_toList htake, hsum]
        exact hentropy
  · intro h
    have hkey : entropy.take 32 = pubKey.toList := by
      rw [h, bufferOf]
      exact List.take_left' pubKey.toList_length
    have hsum : entropy.getD 32 0 = (sha256 pubKey.toList).get 0 := by
      rw [h, bufferOf, List.getD_append_right _ _ _ _ (by rw [List.Vector.toList_length]; rfl),
        List.Vector.toList_length]
      rfl
    rw [hkey, hsum, if_neg (not_not.mpr rfl), ByteVec.ofSpan_eq]

theorem decode_eq_some_iff {mnemonic : Bytes} {pubKey : PublicKeyType} :
    decode sha256 mnemonic = some pubKey ↔
      ∃ indices : List UInt16, indices.length = 24 ∧
        (∀ n ∈ indices.map UInt16.toNat, n < 2 ^ 11) ∧
        mnemonic = mnemonicText (indices.map UInt16.toNat) ∧
        entropyOf indices = bufferOf sha256 pubKey := by
  unfold decode
  simp only [Option.bind_eq_bind]
  rw [← Option.bind_assoc, Option.bind_eq_some_iff]
  apply exists_congr
  intro indices
  rw [split_lookup_iff]
  have hsum := checksum_iff sha256 (length_entropyOf indices) pubKey
  constructor
  · rintro ⟨⟨hcount, hlt, htext⟩, h⟩
    exact ⟨hcount, hlt, htext, hsum.mp h⟩
  · rintro ⟨hcount, hlt, htext, h⟩
    exact ⟨⟨hcount, hlt, htext⟩, hsum.mpr h⟩

theorem map_toNat_ofNat {l : List ℕ} (hl : ∀ n ∈ l, n < 2 ^ 11) :
    (l.map UInt16.ofNat).map UInt16.toNat = l := by
  rw [List.map_map]
  calc l.map (UInt16.toNat ∘ UInt16.ofNat)
      = l.map id := List.map_congr_left fun n hn =>
        UInt16.toNat_ofNat_of_lt' (Nat.lt_trans (hl n hn) (by decide))
    _ = l := List.map_id l

/-- **`Encode` and `Decode` are inverse to each other**, whatever the hash function is.
`Decode` returns a key exactly for its mnemonic, which consists of 24 words of the
dictionary with single dashes and is never cut off by the capacity of the string. -/
theorem mnemonic_round_trip (mnemonic : Bytes) (pubKey : PublicKeyType) :
    (decode sha256 mnemonic = some pubKey ↔ mnemonic = (encode sha256 pubKey).stringView) ∧
      ∃ words : List Bytes, words.length = wordsInMnemonic ∧ (∀ word ∈ words, word ∈ wordlist) ∧
        (encode sha256 pubKey).stringView = [dash].intercalate words ∧
        (encode sha256 pubKey).stringView.length < defaultSecureStringCapacity - 1 := by
  obtain ⟨numbers, hcount, hlt, hbits, hview⟩ := encode_spec sha256 pubKey
  have hbuffer := length_bufferOf sha256 pubKey
  refine ⟨?_, numbers.map wordAt, ?_, ?_, hview, ?_⟩
  · rw [decode_eq_some_iff, hview]
    constructor
    · rintro ⟨indices, hcount', hlt', rfl, hentropy⟩
      have hbits' := (entropyOf_eq_iff hbuffer indices).mp hentropy
      have hsame : indices.map UInt16.toNat = numbers := by
        apply eq_of_bitAt _ hlt' hlt
        · intro p hp
          rw [List.length_map, hcount'] at hp
          rw [hbits' p hp, hbits p hp]
        · rw [List.length_map, hcount', hcount]
      rw [hsame]
    · rintro rfl
      have hnumbers := map_toNat_ofNat hlt
      refine ⟨numbers.map UInt16.ofNat, ?_, ?_, ?_, ?_⟩
      · rw [List.length_map, hcount]
      · rw [hnumbers]
        exact hlt
      · rw [hnumbers]
      · rw [entropyOf_eq_iff hbuffer, hnumbers]
        exact hbits
  · rw [List.length_map, hcount]
    rfl
  · intro word hword
    obtain ⟨n, hn, rfl⟩ := List.mem_map.mp hword
    exact wordAt_mem (hlt n hn)
  · have hlength := length_mnemonicText hlt
    rw [hcount] at hlength
    rw [hview]
    exact Nat.lt_of_le_of_lt hlength (by decide)

theorem decode_encode (pubKey : PublicKeyType) :
    decode sha256 (encode sha256 pubKey).stringView = some pubKey := by
  obtain ⟨numbers, hcount, hlt, hbits, hview⟩ := encode_spec sha256 pubKey
  have hnumbers := map_toNat_ofNat hlt
  refine (decode_eq_some_iff sha256).mpr ⟨numbers.map UInt16.ofNat, ?_, ?_, ?_, ?_⟩
  · rw [List.length_map, hcount]
  · rw [hnumbers]
    exact hlt
  · rw [hnumbers, hview]
  · rw [entropyOf_eq_iff (length_bufferOf sha256 pubKey), hnumbers]
    exact hbits

theorem letters_mnemonicText {indices : List ℕ} (h : ∀ n ∈ indices, n < 2 ^ 11) :
    (indices ≠ [] → mnemonicText indices ≠ []) ∧
      ∀ c ∈ mnemonicText indices, c = dash ∨ isLowercase c = true := by
  induction indices using List.reverseRecOn with
  | nil => exact ⟨fun hne => absurd rfl hne, List.forall_mem_nil _⟩
  | append_singleton indices index ih =>
      obtain ⟨hne, hletters⟩ := letters_of_mem_wordlist (wordAt_mem (h index (by simp)))
      have hrest := (ih fun n hn => h n (by simp [hn])).2
      rw [mnemonicText_append]
      refine ⟨fun _ => by simp [hne], ?_⟩
      intro c hc
      rw [List.mem_append, List.mem_append] at hc
      rcases hc with hc | hc | hc
      · exact hrest c hc
      · left
        split at hc
        · cases hc
        · exact List.mem_singleton.mp hc
      · exact .inr (hletters c hc)

theorem letters_encode (pubKey : PublicKeyType) :
    (encode sha256 pubKey).stringView ≠ [] ∧
      ∀ c ∈ (encode sha256 pubKey).stringView, c = dash ∨ isLowercase c = true := by
  obtain ⟨numbers, hcount, hlt, -, hview⟩ := encode_spec sha256 pubKey
  obtain ⟨hne, hletters⟩ := letters_mnemonicText hlt
  rw [hview]
  refine ⟨hne ?_, hletters⟩
  rintro rfl
  cases hcount

end BlankChat.Crypto.Bip39
