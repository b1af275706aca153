import BlankChat.Cli.Shell
import BlankChat.Client.IdentityStorage

/-!
# The start of the client — `InitializeIdentity`

The key pair of a client is made at its first start and read from `identity.json` at every
later one; whoever has exchanged keys with it knows it by this pair. The question is answered
on the standard input, and the command loop reads on behind the answer. Where no identity is
found, nothing else is looked at: a file that cannot be read is overwritten like one that is
not there.

Main result: `identity_kept_iff`, a client has the same identity at every later start if and
only if its text has got to the file.
-/

namespace BlankChat.Cli

open Lib BlankChat.Core Crypto Client

/-- `std::cin >> answer` for a character; it is left as it was at the end of the input. -/
def readAnswer (input : Bytes) : UInt8 × Bytes :=
  match input.dropWhile isSpace with
  | [] => (0, [])
  | answer :: rest => (answer, rest)

/-- What a start depends on: the standard input, the pair that `crypto_sign_keypair` makes,
and what happens to a save. -/
structure Start : Type where
  input : Bytes
  generated : IdentityKey
  save : SaveOutcome

/-- What `InitializeIdentity` returns, the file after it, and the input that is left for the
command loop. -/
structure Initialized : Type where
  identity : Option IdentityKey
  file : Option Bytes
  input : Bytes

/-- `InitializeIdentity`; without an identity `main` ends. -/
def initializeIdentity (J : Simdjson) (file : Option Bytes) (s : Start) : Initialized :=
  match loadIdentity J file with
  | some identity => ⟨some identity, file, s.input⟩
  | none =>
      let (answer, input) := readAnswer s.input
      if answer ≠ 0x79 ∧ answer ≠ 0x59 then ⟨none, file, input⟩
      else
        let (saved, file) := saveIdentity file s.generated s.save
        if !saved then ⟨none, file, input⟩ else ⟨some s.generated, file, input⟩

/-- The starts of a client, one after the other, with nothing else changing the file. -/
def starts (J : Simdjson) : Option Bytes → List Start → List Initialized
  | _, [] => []
  | file, s :: later =>
      initializeIdentity J file s :: starts J (initializeIdentity J file s).file later

variable {J : Simdjson} {file : Option Bytes} {s : Start} {identity : IdentityKey}

/-! ## One start -/

theorem initializeIdentity_loaded (h : loadIdentity J file = some identity) (s : Start) :
    initializeIdentity J file s = ⟨some identity, file, s.input⟩ := by
  rw [initializeIdentity, h]

/-- Where no identity is found, a start ends without one or has the new one, and then the file
holds a beginning of its text. -/
theorem initializeIdentity_made (h : loadIdentity J file = none)
    (hs : (initializeIdentity J file s).identity = some identity) :
    identity = s.generated ∧ (initializeIdentity J file s).file =
      some ((identityText identity).take s.save.written) := by
  unfold initializeIdentity saveIdentity at hs ⊢
  simp only [h] at hs ⊢
  split at hs
  · cases hs
  · next hanswer =>
      rw [if_neg hanswer]
      cases hopened : s.save.opened with
      | false =>
          rw [hopened] at hs
          cases hs
      | true =>
          rw [hopened] at hs
          cases hgood : s.save.good with
          | false =>
              rw [hgood] at hs
              cases hs
          | true =>
              rw [hgood] at hs
              cases hs
              exact ⟨rfl, rfl⟩

/-- The answer is no: the start ends without an identity. -/
def declined (identity : IdentityKey) : Start := ⟨ascii "n", identity, ⟨false, 0, false⟩⟩

theorem initializeIdentity_declined (h : loadIdentity J file = none) (identity : IdentityKey) :
    (initializeIdentity J file (declined identity)).identity = none := by
  rw [initializeIdentity, h]
  rfl

/-! ## All later starts -/

theorem identity_of_mem_starts (h : loadIdentity J file = some identity) (later : List Start) :
    ∀ r ∈ starts J file later, r.identity = some identity := by
  induction later with
  | nil => nofun
  | cons s later ih =>
      intro r hr
      rw [starts, initializeIdentity_loaded h] at hr
      rcases List.mem_cons.mp hr with rfl | hr
      · rfl
      · exact ih r hr

theorem starts_keep_iff :
    (∀ later, ∀ r ∈ starts J file later, r.identity = some identity) ↔
      loadIdentity J file = some identity := by
  refine ⟨fun hall => ?_, identity_of_mem_starts⟩
  cases hload : loadIdentity J file with
  | some found =>
      have hfirst := hall [declined identity] _ List.mem_cons_self
      rw [initializeIdentity_loaded hload] at hfirst
      exact hfirst
  | none =>
      have hfirst := hall [declined identity] _ List.mem_cons_self
      rw [initializeIdentity_declined hload] at hfirst
      cases hfirst

/-- **An identity is kept exactly if it has got to the file.** A start that has an identity has
found it or just made it. Every later start has the same one if and only if it was found or
all of its text, but for the line break at the end, was written; otherwise the next start finds
none, and asks for a new one. -/
theorem identity_kept_iff (J : Simdjson) (file : Option Bytes) (s : Start)
    (identity : IdentityKey) (h : (initializeIdentity J file s).identity = some identity) :
    (loadIdentity J file = some identity ∨
      loadIdentity J file = none ∧ identity = s.generated) ∧
    ((∀ later, ∀ r ∈ starts J (initializeIdentity J file s).file later,
        r.identity = some identity) ↔
      loadIdentity J file = some identity ∨
        (identityText identity).length ≤ s.save.written + 1) ∧
    ((loadIdentity J file = none ∧ s.save.written + 1 < (identityText identity).length) →
      loadIdentity J (initializeIdentity J file s).file = none) := by
  rw [starts_keep_iff]
  cases hload : loadIdentity J file with
  | some found =>
      rw [initializeIdentity_loaded hload] at h ⊢
      obtain rfl : found = identity := Option.some.inj h
      refine ⟨.inl rfl, ?_, nofun⟩
      rw [hload]
      exact ⟨.inl, fun _ => rfl⟩
  | none =>
      obtain ⟨hmade, hfile⟩ := initializeIdentity_made hload h
      rw [hfile, loadIdentity_take]
      refine ⟨.inr ⟨rfl, hmade⟩, ⟨fun hkept => .inr ?_, fun hwritten => ?_⟩, fun hcut => ?_⟩
      · by_contra hcut
        rw [if_neg hcut] at hkept
        cases hkept
      · exact if_pos (hwritten.resolve_left nofun)
      · exact if_neg (Nat.not_le_of_lt hcut.2)

/-- A pair of keys. -/
def someIdentity : IdentityKey := ⟨.replicate _ 1, .replicate _ 2⟩

/-- A first start at which the save reports success and nothing gets to the disk. -/
theorem identity_kept_iff_lost :
    let s : Start := ⟨ascii "y\nlist\n", someIdentity, ⟨true, 0, true⟩⟩
    ¬ ∀ later, ∀ r ∈ starts eager (initializeIdentity eager none s).file later,
      r.identity = some someIdentity := by
  intro s hall
  have hkept := (identity_kept_iff eager none s someIdentity rfl).2.1.mp hall
  rcases hkept with hload | hwritten
  · cases hload
  · exact absurd hwritten (by decide +kernel)

end BlankChat.Cli
