import BlankChat.Core.StringUtils
import BlankChat.Lib.Scan

/-!
# The memory quota — `memory_monitor.h`, `memory_monitor.cpp`

Once a second the relay reads `/proc/self/status`, takes the number after `VmRSS:`, scales it
to bytes and compares it with the limit. The file is read once, and a longer text is cut at the
end of the buffer; the log lines are left out.

`ParseVmRSS` accepts what it should (`parseVmRSS_eq_some_iff`): the conversion checks for
overflow. The scaling does not. Main result: `verdict_exact_iff`.
-/

namespace BlankChat.Network

open Lib BlankChat.Core

def vmLckPrefixLength : ℕ := 6
def bytesInKb : UInt64 := 1024
def statusBufferSize : ℕ := 2048

def isSpace (c : UInt8) : Bool := c = 0x20 || c = 0x09
def isDigit (c : UInt8) : Bool := 0x30 ≤ c && c ≤ 0x39

/-- One digit of `std::from_chars`: `none` once the value no longer fits. -/
def raiseAndAdd (value : UInt64) (c : UInt8) : Option UInt64 :=
  if value.toNat * 10 + (c - 0x30).toNat < 2 ^ 64 then
    some (value * 10 + UInt64.ofNat (c - 0x30).toNat)
  else none

/-- `std::from_chars` on a run of digits. -/
def fromChars (digits : Bytes) : Option UInt64 := digits.foldlM raiseAndAdd 0

def parseVmRSS (status : Bytes) : Option UInt64 :=
  match firstAt (ascii "VmRSS:") status with
  | none => none
  | some pos =>
      let numStart := (status.drop (pos + vmLckPrefixLength)).dropWhile isSpace
      match numStart with
      | [] => none
      | c :: _ => if isDigit c then fromChars (numStart.takeWhile isDigit) else none

/-- One read of the status file, which cannot always be read. -/
def readStatusFile (file : Option Bytes) : Bytes := (file.getD []).take (statusBufferSize - 1)

structure MemoryMonitor : Type where
  memoryLimitBytes : UInt64
  isQuotaExceeded : Bool := false

namespace MemoryMonitor

/-- `CheckMemory` with the text that `ReadStatusFile` has read. -/
def checkMemory (m : MemoryMonitor) (status : Bytes) : MemoryMonitor :=
  if status.length > 0 then
    match parseVmRSS status with
    | some vmRssKb =>
        let vmRssBytes := vmRssKb * bytesInKb
        let exceeded := decide (vmRssBytes ≥ m.memoryLimitBytes)
        let currentlyExceeded := m.isQuotaExceeded
        if exceeded ≠ currentlyExceeded then { m with isQuotaExceeded := exceeded } else m
    | none => m
  else m

end MemoryMonitor

/-! ## The number in the text -/

/-- The value of a run of decimal digits, after `value`. -/
def decimalFrom (value : ℕ) (digits : Bytes) : ℕ :=
  digits.foldl (fun v c => v * 10 + (c - 0x30).toNat) value

theorem le_decimalFrom (value : ℕ) (digits : Bytes) : value ≤ decimalFrom value digits := by
  induction digits generalizing value with
  | nil => exact le_rfl
  | cons c digits ih =>
      calc value ≤ value * 10 + (c - 0x30).toNat := by omega
        _ ≤ decimalFrom value (c :: digits) := ih _

/-- The overflow check of each digit is one of the whole number: from a value that is too
large no further digit leads back. -/
theorem foldlM_raiseAndAdd (digits : Bytes) (value v : UInt64) :
    digits.foldlM raiseAndAdd value = some v ↔ decimalFrom value.toNat digits = v.toNat := by
  induction digits generalizing value with
  | nil => simp [decimalFrom, UInt64.toNat_inj]
  | cons c digits ih =>
      have hcons : decimalFrom value.toNat (c :: digits) =
          decimalFrom (value.toNat * 10 + (c - 0x30).toNat) digits := rfl
      rw [List.foldlM_cons, raiseAndAdd, hcons]
      split
      · next hfits =>
          have hvalue : (value * 10 + UInt64.ofNat (c - 0x30).toNat).toNat =
              value.toNat * 10 + (c - 0x30).toNat := by
            have hdigit : (c - 0x30).toNat < 2 ^ 64 := by omega
            rw [UInt64.toNat_add, UInt64.toNat_mul, UInt64.toNat_ofNat_of_lt' hdigit]
            simp only [UInt64.reduceToNat]
            omega
          rw [← hvalue]
          exact ih _
      · next hlarge =>
          refine iff_of_false (Option.some_ne_none v).symm ?_
          intro heq
          have hle := le_decimalFrom (value.toNat * 10 + (c - 0x30).toNat) digits
          have hlt := v.toNat_lt
          omega

/-- What the text reports: after the first `VmRSS:`, blanks, and a longest run of digits whose
value is `v`. -/
def Reports (status : Bytes) (v : UInt64) : Prop :=
  ∃ before blanks digits rest : Bytes,
    FirstSplit (ascii "VmRSS:") status before (blanks ++ (digits ++ rest)) ∧
    (∀ c ∈ blanks, isSpace c = true) ∧
    digits ≠ [] ∧ (∀ c ∈ digits, isDigit c = true) ∧ (∀ c ∈ rest.head?, isDigit c = false) ∧
    decimalFrom 0 digits = v.toNat

theorem isSpace_of_isDigit {c : UInt8} (h : isDigit c = true) : isSpace c = false := by
  simp only [isDigit, Bool.and_eq_true, decide_eq_true_eq, UInt8.le_iff_toNat_le] at h
  simp only [isSpace, Bool.or_eq_false_iff, decide_eq_false_iff_not]
  constructor
  · rintro rfl
    exact absurd h.1 (by decide)
  · rintro rfl
    exact absurd h.1 (by decide)

theorem drop_label {status before rest : Bytes}
    (h : status = before ++ ascii "VmRSS:" ++ rest) :
    status.drop (before.length + vmLckPrefixLength) = rest := by
  have hlength : (before ++ ascii "VmRSS:").length = before.length + vmLckPrefixLength :=
    List.length_append
  rw [h, ← hlength]
  exact List.drop_left

/-- **The parser returns what the text reports.** -/
theorem parseVmRSS_eq_some_iff {status : Bytes} {v : UInt64} :
    parseVmRSS status = some v ↔ Reports status v := by
  unfold parseVmRSS
  constructor
  · intro h
    cases hfind : firstAt (ascii "VmRSS:") status with
    | none =>
        rw [hfind] at h
        cases h
    | some pos =>
        obtain ⟨before, text, rfl, hsplit⟩ := firstAt_eq_some_iff.mp hfind
        rw [hfind] at h
        simp only [drop_label hsplit.eq] at h
        obtain ⟨htext, hblanks, -⟩ := run_split_iff.mpr
          (⟨rfl, rfl⟩ : text.takeWhile isSpace = _ ∧ text.dropWhile isSpace = _)
        obtain ⟨hnumber, hdigits, hrest⟩ := run_split_iff.mpr
          (⟨rfl, rfl⟩ : (text.dropWhile isSpace).takeWhile isDigit = _ ∧
            (text.dropWhile isSpace).dropWhile isDigit = _)
        refine ⟨before, text.takeWhile isSpace, (text.dropWhile isSpace).takeWhile isDigit,
          (text.dropWhile isSpace).dropWhile isDigit, ?_, hblanks, ?_, hdigits, hrest, ?_⟩
        · rw [← hnumber, ← htext]
          exact hsplit
        · intro hnil
          split at h
          · cases h
          · next c _ hc =>
              rw [hc] at hnil
              split at h
              · next hdigit => simp [hdigit] at hnil
              · cases h
        · split at h
          · cases h
          · split at h
            · exact (foldlM_raiseAndAdd _ 0 v).mp h
            · cases h
  · rintro ⟨before, blanks, digits, rest, hsplit, hblanks, hne, hdigits, hrest, hvalue⟩
    have hnumber : (blanks ++ (digits ++ rest)).dropWhile isSpace = digits ++ rest := by
      refine (run_split_iff.mp ⟨rfl, hblanks, ?_⟩).2.symm
      intro c hc
      rw [List.head?_append_of_ne_nil _ hne] at hc
      exact isSpace_of_isDigit (hdigits c (List.mem_of_mem_head? hc))
    have hrun : (digits ++ rest).takeWhile isDigit = digits :=
      (run_split_iff.mp ⟨rfl, hdigits, hrest⟩).1.symm
    rw [firstAt_eq_some_iff.mpr ⟨before, _, rfl, hsplit⟩]
    simp only [drop_label hsplit.eq, hnumber]
    obtain ⟨c, digits', rfl⟩ := List.exists_cons_of_ne_nil hne
    simp only [List.cons_append] at hrun ⊢
    rw [if_pos (hdigits c List.mem_cons_self), hrun]
    exact (foldlM_raiseAndAdd _ 0 v).mpr hvalue

/-! ## The verdict -/

namespace MemoryMonitor

theorem checkMemory_of_some {m : MemoryMonitor} {status : Bytes} {v : UInt64}
    (h : parseVmRSS status = some v) :
    m.checkMemory status =
      { m with isQuotaExceeded := decide (m.memoryLimitBytes ≤ v * bytesInKb) } := by
  have hne : status.length > 0 := by
    apply List.length_pos_of_ne_nil
    rintro rfl
    cases h
  unfold checkMemory
  rw [if_pos hne, h]
  dsimp only
  split
  · rfl
  · next hsame => rw [not_not.mp hsame]

theorem checkMemory_of_none {m : MemoryMonitor} {status : Bytes}
    (h : parseVmRSS status = none) : m.checkMemory status = m := by
  unfold checkMemory
  rw [h]
  split <;> rfl

/-- The verdict on a status text, over the integers: the resident memory against the limit,
and no change if the text reports none. -/
def Exact (m : MemoryMonitor) (status : Bytes) : Prop :=
  (∀ v, Reports status v →
    ((m.checkMemory status).isQuotaExceeded = true ↔
      m.memoryLimitBytes.toNat ≤ v.toNat * 1024)) ∧
  ((∀ v, ¬ Reports status v) → (m.checkMemory status).isQuotaExceeded = m.isQuotaExceeded)

theorem toNat_scaled {v : UInt64} (h : v.toNat < 2 ^ 54) :
    (v * bytesInKb).toNat = v.toNat * 1024 := by
  rw [UInt64.toNat_mul]
  apply Nat.mod_eq_of_lt
  show v.toNat * 1024 < 2 ^ 64
  omega

theorem scaled_ne_max (v : UInt64) : (v * bytesInKb).toNat < 2 ^ 64 - 1 := by
  rw [UInt64.toNat_mul]
  show v.toNat * 1024 % 2 ^ 64 < 2 ^ 64 - 1
  omega

/-- **The verdict is exact, whatever the limit, exactly if the text reports less than `2 ^ 54`
kilobytes.** A larger number passes the conversion and wraps around in the scaling. -/
theorem verdict_exact_iff (status : Bytes) :
    (∀ v, parseVmRSS status = some v ↔ Reports status v) ∧
    ((∀ m : MemoryMonitor, m.Exact status) ↔ ∀ v, Reports status v → v.toNat < 2 ^ 54) := by
  refine ⟨fun v => parseVmRSS_eq_some_iff, ?_, ?_⟩
  · intro hexact v hv
    by_contra hlarge
    -- against the largest limit the wrapped number always loses
    have hverdict := (hexact ⟨.ofNat (2 ^ 64 - 1), true⟩).1 v hv
    rw [checkMemory_of_some (parseVmRSS_eq_some_iff.mpr hv)] at hverdict
    simp only [decide_eq_true_eq, UInt64.le_iff_toNat_le] at hverdict
    have hlimit : (UInt64.ofNat (2 ^ 64 - 1)).toNat = 2 ^ 64 - 1 := by decide
    rw [hlimit] at hverdict
    have hwrapped := scaled_ne_max v
    have := hverdict.mpr (by omega)
    omega
  · intro hsmall m
    refine ⟨?_, ?_⟩
    · intro v hv
      rw [checkMemory_of_some (parseVmRSS_eq_some_iff.mpr hv)]
      simp only [decide_eq_true_eq, UInt64.le_iff_toNat_le, toNat_scaled (hsmall v hv)]
    · intro hnone
      rw [checkMemory_of_none]
      apply Option.eq_none_iff_forall_ne_some.mpr
      intro v hv
      exact hnone v (parseVmRSS_eq_some_iff.mp hv)

/-- A text with a usual number. -/
theorem verdict_exact_usual :
    (MemoryMonitor.mk 1048576 false |>.checkMemory (ascii "VmRSS:\t 1024 kB")).isQuotaExceeded =
      true := by
  have hparse : parseVmRSS (ascii "VmRSS:\t 1024 kB") = some 1024 := by decide +kernel
  have hreports := ((verdict_exact_iff (ascii "VmRSS:\t 1024 kB")).1 1024).mp hparse
  have hexact := (verdict_exact_iff (ascii "VmRSS:\t 1024 kB")).2.mpr (by
    intro v hv
    have hv := ((verdict_exact_iff (ascii "VmRSS:\t 1024 kB")).1 v).mpr hv
    rw [hparse] at hv
    cases hv
    decide)
  exact ((hexact ⟨1048576, false⟩).1 1024 hreports).mpr (by decide)

/-- **`2 ^ 54` kilobytes.** The relay is told of `2 ^ 64` bytes of resident memory against a
limit of one byte, and takes the quota for not exceeded. -/
theorem verdict_wraps :
    parseVmRSS (ascii "VmRSS: 18014398509481984 kB") = some 18014398509481984 ∧
      ((⟨1, true⟩ : MemoryMonitor).checkMemory
        (ascii "VmRSS: 18014398509481984 kB")).isQuotaExceeded = false ∧
      ¬ (⟨1, true⟩ : MemoryMonitor).Exact (ascii "VmRSS: 18014398509481984 kB") := by
  have hparse : parseVmRSS (ascii "VmRSS: 18014398509481984 kB") = some 18014398509481984 := by
    decide +kernel
  have hverdict : ((⟨1, true⟩ : MemoryMonitor).checkMemory
      (ascii "VmRSS: 18014398509481984 kB")).isQuotaExceeded = false := by
    decide +kernel
  refine ⟨hparse, hverdict, fun hexact => ?_⟩
  have htrue := (hexact.1 _ (parseVmRSS_eq_some_iff.mp hparse)).mpr (by decide)
  rw [hverdict] at htrue
  cases htrue

end MemoryMonitor

end BlankChat.Network
