import BlankChat.Core.JsonText
import Mathlib.Data.Nat.Digits.Lemmas

/-!
# The text of a JSON line

The history files hold one JSON object a line, whose values are strings and unsigned
numbers. As in `JsonText`, the reader is one that simdjson may be, on the lines the client
writes: a line that is not UTF-8 or has an unescaped control character in a string is
rejected, a string is returned unescaped, and a number stays a token until `get` asks
for it.

Main result: `readLine_lineText`, an object is read back from its line, or the line is
rejected, and `acceptsLine` tells which.
-/

namespace BlankChat.Core

open Lib

inductive LineValue : Type where
  | string (s : Bytes)
  /-- The characters of a number. -/
  | number (token : Bytes)
deriving DecidableEq

abbrev LineObject : Type := List (Bytes × LineValue)

/-! ## Unsigned numbers -/

def isDigit (b : UInt8) : Bool := 0x30 ≤ b && b ≤ 0x39

def digitChar (d : ℕ) : UInt8 := UInt8.ofNat (0x30 + d)

/-- `operator<<` of an unsigned number. -/
def decimal (n : ℕ) : Bytes :=
  if n = 0 then [0x30] else (Nat.digits 10 n).reverse.map digitChar

def decimalValue (token : Bytes) : ℕ :=
  token.foldl (fun n b => 10 * n + (b.toNat - 0x30)) 0

/-- `get` into an unsigned 64-bit number: digits without a leading zero, in range. -/
def getUInt64 : Option LineValue → Option UInt64
  | some (.number token) =>
      if token ≠ [] ∧ token.all isDigit ∧ (token.head? = some 0x30 → token.length = 1) ∧
          decimalValue token < 2 ^ 64 then
        some (UInt64.ofNat (decimalValue token))
      else none
  | _ => none

/-- `get` into a string. -/
def getText : Option LineValue → Option Bytes
  | some (.string s) => some s
  | _ => none

theorem digitChar_toNat {d : ℕ} (hd : d < 10) : (digitChar d).toNat = 0x30 + d := by
  unfold digitChar
  rw [UInt8.toNat_ofNat']
  omega

theorem isDigit_digitChar {d : ℕ} (hd : d < 10) : isDigit (digitChar d) = true := by
  have hchar := digitChar_toNat hd
  simp only [isDigit, Bool.and_eq_true, decide_eq_true_eq, UInt8.le_iff_toNat_le, hchar,
    UInt8.reduceToNat]
  omega

theorem digits_lt (n : ℕ) : ∀ d ∈ (Nat.digits 10 n).reverse, d < 10 := by
  intro d hd
  exact Nat.digits_lt_base (by decide) (List.mem_reverse.mp hd)

theorem isDigit_decimal (n : ℕ) : (decimal n).all isDigit = true := by
  unfold decimal
  split
  · rfl
  · rw [List.all_map, List.all_eq_true]
    intro d hd
    exact isDigit_digitChar (digits_lt n d hd)

theorem decimal_ne_nil (n : ℕ) : decimal n ≠ [] := by
  unfold decimal
  split
  · exact List.cons_ne_nil _ _
  · next hn => simpa [Nat.digits_eq_nil_iff_eq_zero] using hn

theorem foldl_digitChar {l : List ℕ} (hl : ∀ d ∈ l, d < 10) :
    decimalValue (l.map digitChar) = Nat.ofDigits 10 l.reverse := by
  induction l using List.reverseRecOn with
  | nil => rfl
  | append_singleton l d ih =>
      have hd : d < 10 := hl d (by simp)
      have hchar := digitChar_toNat hd
      unfold decimalValue at ih ⊢
      rw [List.map_append, List.foldl_append, ih fun d' hd' => hl d' (by simp [hd']),
        List.reverse_append]
      simp only [List.map_cons, List.map_nil, List.foldl_cons, List.foldl_nil, List.reverse_singleton,
        List.singleton_append, Nat.ofDigits_cons, hchar]
      omega

theorem decimalValue_decimal (n : ℕ) : decimalValue (decimal n) = n := by
  unfold decimal
  split
  · next hn => simp [hn, decimalValue]
  · rw [foldl_digitChar (digits_lt n), List.reverse_reverse, Nat.ofDigits_digits]

/-- Only zero is written with a leading zero. -/
theorem decimal_head {n : ℕ} (h : (decimal n).head? = some 0x30) : (decimal n).length = 1 := by
  unfold decimal at h ⊢
  split
  · rfl
  · next hn =>
      rw [if_neg hn] at h
      have hne : Nat.digits 10 n ≠ [] := Nat.digits_ne_nil_iff_ne_zero.mpr hn
      have hlast := Nat.getLast_digit_ne_zero 10 hn
      have hlt := Nat.digits_lt_base (by decide : 1 < 10) (List.getLast_mem hne)
      rw [List.head?_map, List.head?_reverse, List.getLast?_eq_getLast_of_ne_nil hne,
        Option.map_some, Option.some_inj] at h
      have hval : (digitChar _).toNat = 0x30 := congrArg UInt8.toNat h
      rw [digitChar_toNat hlt] at hval
      omega

/-- **A number is read back from its digits.** -/
theorem getUInt64_decimal (n : UInt64) :
    getUInt64 (some (.number (decimal n.toNat))) = some n := by
  show (if _ then _ else _) = _
  rw [if_pos ⟨decimal_ne_nil _, isDigit_decimal _, decimal_head, by
    rw [decimalValue_decimal]
    exact n.toNat_lt⟩, decimalValue_decimal, UInt64.ofNat_toNat]

/-! ## Reading -/

/-- The characters a number may consist of. -/
def isNumberChar (b : UInt8) : Bool :=
  isDigit b || b = 0x2D || b = 0x2B || b = 0x2E || b = 0x65 || b = 0x45

def readLineValue (text : Bytes) : Option (LineValue × Bytes) :=
  match expect 0x22 text with
  | some text => (readString text).map fun r => (.string r.1, r.2)
  | none =>
      let token := text.takeWhile isNumberChar
      if token = [] then none else some (.number token, text.dropWhile isNumberChar)

/-- The members of an object up to its closing brace. -/
def readLineMembers : ℕ → Bytes → Option (LineObject × Bytes)
  | 0, _ => none
  | fuel + 1, text => do
      let text ← expect 0x22 (skipWhitespace text)
      let (key, text) ← readString text
      let text ← expect 0x3A (skipWhitespace text)
      let (value, text) ← readLineValue (skipWhitespace text)
      match skipWhitespace text with
      | [] => none
      | c :: text =>
          if c = 0x2C then (readLineMembers fuel text).map fun r => ((key, value) :: r.1, r.2)
          else if c = 0x7D then some ([(key, value)], text)
          else none

/-- The object of a line; `none` if the library rejects the line. -/
def readLine (text : Bytes) : Option LineObject :=
  if validUtf8 text then do
    let text ← expect 0x7B (skipWhitespace text)
    let (o, text) ← readLineMembers text.length text
    guard (skipWhitespace text = [])
    return o
  else none

/-- `find_field` of an object that is read forward: the value, and the fields after
it. -/
def findField (key : Bytes) : LineObject → Option LineValue × LineObject
  | [] => (none, [])
  | field :: fields => if field.1 = key then (some field.2, fields) else findField key fields

/-! ## Writing -/

def lineValueText : LineValue → Bytes
  | .string s => 0x22 :: (escapeJsonString s ++ [0x22])
  | .number token => token

def lineFieldText (field : Bytes × LineValue) : Bytes :=
  0x22 :: (field.1 ++ 0x22 :: 0x3A :: lineValueText field.2)

def lineMembersText : LineObject → Bytes
  | [] => []
  | [field] => lineFieldText field
  | field :: fields => lineFieldText field ++ 0x2C :: lineMembersText fields

def lineText (o : LineObject) : Bytes := 0x7B :: (lineMembersText o ++ [0x7D])

/-- What a line may be written from: plain keys, and numbers that are numbers. -/
def LineValue.WellFormed : LineValue → Prop
  | .string _ => True
  | .number token => token ≠ [] ∧ token.all isDigit = true

def WellFormedLine (o : LineObject) : Prop :=
  o ≠ [] ∧ ∀ f ∈ o, plain f.1 = true ∧ f.2.WellFormed

def escapesLineValue : LineValue → Bool
  | .string s => escapes s
  | .number _ => true

def validLineValue : LineValue → Bool
  | .string s => validUtf8 s
  | .number _ => true

/-- Whether the library accepts the line of an object. -/
def acceptsLine (o : LineObject) : Bool :=
  o.all (fun f => validLineValue f.2) && o.all fun f => escapesLineValue f.2

/-! ## Reading what was written -/

theorem isDigit_range {b : UInt8} (hb : isDigit b = true) : 0x30 ≤ b ∧ b ≤ 0x39 := by
  simpa [isDigit] using hb

theorem isDigit_ne {b c : UInt8} (hb : isDigit b = true) (hc : isDigit c = false) : b ≠ c := by
  rintro rfl
  rw [hb] at hc
  cases hc

theorem skipWhitespace_value {value : LineValue} (hvalue : value.WellFormed) (text : Bytes) :
    skipWhitespace (lineValueText value ++ text) = lineValueText value ++ text := by
  cases value with
  | string s => rfl
  | number token =>
      obtain ⟨hne, hdigits⟩ := hvalue
      cases token with
      | nil => exact absurd rfl hne
      | cons b token =>
          have hb : isDigit b = true := by
            rw [List.all_cons, Bool.and_eq_true] at hdigits
            exact hdigits.1
          have hspace : isWhitespace b = false := by
            simp [isWhitespace, isDigit_ne hb (c := 0x20) rfl, isDigit_ne hb (c := 0x09) rfl,
              isDigit_ne hb (c := 0x0A) rfl, isDigit_ne hb (c := 0x0D) rfl]
          show (b :: (token ++ text)).dropWhile isWhitespace = _
          rw [List.dropWhile_cons_of_neg (by rw [hspace]; decide)]
          rfl

/-- A value is read back up to the comma or the brace that ends it. -/
theorem readLineValue_lineValueText {value : LineValue} (hvalue : value.WellFormed) {c : UInt8}
    (hc : isNumberChar c = false) (text : Bytes) :
    readLineValue (lineValueText value ++ c :: text) =
      if escapesLineValue value then some (value, c :: text) else none := by
  cases value with
  | string s =>
      have hread := readString_escapeJsonString s (c :: text)
      unfold readLineValue
      show (readString ((escapeJsonString s ++ [0x22]) ++ c :: text)).map _ = _
      rw [List.append_assoc, List.singleton_append, hread]
      show _ = if escapes s then _ else _
      split <;> rfl
  | number token =>
      obtain ⟨hne, hdigits⟩ := hvalue
      have hchars : ∀ b ∈ token, isNumberChar b = true := by
        intro b hb
        rw [isNumberChar, List.all_eq_true.mp hdigits b hb]
        rfl
      have hquote : expect 0x22 (token ++ c :: text) = none := by
        cases token with
        | nil => exact absurd rfl hne
        | cons b token =>
            have hb := List.all_eq_true.mp hdigits b List.mem_cons_self
            exact if_neg (isDigit_ne hb rfl)
      have htake : (token ++ c :: text).takeWhile isNumberChar = token := by
        rw [List.takeWhile_append_of_pos hchars, List.takeWhile_cons_of_neg (by rw [hc]; decide),
          List.append_nil]
      have hdrop : (token ++ c :: text).dropWhile isNumberChar = c :: text := by
        rw [List.dropWhile_append_of_pos hchars, List.dropWhile_cons_of_neg (by rw [hc]; decide)]
      unfold readLineValue
      show (match expect 0x22 (token ++ c :: text) with | some _ => _ | none => _) = _
      rw [hquote]
      dsimp only
      rw [show lineValueText (.number token) = token from rfl, htake, hdrop, if_neg hne]
      rfl

theorem readLineMembers_lineFieldText {f : Bytes × LineValue} (hkey : plain f.1 = true)
    (hvalue : f.2.WellFormed) (fuel : ℕ) {c : UInt8} (hc : isNumberChar c = false)
    (hspace : isWhitespace c = false) (text : Bytes) :
    readLineMembers (fuel + 1) (lineFieldText f ++ c :: text) =
      if escapesLineValue f.2 then
        if c = 0x2C then (readLineMembers fuel text).map fun r => (f :: r.1, r.2)
        else if c = 0x7D then some ([f], text)
        else none
      else none := by
  obtain ⟨key, value⟩ := f
  have htext : lineFieldText (key, value) ++ c :: text =
      0x22 :: (key ++ 0x22 :: 0x3A :: (lineValueText value ++ c :: text)) := by
    unfold lineFieldText
    simp
  have hquote : ∀ t, expect 0x22 (skipWhitespace (0x22 :: t)) = some t := fun t => rfl
  have hcolon : ∀ t, expect 0x3A (skipWhitespace (0x3A :: t)) = some t := fun t => rfl
  have hskip : skipWhitespace (c :: text) = c :: text := by
    unfold skipWhitespace
    rw [List.dropWhile_cons_of_neg (by rw [hspace]; decide)]
  rw [readLineMembers, htext, hquote]
  simp only [Option.bind_eq_bind, Option.bind_some, readString_plain hkey, hcolon,
    skipWhitespace_value hvalue, readLineValue_lineValueText hvalue hc]
  cases escapesLineValue value with
  | false => rfl
  | true =>
      simp only [if_true, Option.bind_some, hskip]

theorem readLineMembers_lineMembersText {o : LineObject} (ho : WellFormedLine o) (text : Bytes) :
    ∀ fuel, o.length ≤ fuel →
      readLineMembers fuel (lineMembersText o ++ 0x7D :: text) =
        if o.all fun f => escapesLineValue f.2 then some (o, text) else none := by
  obtain ⟨hne, hfields⟩ := ho
  induction o with
  | nil => exact absurd rfl hne
  | cons f o ih =>
      obtain ⟨hkey, hvalue⟩ := hfields f List.mem_cons_self
      intro fuel hfuel
      obtain ⟨fuel, rfl⟩ : ∃ n, fuel = n + 1 := ⟨fuel - 1, by simp at hfuel; omega⟩
      cases o with
      | nil =>
          show readLineMembers (fuel + 1) (lineFieldText f ++ _) = _
          rw [readLineMembers_lineFieldText hkey hvalue fuel rfl rfl, List.all_cons, List.all_nil,
            Bool.and_true]
          rfl
      | cons f' o' =>
          have htext : lineMembersText (f :: f' :: o') ++ 0x7D :: text =
              lineFieldText f ++ 0x2C :: (lineMembersText (f' :: o') ++ 0x7D :: text) := by
            rw [lineMembersText]
            · simp
            · simp
          have hrest := ih (List.cons_ne_nil _ _)
            (fun f hf => hfields f (List.mem_cons_of_mem _ hf)) fuel (by simpa using hfuel)
          rw [htext, readLineMembers_lineFieldText hkey hvalue fuel rfl rfl, if_pos rfl, hrest]
          show _ = if escapesLineValue f.2 && (f' :: o').all _ then _ else _
          cases escapesLineValue f.2 with
          | false => rfl
          | true =>
              rw [Bool.true_and, if_pos rfl]
              split <;> rfl

theorem length_lineMembersText (o : LineObject) : o.length ≤ (lineMembersText o).length := by
  induction o with
  | nil => exact le_rfl
  | cons f o ih =>
      have hf : 0 < (lineFieldText f).length := Nat.succ_pos _
      cases o with
      | nil => exact hf
      | cons f' o' =>
          rw [lineMembersText]
          · simp only [List.length_append, List.length_cons] at ih ⊢
            omega
          · simp

theorem validUtf8_lineValueText {value : LineValue} (hvalue : value.WellFormed) (text : Bytes) :
    validUtf8 (lineValueText value ++ text) = (validLineValue value && validUtf8 text) := by
  cases value with
  | string s => exact validUtf8_string s text
  | number token =>
      apply validUtf8_ascii
      rw [List.all_eq_true]
      intro b hb
      obtain ⟨-, hle⟩ := isDigit_range (List.all_eq_true.mp hvalue.2 b hb)
      exact decide_eq_true (UInt8.lt_of_le_of_lt hle (by decide))

theorem validUtf8_lineFieldText {f : Bytes × LineValue} (hkey : plain f.1 = true)
    (hvalue : f.2.WellFormed) (text : Bytes) :
    validUtf8 (lineFieldText f ++ text) = (validLineValue f.2 && validUtf8 text) := by
  have htext : lineFieldText f ++ text =
      [0x22] ++ (f.1 ++ ([0x22, 0x3A] ++ (lineValueText f.2 ++ text))) := by
    unfold lineFieldText
    simp
  rw [htext, validUtf8_ascii (by decide), validUtf8_ascii (ascii_of_plain hkey),
    validUtf8_ascii (by decide), validUtf8_lineValueText hvalue]

theorem validUtf8_lineMembersText {o : LineObject}
    (hfields : ∀ f ∈ o, plain f.1 = true ∧ f.2.WellFormed) (text : Bytes) :
    validUtf8 (lineMembersText o ++ text) =
      (o.all (fun f => validLineValue f.2) && validUtf8 text) := by
  induction o with
  | nil => rfl
  | cons f o ih =>
      obtain ⟨hkey, hvalue⟩ := hfields f List.mem_cons_self
      cases o with
      | nil =>
          rw [lineMembersText, validUtf8_lineFieldText hkey hvalue, List.all_cons, List.all_nil,
            Bool.and_true]
      | cons f' o' =>
          have htext : lineMembersText (f :: f' :: o') ++ text =
              lineFieldText f ++ ([0x2C] ++ (lineMembersText (f' :: o') ++ text)) := by
            rw [lineMembersText]
            · simp
            · simp
          rw [htext, validUtf8_lineFieldText hkey hvalue, validUtf8_ascii (by decide),
            ih fun f hf => hfields f (List.mem_cons_of_mem _ hf), ← Bool.and_assoc]
          rfl

/-- **An object is read back from its line**, or the line is rejected. -/
theorem readLine_lineText {o : LineObject} (ho : WellFormedLine o) :
    readLine (lineText o) = if acceptsLine o then some o else none := by
  have hvalid : validUtf8 (lineText o) = o.all fun f => validLineValue f.2 := by
    show validUtf8 ([0x7B] ++ (lineMembersText o ++ [0x7D])) = _
    rw [validUtf8_ascii (by decide), validUtf8_lineMembersText ho.2]
    exact Bool.and_true _
  have hlength : o.length ≤ (lineMembersText o ++ [0x7D]).length := by
    have := length_lineMembersText o
    simp only [List.length_append]
    omega
  have hmembers := readLineMembers_lineMembersText ho [] _ hlength
  have hbrace : expect 0x7B (skipWhitespace (lineText o)) = some (lineMembersText o ++ [0x7D]) :=
    rfl
  unfold readLine acceptsLine
  rw [hvalid, hbrace]
  cases o.all fun f => validLineValue f.2 with
  | false => rfl
  | true =>
      rw [if_pos rfl, Bool.true_and]
      simp only [Option.bind_eq_bind, Option.bind_some, hmembers]
      split <;> rfl

/-! ## No line break -/

theorem not_mem_escapeJsonString (s : Bytes) : (0x0A : UInt8) ∉ escapeJsonString s := by
  have key : ∀ c : UInt8, (0x0A : UInt8) ∉ escapeJsonChar c := forall_byte (by decide +kernel)
  intro hmem
  obtain ⟨c, -, hc⟩ := List.mem_flatMap.mp hmem
  exact key c hc

theorem not_mem_plain {s : Bytes} (hs : plain s = true) : (0x0A : UInt8) ∉ s := by
  intro hmem
  have hle := (plain_iff.mp hs _ hmem).1
  exact absurd hle (by decide)

theorem not_mem_lineFieldText {f : Bytes × LineValue} (hkey : plain f.1 = true)
    (hvalue : f.2.WellFormed) : (0x0A : UInt8) ∉ lineFieldText f := by
  have htext : (0x0A : UInt8) ∉ lineValueText f.2 := by
    cases hf : f.2 with
    | string s =>
        simp [lineValueText, not_mem_escapeJsonString]
    | number token =>
        rw [hf] at hvalue
        intro hmem
        exact absurd (List.all_eq_true.mp hvalue.2 _ hmem) (by decide)
  simp [lineFieldText, not_mem_plain hkey, htext]

theorem not_mem_lineMembersText {o : LineObject}
    (hfields : ∀ f ∈ o, plain f.1 = true ∧ f.2.WellFormed) :
    (0x0A : UInt8) ∉ lineMembersText o := by
  induction o with
  | nil => exact List.not_mem_nil
  | cons f o ih =>
      obtain ⟨hkey, hvalue⟩ := hfields f List.mem_cons_self
      have hf := not_mem_lineFieldText hkey hvalue
      cases o with
      | nil => exact hf
      | cons f' o' =>
          rw [lineMembersText]
          · simp only [List.mem_append, List.mem_cons, not_or]
            exact ⟨hf, by decide, ih fun f hf => hfields f (List.mem_cons_of_mem _ hf)⟩
          · simp

/-- A line is one line of its file. -/
theorem not_mem_lineText {o : LineObject} (ho : WellFormedLine o) :
    (0x0A : UInt8) ∉ lineText o := by
  have hmembers := not_mem_lineMembersText ho.2
  simp [lineText, hmembers]

end BlankChat.Core
