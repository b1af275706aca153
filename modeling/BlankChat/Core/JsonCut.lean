import BlankChat.Core.JsonText

/-!
# A JSON text that was cut short

Each part of the reader stops where its part of the document ends: what it has read is not
changed by more text behind it (`readBody_append`). So no text is a document and also the
beginning of a longer one, but for white space.

Main result: `readDocument_cut`, the beginning of a document is rejected.
-/

namespace BlankChat.Core

open Lib

variable {text rest : Bytes}

theorem skipWhitespace_append {c : UInt8} (h : skipWhitespace text = c :: rest) (more : Bytes) :
    skipWhitespace (text ++ more) = c :: (rest ++ more) := by
  unfold skipWhitespace at h ⊢
  rw [List.dropWhile_append, h]
  rfl

theorem eq_cons_of_expect {b : UInt8} (h : expect b text = some rest) : text = b :: rest := by
  cases text with
  | nil => cases h
  | cons c text =>
      rw [expect] at h
      split at h
      · next heq =>
          cases h
          rw [heq]
      · cases h

theorem expect_append {b : UInt8} (h : expect b (skipWhitespace text) = some rest)
    (more : Bytes) : expect b (skipWhitespace (text ++ more)) = some (rest ++ more) := by
  rw [skipWhitespace_append (eq_cons_of_expect h), expect, if_pos rfl]

theorem readString_append {s : Bytes} (h : readString text = some (s, rest)) (more : Bytes) :
    readString (text ++ more) = some (s, rest ++ more) := by
  fun_induction readString text generalizing s rest with
  | case1 => cases h
  | case2 text =>
      cases h
      exact readString_quote _
  | case3 => cases h
  | case4 e text hquote ih =>
      -- an escape
      obtain ⟨b, hb, hread⟩ := Option.bind_eq_some_iff.mp h
      obtain ⟨⟨s', rest'⟩, hs', heq⟩ := Option.map_eq_some_iff.mp hread
      cases heq
      rw [List.cons_append, List.cons_append, readString, if_neg hquote, if_pos rfl, hb,
        Option.bind_some, ih hs']
      rfl
  | case5 => cases h
  | case6 c text hquote hslash hlt ih =>
      obtain ⟨⟨s', rest'⟩, hs', heq⟩ := Option.map_eq_some_iff.mp h
      cases heq
      rw [List.cons_append, readString_char hquote hslash, if_neg hlt, ih hs']
      rfl

theorem startsWith_append {word : Bytes} (h : word.isPrefixOf text = true) (more : Bytes) :
    word.isPrefixOf (text ++ more) = true ∧
      (text ++ more).drop word.length = text.drop word.length ++ more := by
  obtain ⟨tail, rfl⟩ := List.isPrefixOf_iff_prefix.mp h
  refine ⟨?_, ?_⟩
  · apply List.isPrefixOf_iff_prefix.mpr
    exact ⟨tail ++ more, (List.append_assoc _ _ _).symm⟩
  · rw [List.append_assoc, List.drop_left, List.drop_left]

theorem readValue_append {value : JsonValue} (h : readValue text = some (value, rest))
    (more : Bytes) : readValue (text ++ more) = some (value, rest ++ more) := by
  unfold readValue at h ⊢
  split at h
  · next htrue =>
      obtain ⟨hlong, hdrop⟩ := startsWith_append htrue more
      cases h
      rw [if_pos hlong]
      exact congrArg (fun t => some (JsonValue.bool true, t)) hdrop
  · split at h
    · next htrue hfalse =>
        obtain ⟨hlong, hdrop⟩ := startsWith_append hfalse more
        obtain ⟨tail, rfl⟩ := List.isPrefixOf_iff_prefix.mp hfalse
        cases h
        rw [if_neg (by simp [ascii]), if_pos hlong]
        exact congrArg (fun t => some (JsonValue.bool false, t)) hdrop
    · obtain ⟨t, hquote, hread⟩ := Option.bind_eq_some_iff.mp h
      obtain ⟨⟨s, rest'⟩, hs, heq⟩ := Option.map_eq_some_iff.mp hread
      cases heq
      -- the text starts with a quote, so with neither of the two words
      obtain rfl := eq_cons_of_expect hquote
      rw [if_neg (by simp [ascii]), if_neg (by simp [ascii]), List.cons_append, expect,
        if_pos rfl, Option.bind_some, readString_append hs]
      rfl

theorem readValue_skip_append {value : JsonValue}
    (h : readValue (skipWhitespace text) = some (value, rest)) (more : Bytes) :
    readValue (skipWhitespace (text ++ more)) = some (value, rest ++ more) := by
  cases hskip : skipWhitespace text with
  | nil =>
      rw [hskip] at h
      cases h
  | cons c t =>
      rw [hskip] at h
      rw [skipWhitespace_append hskip]
      exact readValue_append h more

theorem readMembers_append {o : JsonObject} {fuel fuel' : ℕ} (hfuel : fuel ≤ fuel')
    (h : readMembers fuel text = some (o, rest)) (more : Bytes) :
    readMembers fuel' (text ++ more) = some (o, rest ++ more) := by
  induction fuel generalizing text rest o fuel' with
  | zero => cases h
  | succ fuel ih =>
      obtain ⟨fuel', rfl⟩ : ∃ n, fuel' = n + 1 := ⟨fuel' - 1, by omega⟩
      rw [readMembers] at h ⊢
      simp only [Option.bind_eq_bind, Option.bind_eq_some_iff] at h
      obtain ⟨t₁, hquote, ⟨key, t₂⟩, hkey, t₃, hcolon, ⟨value, t₄⟩, hvalue, hend⟩ := h
      simp only [expect_append hquote, readString_append hkey, expect_append hcolon,
        readValue_skip_append hvalue, Option.bind_eq_bind, Option.bind_some]
      cases hskip : skipWhitespace t₄ with
      | nil =>
          rw [hskip] at hend
          cases hend
      | cons c t₅ =>
          simp only [hskip] at hend
          simp only [skipWhitespace_append hskip]
          split at hend
          · next hcomma =>
              obtain ⟨⟨o', rest'⟩, ho', heq⟩ := Option.map_eq_some_iff.mp hend
              cases heq
              rw [if_pos hcomma, ih (by omega) ho']
              rfl
          · next hcomma =>
              rw [if_neg hcomma]
              split at hend
              · next hbrace =>
                  cases hend
                  rw [if_pos hbrace]
              · cases hend

theorem readObjects_append {objects : List JsonObject} {fuel fuel' : ℕ} (hfuel : fuel ≤ fuel')
    (h : readObjects fuel text = some (objects, rest)) (more : Bytes) :
    readObjects fuel' (text ++ more) = some (objects, rest ++ more) := by
  induction fuel generalizing text rest objects fuel' with
  | zero => cases h
  | succ fuel ih =>
      obtain ⟨fuel', rfl⟩ : ∃ n, fuel' = n + 1 := ⟨fuel' - 1, by omega⟩
      rw [readObjects] at h ⊢
      simp only [Option.bind_eq_bind, Option.bind_eq_some_iff] at h
      obtain ⟨t₁, hbrace, ⟨o, t₂⟩, ho, hend⟩ := h
      have hlength : t₁.length ≤ (t₁ ++ more).length := by simp
      simp only [expect_append hbrace, readMembers_append hlength ho, Option.bind_eq_bind,
        Option.bind_some]
      cases hskip : skipWhitespace t₂ with
      | nil =>
          rw [hskip] at hend
          cases hend
      | cons c t₃ =>
          simp only [hskip] at hend
          simp only [skipWhitespace_append hskip]
          split at hend
          · next hcomma =>
              obtain ⟨⟨objects', rest'⟩, hobjects, heq⟩ := Option.map_eq_some_iff.mp hend
              cases heq
              rw [if_pos hcomma, ih (by omega) hobjects]
              rfl
          · next hcomma =>
              rw [if_neg hcomma]
              split at hend
              · next hbracket =>
                  cases hend
                  rw [if_pos hbracket]
              · cases hend

theorem readObjects_start {objects : List JsonObject} {fuel : ℕ}
    (h : readObjects fuel text = some (objects, rest)) :
    ∃ t, skipWhitespace text = 0x7B :: t := by
  cases fuel with
  | zero => cases h
  | succ fuel =>
      rw [readObjects] at h
      obtain ⟨t, hbrace, -⟩ := Option.bind_eq_some_iff.mp h
      exact ⟨t, eq_cons_of_expect hbrace⟩

theorem readArray_append {objects : List JsonObject} (h : readArray text = some (objects, rest))
    (more : Bytes) : readArray (text ++ more) = some (objects, rest ++ more) := by
  unfold readArray at h ⊢
  obtain ⟨t, hbracket, hrest⟩ := Option.bind_eq_some_iff.mp h
  simp only [expect_append hbracket, Option.bind_eq_bind, Option.bind_some]
  split at hrest
  · next t' hempty =>
      cases hrest
      rw [expect_append hempty]
  · -- an object: its brace is not the closing bracket
    obtain ⟨t', hskip⟩ := readObjects_start hrest
    have hother : expect 0x5D (skipWhitespace (t ++ more)) = none := by
      rw [skipWhitespace_append hskip]
      rfl
    rw [hother]
    exact readObjects_append (by simp) hrest more

/-- **What was read is not changed by more text behind it.** -/
theorem readBody_append {key : Bytes} {objects : List JsonObject}
    (h : readBody key text = some (objects, rest)) (more : Bytes) :
    readBody key (text ++ more) = some (objects, rest ++ more) := by
  unfold readBody at h ⊢
  simp only [Option.bind_eq_bind, Option.bind_eq_some_iff] at h
  obtain ⟨t₁, hbrace, t₂, hquote, ⟨name, t₃⟩, hname, u, hkey, t₄, hcolon, ⟨objects', t₅⟩, harray,
    t₆, hend, heq⟩ := h
  cases heq
  simp only [expect_append hbrace, expect_append hquote, readString_append hname, hkey,
    expect_append hcolon, readArray_append harray, expect_append hend, Option.bind_eq_bind,
    Option.bind_some]
  rfl

/-- **The beginning of a document is rejected.** -/
theorem readDocument_cut {key : Bytes} (hkey : plain key = true) {objects : List JsonObject}
    (hobjects : ∀ o ∈ objects, o ≠ [] ∧ ∀ f ∈ o, plain f.1 = true) {n : ℕ}
    (hn : n + 1 < (documentText key objects).length) :
    readDocument key ((documentText key objects).take n) = none := by
  rw [documentText_eq, List.length_append, List.length_singleton] at hn
  rw [documentText_eq, List.take_append_of_le_length (by omega)]
  by_contra hne
  obtain ⟨objects', hread⟩ := Option.ne_none_iff_exists'.mp hne
  rw [readDocument_eq] at hread
  split at hread
  · obtain ⟨⟨read, rest⟩, hbody, -⟩ := Option.bind_eq_some_iff.mp hread
    -- read on to the end of the document: nothing is left there, so nothing was missing
    have hlonger := readBody_append hbody ((bodyText key objects).drop n)
    have hwhole := readBody_bodyText hkey hobjects []
    rw [List.take_append_drop] at hlonger
    rw [List.append_nil, hlonger] at hwhole
    split at hwhole
    · have hrest : rest ++ (bodyText key objects).drop n = [] :=
        congrArg Prod.snd (Option.some.inj hwhole)
      have hdrop := List.drop_eq_nil_iff.mp (List.append_eq_nil_iff.mp hrest).2
      omega
    · cases hwhole
  · cases hread

/-- The last line break may be missing. -/
theorem readDocument_whole {key : Bytes} (hkey : plain key = true) {objects : List JsonObject}
    (hobjects : ∀ o ∈ objects, o ≠ [] ∧ ∀ f ∈ o, plain f.1 = true) {n : ℕ}
    (hn : (documentText key objects).length ≤ n + 1) :
    readDocument key ((documentText key objects).take n) =
      if objects.all acceptsObject then some objects else none := by
  rw [documentText_eq, List.length_append, List.length_singleton] at hn
  rw [documentText_eq, List.take_append, List.take_of_length_le (by omega)]
  cases n - (bodyText key objects).length with
  | zero => exact readDocument_bodyText hkey hobjects rfl rfl
  | succ m =>
      rw [List.take_of_length_le (by simp)]
      exact readDocument_bodyText hkey hobjects rfl rfl

end BlankChat.Core
