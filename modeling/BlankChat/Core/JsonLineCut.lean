import BlankChat.Core.JsonCut
import BlankChat.Core.JsonLine

/-!
# A JSON line that was cut short

A string, an object and a line end at a byte of their own, so what has been read of them is not
changed by more text behind it. A number has no such end: it is over only where a byte follows
that does not belong to it, and in a line one always follows.

Main result: `readLine_cut`, the beginning of a line is rejected.
-/

namespace BlankChat.Core

open Lib

variable {text rest : Bytes}

theorem readLineValue_append {value : LineValue} (h : readLineValue text = some (value, rest))
    (hrest : rest ≠ []) (more : Bytes) :
    readLineValue (text ++ more) = some (value, rest ++ more) := by
  unfold readLineValue at h ⊢
  cases hquote : expect 0x22 text with
  | some t =>
      rw [hquote] at h
      obtain ⟨⟨s, rest'⟩, hs, heq⟩ := Option.map_eq_some_iff.mp h
      cases heq
      obtain rfl := eq_cons_of_expect hquote
      rw [List.cons_append, expect, if_pos rfl]
      dsimp only
      rw [readString_append hs]
      rfl
  | none =>
      rw [hquote] at h
      dsimp only at h
      split at h
      · cases h
      · next htoken =>
          cases h
          have hlonger : expect 0x22 (text ++ more) = none := by
            cases text with
            | nil => exact absurd rfl htoken
            | cons b text =>
                rw [expect] at hquote
                rw [List.cons_append, expect]
                split at hquote
                · cases hquote
                · next hb => exact if_neg hb
          -- the number is over inside of the text
          have hdrop : (text ++ more).dropWhile isNumberChar =
              text.dropWhile isNumberChar ++ more := by
            rw [List.dropWhile_append, if_neg]
            rwa [List.isEmpty_iff]
          have htake : (text ++ more).takeWhile isNumberChar = text.takeWhile isNumberChar := by
            have hwhole : (text ++ more).takeWhile isNumberChar ++
                (text ++ more).dropWhile isNumberChar =
                text.takeWhile isNumberChar ++ (text.dropWhile isNumberChar ++ more) := by
              rw [List.takeWhile_append_dropWhile, ← List.append_assoc,
                List.takeWhile_append_dropWhile]
            rw [hdrop] at hwhole
            exact List.append_cancel_right hwhole
          rw [hlonger]
          dsimp only
          rw [htake, hdrop, if_neg htoken]

theorem readLineValue_skip_append {value : LineValue}
    (h : readLineValue (skipWhitespace text) = some (value, rest)) (hrest : rest ≠ [])
    (more : Bytes) :
    readLineValue (skipWhitespace (text ++ more)) = some (value, rest ++ more) := by
  cases hskip : skipWhitespace text with
  | nil =>
      rw [hskip] at h
      cases h
  | cons c t =>
      rw [hskip] at h
      rw [skipWhitespace_append hskip]
      exact readLineValue_append h hrest more

theorem readLineMembers_append {o : LineObject} {fuel fuel' : ℕ} (hfuel : fuel ≤ fuel')
    (h : readLineMembers fuel text = some (o, rest)) (more : Bytes) :
    readLineMembers fuel' (text ++ more) = some (o, rest ++ more) := by
  induction fuel generalizing text rest o fuel' with
  | zero => cases h
  | succ fuel ih =>
      obtain ⟨fuel', rfl⟩ : ∃ n, fuel' = n + 1 := ⟨fuel' - 1, by omega⟩
      rw [readLineMembers] at h ⊢
      simp only [Option.bind_eq_bind, Option.bind_eq_some_iff] at h
      obtain ⟨t₁, hquote, ⟨key, t₂⟩, hkey, t₃, hcolon, ⟨value, t₄⟩, hvalue, hend⟩ := h
      cases hskip : skipWhitespace t₄ with
      | nil =>
          rw [hskip] at hend
          cases hend
      | cons c t₅ =>
          have ht₄ : t₄ ≠ [] := by
            rintro rfl
            cases hskip
          simp only [hskip] at hend
          simp only [expect_append hquote, readString_append hkey, expect_append hcolon,
            readLineValue_skip_append hvalue ht₄, skipWhitespace_append hskip, Option.bind_eq_bind,
            Option.bind_some]
          split at hend
          · next hcomma =>
              obtain ⟨⟨o', rest'⟩, ho', heq⟩ := Option.map_eq_some_iff.mp hend
              cases heq
              rw [if_pos hcomma, ih (by omega) ho']
              rfl
          · next hcomma =>
              rw [if_neg hcomma]
              split at hend
              · next hbrace =>
                  cases hend
                  rw [if_pos hbrace]
              · cases hend

/-- **The beginning of a line is rejected.** -/
theorem readLine_cut {o : LineObject} (ho : WellFormedLine o) {n : ℕ}
    (hn : n < (lineText o).length) : readLine ((lineText o).take n) = none := by
  by_contra hne
  obtain ⟨o', hread⟩ := Option.ne_none_iff_exists'.mp hne
  unfold readLine at hread
  split at hread
  · simp only [Option.bind_eq_bind, Option.bind_eq_some_iff] at hread
    obtain ⟨t, hbrace, ⟨o₁, rest⟩, hmembers, -⟩ := hread
    -- read on to the end of the line: nothing is left there, so nothing was missing
    have hlonger := expect_append hbrace ((lineText o).drop n)
    rw [List.take_append_drop] at hlonger
    have htext : t ++ (lineText o).drop n = lineMembersText o ++ [0x7D] :=
      (Option.some.inj hlonger).symm
    have hlength : t.length ≤ (t ++ (lineText o).drop n).length := by simp
    have hall := readLineMembers_append hlength hmembers ((lineText o).drop n)
    have hfuel : o.length ≤ (t ++ (lineText o).drop n).length := by
      have := length_lineMembersText o
      rw [htext, List.length_append]
      omega
    have hwhole := readLineMembers_lineMembersText ho [] _ hfuel
    rw [← htext, hall] at hwhole
    split at hwhole
    · have hrest : rest ++ (lineText o).drop n = [] :=
        congrArg Prod.snd (Option.some.inj hwhole)
      have hdrop := List.drop_eq_nil_iff.mp (List.append_eq_nil_iff.mp hrest).2
      omega
    · cases hwhole
  · cases hread

end BlankChat.Core
