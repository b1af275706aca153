import BlankChat.Lib.Bytes

/-!
# Strings in locked memory — `secure_string.h`, `secure_string.cpp`

A `SecureString` has a capacity that never changes, and `PushBack` discards what does
not fit: the last byte of the capacity is the terminator's. `strData` holds the
characters without it.
-/

namespace BlankChat.Core

open Lib

def defaultSecureStringCapacity : ℕ := 256

structure SecureString : Type where
  maxCapacity : ℕ
  strData : Bytes
  /-- There is room for the terminator. -/
  fits : strData.length < maxCapacity

namespace SecureString

def empty : SecureString := ⟨defaultSecureStringCapacity, [], by decide⟩

def pushBack (s : SecureString) (character : UInt8) : SecureString :=
  if h : s.strData.length < s.maxCapacity - 1 then
    { s with
      strData := s.strData ++ [character]
      fits := by
        rw [List.length_append, List.length_singleton]
        omega }
  else s

def stringView (s : SecureString) : Bytes := s.strData

/-- `PushBack` for every character of a text. -/
def pushAll (s : SecureString) (text : Bytes) : SecureString := text.foldl pushBack s

@[simp] theorem stringView_empty : empty.stringView = [] := rfl

@[simp] theorem maxCapacity_pushBack (s : SecureString) (c : UInt8) :
    (s.pushBack c).maxCapacity = s.maxCapacity := by
  unfold pushBack
  split <;> rfl

theorem stringView_pushBack {s : SecureString} (h : s.stringView.length + 1 < s.maxCapacity)
    (c : UInt8) : (s.pushBack c).stringView = s.stringView ++ [c] := by
  unfold pushBack
  rw [dif_pos (by unfold stringView at h; omega)]
  rfl

theorem maxCapacity_pushAll (s : SecureString) (text : Bytes) :
    (s.pushAll text).maxCapacity = s.maxCapacity := by
  induction text generalizing s with
  | nil => rfl
  | cons c text ih =>
      show ((s.pushBack c).pushAll text).maxCapacity = _
      rw [ih, maxCapacity_pushBack]

/-- Nothing is discarded of a text that fits. -/
theorem stringView_pushAll {s : SecureString} {text : Bytes}
    (h : s.stringView.length + text.length < s.maxCapacity) :
    (s.pushAll text).stringView = s.stringView ++ text := by
  induction text generalizing s with
  | nil => exact (List.append_nil _).symm
  | cons c text ih =>
      rw [List.length_cons] at h
      have hview := stringView_pushBack (s := s) (by omega) c
      show ((s.pushBack c).pushAll text).stringView = _
      rw [ih, hview, List.append_assoc, List.singleton_append]
      rw [hview, List.length_append, List.length_singleton, maxCapacity_pushBack]
      omega

end SecureString

end BlankChat.Core
