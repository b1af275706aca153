import BlankChat.Core.Json
import BlankChat.Lib.Map

/-!
# The message history — `conversation_cache.h`, `conversation_cache.cpp`

One file of JSON lines per alias. A line is modelled by the entry it was written
from; `readable` tells whether the library can read the line back (the payload is
hex, so only the id and the alias matter). `UpdateMessageStatus` rewrites the file
with the entries it could read.

This is the history of an alias whose files can be opened: one without a slash and of at
most 237 bytes, with an operating system that lets the client write. For any other both
calls do nothing. `HistoryFile` has the files, and says when they follow the cache
(`represents_run`).
-/

namespace BlankChat.Client

open Lib BlankChat.Core

inductive MessageDirection : Type where
  | inbound
  | outbound
deriving DecidableEq, Repr

inductive MessageStatus : Type where
  | pendingAck
  | delivered
  | failed
deriving DecidableEq, Repr

structure CacheEntry : Type where
  id : Bytes
  timestamp : UInt64 := 0
  direction : MessageDirection := .outbound
  aliasName : Bytes
  status : MessageStatus := .failed
  payload : Bytes
deriving DecidableEq

def CacheEntry.readable (e : CacheEntry) : Bool :=
  acceptsString e.id && acceptsString e.aliasName

structure ConversationCache : Type where
  files : Map Bytes (List CacheEntry) := ∅

namespace ConversationCache

def lines (cache : ConversationCache) (aliasName : Bytes) : List CacheEntry :=
  (cache.files.lookup aliasName).getD []

def loadHistory (cache : ConversationCache) (aliasName : Bytes) : List CacheEntry :=
  (cache.lines aliasName).filter CacheEntry.readable

def appendMessage (cache : ConversationCache) (entry : CacheEntry) : ConversationCache :=
  { cache with
    files := cache.files.insertOrAssign entry.aliasName
      (cache.lines entry.aliasName ++ [entry]) }

/-- The status of the first entry with the given id. -/
def setStatus (messageId : Bytes) (newStatus : MessageStatus) :
    List CacheEntry → List CacheEntry
  | [] => []
  | e :: es =>
      if e.id = messageId then { e with status := newStatus } :: es
      else e :: setStatus messageId newStatus es

def updateMessageStatus (cache : ConversationCache) (aliasName messageId : Bytes)
    (newStatus : MessageStatus) : ConversationCache :=
  let history := cache.loadHistory aliasName
  if history.any fun e => e.id = messageId then
    { cache with
      files := cache.files.insertOrAssign aliasName (setStatus messageId newStatus history) }
  else cache

/-! ## The lines of one alias -/

/-- What `UpdateMessageStatus` makes of the lines. -/
def updatedLines (messageId : Bytes) (newStatus : MessageStatus) (lines : List CacheEntry) :
    List CacheEntry :=
  let history := lines.filter CacheEntry.readable
  if history.any fun e => e.id = messageId then setStatus messageId newStatus history else lines

theorem lines_appendMessage (cache : ConversationCache) (entry : CacheEntry) :
    (cache.appendMessage entry).lines entry.aliasName =
      cache.lines entry.aliasName ++ [entry] := by
  unfold appendMessage
  show (AList.lookup _ (Map.insertOrAssign _ _ cache.files)).getD [] = _
  rw [Map.lookup_insertOrAssign]
  rfl

theorem lines_appendMessage_ne (cache : ConversationCache) {entry : CacheEntry} {a : Bytes}
    (h : a ≠ entry.aliasName) : (cache.appendMessage entry).lines a = cache.lines a := by
  unfold appendMessage lines
  rw [Map.lookup_insertOrAssign_ne h]

theorem lines_updateMessageStatus (cache : ConversationCache) (a messageId : Bytes)
    (newStatus : MessageStatus) :
    (cache.updateMessageStatus a messageId newStatus).lines a =
      updatedLines messageId newStatus (cache.lines a) := by
  unfold updateMessageStatus updatedLines loadHistory
  dsimp only
  split
  · show (AList.lookup _ (Map.insertOrAssign _ _ cache.files)).getD [] = _
    rw [Map.lookup_insertOrAssign]
    rfl
  · rfl

theorem lines_updateMessageStatus_ne (cache : ConversationCache) {a a' : Bytes} (h : a' ≠ a)
    (messageId : Bytes) (newStatus : MessageStatus) :
    (cache.updateMessageStatus a messageId newStatus).lines a' = cache.lines a' := by
  unfold updateMessageStatus
  dsimp only
  split
  · unfold lines
    rw [Map.lookup_insertOrAssign_ne h]
  · rfl

/-- An entry as the client writes it for an alias: the id is a hex string. -/
def Written (aliasName : Bytes) (e : CacheEntry) : Prop :=
  e.aliasName = aliasName ∧ acceptsString e.id = true

/-- Of the entries of one alias all are readable, or none is. -/
theorem filter_readable {a : Bytes} {l : List CacheEntry} (h : ∀ e ∈ l, Written a e) :
    l.filter CacheEntry.readable = if acceptsString a then l else [] := by
  split
  · next ha =>
      apply List.filter_eq_self.mpr
      intro e he
      rw [CacheEntry.readable, (h e he).1, (h e he).2, ha]
      rfl
  · next ha =>
      apply List.filter_eq_nil_iff.mpr
      intro e he
      rw [CacheEntry.readable, (h e he).1, Bool.and_eq_true]
      exact fun hread => ha hread.2

theorem setStatus_append_cons {messageId : Bytes} (newStatus : MessageStatus)
    {l₁ : List CacheEntry} (hl₁ : ∀ e ∈ l₁, e.id ≠ messageId) {e : CacheEntry}
    (he : e.id = messageId) (l₂ : List CacheEntry) :
    setStatus messageId newStatus (l₁ ++ e :: l₂) =
      l₁ ++ { e with status := newStatus } :: l₂ := by
  induction l₁ with
  | nil => exact if_pos he
  | cons e' l₁ ih =>
      rw [List.cons_append, setStatus, if_neg (hl₁ e' List.mem_cons_self),
        ih fun e'' he'' => hl₁ e'' (List.mem_cons_of_mem _ he'')]
      rfl

/-- What remains of an entry when its status is forgotten. -/
def withoutStatus (e : CacheEntry) : CacheEntry := { e with status := .failed }

theorem map_withoutStatus_setStatus (messageId : Bytes) (newStatus : MessageStatus)
    (l : List CacheEntry) :
    (setStatus messageId newStatus l).map withoutStatus = l.map withoutStatus := by
  induction l with
  | nil => rfl
  | cons e l ih =>
      unfold setStatus
      split
      · rfl
      · rw [List.map_cons, List.map_cons, ih]

theorem forall_mem_setStatus {P : CacheEntry → Prop} {messageId : Bytes}
    {newStatus : MessageStatus} {l : List CacheEntry} (h : ∀ e ∈ l, P e)
    (hset : ∀ e, P e → P { e with status := newStatus }) :
    ∀ e ∈ setStatus messageId newStatus l, P e := by
  induction l with
  | nil => exact h
  | cons e l ih =>
      have hhead := h e List.mem_cons_self
      have htail := fun e' he' => h e' (List.mem_cons_of_mem e he')
      unfold setStatus
      split
      · exact List.forall_mem_cons.mpr ⟨hset e hhead, htail⟩
      · exact List.forall_mem_cons.mpr ⟨hhead, ih htail⟩

theorem mem_setStatus {messageId : Bytes} {newStatus : MessageStatus} {l : List CacheEntry}
    {e' : CacheEntry} (h : e' ∈ setStatus messageId newStatus l) :
    e' ∈ l ∨ ∃ e ∈ l, e.id = messageId ∧ e' = { e with status := newStatus } := by
  induction l with
  | nil => cases h
  | cons e l ih =>
      unfold setStatus at h
      split at h
      · next hid =>
          rcases List.mem_cons.mp h with rfl | h
          · exact .inr ⟨e, List.mem_cons_self, hid, rfl⟩
          · exact .inl (List.mem_cons_of_mem _ h)
      · rcases List.mem_cons.mp h with rfl | h
        · exact .inl List.mem_cons_self
        · rcases ih h with h | ⟨e₀, he₀, hid, heq⟩
          · exact .inl (List.mem_cons_of_mem _ h)
          · exact .inr ⟨e₀, List.mem_cons_of_mem _ he₀, hid, heq⟩

theorem mem_lines_appendMessage {cache : ConversationCache} {entry e : CacheEntry} {a : Bytes}
    (h : e ∈ (cache.appendMessage entry).lines a) : e ∈ cache.lines a ∨ e = entry := by
  by_cases ha : a = entry.aliasName
  · subst ha
    rw [lines_appendMessage] at h
    exact (List.mem_append.mp h).imp_right List.mem_singleton.mp
  · rw [lines_appendMessage_ne _ ha] at h
    exact .inl h

theorem mem_lines_updateMessageStatus {cache : ConversationCache} {a a' id : Bytes}
    {status : MessageStatus} {e' : CacheEntry}
    (h : e' ∈ (cache.updateMessageStatus a id status).lines a') :
    e' ∈ cache.lines a' ∨ ∃ e ∈ cache.lines a', e.id = id ∧ e' = { e with status := status } := by
  by_cases ha : a' = a
  · subst ha
    rw [lines_updateMessageStatus] at h
    unfold updatedLines at h
    dsimp only at h
    split at h
    · rcases mem_setStatus h with h | ⟨e, he, hid, heq⟩
      · exact .inl (List.mem_of_mem_filter h)
      · exact .inr ⟨e, List.mem_of_mem_filter he, hid, heq⟩
    · exact .inl h
  · rw [lines_updateMessageStatus_ne _ ha] at h
    exact .inl h

end ConversationCache

end BlankChat.Client
