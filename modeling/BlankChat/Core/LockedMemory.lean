import BlankChat.Core.SecureString
import BlankChat.Lib.SoleOwner
import BlankChat.Lib.Run

/-!
# Secrets in locked memory — `secure_buffer.cpp`, `secure_string.cpp`

A `SecureBuffer` and a `SecureString` own a block of guarded memory by a pointer: they can be
moved but not copied, and the block is freed, which wipes it, when the owner is destroyed or
gets another one. The sizes are of type `std::size_t`; `maxCapacity - 1` in `PushBack` is far
above every size if the capacity is zero, as it is after a move.

`SodiumMemory` is what is taken for granted of libsodium: an allocation may fail, and one that
succeeds gives a new block of the size. A program ends early in two ways. It is aborted by a
constructor that gets no memory; and it is stopped by the guards at a write outside of a block
or through a null pointer, or when a block is freed that is not there.

What programs do with these objects is meant to be said of values: `Value` is a buffer or a
string without pointers, and `absStep` moves them about.

Main result: `locked_memory_exact`, a program that is not aborted for want of memory runs
without a memory error if and only if it never makes a string without room for its terminator
and never appends to a string that was moved from; it then sees the values, and what is alive
is what is owned, by one object only.
-/

namespace BlankChat.Core.Locked

open Lib

/-! ## Guarded memory -/

/-- How a program ends before its time. -/
inductive Ending : Type where
  /-- `std::abort` -/
  | abort
  /-- a guard of libsodium was hit -/
  | fault
  deriving DecidableEq

/-- Guarded memory, with whatever libsodium keeps about it in `M`. -/
structure SodiumMemory (M : Type) : Type where
  start : M
  /-- the content of a block that was allocated and not freed -/
  block : M → ℕ → Option Bytes
  /-- `none` is the null pointer -/
  sodiumMalloc : M → UInt64 → Option (ℕ × M)
  sodiumFree : M → ℕ → M
  sodiumMemzero : M → ℕ → UInt64 → M
  /-- a byte is written into a block -/
  store : M → ℕ → ℕ → UInt8 → M
  block_start : ∀ p, block start p = none
  block_malloc : ∀ {m size p m'}, sodiumMalloc m size = some (p, m') → block m p = none ∧
    ∃ content : Bytes, content.length = size.toNat ∧
      block m' = Function.update (block m) p (some content)
  block_free : ∀ {m p content}, block m p = some content →
    block (sodiumFree m p) = Function.update (block m) p none
  block_memzero : ∀ {m p content size}, block m p = some content → size.toNat ≤ content.length →
    block (sodiumMemzero m p size) = Function.update (block m) p
      (some (List.replicate size.toNat 0 ++ content.drop size.toNat))
  block_store : ∀ {m p content k b}, block m p = some content → k < content.length →
    block (store m p k b) = Function.update (block m) p (some (content.set k b))

variable {M ι : Type} (S : SodiumMemory M)

namespace SodiumMemory

/-- `sodium_free`, where there is a block. -/
def free (m : M) (p : ℕ) : Except Ending M :=
  match S.block m p with
  | some _ => .ok (S.sodiumFree m p)
  | none => .error .fault

/-- `sodium_memzero`, within a block. -/
def memzero (m : M) (p : ℕ) (size : UInt64) : Except Ending M :=
  match S.block m p with
  | some content =>
      if size.toNat ≤ content.length then .ok (S.sodiumMemzero m p size) else .error .fault
  | none => .error .fault

/-- `p[k] = b`. -/
def write (m : M) (p : Option ℕ) (k : ℕ) (b : UInt8) : Except Ending M :=
  match p with
  | none => .error .fault
  | some p =>
      match S.block m p with
      | some content => if k < content.length then .ok (S.store m p k b) else .error .fault
      | none => .error .fault

/-- The first bytes of a block. -/
def read (m : M) (p : Option ℕ) (size : UInt64) : Bytes :=
  ((p.bind (S.block m)).getD []).take size.toNat

variable {S} {m : M} {p : ℕ} {content : Bytes}

theorem free_eq (hp : S.block m p = some content) : S.free m p = .ok (S.sodiumFree m p) := by
  rw [free, hp]

theorem memzero_eq (hp : S.block m p = some content) {size : UInt64}
    (hsize : size.toNat ≤ content.length) :
    S.memzero m p size = .ok (S.sodiumMemzero m p size) := by
  simp only [memzero, hp, if_pos hsize]

theorem write_eq (hp : S.block m p = some content) {k : ℕ} (hk : k < content.length) (b : UInt8) :
    S.write m (some p) k b = .ok (S.store m p k b) := by
  simp only [write, hp, if_pos hk]

theorem write_fault (hp : S.block m p = some content) {k : ℕ} (hk : ¬ k < content.length)
    (b : UInt8) : S.write m (some p) k b = .error .fault := by
  simp only [write, hp, if_neg hk]

end SodiumMemory

/-! ## The objects -/

structure SecureBuffer : Type where
  bufferSize : UInt64 := 0
  bufferData : Option ℕ := none

structure SecureString : Type where
  maxCapacity : UInt64 := 0
  strSize : UInt64 := 0
  strData : Option ℕ := none

inductive Obj : Type where
  | buffer (b : SecureBuffer)
  | string (s : SecureString)

def SecureBuffer.new (m : M) (size : UInt64) : Except Ending (SecureBuffer × M) :=
  if 0 < size then
    match S.sodiumMalloc m size with
    | none => .error .abort
    | some (p, m) => do
        let m ← S.memzero m p size
        return (⟨size, some p⟩, m)
  else return (⟨size, none⟩, m)

def SecureString.new (m : M) (capacity : UInt64) : Except Ending (SecureString × M) :=
  match S.sodiumMalloc m capacity with
  | none => .error .abort
  | some (p, m) => do
      let m ← S.write m (some p) 0 0
      return (⟨capacity, 0, some p⟩, m)

def SecureString.pushBack (m : M) (s : SecureString) (character : UInt8) :
    Except Ending (SecureString × M) :=
  if s.strSize < s.maxCapacity - 1 then do
    let m ← S.write m s.strData s.strSize.toNat character
    let strSize := s.strSize + 1
    let m ← S.write m s.strData strSize.toNat 0
    return ({ s with strSize }, m)
  else return (s, m)

/-- The block an object owns. -/
def Obj.pointer : Obj → Option ℕ
  | .buffer b => b.bufferData
  | .string s => s.strData

/-- What `std::exchange` leaves of an object that was moved from. -/
def Obj.moved : Obj → Obj
  | .buffer _ => .buffer {}
  | .string _ => .string {}

/-- The destructors, and the first half of the move assignments. -/
def Obj.release (m : M) (o : Obj) : Except Ending M :=
  match o.pointer with
  | some p => S.free m p
  | none => .ok m

/-- `AsSpan` and `StringView`. -/
def Obj.view (m : M) : Obj → Bytes
  | .buffer b => S.read m b.bufferData b.bufferSize
  | .string s => S.read m s.strData s.strSize

def Obj.SameClass : Obj → Obj → Bool
  | .buffer _, .buffer _ | .string _, .string _ => true
  | _, _ => false

section New

variable {S} {m m₁ : M} {p : ℕ}

theorem SecureBuffer.new_refused {size : UInt64} (hsize : 0 < size)
    (hmalloc : S.sodiumMalloc m size = none) : SecureBuffer.new S m size = .error .abort := by
  rw [new, if_pos hsize, hmalloc]

theorem SecureBuffer.new_granted {size : UInt64} (hsize : 0 < size)
    (hmalloc : S.sodiumMalloc m size = some (p, m₁)) :
    ∃ m', SecureBuffer.new S m size = .ok (⟨size, some p⟩, m') ∧
      S.block m' = Function.update (S.block m) p (some (List.replicate size.toNat 0)) := by
  obtain ⟨-, content, hlength, hblock⟩ := S.block_malloc hmalloc
  have hp : S.block m₁ p = some content := by
    rw [hblock]
    exact Function.update_self ..
  refine ⟨S.sodiumMemzero m₁ p size, ?_, ?_⟩
  · rw [new, if_pos hsize, hmalloc]
    dsimp only
    rw [SodiumMemory.memzero_eq hp hlength.ge]
    rfl
  · rw [S.block_memzero hp hlength.ge, hblock, Function.update_idem, ← hlength, List.drop_length,
      List.append_nil]

theorem SecureString.new_refused {capacity : UInt64}
    (hmalloc : S.sodiumMalloc m capacity = none) :
    SecureString.new S m capacity = .error .abort := by
  rw [new, hmalloc]

theorem SecureString.new_granted {capacity : UInt64} (hcapacity : 0 < capacity.toNat)
    (hmalloc : S.sodiumMalloc m capacity = some (p, m₁)) :
    ∃ m' rest, SecureString.new S m capacity = .ok (⟨capacity, 0, some p⟩, m') ∧
      rest.length + 1 = capacity.toNat ∧
      S.block m' = Function.update (S.block m) p (some (0 :: rest)) := by
  obtain ⟨-, content, hlength, hblock⟩ := S.block_malloc hmalloc
  have hp : S.block m₁ p = some content := by
    rw [hblock]
    exact Function.update_self ..
  cases content with
  | nil => exact absurd hlength hcapacity.ne
  | cons c rest =>
      refine ⟨S.store m₁ p 0 0, rest, ?_, hlength, ?_⟩
      · rw [new, hmalloc]
        dsimp only
        rw [SodiumMemory.write_eq hp (Nat.zero_lt_succ _)]
        rfl
      · rw [S.block_store hp (Nat.zero_lt_succ _), hblock, Function.update_idem]
        rfl

/-- Without capacity the terminator is written behind the block. -/
theorem SecureString.new_fault {capacity : UInt64} (hcapacity : ¬ 0 < capacity.toNat)
    (hmalloc : S.sodiumMalloc m capacity = some (p, m₁)) :
    SecureString.new S m capacity = .error .fault := by
  obtain ⟨-, content, hlength, hblock⟩ := S.block_malloc hmalloc
  have hp : S.block m₁ p = some content := by
    rw [hblock]
    exact Function.update_self ..
  rw [new, hmalloc]
  dsimp only
  rw [SodiumMemory.write_fault hp (hlength ▸ hcapacity)]
  rfl

end New

/-! ## Programs -/

/-- What a program does with its objects, which are named by `ι`. -/
inductive Op (ι : Type) : Type where
  /-- without an argument the size is zero -/
  | newBuffer (i : ι) (size : UInt64)
  | newString (i : ι) (capacity : UInt64)
  /-- `T i(std::move(j))` -/
  | moveNew (i j : ι)
  /-- `i = std::move(j)` -/
  | moveAssign (i j : ι)
  | destroy (i : ι)
  /-- `i.AsMutableSpan()[k] = b` -/
  | setByte (i : ι) (k : ℕ) (b : UInt8)
  | pushBack (i : ι) (character : UInt8)

structure State (M ι : Type) : Type where
  memory : M
  objs : ι → Option Obj := fun _ => none

variable [DecidableEq ι]

/-- One operation. What the language rules out does nothing: an object is made where there is
none, and used where there is one of its class, within its size. -/
def State.step (s : State M ι) : Op ι → Except Ending (State M ι)
  | .newBuffer i size =>
      match s.objs i with
      | some _ => return s
      | none => do
          let (b, memory) ← SecureBuffer.new S s.memory size
          return { memory, objs := Function.update s.objs i (some (.buffer b)) }
  | .newString i capacity =>
      match s.objs i with
      | some _ => return s
      | none => do
          let (str, memory) ← SecureString.new S s.memory capacity
          return { memory, objs := Function.update s.objs i (some (.string str)) }
  | .moveNew i j =>
      match s.objs i, s.objs j with
      | none, some other =>
          return { s with objs := Function.update (Function.update s.objs i (some other)) j
                            (some other.moved) }
      | _, _ => return s
  | .moveAssign i j =>
      match s.objs i, s.objs j with
      | some this, some other =>
          if i = j ∨ this.SameClass other = false then return s
          else do
            let memory ← this.release S s.memory
            return { memory
                     objs := Function.update (Function.update s.objs i (some other)) j
                       (some other.moved) }
      | _, _ => return s
  | .destroy i =>
      match s.objs i with
      | some o => do
          let memory ← o.release S s.memory
          return { memory, objs := Function.update s.objs i none }
      | none => return s
  | .setByte i k b =>
      match s.objs i with
      | some (.buffer buf) =>
          if k < buf.bufferSize.toNat then do
            let memory ← S.write s.memory buf.bufferData k b
            return { s with memory }
          else return s
      | _ => return s
  | .pushBack i character =>
      match s.objs i with
      | some (.string str) => do
          let (str, memory) ← str.pushBack S s.memory character
          return { memory, objs := Function.update s.objs i (some (.string str)) }
      | _ => return s

/-- A program up to its end, or until it is stopped. -/
def State.run (s : State M ι) (ops : List (Op ι)) : Except Ending (State M ι) :=
  ops.foldlM (State.step S) s

/-- The size of the block that an operation asks for. -/
def State.request (s : State M ι) : Op ι → Option UInt64
  | .newBuffer i size => if s.objs i = none ∧ 0 < size then some size else none
  | .newString i capacity => if s.objs i = none then some capacity else none
  | _ => none

/-- The operation asks for a block that it does not get. -/
def Refused (s : State M ι) (op : Op ι) : Prop :=
  ∃ size, s.request op = some size ∧ S.sodiumMalloc s.memory size = none

/-! ## Programs on values -/

/-- A buffer by its bytes, and a string unless it was moved from. -/
inductive Value : Type where
  | buffer (bytes : Bytes)
  | string (s : Option Core.SecureString)

def Value.moved : Value → Value
  | .buffer _ => .buffer []
  | .string _ => .string none

def Value.view : Value → Bytes
  | .buffer bytes => bytes
  | .string s => (s.map Core.SecureString.stringView).getD []

def Value.SameClass : Value → Value → Bool
  | .buffer _, .buffer _ | .string _, .string _ => true
  | _, _ => false

/-- A string with some capacity. -/
def emptyString (capacity : UInt64) : Option Core.SecureString :=
  if h : 0 < capacity.toNat then some ⟨capacity.toNat, [], h⟩ else none

def absStep (v : ι → Option Value) : Op ι → (ι → Option Value)
  | .newBuffer i size =>
      match v i with
      | some _ => v
      | none => Function.update v i (some (.buffer (List.replicate size.toNat 0)))
  | .newString i capacity =>
      match v i with
      | some _ => v
      | none => Function.update v i (some (.string (emptyString capacity)))
  | .moveNew i j =>
      match v i, v j with
      | none, some other =>
          Function.update (Function.update v i (some other)) j (some other.moved)
      | _, _ => v
  | .moveAssign i j =>
      match v i, v j with
      | some this, some other =>
          if i = j ∨ this.SameClass other = false then v
          else Function.update (Function.update v i (some other)) j (some other.moved)
      | _, _ => v
  | .destroy i => Function.update v i none
  | .setByte i k b =>
      match v i with
      | some (.buffer bytes) => Function.update v i (some (.buffer (bytes.set k b)))
      | _ => v
  | .pushBack i character =>
      match v i with
      | some (.string s) =>
          Function.update v i (some (.string (s.map (·.pushBack character))))
      | _ => v

/-- The operation is none of the two that go wrong. -/
def Allowed (v : ι → Option Value) : Op ι → Prop
  | .newString i capacity => v i = none → 0 < capacity.toNat
  | .pushBack i _ => v i ≠ some (.string none)
  | _ => True

/-! ## Objects and values -/

/-- An object stands for a value, by the blocks of the memory. The block of a string has the
characters, the terminator and what is left of the capacity. -/
inductive Holds (block : ℕ → Option Bytes) : Option Obj → Option Value → Prop where
  | none : Holds block none none
  | emptyBuffer : Holds block (some (.buffer {})) (some (.buffer []))
  | buffer {size : UInt64} {p : ℕ} {bytes : Bytes} (hblock : block p = some bytes)
      (hsize : size.toNat = bytes.length) :
      Holds block (some (.buffer ⟨size, some p⟩)) (some (.buffer bytes))
  | movedString : Holds block (some (.string {})) (some (.string none))
  | string {capacity size : UInt64} {p : ℕ} {t : Core.SecureString} {rest : Bytes}
      (hblock : block p = some (t.strData ++ 0 :: rest))
      (hcapacity : capacity.toNat = t.maxCapacity) (hsize : size.toNat = t.strData.length)
      (hlength : t.strData.length + 1 + rest.length = t.maxCapacity) :
      Holds block (some (.string ⟨capacity, size, some p⟩)) (some (.string (some t)))

/-- The blocks that the objects own. -/
def owns (objs : ι → Option Obj) (i : ι) : Option ℕ := (objs i).bind Obj.pointer

/-- The blocks that have not been freed. -/
def Live (block : ℕ → Option Bytes) (p : ℕ) : Prop := (block p).isSome = true

structure Sound (s : State M ι) (v : ι → Option Value) : Prop where
  holds : ∀ i, Holds (S.block s.memory) (s.objs i) (v i)
  soleOwner : SoleOwner (owns s.objs) (Live (S.block s.memory))

section Holds

variable {block block' : ℕ → Option Bytes} {o : Option Obj} {w : Option Value}

theorem Holds.frame (h : Holds block o w)
    (hframe : ∀ p, o.bind Obj.pointer = some p → block' p = block p) : Holds block' o w := by
  cases h with
  | none => exact .none
  | emptyBuffer => exact .emptyBuffer
  | buffer hblock hsize => exact .buffer ((hframe _ rfl).trans hblock) hsize
  | movedString => exact .movedString
  | string hblock hcapacity hsize hlength =>
      exact .string ((hframe _ rfl).trans hblock) hcapacity hsize hlength

theorem Holds.live (h : Holds block o w) {p : ℕ} (hp : o.bind Obj.pointer = some p) :
    Live block p := by
  cases h with
  | none => cases hp
  | emptyBuffer => cases hp
  | buffer hblock hsize =>
      cases hp
      exact Option.isSome_iff_exists.mpr ⟨_, hblock⟩
  | movedString => cases hp
  | string hblock hcapacity hsize hlength =>
      cases hp
      exact Option.isSome_iff_exists.mpr ⟨_, hblock⟩

theorem Holds.moved {o : Obj} {w : Value} (h : Holds block (some o) (some w)) :
    Holds block' (some o.moved) (some w.moved) := by
  cases h with
  | emptyBuffer => exact .emptyBuffer
  | buffer hblock hsize => exact .emptyBuffer
  | movedString => exact .movedString
  | string hblock hcapacity hsize hlength => exact .movedString

theorem Obj.pointer_moved (o : Obj) : o.moved.pointer = none := by
  cases o <;> rfl

theorem Holds.sameClass {o o' : Obj} {w w' : Value} (h : Holds block (some o) (some w))
    (h' : Holds block (some o') (some w')) : o.SameClass o' = w.SameClass w' := by
  cases h <;> cases h' <;> rfl

theorem Holds.bufferSize_eq {b : SecureBuffer} {bytes : Bytes}
    (h : Holds block (some (.buffer b)) (some (.buffer bytes))) :
    b.bufferSize.toNat = bytes.length := by
  cases h with
  | emptyBuffer => rfl
  | buffer hblock hsize => exact hsize

variable {S}

theorem Holds.view {m : M} {o : Obj} {w : Value} (h : Holds (S.block m) (some o) (some w)) :
    o.view S m = w.view := by
  cases h with
  | emptyBuffer => rfl
  | buffer hblock hsize =>
      show ((S.block m _).getD []).take _ = _
      rw [hblock, hsize]
      exact List.take_length
  | movedString => rfl
  | string hblock hcapacity hsize hlength =>
      show ((S.block m _).getD []).take _ = _
      rw [hblock, hsize]
      exact List.take_left

end Holds

section Step

variable {S} {s : State M ι} {v : ι → Option Value} {i j : ι}

omit [DecidableEq ι] in
theorem Sound.lookup (h : Sound S s v) (i : ι) :
    (s.objs i = none ∧ v i = none) ∨
      ∃ o w, s.objs i = some o ∧ v i = some w ∧ Holds (S.block s.memory) (some o) (some w) := by
  have hi := h.holds i
  cases hobj : s.objs i with
  | none =>
      rw [hobj] at hi
      generalize v i = w at hi
      cases hi
      exact .inl ⟨rfl, rfl⟩
  | some o =>
      rw [hobj] at hi
      cases hvalue : v i with
      | none =>
          rw [hvalue] at hi
          cases hi
      | some w =>
          rw [hvalue] at hi
          exact .inr ⟨o, w, rfl, rfl, hi⟩

theorem owns_update (objs : ι → Option Obj) (i : ι) (o : Option Obj) :
    owns (Function.update objs i o) = Function.update (owns objs) i (o.bind Obj.pointer) :=
  Function.comp_update (Option.bind · Obj.pointer) objs i o

omit [DecidableEq ι] in
theorem owns_eq_none (h : s.objs i = none) : owns s.objs i = none := by
  rw [owns, h]
  rfl

theorem Sound.update (h : Sound S s v) {m : M} {o : Option Obj} {w : Option Value}
    (hi : Holds (S.block m) o w)
    (hframe : ∀ k, k ≠ i → ∀ p, owns s.objs k = some p → S.block m p = S.block s.memory p)
    (hsoleOwner : SoleOwner (Function.update (owns s.objs) i (o.bind Obj.pointer))
      (Live (S.block m))) :
    Sound S ⟨m, Function.update s.objs i o⟩ (Function.update v i w) := by
  refine ⟨fun k => ?_, ?_⟩
  · by_cases hk : k = i
    · rw [hk, Function.update_self]
      show Holds (S.block m) (Function.update s.objs i o i) w
      rw [Function.update_self]
      exact hi
    · rw [Function.update_of_ne hk]
      show Holds (S.block m) (Function.update s.objs i o k) (v k)
      rw [Function.update_of_ne hk]
      exact (h.holds k).frame (hframe k hk)
  · rw [owns_update]
    exact hsoleOwner

/-- A block that was handed out, with what is in it by now. -/
theorem Sound.acquire (h : Sound S s v) (hi : s.objs i = none) {m : M} {p : ℕ} {content : Bytes}
    {o : Obj} {w : Value} (hfresh : S.block s.memory p = none)
    (hm : S.block m = Function.update (S.block s.memory) p (some content))
    (hpointer : o.pointer = some p) (hholds : Holds (S.block m) (some o) (some w)) :
    Sound S ⟨m, Function.update s.objs i (some o)⟩ (Function.update v i (some w)) := by
  have hdead : ¬ Live (S.block s.memory) p := by
    rw [Live, hfresh]
    nofun
  refine h.update hholds ?_ ?_
  · intro k _ q hq
    rw [hm]
    apply Function.update_of_ne
    rintro rfl
    exact hdead ((h.holds k).live hq)
  · rw [show (some o).bind Obj.pointer = some p from hpointer]
    refine (h.soleOwner.acquire (owns_eq_none hi) hdead).congr fun q => ?_
    rw [Live, hm]
    by_cases hq : q = p
    · rw [hq, Function.update_self]
      exact iff_of_true rfl (.inl rfl)
    · rw [Function.update_of_ne hq, or_iff_right hq]
      rfl

theorem Sound.unowned (h : Sound S s v) (hi : owns s.objs i = none) {o : Option Obj}
    {w : Option Value} (hpointer : o.bind Obj.pointer = none)
    (hholds : Holds (S.block s.memory) o w) :
    Sound S ⟨s.memory, Function.update s.objs i o⟩ (Function.update v i w) := by
  refine h.update hholds (fun _ _ _ _ => rfl) ?_
  rw [hpointer, ← hi, Function.update_eq_self]
  exact h.soleOwner

/-- A new object takes over what another one owns. -/
theorem Sound.transfer (h : Sound S s v) (hi : s.objs i = none) {other : Obj} {w : Value}
    (hj : s.objs j = some other) (hvj : v j = some w) :
    Sound S ⟨s.memory, Function.update (Function.update s.objs i (some other)) j
        (some other.moved)⟩
      (Function.update (Function.update v i (some w)) j (some w.moved)) := by
  have hij : i ≠ j := by
    rintro rfl
    rw [hi] at hj
    cases hj
  have hother := h.holds j
  rw [hj, hvj] at hother
  refine ⟨fun k => ?_, ?_⟩
  · show Holds (S.block s.memory) (Function.update (Function.update s.objs i _) j _ k) _
    by_cases hkj : k = j
    · rw [hkj, Function.update_self, Function.update_self]
      exact hother.moved
    · rw [Function.update_of_ne hkj, Function.update_of_ne hkj]
      by_cases hki : k = i
      · rw [hki, Function.update_self, Function.update_self]
        exact hother
      · rw [Function.update_of_ne hki, Function.update_of_ne hki]
        exact h.holds k
  · have howns : owns s.objs j = other.pointer := by
      rw [owns, hj]
      rfl
    rw [owns_update, owns_update]
    show SoleOwner (Function.update (Function.update _ i other.pointer) j other.moved.pointer) _
    rw [Obj.pointer_moved, ← howns]
    exact h.soleOwner.transfer hij (owns_eq_none hi)

/-- **Giving up an object.** Its block is alive, and nobody else's. -/
theorem Sound.release (h : Sound S s v) {o : Obj} (hi : s.objs i = some o) :
    ∃ m, o.release S s.memory = .ok m ∧
      Sound S ⟨m, Function.update s.objs i none⟩ (Function.update v i none) := by
  have howns : owns s.objs i = o.pointer := by
    rw [owns, hi]
    rfl
  unfold Obj.release
  cases hpointer : o.pointer with
  | none => exact ⟨s.memory, rfl, h.unowned (howns.trans hpointer) rfl .none⟩
  | some p =>
      rw [hpointer] at howns
      obtain ⟨content, hcontent⟩ := Option.isSome_iff_exists.mp ((h.holds i).live howns)
      have hm := S.block_free hcontent
      refine ⟨S.sodiumFree s.memory p, SodiumMemory.free_eq hcontent, h.update .none ?_ ?_⟩
      · intro k hk q hq
        rw [hm]
        apply Function.update_of_ne
        rintro rfl
        exact h.soleOwner.ne_of_ne howns hk hq
      · refine (h.soleOwner.release i).congr fun q => ?_
        rw [howns, Live, hm]
        by_cases hq : q = p
        · rw [hq, Function.update_self]
          exact iff_of_false nofun fun hp => hp.2 rfl
        · rw [Function.update_of_ne hq, and_iff_left fun hp => hq (Option.some.inj hp).symm]
          rfl

theorem Sound.write (h : Sound S s v) {o o' : Obj} {w : Value} {m : M} {p : ℕ} {content : Bytes}
    (hi : s.objs i = some o) (hp : o.pointer = some p) (hp' : o'.pointer = some p)
    (hm : S.block m = Function.update (S.block s.memory) p (some content))
    (hholds : Holds (S.block m) (some o') (some w)) :
    Sound S ⟨m, Function.update s.objs i (some o')⟩ (Function.update v i (some w)) := by
  have howns : owns s.objs i = some p := by
    rw [owns, hi]
    exact hp
  refine h.update hholds ?_ ?_
  · intro k hk q hq
    rw [hm]
    apply Function.update_of_ne
    rintro rfl
    exact h.soleOwner.ne_of_ne howns hk hq
  · rw [show (some o').bind Obj.pointer = some p from hp', ← howns, Function.update_eq_self]
    refine h.soleOwner.congr fun q => ?_
    rw [Live, hm]
    by_cases hq : q = p
    · rw [hq, Function.update_self]
      exact iff_of_true rfl ((h.holds i).live howns)
    · rw [Function.update_of_ne hq]
      rfl

theorem Sound.setByte (h : Sound S s v) {b : SecureBuffer} {bytes : Bytes}
    (hi : s.objs i = some (.buffer b)) (hv : v i = some (.buffer bytes)) {k : ℕ}
    (hk : k < b.bufferSize.toNat) (c : UInt8) :
    ∃ m, S.write s.memory b.bufferData k c = .ok m ∧
      Sound S ⟨m, s.objs⟩ (Function.update v i (some (.buffer (bytes.set k c)))) := by
  have hholds := h.holds i
  rw [hi, hv] at hholds
  cases hholds with
  | emptyBuffer => exact absurd hk (Nat.not_lt_zero k)
  | @buffer size p bytes hblock hsize =>
      have hlt : k < bytes.length := hsize ▸ hk
      have hm := S.block_store (b := c) hblock hlt
      refine ⟨S.store s.memory p k c, SodiumMemory.write_eq hblock hlt c, ?_⟩
      have hlength : size.toNat = (bytes.set k c).length := hsize.trans (List.length_set ..).symm
      have hafter := h.write hi rfl rfl hm
        (.buffer ((congrFun hm p).trans (Function.update_self ..)) hlength)
      rw [← hi, Function.update_eq_self] at hafter
      exact hafter

/-- The comparison of `PushBack`, for a string with room for its terminator. -/
theorem lt_capacity_iff {capacity size : UInt64} (h : 0 < capacity.toNat) :
    size < capacity - 1 ↔ size.toNat < capacity.toNat - 1 := by
  rw [UInt64.lt_iff_toNat_lt, UInt64.toNat_sub_of_le]
  · rfl
  · exact UInt64.le_iff_toNat_le.mpr h

/-- The two writes of `PushBack`: the terminator is overwritten, and written again behind. -/
theorem SodiumMemory.write_terminated {m : M} {p : ℕ} {text rest : Bytes} {r : UInt8}
    (hblock : S.block m p = some (text ++ 0 :: r :: rest)) (c : UInt8) :
    ∃ m₁ m₂, S.write m (some p) text.length c = .ok m₁ ∧
      S.write m₁ (some p) (text.length + 1) 0 = .ok m₂ ∧
      S.block m₂ = Function.update (S.block m) p (some ((text ++ [c]) ++ 0 :: rest)) := by
  have hfirst : (text ++ 0 :: r :: rest).set text.length c = text ++ c :: r :: rest := by
    rw [List.set_append_right _ _ le_rfl, Nat.sub_self]
    rfl
  have hsecond : (text ++ c :: r :: rest).set (text.length + 1) 0 = (text ++ [c]) ++ 0 :: rest := by
    rw [List.set_append_right _ _ (Nat.le_add_right _ 1), Nat.add_sub_cancel_left,
      List.append_assoc]
    rfl
  have hroom : text.length < (text ++ 0 :: r :: rest).length := by simp
  have hroom' : text.length + 1 < (text ++ c :: r :: rest).length := by simp
  have hm₁ := S.block_store (b := c) hblock hroom
  rw [hfirst] at hm₁
  have hp₁ := (congrFun hm₁ p).trans (Function.update_self ..)
  refine ⟨_, _, write_eq hblock hroom c, write_eq hp₁ hroom' 0, ?_⟩
  rw [S.block_store hp₁ hroom', hsecond, hm₁, Function.update_idem]

/-- **Appending a character.** -/
theorem Sound.pushBack (h : Sound S s v) {str : SecureString} {t : Core.SecureString}
    (hi : s.objs i = some (.string str)) (hv : v i = some (.string (some t))) (c : UInt8) :
    ∃ str' m, str.pushBack S s.memory c = .ok (str', m) ∧
      Sound S ⟨m, Function.update s.objs i (some (.string str'))⟩
        (Function.update v i (some (.string (some (t.pushBack c))))) := by
  have hholds := h.holds i
  rw [hi, hv] at hholds
  cases hholds with
  | @string capacity size p t rest hblock hcapacity hsize hlength =>
      have hcompare : size < capacity - 1 ↔ t.strData.length < t.maxCapacity - 1 := by
        rw [lt_capacity_iff (by omega), hsize, hcapacity]
      unfold SecureString.pushBack Core.SecureString.pushBack
      by_cases hroom : t.strData.length < t.maxCapacity - 1
      · rw [if_pos (hcompare.mpr hroom), dif_pos hroom]
        cases rest with
        | nil =>
            simp only [List.length_nil] at hlength
            omega
        | cons r rest =>
            have hsucc : (size + 1).toNat = t.strData.length + 1 := by
              have hlt := capacity.toNat_lt
              rw [UInt64.toNat_add, hsize]
              exact Nat.mod_eq_of_lt (by simp only [UInt64.reduceToNat]; omega)
            obtain ⟨m₁, m₂, hwrite₁, hwrite₂, hm⟩ := SodiumMemory.write_terminated hblock c
            refine ⟨⟨capacity, size + 1, some p⟩, m₂, ?_, ?_⟩
            · dsimp only
              rw [hsize, hwrite₁, hsucc]
              show (S.write m₁ (some p) _ 0 >>= _) = _
              rw [hwrite₂]
              rfl
            · refine h.write hi rfl rfl hm
                (.string ((congrFun hm p).trans (Function.update_self ..)) hcapacity ?_ ?_)
              · rw [hsucc, List.length_append, List.length_singleton]
              · rw [List.length_append, List.length_singleton, ← hlength, List.length_cons]
                omega
      · refine ⟨⟨capacity, size, some p⟩, s.memory, if_neg (hcompare.not.mpr hroom), ?_⟩
        rw [dif_neg hroom, ← hi, ← hv, Function.update_eq_self, Function.update_eq_self]
        exact h

/-- What an operation ends in. -/
inductive Outcome (S : SodiumMemory M) (s : State M ι) (v : ι → Option Value) (op : Op ι) :
    Except Ending (State M ι) → Prop where
  | refused (h : Refused S s op) : Outcome S s v op (.error .abort)
  | broken (hgranted : ¬ Refused S s op) (h : ¬ Allowed v op) : Outcome S s v op (.error .fault)
  | done {s' : State M ι} (hgranted : ¬ Refused S s op) (h : Allowed v op)
      (hafter : Sound S s' (absStep v op)) : Outcome S s v op (.ok s')

omit [DecidableEq ι] in
theorem not_refused {op : Op ι} (h : s.request op = none) : ¬ Refused S s op := by
  rintro ⟨size, hsize, -⟩
  rw [h] at hsize
  cases hsize

omit [DecidableEq ι] in
theorem not_refused_of_malloc {op : Op ι} {size : UInt64} {r : ℕ × M}
    (h : s.request op = some size) (hmalloc : S.sodiumMalloc s.memory size = some r) :
    ¬ Refused S s op := by
  rintro ⟨size', hsize', hnone⟩
  rw [h] at hsize'
  cases hsize'
  rw [hmalloc] at hnone
  cases hnone

theorem Sound.outcome_newBuffer (h : Sound S s v) (i : ι) (size : UInt64) :
    Outcome S s v (.newBuffer i size) (s.step S (.newBuffer i size)) := by
  rw [State.step]
  rcases h.lookup i with ⟨hi, hv⟩ | ⟨o, w, hi, hv, -⟩
  · rw [hi]
    by_cases hsize : 0 < size
    · have hrequest : s.request (.newBuffer i size) = some size := if_pos ⟨hi, hsize⟩
      cases hmalloc : S.sodiumMalloc s.memory size with
      | none =>
          dsimp only
          rw [SecureBuffer.new_refused hsize hmalloc]
          exact .refused ⟨size, hrequest, hmalloc⟩
      | some r =>
          obtain ⟨p, m₁⟩ := r
          obtain ⟨m, hnew, hm⟩ := SecureBuffer.new_granted hsize hmalloc
          dsimp only
          rw [hnew]
          refine .done (not_refused_of_malloc hrequest hmalloc) trivial ?_
          rw [absStep, hv]
          exact h.acquire hi (S.block_malloc hmalloc).1 hm rfl
            (.buffer ((congrFun hm p).trans (Function.update_self ..))
              (List.length_replicate ..).symm)
    · obtain rfl : size = 0 := UInt64.le_zero_iff.mp (UInt64.not_lt.mp hsize)
      refine .done (not_refused (if_neg fun hrequest => hsize hrequest.2)) trivial ?_
      rw [absStep, hv]
      exact h.unowned (owns_eq_none hi) rfl .emptyBuffer
  · rw [hi]
    refine .done (not_refused (if_neg fun hrequest => ?_)) trivial ?_
    · rw [hi] at hrequest
      cases hrequest.1
    · rw [absStep, hv]
      exact h

theorem Sound.outcome_newString (h : Sound S s v) (i : ι) (capacity : UInt64) :
    Outcome S s v (.newString i capacity) (s.step S (.newString i capacity)) := by
  rw [State.step]
  rcases h.lookup i with ⟨hi, hv⟩ | ⟨o, w, hi, hv, -⟩
  · rw [hi]
    have hrequest : s.request (.newString i capacity) = some capacity := if_pos hi
    cases hmalloc : S.sodiumMalloc s.memory capacity with
    | none =>
        dsimp only
        rw [SecureString.new_refused hmalloc]
        exact .refused ⟨capacity, hrequest, hmalloc⟩
    | some r =>
        obtain ⟨p, m₁⟩ := r
        have hgranted := not_refused_of_malloc hrequest hmalloc
        dsimp only
        by_cases hcapacity : 0 < capacity.toNat
        · obtain ⟨m, rest, hnew, hrest, hm⟩ := SecureString.new_granted hcapacity hmalloc
          rw [hnew]
          refine .done hgranted (fun _ => hcapacity) ?_
          rw [absStep, hv, emptyString, dif_pos hcapacity]
          refine h.acquire hi (S.block_malloc hmalloc).1 hm rfl
            (.string ((congrFun hm p).trans (Function.update_self ..)) rfl rfl ?_)
          show 0 + 1 + rest.length = capacity.toNat
          omega
        · rw [SecureString.new_fault hcapacity hmalloc]
          exact .broken hgranted fun hallowed => hcapacity (hallowed hv)
  · rw [hi]
    refine .done (not_refused (if_neg fun hrequest => ?_)) (fun hnone => ?_) ?_
    · rw [hi] at hrequest
      cases hrequest
    · rw [hv] at hnone
      cases hnone
    · rw [absStep, hv]
      exact h

theorem Sound.outcome_moveAssign (h : Sound S s v) (i j : ι) :
    Outcome S s v (.moveAssign i j) (s.step S (.moveAssign i j)) := by
  have hdone : ∀ {s'}, Sound S s' (absStep v (.moveAssign i j)) →
      Outcome S s v (.moveAssign i j) (.ok s') := .done (not_refused rfl) trivial
  rw [State.step]
  rw [absStep] at hdone
  rcases h.lookup i with ⟨hi, hv⟩ | ⟨this, w, hi, hv, hthis⟩
  · rw [hv] at hdone
    rw [hi]
    exact hdone h
  · rcases h.lookup j with ⟨hj, hvj⟩ | ⟨other, w', hj, hvj, hother⟩
    · rw [hv, hvj] at hdone
      rw [hi, hj]
      exact hdone h
    · rw [hv, hvj] at hdone
      rw [hi, hj]
      dsimp only at hdone ⊢
      rw [← hthis.sameClass hother] at hdone
      by_cases hsame : i = j ∨ this.SameClass other = false
      · rw [if_pos hsame] at hdone ⊢
        exact hdone h
      · -- the target is given up, and then takes over like a new object
        obtain ⟨m, hrelease, hafter⟩ := h.release hi
        have hij : j ≠ i := fun heq => hsame (.inl heq.symm)
        have htransfer := hafter.transfer (i := i) (j := j) (Function.update_self ..)
          ((Function.update_of_ne hij ..).trans hj) ((Function.update_of_ne hij ..).trans hvj)
        dsimp only at htransfer
        rw [Function.update_idem, Function.update_idem] at htransfer
        rw [if_neg hsame] at hdone ⊢
        rw [hrelease]
        exact hdone htransfer

theorem Sound.outcome_setByte (h : Sound S s v) (i : ι) (k : ℕ) (b : UInt8) :
    Outcome S s v (.setByte i k b) (s.step S (.setByte i k b)) := by
  have hdone : ∀ {s'}, Sound S s' (absStep v (.setByte i k b)) →
      Outcome S s v (.setByte i k b) (.ok s') := .done (not_refused rfl) trivial
  rw [State.step]
  rw [absStep] at hdone
  rcases h.lookup i with ⟨hi, hv⟩ | ⟨o, w, hi, hv, hholds⟩
  · rw [hv] at hdone
    rw [hi]
    exact hdone h
  · rw [hv] at hdone
    rw [hi]
    cases o with
    | string str => cases hholds <;> exact hdone h
    | buffer buf =>
        cases w with
        | string t => cases hholds
        | buffer bytes =>
            have hsize := hholds.bufferSize_eq
            dsimp only at hdone ⊢
            by_cases hk : k < buf.bufferSize.toNat
            · obtain ⟨m, hwrite, hafter⟩ := h.setByte hi hv hk b
              rw [if_pos hk, hwrite]
              exact hdone hafter
            · rw [List.set_eq_of_length_le (by omega), ← hv, Function.update_eq_self] at hdone
              rw [if_neg hk]
              exact hdone h

/-- After a move `maxCapacity - 1` is the largest size there is, and the character goes through
a null pointer. -/
theorem SecureString.pushBack_moved (m : M) (c : UInt8) :
    SecureString.pushBack S m {} c = .error .fault := rfl

theorem Sound.outcome_pushBack (h : Sound S s v) (i : ι) (c : UInt8) :
    Outcome S s v (.pushBack i c) (s.step S (.pushBack i c)) := by
  have hdone : ∀ {s'}, v i ≠ some (.string none) → Sound S s' (absStep v (.pushBack i c)) →
      Outcome S s v (.pushBack i c) (.ok s') :=
    fun hallowed hafter => .done (not_refused rfl) hallowed hafter
  rw [State.step]
  rw [absStep] at hdone
  rcases h.lookup i with ⟨hi, hv⟩ | ⟨o, w, hi, hv, hholds⟩
  · rw [hv] at hdone
    rw [hi]
    exact hdone nofun h
  · rw [hi]
    cases hholds with
    | emptyBuffer =>
        rw [hv] at hdone
        exact hdone nofun h
    | buffer hblock hsize =>
        rw [hv] at hdone
        exact hdone nofun h
    | movedString =>
        dsimp only
        rw [SecureString.pushBack_moved]
        exact .broken (not_refused rfl) fun hallowed => hallowed hv
    | string hblock hcapacity hsize hlength =>
        obtain ⟨str', m, hpush, hafter⟩ := h.pushBack hi hv c
        dsimp only
        rw [hpush]
        rw [hv] at hdone
        exact hdone nofun hafter

/-- **One step.** An operation is refused its memory, or it is one of the two that go wrong, or
it keeps the objects and the values together. -/
theorem Sound.step (h : Sound S s v) (op : Op ι) : Outcome S s v op (s.step S op) := by
  cases op with
  | newBuffer i size => exact h.outcome_newBuffer i size
  | newString i capacity => exact h.outcome_newString i capacity
  | moveNew i j =>
      have hdone : ∀ {s'}, Sound S s' (absStep v (.moveNew i j)) →
          Outcome S s v (.moveNew i j) (.ok s') := .done (not_refused rfl) trivial
      rw [State.step]
      rw [absStep] at hdone
      rcases h.lookup i with ⟨hi, hv⟩ | ⟨o, w, hi, hv, -⟩
      · rcases h.lookup j with ⟨hj, hvj⟩ | ⟨other, w', hj, hvj, -⟩
        · rw [hv, hvj] at hdone
          rw [hi, hj]
          exact hdone h
        · rw [hv, hvj] at hdone
          rw [hi, hj]
          exact hdone (h.transfer hi hj hvj)
      · rw [hv] at hdone
        rw [hi]
        exact hdone h
  | moveAssign i j => exact h.outcome_moveAssign i j
  | destroy i =>
      have hdone : ∀ {s'}, Sound S s' (Function.update v i none) →
          Outcome S s v (.destroy i) (.ok s') :=
        fun hafter => .done (not_refused rfl) trivial hafter
      rw [State.step]
      rcases h.lookup i with ⟨hi, hv⟩ | ⟨o, w, hi, hv, -⟩
      · rw [← hv, Function.update_eq_self] at hdone
        rw [hi]
        exact hdone h
      · obtain ⟨m, hrelease, hafter⟩ := h.release hi
        rw [hi]
        dsimp only
        rw [hrelease]
        exact hdone hafter
  | setByte i k b => exact h.outcome_setByte i k b
  | pushBack i c => exact h.outcome_pushBack i c

end Step

/-! ## Whole programs -/

section Run

variable {S} {s : State M ι} {v : ι → Option Value} {ops : List (Op ι)}

theorem State.run_cons (op : Op ι) (ops : List (Op ι)) :
    s.run S (op :: ops) = s.step S op >>= fun s' => s'.run S ops := List.foldlM_cons

theorem State.run_append (ops ops' : List (Op ι)) :
    s.run S (ops ++ ops') = s.run S ops >>= fun s' => s'.run S ops' := List.foldlM_append

omit [DecidableEq ι] in
theorem sound_start : Sound S (⟨S.start, fun _ => none⟩ : State M ι) (fun _ => none) := by
  refine ⟨fun _ => .none, SoleOwner.empty.congr fun p => ?_⟩
  rw [Live, S.block_start]
  exact iff_of_false nofun not_false

/-- An operation is refused its memory somewhere in a program. -/
def Exhausted (S : SodiumMemory M) (s : State M ι) (ops : List (Op ι)) : Prop :=
  ∃ ops₁ op s₁, ops₁ ++ [op] <+: ops ∧ s.run S ops₁ = .ok s₁ ∧ Refused S s₁ op

/-- What a program ends in. -/
inductive RunOutcome (S : SodiumMemory M) (s : State M ι) (v : ι → Option Value)
    (ops : List (Op ι)) : Except Ending (State M ι) → Prop where
  | exhausted (h : Exhausted S s ops) : RunOutcome S s v ops (.error .abort)
  | broken (h : ¬ Run.Along absStep Allowed v ops) : RunOutcome S s v ops (.error .fault)
  | done {s' : State M ι} (h : Run.Along absStep Allowed v ops)
      (hafter : Sound S s' (ops.foldl absStep v)) : RunOutcome S s v ops (.ok s')

/-- **Every program.** The induction is on the operations that are left. -/
theorem Sound.run (h : Sound S s v) (ops : List (Op ι)) :
    RunOutcome S s v ops (s.run S ops) := by
  induction ops generalizing s v with
  | nil => exact .done trivial h
  | cons op ops ih =>
      rw [State.run_cons]
      have hstep := h.step op
      generalize hr : s.step S op = r at hstep
      cases hstep with
      | refused hrefused =>
          exact .exhausted ⟨[], op, s, List.prefix_append [op] ops, rfl, hrefused⟩
      | broken hgranted hbroken => exact .broken fun halong => hbroken halong.1
      | @done s' hgranted hallowed hafter =>
          show RunOutcome S s v (op :: ops) (s'.run S ops)
          have hrest := ih hafter
          generalize s'.run S ops = r' at hrest
          cases hrest with
          | exhausted hexhausted =>
              obtain ⟨ops₁, op', s₁, hinit, hrun, hrefused⟩ := hexhausted
              refine .exhausted ⟨op :: ops₁, op', s₁, ?_, ?_, hrefused⟩
              · exact List.cons_prefix_cons.mpr ⟨rfl, hinit⟩
              · rw [State.run_cons, hr]
                exact hrun
          | broken hbroken => exact .broken fun halong => hbroken halong.2
          | done halong hsound => exact .done ⟨hallowed, halong⟩ hsound

theorem Sound.of_run (h : Sound S s v) {s' : State M ι} (hrun : s.run S ops = .ok s') :
    Run.Along absStep Allowed v ops ∧ Sound S s' (ops.foldl absStep v) := by
  have houtcome := h.run ops
  rw [hrun] at houtcome
  cases houtcome with
  | done halong hafter => exact ⟨halong, hafter⟩

/-- A program that comes to an operation without memory is aborted there. -/
theorem Sound.run_exhausted (h : Sound S s v) (hexhausted : Exhausted S s ops) :
    s.run S ops = .error .abort := by
  obtain ⟨ops₁, op, s₁, ⟨ops₂, rfl⟩, hrun, hrefused⟩ := hexhausted
  have hstep := (h.of_run hrun).2.step op
  rw [List.append_assoc, State.run_append, hrun]
  show s₁.run S (op :: ops₂) = _
  rw [State.run_cons]
  generalize s₁.step S op = r at hstep
  cases hstep with
  | refused _ => rfl
  | broken hgranted _ => exact absurd hrefused hgranted
  | done hgranted _ _ => exact absurd hrefused hgranted

omit [DecidableEq ι] in
theorem Sound.view (h : Sound S s v) (i : ι) :
    (s.objs i).map (Obj.view S s.memory) = (v i).map Value.view := by
  rcases h.lookup i with ⟨hi, hv⟩ | ⟨o, w, hi, hv, hholds⟩
  · rw [hi, hv]
    rfl
  · rw [hi, hv]
    exact congrArg some hholds.view

omit [DecidableEq ι] in
theorem Sound.live_iff (h : Sound S s v) (p : ℕ) :
    Live (S.block s.memory) p ↔ ∃! i, owns s.objs i = some p := by
  rw [h.soleOwner.live_iff]
  constructor
  · rintro ⟨i, hi⟩
    exact ⟨i, hi, fun j hj => h.soleOwner.unique j i p hj hi⟩
  · rintro ⟨i, hi, -⟩
    exact ⟨i, hi⟩

/-- **Locked memory is used as it should be.** A program makes, moves, assigns, fills and
destroys buffers and strings in any order. It is aborted exactly if an allocation fails on its
way. If it never makes a string without capacity and never appends to a string that was moved
from, it has no memory error; otherwise it has one, unless it is aborted before. When it comes
to its end, its objects show what the same program makes of plain values; every block that has
not been freed is owned by exactly one object; and once all objects are gone, every block was
freed. -/
theorem locked_memory_exact (S : SodiumMemory M) (ops : List (Op ι)) :
    let s : State M ι := ⟨S.start, fun _ => none⟩
    let v : ι → Option Value := fun _ => none
    (s.run S ops = .error .abort ↔ Exhausted S s ops) ∧
    (Run.Along absStep Allowed v ops → s.run S ops ≠ .error .fault) ∧
    (¬ Run.Along absStep Allowed v ops → ¬ Exhausted S s ops → s.run S ops = .error .fault) ∧
    ∀ s', s.run S ops = .ok s' →
      (∀ i, (s'.objs i).map (Obj.view S s'.memory) =
        (ops.foldl absStep v i).map Value.view) ∧
      (∀ p, Live (S.block s'.memory) p ↔ ∃! i, owns s'.objs i = some p) ∧
      ((∀ i, s'.objs i = none) → ∀ p, ¬ Live (S.block s'.memory) p) := by
  intro s v
  have hstart : Sound S s v := sound_start
  have houtcome := hstart.run ops
  refine ⟨⟨?_, hstart.run_exhausted⟩, ?_, ?_, ?_⟩
  · intro habort
    rw [habort] at houtcome
    cases houtcome with
    | exhausted hexhausted => exact hexhausted
  · intro halong hfault
    rw [hfault] at houtcome
    cases houtcome with
    | broken hbroken => exact hbroken halong
  · intro hbroken hmemory
    generalize s.run S ops = r at houtcome
    cases houtcome with
    | exhausted hexhausted => exact absurd hexhausted hmemory
    | broken _ => rfl
    | done halong _ => exact absurd halong hbroken
  · intro s' hrun
    have hsound := (hstart.of_run hrun).2
    refine ⟨hsound.view, hsound.live_iff, ?_⟩
    intro hgone p hlive
    obtain ⟨i, hi, -⟩ := (hsound.live_iff p).mp hlive
    rw [owns, hgone i] at hi
    cases hi

end Run

/-! ## A memory with few blocks -/

/-- Blocks are numbered, and a number is not used again. -/
structure Pages : Type where
  next : ℕ := 0
  block : ℕ → Option Bytes := fun _ => none

namespace Pages

def put (m : Pages) (p : ℕ) (content : Option Bytes) : Pages :=
  { m with block := Function.update m.block p content }

def malloc (limit : ℕ) (m : Pages) (size : UInt64) : Option (ℕ × Pages) :=
  if m.next < limit ∧ m.block m.next = none then
    some (m.next, { m with next := m.next + 1 }.put m.next (some (List.replicate size.toNat 0xDB)))
  else none

def memzero (m : Pages) (p : ℕ) (size : UInt64) : Pages :=
  m.put p ((m.block p).map fun content => List.replicate size.toNat 0 ++ content.drop size.toNat)

def store (m : Pages) (p k : ℕ) (b : UInt8) : Pages := m.put p ((m.block p).map (·.set k b))

theorem block_malloc {limit : ℕ} {m m' : Pages} {size : UInt64} {p : ℕ}
    (h : malloc limit m size = some (p, m')) : m.block p = none ∧
      ∃ content : Bytes, content.length = size.toNat ∧
        m'.block = Function.update m.block p (some content) := by
  unfold malloc at h
  split at h
  · next hfree =>
      cases h
      exact ⟨hfree.2, _, List.length_replicate .., rfl⟩
  · cases h

theorem block_memzero {m : Pages} {p : ℕ} {content : Bytes} {size : UInt64}
    (h : m.block p = some content) :
    (m.memzero p size).block = Function.update m.block p
      (some (List.replicate size.toNat 0 ++ content.drop size.toNat)) := by
  rw [memzero, h]
  rfl

theorem block_store {m : Pages} {p k : ℕ} {b : UInt8} {content : Bytes}
    (h : m.block p = some content) :
    (m.store p k b).block = Function.update m.block p (some (content.set k b)) := by
  rw [store, h]
  rfl

end Pages

/-- There is memory for so many blocks. -/
def pages (limit : ℕ) : SodiumMemory Pages where
  start := {}
  block := Pages.block
  sodiumMalloc := Pages.malloc limit
  sodiumFree m p := m.put p none
  sodiumMemzero := Pages.memzero
  store := Pages.store
  block_start _ := rfl
  block_malloc := Pages.block_malloc
  block_free _ := rfl
  block_memzero h _ := Pages.block_memzero h
  block_store h _ := Pages.block_store h

theorem Ending.ok_ne_error {α : Type} (a : α) (e : Ending) : Except.ok a ≠ Except.error e :=
  nofun

instance {α : Type} (e : Ending) : (r : Except Ending α) → Decidable (r = .error e)
  | .ok a => isFalse (Ending.ok_ne_error a e)
  | .error e' => decidable_of_iff (e' = e) (Except.error.injEq e' e).symm.to_iff

/-- A string is filled and moved, beside a buffer. -/
def greeting : List (Op ℕ) :=
  [.newString 0 8, .pushBack 0 0x68, .pushBack 0 0x69, .newBuffer 2 4, .setByte 2 1 0x2A,
    .moveNew 1 0, .destroy 0]

/-- The program runs where there is room for its two blocks, and is aborted where there is room
for one; and one that goes on with a string that was moved from has a memory error. -/
theorem locked_memory_exact_greeting :
    (∃ s, State.run (pages 2) ⟨{}, fun _ => none⟩ greeting = .ok s ∧
      (s.objs 1).map (Obj.view (pages 2) s.memory) = some [0x68, 0x69] ∧
      (s.objs 2).map (Obj.view (pages 2) s.memory) = some [0, 0x2A, 0, 0] ∧
      ∀ p, Live s.memory.block p ↔ ∃! i, owns s.objs i = some p) ∧
    Exhausted (pages 1) ⟨{}, fun _ => none⟩ greeting ∧
    State.run (pages 3) ⟨{}, fun _ => none⟩
      (greeting ++ [.newString 0 8, .moveAssign 1 0, .pushBack 0 0x61]) = .error .fault := by
  obtain ⟨-, -, -, hend⟩ := locked_memory_exact (pages 2) greeting
  have habort : State.run (pages 1) ⟨{}, fun _ => none⟩ greeting = .error .abort := by
    decide +kernel
  refine ⟨?_, (locked_memory_exact (pages 1) greeting).1.mp habort, ?_⟩
  · cases hrun : State.run (pages 2) ⟨{}, fun _ => none⟩ greeting with
    | error e =>
        have hnone : ∀ e, State.run (pages 2) ⟨{}, fun _ => none⟩ greeting ≠ .error e := by
          rintro (_ | _) <;> decide +kernel
        exact absurd hrun (hnone e)
    | ok s =>
        obtain ⟨hview, hlive, -⟩ := hend s hrun
        exact ⟨s, rfl, (hview 1).trans (by decide +kernel), (hview 2).trans (by decide +kernel),
          hlive⟩
  · decide +kernel

end BlankChat.Core.Locked
