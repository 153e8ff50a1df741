import Fmxp.Core.Bytes
import Fmxp.Library.Heap

/-! `ByteBuffer` as it is written: a pointer, a size and a capacity, and the heap its storage is on.

A call on a buffer gets the heap and the fields of `*this` and leaves both, together with what it threw. It has
no outcome when it does something undefined (a read, a write or a `delete[]` outside what is allocated) or does
not end. `size_t` is `UInt64`, so sizes and capacities wrap where the code lets them. -/
namespace Fmxp

abbrev Addr := Nat

abbrev Memory := Heap.Blocks Addr UInt8

/-- `new uint8_t[n]`: a block nobody has, with whatever bytes lie there, or `std::bad_alloc`. -/
structure Allocator where
  new : Memory → UInt64 → Option (Addr × Bytes)
  free : ∀ heap n a bytes, new heap n = some (a, bytes) → heap a = none
  length : ∀ heap n a bytes, new heap n = some (a, bytes) → bytes.length = n.toNat

inductive Thrown where
  | outOfRange (what : String)
  | badAlloc
  deriving DecidableEq, Repr

/-- What a `const uint8_t*` points at: bytes that are not on this heap, or a place in a block that is. -/
inductive Pointer where
  | null
  | memory (bytes : Bytes)
  | block (a : Addr) (offset : Nat)

def Pointer.add (n : Nat) : Pointer → Pointer
  | .null => .null
  | .memory bytes => .memory (bytes.drop n)
  | .block a offset => .block a (offset + n)

def Pointer.read (heap : Memory) (n : Nat) : Pointer → Option Bytes
  | .null => none
  | .memory bytes => copyFrom bytes n
  | .block a offset => Heap.load heap a offset n

/-- Whether `n` bytes from here on meet `n` bytes of a block. -/
def Pointer.overlaps (dst : Addr) (place n : Nat) : Pointer → Bool
  | .block a offset => a = dst ∧ offset < place + n ∧ place < offset + n
  | _ => false

def memcpy (dst : Addr) (place : Nat) (src : Pointer) (n : Nat) (heap : Memory) : Option Memory :=
  if src.overlaps dst place n then none else (src.read heap n).bind (Heap.store heap dst place)

/-- The bytes before the terminator. There need not be one. -/
def strlen (string : Bytes) : Option UInt64 :=
  if 0 ∈ string then some (UInt64.ofNat (string.takeWhile (· ≠ 0)).length) else none

/-- The fields of a buffer. The null pointer is `none`. -/
structure ByteBuffer where
  data : Option Addr := none
  size : UInt64 := 0
  capacity : UInt64 := 0
  deriving DecidableEq, Repr

/-- Where a call leaves the heap and `*this`, and what it threw. A constructor or an operator that returns a
buffer has that buffer for its `this`; when it throws there is none, and `this` has no storage. -/
structure Outcome where
  heap : Memory
  this : ByteBuffer
  thrown : Option Thrown

/-- What comes after a call, unless it threw. -/
def Outcome.andThen (o : Outcome) (k : Memory → ByteBuffer → Option Outcome) : Option Outcome :=
  match o.thrown with
  | none => k o.heap o.this
  | some _ => some o

theorem Outcome.andThen_of_returned {o : Outcome} {k : Memory → ByteBuffer → Option Outcome} (h : o.thrown = none) :
    o.andThen k = k o.heap o.this := by
  rw [andThen, h]

theorem Outcome.andThen_of_threw {o : Outcome} {k : Memory → ByteBuffer → Option Outcome} (h : o.thrown ≠ none) :
    o.andThen k = some o := by
  unfold andThen
  split
  · next hnone => exact absurd hnone h
  · rfl

theorem Outcome.andThen_cases {o r : Outcome} {k : Memory → ByteBuffer → Option Outcome} (h : o.andThen k = some r) :
    o.thrown = none ∧ k o.heap o.this = some r ∨ o.thrown ≠ none ∧ r = o := by
  by_cases hthrown : o.thrown = none
  · rw [andThen_of_returned hthrown] at h
    exact .inl ⟨hthrown, h⟩
  · rw [andThen_of_threw hthrown] at h
    cases h
    exact .inr ⟨hthrown, rfl⟩

namespace ByteBuffer

/-- The loop of `ensureCapacity`, at most `fuel` times around: what `newCapacity` is when it ends. -/
def doubled (newCap : UInt64) : Nat → UInt64 → Option UInt64
  | 0, _ => none
  | fuel + 1, newCapacity =>
    if newCapacity < newCap then doubled newCap fuel (newCapacity * 2) else some newCapacity

/-- `_capacity ? _capacity * 2 : 64`. -/
def firstCapacity (capacity : UInt64) : UInt64 := if capacity ≠ 0 then capacity * 2 else 64

/-- `if (_data)`: what is in the old storage goes to the new one, and the old one is deleted. -/
def relocate (newData : Addr) (heap : Memory) (b : ByteBuffer) : Option Memory :=
  match b.data with
  | none => some heap
  | some data => (memcpy newData 0 (.block data 0) b.size.toNat heap).bind (Heap.release · (some data))

/-- Doubling shifts a bit out each time, so a loop that has gone around 64 times is at 0 and never ends
(`doubled_enough`). -/
def ensureCapacity (A : Allocator) (newCap : UInt64) (heap : Memory) (b : ByteBuffer) : Option Outcome :=
  if newCap ≤ b.capacity then some ⟨heap, b, none⟩
  else (doubled newCap 64 (firstCapacity b.capacity)).bind fun newCapacity =>
    match A.new heap newCapacity with
    | none => some ⟨heap, b, some .badAlloc⟩
    | some (newData, bytes) =>
      (relocate newData (Function.update heap newData (some bytes)) b).map fun heap =>
        ⟨heap, {b with data := some newData, capacity := newCapacity}, none⟩

def cdata (b : ByteBuffer) : Pointer :=
  match b.data with
  | none => .null
  | some a => .block a 0

def append (A : Allocator) (data : Pointer) (len : UInt64) (heap : Memory) (b : ByteBuffer) : Option Outcome :=
  if len = 0 then some ⟨heap, b, none⟩
  else (ensureCapacity A (b.size + len) heap b).bind fun o => o.andThen fun heap b =>
    match b.data with
    | none => none
    | some a => (memcpy a b.size.toNat data len.toNat heap).map fun heap =>
        ⟨heap, {b with size := b.size + len}, none⟩

def appendString (A : Allocator) (str : Bytes) (heap : Memory) (b : ByteBuffer) : Option Outcome :=
  append A (.memory str) (UInt64.ofNat str.length) heap b

/-! ### Constructors -/

/-- `ByteBuffer()`. -/
def empty : ByteBuffer := {data := none, size := 0, capacity := 0}

/-- `ByteBuffer(const std::string&)`. -/
def fromString (A : Allocator) (str : Bytes) (heap : Memory) : Option Outcome :=
  append A (.memory str) (UInt64.ofNat str.length) heap {}

/-- `ByteBuffer(const char*, size_t)`. -/
def fromChars (A : Allocator) (data : Pointer) (len : UInt64) (heap : Memory) : Option Outcome :=
  append A data len heap {}

/-- `ByteBuffer(const unsigned char*, size_t)`. -/
def fromBytes (A : Allocator) (data : Pointer) (len : UInt64) (heap : Memory) : Option Outcome :=
  append A data len heap {}

/-- `ByteBuffer(const char*)`. -/
def fromCString (A : Allocator) (string : Bytes) (heap : Memory) : Option Outcome :=
  (strlen string).bind fun len => append A (.memory string) len heap {}

/-- `ByteBuffer(const ByteBuffer&)`. -/
def copy (A : Allocator) (other : ByteBuffer) (heap : Memory) : Option Outcome :=
  append A other.cdata other.size heap {}

/-- `ByteBuffer(ByteBuffer&&)`: the new buffer, and what is left of the other one. -/
def move (other : ByteBuffer) : ByteBuffer × ByteBuffer :=
  ({data := other.data, size := other.size, capacity := other.capacity},
    {other with data := none, size := 0, capacity := 0})

/-- `~ByteBuffer`. -/
def destroy (heap : Memory) (b : ByteBuffer) : Option Memory := Heap.release heap b.data

/-! ### Assignments and the other operations -/

def clear (b : ByteBuffer) : ByteBuffer := {b with size := 0}

/-- `operator=(const ByteBuffer&)`, from another buffer. -/
def assign (A : Allocator) (other : ByteBuffer) (heap : Memory) (b : ByteBuffer) : Option Outcome :=
  append A other.cdata other.size heap b.clear

/-- `operator=(ByteBuffer&&)`, from another buffer: the heap, the buffer, and what is left of the other one. -/
def moveAssign (other : ByteBuffer) (heap : Memory) (b : ByteBuffer) : Option (Memory × ByteBuffer × ByteBuffer) :=
  (Heap.release heap b.data).map fun heap =>
    (heap, {b with data := other.data, size := other.size, capacity := other.capacity},
      {other with data := none, size := 0, capacity := 0})

def reserve (A : Allocator) (cap : UInt64) (heap : Memory) (b : ByteBuffer) : Option Outcome :=
  ensureCapacity A cap heap b

/-- `operator+=(const ByteBuffer&)`. -/
def addAssign (A : Allocator) (other : ByteBuffer) (heap : Memory) (b : ByteBuffer) : Option Outcome :=
  append A other.cdata other.size heap b

/-- `operator+=(const std::string&)`. -/
def addAssignString (A : Allocator) (str : Bytes) (heap : Memory) (b : ByteBuffer) : Option Outcome :=
  appendString A str heap b

/-- A local buffer is destroyed by what is thrown past it. -/
def unwind (o : Outcome) : Option Outcome :=
  match o.thrown with
  | none => some o
  | some e => (destroy o.heap o.this).map fun heap => ⟨heap, {}, some e⟩

/-- `ByteBuffer result(*this)`, what is added to it, `return result`. -/
def plus (A : Allocator) (added : Memory → ByteBuffer → Option Outcome) (heap : Memory) (b : ByteBuffer) :
    Option Outcome :=
  (copy A b heap).bind fun o => o.andThen fun heap result => (added heap result).bind unwind

/-- `operator+(const ByteBuffer&)`. -/
def add (A : Allocator) (other : ByteBuffer) (heap : Memory) (b : ByteBuffer) : Option Outcome :=
  plus A (addAssign A other) heap b

/-- `operator+(const std::string&)`. -/
def addString (A : Allocator) (str : Bytes) (heap : Memory) (b : ByteBuffer) : Option Outcome :=
  plus A (addAssignString A str) heap b

/-- `operator[]`, and a byte put there. -/
def set (index : UInt64) (v : UInt8) (heap : Memory) (b : ByteBuffer) : Option Outcome :=
  if b.size ≤ index then some ⟨heap, b, some (.outOfRange "Index out of range")⟩
  else match b.data with
    | none => none
    | some a => (Heap.store heap a index.toNat [v]).map fun heap => ⟨heap, b, none⟩

def resize (A : Allocator) (len : UInt64) (heap : Memory) (b : ByteBuffer) : Option Outcome :=
  (ensureCapacity A len heap b).bind fun o => o.andThen fun heap b => some ⟨heap, {b with size := len}, none⟩

def slice (A : Allocator) (start stop : UInt64) (heap : Memory) (b : ByteBuffer) : Option Outcome :=
  if start > stop || stop > b.size then
    some ⟨heap, {}, some (.outOfRange ("Invalid slice range: [" ++ toString start.toNat ++ ", " ++
      toString stop.toNat ++ ")," ++ " size: " ++ toString b.size.toNat))⟩
  else fromBytes A (b.cdata.add start.toNat) (stop - start) heap

end ByteBuffer

end Fmxp
