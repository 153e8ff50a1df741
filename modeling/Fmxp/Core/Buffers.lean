import Fmxp.Core.Operations
import Fmxp.Library.Transition

/-! Any number of buffers, and any sequence of operations on them.

The buffers have names and share a heap. An operation constructs a buffer under a name nothing has yet, works on
one that exists, or destroys it. It is executed as the code is; `Step` says what it does to lists. -/
namespace Fmxp.Buffers
open Transition ByteBuffer

variable {ν : Type*}

/-- What a pointer argument points at: bytes of the caller's, or those of a buffer from an offset on. -/
inductive Operand (ν : Type*) where
  | memory (bytes : Bytes)
  | buffer (other : ν) (offset : Nat)

/-- The operations. `this` and `other` are the operands, `result` is what the value returned is called. -/
inductive Op (ν : Type*) where
  | empty (this : ν)
  | fromString (this : ν) (str : Bytes)
  | fromChars (this : ν) (data : Operand ν) (len : UInt64)
  | fromBytes (this : ν) (data : Operand ν) (len : UInt64)
  | fromCString (this : ν) (string : Bytes)
  | copy (this other : ν)
  | move (this other : ν)
  | destroy (this : ν)
  | assign (this other : ν)
  | moveAssign (this other : ν)
  | append (this : ν) (data : Operand ν) (len : UInt64)
  | appendString (this : ν) (str : Bytes)
  | clear (this : ν)
  | reserve (this : ν) (cap : UInt64)
  | addAssign (this other : ν)
  | addAssignString (this : ν) (str : Bytes)
  | add (result this other : ν)
  | addString (result this : ν) (str : Bytes)
  | set (this : ν) (index : UInt64) (v : UInt8)
  | resize (this : ν) (len : UInt64)
  | slice (result this : ν) (start stop : UInt64)

/-! ### The code -/

structure State (ν : Type*) where
  heap : Memory
  buffers : ν → Option ByteBuffer

def Operand.pointer (s : State ν) : Operand ν → Option Pointer
  | .memory bytes => some (.memory bytes)
  | .buffer other offset => (s.buffers other).map fun b => b.cdata.add offset

variable [DecidableEq ν]

/-- A buffer that is not there yet. It never is if its constructor throws. -/
def State.construct (s : State ν) (this : ν) (f : Memory → Option Outcome) : Option (Option Thrown × State ν) :=
  if (s.buffers this).isSome then none
  else (f s.heap).map fun o =>
    (o.thrown, ⟨o.heap, Function.update s.buffers this (if o.thrown.isSome then none else some o.this)⟩)

/-- A call on a buffer. -/
def State.call (s : State ν) (this : ν) (f : Memory → ByteBuffer → Option Outcome) :
    Option (Option Thrown × State ν) :=
  (s.buffers this).bind fun b => (f s.heap b).map fun o =>
    (o.thrown, ⟨o.heap, Function.update s.buffers this (some o.this)⟩)

/-- An operation, and what it throws. `this == &other` compares names. -/
def exec (A : Allocator) (s : State ν) : Op ν → Option (Option Thrown × State ν)
  | .empty this => s.construct this fun heap => some ⟨heap, ByteBuffer.empty, none⟩
  | .fromString this str => s.construct this (fromString A str)
  | .fromChars this data len => (data.pointer s).bind fun data => s.construct this (fromChars A data len)
  | .fromBytes this data len => (data.pointer s).bind fun data => s.construct this (fromBytes A data len)
  | .fromCString this string => s.construct this (fromCString A string)
  | .copy this other => (s.buffers other).bind fun other => s.construct this (ByteBuffer.copy A other)
  | .move this other =>
    (s.buffers other).bind fun b =>
      if (s.buffers this).isSome then none
      else some (none, ⟨s.heap, Function.update (Function.update s.buffers this (some (ByteBuffer.move b).1)) other
        (some (ByteBuffer.move b).2)⟩)
  | .destroy this =>
    (s.buffers this).bind fun b => (ByteBuffer.destroy s.heap b).map fun heap =>
      (none, ⟨heap, Function.update s.buffers this none⟩)
  | .assign this other =>
    (s.buffers other).bind fun b => if this = other then some (none, s) else s.call this (ByteBuffer.assign A b)
  | .moveAssign this other =>
    (s.buffers other).bind fun b =>
      if this = other then some (none, s)
      else (s.buffers this).bind fun old => (ByteBuffer.moveAssign b s.heap old).map fun (heap, now, left) =>
        (none, ⟨heap, Function.update (Function.update s.buffers this (some now)) other (some left)⟩)
  | .append this data len => (data.pointer s).bind fun data => s.call this (ByteBuffer.append A data len)
  | .appendString this str => s.call this (ByteBuffer.appendString A str)
  | .clear this => s.call this fun heap b => some ⟨heap, b.clear, none⟩
  | .reserve this cap => s.call this (ByteBuffer.reserve A cap)
  | .addAssign this other => (s.buffers other).bind fun b => s.call this (ByteBuffer.addAssign A b)
  | .addAssignString this str => s.call this (ByteBuffer.addAssignString A str)
  | .add result this other =>
    (s.buffers this).bind fun b => (s.buffers other).bind fun c =>
      s.construct result fun heap => ByteBuffer.add A c heap b
  | .addString result this str =>
    (s.buffers this).bind fun b => s.construct result fun heap => ByteBuffer.addString A str heap b
  | .set this index v => s.call this (ByteBuffer.set index v)
  | .resize this len => s.call this (ByteBuffer.resize A len)
  | .slice result this start stop =>
    (s.buffers this).bind fun b => s.construct result fun heap => ByteBuffer.slice A start stop heap b

/-- An operation that throws the given exception, or none. -/
def next (A : Allocator) (s : State ν) (a : Op ν × Option Thrown) : Option (State ν) :=
  (exec A s a.1).bind fun r => if r.1 = a.2 then some r.2 else none

/-- Nothing is allocated, and there are no buffers. -/
def start : State ν := ⟨fun _ => none, fun _ => none⟩

/-- The operations, in any order, with memory from any allocator. -/
def machine : System (State ν) (Op ν × Option Thrown) where
  init := fun s => s = start
  step := fun s a t => ∃ A, exec A s a.1 = some (a.2, t)

theorem next_step {A : Allocator} {s t : State ν} {a : Op ν × Option Thrown} (h : next A s a = some t) :
    machine.step s a t := by
  obtain ⟨⟨thrown, u⟩, hu, h⟩ := Option.bind_eq_some_iff.mp h
  split at h
  · next heq =>
    cases h
    exact ⟨A, by rw [hu, ← heq]⟩
  · cases h

/-! ### What it is for -/

/-- What the buffers stand for. -/
abbrev Lists (ν : Type*) := ν → Option Bytes

/-- The `len` bytes behind a pointer argument. -/
def Operand.bytes (l : Lists ν) (len : UInt64) : Operand ν → Option Bytes
  | .memory bytes => copyFrom bytes len.toNat
  | .buffer other offset => (l other).bind fun x => copyFrom (x.drop offset) len.toNat

/-- The buffer a pointer argument points into. -/
def Operand.owner : Operand ν → Option ν
  | .memory _ => none
  | .buffer other _ => some other

/-- `this` becomes such a list, unless memory runs out: then every list is what it was. -/
def Makes (l : Lists ν) (this : ν) (P : Bytes → Prop) (thrown : Option Thrown) (l' : Lists ν) : Prop :=
  match thrown with
  | none => ∃ x, P x ∧ l' = Function.update l this (some x)
  | some e => e = .badAlloc ∧ l' = l

/-- What the operations do to the lists. -/
def Step (l : Lists ν) (op : Op ν) (thrown : Option Thrown) (l' : Lists ν) : Prop :=
  match op with
  | .empty this => thrown = none ∧ l' = Function.update l this (some [])
  | .fromString this str => Makes l this (· = str) thrown l'
  | .fromChars this data len | .fromBytes this data len =>
    ∃ y, data.bytes l len = some y ∧ Makes l this (· = y) thrown l'
  | .fromCString this string => Makes l this (· = string.takeWhile (· ≠ 0)) thrown l'
  | .copy this other => ∃ y, l other = some y ∧ Makes l this (· = y) thrown l'
  | .move this other =>
    thrown = none ∧ ∃ y, l other = some y ∧ l' = Function.update (Function.update l this (some y)) other (some [])
  | .destroy this => thrown = none ∧ l' = Function.update l this none
  | .assign this other =>
    ∃ y, l other = some y ∧
      if this = other then thrown = none ∧ l' = l
      -- the target has been cleared by the time memory can run out
      else Makes (Function.update l this (some [])) this (· = y) thrown l'
  | .moveAssign this other =>
    thrown = none ∧ ∃ y, l other = some y ∧
      l' = if this = other then l else Function.update (Function.update l this (some y)) other (some [])
  | .append this data len =>
    ∃ x y, l this = some x ∧ data.bytes l len = some y ∧ Makes l this (· = x ++ y) thrown l'
  | .appendString this str | .addAssignString this str =>
    ∃ x, l this = some x ∧ Makes l this (· = x ++ str) thrown l'
  | .clear this => thrown = none ∧ l' = Function.update l this (some [])
  | .reserve this _ => ∃ x, l this = some x ∧ Makes l this (· = x) thrown l'
  | .addAssign this other =>
    ∃ x y, l this = some x ∧ l other = some y ∧ Makes l this (· = x ++ y) thrown l'
  | .add result this other =>
    ∃ x y, l this = some x ∧ l other = some y ∧ Makes l result (· = x ++ y) thrown l'
  | .addString result this str => ∃ x, l this = some x ∧ Makes l result (· = x ++ str) thrown l'
  | .set this index v =>
    ∃ x, l this = some x ∧
      if index.toNat < x.length then
        thrown = none ∧ l' = Function.update l this (some (x.set index.toNat v))
      else thrown = some (.outOfRange "Index out of range") ∧ l' = l
  | .resize this len =>
    ∃ x, l this = some x ∧
      Makes l this (fun z => z.length = len.toNat ∧ z.take x.length = x.take z.length) thrown l'
  | .slice result this start stop =>
    ∃ x, l this = some x ∧
      match Fmxp.slice x start.toNat stop.toNat with
      | .ok y => Makes l result (· = y) thrown l'
      | .error e => ∃ what, e = .outOfRange what ∧ thrown = some (.outOfRange what) ∧ l' = l

def spec : System (Lists ν) (Op ν × Option Thrown) where
  init := fun l => l = fun _ => none
  step := fun l a l' => Step l a.1 a.2 l'

/-- What a caller has to see to: buffers that exist, or do not yet; pointers with enough bytes behind them, which
are not in the buffer they are appended to; no size and no capacity over 2^63. -/
def Legal (l : Lists ν) : Op ν → Prop
  | .empty this => l this = none
  | .fromString this str => l this = none ∧ str.length ≤ 2 ^ 63
  | .fromChars this data len | .fromBytes this data len =>
    l this = none ∧ (data.bytes l len).isSome ∧ len.toNat ≤ 2 ^ 63
  | .fromCString this string => l this = none ∧ 0 ∈ string ∧ (string.takeWhile (· ≠ 0)).length ≤ 2 ^ 63
  | .copy this other | .move this other => l this = none ∧ (l other).isSome
  | .destroy this | .clear this | .set this _ _ => (l this).isSome
  | .assign this other | .moveAssign this other => (l this).isSome ∧ (l other).isSome
  | .append this data len =>
    (∃ x ∈ l this, x.length + len.toNat ≤ 2 ^ 63) ∧ (data.bytes l len).isSome ∧ data.owner ≠ some this
  | .appendString this str | .addAssignString this str => ∃ x ∈ l this, x.length + str.length ≤ 2 ^ 63
  | .reserve this cap => (l this).isSome ∧ cap.toNat ≤ 2 ^ 63
  | .addAssign this other => this ≠ other ∧ ∃ x ∈ l this, ∃ y ∈ l other, x.length + y.length ≤ 2 ^ 63
  | .add result this other => l result = none ∧ ∃ x ∈ l this, ∃ y ∈ l other, x.length + y.length ≤ 2 ^ 63
  | .addString result this str => l result = none ∧ ∃ x ∈ l this, x.length + str.length ≤ 2 ^ 63
  | .resize this len => (l this).isSome ∧ len.toNat ≤ 2 ^ 63
  | .slice result this _ _ => l result = none ∧ (l this).isSome

instance (l : Lists ν) (op : Op ν) : Decidable (Legal l op) := by
  cases op <;> unfold Legal <;> infer_instance

/-- What the buffers of a state stand for. -/
def lists (s : State ν) : Lists ν := fun i => (s.buffers i).map (bytes s.heap)

end Fmxp.Buffers
