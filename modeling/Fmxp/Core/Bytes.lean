import Mathlib.Data.List.Basic

/-! Byte buffers, as the code above them sees them, and what can be thrown.

A `ByteBuffer` is the list of its first `_size` bytes. A read through a raw
pointer is a read of the list from that point on; it yields nothing when it would
leave the buffer, which no caller checks, so such a read is kept apart
(`Exn.wildRead`) from every exception the code throws. -/
namespace Fmxp

abbrev Bytes := List UInt8

/-- A block of exactly `n` bytes: an IV, a tag. -/
abbrev Block (n : Nat) := { b : Bytes // b.length = n }

/-- The bytes of an ASCII literal. -/
def ascii (cs : List Char) : Bytes := cs.map fun c => UInt8.ofNat c.toNat

def ERR_INVALID_FRAME : UInt8 := 1
def ERR_ENCRYPTION : UInt8 := 3
def ERR_CONNECTION : UInt8 := 5

/-- `std::runtime_error`. -/
structure RuntimeError where
  what : String
  deriving DecidableEq, Repr

structure FMXPException where
  code : UInt8
  msg : String
  deriving DecidableEq, Repr

/-- Everything that can leave a call: the library's own exception, the standard
ones, and a read outside a buffer, which is undefined behaviour. -/
inductive Exn where
  | fmxp (e : FMXPException)
  | runtime (e : RuntimeError)
  | system (what : String)
  | outOfRange (what : String)
  | badOptionalAccess
  | wildRead
  deriving DecidableEq, Repr

/-- `throwErr` raises a `runtime_error`, not an `FMXPException`. -/
def throwErr (code : UInt8) (msg : String) : RuntimeError :=
  ⟨"(" ++ toString code.toNat ++ ") " ++ msg⟩

/-- `ByteBuffer::slice`: the bytes `[start, stop)`. -/
def slice (b : Bytes) (start stop : Nat) : Except Exn Bytes :=
  if start > stop || stop > b.length then
    .error (.outOfRange ("Invalid slice range: [" ++ toString start ++ ", " ++ toString stop ++
      ")," ++ " size: " ++ toString b.length))
  else .ok ((b.drop start).take (stop - start))

theorem slice_zero {b : Bytes} {stop : Nat} (h : stop ≤ b.length) :
    slice b 0 stop = .ok (b.take stop) := by
  simp [slice, h]

theorem slice_suffix {b : Bytes} {start : Nat} (h : start ≤ b.length) :
    slice b start b.length = .ok (b.drop start) := by
  have htake : (b.drop start).take (b.length - start) = b.drop start :=
    List.take_of_length_le (by simp)
  simp [slice, h, htake]

/-- The `len` bytes behind a pointer. -/
def copyFrom (p : Bytes) (len : Nat) : Option Bytes :=
  if len ≤ p.length then some (p.take len) else none

theorem copyFrom_of_le {p : Bytes} {len : Nat} (h : len ≤ p.length) :
    copyFrom p len = some (p.take len) := by
  simp [copyFrom, h]

/-- The outcome of a raw read. -/
def deref (r : Option α) : Except Exn α :=
  match r with
  | some a => .ok a
  | none => .error .wildRead

end Fmxp
