import Fmxp.Core.Progress
import Fmxp.Library.Program

/-! Functions that work with buffers, as programs.

A function of the codec constructs buffers, calls their operations, reads and writes through their
pointers, and destroys its locals however it is left. `On` says of a state that its buffers are in order
and what they stand for; the rules say what each kind of step makes of that. -/
namespace Fmxp.Buffers
open Programs ByteBuffer
open Heap (Reseats)

variable {ν : Type} [DecidableEq ν]

/-- What leaves a function that works with buffers: an exception of its own, or of a buffer. -/
inductive Failure where
  | exn (e : Exn)
  | buffer (e : Thrown)
  deriving DecidableEq, Repr

abbrev Call (ν α : Type) := Program (State ν) Failure α

/-- An operation on buffers. -/
def run (A : Allocator) (op : Op ν) : Call ν Unit :=
  call fun s => (exec A s op).map fun (thrown, t) => (thrown.map .buffer, t)

/-- The destructor of a buffer. -/
def destroyed (A : Allocator) (this : ν) (s : State ν) : Option (State ν) :=
  (exec A s (.destroy this)).map Prod.snd

/-- A local buffer, and the scope it is in. -/
def scope {α : Type} (A : Allocator) (this : ν) (constructor : Op ν) (body : Call ν α) : Call ν α := do
  run A constructor
  always body (destroyed A this)

/-- A local buffer that the function returns. -/
def returned {α : Type} (A : Allocator) (this : ν) (constructor : Op ν) (body : Call ν α) : Call ν α := do
  run A constructor
  onThrow body (destroyed A this)

omit [DecidableEq ν] in
/-- `size()` -/
def size (this : ν) : Call ν UInt64 := read fun s => (s.buffers this).map ByteBuffer.size

omit [DecidableEq ν] in
/-- `n` bytes behind `cdata()`, from an offset on. -/
def State.peek (this : ν) (offset n : Nat) (s : State ν) : Option Bytes :=
  (s.buffers this).bind fun b => if n = 0 then some [] else (b.cdata.add offset).read s.heap n

omit [DecidableEq ν] in
/-- What is read of them. -/
def peekAs {α : Type} (f : Bytes → Option α) (this : ν) (offset n : Nat) : Call ν α :=
  read fun s => (s.peek this offset n).bind f

omit [DecidableEq ν] in
def peek (this : ν) (offset n : Nat) : Call ν Bytes := peekAs some this offset n

omit [DecidableEq ν] in
/-- Bytes written through `data()`. -/
def poke (this : ν) (cells : Bytes) : Call ν Unit := call fun s =>
  (s.buffers this).bind fun b =>
    if cells = [] then some (none, s)
    else b.data.bind fun a => (Heap.store s.heap a 0 cells).map fun heap => (none, {s with heap := heap})

/-- The buffers are in order, and `P` holds of what they stand for. -/
def On (P : Lists ν → Prop) (s : State ν) : Prop := Inv s ∧ P (lists s)

variable {A : Allocator} {P P' : Lists ν → Prop} {α : Type} {this other : ν} {l : Lists ν} {x y : Bytes}

omit [DecidableEq ν] in
/-- What is known besides the lists is known throughout. -/
theorem on_given {H : Prop} {p : Call ν α} {Q : α → State ν → Prop} {E : Failure → State ν → Prop}
    (h : H → Triple (On (· = l)) p Q E) : Triple (On fun l' => H ∧ l' = l) p Q E := by
  rintro s ⟨hinv, hgiven, hlists⟩
  exact h hgiven s ⟨hinv, hlists⟩

omit [DecidableEq ν] in
theorem on_some {ι : Type} {P : ι → Lists ν → Prop} {p : Call ν α} {Q : α → State ν → Prop}
    {E : Failure → State ν → Prop} (h : ∀ i, Triple (On (P i)) p Q E) : Triple (On fun l' => ∃ i, P i l') p Q E := by
  rintro s ⟨hinv, i, hp⟩
  exact h i s ⟨hinv, hp⟩

omit [DecidableEq ν] in
/-- What a rule says of a state. -/
theorem outcome {s : State ν} {p : Call ν α} {Q : α → Lists ν → Prop} {E : Failure → Lists ν → Prop}
    (h : Triple (On (· = lists s)) p (fun a => On (Q a)) (fun e => On (E e))) (hs : Inv s) :
    ∃ t, Inv t ∧ ((∃ a, p s = some (.ok a, t) ∧ Q a (lists t)) ∨ ∃ e, p s = some (.error e, t) ∧ E e (lists t)) := by
  rcases h s ⟨hs, rfl⟩ with ⟨a, t, ht, hinv, hq⟩ | ⟨e, t, ht, hinv, he⟩
  · exact ⟨t, hinv, .inl ⟨a, ht, hq⟩⟩
  · exact ⟨t, hinv, .inr ⟨e, ht, he⟩⟩

/-! ### Operations -/

theorem run_triple {op : Op ν} {Q : Lists ν → Prop} {E : Failure → Lists ν → Prop}
    (hlegal : ∀ l, P l → Legal l op) (hreturned : ∀ l l', P l → Step l op none l' → Q l')
    (hthrew : ∀ l e l', P l → Step l op (some e) l' → E (.buffer e) l') :
    Triple (On P) (run A op) (fun _ => On Q) (fun e => On (E e)) := by
  apply Triple.call
  rintro s ⟨hinv, hp⟩
  obtain ⟨⟨thrown, t⟩, ht⟩ := Option.isSome_iff_exists.mp (exec_isSome A hinv (hlegal _ hp))
  have hstep := exec_step hinv (hlegal _ hp) ht
  have hinv' := exec_inv hinv ht
  refine ⟨thrown.map .buffer, t, by rw [ht]; rfl, fun hnone => ?_, fun e hsome => ?_⟩
  · rw [Option.map_eq_none_iff] at hnone
    subst hnone
    exact ⟨hinv', hreturned _ _ hp hstep⟩
  · obtain ⟨thrown', rfl, rfl⟩ := Option.map_eq_some_iff.mp hsome
    exact ⟨hinv', hthrew _ _ _ hp hstep⟩

/-- An operation that makes a list of a buffer, or runs out of memory and changes nothing. -/
theorem run_makes {op : Op ν} {G : Bytes → Prop} {E : Failure → Lists ν → Prop} (hlegal : Legal l op)
    (hstep : ∀ thrown l', Step l op thrown l' → Makes l this G thrown l') (hthrew : E (.buffer .badAlloc) l) :
    Triple (On (· = l)) (run A op) (fun _ => On fun l' => ∃ x, G x ∧ l' = Function.update l this (some x))
      (fun e => On (E e)) := by
  refine run_triple (by rintro _ rfl; exact hlegal) ?_ ?_
  · rintro _ l' rfl hmade
    exact hstep none l' hmade
  · rintro _ e l' rfl hmade
    obtain ⟨rfl, rfl⟩ := hstep (some e) l' hmade
    exact hthrew

/-- One that makes just one list. -/
theorem run_gives {op : Op ν} {E : Failure → Lists ν → Prop} (hlegal : Legal l op)
    (hstep : ∀ thrown l', Step l op thrown l' → Makes l this (· = x) thrown l') (hthrew : E (.buffer .badAlloc) l) :
    Triple (On (· = l)) (run A op) (fun _ => On (· = Function.update l this (some x))) (fun e => On (E e)) := by
  refine (run_makes hlegal hstep hthrew).weaken (fun _ hs => hs) ?_ (fun _ _ hs => hs)
  rintro _ s ⟨hinv, _, rfl, hlists⟩
  exact ⟨hinv, hlists⟩

/-- One that throws nothing. -/
theorem run_sets {op : Op ν} {l' : Lists ν} {E : Failure → Lists ν → Prop} (hlegal : Legal l op)
    (hstep : ∀ thrown m, Step l op thrown m → thrown = none ∧ m = l') :
    Triple (On (· = l)) (run A op) (fun _ => On (· = l')) (fun e => On (E e)) := by
  refine run_triple (by rintro _ rfl; exact hlegal) ?_ ?_
  · rintro _ m rfl hset
    exact (hstep none m hset).2
  · rintro _ e m rfl hset
    cases (hstep (some e) m hset).1

section
variable {E : Failure → Lists ν → Prop} {len : UInt64}

theorem empty_triple (hnew : l this = none) :
    Triple (On (· = l)) (run A (.empty this)) (fun _ => On (· = Function.update l this (some []))) (fun e => On (E e)) :=
  run_sets hnew fun _ _ h => h

theorem addAssignString_triple {str : Bytes} (hx : l this = some x) (hroom : x.length + str.length ≤ 2 ^ 63)
    (hthrew : E (.buffer .badAlloc) l) :
    Triple (On (· = l)) (run A (.addAssignString this str))
      (fun _ => On (· = Function.update l this (some (x ++ str)))) (fun e => On (E e)) := by
  refine run_gives ⟨x, hx, hroom⟩ ?_ hthrew
  rintro thrown l' ⟨x', hx', hmade⟩
  cases hx.symm.trans hx'
  exact hmade

theorem addAssign_triple (hne : this ≠ other) (hx : l this = some x) (hy : l other = some y)
    (hroom : x.length + y.length ≤ 2 ^ 63) (hthrew : E (.buffer .badAlloc) l) :
    Triple (On (· = l)) (run A (.addAssign this other))
      (fun _ => On (· = Function.update l this (some (x ++ y)))) (fun e => On (E e)) := by
  refine run_gives ⟨hne, x, hx, y, hy, hroom⟩ ?_ hthrew
  rintro thrown l' ⟨x', y', hx', hy', hmade⟩
  cases hx.symm.trans hx'
  cases hy.symm.trans hy'
  exact hmade

theorem append_triple {data : Operand ν} (hx : l this = some x) (hy : data.bytes l len = some y)
    (howner : data.owner ≠ some this) (hroom : x.length + len.toNat ≤ 2 ^ 63) (hthrew : E (.buffer .badAlloc) l) :
    Triple (On (· = l)) (run A (.append this data len))
      (fun _ => On (· = Function.update l this (some (x ++ y)))) (fun e => On (E e)) := by
  refine run_gives ⟨⟨x, hx, hroom⟩, by rw [hy]; rfl, howner⟩ ?_ hthrew
  rintro thrown l' ⟨x', y', hx', hy', hmade⟩
  cases hx.symm.trans hx'
  cases hy.symm.trans hy'
  exact hmade

theorem fromBytes_triple {data : Operand ν} (hnew : l this = none) (hy : data.bytes l len = some y)
    (hroom : len.toNat ≤ 2 ^ 63) (hthrew : E (.buffer .badAlloc) l) :
    Triple (On (· = l)) (run A (.fromBytes this data len))
      (fun _ => On (· = Function.update l this (some y))) (fun e => On (E e)) := by
  refine run_gives ⟨hnew, by rw [hy]; rfl, hroom⟩ ?_ hthrew
  rintro thrown l' ⟨y', hy', hmade⟩
  cases hy.symm.trans hy'
  exact hmade

theorem fromChars_triple {data : Operand ν} (hnew : l this = none) (hy : data.bytes l len = some y)
    (hroom : len.toNat ≤ 2 ^ 63) (hthrew : E (.buffer .badAlloc) l) :
    Triple (On (· = l)) (run A (.fromChars this data len))
      (fun _ => On (· = Function.update l this (some y))) (fun e => On (E e)) := by
  refine run_gives ⟨hnew, by rw [hy]; rfl, hroom⟩ ?_ hthrew
  rintro thrown l' ⟨y', hy', hmade⟩
  cases hy.symm.trans hy'
  exact hmade

theorem moveAssign_triple (hne : this ≠ other) (hx : l this = some x) (hy : l other = some y) :
    Triple (On (· = l)) (run A (.moveAssign this other))
      (fun _ => On (· = Function.update (Function.update l this (some y)) other (some []))) (fun e => On (E e)) := by
  refine run_sets ⟨by rw [hx]; rfl, by rw [hy]; rfl⟩ ?_
  rintro thrown m ⟨hnone, y', hy', hm⟩
  cases hy.symm.trans hy'
  rw [if_neg hne] at hm
  exact ⟨hnone, hm⟩

theorem reserve_triple (hx : l this = some x) (hroom : len.toNat ≤ 2 ^ 63) (hthrew : E (.buffer .badAlloc) l) :
    Triple (On (· = l)) (run A (.reserve this len)) (fun _ => On (· = l)) (fun e => On (E e)) := by
  have hsame : Function.update l this (some x) = l := by rw [← hx, Function.update_eq_self]
  have hgives : Triple (On (· = l)) (run A (.reserve this len))
      (fun _ => On (· = Function.update l this (some x))) (fun e => On (E e)) := by
    refine run_gives ⟨by rw [hx]; rfl, hroom⟩ ?_ hthrew
    rintro thrown l' ⟨x', hx', hmade⟩
    cases hx.symm.trans hx'
    exact hmade
  rwa [hsame] at hgives

/-- What is new in a buffer that becomes longer may be anything. -/
theorem resize_triple (hx : l this = some x) (hroom : len.toNat ≤ 2 ^ 63) (hthrew : E (.buffer .badAlloc) l) :
    Triple (On (· = l)) (run A (.resize this len))
      (fun _ => On fun l' => ∃ z : Bytes, (z.length = len.toNat ∧ z.take x.length = x.take z.length) ∧
        l' = Function.update l this (some z)) (fun e => On (E e)) := by
  refine run_makes ⟨by rw [hx]; rfl, hroom⟩ ?_ hthrew
  rintro thrown l' ⟨x', hx', hmade⟩
  cases hx.symm.trans hx'
  exact hmade

end

/-! ### Scopes -/

theorem destroyed_spec {s : State ν} (h : On P s) (hthis : ∀ l, P l → (l this).isSome)
    (hpost : ∀ l, P l → P' (Function.update l this none)) : ∃ t, destroyed A this s = some t ∧ On P' t := by
  obtain ⟨hinv, hp⟩ := h
  have hlegal : Legal (lists s) (.destroy this) := hthis _ hp
  obtain ⟨⟨thrown, t⟩, ht⟩ := Option.isSome_iff_exists.mp (exec_isSome A hinv hlegal)
  obtain ⟨-, hlists⟩ := exec_step hinv hlegal ht
  exact ⟨t, by rw [destroyed, ht]; rfl, exec_inv hinv ht, hlists ▸ hpost _ hp⟩

section
variable {constructor : Op ν} {body : Call ν α} {M : Lists ν → Prop} {Q Q' : α → Lists ν → Prop}
  {E E' : Failure → Lists ν → Prop}

/-- The local is there at the end of the body, both ways, and gone at the end of the scope. -/
theorem scope_triple (hconstructor : Triple (On P) (run A constructor) (fun _ => On M) (fun e => On (E' e)))
    (hbody : Triple (On M) body (fun a => On (Q a)) (fun e => On (E e)))
    (hthis : ∀ a l, Q a l → (l this).isSome) (hpost : ∀ a l, Q a l → Q' a (Function.update l this none))
    (hthis' : ∀ e l, E e l → (l this).isSome) (hthrown : ∀ e l, E e l → E' e (Function.update l this none)) :
    Triple (On P) (scope A this constructor body) (fun a => On (Q' a)) (fun e => On (E' e)) := by
  refine hconstructor.seq (hbody.always ?_ ?_)
  · exact fun a s hs => destroyed_spec hs (hthis a) (hpost a)
  · exact fun e s hs => destroyed_spec hs (hthis' e) (hthrown e)

theorem returned_triple (hconstructor : Triple (On P) (run A constructor) (fun _ => On M) (fun e => On (E' e)))
    (hbody : Triple (On M) body (fun a => On (Q a)) (fun e => On (E e)))
    (hthis' : ∀ e l, E e l → (l this).isSome) (hthrown : ∀ e l, E e l → E' e (Function.update l this none)) :
    Triple (On P) (returned A this constructor body) (fun a => On (Q a)) (fun e => On (E' e)) :=
  hconstructor.seq (hbody.onThrow fun e _ hs => destroyed_spec hs (hthis' e) (hthrown e))

end

/-! ### Pointers -/

section
variable {E : Failure → State ν → Prop}

omit [DecidableEq ν]

theorem size_triple (hx : l this = some x) :
    Triple (On (· = l)) (size this) (fun n => On fun l' => n.toNat = x.length ∧ l' = l) E := by
  apply Triple.read
  rintro s ⟨hinv, rfl⟩
  obtain ⟨b, hb, rfl⟩ := lists_eq_some hx
  exact ⟨b.size, by rw [hb]; rfl, hinv, hinv.size_eq hb, rfl⟩

theorem peek_spec {s : State ν} {offset n : Nat} (hinv : Inv s) (hx : lists s this = some x)
    (hle : offset + n ≤ x.length) : s.peek this offset n = some ((x.drop offset).take n) := by
  obtain ⟨b, hb, rfl⟩ := lists_eq_some hx
  have hvalid := hinv.valid this b hb
  rw [State.peek, hb, Option.bind_some]
  split
  · next hzero => rw [hzero, List.take_zero]
  · next hpos =>
    have hsize := hvalid.size_le_max
    rw [hvalid.length_bytes] at hle
    have hlt : n < 2 ^ 64 := by omega
    have hn : (UInt64.ofNat n).toNat = n := UInt64.toNat_ofNat_of_lt' hlt
    have hy : copyFrom ((b.bytes s.heap).drop offset) (UInt64.ofNat n).toNat =
        some (((b.bytes s.heap).drop offset).take n) := by
      rw [hn]
      exact copyFrom_eq_some.mpr ⟨by rw [List.length_drop, hvalid.length_bytes]; omega, rfl⟩
    have hread := hvalid.readable_part (b := {}) (fun _ _ hc => by cases hc) hy
    have hcells := hread.read fun hz => hpos (by rw [← hn, hz]; rfl)
    rw [hn] at hcells
    exact hcells

theorem peekAs_triple {f : Bytes → Option α} {a : α} {offset n : Nat} (hx : l this = some x)
    (hle : offset + n ≤ x.length) (hf : f ((x.drop offset).take n) = some a) :
    Triple (On (· = l)) (peekAs f this offset n) (fun a' => On fun l' => a' = a ∧ l' = l) E := by
  apply Triple.read
  rintro s ⟨hinv, rfl⟩
  exact ⟨a, by rw [peek_spec hinv hx hle, Option.bind_some, hf], hinv, rfl, rfl⟩

theorem peek_triple {offset n : Nat} (hx : l this = some x) (hle : offset + n ≤ x.length) :
    Triple (On (· = l)) (peek this offset n)
      (fun cells => On fun l' => cells = (x.drop offset).take n ∧ l' = l) E :=
  peekAs_triple hx hle rfl

end

theorem poke_triple {cells : Bytes} {E : Failure → State ν → Prop} (hx : l this = some x)
    (hle : cells.length ≤ x.length) :
    Triple (On (· = l)) (poke this cells)
      (fun _ => On (· = Function.update l this (some (cells ++ x.drop cells.length)))) E := by
  apply Triple.call
  rintro s ⟨hinv, rfl⟩
  obtain ⟨b, hb, rfl⟩ := lists_eq_some hx
  have hvalid := hinv.valid this b hb
  rw [hb, Option.bind_some]
  split
  · next hnil =>
    refine ⟨none, s, rfl, fun _ => ⟨hinv, ?_⟩, fun _ hc => by cases hc⟩
    rw [hnil, List.nil_append, List.length_nil, List.drop_zero, ← hx, Function.update_eq_self]
  · next hne =>
    have hpos : 0 < cells.length := List.length_pos_iff.mpr hne
    have hsize := hvalid.size_le
    rw [hvalid.length_bytes] at hle
    obtain ⟨a, block, ha, hblock, hlength⟩ := hvalid.data_of_capacity (by omega)
    have hfits : 0 + cells.length ≤ block.length := by omega
    have hstore := Heap.store_eq_some.mpr ⟨block, hblock, hfits, rfl⟩
    let heap' := Function.update s.heap a (some (Heap.splice block 0 cells))
    have hstorage : b.storage heap' = Heap.splice block 0 cells := storage_of_block ha (Function.update_self ..)
    have hreseats : Reseats s.heap (held s.buffers this) heap' b.data := by
      rw [held_of_buffer hb, ha]
      exact .rewrite _
    have hvalid' : Valid heap' b := by
      refine ⟨hvalid.size_le, ?_, fun c hc => ?_, hvalid.grown⟩
      · rw [hstorage, Heap.length_splice hfits, hlength]
      · exact hreseats.allocated c hc
    have hput := hinv.put (i := this) (x := some b) hreseats (fun c hc => by cases hc; exact hvalid')
    have hsame : Function.update s.buffers this (some b) = s.buffers := by rw [← hb, Function.update_eq_self]
    rw [hsame] at hput
    refine ⟨none, {s with heap := heap'}, ?_, fun _ => ⟨hput.1, hput.2.trans ?_⟩, fun _ hc => by cases hc⟩
    · rw [ha, Option.bind_some, hstore]
      rfl
    · have hbytes : b.bytes heap' = cells ++ (b.bytes s.heap).drop cells.length := by
        rw [bytes, hstorage, Heap.splice, List.take_zero, List.nil_append, Nat.zero_add, bytes,
          storage_of_block ha hblock, List.drop_take, List.take_append, List.take_of_length_le hle]
      rw [Option.map_some, hbytes]

end Fmxp.Buffers
