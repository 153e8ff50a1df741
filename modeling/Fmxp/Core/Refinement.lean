import Fmxp.Core.Buffers

/-! The buffers refine lists of bytes. -/
namespace Fmxp.Buffers
open Transition ByteBuffer
open Heap (Exclusive Reseats)

variable {ν : Type*}

/-- The block each buffer has. -/
def held (buffers : ν → Option ByteBuffer) (i : ν) : Option Addr := (buffers i).bind ByteBuffer.data

/-- Every block on the heap is the storage of one buffer, and every buffer is in order. -/
structure Inv (s : State ν) : Prop where
  exclusive : Exclusive s.heap (held s.buffers)
  valid : ∀ i b, s.buffers i = some b → Valid s.heap b

theorem Inv.start : Inv (start : State ν) := ⟨.empty, fun _ _ h => by cases h⟩

variable {A : Allocator} {s t : State ν} {i j this other : ν} {b c : ByteBuffer} {thrown : Option Thrown}
  {heap' : Memory} {y : Bytes} {len : UInt64}

theorem held_of_buffer (h : s.buffers i = some b) : held s.buffers i = b.data := by
  rw [held, h, Option.bind_some]

theorem held_of_none (h : s.buffers i = none) : held s.buffers i = none := by
  rw [held, h, Option.bind_none]

theorem lists_of_buffer (h : s.buffers i = some b) : lists s i = some (b.bytes s.heap) := by
  rw [lists, h, Option.map_some]

theorem lists_eq_none : lists s i = none ↔ s.buffers i = none := Option.map_eq_none_iff

theorem lists_eq_some (h : lists s i = some y) : ∃ b, s.buffers i = some b ∧ b.bytes s.heap = y :=
  Option.map_eq_some_iff.mp h

/-- Two buffers do not share their storage. -/
theorem Inv.apart (h : Inv s) (hi : s.buffers i = some b) (hj : s.buffers j = some c) (hij : i ≠ j) (a : Addr)
    (ha : b.data = some a) : c.data ≠ some a := by
  intro hc
  exact hij (h.exclusive.single i j a ((held_of_buffer hi).trans ha) ((held_of_buffer hj).trans hc))

variable [DecidableEq ν]

theorem held_update (buffers : ν → Option ByteBuffer) (i : ν) (x : Option ByteBuffer) :
    held (Function.update buffers i x) = Function.update (held buffers) i (x.bind ByteBuffer.data) := by
  funext j
  by_cases hji : j = i
  · subst hji
    simp only [held, Function.update_self]
  · simp only [held, Function.update_of_ne hji]

/-- **Frame**: an operation on one buffer, which touches no storage but that one's, changes no other list. -/
theorem Inv.put {x : Option ByteBuffer} (h : Inv s)
    (hreseats : Reseats s.heap (held s.buffers i) heap' (x.bind ByteBuffer.data))
    (hvalid : ∀ b, x = some b → Valid heap' b) :
    Inv ⟨heap', Function.update s.buffers i x⟩ ∧
      lists ⟨heap', Function.update s.buffers i x⟩ = Function.update (lists s) i (x.map (bytes heap')) := by
  have hkept : ∀ j c, j ≠ i → s.buffers j = some c → ∀ a, c.data = some a → heap' a = s.heap a :=
    fun j c hji hc a ha => (h.exclusive.frame hreseats hji ((held_of_buffer hc).trans ha)).2
  refine ⟨⟨?_, fun j c hj => ?_⟩, ?_⟩
  · rw [held_update]
    exact h.exclusive.reseat hreseats
  · by_cases hji : j = i
    · subst hji
      simp only [Function.update_self] at hj
      exact hvalid c hj
    · simp only [Function.update_of_ne hji] at hj
      exact (h.valid j c hj).congr (hkept j c hji hj)
  · funext j
    by_cases hji : j = i
    · subst hji
      simp only [lists, Function.update_self]
    · simp only [lists, Function.update_of_ne hji]
      cases hj : s.buffers j with
      | none => rfl
      | some c => simp only [Option.map_some, bytes_congr (hkept j c hji hj)]

/-- Storage changes hands. -/
theorem Inv.hand (h : Inv s) (hi : s.buffers i = none) (hj : s.buffers j = some b) :
    Inv ⟨s.heap, Function.update (Function.update s.buffers i (some (move b).1)) j (some (move b).2)⟩ ∧
      lists ⟨s.heap, Function.update (Function.update s.buffers i (some (move b).1)) j (some (move b).2)⟩ =
        Function.update (Function.update (lists s) i (some (b.bytes s.heap))) j (some []) := by
  have hij : i ≠ j := by
    rintro rfl
    rw [hi] at hj
    cases hj
  have hheld : held (Function.update (Function.update s.buffers i (some (move b).1)) j (some (move b).2)) =
      Heap.handed (held s.buffers) i j := by
    rw [held_update, held_update, Heap.handed, held_of_buffer hj]
    rfl
  refine ⟨⟨?_, fun k c hk => ?_⟩, ?_⟩
  · rw [hheld]
    exact h.exclusive.transfer (held_of_none hi) hij
  · by_cases hkj : k = j
    · subst hkj
      simp only [Function.update_self] at hk
      cases hk
      exact .empty
    · by_cases hki : k = i
      · subst hki
        simp only [Function.update_of_ne hkj, Function.update_self] at hk
        cases hk
        exact h.valid j b hj
      · simp only [Function.update_of_ne hkj, Function.update_of_ne hki] at hk
        exact h.valid k c hk
  · funext k
    by_cases hkj : k = j
    · subst hkj
      simp only [lists, Function.update_self]
      rfl
    · by_cases hki : k = i
      · subst hki
        simp only [lists, Function.update_of_ne hkj, Function.update_self]
        rfl
      · simp only [lists, Function.update_of_ne hkj, Function.update_of_ne hki]

/-- The storage of one buffer is given back, and that of another takes its place. -/
theorem Inv.handOver (h : Inv s) (hb : s.buffers this = some b) (hc : s.buffers other = some c) (hne : this ≠ other)
    (hrelease : Heap.release s.heap b.data = some heap') :
    Inv ⟨heap', Function.update (Function.update s.buffers this (some (move c).1)) other (some (move c).2)⟩ ∧
      lists ⟨heap', Function.update (Function.update s.buffers this (some (move c).1)) other (some (move c).2)⟩ =
        Function.update (Function.update (lists s) this (some (c.bytes s.heap))) other (some []) := by
  have hreseats : Reseats s.heap (held s.buffers this) heap' none := by
    rw [held_of_buffer hb]
    exact .release hrelease
  obtain ⟨hinv, hlists⟩ := h.put (x := none) hreseats (fun _ hx => by cases hx)
  have hother : Function.update s.buffers this none other = some c := by
    rw [Function.update_of_ne (Ne.symm hne), hc]
  have hbytes : c.bytes heap' = c.bytes s.heap := by
    have hsame := congrFun hlists other
    rw [Function.update_of_ne (Ne.symm hne), lists_of_buffer hc,
      lists_of_buffer (s := ⟨heap', Function.update s.buffers this none⟩) hother] at hsame
    exact Option.some.inj hsame
  have hhand := hinv.hand (i := this) (Function.update_self ..) hother
  simp only [Function.update_idem, hlists, hbytes] at hhand
  exact hhand

/-! ### Constructions and calls -/

/-- A construction, by what the constructor does. -/
theorem construct_spec {f : Memory → Option Outcome} (h : Inv s) (hkeeps : ∀ o, f s.heap = some o → Keeps s.heap {} o)
    (he : s.construct this f = some (thrown, t)) :
    Inv t ∧ ∃ o, f s.heap = some o ∧ thrown = o.thrown ∧
      lists t = if o.thrown = none then Function.update (lists s) this (some (o.this.bytes o.heap)) else lists s := by
  unfold State.construct at he
  split at he
  · cases he
  · next hnew =>
    rw [Option.not_isSome_iff_eq_none] at hnew
    obtain ⟨o, ho, heq⟩ := Option.map_eq_some_iff.mp he
    cases heq
    have hk := hkeeps o ho
    have hreseats := hk.reseats
    by_cases hthrown : o.thrown = none
    · have hmade : (if o.thrown.isSome then none else some o.this) = some o.this := by
        rw [hthrown]
        rfl
      have hput := h.put (i := this) (x := some o.this) (by rw [held_of_none hnew]; exact hreseats)
        (fun b hb => by cases hb; exact hk.valid)
      rw [hmade]
      exact ⟨hput.1, o, ho, rfl, by rw [if_pos hthrown]; exact hput.2⟩
    · have hmade : (if o.thrown.isSome then none else some o.this) = none :=
        if_pos (Option.isSome_iff_ne_none.mpr hthrown)
      have hgone : o.this.data = none := by rw [hk.threw hthrown]
      rw [hgone] at hreseats
      have hput := h.put (i := this) (x := none) (by rw [held_of_none hnew]; exact hreseats)
        (fun b hb => by cases hb)
      have hsame : Function.update (lists s) this none = lists s := by
        rw [← lists_eq_none.mpr hnew, Function.update_eq_self]
      rw [hmade]
      exact ⟨hput.1, o, ho, rfl, by rw [if_neg hthrown]; exact hput.2.trans hsame⟩

/-- A call, by what the operation does. -/
theorem call_spec {f : Memory → ByteBuffer → Option Outcome} (h : Inv s)
    (hkeeps : ∀ b o, Valid s.heap b → f s.heap b = some o → ∃ b', b'.data = b.data ∧ Keeps s.heap b' o)
    (he : s.call this f = some (thrown, t)) :
    Inv t ∧ ∃ b o, s.buffers this = some b ∧ f s.heap b = some o ∧ thrown = o.thrown ∧
      lists t = Function.update (lists s) this (some (o.this.bytes o.heap)) := by
  obtain ⟨b, hb, he⟩ := Option.bind_eq_some_iff.mp he
  obtain ⟨o, ho, heq⟩ := Option.map_eq_some_iff.mp he
  cases heq
  obtain ⟨b', hdata, hk⟩ := hkeeps b o (h.valid this b hb) ho
  have hreseats := hk.reseats
  rw [hdata, ← held_of_buffer hb] at hreseats
  have hput := h.put (x := some o.this) hreseats (fun c hc => by cases hc; exact hk.valid)
  exact ⟨hput.1, b, o, hb, ho, rfl, hput.2⟩

theorem construct_makes {f : Memory → Option Outcome} {P : Bytes → Prop} (h : Inv s)
    (hkeeps : ∀ o, f s.heap = some o → Keeps s.heap {} o) (hgives : ∀ o, f s.heap = some o → Gives s.heap {} o P)
    (he : s.construct this f = some (thrown, t)) : Makes (lists s) this P thrown (lists t) := by
  obtain ⟨-, o, ho, rfl, hlists⟩ := construct_spec h hkeeps he
  cases hthrown : o.thrown with
  | none =>
    rw [if_pos hthrown] at hlists
    exact ⟨_, (hgives o ho).returned hthrown, hlists⟩
  | some e =>
    rw [if_neg (by rw [hthrown]; exact Option.some_ne_none e)] at hlists
    exact ⟨((hgives o ho).threw e hthrown).1, hlists⟩

theorem call_makes {f : Memory → ByteBuffer → Option Outcome} {P : Bytes → Prop} (h : Inv s)
    (hkeeps : ∀ b o, Valid s.heap b → f s.heap b = some o → ∃ b', b'.data = b.data ∧ Keeps s.heap b' o)
    (hgives : ∀ b o, s.buffers this = some b → f s.heap b = some o → Gives s.heap b o P)
    (he : s.call this f = some (thrown, t)) : Makes (lists s) this P thrown (lists t) := by
  obtain ⟨-, b, o, hb, ho, rfl, hlists⟩ := call_spec h hkeeps he
  cases hthrown : o.thrown with
  | none => exact ⟨_, (hgives b o hb ho).returned hthrown, hlists⟩
  | some e =>
    obtain ⟨rfl, hsame⟩ := (hgives b o hb ho).threw e hthrown
    rw [hsame, ← lists_of_buffer hb, Function.update_eq_self] at hlists
    exact ⟨rfl, hlists⟩

/-! ### What a step preserves -/

theorem move_cases (he : exec A s (.move this other) = some (thrown, t)) :
    ∃ c, s.buffers other = some c ∧ s.buffers this = none ∧ thrown = none ∧
      t = ⟨s.heap, Function.update (Function.update s.buffers this (some (move c).1)) other (some (move c).2)⟩ := by
  obtain ⟨c, hc, he⟩ := Option.bind_eq_some_iff.mp he
  split at he
  · cases he
  · next hnew =>
    cases he
    exact ⟨c, hc, Option.not_isSome_iff_eq_none.mp hnew, rfl, rfl⟩

theorem moveAssign_cases (he : exec A s (.moveAssign this other) = some (thrown, t)) :
    ∃ c, s.buffers other = some c ∧ thrown = none ∧ (this = other ∧ t = s ∨
      this ≠ other ∧ ∃ b heap', s.buffers this = some b ∧ Heap.release s.heap b.data = some heap' ∧
        t = ⟨heap', Function.update (Function.update s.buffers this (some (move c).1)) other (some (move c).2)⟩) := by
  obtain ⟨c, hc, he⟩ := Option.bind_eq_some_iff.mp he
  split at he
  · next heq =>
    cases he
    exact ⟨c, hc, rfl, .inl ⟨heq, rfl⟩⟩
  · next hne =>
    obtain ⟨b, hb, he⟩ := Option.bind_eq_some_iff.mp he
    obtain ⟨moved, hmove, heq⟩ := Option.map_eq_some_iff.mp he
    obtain ⟨heap', hrelease, rfl⟩ := Option.map_eq_some_iff.mp hmove
    cases heq
    exact ⟨c, hc, rfl, .inr ⟨hne, b, heap', hb, hrelease, rfl⟩⟩

/-- What is destroyed gives its storage back. -/
theorem destroy_spec (h : Inv s) (he : exec A s (.destroy this) = some (thrown, t)) :
    Inv t ∧ thrown = none ∧ lists t = Function.update (lists s) this none := by
  obtain ⟨b, hb, he⟩ := Option.bind_eq_some_iff.mp he
  obtain ⟨heap', hrelease, heq⟩ := Option.map_eq_some_iff.mp he
  cases heq
  have hput := h.put (x := none) (by rw [held_of_buffer hb]; exact .release hrelease) (fun c hc => by cases hc)
  exact ⟨hput.1, rfl, hput.2⟩

theorem exec_inv {op : Op ν} (h : Inv s) (he : exec A s op = some (thrown, t)) : Inv t := by
  cases op with
  | empty this =>
    have he : s.construct this (fun heap => some ⟨heap, ByteBuffer.empty, none⟩) = some (thrown, t) := he
    refine (construct_spec h (fun o ho => ?_) he).1
    cases ho
    exact Valid.empty.keeps none
  | fromString this str => exact (construct_spec h (fun _ ho => append_keeps .empty ho) he).1
  | fromChars this data len | fromBytes this data len =>
    obtain ⟨p, -, he⟩ := Option.bind_eq_some_iff.mp he
    exact (construct_spec h (fun _ ho => append_keeps .empty ho) he).1
  | fromCString this string =>
    exact (construct_spec h (fun _ ho => fromCString_keeps ho) he).1
  | copy this other =>
    obtain ⟨c, -, he⟩ := Option.bind_eq_some_iff.mp he
    exact (construct_spec h (fun _ ho => copy_keeps ho) he).1
  | move this other =>
    obtain ⟨c, hc, hnew, -, rfl⟩ := move_cases he
    exact (h.hand hnew hc).1
  | destroy this => exact (destroy_spec h he).1
  | assign this other =>
    obtain ⟨c, -, he⟩ := Option.bind_eq_some_iff.mp he
    split at he
    · cases he
      exact h
    · exact (call_spec h (fun b _ hb ho => ⟨b.clear, rfl, append_keeps hb.clear ho⟩) he).1
  | moveAssign this other =>
    obtain ⟨c, hc, -, ⟨-, rfl⟩ | ⟨hne, b, heap', hb, hrelease, rfl⟩⟩ := moveAssign_cases he
    · exact h
    · exact (h.handOver hb hc hne hrelease).1
  | append this data len =>
    obtain ⟨p, -, he⟩ := Option.bind_eq_some_iff.mp he
    exact (call_spec h (fun b _ hb ho => ⟨b, rfl, append_keeps hb ho⟩) he).1
  | appendString this str | addAssignString this str =>
    exact (call_spec h (fun b _ hb ho => ⟨b, rfl, append_keeps hb ho⟩) he).1
  | clear this =>
    have he : s.call this (fun heap b => some ⟨heap, b.clear, none⟩) = some (thrown, t) := he
    refine (call_spec h (fun b o hb ho => ⟨b.clear, rfl, ?_⟩) he).1
    cases ho
    exact hb.clear.keeps none
  | reserve this cap =>
    exact (call_spec h (fun b _ hb ho => ⟨b, rfl, (ensureCapacity_ensures hb ho).keeps⟩) he).1
  | addAssign this other =>
    obtain ⟨c, -, he⟩ := Option.bind_eq_some_iff.mp he
    exact (call_spec h (fun b _ hb ho => ⟨b, rfl, append_keeps hb ho⟩) he).1
  | add result this other =>
    obtain ⟨b, -, he⟩ := Option.bind_eq_some_iff.mp he
    obtain ⟨c, -, he⟩ := Option.bind_eq_some_iff.mp he
    exact (construct_spec h (fun _ ho => add_keeps ho) he).1
  | addString result this str =>
    obtain ⟨b, -, he⟩ := Option.bind_eq_some_iff.mp he
    exact (construct_spec h (fun _ ho => addString_keeps ho) he).1
  | set this index v =>
    exact (call_spec h (fun b _ hb ho => ⟨b, rfl, (set_spec hb ho).1⟩) he).1
  | resize this len =>
    exact (call_spec h (fun b _ hb ho => ⟨b, rfl, resize_keeps hb ho⟩) he).1
  | slice result this start stop =>
    obtain ⟨b, -, he⟩ := Option.bind_eq_some_iff.mp he
    exact (construct_spec h (fun _ ho => slice_keeps ho) he).1

theorem inv_of_reachable (hs : Reachable machine s) : Inv s := by
  refine hs.invariant (fun u hu => ?_) fun u a v hu ⟨_, he⟩ => exec_inv hu he
  rw [hu]
  exact Inv.start

/-- **Nothing is leaked**: without buffers there is no storage either, whatever was done with them, also where
operations ran out of memory. -/
theorem no_leak (hs : Reachable machine s) (hgone : ∀ i, s.buffers i = none) (a : Addr) : s.heap a = none := by
  cases hblock : s.heap a with
  | none => rfl
  | some block =>
    obtain ⟨i, hi⟩ := (inv_of_reachable hs).exclusive.owned a (by rw [hblock]; rfl)
    rw [held_of_none (hgone i)] at hi
    cases hi

/-! ### What a step does to the lists -/

omit [DecidableEq ν] in
/-- The bytes behind a pointer argument can be read, if they are not those of the buffer they go to. -/
theorem Operand.readable {data : Operand ν} {src : Pointer} (h : Inv s) (hsrc : data.pointer s = some src)
    (hy : data.bytes (lists s) len = some y)
    (hapart : ∀ other offset c, data = .buffer other offset → s.buffers other = some c →
      ∀ a, c.data = some a → b.data ≠ some a) : Readable src len y s.heap b := by
  cases data with
  | memory bytes =>
    cases hsrc
    exact readable_memory hy
  | buffer other offset =>
    obtain ⟨c, hc, rfl⟩ := Option.map_eq_some_iff.mp hsrc
    rw [Operand.bytes, lists_of_buffer hc, Option.bind_some] at hy
    exact (h.valid other c hc).readable_part (hapart other offset c rfl hc) hy

omit [DecidableEq ν] in
theorem Operand.pointer_isSome {data : Operand ν} (hy : data.bytes (lists s) len = some y) :
    ∃ src, data.pointer s = some src := by
  cases data with
  | memory bytes => exact ⟨_, rfl⟩
  | buffer other offset =>
    obtain ⟨x, hx, -⟩ := Option.bind_eq_some_iff.mp hy
    obtain ⟨c, hc, -⟩ := lists_eq_some hx
    exact ⟨_, by rw [Operand.pointer, hc]; rfl⟩

omit [DecidableEq ν] in
/-- The bytes of one buffer, appended to another. -/
theorem Inv.readable (h : Inv s) (hb : s.buffers this = some b) (hc : s.buffers other = some c) (hne : this ≠ other) :
    Readable c.cdata c.size (c.bytes s.heap) s.heap b :=
  (h.valid other c hc).readable (h.apart hc hb (Ne.symm hne))

/-- **One operation**: what it does to the buffers is what `Step` says of the lists. -/
theorem exec_step {op : Op ν} (h : Inv s) (hlegal : Legal (lists s) op) (he : exec A s op = some (thrown, t)) :
    Step (lists s) op thrown (lists t) := by
  cases op with
  | empty this =>
    have he : s.construct this (fun heap => some ⟨heap, ByteBuffer.empty, none⟩) = some (thrown, t) := he
    obtain ⟨-, o, ho, rfl, hlists⟩ := construct_spec h (fun o ho => by cases ho; exact Valid.empty.keeps none) he
    cases ho
    exact ⟨rfl, hlists⟩
  | fromString this str =>
    exact construct_makes h (fun _ ho => append_keeps .empty ho)
      (fun _ ho => append_gives .empty (readable_string hlegal.2) ho) he
  | fromChars this data len | fromBytes this data len =>
    obtain ⟨y, hy⟩ := Option.isSome_iff_exists.mp hlegal.2.1
    obtain ⟨src, hsrc, he⟩ := Option.bind_eq_some_iff.mp he
    have hr : Readable src len y s.heap {} := Operand.readable h hsrc hy (fun _ _ _ _ _ _ _ hn => by cases hn)
    exact ⟨y, hy, construct_makes h (fun _ ho => append_keeps .empty ho) (fun _ ho => append_gives .empty hr ho) he⟩
  | fromCString this string =>
    refine construct_makes h (fun _ ho => fromCString_keeps ho) (fun o ho => ?_) he
    obtain ⟨len, hlen, ho⟩ := Option.bind_eq_some_iff.mp ho
    exact append_gives .empty (readable_cstring hlen hlegal.2.2) ho
  | copy this other =>
    obtain ⟨c, hc, he⟩ := Option.bind_eq_some_iff.mp he
    exact ⟨_, lists_of_buffer hc, construct_makes h (fun _ ho => copy_keeps ho)
      (fun _ ho => copy_gives (h.valid other c hc) ho) he⟩
  | move this other =>
    obtain ⟨c, hc, hnew, rfl, rfl⟩ := move_cases he
    exact ⟨rfl, _, lists_of_buffer hc, (h.hand hnew hc).2⟩
  | destroy this =>
    obtain ⟨-, hthrown, hlists⟩ := destroy_spec h he
    exact ⟨hthrown, hlists⟩
  | assign this other =>
    obtain ⟨c, hc, he⟩ := Option.bind_eq_some_iff.mp he
    refine ⟨_, lists_of_buffer hc, ?_⟩
    split at he
    · next heq =>
      cases he
      rw [if_pos heq]
      exact ⟨rfl, rfl⟩
    · next hne =>
      rw [if_neg hne]
      obtain ⟨-, b, o, hb, ho, rfl, hlists⟩ := call_spec h
        (fun b _ hb ho => ⟨b.clear, rfl, append_keeps hb.clear ho⟩) he
      have hgives := append_gives (h.valid this b hb).clear
        (y := c.bytes s.heap) (by
          have hr := h.readable hb hc hne
          exact ⟨hr.length, hr.read, hr.apart⟩) ho
      rw [bytes_clear, List.nil_append] at hgives
      cases hthrown : o.thrown with
      | none => exact ⟨_, hgives.returned hthrown, by rw [Function.update_idem]; exact hlists⟩
      | some e =>
        obtain ⟨rfl, hsame⟩ := hgives.threw e hthrown
        rw [hsame, bytes_clear] at hlists
        exact ⟨rfl, hlists⟩
  | moveAssign this other =>
    obtain ⟨c, hc, rfl, ⟨heq, rfl⟩ | ⟨hne, b, heap', hb, hrelease, rfl⟩⟩ := moveAssign_cases he
    · exact ⟨rfl, _, lists_of_buffer hc, by rw [if_pos heq]⟩
    · exact ⟨rfl, _, lists_of_buffer hc, by rw [if_neg hne]; exact (h.handOver hb hc hne hrelease).2⟩
  | append this data len =>
    obtain ⟨⟨x, hx, -⟩, hdata, hne⟩ := hlegal
    obtain ⟨y, hy⟩ := Option.isSome_iff_exists.mp hdata
    obtain ⟨src, hsrc, he⟩ := Option.bind_eq_some_iff.mp he
    obtain ⟨b, hb, rfl⟩ := lists_eq_some hx
    refine ⟨_, y, hx, hy, call_makes h (fun b _ hb ho => ⟨b, rfl, append_keeps hb ho⟩) (fun b' o hb' ho => ?_) he⟩
    cases hb.symm.trans hb'
    refine append_gives (h.valid this b hb) (Operand.readable h hsrc hy fun other offset c hdata hc => ?_) ho
    refine h.apart hc hb ?_
    rintro rfl
    exact hne (congrArg Operand.owner hdata)
  | appendString this str | addAssignString this str =>
    obtain ⟨x, hx, hroom⟩ := hlegal
    obtain ⟨b, hb, rfl⟩ := lists_eq_some hx
    refine ⟨_, hx, call_makes h (fun b _ hb ho => ⟨b, rfl, append_keeps hb ho⟩) (fun b' o hb' ho => ?_) he⟩
    cases hb.symm.trans hb'
    exact append_gives (h.valid this b hb) (readable_string (by omega)) ho
  | clear this =>
    have he : s.call this (fun heap b => some ⟨heap, b.clear, none⟩) = some (thrown, t) := he
    obtain ⟨-, b, o, hb, ho, rfl, hlists⟩ := call_spec h
      (fun b o hb ho => ⟨b.clear, rfl, by cases ho; exact hb.clear.keeps none⟩) he
    cases ho
    exact ⟨rfl, hlists⟩
  | reserve this cap =>
    obtain ⟨x, hx⟩ := Option.isSome_iff_exists.mp hlegal.1
    obtain ⟨b, hb, rfl⟩ := lists_eq_some hx
    refine ⟨_, hx, call_makes h (fun b _ hb ho => ⟨b, rfl, (ensureCapacity_ensures hb ho).keeps⟩)
      (fun b' o hb' ho => ?_) he⟩
    cases hb.symm.trans hb'
    have hensures := ensureCapacity_ensures (h.valid this b hb) ho
    exact ⟨fun _ => hensures.bytes, fun e hthrown => ⟨hensures.threw e hthrown, hensures.bytes⟩⟩
  | addAssign this other =>
    obtain ⟨hne, x, hx, -⟩ := hlegal
    obtain ⟨b, hb, rfl⟩ := lists_eq_some hx
    obtain ⟨c, hc, he⟩ := Option.bind_eq_some_iff.mp he
    refine ⟨_, _, hx, lists_of_buffer hc, call_makes h (fun b _ hb ho => ⟨b, rfl, append_keeps hb ho⟩)
      (fun b' o hb' ho => ?_) he⟩
    cases hb.symm.trans hb'
    exact append_gives (h.valid this b hb) (h.readable hb hc hne) ho
  | add result this other =>
    obtain ⟨b, hb, he⟩ := Option.bind_eq_some_iff.mp he
    obtain ⟨c, hc, he⟩ := Option.bind_eq_some_iff.mp he
    exact ⟨_, _, lists_of_buffer hb, lists_of_buffer hc, construct_makes h (fun _ ho => add_keeps ho)
      (fun _ ho => add_gives (h.valid this b hb) (h.valid other c hc) ho) he⟩
  | addString result this str =>
    obtain ⟨-, x, -, hroom⟩ := hlegal
    have hstr : str.length ≤ 2 ^ 63 := by omega
    obtain ⟨b, hb, he⟩ := Option.bind_eq_some_iff.mp he
    exact ⟨_, lists_of_buffer hb, construct_makes h (fun _ ho => addString_keeps ho)
      (fun _ ho => addString_gives (h.valid this b hb) hstr ho) he⟩
  | set this index v =>
    obtain ⟨-, b, o, hb, ho, rfl, hlists⟩ := call_spec h (fun b _ hb ho => ⟨b, rfl, (set_spec hb ho).1⟩) he
    obtain ⟨-, hreturned, hthrew⟩ := set_spec (h.valid this b hb) ho
    refine ⟨_, lists_of_buffer hb, ?_⟩
    rw [(h.valid this b hb).length_bytes]
    cases hthrown : o.thrown with
    | none =>
      obtain ⟨hlt, hbytes⟩ := hreturned hthrown
      rw [if_pos hlt, ← hbytes]
      exact ⟨rfl, hlists⟩
    | some e =>
      obtain ⟨hge, rfl, hsame⟩ := hthrew e hthrown
      rw [hsame, ← lists_of_buffer hb, Function.update_eq_self] at hlists
      rw [if_neg (Nat.not_lt.mpr hge)]
      exact ⟨rfl, hlists⟩
  | resize this len =>
    obtain ⟨x, hx⟩ := Option.isSome_iff_exists.mp hlegal.1
    obtain ⟨b, hb, rfl⟩ := lists_eq_some hx
    refine ⟨_, hx, call_makes h (fun b _ hb ho => ⟨b, rfl, resize_keeps hb ho⟩) (fun b' o hb' ho => ?_) he⟩
    cases hb.symm.trans hb'
    exact resize_gives (h.valid this b hb) ho
  | slice result this start stop =>
    obtain ⟨b, hb, he⟩ := Option.bind_eq_some_iff.mp he
    refine ⟨_, lists_of_buffer hb, ?_⟩
    obtain ⟨-, o, ho, rfl, hlists⟩ := construct_spec h (fun _ ho => slice_keeps ho) he
    have hspec := slice_spec (h.valid this b hb) ho
    cases hslice : Fmxp.slice (b.bytes s.heap) start.toNat stop.toNat with
    | ok y =>
      rw [hslice] at hspec
      exact construct_makes h (fun _ ho => slice_keeps ho) (fun o' ho' => by cases ho.symm.trans ho'; exact hspec) he
    | error e =>
      rw [hslice] at hspec
      obtain ⟨what, he, hthrown⟩ := hspec
      rw [if_neg (by rw [hthrown]; exact Option.some_ne_none _)] at hlists
      exact ⟨what, he, hthrown, hlists⟩

end Fmxp.Buffers
