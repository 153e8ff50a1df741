import Mathlib.Data.List.Forall2

/-! Cutting a stream into items, whatever the segmentation.

A `Framer` looks at the front of what has been received and says one of three
things: wait for more, the stream is bad, or here is an item and what follows it.
Its two laws say that a verdict other than "wait" is never changed by bytes that
arrive later. From these, draining what has been received and then what arrives
is draining the whole at once (`drain_append`), so any division of a stream into
batches yields the same items (`feed_items`, `feed_bad`). -/
namespace Framing

inductive Next (α β ε : Type*) where
  | wait
  | bad (e : ε)
  | item (o : β) (rest : List α)

structure Framer (α β ε : Type*) where
  next : List α → Next α β ε
  item_shorter : ∀ {b o rest}, next b = .item o rest → rest.length < b.length
  item_append : ∀ {b o rest}, next b = .item o rest → ∀ x, next (b ++ x) = .item o (rest ++ x)
  bad_append : ∀ {b e}, next b = .bad e → ∀ x, next (b ++ x) = .bad e

/-- What is left after taking items until the framer waits or refuses. -/
structure Drained (α β ε : Type*) where
  items : List β
  rest : List α
  bad : Option ε

namespace Framer
variable {α β γ ε : Type*} (F : Framer α β ε)

def drainFuel : Nat → List α → Drained α β ε
  | 0, b => ⟨[], b, none⟩
  | n + 1, b =>
    match F.next b with
    | .wait => ⟨[], b, none⟩
    | .bad e => ⟨[], b, some e⟩
    | .item o rest =>
      let d := drainFuel n rest
      ⟨o :: d.items, d.rest, d.bad⟩

/-- Every item shortens the stream, so its length bounds the number of rounds. -/
def drain (b : List α) : Drained α β ε := F.drainFuel (b.length + 1) b

theorem drainFuel_eq (n m : Nat) (b : List α) (hn : b.length < n) (hm : b.length < m) :
    F.drainFuel n b = F.drainFuel m b := by
  induction n generalizing m b with
  | zero => omega
  | succ n ih =>
    cases m with
    | zero => omega
    | succ m =>
      simp only [drainFuel]
      cases h : F.next b with
      | wait => rfl
      | bad e => rfl
      | item o rest =>
        have hlt := F.item_shorter h
        simp only [ih m rest (by omega) (by omega)]

theorem drain_wait {b : List α} (h : F.next b = .wait) : F.drain b = ⟨[], b, none⟩ := by
  simp only [drain, drainFuel, h]

theorem drain_bad {b : List α} {e : ε} (h : F.next b = .bad e) : F.drain b = ⟨[], b, some e⟩ := by
  simp only [drain, drainFuel, h]

theorem drain_item {b rest : List α} {o : β} (h : F.next b = .item o rest) :
    F.drain b = ⟨o :: (F.drain rest).items, (F.drain rest).rest, (F.drain rest).bad⟩ := by
  have hlt := F.item_shorter h
  unfold drain
  rw [drainFuel, h]
  simp only [F.drainFuel_eq b.length (rest.length + 1) rest hlt (by omega)]

/-- Induction on a stream as the framer takes it apart. -/
theorem induction {P : List α → Prop} (wait : ∀ b, F.next b = .wait → P b)
    (bad : ∀ b e, F.next b = .bad e → P b)
    (item : ∀ b o rest, F.next b = .item o rest → P rest → P b) (b : List α) : P b := by
  induction hn : b.length using Nat.strongRecOn generalizing b with
  | _ n ih =>
    cases h : F.next b with
    | wait => exact wait b h
    | bad e => exact bad b e h
    | item o rest => exact item b o rest h (ih rest.length (hn ▸ F.item_shorter h) rest rfl)

/-- Draining stops without a refusal only where the framer waits. -/
theorem drain_rest_wait (b : List α) (h : (F.drain b).bad = none) :
    F.next (F.drain b).rest = .wait := by
  induction b using F.induction with
  | wait b hw => rw [F.drain_wait hw]; exact hw
  | bad b e hb => rw [F.drain_bad hb] at h; cases h
  | item b o rest hi ih =>
    rw [F.drain_item hi] at h ⊢
    exact ih h

/-- After a refusal the rest is what was refused. -/
theorem drain_rest_bad (b : List α) {e : ε} (h : (F.drain b).bad = some e) :
    F.next (F.drain b).rest = .bad e := by
  induction b using F.induction with
  | wait b hw => rw [F.drain_wait hw] at h; cases h
  | bad b e' hb =>
    rw [F.drain_bad hb] at h ⊢
    cases h
    exact hb
  | item b o rest hi ih =>
    rw [F.drain_item hi] at h ⊢
    exact ih h

/-- **Draining a stream in two parts is draining it at once.** -/
theorem drain_append (b x : List α) :
    F.drain (b ++ x) =
      match (F.drain b).bad with
      | some e => ⟨(F.drain b).items, (F.drain b).rest ++ x, some e⟩
      | none => ⟨(F.drain b).items ++ (F.drain ((F.drain b).rest ++ x)).items,
          (F.drain ((F.drain b).rest ++ x)).rest, (F.drain ((F.drain b).rest ++ x)).bad⟩ := by
  induction b using F.induction with
  | wait b hw => simp only [F.drain_wait hw, List.nil_append]
  | bad b e hb => simp only [F.drain_bad hb, F.drain_bad (F.bad_append hb x)]
  | item b o rest hi ih =>
    rw [F.drain_item (F.item_append hi x), F.drain_item hi, ih]
    cases (F.drain rest).bad <;> rfl

theorem drain_append_of_none {b : List α} (h : (F.drain b).bad = none) (x : List α) :
    F.drain (b ++ x) = ⟨(F.drain b).items ++ (F.drain ((F.drain b).rest ++ x)).items,
      (F.drain ((F.drain b).rest ++ x)).rest, (F.drain ((F.drain b).rest ++ x)).bad⟩ := by
  rw [F.drain_append, h]

/-! ### Batches -/

/-- Receive batches one after the other, draining after each, until a refusal. -/
def feed : List α → List (List α) → Drained α β ε
  | buffer, [] => ⟨[], buffer, none⟩
  | buffer, batch :: batches =>
    let d := F.drain (buffer ++ batch)
    match d.bad with
    | some e => ⟨d.items, d.rest, some e⟩
    | none =>
      let f := feed d.rest batches
      ⟨d.items ++ f.items, f.rest, f.bad⟩

/-- **However the stream is cut into batches, the items are those of the whole**, and
without a refusal so is what is left over. -/
theorem feed_eq (buffer : List α) (batches : List (List α)) (hw : F.next buffer = .wait) :
    (F.feed buffer batches).items = (F.drain (buffer ++ batches.flatten)).items ∧
      (F.feed buffer batches).bad = (F.drain (buffer ++ batches.flatten)).bad ∧
      ((F.drain (buffer ++ batches.flatten)).bad = none →
        (F.feed buffer batches).rest = (F.drain (buffer ++ batches.flatten)).rest) := by
  induction batches generalizing buffer with
  | nil => simp [feed, F.drain_wait hw]
  | cons batch batches ih =>
    rw [List.flatten_cons, ← List.append_assoc, F.drain_append]
    simp only [feed]
    cases hb : (F.drain (buffer ++ batch)).bad with
    | some e => simp
    | none =>
      obtain ⟨hitems, hbad, hrest⟩ := ih (F.drain (buffer ++ batch)).rest (F.drain_rest_wait _ hb)
      exact ⟨by simp only [hitems], hbad, hrest⟩

/-- `feed_eq` for any buffer, once a batch has arrived. -/
theorem feed_cons_eq (buffer batch : List α) (batches : List (List α)) :
    (F.feed buffer (batch :: batches)).items = (F.drain (buffer ++ (batch :: batches).flatten)).items ∧
      (F.feed buffer (batch :: batches)).bad = (F.drain (buffer ++ (batch :: batches).flatten)).bad := by
  rw [List.flatten_cons, ← List.append_assoc, F.drain_append]
  simp only [feed]
  cases hb : (F.drain (buffer ++ batch)).bad with
  | some e => exact ⟨rfl, rfl⟩
  | none =>
    obtain ⟨hitems, hbad, _⟩ := F.feed_eq (F.drain (buffer ++ batch)).rest batches (F.drain_rest_wait _ hb)
    exact ⟨by simp only [hitems], hbad⟩

/-- The items of the batches that come before the one with the refusal, or of all of them. -/
def beforeRefusal : List α → List (List α) → List β
  | _, [] => []
  | buffer, batch :: batches =>
    let d := F.drain (buffer ++ batch)
    match d.bad with
    | some _ => []
    | none => d.items ++ beforeRefusal d.rest batches

theorem beforeRefusal_isPrefix (buffer : List α) (batches : List (List α)) :
    F.beforeRefusal buffer batches <+: (F.feed buffer batches).items := by
  induction batches generalizing buffer with
  | nil => exact List.prefix_rfl
  | cons batch batches ih =>
    simp only [beforeRefusal, feed]
    cases (F.drain (buffer ++ batch)).bad with
    | some e => exact List.nil_prefix
    | none => exact (List.prefix_append_right_inj _).mpr (ih _)

theorem beforeRefusal_of_none {buffer : List α} {batches : List (List α)} (h : (F.feed buffer batches).bad = none) :
    F.beforeRefusal buffer batches = (F.feed buffer batches).items := by
  induction batches generalizing buffer with
  | nil => rfl
  | cons batch batches ih =>
    simp only [feed] at h
    simp only [beforeRefusal, feed]
    cases hb : (F.drain (buffer ++ batch)).bad with
    | some e =>
      rw [hb] at h
      cases h
    | none =>
      rw [hb] at h
      exact congrArg _ (ih h)

/-- A refusal that is in the buffer comes before everything. -/
theorem beforeRefusal_of_bad {buffer : List α} {e : ε} (h : (F.drain buffer).bad = some e)
    (batches : List (List α)) : F.beforeRefusal buffer batches = [] := by
  cases batches with
  | nil => rfl
  | cons batch batches => simp only [beforeRefusal, F.drain_append, h]

/-- The framer finds an item as soon as the last element of the item has arrived. -/
def Exact : Prop := ∀ b o rest, F.next b = .item o rest → ∃ c, b = c ++ rest ∧ F.next c = .item o []

/-- What an exact framer takes apart is the items' own part of the stream. -/
theorem drain_consumed (hexact : F.Exact) (hempty : F.next [] = .wait) (b : List α) :
    ∃ c, b = c ++ (F.drain b).rest ∧ F.drain c = ⟨(F.drain b).items, [], none⟩ := by
  induction b using F.induction with
  | wait b hw => exact ⟨[], by rw [F.drain_wait hw, List.nil_append], by rw [F.drain_wait hw, F.drain_wait hempty]⟩
  | bad b e hb => exact ⟨[], by rw [F.drain_bad hb, List.nil_append], by rw [F.drain_bad hb, F.drain_wait hempty]⟩
  | item b o rest hi ih =>
    obtain ⟨c, hc, hnext⟩ := hexact b o rest hi
    obtain ⟨d, hd, hdrain⟩ := ih
    refine ⟨c ++ d, ?_, ?_⟩
    · rw [F.drain_item hi, List.append_assoc, ← hd]
      exact hc
    · rw [F.drain_item (F.item_append hnext d), F.drain_item hi, List.nil_append, hdrain]

/-- A stream can be cut so that every item comes before the batch with the refusal. -/
theorem exists_cut (hexact : F.Exact) (hempty : F.next [] = .wait) {buffer x : List α} {e : ε}
    (hbuffer : (F.drain buffer).bad = none) (hbad : (F.drain (buffer ++ x)).bad = some e) :
    ∃ y z, x = y ++ z ∧ F.beforeRefusal buffer [y, z] = (F.drain (buffer ++ x)).items := by
  -- It is enough that the first part holds all the items and no refusal.
  have hcut : ∀ y z, x = y ++ z → (F.drain (buffer ++ y)).bad = none →
      (F.drain (buffer ++ y)).items = (F.drain (buffer ++ x)).items →
      F.beforeRefusal buffer [y, z] = (F.drain (buffer ++ x)).items := by
    intro y z hx hnone hitems
    have hlater : (F.drain ((F.drain (buffer ++ y)).rest ++ z)).bad = some e := by
      rw [hx, ← List.append_assoc, F.drain_append_of_none hnone] at hbad
      exact hbad
    simp only [beforeRefusal, hnone, hlater, List.append_nil, hitems]
  obtain ⟨c, hc, hdrain⟩ := F.drain_consumed hexact hempty (buffer ++ x)
  rcases List.append_eq_append_iff.mp hc with ⟨y, hcy, hy⟩ | ⟨a, hbufferc, hrest⟩
  · refine ⟨y, _, hy, hcut y _ hy ?_ ?_⟩ <;> rw [← hcy, hdrain]
  · -- All the items are in the buffer already.
    have hwait : F.next a = .wait := by
      have hrefused := F.drain_rest_bad _ hbad
      rw [hrest] at hrefused
      cases ha : F.next a with
      | wait => rfl
      | bad e' =>
        rw [hbufferc, F.drain_append, hdrain, List.nil_append, F.drain_bad ha] at hbuffer
        cases hbuffer
      | item o rest =>
        rw [F.item_append ha x] at hrefused
        cases hrefused
    refine ⟨[], x, rfl, hcut [] x rfl ?_ ?_⟩
    · rw [List.append_nil]
      exact hbuffer
    · rw [List.append_nil]
      have hsame : (F.drain buffer).items = (F.drain c).items := by
        rw [hbufferc, F.drain_append, hdrain, List.nil_append, F.drain_wait hwait, List.append_nil]
      rw [hsame, hdrain]

/-! ### Streams that are encodings of items -/

/-- A stream of encodings the framer recognises, followed by a part it waits on. -/
theorem drain_encodings (encoded : List (β × List α)) (tail : List α)
    (henc : ∀ e ∈ encoded, ∀ x, F.next (e.2 ++ x) = .item e.1 x) (htail : F.next tail = .wait) :
    F.drain ((encoded.map Prod.snd).flatten ++ tail) = ⟨encoded.map Prod.fst, tail, none⟩ := by
  induction encoded with
  | nil => exact F.drain_wait htail
  | cons e rest ih =>
    have he := henc e (List.mem_cons_self ..) ((rest.map Prod.snd).flatten ++ tail)
    rw [List.map_cons, List.flatten_cons, List.append_assoc, F.drain_item he,
      ih (fun e he => henc e (List.mem_cons_of_mem _ he))]
    rfl

/-- The front of a stream that begins with an encoding: a part of the encoding, or all of it. -/
theorem next_part {e : β × List α} (henc : ∀ x, F.next (e.2 ++ x) = .item e.1 x)
    (hpart : ∀ p, p <+: e.2 → p ≠ e.2 → F.next p = .wait) {b x y : List α} (h : b ++ x = e.2 ++ y) :
    F.next b = .wait ∨ ∃ b', F.next b = .item e.1 b' ∧ b' ++ x = y := by
  rcases List.append_eq_append_iff.mp h with ⟨z, hz, hx⟩ | ⟨b', hb, hy⟩
  · by_cases hwhole : b = e.2
    · refine .inr ⟨[], ?_, ?_⟩
      · rw [hwhole, ← List.append_nil e.2]
        exact henc []
      · rw [hwhole] at h
        exact List.append_cancel_left h
    · exact .inl (hpart b ⟨z, hz.symm⟩ hwhole)
  · exact .inr ⟨b', hb ▸ henc b', hy.symm⟩

/-- **The front of a stream of encodings**: the items of those it holds, and a part of the next. -/
theorem drain_part {encoded : List (β × List α)} (henc : ∀ e ∈ encoded, ∀ x, F.next (e.2 ++ x) = .item e.1 x)
    (hpart : ∀ e ∈ encoded, ∀ p, p <+: e.2 → p ≠ e.2 → F.next p = .wait) (hempty : F.next [] = .wait)
    {b x : List α} (h : b ++ x = (encoded.map Prod.snd).flatten) :
    ∃ taken later rest, encoded = taken ++ later ∧ F.drain b = ⟨taken.map Prod.fst, rest, none⟩ ∧
      rest ++ x = (later.map Prod.snd).flatten := by
  induction encoded generalizing b with
  | nil =>
    obtain ⟨rfl, rfl⟩ := List.append_eq_nil_iff.mp h
    exact ⟨[], [], [], rfl, F.drain_wait hempty, rfl⟩
  | cons e encoded ih =>
    rcases F.next_part (henc e (List.mem_cons_self ..)) (hpart e (List.mem_cons_self ..)) h with
      hwait | ⟨b', hitem, hrest⟩
    · exact ⟨[], e :: encoded, b, rfl, F.drain_wait hwait, h⟩
    · obtain ⟨taken, later, rest, rfl, hdrain, hlater⟩ := ih (fun e he => henc e (List.mem_cons_of_mem _ he))
        (fun e he => hpart e (List.mem_cons_of_mem _ he)) hrest
      refine ⟨e :: taken, later, rest, rfl, ?_, hlater⟩
      rw [F.drain_item hitem, hdrain]
      rfl

/-! ### Decoding items -/

/-- Items decoded as they are taken; an item that does not decode is a refusal. -/
def decode (dec : β → Except ε γ) : Framer α γ ε where
  next := fun b => match F.next b with
    | .wait => .wait
    | .bad e => .bad e
    | .item o rest => match dec o with
      | .ok c => .item c rest
      | .error e => .bad e
  item_shorter := by
    intro b c rest h
    split at h <;> try cases h
    split at h <;> cases h
    exact F.item_shorter ‹_›
  item_append := by
    intro b c rest h x
    split at h <;> try cases h
    next o rest' hi =>
      split at h <;> cases h
      next hd => simp only [F.item_append hi x, hd]
  bad_append := by
    intro b e h x
    split at h
    · cases h
    · next e' hb =>
      cases h
      simp only [F.bad_append hb x]
    · next o rest hi =>
      split at h <;> cases h
      next hd => simp only [F.item_append hi x, hd]

variable (dec : β → Except ε γ)

theorem decode_wait {b : List α} (h : F.next b = .wait) : (F.decode dec).next b = .wait := by
  simp only [decode, h]

theorem decode_bad {b : List α} {e : ε} (h : F.next b = .bad e) :
    (F.decode dec).next b = .bad e := by
  simp only [decode, h]

theorem decode_ok {b rest : List α} {o : β} {c : γ} (h : F.next b = .item o rest)
    (hd : dec o = .ok c) : (F.decode dec).next b = .item c rest := by
  simp only [decode, h, hd]

theorem decode_error {b rest : List α} {o : β} {e : ε} (h : F.next b = .item o rest)
    (hd : dec o = .error e) : (F.decode dec).next b = .bad e := by
  simp only [decode, h, hd]

/-- A decoded item comes from the item that is next. -/
theorem item_of_decode {b rest : List α} {c : γ} (h : (F.decode dec).next b = .item c rest) :
    ∃ o, F.next b = .item o rest ∧ dec o = .ok c := by
  simp only [decode] at h
  split at h
  · cases h
  · cases h
  · next o rest' hi =>
    split at h <;> cases h
    next hd => exact ⟨o, hi, hd⟩

/-- The decoded items come from the first items of the stream, one from each. -/
theorem decode_items (b : List α) :
    ∃ os, os <+: (F.drain b).items ∧ List.Forall₂ (fun o c => dec o = .ok c) os ((F.decode dec).drain b).items := by
  induction b using F.induction with
  | wait b hw =>
    rw [drain_wait _ (F.decode_wait dec hw)]
    exact ⟨[], List.nil_prefix, .nil⟩
  | bad b e hb =>
    rw [drain_bad _ (F.decode_bad dec hb)]
    exact ⟨[], List.nil_prefix, .nil⟩
  | item b o rest hi ih =>
    rw [F.drain_item hi]
    cases hd : dec o with
    | error e =>
      rw [drain_bad _ (F.decode_error dec hi hd)]
      exact ⟨[], List.nil_prefix, .nil⟩
    | ok c =>
      obtain ⟨os, hfront, hos⟩ := ih
      rw [drain_item _ (F.decode_ok dec hi hd)]
      exact ⟨o :: os, (List.prefix_cons_inj o).mpr hfront, .cons hd hos⟩

/-- Where items are decoded from raw ones in order, so are the first of them. -/
theorem zip_decoded {R : β → γ → Prop} {as as' : List β} {bs bs' : List γ} (h : List.Forall₂ R as bs)
    (ha : as <+: as') (hb : bs' <+: bs) :
    (as'.zip bs').map Prod.snd = bs' ∧ ∀ e ∈ as'.zip bs', R e.1 e.2 := by
  induction h generalizing as' bs' with
  | nil =>
    rw [List.prefix_nil.mp hb, List.zip_nil_right]
    exact ⟨rfl, fun e he => by cases he⟩
  | @cons a b as bs hab _ ih =>
    cases bs' with
    | nil => exact ⟨by rw [List.zip_nil_right]; rfl, fun e he => by rw [List.zip_nil_right] at he; cases he⟩
    | cons b' bs' =>
      obtain ⟨rfl, hrest⟩ := List.cons_prefix_cons.mp hb
      obtain ⟨x, rfl⟩ := ha
      obtain ⟨hmap, hpairs⟩ := ih (List.prefix_append as x) hrest
      refine ⟨congrArg (List.cons b') hmap, fun e he => ?_⟩
      rcases List.mem_cons.mp he with rfl | he
      · exact hab
      · exact hpairs e he

end Framer

end Framing
