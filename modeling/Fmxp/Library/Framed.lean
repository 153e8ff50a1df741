import Mathlib.Data.List.Basic

/-! Streams that consist of frames.

A stream is framed when it is a number of whole frames and at most one incomplete frame behind them.
What follows a whole frame is framed again as soon as no frame is a part of another one
(`Framed.tail`), and a stream that does not begin as all frames do is not framed (`Framed.head`). -/
namespace Framing
variable {α : Type*} {IsFrame : List α → Prop} {stream : List α}

/-- Whole frames, and at most one incomplete frame behind them. -/
def Framed (IsFrame : List α → Prop) (stream : List α) : Prop :=
  ∃ whole rest, stream = List.flatten whole ++ rest ∧ (∀ c ∈ whole, IsFrame c) ∧
    (rest = [] ∨ ∃ c, IsFrame c ∧ rest <+: c)

/-- Whole frames and nothing else. -/
def Whole (IsFrame : List α → Prop) (stream : List α) : Prop :=
  ∃ whole, stream = List.flatten whole ∧ ∀ c ∈ whole, IsFrame c

theorem Whole.nil : Whole IsFrame [] := ⟨[], rfl, fun _ h => by cases h⟩

theorem Whole.mono {IsFrame' : List α → Prop} (h : Whole IsFrame stream) (himp : ∀ c, IsFrame c → IsFrame' c) :
    Whole IsFrame' stream := by
  obtain ⟨whole, hstream, hframes⟩ := h
  exact ⟨whole, hstream, fun c hc => himp c (hframes c hc)⟩

theorem Whole.append {c : List α} (h : Whole IsFrame stream) (hc : IsFrame c) : Whole IsFrame (stream ++ c) := by
  obtain ⟨whole, rfl, hframes⟩ := h
  refine ⟨whole ++ [c], by simp only [List.flatten_append, List.flatten_singleton], fun d hd => ?_⟩
  rcases List.mem_append.mp hd with hd | hd
  · exact hframes d hd
  · rw [List.mem_singleton.mp hd]
    exact hc

theorem Whole.framed (h : Whole IsFrame stream) : Framed IsFrame stream := by
  obtain ⟨whole, hstream, hframes⟩ := h
  exact ⟨whole, [], by rw [List.append_nil, hstream], hframes, .inl rfl⟩

theorem Framed.mono {IsFrame' : List α → Prop} (h : Framed IsFrame stream) (himp : ∀ c, IsFrame c → IsFrame' c) :
    Framed IsFrame' stream := by
  obtain ⟨whole, rest, hstream, hframes, hrest⟩ := h
  exact ⟨whole, rest, hstream, fun c hc => himp c (hframes c hc), hrest.imp_right fun ⟨c, hc, h⟩ => ⟨c, himp c hc, h⟩⟩

/-- A framed stream begins as all frames do. -/
theorem Framed.head {tag : List α} (htag : ∀ c, IsFrame c → tag <+: c) (hlong : tag.length ≤ stream.length)
    (h : Framed IsFrame stream) : stream.take tag.length = tag := by
  have hcomparable : stream <+: tag ∨ tag <+: stream := by
    obtain ⟨whole, rest, rfl, hframes, hrest⟩ := h
    cases whole with
    | nil =>
      rcases hrest with rfl | ⟨c, hc, hpart⟩
      · exact .inl List.nil_prefix
      · exact List.prefix_or_prefix_of_prefix hpart (htag c hc)
    | cons c whole =>
      have hc : tag <+: c := htag c (hframes c (List.mem_cons_self ..))
      rw [List.flatten_cons, List.append_assoc]
      exact .inr (hc.trans (List.prefix_append _ _))
  rcases hcomparable with hpart | hpart
  · rw [hpart.eq_of_length_le hlong, List.take_length]
  · exact (List.prefix_iff_eq_take.mp hpart).symm

/-- What follows a whole frame is framed, if no other frame agrees with that one. -/
theorem Framed.tail {c x : List α} (hfree : ∀ d, IsFrame d → c <+: d ∨ d <+: c → d = c)
    (h : Framed IsFrame (c ++ x)) (hx : x ≠ []) : Framed IsFrame x := by
  obtain ⟨whole, rest, hstream, hframes, hrest⟩ := h
  cases whole with
  | nil =>
    rcases hrest with rfl | ⟨d, hd, hpart⟩
    · exact absurd (List.append_eq_nil_iff.mp hstream).2 hx
    · have hlong : c ++ x <+: d := by
        rw [hstream]
        exact hpart
      have heq := hfree d hd (.inl ((List.prefix_append c x).trans hlong))
      have hlen := hlong.length_le
      rw [heq, List.length_append] at hlen
      exact absurd (List.eq_nil_of_length_eq_zero (by omega)) hx
  | cons d whole =>
    rw [List.flatten_cons, List.append_assoc] at hstream
    have hd := hframes d (List.mem_cons_self ..)
    have hprefix : d <+: c ++ x := ⟨_, hstream.symm⟩
    have heq := hfree d hd (List.prefix_or_prefix_of_prefix (List.prefix_append c x) hprefix)
    rw [heq] at hstream
    exact ⟨whole, rest, List.append_cancel_left hstream, fun e he => hframes e (List.mem_cons_of_mem _ he), hrest⟩

/-- Frames of which a part is taken, or nothing, or all, one after the other: the stream is framed when nothing is
taken any more after a frame of which only a part was. -/
theorem Framed.of_pairwise {frames : List (List α × List α)} (hparts : ∀ e ∈ frames, e.2 <+: e.1)
    (h : frames.Pairwise fun e later => e.2 = [] ∨ e.2 = e.1 ∨ later.2 = []) :
    Framed (· ∈ frames.map Prod.fst) (frames.map Prod.snd).flatten := by
  induction frames with
  | nil => exact Whole.nil.framed
  | cons e frames ih =>
    obtain ⟨hfirst, hothers⟩ := List.pairwise_cons.mp h
    have hrest : Framed (· ∈ (e :: frames).map Prod.fst) (frames.map Prod.snd).flatten :=
      (ih (fun e he => hparts e (List.mem_cons_of_mem _ he)) hothers).mono fun c hc => List.mem_cons_of_mem _ hc
    have hmem : e.1 ∈ (e :: frames).map Prod.fst := List.mem_cons_self ..
    rw [show ((e :: frames).map Prod.snd).flatten = e.2 ++ (frames.map Prod.snd).flatten from rfl]
    by_cases hnone : e.2 = []
    · rw [hnone, List.nil_append]
      exact hrest
    by_cases hall : e.2 = e.1
    · obtain ⟨whole, rest, hstream, hframes, hpart⟩ := hrest
      rw [hall, hstream]
      refine ⟨e.1 :: whole, rest, by rw [List.flatten_cons, List.append_assoc], fun c hc => ?_, hpart⟩
      rcases List.mem_cons.mp hc with rfl | hc
      · exact hmem
      · exact hframes c hc
    · -- This frame has broken off, so nothing follows.
      have hnil : (frames.map Prod.snd).flatten = [] := by
        refine List.flatten_eq_nil_iff.mpr fun c hc => ?_
        obtain ⟨later, hlater, rfl⟩ := List.mem_map.mp hc
        exact ((hfirst later hlater).resolve_left hnone).resolve_left hall
      rw [hnil, List.append_nil]
      exact ⟨[], e.2, rfl, fun c hc => (by cases hc), .inr ⟨e.1, hmem, hparts e (List.mem_cons_self ..)⟩⟩

end Framing
