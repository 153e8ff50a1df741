import Fmxp.Core.RoundTrip
import Fmxp.Library.Framing

/-! The front of a receive buffer.

Server and client parse their buffers with the same tests in the same order:
enough bytes for a smallest frame, the protocol tag, the size limit, a complete
frame. `leadingFrame` is that common part of the two `_parseFrames`, and
`wireFramer` reads it as a framer, so the library's results about segmentation
apply to both. -/
namespace Fmxp
open Framing

/-- What the parsers find at the front of a buffer. -/
inductive Lead where
  | incomplete
  | invalid
  | tooLong
  | frame (frameBuf : Bytes) (size : Nat)
  deriving DecidableEq, Repr

/-- From the size test at the top of the parse loop to the slice of one frame. -/
def leadingFrame (maxFrameSize : UInt32) (buffer : Bytes) : Except Exn Lead :=
  if buffer.length < minFrameSize then .ok .incomplete
  else if !validateProtocol buffer then .ok .invalid
  else do
    let bodyLen ← deref (getFrameBodySize buffer)
    if bodyLen > maxFrameSize || bodyLen.toNat + headerSize > maxFrameSize.toNat then return .tooLong
    if buffer.length < bodyLen.toNat + headerSize then return .incomplete
    let frameBuf ← slice buffer 0 (bodyLen.toNat + headerSize)
    return .frame frameBuf (bodyLen.toNat + headerSize)

theorem minFrameSize_eq : minFrameSize = 29 := rfl

/-- The size field of a buffer that holds a header. -/
theorem exists_bodySize {b : Bytes} (h : headerSize ≤ b.length) : ∃ n, getFrameBodySize b = some n := by
  have hlen : 4 ≤ (b.drop 5).length := by
    rw [List.length_drop]
    simp only [headerSize] at h
    omega
  exact ⟨_, ptrToU32_eq hlen⟩

/-- `leadingFrame` with its reads and its slice resolved: they never fail. -/
theorem leadingFrame_eq {max n : UInt32} {b : Bytes} (hlen : ¬ b.length < minFrameSize)
    (hproto : validateProtocol b = true) (hn : getFrameBodySize b = some n) :
    leadingFrame max b =
      if max.toNat < n.toNat + headerSize then .ok .tooLong
      else if b.length < n.toNat + headerSize then .ok .incomplete
      else .ok (.frame (b.take (n.toNat + headerSize)) (n.toNat + headerSize)) := by
  have hiff : (decide (n > max) || decide (n.toNat + headerSize > max.toNat)) =
      decide (max.toNat < n.toNat + headerSize) := by
    rw [Bool.eq_iff_iff]
    simp only [Bool.or_eq_true, decide_eq_true_eq, gt_iff_lt, UInt32.lt_iff_toNat_lt]
    omega
  simp only [leadingFrame, hlen, hproto, hn, deref, hiff, if_false, Bool.not_true, Bool.false_eq_true,
    bind, Except.bind, pure, Except.pure, decide_eq_true_eq]
  split
  · rfl
  · split
    · rfl
    · next hfull => rw [slice_zero (Nat.le_of_not_lt hfull)]

/-- No read or slice of `leadingFrame` leaves the buffer. -/
theorem leadingFrame_total (max : UInt32) (b : Bytes) : ∃ lead, leadingFrame max b = .ok lead := by
  by_cases hlen : b.length < minFrameSize
  · exact ⟨.incomplete, by simp only [leadingFrame, hlen, if_true]⟩
  · cases hproto : validateProtocol b
    · exact ⟨.invalid, by simp [leadingFrame, hlen, hproto]⟩
    · obtain ⟨n, hn⟩ := exists_bodySize (b := b) (by rw [minFrameSize_eq] at hlen; simp only [headerSize]; omega)
      rw [leadingFrame_eq hlen hproto hn]
      split
      · exact ⟨_, rfl⟩
      · split <;> exact ⟨_, rfl⟩

/-- A frame that is cut off is the front of the buffer, has at least a header and
is within the limit. -/
theorem leadingFrame_frame {max : UInt32} {b raw : Bytes} {size : Nat}
    (h : leadingFrame max b = .ok (.frame raw size)) :
    raw = b.take size ∧ headerSize ≤ size ∧ size ≤ b.length ∧ size ≤ max.toNat := by
  by_cases hlen : b.length < minFrameSize
  · simp [leadingFrame, hlen] at h
  · cases hproto : validateProtocol b
    · simp [leadingFrame, hlen, hproto] at h
    · obtain ⟨n, hn⟩ := exists_bodySize (b := b) (by rw [minFrameSize_eq] at hlen; simp only [headerSize]; omega)
      rw [leadingFrame_eq hlen hproto hn] at h
      split at h
      · cases h
      · split at h
        · cases h
        · cases h
          exact ⟨rfl, by omega, by omega, by omega⟩

/-! ### Bytes that arrive later -/

theorem validateProtocol_append {b : Bytes} (h : 4 ≤ b.length) (x : Bytes) :
    validateProtocol (b ++ x) = validateProtocol b := by
  have hx : 4 ≤ b.length + x.length := by omega
  simp only [validateProtocol, List.length_append, List.take_append_of_le_length h, ge_iff_le, h, hx]

theorem getFrameBodySize_append {b : Bytes} (h : headerSize ≤ b.length) (x : Bytes) :
    getFrameBodySize (b ++ x) = getFrameBodySize b := by
  simp only [headerSize] at h
  have hlen : 4 ≤ (b.drop 5).length := by
    rw [List.length_drop]
    omega
  have hdrop : (b ++ x).drop 5 = b.drop 5 ++ x := List.drop_append_of_le_length (by omega)
  rw [getFrameBodySize, getFrameBodySize, hdrop, ptrToU32_eq hlen,
    ptrToU32_eq (by rw [List.length_append]; omega), List.take_append_of_le_length hlen]

/-- A verdict other than "incomplete" is not changed by bytes that arrive later. -/
theorem leadingFrame_append {max : UInt32} {b : Bytes} {lead : Lead} (h : leadingFrame max b = .ok lead)
    (hne : lead ≠ .incomplete) (x : Bytes) : leadingFrame max (b ++ x) = .ok lead := by
  by_cases hlen : b.length < minFrameSize
  · simp only [leadingFrame, hlen, if_true, Except.ok.injEq] at h
    exact absurd h.symm hne
  · have hlen29 : 29 ≤ b.length := by rw [minFrameSize_eq] at hlen; omega
    have hlen' : ¬ (b ++ x).length < minFrameSize := by
      rw [List.length_append, minFrameSize_eq]
      omega
    have hproto := validateProtocol_append (b := b) (by omega) x
    have hsize := getFrameBodySize_append (b := b) (by simp only [headerSize]; omega) x
    cases hp : validateProtocol b
    · simp only [leadingFrame, hlen, hlen', hproto, hp, if_false, Bool.not_false, if_true] at h ⊢
      exact h
    · obtain ⟨n, hn⟩ := exists_bodySize (b := b) (by simp only [headerSize]; omega)
      rw [leadingFrame_eq hlen hp hn] at h
      rw [leadingFrame_eq hlen' (hproto.trans hp) (hsize.trans hn)]
      split at h
      · next hlong => rw [if_pos hlong]; exact h
      · next hlong =>
        split at h
        · cases h
          exact absurd rfl hne
        · next hfull =>
          rw [if_neg hlong, if_neg (by rw [List.length_append]; omega),
            List.take_append_of_le_length (by omega)]
          exact h

/-! ### The buffer as a stream of frames -/

/-- Why a parser gives up on what it has received. -/
inductive Refusal where
  | protocol
  | tooLong
  | rejected (e : Exn)
  deriving DecidableEq, Repr

/-- The parsers' common front as a framer: its items are the raw frames. -/
def wireFramer (max : UInt32) : Framer UInt8 Bytes Refusal where
  next := fun b => match leadingFrame max b with
    | .ok (.frame raw size) => .item raw (b.drop size)
    | .ok .invalid => .bad .protocol
    | .ok .tooLong => .bad .tooLong
    | _ => .wait
  item_shorter := by
    intro b raw rest h
    split at h <;> cases h
    next hlead =>
      obtain ⟨_, hpos, hle, _⟩ := leadingFrame_frame hlead
      simp only [headerSize] at hpos
      rw [List.length_drop]
      omega
  item_append := by
    intro b raw rest h x
    split at h <;> cases h
    next hlead =>
      obtain ⟨_, _, hle, _⟩ := leadingFrame_frame hlead
      simp only [leadingFrame_append hlead (by intro hc; cases hc) x, List.drop_append_of_le_length hle]
  bad_append := by
    intro b e h x
    split at h <;> cases h
    · next hlead => simp only [leadingFrame_append hlead (by intro hc; cases hc) x]
    · next hlead => simp only [leadingFrame_append hlead (by intro hc; cases hc) x]

/-- The frames a receiver cuts from what it has received. -/
def rawFrames (max : UInt32) (b : Bytes) : List Bytes := ((wireFramer max).drain b).items

theorem wireFramer_wait {max : UInt32} {b : Bytes} (h : leadingFrame max b = .ok .incomplete) :
    (wireFramer max).next b = .wait := by
  simp only [wireFramer, h]

theorem wireFramer_item {max : UInt32} {b raw : Bytes} {size : Nat}
    (h : leadingFrame max b = .ok (.frame raw size)) :
    (wireFramer max).next b = .item raw (b.drop size) := by
  simp only [wireFramer, h]

/-- The same stream with every frame decoded; a frame that is rejected is a refusal. -/
def frameFramer (evp : Evp) (max : UInt32) (encrypted : Bool) (key : Bytes) : Framer UInt8 Frame Refusal :=
  (wireFramer max).decode fun raw => (decodeFrame evp raw encrypted key).mapError .rejected

/-- What a framer of decoded frames says about a front. -/
def Lead.next (evp : Evp) (encrypted : Bool) (key b : Bytes) : Lead → Next UInt8 Frame Refusal
  | .incomplete => .wait
  | .invalid => .bad .protocol
  | .tooLong => .bad .tooLong
  | .frame raw size =>
    match decodeFrame evp raw encrypted key with
    | .error e => .bad (.rejected e)
    | .ok f => .item f (b.drop size)

theorem frameFramer_next (evp : Evp) (encrypted : Bool) (key : Bytes) {max : UInt32} {b : Bytes} {lead : Lead}
    (h : leadingFrame max b = .ok lead) :
    (frameFramer evp max encrypted key).next b = lead.next evp encrypted key b := by
  unfold frameFramer
  simp only [Framer.decode, wireFramer, h]
  cases lead with
  | frame raw size =>
    simp only [Lead.next]
    cases decodeFrame evp raw encrypted key <;> rfl
  | _ => rfl

/-- The decoded frames come from the first raw frames of the stream, one from each. -/
theorem frameFramer_items (evp : Evp) (max : UInt32) (encrypted : Bool) (key b : Bytes) :
    ∃ raws, raws <+: rawFrames max b ∧ List.Forall₂ (fun raw f => decodeFrame evp raw encrypted key = .ok f)
      raws ((frameFramer evp max encrypted key).drain b).items := by
  obtain ⟨raws, hfront, hraws⟩ := (wireFramer max).decode_items
    (fun raw => (decodeFrame evp raw encrypted key).mapError Refusal.rejected) b
  refine ⟨raws, hfront, hraws.imp ?_⟩
  intro raw f h
  cases hd : decodeFrame evp raw encrypted key with
  | error e => rw [hd] at h; cases h
  | ok g => rw [hd] at h; cases h; rfl

/-- The first decoded frame comes from the first raw frame. -/
theorem frameFramer_item {evp : Evp} {max : UInt32} {encrypted : Bool} {key b rest : Bytes} {f : Frame}
    (h : (frameFramer evp max encrypted key).next b = .item f rest) :
    ∃ raw, rawFrames max b = raw :: rawFrames max rest ∧ decodeFrame evp raw encrypted key = .ok f := by
  obtain ⟨raw, hnext, hdec⟩ := (wireFramer max).item_of_decode _ h
  refine ⟨raw, congrArg Drained.items ((wireFramer max).drain_item hnext), ?_⟩
  cases hd : decodeFrame evp raw encrypted key with
  | error e => rw [hd] at hdec; cases hdec
  | ok g => rw [hd] at hdec; cases hdec; rfl

/-- Every decoded frame comes from a raw frame of the stream. -/
theorem frameFramer_raw {evp : Evp} {max : UInt32} {encrypted : Bool} {key b : Bytes} {f : Frame}
    (h : f ∈ ((frameFramer evp max encrypted key).drain b).items) :
    ∃ raw ∈ rawFrames max b, decodeFrame evp raw encrypted key = .ok f := by
  obtain ⟨raws, hfront, hdecoded⟩ := frameFramer_items evp max encrypted key b
  obtain ⟨hmap, hpairs⟩ := Framer.zip_decoded hdecoded hfront List.prefix_rfl
  rw [← hmap] at h
  obtain ⟨e, he, rfl⟩ := List.mem_map.mp h
  exact ⟨e.1, (List.of_mem_zip he).1, hpairs e he⟩

section Encoded
variable {max : UInt32} {c : Bytes}

private theorem header_facts (hmin : bodyHeaderSize ≤ c.length) (hmax : headerSize + c.length ≤ max.toNat) :
    ¬ (withHeader c).length < minFrameSize ∧ validateProtocol (withHeader c) = true ∧
      getFrameBodySize (withHeader c) = some (UInt32.ofNat c.length) ∧
      (UInt32.ofNat c.length).toNat = c.length := by
  have hlt := max.toNat_lt
  have hproto := validateProtocol_withHeader c []
  have hsize := getFrameBodySize_withHeader c []
  rw [List.append_nil] at hproto hsize
  refine ⟨by rw [length_withHeader]; simp only [minFrameSize]; omega, hproto, hsize, ?_⟩
  rw [UInt32.toNat_ofNat']
  exact Nat.mod_eq_of_lt (by omega)

/-- An encoded frame within the limits is cut off, whatever follows it. -/
theorem wireFramer_encoded (hmin : bodyHeaderSize ≤ c.length) (hmax : headerSize + c.length ≤ max.toNat)
    (x : Bytes) : (wireFramer max).next (withHeader c ++ x) = .item (withHeader c) x := by
  obtain ⟨hlen, hproto, hsize, hnat⟩ := header_facts hmin hmax
  have hlead : leadingFrame max (withHeader c) =
      .ok (.frame (withHeader c) (withHeader c).length) := by
    have htotal : (UInt32.ofNat c.length).toNat + headerSize = (withHeader c).length := by
      rw [hnat, length_withHeader, Nat.add_comm]
    rw [leadingFrame_eq hlen hproto hsize, htotal, if_neg (by rw [length_withHeader]; omega),
      if_neg (Nat.lt_irrefl _), List.take_length]
  rw [wireFramer_item (leadingFrame_append hlead (by intro hc; cases hc) x), List.drop_left]

/-- A proper part of an encoded frame is waited on. -/
theorem wireFramer_short (hmin : bodyHeaderSize ≤ c.length) (hmax : headerSize + c.length ≤ max.toNat)
    {p : Bytes} (hp : p <+: withHeader c) (hne : p ≠ withHeader c) : (wireFramer max).next p = .wait := by
  obtain ⟨x, hx⟩ := hp
  obtain ⟨hlen, hproto, hsize, hnat⟩ := header_facts hmin hmax
  have hshort : p.length < (withHeader c).length := by
    have hxlen := congrArg List.length hx
    rw [List.length_append] at hxlen
    rcases List.eq_nil_or_concat x with rfl | ⟨y, z, rfl⟩
    · rw [List.append_nil] at hx
      exact absurd hx hne
    · rw [List.length_concat] at hxlen
      omega
  apply wireFramer_wait
  by_cases hsmall : p.length < minFrameSize
  · simp only [leadingFrame, hsmall, if_true]
  · have h29 : 29 ≤ p.length := by rw [minFrameSize_eq] at hsmall; omega
    rw [← hx, validateProtocol_append (by omega)] at hproto
    rw [← hx, getFrameBodySize_append (by simp only [headerSize]; omega)] at hsize
    rw [length_withHeader] at hshort
    rw [leadingFrame_eq hsmall hproto hsize, hnat, if_neg (by omega), if_pos (by omega)]

end Encoded

/-- A frame that decodes is found as soon as its last byte has arrived. -/
theorem frameFramer_exact (evp : Evp) (max : UInt32) (encrypted : Bool) (key : Bytes) :
    (frameFramer evp max encrypted key).Exact := by
  intro b f rest h
  obtain ⟨raw, hnext, hdec⟩ := (wireFramer max).item_of_decode _ h
  obtain ⟨lead, hlead⟩ := leadingFrame_total max b
  simp only [wireFramer, hlead] at hnext
  cases lead with
  | frame raw' size =>
    cases hnext
    obtain ⟨hraw, _, hle, hmax⟩ := leadingFrame_frame hlead
    have hlen : raw.length = size := by rw [hraw, List.length_take, Nat.min_eq_left hle]
    have hok : decodeFrame evp raw encrypted key = .ok f := by
      cases hd : decodeFrame evp raw encrypted key with
      | error e => rw [hd] at hdec; cases hdec
      | ok g => rw [hd] at hdec; cases hdec; rfl
    obtain ⟨c, rfl, _, hopen, _⟩ := decodeFrame_ok_iff.mp hok
    have hbody := length_frameBody f 0
    simp only [Frame.bodySize] at hbody
    -- What decodes is no shorter than the smallest frame.
    have hmin : bodyHeaderSize ≤ c.length := by
      cases encrypted with
      | false =>
        cases hopen
        omega
      | true =>
        cases hd : aesDecrypt evp c key with
        | error e => rw [openBody, if_pos rfl, hd] at hopen; cases hopen
        | ok m =>
          have hge := (aesDecrypt_ok hd).2.1
          simp only [bodyHeaderSize]
          omega
    have hfit : headerSize + c.length ≤ max.toNat := by
      rw [length_withHeader] at hlen
      omega
    have hcut := wireFramer_encoded hmin hfit []
    rw [List.append_nil] at hcut
    refine ⟨withHeader c, ?_, Framer.decode_ok _ _ hcut hdec⟩
    rw [hraw, List.take_append_drop]
  | _ => cases hnext

end Fmxp
