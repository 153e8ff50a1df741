import Fmxp.Core.Frame

/-! What the decoder accepts.

`decodeBody_ok_iff` and `decodeFrame_ok_iff` say exactly which byte strings decode
and to what: a header with the length of what follows, and a body that is the
encoding of the frame returned. Everything else about the codec is read off them. -/
namespace Fmxp

/-! ### Bodies -/

/-- The fixed part of a body. -/
def bodyHeader (rid fid : UInt32) (ssid : UInt64) (flags status : UInt8) (pathLen : UInt16) : Bytes :=
  u32ToStr rid ++ (u32ToStr fid ++ (u64ToStr ssid ++ (u8ToStr flags ++ (u8ToStr status ++
    u16ToStr pathLen))))

@[simp] theorem length_bodyHeader (rid fid : UInt32) (ssid : UInt64) (flags status : UInt8)
    (pathLen : UInt16) : (bodyHeader rid fid ssid flags status pathLen).length = bodyHeaderSize := rfl

theorem frameBody_eq (f : Frame) (r : UInt32) :
    frameBody f r = bodyHeader f.rid (if r = 0 then f.fid else r) f.ssid f.flags f.status
      (UInt16.ofNat f.path.length) ++ (f.path ++ f.data) := by
  simp only [frameBody, bodyHeader, List.append_assoc]

/-- Twenty bytes are always some header. -/
theorem split_bodyHeader {body : Bytes} (h : bodyHeaderSize ≤ body.length) :
    ∃ rid fid ssid flags status pathLen,
      body = bodyHeader rid fid ssid flags status pathLen ++ body.drop bodyHeaderSize := by
  have hsize : bodyHeaderSize = 20 := rfl
  obtain ⟨rid, h0⟩ := split_u32 (p := body) (by omega)
  obtain ⟨fid, h1⟩ := split_u32 (p := body.drop 4) (by simp; omega)
  obtain ⟨ssid, h2⟩ := split_u64 (p := body.drop 8) (by simp; omega)
  obtain ⟨flags, h3⟩ := split_u8 (p := body.drop 16) (by simp; omega)
  obtain ⟨status, h4⟩ := split_u8 (p := body.drop 17) (by simp; omega)
  obtain ⟨pathLen, h5⟩ := split_u16 (p := body.drop 18) (by simp; omega)
  refine ⟨rid, fid, ssid, flags, status, pathLen, ?_⟩
  simp only [List.drop_drop, Nat.reduceAdd] at h1 h2 h3 h4 h5
  simp only [bodyHeader, List.append_assoc, hsize]
  rw [← h5, ← h4, ← h3, ← h2, ← h1, ← h0]

section Fields
variable (rid fid : UInt32) (ssid : UInt64) (flags status : UInt8) (pathLen : UInt16) (rest : Bytes)

theorem bodyHeader_fields :
    let body := bodyHeader rid fid ssid flags status pathLen ++ rest
    getBodyRid body = some rid ∧ getBodyFid body = some fid ∧ getBodySsid body = some ssid ∧
      getBodyFlags body = some flags ∧ getBodyStatus body = some status ∧
      getBodyPathLen body = some pathLen ∧ getBodyPathPtr body = rest ∧
      getBodyDataPtr body pathLen = rest.drop pathLen.toNat := by
  simp only [bodyHeader, List.append_assoc, getBodyRid, getBodyFid, getBodySsid, getBodyFlags,
    getBodyStatus, getBodyPathLen, getBodyPathPtr, getBodyDataPtr]
  have hdata := List.drop_drop (i := pathLen.toNat) (j := bodyHeaderSize)
    (l := u32ToStr rid ++ (u32ToStr fid ++ (u64ToStr ssid ++ (u8ToStr flags ++ (u8ToStr status ++
      (u16ToStr pathLen ++ rest))))))
  -- The offsets are the sums of the widths before them, so each drop computes.
  exact ⟨ptrToU32_u32ToStr rid _, ptrToU32_u32ToStr fid _, ptrToU64_u64ToStr ssid _, rfl, rfl,
    ptrToU16_u16ToStr pathLen _, rfl, hdata.symm⟩

/-- Decoding a header and what follows it: the first `pathLen` bytes are the path. -/
theorem decodeBody_header :
    decodeBody (bodyHeader rid fid ssid flags status pathLen ++ rest) =
      if pathLen.toNat ≤ rest.length then
        .ok ⟨fid, rid, ssid, status, flags, rest.take pathLen.toNat, rest.drop pathLen.toNat⟩
      else .error (invalidFrame "Invalid path length") := by
  obtain ⟨h0, h1, h2, h3, h4, h5, h6, h7⟩ :=
    bodyHeader_fields rid fid ssid flags status pathLen rest
  have hlen : (bodyHeader rid fid ssid flags status pathLen ++ rest).length =
      bodyHeaderSize + rest.length := by simp
  have hbig : ¬ bodyHeaderSize + rest.length < bodyHeaderSize := by omega
  simp only [decodeBody, h0, h1, h2, h3, h4, h5, h6, h7, hlen, hbig, if_false, deref,
    bind, Except.bind, pure, Except.pure]
  by_cases hp : pathLen.toNat ≤ rest.length
  · have hfit : ¬ bodyHeaderSize + pathLen.toNat > bodyHeaderSize + rest.length := by omega
    have hdata : (rest.drop pathLen.toNat).length =
        bodyHeaderSize + rest.length - bodyHeaderSize - pathLen.toNat := by
      rw [List.length_drop]; omega
    simp only [hp, hfit, if_true, if_false, copyFrom_of_le hp, ← hdata, copyFrom_of_le (Nat.le_refl _),
      List.take_length]
  · have hfit : bodyHeaderSize + pathLen.toNat > bodyHeaderSize + rest.length := by omega
    simp only [hp, hfit, if_true, if_false]
    rfl

end Fields

theorem decodeBody_short {body : Bytes} (h : body.length < bodyHeaderSize) :
    decodeBody body = .error (invalidFrame "Body too small") := by
  simp only [decodeBody, h, if_true]
  rfl

/-- A 16-bit path length is the path's own below `2 ^ 16`. -/
theorem pathLen_toNat {n : Nat} (h : n < 65536) : (UInt16.ofNat n).toNat = n := by
  rw [UInt16.toNat_ofNat']
  exact Nat.mod_eq_of_lt h

/-- **A body decodes to a frame exactly when it is that frame's encoding.** -/
theorem decodeBody_ok_iff {body : Bytes} {f : Frame} :
    decodeBody body = .ok f ↔ body = frameBody f 0 ∧ f.path.length < 65536 := by
  constructor
  · intro h
    by_cases hshort : body.length < bodyHeaderSize
    · rw [decodeBody_short hshort] at h; cases h
    · obtain ⟨rid, fid, ssid, flags, status, pathLen, hbody⟩ := split_bodyHeader (Nat.le_of_not_lt hshort)
      rw [hbody, decodeBody_header] at h
      split at h
      · next hp =>
        cases h
        have hlen : ((body.drop bodyHeaderSize).take pathLen.toNat).length = pathLen.toNat := by
          rw [List.length_take]; omega
        refine ⟨?_, by rw [hlen]; exact pathLen.toNat_lt⟩
        rw [frameBody_eq, hlen, UInt16.ofNat_toNat, List.take_append_drop]
        exact hbody
      · cases h
  · rintro ⟨rfl, hp⟩
    rw [frameBody_eq, decodeBody_header, pathLen_toNat hp]
    simp

/-! ### Frames -/

@[simp] theorem length_withHeader (body : Bytes) : (withHeader body).length = headerSize + body.length := by
  simp [withHeader, protocolTag, ascii, headerSize]
  omega

theorem validateProtocol_withHeader (body x : Bytes) : validateProtocol (withHeader body ++ x) = true := by
  simp [validateProtocol, withHeader, protocolTag, ascii]

theorem getFrameVersion_withHeader (body x : Bytes) :
    getFrameVersion (withHeader body ++ x) = some fmxpVersion := rfl

theorem getFrameBodySize_withHeader (body x : Bytes) :
    getFrameBodySize (withHeader body ++ x) = some (UInt32.ofNat body.length) := by
  simp only [getFrameBodySize, withHeader, List.append_assoc]
  exact ptrToU32_u32ToStr _ _

theorem getFrameBodyPtr_withHeader (body : Bytes) : getFrameBodyPtr (withHeader body) = body := by
  simp only [getFrameBodyPtr, withHeader]
  exact List.drop_left' rfl

/-- What passes the header tests is a header in front of a body shorter than `2 ^ 32` bytes. -/
theorem eq_withHeader {data : Bytes} {bodySize : UInt32} (hlen : headerSize ≤ data.length)
    (hproto : validateProtocol data = true) (hversion : getFrameVersion data = some fmxpVersion)
    (hsize : getFrameBodySize data = some bodySize)
    (hmatch : bodySize.toNat = data.length - headerSize) :
    data = withHeader (data.drop headerSize) ∧ (data.drop headerSize).length < 2 ^ 32 := by
  have hbound := bodySize.toNat_lt
  have hdrop : (data.drop headerSize).length = data.length - headerSize := List.length_drop
  refine ⟨?_, by omega⟩
  have htag : data.take 4 = protocolTag := by
    simpa [validateProtocol] using (Bool.and_eq_true_iff.mp hproto).2
  obtain ⟨v, hv⟩ := split_u8 (p := data.drop 4) (by simp [headerSize] at hlen ⊢; omega)
  obtain ⟨n, hn⟩ := split_u32 (p := data.drop 5) (by simp [headerSize] at hlen ⊢; omega)
  have hv1 : v = fmxpVersion := by
    rw [getFrameVersion, hv] at hversion
    exact Option.some.inj hversion
  have hn1 : n = UInt32.ofNat (data.drop headerSize).length := by
    rw [getFrameBodySize, hn, ptrToU32_u32ToStr] at hsize
    rw [Option.some.inj hsize, hdrop, ← hmatch, UInt32.ofNat_toNat]
  simp only [List.drop_drop, Nat.reduceAdd] at hv hn
  rw [withHeader, ← htag, ← hv1, ← hn1, List.append_assoc, List.append_assoc]
  show data = data.take 4 ++ (u8ToStr v ++ (u32ToStr n ++ data.drop 9))
  rw [← hn, ← hv, List.take_append_drop]

/-- Decoding a header and a body: the body is opened and decoded. -/
theorem decodeFrame_withHeader (evp : Evp) {c : Bytes} (hc : c.length < 2 ^ 32) (encrypted : Bool)
    (key : Bytes) :
    decodeFrame evp (withHeader c) encrypted key = (openBody evp c encrypted key).bind decodeBody := by
  have hproto := validateProtocol_withHeader c []
  have hversion := getFrameVersion_withHeader c []
  have hsize := getFrameBodySize_withHeader c []
  rw [List.append_nil] at hproto hversion hsize
  have hnat : (UInt32.ofNat c.length).toNat = c.length := by
    rw [UInt32.toNat_ofNat']
    exact Nat.mod_eq_of_lt hc
  have hlen : ¬ headerSize + c.length < headerSize := by omega
  have hbody : headerSize + c.length - headerSize = c.length := by omega
  simp only [decodeFrame, length_withHeader, hlen, hproto, hversion, hsize, hnat, hbody,
    getFrameBodyPtr_withHeader, copyFrom_of_le (Nat.le_refl c.length), List.take_length, deref, if_false,
    Bool.not_true, Bool.false_eq_true, ne_eq, not_true_eq_false, bind, Except.bind]

/-- A header whose 32-bit size does not hold the length of the body is rejected. -/
theorem decodeFrame_truncated (evp : Evp) {c : Bytes} (hc : 2 ^ 32 ≤ c.length) (encrypted : Bool)
    (key : Bytes) :
    decodeFrame evp (withHeader c) encrypted key =
      .error (invalidFrame "Frame body size mismatch") := by
  have hproto := validateProtocol_withHeader c []
  have hversion := getFrameVersion_withHeader c []
  have hsize := getFrameBodySize_withHeader c []
  rw [List.append_nil] at hproto hversion hsize
  have hnat : ¬ (UInt32.ofNat c.length).toNat = headerSize + c.length - headerSize := by
    have hlt := (UInt32.ofNat c.length).toNat_lt
    omega
  have hlen : ¬ headerSize + c.length < headerSize := by omega
  simp only [decodeFrame, length_withHeader, hlen, hproto, hversion, hsize, hnat, deref, if_false,
    if_true, Bool.not_true, Bool.false_eq_true, ne_eq, not_true_eq_false, not_false_eq_true, bind,
    Except.bind]
  rfl

/-- The header tests of the decoder refuse everything but a header in front of a
body shorter than `2 ^ 32` bytes; their reads stay inside the buffer. -/
theorem decodeFrame_header (evp : Evp) (data : Bytes) (encrypted : Bool) (key : Bytes) :
    (∃ msg, decodeFrame evp data encrypted key = .error (invalidFrame msg)) ∨
      ∃ c, data = withHeader c ∧ c.length < 2 ^ 32 := by
  unfold decodeFrame
  by_cases hlen : data.length < headerSize
  · exact .inl ⟨_, if_pos hlen⟩
  · have h9 : 9 ≤ data.length := by simp only [headerSize] at hlen; omega
    rw [if_neg hlen]
    cases hproto : validateProtocol data
    · exact .inl ⟨_, rfl⟩
    · obtain ⟨version, hversion⟩ := split_u8 (p := data.drop 4) (by rw [List.length_drop]; omega)
      have hv : getFrameVersion data = some version := by rw [getFrameVersion, hversion]; rfl
      rw [hv]
      by_cases hv1 : version = fmxpVersion
      · obtain ⟨bodySize, hbody⟩ := split_u32 (p := data.drop 5) (by rw [List.length_drop]; omega)
        have hn : getFrameBodySize data = some bodySize := by
          rw [getFrameBodySize, hbody, ptrToU32_u32ToStr]
        by_cases hm : bodySize.toNat = data.length - headerSize
        · obtain ⟨hdata, hlt⟩ := eq_withHeader (Nat.le_of_not_lt hlen) hproto (hv1 ▸ hv) hn hm
          exact .inr ⟨data.drop headerSize, hdata, hlt⟩
        · refine .inl ⟨"Frame body size mismatch", ?_⟩
          simp [hn, hv1, hm, deref, bind, Except.bind]
          rfl
      · refine .inl ⟨"Protocol version mismatch", ?_⟩
        simp [hv1, deref, bind, Except.bind]
        rfl

theorem decodeFrame_ok {evp : Evp} {data key : Bytes} {encrypted : Bool} {f : Frame}
    (h : decodeFrame evp data encrypted key = .ok f) :
    ∃ c, data = withHeader c ∧ c.length < 2 ^ 32 := by
  rcases decodeFrame_header evp data encrypted key with ⟨msg, herr⟩ | hdata
  · rw [herr] at h; cases h
  · exact hdata

theorem decodeBody_error {body : Bytes} {e : Exn} (h : decodeBody body = .error e) :
    ∃ msg, e = invalidFrame msg := by
  by_cases hshort : body.length < bodyHeaderSize
  · rw [decodeBody_short hshort] at h
    cases h
    exact ⟨_, rfl⟩
  · obtain ⟨rid, fid, ssid, flags, status, pathLen, hbody⟩ := split_bodyHeader (Nat.le_of_not_lt hshort)
    rw [hbody, decodeBody_header] at h
    split at h <;> cases h
    exact ⟨_, rfl⟩

/-- Decoding fails with one of the two exceptions its callers know of: the decoder's
own, or the cipher's. -/
theorem decodeFrame_error {evp : Evp} {data key : Bytes} {encrypted : Bool} {e : Exn}
    (h : decodeFrame evp data encrypted key = .error e) :
    (∃ msg, e = invalidFrame msg) ∨ ∃ x, e = .runtime x := by
  rcases decodeFrame_header evp data encrypted key with ⟨msg, herr⟩ | ⟨c, rfl, hc⟩
  · rw [herr] at h
    cases h
    exact .inl ⟨msg, rfl⟩
  · rw [decodeFrame_withHeader evp hc] at h
    cases encrypted with
    | false => exact .inl (decodeBody_error h)
    | true =>
      cases hopen : aesDecrypt evp c key with
      | error x =>
        rw [openBody, if_pos rfl, hopen] at h
        cases h
        exact .inr ⟨x, rfl⟩
      | ok body =>
        rw [openBody, if_pos rfl, hopen] at h
        exact .inl (decodeBody_error h)

/-- **A byte string decodes to a frame exactly when it is a header in front of a
body that opens to that frame's encoding.** -/
theorem decodeFrame_ok_iff {evp : Evp} {data key : Bytes} {encrypted : Bool} {f : Frame} :
    decodeFrame evp data encrypted key = .ok f ↔
      ∃ c, data = withHeader c ∧ c.length < 2 ^ 32 ∧
        openBody evp c encrypted key = .ok (frameBody f 0) ∧ f.path.length < 65536 := by
  constructor
  · intro h
    obtain ⟨c, rfl, hc⟩ := decodeFrame_ok h
    rw [decodeFrame_withHeader evp hc] at h
    cases hopen : openBody evp c encrypted key with
    | error e => rw [hopen] at h; cases h
    | ok body =>
      rw [hopen] at h
      obtain ⟨rfl, hpath⟩ := decodeBody_ok_iff.mp h
      exact ⟨c, rfl, hc, hopen, hpath⟩
  · rintro ⟨c, rfl, hc, hopen, hpath⟩
    have hbody : decodeBody (frameBody f 0) = .ok f := decodeBody_ok_iff.mpr ⟨rfl, hpath⟩
    simp only [decodeFrame_withHeader evp hc, hopen, Except.bind, hbody]

end Fmxp
