import Fmxp.Core.Codec

/-! What decoding returns for what was encoded.

Within the sizes the format provides for, decoding undoes encoding
(`decode_encode`). Beyond them three lengths are narrowed without a test: the path
length to 16 bits, the body size to 32, and the plaintext length to an `int` on
its way into the cipher. `decode_encode_faithful_iff` says for every frame whether
the decoder can return something else than what was encoded. -/
namespace Fmxp

/-- The size of a body before encryption. -/
def Frame.bodySize (f : Frame) : Nat := bodyHeaderSize + f.path.length + f.data.length

theorem length_frameBody (f : Frame) (r : UInt32) : (frameBody f r).length = f.bodySize := by
  rw [frameBody_eq, List.length_append, length_bodyHeader, List.length_append, Frame.bodySize, Nat.add_assoc]

/-- The frame an encoder with this replacement stands for. -/
def Frame.renumber (f : Frame) (fidReplacement : UInt32) : Frame :=
  {f with fid := if fidReplacement = 0 then f.fid else fidReplacement}

theorem frameBody_renumber (f : Frame) (r : UInt32) : frameBody (f.renumber r) 0 = frameBody f r := rfl

theorem encodeFrame_encrypted_ok {evp : Evp} {iv : Block 12} {f : Frame} {key encoded : Bytes} {r : UInt32}
    (h : encodeFrame evp iv f true key r = .ok encoded) :
    ∃ c, aesEncrypt evp iv (frameBody f r) key = .ok c ∧ encoded = withHeader c := by
  simp only [encodeFrame, if_true] at h
  split at h
  · cases h
  · next c hc =>
    cases h
    exact ⟨c, hc, rfl⟩

theorem encodeFrame_of_aesEncrypt {evp : Evp} {iv : Block 12} {f : Frame} {key c : Bytes} {r : UInt32}
    (h : aesEncrypt evp iv (frameBody f r) key = .ok c) :
    encodeFrame evp iv f true key r = .ok (withHeader c) := by
  simp only [encodeFrame, if_true, h]

/-- An encrypted frame on the wire: header, IV, tag and what went through the cipher. -/
theorem length_encodeFrame {evp : Evp} {iv : Block 12} {f : Frame} {key encoded : Bytes} {r : UInt32}
    (h : encodeFrame evp iv f true key r = .ok encoded) :
    encoded.length = headerSize + 28 + (cInt f.bodySize).toNat := by
  obtain ⟨c, hc, rfl⟩ := encodeFrame_encrypted_ok h
  obtain ⟨_, hpos, hlen, _⟩ := aesEncrypt_ok hc
  rw [length_frameBody] at hpos hlen
  rw [length_withHeader]
  omega

/-- Under a 32-byte key the encoder fails on a size that is negative as an `int`, and on no other. -/
theorem encodeFrame_total (evp : Evp) (iv : Block 12) (f : Frame) {key : Bytes} (r : UInt32)
    (hkey : key.length = 32) :
    if 0 ≤ cInt f.bodySize then ∃ encoded, encodeFrame evp iv f true key r = .ok encoded
    else ∃ e, encodeFrame evp iv f true key r = .error e := by
  have hlen := length_frameBody f r
  split
  · next hpos =>
    obtain ⟨c, hc⟩ := aesEncrypt_total evp iv (frameBody f r) hkey (hlen ▸ hpos)
    exact ⟨_, encodeFrame_of_aesEncrypt hc⟩
  · next hneg =>
    have hfail := aesEncrypt_negative evp iv (frameBody f r) hkey (by rw [hlen]; omega)
    exact ⟨throwErr ERR_ENCRYPTION "Encrypt update failed", by simp only [encodeFrame, if_true, hfail]⟩

theorem encodeFrame_key {evp : Evp} {iv : Block 12} {f : Frame} {key : Bytes} {r : UInt32}
    (hkey : key.length ≠ 32) :
    encodeFrame evp iv f true key r = .error ⟨"Invalid AES-256 key"⟩ := by
  simp only [encodeFrame, if_true, aesEncrypt_key hkey]

theorem cInt_lt (n : Nat) : cInt n < 2 ^ 31 := by
  simp only [cInt]
  split <;> omega

/-- An encrypted body decodes as the bytes that went through the cipher do. -/
theorem decodeFrame_encrypted {evp : Evp} {iv : Block 12} {body key c : Bytes}
    (h : aesEncrypt evp iv body key = .ok c) :
    decodeFrame evp (withHeader c) true key = decodeBody (body.take (cInt body.length).toNat) := by
  have hlen := (aesEncrypt_ok h).2.2.1
  have hint := cInt_lt body.length
  have hopen : openBody evp c true key = .ok (body.take (cInt body.length).toNat) := by
    simp only [openBody, if_true, aesDecrypt_encrypt h, Except.mapError]
  rw [decodeFrame_withHeader evp (by omega), hopen]
  rfl

theorem decodeFrame_clear {evp : Evp} {body key : Bytes} (h : body.length < 2 ^ 32) :
    decodeFrame evp (withHeader body) false key = decodeBody body := by
  rw [decodeFrame_withHeader evp h]
  rfl

theorem decodeBody_frameBody {f : Frame} (r : UInt32) (hpath : f.path.length < 65536) :
    decodeBody (frameBody f r) = .ok (f.renumber r) :=
  decodeBody_ok_iff.mpr ⟨(frameBody_renumber f r).symm, hpath⟩

/-- An encrypted frame of less than `2 ^ 31` bytes decodes to the frame it was made of. -/
theorem decodeFrame_encodeFrame {evp : Evp} {iv : Block 12} {f : Frame} {key encoded : Bytes} {r : UInt32}
    (hpath : f.path.length < 65536) (hsize : f.bodySize < 2 ^ 31)
    (h : encodeFrame evp iv f true key r = .ok encoded) :
    decodeFrame evp encoded true key = .ok (f.renumber r) := by
  obtain ⟨c, hc, rfl⟩ := encodeFrame_encrypted_ok h
  have hint : cInt (frameBody f r).length = (frameBody f r).length :=
    cInt_of_lt (by rw [length_frameBody]; exact hsize)
  rw [decodeFrame_encrypted hc, hint, Int.toNat_natCast, List.take_length]
  exact decodeBody_frameBody r hpath

/-- **Round trip**: within the format's sizes, decoding what was encoded returns the
frame, with the fid the encoder was told to write. -/
theorem decode_encode (evp : Evp) (iv : Block 12) (f : Frame) (encrypt : Bool) (key : Bytes) (r : UInt32)
    (hkey : key.length = 32) (hpath : f.path.length ≤ 65535)
    (hsize : 20 + f.path.length + f.data.length < 2 ^ 31 - 28) :
    ∃ encoded, encodeFrame evp iv f encrypt key r = .ok encoded ∧
      decodeFrame evp encoded encrypt key = .ok {f with fid := if r = 0 then f.fid else r} := by
  have hshort : f.path.length < 65536 := Nat.lt_succ_of_le hpath
  have hlen : f.bodySize < 2 ^ 31 - 28 := hsize
  cases encrypt with
  | false =>
    have hbody := decodeBody_frameBody r hshort
    exact ⟨_, rfl, (decodeFrame_clear (by rw [length_frameBody]; omega)).trans hbody⟩
  | true =>
    have hint : cInt f.bodySize = f.bodySize := cInt_of_lt (by omega)
    have htotal := encodeFrame_total evp iv f r hkey
    rw [if_pos (by omega)] at htotal
    obtain ⟨encoded, henc⟩ := htotal
    exact ⟨encoded, henc, decodeFrame_encodeFrame hshort (by omega) henc⟩

/-- The round trip at a small encrypted frame. -/
theorem decode_encode_ping :
    ∃ encoded, encodeFrame Evp.transparent iv7
        ⟨3, 1, 9, STATUS_REQ, 0, ascii ['/', 'p'], [1, 2]⟩ true (List.replicate 32 5) 8 = .ok encoded ∧
      decodeFrame Evp.transparent encoded true (List.replicate 32 5) =
        .ok ⟨8, 1, 9, STATUS_REQ, 0, ascii ['/', 'p'], [1, 2]⟩ :=
  decode_encode Evp.transparent iv7
    ⟨3, 1, 9, STATUS_REQ, 0, ascii ['/', 'p'], [1, 2]⟩ true (List.replicate 32 5) 8
    (by decide) (by decide) (by decide)

/-! ### Beyond the sizes -/

/-- The path length the encoder writes. -/
def Frame.wirePathLen (f : Frame) : Nat := f.path.length % 65536

/-- Decoding the first `m` bytes of a body: refused when they do not hold the path
the header announces, and otherwise split at the announced length. -/
theorem decodeBody_take (f : Frame) {m : Nat} (hm : m ≤ f.bodySize) :
    (m < bodyHeaderSize + f.wirePathLen → ∃ e, decodeBody ((frameBody f 0).take m) = .error e) ∧
    (bodyHeaderSize + f.wirePathLen ≤ m → decodeBody ((frameBody f 0).take m) =
      .ok {f with
        path := ((f.path ++ f.data).take (m - bodyHeaderSize)).take f.wirePathLen
        data := ((f.path ++ f.data).take (m - bodyHeaderSize)).drop f.wirePathLen}) := by
  have hlen := length_frameBody f 0
  have hwire : (UInt16.ofNat f.path.length).toNat = f.wirePathLen := UInt16.toNat_ofNat'
  have htail : ((f.path ++ f.data).take (m - bodyHeaderSize)).length = m - bodyHeaderSize := by
    rw [List.length_take, List.length_append]
    simp only [Frame.bodySize] at hm
    omega
  have hsplit : bodyHeaderSize ≤ m → (frameBody f 0).take m =
      bodyHeader f.rid f.fid f.ssid f.flags f.status (UInt16.ofNat f.path.length) ++
        (f.path ++ f.data).take (m - bodyHeaderSize) := by
    intro hge
    rw [frameBody_eq, List.take_append, length_bodyHeader, List.take_of_length_le (by simpa using hge)]
    rfl
  constructor
  · intro hshort
    by_cases hge : bodyHeaderSize ≤ m
    · rw [hsplit hge, decodeBody_header, hwire, if_neg (by omega)]
      exact ⟨_, rfl⟩
    · exact ⟨_, decodeBody_short (by rw [List.length_take, hlen]; omega)⟩
  · intro hfit
    rw [hsplit (by omega), decodeBody_header, hwire, if_pos (by omega)]

/-- The first `m` bytes of a body decode to nothing but the frame itself exactly
when they are refused, or are the whole body with an exact path length. -/
theorem decodeBody_take_faithful_iff (f : Frame) {m : Nat} (hm : m ≤ f.bodySize) :
    (∀ g, decodeBody ((frameBody f 0).take m) = .ok g → g = f) ↔
      m < bodyHeaderSize + f.wirePathLen ∨ (m = f.bodySize ∧ f.path.length < 65536) := by
  obtain ⟨hrefuse, haccept⟩ := decodeBody_take f hm
  have hwire : f.wirePathLen = f.path.length % 65536 := rfl
  have hsize : f.bodySize = bodyHeaderSize + f.path.length + f.data.length := rfl
  by_cases hfit : bodyHeaderSize + f.wirePathLen ≤ m
  · have hdecoded := haccept hfit
    constructor
    · intro h
      have hg := h _ hdecoded
      have hpath := congrArg (fun g => g.path.length) hg
      have hdata := congrArg (fun g => g.data.length) hg
      simp only [List.length_take, List.length_drop, List.length_append] at hpath hdata
      right
      omega
    · rintro (hlt | ⟨rfl, hshort⟩) g hg
      · omega
      · have hexact : f.wirePathLen = f.path.length := Nat.mod_eq_of_lt hshort
        rw [hdecoded] at hg
        cases hg
        have hall : (f.path ++ f.data).take (f.bodySize - bodyHeaderSize) = f.path ++ f.data := by
          apply List.take_of_length_le
          rw [List.length_append]
          omega
        rw [hall, hexact, List.take_left, List.drop_left]
  · obtain ⟨e, he⟩ := hrefuse (by omega)
    refine ⟨fun _ => .inl (by omega), fun _ g hg => ?_⟩
    rw [he] at hg
    cases hg

/-- Whatever an encrypted frame decodes to has the ids it was encoded with, and its path if that
is no longer than the format allows. -/
theorem decodeFrame_encoded {evp : Evp} {iv : Block 12} {f g : Frame} {key encoded : Bytes} {r : UInt32}
    (henc : encodeFrame evp iv f true key r = .ok encoded) (hdec : decodeFrame evp encoded true key = .ok g) :
    g.fid = (f.renumber r).fid ∧ g.rid = f.rid ∧ g.ssid = f.ssid ∧ (f.path.length < 65536 → g.path = f.path) := by
  obtain ⟨c, hc, rfl⟩ := encodeFrame_encrypted_ok henc
  rw [decodeFrame_encrypted hc, ← frameBody_renumber, length_frameBody] at hdec
  have hle := cInt_le (f.renumber r).bodySize
  obtain ⟨hrefuse, haccept⟩ := decodeBody_take (f.renumber r) (m := (cInt (f.renumber r).bodySize).toNat) (by omega)
  by_cases hfit : bodyHeaderSize + (f.renumber r).wirePathLen ≤ (cInt (f.renumber r).bodySize).toNat
  · rw [haccept hfit] at hdec
    cases hdec
    refine ⟨rfl, rfl, rfl, fun hpath => ?_⟩
    have hwire : (f.renumber r).wirePathLen = f.path.length := Nat.mod_eq_of_lt hpath
    rw [hwire] at hfit ⊢
    rw [List.take_take, Nat.min_eq_left (by omega)]
    exact List.take_left
  · obtain ⟨e, he⟩ := hrefuse (by omega)
    rw [he] at hdec
    cases hdec

/-- The frames no narrowing can corrupt. In the clear the path fits its 16 bits, or
the body size does not fit its 32 and the decoder rejects the mismatch. Encrypted,
the path fits and the cipher is passed the true length, or that length is negative
or leaves too little plaintext for the path announced, and one side fails. -/
def Frame.Faithful (f : Frame) (encrypt : Bool) : Prop :=
  if encrypt then
    cInt f.bodySize < bodyHeaderSize + f.path.length % 65536 ∨
      (f.bodySize < 2 ^ 31 ∧ f.path.length < 65536)
  else 2 ^ 32 ≤ f.bodySize ∨ f.path.length < 65536

/-- **What the decoder returns for an encoded frame is that frame, for exactly the
frames of `Faithful`.** -/
theorem decode_encode_faithful_iff (evp : Evp) (iv : Block 12) (f : Frame) (encrypt : Bool) (key : Bytes)
    (hkey : key.length = 32) :
    (∀ encoded, encodeFrame evp iv f encrypt key = .ok encoded →
      ∀ g, decodeFrame evp encoded encrypt key = .ok g → g = f) ↔ f.Faithful encrypt := by
  have hlen := length_frameBody f 0
  have hsize : f.bodySize = bodyHeaderSize + f.path.length + f.data.length := rfl
  have hwire : f.wirePathLen = f.path.length % 65536 := rfl
  cases encrypt with
  | false =>
    have hencode : encodeFrame evp iv f false key = .ok (withHeader (frameBody f 0)) := rfl
    have hall : (frameBody f 0).take f.bodySize = frameBody f 0 := List.take_of_length_le (by omega)
    have hiff := decodeBody_take_faithful_iff f (Nat.le_refl f.bodySize)
    rw [hall] at hiff
    simp only [hencode, Except.ok.injEq, forall_eq', Frame.Faithful, Bool.false_eq_true, if_false]
    by_cases hbig : 2 ^ 32 ≤ f.bodySize
    · simp only [hbig, true_or, iff_true, decodeFrame_truncated evp (hlen ▸ hbig)]
      intro g hg
      cases hg
    · rw [decodeFrame_clear (by omega), hiff]
      omega
  | true =>
    simp only [Frame.Faithful, if_true]
    by_cases hneg : cInt f.bodySize < 0
    · have hfail := aesEncrypt_negative evp iv (frameBody f 0) hkey (hlen ▸ hneg)
      simp only [encodeFrame, if_true, hfail]
      refine ⟨fun _ => .inl (by omega), fun _ encoded he => ?_⟩
      cases he
    · obtain ⟨c, hc⟩ := aesEncrypt_total evp iv (frameBody f 0) hkey (by rw [hlen]; omega)
      have hle := cInt_le f.bodySize
      have hiff := decodeBody_take_faithful_iff f (m := (cInt f.bodySize).toNat) (by omega)
      simp only [encodeFrame_of_aesEncrypt hc, Except.ok.injEq, forall_eq', decodeFrame_encrypted hc, hlen, hiff]
      have hsmall := cInt_lt f.bodySize
      have hexact : f.bodySize < 2 ^ 31 → cInt f.bodySize = f.bodySize := cInt_of_lt
      omega

/-- A small request. -/
def smallRequest : Frame := ⟨3, 1, 9, STATUS_REQ, 0, ascii ['/', 'p'], [1, 2]⟩

/-- The small request meets the condition, and what is decoded for it is that request. -/
theorem smallRequest_faithful :
    smallRequest.Faithful true ∧ ∀ encoded,
      encodeFrame Evp.transparent iv7 smallRequest true (List.replicate 32 5) = .ok encoded →
      ∀ g, decodeFrame Evp.transparent encoded true (List.replicate 32 5) = .ok g → g = smallRequest := by
  have hfaithful : smallRequest.Faithful true := by
    unfold Frame.Faithful
    decide
  exact ⟨hfaithful, (decode_encode_faithful_iff Evp.transparent iv7 smallRequest true
    (List.replicate 32 5) (by decide)).mpr hfaithful⟩

/-- A request whose path has 65536 bytes; its path length is written as 0. -/
def longPath : Frame := ⟨1, 1, 9, STATUS_REQ, 0, List.replicate 65536 97, []⟩

/-- **A path of 65536 bytes is decoded as an empty path and 65536 bytes of data.** -/
theorem longPath_corrupted :
    ∃ encoded, encodeFrame Evp.transparent iv7 longPath true
        (List.replicate 32 5) = .ok encoded ∧
      ∃ g, decodeFrame Evp.transparent encoded true (List.replicate 32 5) = .ok g ∧
        g.path = [] ∧ g.data = longPath.path ∧ g ≠ longPath := by
  have hpathLen : longPath.path.length = 65536 := List.length_replicate
  have hdata : longPath.data = [] := rfl
  have hsize : longPath.bodySize = 65556 := by
    rw [Frame.bodySize, hpathLen, hdata]
    rfl
  have hint : cInt longPath.bodySize = longPath.bodySize := cInt_of_lt (by omega)
  have hwire : longPath.wirePathLen = 0 := by rw [Frame.wirePathLen, hpathLen]
  obtain ⟨c, hc⟩ := aesEncrypt_total Evp.transparent iv7
    (frameBody longPath 0) (show (List.replicate 32 5).length = 32 from rfl)
    (by rw [length_frameBody, hint]; omega)
  have hdecode := (decodeBody_take longPath (Nat.le_refl longPath.bodySize)).2
    (by rw [hwire, hsize]; decide)
  have hall : (longPath.path ++ longPath.data).take (longPath.bodySize - bodyHeaderSize) =
      longPath.path := by
    rw [hdata, List.append_nil, List.take_of_length_le (by rw [hpathLen, hsize]; decide)]
  rw [hall, hwire, List.take_zero, List.drop_zero] at hdecode
  refine ⟨_, encodeFrame_of_aesEncrypt hc, {longPath with path := [], data := longPath.path}, ?_, rfl, rfl, ?_⟩
  · rw [decodeFrame_encrypted hc, length_frameBody, hint, Int.toNat_natCast]
    exact hdecode
  · intro heq
    have hlen := congrArg (fun g => g.path.length) heq
    rw [hpathLen] at hlen
    cases hlen

end Fmxp
