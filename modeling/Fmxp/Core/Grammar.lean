import Fmxp.Core.RoundTrip

/-! The wire grammar, and the decoder's language.

The grammar is written down without the encoder: the bytes of a frame in terms of numbers and their
big-endian strings. `decodeFrame_grammar` says that the decoder accepts exactly this language, and throws
on everything else; in the clear a frame is then the only thing its byte string can decode to, and that byte
string the only one that decodes to it. -/
namespace Fmxp

/-- The plaintext of a body: a 20-byte header that ends in the length of the path, the path and the data. -/
def bodyGrammar (f : Frame) : Bytes :=
  BigEndian.ofNat 4 f.rid.toNat ++ BigEndian.ofNat 4 f.fid.toNat ++ BigEndian.ofNat 8 f.ssid.toNat ++
    [f.flags, f.status] ++ BigEndian.ofNat 2 f.path.length ++ f.path ++ f.data

/-- `b` is `fmxp`, the byte 1, the length of `c` on four bytes, and `c`. -/
def HeaderGrammar (b c : Bytes) : Prop :=
  c.length < 256 ^ 4 ∧ b = ascii ['f', 'm', 'x', 'p'] ++ [1] ++ BigEndian.ofNat 4 c.length ++ c

/-- `b` is the frame `f` on the wire. -/
def FrameGrammar (evp : Evp) (encrypted : Bool) (key b : Bytes) (f : Frame) : Prop :=
  ∃ c, HeaderGrammar b c ∧ f.path.length ≤ 65535 ∧
    if encrypted then aesDecrypt evp c key = .ok (bodyGrammar f) else c = bodyGrammar f

/-- What is thrown, as opposed to a read outside a buffer. -/
def Exn.Thrown (e : Exn) : Prop := e ≠ .wildRead

/-! ### The encoder writes the grammar -/

theorem headerGrammar_iff {b c : Bytes} : HeaderGrammar b c ↔ c.length < 2 ^ 32 ∧ b = withHeader c := by
  have hversion : u8ToStr fmxpVersion = [1] := rfl
  have htag : protocolTag = ascii ['f', 'm', 'x', 'p'] := rfl
  unfold HeaderGrammar withHeader
  rw [hversion, htag, u32ToStr_eq]
  have hsize : c.length < 2 ^ 32 → (UInt32.ofNat c.length).toNat = c.length := by
    intro hc
    rw [UInt32.toNat_ofNat']
    exact Nat.mod_eq_of_lt hc
  constructor
  · rintro ⟨hc, rfl⟩
    exact ⟨hc, by rw [hsize hc]⟩
  · rintro ⟨hc, rfl⟩
    exact ⟨hc, by rw [hsize hc]⟩

theorem frameBody_grammar {f : Frame} (hpath : f.path.length ≤ 65535) : frameBody f 0 = bodyGrammar f := by
  have hlen : (UInt16.ofNat f.path.length).toNat = f.path.length := pathLen_toNat (Nat.lt_succ_of_le hpath)
  simp only [frameBody, bodyGrammar, u32ToStr_eq, u64ToStr_eq, u16ToStr_eq, u8ToStr, hlen, if_true,
    List.append_assoc, List.cons_append, List.nil_append]

theorem frameGrammar_iff {evp : Evp} {encrypted : Bool} {key b : Bytes} {f : Frame} :
    decodeFrame evp b encrypted key = .ok f ↔ FrameGrammar evp encrypted key b f := by
  have hopen : ∀ c, openBody evp c encrypted key = .ok (frameBody f 0) ↔
      if encrypted then aesDecrypt evp c key = .ok (frameBody f 0) else c = frameBody f 0 := by
    intro c
    cases encrypted with
    | false => exact ⟨fun h => Except.ok.inj h, fun h => congrArg _ h⟩
    | true =>
      simp only [openBody, if_true]
      cases aesDecrypt evp c key with
      | ok body => exact ⟨fun h => congrArg _ (Except.ok.inj h), fun h => congrArg _ (Except.ok.inj h)⟩
      | error e => exact iff_of_false (fun h => by cases h) (fun h => by cases h)
  rw [decodeFrame_ok_iff]
  constructor
  · rintro ⟨c, hb, hc, hbody, hpath⟩
    have hshort : f.path.length ≤ 65535 := Nat.le_of_lt_succ hpath
    refine ⟨c, headerGrammar_iff.mpr ⟨hc, hb⟩, hshort, ?_⟩
    rw [← frameBody_grammar hshort]
    exact (hopen c).mp hbody
  · rintro ⟨c, hheader, hpath, hbody⟩
    obtain ⟨hc, hb⟩ := headerGrammar_iff.mp hheader
    rw [← frameBody_grammar hpath] at hbody
    exact ⟨c, hb, hc, (hopen c).mpr hbody, Nat.lt_succ_of_le hpath⟩

/-- What the decoder does not accept it refuses with an exception. -/
theorem decodeFrame_throws {evp : Evp} {encrypted : Bool} {key b : Bytes}
    (h : ∀ f, ¬ FrameGrammar evp encrypted key b f) :
    ∃ e, decodeFrame evp b encrypted key = .error e ∧ e.Thrown := by
  cases hdecode : decodeFrame evp b encrypted key with
  | ok f => exact absurd (frameGrammar_iff.mp hdecode) (h f)
  | error e =>
    refine ⟨e, rfl, ?_⟩
    rcases decodeFrame_error hdecode with ⟨msg, rfl⟩ | ⟨x, rfl⟩
    · exact nofun
    · exact nofun

/-- In the clear, encoding what was decoded gives the bytes back. -/
theorem encodeFrame_decodeFrame {evp : Evp} {key b : Bytes} {f : Frame}
    (h : decodeFrame evp b false key = .ok f) (iv : Block 12) (key' : Bytes) :
    encodeFrame evp iv f false key' = .ok b := by
  obtain ⟨c, hb, _, hopen, _⟩ := decodeFrame_ok_iff.mp h
  have hc : c = frameBody f 0 := Except.ok.inj hopen
  rw [hb, hc]
  rfl

/-- **The decoder accepts exactly the wire grammar**, throws on everything else, and in the clear loses nothing: the
frame encodes to the bytes it was decoded from, and no other bytes decode to it. -/
theorem decodeFrame_grammar (evp : Evp) (b key : Bytes) (encrypted : Bool) :
    (∀ f, decodeFrame evp b encrypted key = .ok f ↔ FrameGrammar evp encrypted key b f) ∧
    ((∀ f, ¬ FrameGrammar evp encrypted key b f) →
      ∃ e, decodeFrame evp b encrypted key = .error e ∧ e.Thrown) ∧
    (∀ f, decodeFrame evp b false key = .ok f →
      (∀ iv key', encodeFrame evp iv f false key' = .ok b) ∧
      ∀ b' key', decodeFrame evp b' false key' = .ok f → b' = b) := by
  refine ⟨fun f => frameGrammar_iff, decodeFrame_throws, fun f h => ⟨encodeFrame_decodeFrame h, ?_⟩⟩
  intro b' key' h'
  have hb := encodeFrame_decodeFrame h iv7 []
  have hb' := encodeFrame_decodeFrame h' iv7 []
  exact Except.ok.inj (hb'.symm.trans hb)

/-- A small request in the clear, and a byte string one byte short of it. -/
theorem decodeFrame_grammar_request :
    decodeFrame Evp.transparent (withHeader (bodyGrammar smallRequest)) false [] = .ok smallRequest ∧
    (∃ e, decodeFrame Evp.transparent ((withHeader (bodyGrammar smallRequest)).take 32) false [] = .error e ∧
      e.Thrown) ∧
    encodeFrame Evp.transparent iv7 smallRequest false [] = .ok (withHeader (bodyGrammar smallRequest)) := by
  have hdecode : decodeFrame Evp.transparent (withHeader (bodyGrammar smallRequest)) false [] =
      .ok smallRequest := by
    decide
  have hshort := decodeFrame_grammar Evp.transparent ((withHeader (bodyGrammar smallRequest)).take 32) [] false
  have hnone : ∀ f, ¬ FrameGrammar Evp.transparent false [] ((withHeader (bodyGrammar smallRequest)).take 32) f := by
    intro f hf
    have hok := (hshort.1 f).mpr hf
    have herr : decodeFrame Evp.transparent ((withHeader (bodyGrammar smallRequest)).take 32) false [] =
        .error (invalidFrame "Frame body size mismatch") := by
      decide
    rw [herr] at hok
    cases hok
  exact ⟨hdecode, hshort.2.1 hnone, ((decodeFrame_grammar Evp.transparent _ [] false).2.2 _ hdecode).1 iv7 []⟩

end Fmxp
