import Fmxp.Core.Stream
import Fmxp.Library.Counter

/-! What both endpoints draw from outside: OpenSSL's RSA, the results of `send` and
the outcomes of reading a socket. -/
namespace Fmxp

/-- RSA-OAEP as `rsa.cpp` calls it: key in PEM form, randomness as an argument. -/
structure Rsa where
  encrypt : Bytes → Bytes → Bytes → Except RuntimeError Bytes
  decrypt : Bytes → Bytes → Except RuntimeError Bytes

def rsaEncrypt (rsa : Rsa) (seed plaintext publicKeyPem : Bytes) : Except RuntimeError Bytes :=
  rsa.encrypt seed plaintext publicKeyPem

def rsaDecrypt (rsa : Rsa) (ciphertext privateKeyPem : Bytes) : Except RuntimeError Bytes :=
  rsa.decrypt ciphertext privateKeyPem

/-- Decryption with the private key undoes encryption with the public one. -/
def Rsa.KeyPair (rsa : Rsa) (publicKey privateKey : Bytes) : Prop :=
  ∀ seed plaintext ciphertext, rsa.encrypt seed plaintext publicKey = .ok ciphertext →
    rsa.decrypt ciphertext privateKey = .ok plaintext

/-- An executable instance that leaves its input as it is. -/
def Rsa.transparent : Rsa := ⟨fun _ plaintext _ => .ok plaintext, fun ciphertext _ => .ok ciphertext⟩

/-- What one call of `send` does: fail, or take up to `n` bytes of what it is given. -/
inductive SendResult where
  | error
  | count (n : Nat)
  deriving DecidableEq, Repr

/-- The bytes a result takes at most; 0 is treated as a failure, as the code does. -/
def SendResult.bytes : SendResult → Nat
  | .error => 0
  | .count n => n

/-- How a run of `recv` calls on a socket ends. -/
inductive RecvEnd where
  | again
  | disconnect
  | error
  deriving DecidableEq, Repr

/-- What one wake-up reads: the chunks `recv` returned, and what ended them. -/
structure Recv where
  chunks : List Bytes
  fin : RecvEnd
  deriving DecidableEq, Repr

def Recv.bytes (r : Recv) : Bytes := r.chunks.flatten

/-- One chunk, and nothing more for now. -/
def Recv.once (chunk : Bytes) : Recv := ⟨[chunk], .again⟩

def connectionSecured : Bytes :=
  ascii ['C', 'o', 'n', 'n', 'e', 'c', 't', 'i', 'o', 'n', ' ', 's', 'e', 'c', 'u', 'r', 'e', 'd']

/-- The encoding of a frame that `Evp.transparent` gives with `iv7` and a key of fives. -/
def sealedFrame (frame : Frame) (fidReplacement : UInt32) : Bytes :=
  withHeader (iv7.val ++ List.replicate 16 5 ++ frameBody frame fidReplacement)

/-! ### Frames of a session

Both endpoints take a frame when it carries the session id and a fid above the
last one taken. -/

instance instPreorderFid : Preorder UInt32 where
  le_refl := UInt32.le_refl
  le_trans := fun _ _ _ => UInt32.le_trans
  lt_iff_le_not_ge := fun a b => by
    simp only [UInt32.lt_iff_toNat_lt, UInt32.le_iff_toNat_le]
    omega

/-- The frames of a batch that are taken, up to the first that is refused. -/
def acceptedFrames (ssid : UInt64) (last : UInt32) (frames : List Frame) : List Frame :=
  Counter.accepted Frame.fid (fun frame => frame.ssid == ssid) last frames

/-- The fids increase from above `last`. -/
def Fresh (last : UInt32) (frames : List Frame) : Prop := Counter.Increasing Frame.fid last frames

def lastFid (last : UInt32) (frames : List Frame) : UInt32 := Counter.final Frame.fid last frames

theorem acceptedFrames_fresh (ssid : UInt64) (last : UInt32) (frames : List Frame) :
    Fresh last (acceptedFrames ssid last frames) :=
  Counter.accepted_increasing ..

theorem acceptedFrames_isPrefix (ssid : UInt64) (last : UInt32) (frames : List Frame) :
    acceptedFrames ssid last frames <+: frames :=
  Counter.accepted_isPrefix ..

theorem ssid_of_mem_acceptedFrames {ssid : UInt64} {last : UInt32} {frames : List Frame} {f : Frame}
    (h : f ∈ acceptedFrames ssid last frames) : f.ssid = ssid := by
  have hok := Counter.ok_of_mem_accepted h
  exact beq_iff_eq.mp hok

theorem acceptedFrames_of_fresh {ssid : UInt64} {last : UInt32} {frames : List Frame}
    (h : Fresh last frames) (hssid : ∀ f ∈ frames, f.ssid = ssid) :
    acceptedFrames ssid last frames = frames :=
  Counter.accepted_of_increasing h fun f hf => beq_iff_eq.mpr (hssid f hf)

/-- All frames of a batch are taken when all carry the session id and their fids increase. -/
theorem acceptedFrames_eq_self {ssid : UInt64} {last : UInt32} {frames : List Frame} :
    acceptedFrames ssid last frames = frames ↔ Fresh last frames ∧ ∀ f ∈ frames, f.ssid = ssid := by
  constructor
  · intro h
    have hfresh := acceptedFrames_fresh ssid last frames
    rw [h] at hfresh
    exact ⟨hfresh, fun f hf => ssid_of_mem_acceptedFrames (h.symm ▸ hf)⟩
  · rintro ⟨hfresh, hssid⟩
    exact acceptedFrames_of_fresh hfresh hssid

/-- Fids that increase go on increasing from where a part of them ends. -/
theorem Fresh.append {last : UInt32} {xs ys : List Frame} :
    Fresh last (xs ++ ys) ↔ Fresh last xs ∧ Fresh (lastFid last xs) ys :=
  Counter.increasing_append_iff Frame.fid

theorem lastFid_append (last : UInt32) (xs ys : List Frame) :
    lastFid last (xs ++ ys) = lastFid (lastFid last xs) ys :=
  Counter.final_append ..

theorem acceptedFrames_append_of_eq {ssid : UInt64} {last : UInt32} {xs : List Frame}
    (h : acceptedFrames ssid last xs = xs) (ys : List Frame) :
    acceptedFrames ssid last (xs ++ ys) = xs ++ acceptedFrames ssid (lastFid last xs) ys :=
  Counter.accepted_append_of_eq h ys

theorem acceptedFrames_append_of_ne {ssid : UInt64} {last : UInt32} {xs : List Frame}
    (h : acceptedFrames ssid last xs ≠ xs) (ys : List Frame) :
    acceptedFrames ssid last (xs ++ ys) = acceptedFrames ssid last xs :=
  Counter.accepted_append_of_ne h ys

/-- One frame of a batch: taken, and the rest is looked at with its fid. -/
theorem acceptedFrames_cons (ssid : UInt64) (last : UInt32) (f : Frame) (frames : List Frame) :
    acceptedFrames ssid last (f :: frames) =
      if f.ssid = ssid ∧ last < f.fid then f :: acceptedFrames ssid f.fid frames else [] := by
  simp only [acceptedFrames, Counter.accepted, beq_iff_eq]

/-! ### Encoded frames

Both endpoints keep a ledger of what they have encoded: the key, and the bytes. -/

/-- The entry is an encoding of this frame. -/
def Carries (evp : Evp) (entry : Bytes × Bytes) (frame : Frame) : Prop :=
  ∃ iv, encodeFrame evp iv frame true entry.1 = .ok entry.2

/-- The entries are encodings of frames with this session id, and with increasing fids. -/
def Numbered (evp : Evp) (ssid : UInt64) (entries : List (Bytes × Bytes)) : Prop :=
  ∃ frames, List.Forall₂ (Carries evp) entries frames ∧ (∀ f ∈ frames, f.ssid = ssid) ∧ Fresh 0 frames

theorem encodeFrame_renumber (evp : Evp) (iv : Block 12) (f : Frame) (key : Bytes) (r : UInt32) :
    encodeFrame evp iv f true key r = encodeFrame evp iv (f.renumber r) true key := by
  simp only [encodeFrame, frameBody_renumber]

theorem Carries.key {evp : Evp} {entry : Bytes × Bytes} {f : Frame} (h : Carries evp entry f) :
    entry.1.length = 32 := by
  obtain ⟨iv, henc⟩ := h
  obtain ⟨c, hc, _⟩ := encodeFrame_encrypted_ok henc
  exact (aesEncrypt_ok hc).1

/-- What an entry decodes to has the ids of the frame it carries. -/
theorem Carries.decoded {evp : Evp} {key raw : Bytes} {f g : Frame} (h : Carries evp (key, raw) f)
    (hdec : decodeFrame evp raw true key = .ok g) : g.fid = f.fid ∧ g.rid = f.rid ∧ g.ssid = f.ssid := by
  obtain ⟨iv, henc⟩ := h
  obtain ⟨hfid, hrid, hssid, _⟩ := decodeFrame_encoded henc hdec
  exact ⟨hfid, hrid, hssid⟩

theorem toNat_succ {n : UInt32} (h : n.toNat + 1 < 2 ^ 32) : (n + 1).toNat = n.toNat + 1 := by
  rw [UInt32.toNat_add]
  exact Nat.mod_eq_of_lt h

/-- One more frame, with a fid above all before it. -/
theorem Fresh.concat {last : UInt32} {frames : List Frame} {f : Frame} (h : Fresh last frames)
    (hlt : lastFid last frames < f.fid) : Fresh last (frames ++ [f]) :=
  Fresh.append.mpr ⟨h, hlt, trivial⟩

end Fmxp
