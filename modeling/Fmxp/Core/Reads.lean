import Fmxp.Core.Stream
import Fmxp.Library.Traced

/-! The decoder and the front of the parse loops, with the memory they read.

`Recorded` repeats the functions of `frame.cpp` and `aes.cpp` that a received byte goes through, and records every read
of a buffer, every slice, every sum and difference of lengths, and the length that OpenSSL takes as an `int`, in the
order in which the code makes them. What they return is what the functions themselves return (`result_decodeFrame`,
`result_leadingFrame`), and all they touch is safe whatever the bytes are, but for that `int`: it wraps where a
ciphertext has `2 ^ 31` bytes or more (`decodeFrame_safe_iff`). -/
namespace Fmxp
open Framing

/-- A read of `count` bytes at an offset in a buffer of `size` bytes, a slice of such a buffer, the
computation of a length, or its passing as an `int`. -/
inductive Touch where
  | read (size offset count : Nat)
  | slice (size start stop : Nat)
  | sum (a b : Nat)
  | difference (a b : Nat)
  | narrow (n : Nat)
  deriving DecidableEq, Repr

/-- The read is inside the buffer, the slice in range, and the length does not wrap, in 64 bits or as an `int`. -/
def Touch.Safe : Touch → Prop
  | .read size offset count => offset + count ≤ size
  | .slice size start stop => start ≤ stop ∧ stop ≤ size
  | .sum a b => a + b < 2 ^ 64
  | .difference a b => b ≤ a
  | .narrow n => n < 2 ^ 31

abbrev Reading := Traced Touch Exn

namespace Recorded

def sum (a b : Nat) : Reading Nat := do
  .touch (.sum a b)
  return a + b

def difference (a b : Nat) : Reading Nat := do
  .touch (.difference a b)
  return a - b

/-- A read of `count` bytes through a pointer into a buffer. -/
def read {α : Type} (b : Bytes) (offset count : Nat) (r : Bytes → Option α) : Reading α := do
  .touch (.read b.length offset count)
  .lift (deref (r (b.drop offset)))

def copyFrom (b : Bytes) (offset len : Nat) : Reading Bytes := read b offset len (Fmxp.copyFrom · len)

def slice (b : Bytes) (start stop : Nat) : Reading Bytes := do
  .touch (.slice b.length start stop)
  .lift (Fmxp.slice b start stop)

/-! ### The fields -/

def validateProtocol (encoded : Bytes) : Reading Bool :=
  if encoded.length ≥ 4 then do
    .touch (.read encoded.length 0 4)
    return encoded.take 4 == protocolTag
  else return false

def getFrameVersion (encoded : Bytes) : Reading UInt8 := read encoded 4 1 List.head?
def getFrameBodySize (encoded : Bytes) : Reading UInt32 := read encoded 5 4 ptrToU32

def getBodyRid (body : Bytes) : Reading UInt32 := read body 0 4 ptrToU32
def getBodyFid (body : Bytes) : Reading UInt32 := read body 4 4 ptrToU32
def getBodySsid (body : Bytes) : Reading UInt64 := read body 8 8 ptrToU64
def getBodyFlags (body : Bytes) : Reading UInt8 := read body 16 1 List.head?
def getBodyStatus (body : Bytes) : Reading UInt8 := read body 17 1 List.head?
def getBodyPathLen (body : Bytes) : Reading UInt16 := read body 18 2 ptrToU16

/-! ### Decoding -/

/-- The key, the IV and the tag are read as wholes; of the ciphertext, as many bytes as the `int` says that
its length is passed as. -/
def aesDecrypt (evp : Evp) (encrypted keyBuf : Bytes) : Reading Bytes :=
  if keyBuf.length ≠ 32 then .throw (.runtime ⟨"Invalid AES-256 key"⟩)
  else if encrypted.length < 12 + 16 then .throw (.runtime ⟨"Invalid AES packet"⟩)
  else do
    let ctLen ← difference encrypted.length 28
    .touch (.read keyBuf.length 0 32)
    .touch (.read encrypted.length 0 12)
    .touch (.narrow ctLen)
    .touch (.read encrypted.length 28 (cInt ctLen).toNat)
    .touch (.read encrypted.length 12 16)
    .lift ((Fmxp.aesDecrypt evp encrypted keyBuf).mapError .runtime)

def openBody (evp : Evp) (body : Bytes) (encrypted : Bool) (key : Bytes) : Reading Bytes :=
  if encrypted then aesDecrypt evp body key else return body

def decodeBody (body : Bytes) : Reading Frame :=
  if body.length < bodyHeaderSize then .throw (invalidFrame "Body too small")
  else do
    let rid ← getBodyRid body
    let fid ← getBodyFid body
    let ssid ← getBodySsid body
    let flags ← getBodyFlags body
    let status ← getBodyStatus body
    let pathLen ← getBodyPathLen body
    let pathEnd ← sum bodyHeaderSize pathLen.toNat
    if pathEnd > body.length then .throw (invalidFrame "Invalid path length")
    else do
      let path ← copyFrom body bodyHeaderSize pathLen.toNat
      let rest ← difference body.length bodyHeaderSize
      let dataLen ← difference rest pathLen.toNat
      -- `getBodyDataPtr` reads the path length again.
      let pathLen ← getBodyPathLen body
      let dataStart ← sum bodyHeaderSize pathLen.toNat
      let bodyData ← copyFrom body dataStart dataLen
      return ⟨fid, rid, ssid, status, flags, path, bodyData⟩

def decodeFrame (evp : Evp) (data : Bytes) (encrypted : Bool) (key : Bytes) : Reading Frame :=
  if data.length < headerSize then .throw (invalidFrame "Invalid frame size")
  else do
    let valid ← validateProtocol data
    if !valid then .throw (invalidFrame "Invalid protocol")
    else do
      let version ← getFrameVersion data
      if version ≠ fmxpVersion then .throw (invalidFrame "Protocol version mismatch")
      else do
        let bodySize ← getFrameBodySize data
        let rest ← difference data.length headerSize
        if bodySize.toNat ≠ rest then .throw (invalidFrame "Frame body size mismatch")
        else do
          let enc ← copyFrom data headerSize bodySize.toNat
          let body ← openBody evp enc encrypted key
          decodeBody body

/-! ### The front of the buffer -/

def leadingFrame (maxFrameSize : UInt32) (buffer : Bytes) : Reading Lead :=
  if buffer.length < minFrameSize then return .incomplete
  else do
    let valid ← validateProtocol buffer
    if !valid then return .invalid
    else do
      let bodyLen ← getFrameBodySize buffer
      if bodyLen > maxFrameSize then return .tooLong
      else do
        let size ← sum bodyLen.toNat headerSize
        if size > maxFrameSize.toNat then return .tooLong
        else if buffer.length < size then return .incomplete
        else do
          let frameBuf ← slice buffer 0 size
          return .frame frameBuf size

/-- One round of a parse loop: it waits for more, or what it finds is no frame; or it decodes the frame and cuts it
off. `accept` is what the loop asks of the frame in between. -/
def takeFrame (evp : Evp) (maxFrameSize : UInt32) (encrypted : Bool) (key : Bytes) (accept : Frame → Except Exn Unit)
    (buffer : Bytes) : Reading (Next UInt8 Frame Refusal) := do
  let lead ← leadingFrame maxFrameSize buffer
  match lead with
  | .incomplete => return .wait
  | .invalid => return .bad .protocol
  | .tooLong => return .bad .tooLong
  | .frame frameBuf size =>
    let frame ← decodeFrame evp frameBuf encrypted key
    .lift (accept frame)
    let rest ← slice buffer size buffer.length
    return .item frame rest

/-! ### What they return -/

@[simp] theorem result_sum (a b : Nat) : (sum a b).result = .ok (a + b) := rfl

@[simp] theorem result_difference (a b : Nat) : (difference a b).result = .ok (a - b) := rfl

@[simp] theorem result_read {α : Type} (b : Bytes) (offset count : Nat) (r : Bytes → Option α) :
    (read b offset count r).result = deref (r (b.drop offset)) := rfl

@[simp] theorem result_slice (b : Bytes) (start stop : Nat) : (slice b start stop).result = Fmxp.slice b start stop :=
  rfl

@[simp] theorem result_validateProtocol (b : Bytes) :
    (validateProtocol b).result = .ok (Fmxp.validateProtocol b) := by
  unfold validateProtocol Fmxp.validateProtocol
  split
  · next h => simp [h, Except.bind]
  · next h => simp [h]

@[simp] theorem result_aesDecrypt (evp : Evp) (encrypted key : Bytes) :
    (aesDecrypt evp encrypted key).result = (Fmxp.aesDecrypt evp encrypted key).mapError .runtime := by
  unfold aesDecrypt
  split
  · next h => rw [aesDecrypt_key h]; rfl
  · next h =>
    split
    · next hshort => simp [Fmxp.aesDecrypt, h, hshort, Except.mapError]
    · rfl

@[simp] theorem result_openBody (evp : Evp) (body : Bytes) (encrypted : Bool) (key : Bytes) :
    (openBody evp body encrypted key).result = Fmxp.openBody evp body encrypted key := by
  cases encrypted with
  | false => rfl
  | true => exact result_aesDecrypt evp body key

@[simp] theorem result_copyFrom (b : Bytes) (offset len : Nat) :
    (copyFrom b offset len).result = deref (Fmxp.copyFrom (b.drop offset) len) := rfl

@[simp] theorem result_getFrameVersion (b : Bytes) :
    (getFrameVersion b).result = deref (Fmxp.getFrameVersion b) := rfl

@[simp] theorem result_getFrameBodySize (b : Bytes) :
    (getFrameBodySize b).result = deref (Fmxp.getFrameBodySize b) := rfl

@[simp] theorem result_getBodyPathLen (b : Bytes) :
    (getBodyPathLen b).result = deref (Fmxp.getBodyPathLen b) := rfl

@[simp] theorem result_decodeBody (body : Bytes) : (decodeBody body).result = Fmxp.decodeBody body := by
  unfold decodeBody Fmxp.decodeBody
  by_cases hshort : body.length < bodyHeaderSize
  · simp only [hshort, if_true]
    rfl
  simp only [hshort, if_false, Traced.result_bind, Traced.result_ite, Traced.result_throw, Traced.result_pure,
    result_sum, result_difference, result_copyFrom, result_getBodyPathLen]
  cases hpath : Fmxp.getBodyPathLen body with
  | none => rfl
  | some pathLen =>
    by_cases hfit : bodyHeaderSize + pathLen.toNat > body.length
    · simp only [deref, Except.bind, bind, hfit, if_true]
      rfl
    · simp only [deref, Except.bind, bind, hfit, if_false]
      rfl

theorem result_decodeFrame (evp : Evp) (data : Bytes) (encrypted : Bool) (key : Bytes) :
    (decodeFrame evp data encrypted key).result = Fmxp.decodeFrame evp data encrypted key := by
  unfold decodeFrame Fmxp.decodeFrame
  by_cases hlen : data.length < headerSize
  · simp only [hlen, if_true]
    rfl
  simp only [hlen, if_false, Traced.result_bind, Traced.result_ite, Traced.result_throw, result_validateProtocol,
    result_getFrameVersion, result_getFrameBodySize, result_difference, result_copyFrom, result_openBody,
    result_decodeBody]
  cases hproto : Fmxp.validateProtocol data with
  | false => rfl
  | true =>
    cases hversion : Fmxp.getFrameVersion data with
    | none => rfl
    | some version =>
      by_cases hsame : version = fmxpVersion
      · cases hsize : Fmxp.getFrameBodySize data with
        | none => simp [deref, Except.bind, bind, hsame]
        | some bodySize =>
          by_cases hmatch : bodySize.toNat = data.length - headerSize
          · simp [deref, Except.bind, bind, hsame, hmatch]
            rfl
          · simp [deref, Except.bind, bind, hsame, hmatch]
            rfl
      · simp [deref, Except.bind, bind, hsame]
        rfl

theorem result_leadingFrame (maxFrameSize : UInt32) (buffer : Bytes) :
    (leadingFrame maxFrameSize buffer).result = Fmxp.leadingFrame maxFrameSize buffer := by
  unfold leadingFrame Fmxp.leadingFrame
  by_cases hlen : buffer.length < minFrameSize
  · simp only [hlen, if_true]
    rfl
  simp only [hlen, if_false, Traced.result_bind, Traced.result_ite, Traced.result_pure, result_validateProtocol,
    result_getFrameBodySize, result_sum, result_slice]
  cases hproto : Fmxp.validateProtocol buffer with
  | false => rfl
  | true =>
    cases hsize : Fmxp.getFrameBodySize buffer with
    | none => rfl
    | some bodyLen =>
      by_cases hbig : bodyLen > maxFrameSize
      · simp [deref, Except.bind, bind, hbig]
        rfl
      · by_cases hlong : bodyLen.toNat + headerSize > maxFrameSize.toNat
        · simp [deref, Except.bind, bind, hbig, hlong]
          rfl
        · simp [deref, Except.bind, bind, hbig, hlong]
          rfl

theorem deref_ok {α : Type} {r : Option α} {a : α} (h : deref r = .ok a) : r = some a := by
  cases r with
  | none => cases h
  | some b => rw [Except.ok.inj h]

/-! ### What they touch -/

theorem sum_safe {a b : Nat} (h : a + b < 2 ^ 64) : (sum a b).All Touch.Safe := by
  exact Traced.All.touch_bind (P := Touch.Safe) h (.pure _)

theorem difference_safe {a b : Nat} (h : b ≤ a) : (difference a b).All Touch.Safe := by
  exact Traced.All.touch_bind (P := Touch.Safe) h (.pure _)

theorem touch_read_safe {β : Type} {size offset count : Nat} {f : Unit → Reading β} (h : offset + count ≤ size)
    (hf : (f ()).All Touch.Safe) : (Traced.touch (.read size offset count) >>= f).All Touch.Safe :=
  Traced.All.touch_bind (P := Touch.Safe) h hf

theorem read_safe {α : Type} {b : Bytes} {offset count : Nat} (r : Bytes → Option α)
    (h : offset + count ≤ b.length) : (read b offset count r).All Touch.Safe := by
  exact touch_read_safe h (.lift _)

theorem slice_safe {b : Bytes} {start stop : Nat} (h : start ≤ stop ∧ stop ≤ b.length) :
    (slice b start stop).All Touch.Safe := by
  exact Traced.All.touch_bind (P := Touch.Safe) h (.lift _)

theorem validateProtocol_safe (b : Bytes) : (validateProtocol b).All Touch.Safe := by
  apply Traced.All.ite
  · intro hlen
    apply touch_read_safe (by omega)
    exact .pure _
  · intro _
    exact .pure _

/-- The tag is read behind the test that there are 28 bytes, and no more ciphertext than there is. -/
theorem aesDecrypt_safe {evp : Evp} {encrypted key : Bytes}
    (h : key.length = 32 → 28 ≤ encrypted.length → encrypted.length < 2 ^ 31 + 28) :
    (aesDecrypt evp encrypted key).All Touch.Safe := by
  apply Traced.All.ite
  · intro _
    exact .throw _
  intro hkey
  apply Traced.All.ite
  · intro _
    exact .throw _
  intro hlen
  have hsmall := h (by omega) (by omega)
  have hint := cInt_le (encrypted.length - 28)
  apply Traced.All.bind (difference_safe (by omega))
  intro ctLen hct
  have hct' : ctLen = encrypted.length - 28 := (Except.ok.inj hct).symm
  apply touch_read_safe (by omega)
  apply touch_read_safe (by omega)
  have hnarrow : (Touch.narrow ctLen).Safe := show ctLen < 2 ^ 31 by omega
  apply Traced.All.touch_bind hnarrow
  apply touch_read_safe (by rw [hct']; omega)
  apply touch_read_safe (by omega)
  exact .lift _

theorem aesDecrypt_narrow {evp : Evp} {encrypted key : Bytes} (hkey : key.length = 32)
    (hlen : 28 ≤ encrypted.length) :
    .narrow (encrypted.length - 28) ∈ (aesDecrypt evp encrypted key).touched := by
  have hshort : ¬ encrypted.length < 12 + 16 := by omega
  rw [aesDecrypt, if_neg (not_not.mpr hkey), if_neg hshort]
  refine Traced.mem_bind_right (result_difference ..) ?_
  refine Traced.mem_bind_right (Traced.result_touch _) (Traced.mem_bind_right (Traced.result_touch _) ?_)
  exact Traced.mem_bind_left (List.mem_singleton_self _)

/-- The path and the data are read behind the test that the path fits. -/
theorem decodeBody_safe (body : Bytes) : (decodeBody body).All Touch.Safe := by
  have hsize : bodyHeaderSize = 20 := rfl
  apply Traced.All.ite
  · intro _
    exact .throw _
  intro hlen
  apply Traced.All.bind (read_safe _ (by omega))
  intro rid _
  apply Traced.All.bind (read_safe _ (by omega))
  intro fid _
  apply Traced.All.bind (read_safe _ (by omega))
  intro ssid _
  apply Traced.All.bind (read_safe _ (by omega))
  intro flags _
  apply Traced.All.bind (read_safe _ (by omega))
  intro status _
  apply Traced.All.bind (read_safe _ (by omega))
  intro pathLen hpath
  have hlt := pathLen.toNat_lt
  apply Traced.All.bind (sum_safe (by omega))
  intro pathEnd hend
  have hend' : pathEnd = bodyHeaderSize + pathLen.toNat := (Except.ok.inj hend).symm
  apply Traced.All.ite
  · intro _
    exact .throw _
  intro hfit
  apply Traced.All.bind (read_safe _ (by omega))
  intro path _
  apply Traced.All.bind (difference_safe (by omega))
  intro rest hrest
  have hrest' : rest = body.length - bodyHeaderSize := (Except.ok.inj hrest).symm
  apply Traced.All.bind (difference_safe (by omega))
  intro dataLen hdata
  have hdata' : dataLen = rest - pathLen.toNat := (Except.ok.inj hdata).symm
  apply Traced.All.bind (read_safe _ (by omega))
  intro again hagain
  have hsame : again = pathLen := Except.ok.inj (hagain.symm.trans hpath)
  apply Traced.All.bind (sum_safe (by rw [hsame]; omega))
  intro dataStart hstart
  have hstart' : dataStart = bodyHeaderSize + again.toNat := (Except.ok.inj hstart).symm
  apply Traced.All.bind (read_safe _ (by rw [hstart', hsame]; omega))
  intro bodyData _
  exact .pure _

/-- The header is good, and the body may be a packet under this key: the decoder goes on to decrypt it. -/
structure Decrypts (data key : Bytes) : Prop where
  protocol : Fmxp.validateProtocol data = true
  version : Fmxp.getFrameVersion data = some fmxpVersion
  bodySize : ∃ n, Fmxp.getFrameBodySize data = some n ∧ n.toNat = data.length - headerSize
  key : key.length = 32
  packet : headerSize + 28 ≤ data.length

theorem decodeFrame_safe {evp : Evp} {data key : Bytes} {encrypted : Bool}
    (h : encrypted = true → Decrypts data key → data.length < 2 ^ 31 + 37) :
    (decodeFrame evp data encrypted key).All Touch.Safe := by
  have hsize : headerSize = 9 := rfl
  apply Traced.All.ite
  · intro _
    exact .throw _
  intro hlen
  apply Traced.All.bind (validateProtocol_safe data)
  intro valid hvalid
  apply Traced.All.ite
  · intro _
    exact .throw _
  intro hproto
  have hvalid' : Fmxp.validateProtocol data = true := by
    rw [result_validateProtocol] at hvalid
    rw [Except.ok.inj hvalid]
    simpa using hproto
  apply Traced.All.bind (read_safe _ (by omega))
  intro version hversion
  apply Traced.All.ite
  · intro _
    exact .throw _
  intro hsame
  apply Traced.All.bind (read_safe _ (by omega))
  intro bodySize hbodySize
  apply Traced.All.bind (difference_safe (by omega))
  intro rest hrest
  have hrest' : rest = data.length - headerSize := (Except.ok.inj hrest).symm
  apply Traced.All.ite
  · intro _
    exact .throw _
  intro hmatch
  apply Traced.All.bind (read_safe _ (by omega))
  intro enc henc
  have hbody : (openBody evp enc encrypted key).All Touch.Safe := by
    apply Traced.All.ite
    · intro hencrypted
      refine aesDecrypt_safe fun hkey hpacket => ?_
      have hle : bodySize.toNat ≤ (data.drop headerSize).length := by
        rw [List.length_drop]
        omega
      have hcopied : some ((data.drop headerSize).take bodySize.toNat) = some enc :=
        (copyFrom_of_le hle).symm.trans (deref_ok henc)
      have henclen : enc.length = bodySize.toNat := by
        rw [← Option.some.inj hcopied, List.length_take_of_le hle]
      have hsmall := h hencrypted
        { protocol := hvalid'
          version := (deref_ok hversion).trans (congrArg some (not_not.mp hsame))
          bodySize := ⟨bodySize, deref_ok hbodySize, (not_not.mp hmatch).trans hrest'⟩
          key := hkey
          packet := by omega }
      omega
    · intro _
      exact .pure _
  apply Traced.All.bind hbody
  intro body _
  exact decodeBody_safe body

/-- **All reads of the decoder are inside their buffers, and none of its lengths wraps**, exactly when it decrypts
no packet of `2 ^ 31` bytes of ciphertext or more. -/
theorem decodeFrame_safe_iff {evp : Evp} {data key : Bytes} {encrypted : Bool} :
    (decodeFrame evp data encrypted key).All Touch.Safe ↔
      (encrypted = true → Decrypts data key → data.length < 2 ^ 31 + 37) := by
  refine ⟨fun h hencrypted hdecrypts => ?_, decodeFrame_safe⟩
  obtain ⟨hproto, hversion, ⟨n, hn, hmatch⟩, hkey, hpacket⟩ := hdecrypts
  have hsize : headerSize = 9 := rfl
  have hlen : ¬ data.length < headerSize := by omega
  have hbody : n.toNat = (data.drop headerSize).length := by
    rw [List.length_drop]
    exact hmatch
  have hcopy : Fmxp.copyFrom (data.drop headerSize) n.toNat = some (data.drop headerSize) := by
    rw [copyFrom_of_le (Nat.le_of_eq hbody), hbody, List.take_length]
  have hvalid : (validateProtocol data).result = .ok true := by rw [result_validateProtocol, hproto]
  have hnarrow : .narrow ((data.drop headerSize).length - 28) ∈ (decodeFrame evp data encrypted key).touched := by
    rw [decodeFrame, if_neg hlen]
    refine Traced.mem_bind_right hvalid ?_
    rw [if_neg (by decide)]
    refine Traced.mem_bind_right (a := fmxpVersion) (by rw [result_getFrameVersion, hversion]; rfl) ?_
    rw [if_neg (not_not.mpr rfl)]
    refine Traced.mem_bind_right (a := n) (by rw [result_getFrameBodySize, hn]; rfl) ?_
    refine Traced.mem_bind_right (result_difference ..) ?_
    rw [if_neg (not_not.mpr hmatch)]
    refine Traced.mem_bind_right (a := data.drop headerSize) (by rw [result_copyFrom, hcopy]; rfl) ?_
    refine Traced.mem_bind_left ?_
    rw [openBody, if_pos hencrypted]
    exact aesDecrypt_narrow hkey (by rw [List.length_drop]; omega)
  have hsmall : (data.drop headerSize).length - 28 < 2 ^ 31 := h _ hnarrow
  rw [List.length_drop] at hsmall
  omega

/-- The front of the buffer is looked at in the same way; `bodyLen + 9` is computed in 64 bits. -/
theorem leadingFrame_safe (maxFrameSize : UInt32) (buffer : Bytes) :
    (leadingFrame maxFrameSize buffer).All Touch.Safe := by
  have hsize : headerSize = 9 := rfl
  apply Traced.All.ite
  · intro _
    exact .pure _
  intro hlen
  rw [minFrameSize_eq] at hlen
  apply Traced.All.bind (validateProtocol_safe buffer)
  intro valid _
  apply Traced.All.ite
  · intro _
    exact .pure _
  intro _
  apply Traced.All.bind (read_safe _ (by omega))
  intro bodyLen _
  have hlt := bodyLen.toNat_lt
  apply Traced.All.ite
  · intro _
    exact .pure _
  intro _
  apply Traced.All.bind (sum_safe (by omega))
  intro size _
  apply Traced.All.ite
  · intro _
    exact .pure _
  intro _
  apply Traced.All.ite
  · intro _
    exact .pure _
  intro hfull
  apply Traced.All.bind (slice_safe ⟨Nat.zero_le _, by omega⟩)
  intro frameBuf _
  exact .pure _

/-! ### Rounds -/

section
variable {evp : Evp} {maxFrameSize : UInt32} {encrypted : Bool} {key : Bytes} {accept : Frame → Except Exn Unit}
  {buffer : Bytes}

theorem result_takeFrame_frame {raw : Bytes} {size : Nat}
    (hlead : Fmxp.leadingFrame maxFrameSize buffer = .ok (.frame raw size)) :
    (takeFrame evp maxFrameSize encrypted key accept buffer).result =
      (Fmxp.decodeFrame evp raw encrypted key).bind fun frame =>
        (accept frame).bind fun _ => .ok (.item frame (buffer.drop size)) := by
  have hrest := slice_suffix (leadingFrame_frame hlead).2.2.1
  simp only [takeFrame, Traced.result_bind, result_leadingFrame, hlead, Except.bind, result_decodeFrame,
    Traced.result_lift, result_slice, hrest, Traced.result_pure]

theorem result_takeFrame_incomplete (hlead : Fmxp.leadingFrame maxFrameSize buffer = .ok .incomplete) :
    (takeFrame evp maxFrameSize encrypted key accept buffer).result = .ok .wait := by
  simp only [takeFrame, Traced.result_bind, result_leadingFrame, hlead, Except.bind, Traced.result_pure]

theorem result_takeFrame_invalid (hlead : Fmxp.leadingFrame maxFrameSize buffer = .ok .invalid) :
    (takeFrame evp maxFrameSize encrypted key accept buffer).result = .ok (.bad .protocol) := by
  simp only [takeFrame, Traced.result_bind, result_leadingFrame, hlead, Except.bind, Traced.result_pure]

theorem result_takeFrame_tooLong (hlead : Fmxp.leadingFrame maxFrameSize buffer = .ok .tooLong) :
    (takeFrame evp maxFrameSize encrypted key accept buffer).result = .ok (.bad .tooLong) := by
  simp only [takeFrame, Traced.result_bind, result_leadingFrame, hlead, Except.bind, Traced.result_pure]

/-- A round that takes a frame takes at least a header off the buffer. -/
theorem takeFrame_shorter {frame : Frame} {rest : Bytes}
    (h : (takeFrame evp maxFrameSize encrypted key accept buffer).result = .ok (.item frame rest)) :
    rest.length + headerSize ≤ buffer.length := by
  obtain ⟨lead, hlead⟩ := leadingFrame_total maxFrameSize buffer
  cases lead with
  | incomplete => cases (result_takeFrame_incomplete hlead).symm.trans h
  | invalid => cases (result_takeFrame_invalid hlead).symm.trans h
  | tooLong => cases (result_takeFrame_tooLong hlead).symm.trans h
  | frame raw size =>
    rw [result_takeFrame_frame hlead] at h
    obtain ⟨_, hpos, hle, _⟩ := leadingFrame_frame hlead
    cases hdecode : Fmxp.decodeFrame evp raw encrypted key with
    | error e =>
      rw [hdecode] at h
      cases h
    | ok f =>
      rw [hdecode] at h
      cases haccept : accept f with
      | error e =>
        simp only [Except.bind, haccept] at h
        cases h
      | ok u =>
        simp only [Except.bind, haccept] at h
        cases h
        rw [List.length_drop]
        omega

/-- What a round throws the decoder has thrown, or `accept`. -/
theorem takeFrame_error {e : Exn}
    (h : (takeFrame evp maxFrameSize encrypted key accept buffer).result = .error e) :
    (∃ raw, Fmxp.decodeFrame evp raw encrypted key = .error e) ∨ ∃ frame, accept frame = .error e := by
  obtain ⟨lead, hlead⟩ := leadingFrame_total maxFrameSize buffer
  cases lead with
  | incomplete => cases (result_takeFrame_incomplete hlead).symm.trans h
  | invalid => cases (result_takeFrame_invalid hlead).symm.trans h
  | tooLong => cases (result_takeFrame_tooLong hlead).symm.trans h
  | frame raw size =>
    rw [result_takeFrame_frame hlead] at h
    cases hdecode : Fmxp.decodeFrame evp raw encrypted key with
    | error e' =>
      rw [hdecode] at h
      cases h
      exact .inl ⟨raw, hdecode⟩
    | ok frame =>
      cases haccept : accept frame with
      | error e' =>
        simp only [hdecode, Except.bind, haccept] at h
        cases h
        exact .inr ⟨frame, haccept⟩
      | ok u =>
        simp only [hdecode, Except.bind, haccept] at h
        cases h

/-- **Everything a round touches is safe**, on any buffer, exactly when the frame at its front is not too large to be
decrypted. -/
theorem takeFrame_safe_iff :
    (takeFrame evp maxFrameSize encrypted key accept buffer).All Touch.Safe ↔
      ∀ raw size, Fmxp.leadingFrame maxFrameSize buffer = .ok (.frame raw size) → encrypted = true →
        Decrypts raw key → raw.length < 2 ^ 31 + 37 := by
  constructor
  · intro h raw size hlead
    refine (@decodeFrame_safe_iff evp _ _ _).mp fun touch htouch => h touch ?_
    refine Traced.mem_bind_right (a := .frame raw size) (by rw [result_leadingFrame, hlead]) ?_
    exact Traced.mem_bind_left htouch
  · intro h
    apply Traced.All.bind (leadingFrame_safe maxFrameSize buffer)
    intro lead hlead
    rw [result_leadingFrame] at hlead
    cases lead with
    | frame raw size =>
      have hle := (leadingFrame_frame hlead).2.2.1
      apply Traced.All.bind (decodeFrame_safe (h raw size hlead))
      intro frame _
      apply Traced.All.bind (P := Touch.Safe) (.lift (accept frame))
      intro _ _
      apply Traced.All.bind (slice_safe ⟨hle, Nat.le_refl _⟩)
      intro rest _
      exact .pure _
    | _ => exact .pure _

end

end Recorded

end Fmxp
