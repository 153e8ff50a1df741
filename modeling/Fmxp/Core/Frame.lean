import Fmxp.Core.Aes
import Fmxp.Core.Encoders

/-! `frame.cpp`: the frame, its encoder and its decoder.

On the wire a frame is `fmxp<version:1b><size:4b>` followed by `size` bytes of
body; the body, encrypted except in the handshake request, is
`<rid:4b><fid:4b><ssid:8b><flags:1b><status:1b><path_len:2b><path><data>`.
The sizes are narrowed exactly where the code narrows them: the path length to 16
bits, the body size to 32. -/
namespace Fmxp

def fmxpVersion : UInt8 := 1

def STATUS_REQ : UInt8 := 0
def STATUS_OK : UInt8 := 1
def STATUS_NOT_FOUND : UInt8 := 4

def headerSize : Nat := 9
def bodyHeaderSize : Nat := 20
def minFrameSize : Nat := bodyHeaderSize + headerSize

def protocolTag : Bytes := ascii ['f', 'm', 'x', 'p']

/-- Paths are `std::string`s, so byte strings. -/
structure Frame where
  fid : UInt32
  rid : UInt32
  ssid : UInt64
  status : UInt8
  flags : UInt8 := 0
  path : Bytes
  data : Bytes
  deriving DecidableEq, Repr

def makeFrame (fid : UInt32) (status flags : UInt8) (path data : Bytes) (rid : UInt32)
    (ssid : UInt64) : Frame :=
  ⟨fid, rid, ssid, status, flags, path, data⟩

/-! ### Fields of an encoded frame and of a body -/

def getFrameBodySize (encoded : Bytes) : Option UInt32 := ptrToU32 (encoded.drop 5)
def getFrameVersion (encoded : Bytes) : Option UInt8 := (encoded.drop 4).head?
def validateProtocol (encoded : Bytes) : Bool :=
  encoded.length ≥ 4 && encoded.take 4 == protocolTag
def getFrameBodyPtr (encoded : Bytes) : Bytes := encoded.drop headerSize

def getBodyRid (body : Bytes) : Option UInt32 := ptrToU32 body
def getBodyFid (body : Bytes) : Option UInt32 := ptrToU32 (body.drop 4)
def getBodySsid (body : Bytes) : Option UInt64 := ptrToU64 (body.drop 8)
def getBodyFlags (body : Bytes) : Option UInt8 := (body.drop 16).head?
def getBodyStatus (body : Bytes) : Option UInt8 := (body.drop 17).head?
def getBodyPathLen (body : Bytes) : Option UInt16 := ptrToU16 (body.drop 18)
def getBodyPathPtr (body : Bytes) : Bytes := body.drop bodyHeaderSize
def getBodyDataPtr (body : Bytes) (pathLen : UInt16) : Bytes :=
  body.drop (bodyHeaderSize + pathLen.toNat)

/-! ### Encoding -/

/-- The body before encryption. -/
def frameBody (frame : Frame) (fidReplacement : UInt32) : Bytes :=
  u32ToStr frame.rid ++
  u32ToStr (if fidReplacement = 0 then frame.fid else fidReplacement) ++
  u64ToStr frame.ssid ++
  u8ToStr frame.flags ++
  u8ToStr frame.status ++
  u16ToStr (UInt16.ofNat frame.path.length) ++
  frame.path ++
  frame.data

/-- The header put in front of a body. -/
def withHeader (body : Bytes) : Bytes :=
  protocolTag ++ u8ToStr fmxpVersion ++ u32ToStr (UInt32.ofNat body.length) ++ body

def encodeFrame (evp : Evp) (iv : Block 12) (frame : Frame) (encrypt : Bool) (key : Bytes)
    (fidReplacement : UInt32 := 0) : Except RuntimeError Bytes :=
  let body := frameBody frame fidReplacement
  if encrypt then
    match aesEncrypt evp iv body key with
    | .error e => .error e
    | .ok body => .ok (withHeader body)
  else .ok (withHeader body)

/-! ### Decoding -/

def invalidFrame (msg : String) : Exn := .fmxp ⟨ERR_INVALID_FRAME, msg⟩

/-- The part of `decodeFrame` that reads the body. -/
def decodeBody (body : Bytes) : Except Exn Frame := do
  if body.length < bodyHeaderSize then throw (invalidFrame "Body too small")
  let rid ← deref (getBodyRid body)
  let fid ← deref (getBodyFid body)
  let ssid ← deref (getBodySsid body)
  let flags ← deref (getBodyFlags body)
  let status ← deref (getBodyStatus body)
  let pathLen ← deref (getBodyPathLen body)
  if bodyHeaderSize + pathLen.toNat > body.length then throw (invalidFrame "Invalid path length")
  let path ← deref (copyFrom (getBodyPathPtr body) pathLen.toNat)
  let dataLen := body.length - bodyHeaderSize - pathLen.toNat
  let bodyData ← deref (copyFrom (getBodyDataPtr body pathLen) dataLen)
  return ⟨fid, rid, ssid, status, flags, path, bodyData⟩

/-- The body of a frame as `decodeFrame` obtains it. -/
def openBody (evp : Evp) (body : Bytes) (encrypted : Bool) (key : Bytes) : Except Exn Bytes :=
  if encrypted then (aesDecrypt evp body key).mapError .runtime else .ok body

def decodeFrame (evp : Evp) (data : Bytes) (encrypted : Bool) (key : Bytes) : Except Exn Frame := do
  if data.length < headerSize then throw (invalidFrame "Invalid frame size")
  if !validateProtocol data then throw (invalidFrame "Invalid protocol")
  let version ← deref (getFrameVersion data)
  if version ≠ fmxpVersion then throw (invalidFrame "Protocol version mismatch")
  let bodySize ← deref (getFrameBodySize data)
  if bodySize.toNat ≠ data.length - headerSize then throw (invalidFrame "Frame body size mismatch")
  let enc ← deref (copyFrom (getFrameBodyPtr data) bodySize.toNat)
  let body ← openBody evp enc encrypted key
  decodeBody body

end Fmxp
