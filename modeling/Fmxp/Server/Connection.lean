import Fmxp.Core.Endpoint

/-! `structures.cpp` of the server: one connection to a client.

`closeConnection` and `sendFrame` call each other. The model gives them a call
depth and returns nothing when it is used up, so "the call returns" is "some depth
gives a result". A connection is modelled together with what it has done to its
environment: how many `send` results and IVs it has drawn, and a log of what it
encoded, wrote, closed and handed to its callbacks. Two of the log's entries have
no counterpart in the code, `encoded` and `secured`; they record a frame leaving
the encoder and a handshake being accepted. -/
namespace Fmxp.Server

inductive CloseReason where
  | natural
  | encryptionError
  | invalidRequest
  | requestTooLong
  | socketError
  deriving DecidableEq, Repr

inductive ConnectionState where
  | handshake
  | active
  | closed
  deriving DecidableEq, Repr

structure IOFrame where
  frame : Frame
  connectionID : Nat
  deriving DecidableEq, Repr

structure Request where
  connID : Nat
  path : Bytes
  data : Bytes
  rid : UInt32
  deriving DecidableEq, Repr

def Request.ofIOFrame (ioFrame : IOFrame) : Request :=
  ⟨ioFrame.connectionID, ioFrame.frame.path, ioFrame.frame.data, ioFrame.frame.rid⟩

/-- The fields of `ClientConnection`. `onClose` says whether a callback is set. -/
structure ClientConnection where
  fd : Int
  connId : Nat
  maxFrameSize : UInt32
  state : ConnectionState := .handshake
  aesKey : Bytes := []
  ssid : UInt64 := 0
  fid : UInt32 := 0
  lastCliFid : UInt32 := 0
  inFrameBuffer : Bytes := []
  onClose : Bool := false
  rsaPrivKey : Bytes
  deriving DecidableEq, Repr

/-- The callback for a close takes the connection's id as an `int`. -/
inductive Output where
  | encoded (key raw : Bytes)
  | wrote (fd : Int) (bytes : Bytes)
  | closedFd (fd : Int)
  | onClose (connId : Int) (reason : CloseReason)
  | secured (key : Bytes) (ssid : UInt64)
  | request (ioFrame : IOFrame)
  deriving DecidableEq, Repr

structure Endpoint where
  conn : ClientConnection
  sends : Nat := 0
  ivs : Nat := 0
  log : List Output := []
  deriving DecidableEq, Repr

/-- What a connection draws from outside; results of `send` and IVs by call number. -/
structure Env where
  evp : Evp
  rsa : Rsa
  iv : Nat → Block 12
  send : Nat → SendResult
  rand64 : UInt64

def Endpoint.modify (s : Endpoint) (f : ClientConnection → ClientConnection) : Endpoint :=
  {s with conn := f s.conn}

def Endpoint.emit (s : Endpoint) (o : Output) : Endpoint := {s with log := s.log ++ [o]}

def ClientConnection.makeRespFrame (c : ClientConnection) (path data : Bytes) (status flags : UInt8)
    (rid : UInt32) : Frame :=
  makeFrame c.fid status flags path data rid c.ssid

/-! ### Sending and closing -/

/-- `send` on the connection's socket; on a closed descriptor it fails at once. -/
def Endpoint.send (env : Env) (rest : Bytes) (s : Endpoint) : Int × Endpoint :=
  if s.conn.fd = -1 then (-1, s)
  else match env.send s.sends with
    | .error => (-1, {s with sends := s.sends + 1})
    | .count n =>
      let taken := rest.take n
      (taken.length, {s with sends := s.sends + 1}.emit (.wrote s.conn.fd taken))

/-- The write loop of `sendFrame`; each round takes at least a byte off the rest. -/
def sendLoop (env : Env) : Nat → Bytes → Endpoint → Endpoint × Bool
  | 0, _, s => (s, true)
  | n + 1, rest, s =>
    if rest = [] then (s, true)
    else
      let (sent, s) := s.send env rest
      if sent ≤ 0 then (s, false) else sendLoop env n (rest.drop sent.toNat) s

/-- `++_fid` -/
def Endpoint.nextFid (s : Endpoint) : Endpoint := s.modify fun c => {c with fid := c.fid + 1}

/-- The encoder has drawn an IV and returned a frame. -/
def Endpoint.recordEncoded (s : Endpoint) (raw : Bytes) : Endpoint :=
  {s with ivs := s.ivs + 1}.emit (.encoded s.conn.aesKey raw)

/-- `sendFrame`, given what it calls to close the connection. -/
def sendFrameWith (env : Env) (close : CloseReason → Endpoint → Option Endpoint) (frame : Frame)
    (s : Endpoint) : Option Endpoint :=
  let s := s.nextFid
  match encodeFrame env.evp (env.iv s.ivs) frame true s.conn.aesKey s.conn.fid with
  | .error _ => close .encryptionError s
  | .ok encoded =>
    match sendLoop env encoded.length encoded (s.recordEncoded encoded) with
    | (s, true) => some s
    | (s, false) => close .socketError s

/-- `close(_fd); _fd = -1;` -/
def Endpoint.closeFd (s : Endpoint) : Endpoint :=
  (s.emit (.closedFd s.conn.fd)).modify fun c => {c with fd := -1}

def closeConnection (env : Env) : Nat → CloseReason → Bool → Endpoint → Option Endpoint
  | 0, _, _, _ => none
  | depth + 1, reason, invokeOnClose, s =>
    if s.conn.state = .closed then some s
    else
      let shutdown :=
        if s.conn.fd = -1 then some s
        else if reason = .natural then some s.closeFd
        else (sendFrameWith env (fun r s => closeConnection env depth r true s)
          (s.conn.makeRespFrame [] [] STATUS_OK 0 0) s).map Endpoint.closeFd
      shutdown.map fun s =>
        -- A nested close has already done all of this; it is done again.
        let s := s.modify fun c => {c with state := .closed}
        if invokeOnClose && s.conn.onClose then s.emit (.onClose (cInt s.conn.connId) reason) else s

def sendFrame (env : Env) (depth : Nat) (frame : Frame) (s : Endpoint) : Option Endpoint :=
  sendFrameWith env (fun r s => closeConnection env depth r true s) frame s

/-! ### Receiving -/

/-- Whether the handlers of `_parseFrames` catch an exception. -/
def caught : Exn → Bool
  | .fmxp _ | .runtime _ | .system _ => true
  | .outOfRange _ | .badOptionalAccess | .wildRead => false

/-- `_parseFrames`, with the frames collected so far. During the handshake it takes
one frame, in the clear. -/
def parseFrames (env : Env) (depth : Nat) : Nat → Endpoint → List Frame →
    Option (Except Exn (List Frame) × Endpoint)
  | 0, _, _ => none
  | n + 1, s, frames =>
    let refuse (reason : CloseReason) := (closeConnection env depth reason true s).map (Prod.mk (.ok frames))
    match leadingFrame s.conn.maxFrameSize s.conn.inFrameBuffer with
    | .error e => some (.error e, s)
    | .ok .incomplete => some (.ok frames, s)
    | .ok .invalid => refuse .invalidRequest
    | .ok .tooLong => refuse .requestTooLong
    | .ok (.frame frameBuf size) =>
      let inHandshake := s.conn.state = .handshake
      match if inHandshake then decodeFrame env.evp frameBuf false []
        else decodeFrame env.evp frameBuf true s.conn.aesKey with
      | .error e => if caught e then refuse .invalidRequest else some (.error e, s)
      | .ok frame =>
        match slice s.conn.inFrameBuffer size s.conn.inFrameBuffer.length with
        | .error e => some (.error e, s)
        | .ok rest =>
          let s := s.modify fun c => {c with inFrameBuffer := rest}
          if inHandshake then some (.ok (frames ++ [frame]), s)
          else parseFrames env depth n s (frames ++ [frame])

def validateFrame (env : Env) (depth : Nat) (frame : Frame) (s : Endpoint) : Option (Bool × Endpoint) :=
  if frame.ssid ≠ s.conn.ssid || frame.fid ≤ s.conn.lastCliFid then
    (closeConnection env depth .invalidRequest true s).map (Prod.mk false)
  else some (true, s)

/-- The delivery loop of `readFd`. -/
def deliver (env : Env) (depth : Nat) : List Frame → Endpoint → Option (Bool × Endpoint)
  | [], s => some (true, s)
  | frame :: rest, s =>
    match validateFrame env depth frame s with
    | none => none
    | some (false, s) => some (false, s)
    | some (true, s) =>
      let s := s.modify fun c => {c with lastCliFid := frame.fid}
      deliver env depth rest (s.emit (.request ⟨frame, s.conn.connId⟩))

def setAesKey (env : Env) (depth : Nat) (aesKey : Bytes) (s : Endpoint) : Option Endpoint := do
  let s := (s.modify fun c => {c with aesKey := aesKey, ssid := env.rand64}).emit (.secured aesKey env.rand64)
  let s ← sendFrame env depth (s.conn.makeRespFrame [] connectionSecured STATUS_OK 0 0) s
  -- Assigned whatever `sendFrame` did, also when it has closed the connection.
  some (s.modify fun c => {c with state := .active})

/-- The handshake branch of `readFd`, on the data of the first frame. -/
def acceptHandshake (env : Env) (depth : Nat) (encAesKey : Bytes) (now : UInt32) (s : Endpoint) :
    Option (Except Exn Bool × Endpoint) :=
  let refuse := (closeConnection env depth .encryptionError true s).map (Prod.mk (.ok false))
  match rsaDecrypt env.rsa encAesKey s.conn.rsaPrivKey with
  | .error _ => refuse
  | .ok decrypted =>
    if decrypted.length ≠ 32 + 4 then refuse
    else match deref (ptrToU32 (decrypted.drop 32)) with
      | .error e => some (.error e, s)
      | .ok timestamp =>
        if timestamp - now > 60 then refuse
        else match slice decrypted 0 32 with
          | .error e => some (.error e, s)
          | .ok key => (setAesKey env depth key s).map (Prod.mk (.ok true))

/-- What `readFd` does with the frames it has parsed. -/
def handleFrames (env : Env) (depth : Nat) (now : UInt32) (frames : List Frame) (s : Endpoint) :
    Option (Except Exn Bool × Endpoint) :=
  match s.conn.state, frames with
  | .handshake, frame :: _ => acceptHandshake env depth frame.data now s
  | .active, frames => (deliver env depth frames s).map fun (ok, s) => (.ok ok, s)
  | _, _ => some (.ok true, s)

/-- `readFd`, with what `recv` returns and the clock `getTimestamp` reads. -/
def readFd (env : Env) (depth : Nat) (input : Recv) (now : UInt32) (s : Endpoint) :
    Option (Except Exn Bool × Endpoint) :=
  let input := if s.conn.fd = -1 then ⟨[], .error⟩ else input
  let s := s.modify fun c => {c with inFrameBuffer := c.inFrameBuffer ++ input.bytes}
  match input.fin with
  | .disconnect => (closeConnection env depth .natural true s).map (Prod.mk (.ok false))
  | .error => (closeConnection env depth .socketError true s).map (Prod.mk (.ok false))
  | .again =>
    match parseFrames env depth (s.conn.inFrameBuffer.length + 1) s [] with
    | none => none
    | some (.error e, s) => some (.error e, s)
    | some (.ok frames, s) => handleFrames env depth now frames s

end Fmxp.Server
