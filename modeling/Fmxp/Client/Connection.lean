import Fmxp.Core.Endpoint

/-! `Connection.cpp` of the client.

The epoll thread runs `_epollLoop`; the application calls `send` and `close` from its
own threads. A call is modelled by its outcome, a result or an exception, and the
state it leaves, since an exception that leaves the epoll thread ends the process
after whatever the call had already done. `close` joins the epoll thread unless it has
been joined; on the epoll thread itself that throws. As on the server side a log
records what the connection did; `encoded`, `confirmed` and `joinedSelf` are entries of
the model alone. -/
namespace Fmxp.Client

inductive ConnectionState where
  | handshake
  | connected
  | closed
  deriving DecidableEq, Repr

/-- The thread a call runs on. -/
inductive Thread where
  | epoll
  | application
  deriving DecidableEq, Repr

inductive CommandType where
  | send
  | close
  deriving DecidableEq, Repr

structure ClientCommand where
  type : CommandType
  frame : Option Frame
  deriving DecidableEq, Repr

structure Response where
  path : Bytes
  data : Bytes
  status : UInt8
  deriving DecidableEq, Repr

def Response.ofFrame (frame : Frame) : Response := ⟨frame.path, frame.data, frame.status⟩

/-- The fields of `Connection`. `joinable` is the state of its thread handle, `onClose`
says whether a callback is set. -/
structure Connection where
  pubKey : Bytes
  aesKey : Bytes := []
  fid : UInt32 := 0
  rid : UInt32 := 0
  ssid : UInt64 := 0
  lastSrvFid : UInt32 := 0
  state : ConnectionState := .handshake
  handshakeSent : Bool := false
  socket : Int
  epollFd : Int
  cmdEvFd : Int
  maxFrameSize : UInt32
  running : Bool := true
  joinable : Bool := true
  commandQueue : List ClientCommand := []
  frameBuffer : Bytes := []
  onClose : Bool := false
  deriving DecidableEq, Repr

inductive Output where
  | encoded (key raw : Bytes)
  | wrote (bytes : Bytes)
  | onClose
  | joinedSelf
  | closedFds (socket epollFd cmdEvFd : Int)
  | confirmed (frame : Frame)
  | response (frame : Frame)
  deriving DecidableEq, Repr

structure Endpoint where
  conn : Connection
  sends : Nat := 0
  ivs : Nat := 0
  log : List Output := []
  deriving DecidableEq, Repr

/-- What a connection draws from outside. `key` is what `generateAESKey` returns. -/
structure Env where
  evp : Evp
  rsa : Rsa
  iv : Nat → Block 12
  send : Nat → SendResult
  key : Block 32
  seed : Bytes

def Endpoint.modify (s : Endpoint) (f : Connection → Connection) : Endpoint := {s with conn := f s.conn}

def Endpoint.emit (s : Endpoint) (o : Output) : Endpoint := {s with log := s.log ++ [o]}

/-! ### Closing -/

/-- `close` up to the join. -/
def Endpoint.beginClose (s : Endpoint) : Endpoint :=
  (if s.conn.onClose then s.emit .onClose else s).modify fun c => {c with state := .closed, running := false}

/-- The end of `close`. -/
def Endpoint.closeFds (s : Endpoint) : Endpoint :=
  (s.emit (.closedFds s.conn.socket s.conn.epollFd s.conn.cmdEvFd)).modify fun c =>
    {c with socket := -1, epollFd := -1, cmdEvFd := -1}

def close (thread : Thread) (s : Endpoint) : Except Exn Unit × Endpoint :=
  if !s.conn.running || s.conn.state = .closed then (.ok (), s)
  else
    let s := s.beginClose
    if s.conn.joinable then
      match thread with
      | .epoll => (.error (.system "Resource deadlock avoided"), s.emit .joinedSelf)
      | .application => (.ok (), (s.modify fun c => {c with joinable := false}).closeFds)
    else (.ok (), s.closeFds)

/-! ### Sending -/

/-- One call of `::send`, whose result the code ignores. -/
def Endpoint.send (env : Env) (bytes : Bytes) (s : Endpoint) : Endpoint :=
  if s.conn.socket = -1 then s
  else {s with sends := s.sends + 1}.emit (.wrote (bytes.take (env.send s.sends).bytes))

/-- The encoder has drawn an IV and returned an encrypted frame. -/
def Endpoint.recordEncoded (s : Endpoint) (raw : Bytes) : Endpoint :=
  {s with ivs := s.ivs + 1}.emit (.encoded s.conn.aesKey raw)

def makeReqFrame (path data : Bytes) (flags : UInt8) (s : Endpoint) : Frame × Endpoint :=
  let s := s.modify fun c => {c with rid := c.rid + 1}
  (makeFrame s.conn.fid STATUS_REQ flags path data s.conn.rid s.conn.ssid, s)

def handleCommand (env : Env) (cmd : ClientCommand) (s : Endpoint) : Except Exn Unit × Endpoint :=
  match cmd.type, cmd.frame with
  | .send, none =>
    (.error (.runtime (throwErr ERR_CONNECTION
      "Connection::_handleCommand: send command does not have a frame")), s)
  | .send, some frame =>
    if s.conn.state = .handshake then
      if s.conn.handshakeSent then (.ok (), s)
      else
        let s := s.modify fun c => {c with handshakeSent := true}
        match encodeFrame env.evp (env.iv s.ivs) frame false [] with
        | .error e => (.error (.runtime e), s)
        | .ok toBeSent => (.ok (), s.send env toBeSent)
    else
      let s := s.modify fun c => {c with fid := c.fid + 1}
      match encodeFrame env.evp (env.iv s.ivs) {frame with fid := s.conn.fid} true s.conn.aesKey with
      | .error e => (.error (.runtime e), s)
      | .ok encoded => (.ok (), (s.recordEncoded encoded).send env encoded)
  | .close, _ => close .epoll s

/-- `_doHandshake`, with the clock `getTimestamp` reads. -/
def doHandshake (env : Env) (now : UInt32) (s : Endpoint) : Except Exn Unit × Endpoint :=
  let s := s.modify fun c => {c with aesKey := env.key.val}
  match rsaEncrypt env.rsa env.seed (s.conn.aesKey ++ u32ToStr now) s.conn.pubKey with
  | .error e => (.error (.runtime e), s)
  | .ok encedKey =>
    let (frame, s) := makeReqFrame [] encedKey 0 s
    handleCommand env ⟨.send, some frame⟩ s

/-- `send` and `sendReq`, called by the application. -/
def sendReq (path data : Bytes) (s : Endpoint) : Bool × Endpoint :=
  if !s.conn.running || s.conn.state = .closed then (false, s)
  else
    let (frame, s) := makeReqFrame path data 0 s
    (true, s.modify fun c => {c with commandQueue := c.commandQueue ++ [⟨.send, some frame⟩]})

/-! ### Receiving -/

/-- A close in the middle of a call on the epoll thread, which goes on if `close` returns. -/
def closeThen {α : Type} (s : Endpoint) (result : α) : Except Exn α × Endpoint :=
  match close .epoll s with
  | (.error e, s) => (.error e, s)
  | (.ok (), s) => (.ok result, s)

/-- `_parseFrames`, with the frames collected so far. Only an `FMXPException` is caught. -/
def parseFrames (env : Env) : Nat → Endpoint → List Frame → Except Exn (List Frame) × Endpoint
  | 0, s, frames => (.ok frames, s)
  | n + 1, s, frames =>
    match leadingFrame s.conn.maxFrameSize s.conn.frameBuffer with
    | .error e => (.error e, s)
    | .ok .incomplete => (.ok frames, s)
    | .ok .invalid => closeThen s frames
    | .ok .tooLong => closeThen s frames
    | .ok (.frame frameBuf size) =>
      match decodeFrame env.evp frameBuf true s.conn.aesKey with
      | .error (.fmxp _) => closeThen s frames
      | .error e => (.error e, s)
      | .ok frame =>
        let rest := slice s.conn.frameBuffer size s.conn.frameBuffer.length
        if s.conn.state = .handshake then
          if frame.data = connectionSecured then
            let s := (s.modify fun c => {c with state := .connected, ssid := frame.ssid}).emit (.confirmed frame)
            match rest with
            | .error e => (.error e, s)
            | .ok rest => parseFrames env n (s.modify fun c => {c with frameBuffer := rest}) frames
          else (.error (.runtime (throwErr ERR_CONNECTION "Handshake failed")), s)
        else
          match rest with
          | .error e => (.error e, s)
          | .ok rest =>
            parseFrames env n (s.modify fun c => {c with frameBuffer := rest}) (frames ++ [frame])

def validateFrame (frame : Frame) (s : Endpoint) : Except Exn Bool × Endpoint :=
  if frame.fid ≤ s.conn.lastSrvFid || frame.ssid ≠ s.conn.ssid then closeThen s false else (.ok true, s)

/-- One round of the loop that hands parsed frames to `_onResponse`. -/
def dispatchFrame (frame : Frame) (s : Endpoint) : Except Exn Bool × Endpoint :=
  match validateFrame frame s with
  | (.ok true, s) => (.ok true, (s.modify fun c => {c with lastSrvFid := frame.fid}).emit (.response frame))
  | r => r

def dispatch : List Frame → Endpoint → Except Exn Unit × Endpoint
  | [], s => (.ok (), s)
  | frame :: rest, s =>
    match dispatchFrame frame s with
    | (.error e, s) => (.error e, s)
    | (.ok false, s) => (.ok (), s)
    | (.ok true, s) => dispatch rest s

/-- What `recv` returns on this connection; without a socket it fails at once. -/
def heard (input : Recv) (s : Endpoint) : Recv := if s.conn.socket = -1 then ⟨[], .error⟩ else input

/-- The connection with newly received bytes in its buffer. -/
def Endpoint.hear (s : Endpoint) (input : Recv) : Endpoint :=
  s.modify fun c => {c with frameBuffer := c.frameBuffer ++ (heard input s).bytes}

/-- The `EPOLLIN` branch of `_epollLoop` up to that loop. -/
def receive (env : Env) (input : Recv) (s : Endpoint) : Except Exn (List Frame) × Endpoint :=
  match if (heard input s).fin = .again then (.ok (), s.hear input) else close .epoll (s.hear input) with
  | (.error e, s) => (.error e, s)
  | (.ok (), s) => parseFrames env (s.conn.frameBuffer.length + 1) s []

def readSocket (env : Env) (input : Recv) (s : Endpoint) : Except Exn Unit × Endpoint :=
  match receive env input s with
  | (.error e, s) => (.error e, s)
  | (.ok frames, s) => dispatch frames s

end Fmxp.Client
