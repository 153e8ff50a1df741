import Mathlib.Data.List.AList
import Fmxp.Server.Requests

/-! `Server.cpp`: the epoll loop, its commands and the calls of the workers.

The epoll thread takes one event of a batch after the other; the command descriptor sends
it through the command queue, the listening socket through `accept`. The workers' calls
interleave with that at every step, and `sendResponse` is two of them: it looks its connection
up, and later pushes the command. An exception that leaves `_epollLoop` ends the run. An event
remembers the connection the kernel raised it for, and deleted connections are kept for what
they have done; the code has neither. -/
namespace Fmxp.Server
open Transition

inductive CommandType where
  | send
  | close
  deriving DecidableEq, Repr

structure ServerCommand where
  type : CommandType
  connID : Nat
  frame : Option Frame
  deriving DecidableEq, Repr

structure Response where
  connID : Nat
  path : Bytes
  data : Bytes
  status : UInt8
  rid : UInt32
  deriving DecidableEq, Repr

def Response.ofRequest (request : Request) (data : Bytes) (status : UInt8) : Response :=
  ⟨request.connID, request.path, data, status, request.rid⟩

/-- One event of `epoll_wait`: `hup` is `EPOLLRDHUP | EPOLLHUP`, `readable` is `EPOLLIN`. -/
structure EpollEvent where
  fd : Int
  hup : Bool
  readable : Bool
  owner : Nat
  deriving DecidableEq, Repr

/-- Where the epoll thread is: between two events, or in one of the inner loops. -/
inductive Phase where
  | events
  | commands
  | accepting
  deriving DecidableEq, Repr

structure LoopEnv where
  socket : Int
  cmdEvFd : Int
  maxFrameSize : UInt32
  privKey : Bytes
  conn : Nat → Env

/-- The fields of `Server`, the rest of the batch, the requests handed to the thread pool and the
commands whose connection has been looked up. -/
structure Loop where
  connections : AList fun _ : Nat => Endpoint := ∅
  fdToId : AList fun _ : Int => Nat := ∅
  connCount : UInt64 := 0
  commandQueue : List ServerCommand := []
  phase : Phase := .events
  events : List EpollEvent := []
  requests : List Request := []
  responding : List ServerCommand := []
  deleted : List Endpoint := []
  uncaught : Option Exn := none

/-! ### The epoll thread -/

def Loop.put (s : Loop) (connId : Nat) (conn : Endpoint) : Loop :=
  {s with connections := s.connections.insert connId conn}

/-- `delete conn; _connections.erase(it)`. The destructor closes the connection. -/
def Loop.delete (env : LoopEnv) (depth connId : Nat) (conn : Endpoint) (s : Loop) : Option Loop :=
  (closeConnection (env.conn connId) depth .natural true conn).map fun conn =>
    {s with connections := s.connections.erase connId, deleted := s.deleted ++ [conn]}

def defaultErrorHandler (code : UInt8) (message : String) : Except Exn Unit := .error (.fmxp ⟨code, message⟩)

/-- `_handleCommand`, with the error handler that the constructor installs. -/
def Loop.handleCommand (env : LoopEnv) (depth : Nat) (cmd : ServerCommand) (s : Loop) :
    Option (Except Exn Unit × Loop) :=
  match s.connections.lookup cmd.connID with
  | none => some (defaultErrorHandler ERR_CONNECTION (toString cmd.connID ++ ": Connection not found"), s)
  | some conn =>
    match cmd.type, cmd.frame with
    | .send, none => some (.error .badOptionalAccess, s)
    | .send, some frame =>
      (sendFrame (env.conn cmd.connID) depth frame conn).map fun conn => (.ok (), s.put cmd.connID conn)
    | .close, _ => (closeConnection (env.conn cmd.connID) depth .natural true conn).map fun conn =>
        (.ok (), s.put cmd.connID conn)

/-- One round of the `accept` loop. -/
def Loop.accept (env : LoopEnv) (clientFd : Int) (s : Loop) : Loop :=
  let connId := (s.connCount + 1).toNat
  let conn : Endpoint := {conn := {
    fd := clientFd, connId := connId, maxFrameSize := env.maxFrameSize, rsaPrivKey := env.privKey}}
  {s with
    connCount := s.connCount + 1
    connections := s.connections.insert connId conn
    fdToId := s.fdToId.insert clientFd connId}

/-- The requests that a call has handed to the thread pool. -/
def handed (s t : Endpoint) : List Request :=
  (t.log.drop s.log.length).filterMap fun
    | .request ioFrame => some (.ofIOFrame ioFrame)
    | _ => none

/-- An event on a descriptor that is neither the listening socket nor the command descriptor. -/
def Loop.handleEvent (env : LoopEnv) (depth : Nat) (e : EpollEvent) (input : Recv) (now : UInt32) (s : Loop) :
    Option (Except Exn Unit × Loop) :=
  match s.fdToId.lookup e.fd with
  | none => some (.ok (), s)
  | some connId =>
    match s.connections.lookup connId with
    | none => some (.ok (), s)
    | some conn =>
      if e.hup then (s.delete env depth connId conn).map (Prod.mk (.ok ()))
      else if e.readable then
        match readFd (env.conn connId) depth input now conn with
        | none => none
        | some (.error err, t) => some (.error err, s.put connId t)
        | some (.ok ok, t) =>
          let s := {s.put connId t with requests := s.requests ++ handed conn t}
          if !ok || t.conn.state = .closed then (s.delete env depth connId t).map (Prod.mk (.ok ()))
          else some (.ok (), s)
      else some (.ok (), s)

/-! ### The workers -/

/-- `sendResponse` up to the push. -/
def Loop.sendResponse (resp : Response) (s : Loop) : Loop :=
  match s.connections.lookup resp.connID with
  | none => s
  | some conn =>
    let frame := conn.conn.makeRespFrame resp.path resp.data resp.status 0 resp.rid
    {s with responding := s.responding ++ [⟨.send, resp.connID, some frame⟩]}

def Loop.push (cmd : ServerCommand) (s : Loop) : Loop := {s with commandQueue := s.commandQueue ++ [cmd]}

/-- `Server::closeConnection` -/
def Loop.closeConnection (connectionID : Nat) (s : Loop) : Loop := s.push ⟨.close, connectionID, none⟩

/-! ### Runs -/

/-- What the kernel can report: each descriptor at most once, and a connection's while it is open. -/
def Loop.Raised (env : LoopEnv) (batch : List EpollEvent) (s : Loop) : Prop :=
  (batch.map EpollEvent.fd).Nodup ∧ ∀ e ∈ batch, e.fd = env.cmdEvFd ∨ e.fd = env.socket ∨
    (0 ≤ e.fd ∧ (s.connections.lookup e.owner).map (fun conn => conn.conn.fd) = some e.fd)

/-- What `accept` can return: a descriptor that is not in use. -/
def Loop.Free (env : LoopEnv) (clientFd : Int) (s : Loop) : Prop :=
  0 ≤ clientFd ∧ clientFd ≠ env.socket ∧ clientFd ≠ env.cmdEvFd ∧
    ∀ e ∈ s.connections.entries, e.2.conn.fd ≠ clientFd

instance (env : LoopEnv) (batch : List EpollEvent) (s : Loop) : Decidable (s.Raised env batch) :=
  inferInstanceAs (Decidable (_ ∧ _))

instance (env : LoopEnv) (clientFd : Int) (s : Loop) : Decidable (s.Free env clientFd) :=
  inferInstanceAs (Decidable (_ ∧ _))

inductive LoopEvent where
  | wait (batch : List EpollEvent)
  | event (input : Recv) (now : UInt32)
  | accept (clientFd : Int)
  | accepted
  | command
  | drained
  | respond (request : Request) (data : Bytes) (status : UInt8)
  | serverPush (connID : Nat) (path data : Bytes) (status : UInt8)
  | push (cmd : ServerCommand)
  | closeConnection (connID : Nat)
  deriving DecidableEq, Repr

/-- The outcome of a call on the epoll thread: an exception ends the loop. -/
def Loop.after : Except Exn Unit × Loop → Loop
  | (.ok (), s) => s
  | (.error e, s) => {s with uncaught := some e}

def Loop.perform (env : LoopEnv) (depth : Nat) (event : LoopEvent) (s : Loop) : Option Loop :=
  if s.uncaught.isSome then none
  else match event with
    | .wait batch =>
      if s.phase = .events ∧ s.events = [] ∧ s.Raised env batch then some {s with events := batch} else none
    | .event input now =>
      match s.phase, s.events with
      | .events, e :: rest =>
        let s := {s with events := rest}
        if e.fd = env.cmdEvFd then some {s with phase := .commands}
        else if e.fd = env.socket then some {s with phase := .accepting}
        else (s.handleEvent env depth e input now).map Loop.after
      | _, _ => none
    | .accept clientFd => if s.phase = .accepting ∧ s.Free env clientFd then some (s.accept env clientFd) else none
    | .accepted => if s.phase = .accepting then some {s with phase := .events} else none
    | .command =>
      match s.phase, s.commandQueue with
      | .commands, cmd :: rest => (Loop.handleCommand env depth cmd {s with commandQueue := rest}).map Loop.after
      | _, _ => none
    | .drained => if s.phase = .commands ∧ s.commandQueue = [] then some {s with phase := .events} else none
    | .respond request data status =>
      if request ∈ s.requests then some (s.sendResponse (.ofRequest request data status)) else none
    | .serverPush connID path data status => some (s.sendResponse ⟨connID, path, data, status, 0⟩)
    | .push cmd =>
      if cmd ∈ s.responding then some (({s with responding := s.responding.erase cmd}).push cmd) else none
    | .closeConnection connID => some (s.closeConnection connID)

/-- A server that has been started and has accepted nothing. -/
def Loop.Started (s : Loop) : Prop := ∃ connCount, s = {connCount := connCount}

def epollLoop (env : LoopEnv) : System Loop LoopEvent where
  init := Loop.Started
  step := fun s event t => ∃ depth, s.perform env depth event = some t

end Fmxp.Server
