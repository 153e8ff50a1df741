import Fmxp.Client.Lifecycle
import Fmxp.Server.Waiting
import Fmxp.Server.Wire

/-! A server, one of its clients, and the link between them.

The whole event loop runs, with the workers' calls and all other connections; of connection `connId`
what it writes goes onto a link that loses and reorders nothing, and from there to one client. An
exchange remembers which responses were asked for and in which order their commands entered the
queue. What the connection receives is left open, as long as it is what an honest client would send
(`Undisturbed`). -/
namespace Fmxp
open Transition Framing

/-- A server and a client that use one cipher; `send` never fails on the connection. -/
structure ExchangeEnv where
  server : Server.LoopEnv
  client : Client.Env
  connId : Nat
  evp : (server.conn connId).evp = client.evp
  send : ∀ i, 0 < ((server.conn connId).send i).bytes

/-- `link` has been written and not been received. `called` are the responses asked for by calls of
`respond` and `serverPush`, `entered` those whose commands have entered the queue. -/
structure Exchange where
  loop : Server.Loop
  process : Client.Process
  link : Bytes := []
  called : List Client.Response := []
  entered : List Client.Response := []

inductive ExchangeEvent where
  | server (event : Server.LoopEvent)
  | client (event : Client.Event)
  deriving DecidableEq, Repr

namespace Server

/-- The frames of the commands for connection `c`. -/
def framesFor (c : Nat) (cmds : List ServerCommand) : List Frame :=
  (cmds.filter fun cmd => cmd.connID = c).filterMap fun cmd => cmd.call.bind Call.frame

/-- Everything connection `c` has written. -/
def Loop.wire (s : Loop) (c : Nat) : Bytes := ((s.connections.lookup c).map fun conn => Server.wire conn.log).getD []

/-- The response a call asks for on connection `c`. -/
def called (c : Nat) : LoopEvent → List Client.Response
  | .respond request data status => if request.connID = c then [⟨request.path, data, status⟩] else []
  | .serverPush connID path data status => if connID = c then [⟨path, data, status⟩] else []
  | _ => []

def entered (c : Nat) : LoopEvent → List Client.Response
  | .push cmd => (framesFor c [cmd]).map .ofFrame
  | _ => []

end Server

/-- The exchange after a step of the server: what the connection has written is on the link. -/
def Exchange.served (e : ExchangeEnv) (q : Exchange) (event : Server.LoopEvent) (t : Server.Loop) : Exchange where
  loop := t
  process := q.process
  link := q.link ++ (t.wire e.connId).drop (q.loop.wire e.connId).length
  called := q.called ++ Server.called e.connId event
  entered := q.entered ++ Server.entered e.connId event

def Exchange.perform (e : ExchangeEnv) (depth : Nat) (event : ExchangeEvent) (q : Exchange) : Option Exchange :=
  match event with
  | .server event => (q.loop.perform e.server depth event).map (q.served e event)
  | .client (.readable input) =>
    if input.bytes <+: q.link ∧ input.fin = .again then
      (Client.perform e.client (.readable input) q.process).map fun p =>
        {q with process := p, link := q.link.drop input.bytes.length}
    else none
  | .client event => (Client.perform e.client event q.process).map fun p => {q with process := p}

def exchange (e : ExchangeEnv) : System Exchange ExchangeEvent where
  init := fun q => q.loop.Started ∧ q.process.Fresh ∧ q.link = [] ∧ q.called = [] ∧ q.entered = []
  step := fun q event r => ∃ depth, q.perform e depth event = some r

/-! ### What is asked of a run -/

/-- A frame of the format, within the limit. -/
structure Fits (max : UInt32) (frame : Frame) : Prop where
  path : frame.path.length ≤ 65535
  size : headerSize + 28 + frame.bodySize ≤ max.toNat

/-- The connection reads the handshake of the client, which it confirms within the client's limit, and
then frames that it takes. -/
def Reads (e : ExchangeEnv) (max : UInt32) (conn : Server.Endpoint) (input : Recv) (now : UInt32) : Prop :=
  let env := e.server.conn e.connId
  input.fin = .again ∧ match conn.conn.state with
    | .handshake =>
      match (frameFramer env.evp conn.conn.maxFrameSize false []).next (conn.conn.inFrameBuffer ++ input.bytes) with
      | .wait => True
      | .item frame _ => Fits max (conn.confirmation env) ∧
          Server.acceptedKey env.rsa frame.data conn.conn.rsaPrivKey now = some e.client.key.val
      | .bad _ => False
    | .active =>
      ((conn.conn.framer env.evp).drain (conn.conn.inFrameBuffer ++ input.bytes)).bad = none ∧
        conn.conn.accepted ((conn.conn.framer env.evp).drain (conn.conn.inFrameBuffer ++ input.bytes)).items =
          ((conn.conn.framer env.evp).drain (conn.conn.inFrameBuffer ++ input.bytes)).items
    | .closed => False

/-- The connection of the client is active. -/
def Exchange.Active (e : ExchangeEnv) (q : Exchange) : Prop :=
  (q.loop.connections.lookup e.connId).map (fun conn => conn.conn.state) = some .active

/-- No close and no protocol error on the connection: it is not replaced by another, reads what the client
would send, and sends fewer than `2 ^ 32 - 1` frames, all of which fit; `serverPush` is called for it when it
is active, and neither side closes it. -/
def Undisturbed (e : ExchangeEnv) (q : Exchange) : ExchangeEvent → Prop
  | .server (.event input now) => ∀ ev ∈ q.loop.events.head?, q.loop.fdToId.lookup ev.fd = some e.connId →
      ∀ conn ∈ q.loop.connections.lookup e.connId,
        ev.hup = false ∧ (ev.readable = true → Reads e q.process.endpoint.conn.maxFrameSize conn input now)
  | .server (.accept _) => (q.loop.connCount + 1).toNat = e.connId → e.connId ∉ q.loop.connections
  | .server .command => ∀ cmd ∈ q.loop.commandQueue.head?, cmd.connID = e.connId → cmd.type = .send ∧
      q.entered.length < 2 ^ 32 - 1 ∧ ∀ frame ∈ cmd.frame, Fits q.process.endpoint.conn.maxFrameSize frame
  | .server (.serverPush connID _ _ _) => connID = e.connId → q.Active e
  | .client .hangup | .client .beginClose => False
  | _ => True

/-- A frame that comes up for the connection is one that the encoder takes. It passes the size of the body as
an `int`, and where it fails the connection is closed. -/
def Encodable (e : ExchangeEnv) (q : Exchange) : ExchangeEvent → Prop
  | .server .command => ∀ cmd ∈ q.loop.commandQueue.head?, cmd.connID = e.connId →
      ∀ frame ∈ cmd.frame, frame.bodySize < 2 ^ 31
  | _ => True

/-- Nothing disturbs the exchange, and the encoder takes what it is given. -/
def Carried (e : ExchangeEnv) (q : Exchange) (event : ExchangeEvent) : Prop :=
  Undisturbed e q event ∧ Encodable e q event

end Fmxp
