import Fmxp.Server.Replies
import Fmxp.Session.Exchange
import Fmxp.Session.Listening

/-! Responses on their way.

A response is a frame built with the counters of the moment, a command in the queue, an encoding
under the next fid, a part of the stream and, at the client, a frame that waits, before it is handed
over. `Conveys` follows the frames through all of these: none is lost or doubled on the way, and the
encodings have increasing fids whatever the frames were built with. Steps of the server keep it
(`Conveys.server`), and those of the client that `Client.Advances` describes (`Conveys.client`). -/
namespace Fmxp
open Transition Framing

namespace Server

/-! ### Frames in queues -/

theorem framesFor_append (c : Nat) (cmds cmds' : List ServerCommand) :
    framesFor c (cmds ++ cmds') = framesFor c cmds ++ framesFor c cmds' := by
  rw [framesFor, List.filter_append, List.filterMap_append]
  rfl

theorem framesFor_cons (c : Nat) (cmd : ServerCommand) (cmds : List ServerCommand) :
    framesFor c (cmd :: cmds) = framesFor c [cmd] ++ framesFor c cmds :=
  framesFor_append c [cmd] cmds

theorem framesFor_other {c : Nat} {cmd : ServerCommand} (h : cmd.connID ≠ c) : framesFor c [cmd] = [] := by
  simp [framesFor, h]

theorem framesFor_call (cmd : ServerCommand) : framesFor cmd.connID [cmd] = (cmd.call.bind Call.frame).toList := by
  cases hcall : cmd.call.bind Call.frame <;> simp [framesFor, hcall]

theorem framesFor_perm (c : Nat) {cmds cmds' : List ServerCommand} (h : cmds.Perm cmds') :
    (framesFor c cmds).Perm (framesFor c cmds') :=
  (h.filter _).filterMap _

theorem Loop.waiting_eq (s : Loop) (c : Nat) :
    s.waiting c = framesFor c s.commandQueue ++ framesFor c s.responding :=
  framesFor_append c s.commandQueue s.responding

/-- A response for another connection. -/
theorem sendResponse_other {c : Nat} (resp : Response) (h : resp.connID ≠ c) (s : Loop) :
    framesFor c (s.sendResponse resp).responding = framesFor c s.responding ∧
      (s.sendResponse resp).connections = s.connections ∧ (s.sendResponse resp).commandQueue = s.commandQueue ∧
      (s.sendResponse resp).requests = s.requests := by
  unfold Loop.sendResponse
  split
  · exact ⟨rfl, rfl, rfl, rfl⟩
  · refine ⟨?_, rfl, rfl, rfl⟩
    rw [framesFor_append, framesFor_other (by exact h), List.append_nil]

/-! ### A frame from the worker to the socket, one step at a time -/

theorem Loop.command_step {env : LoopEnv} {depth : Nat} {s : Loop} {cmd : ServerCommand} {rest : List ServerCommand}
    {result : Except Exn Unit × Loop} (hgo : s.uncaught.isSome = false) (hphase : s.phase = .commands)
    (hqueue : s.commandQueue = cmd :: rest)
    (hresult : Loop.handleCommand env depth cmd {s with commandQueue := rest} = some result) :
    s.perform env depth .command = some (Loop.after result) := by
  unfold Loop.perform
  rw [hgo, if_neg Bool.false_ne_true]
  dsimp only
  split
  · next cmd' rest' _ hqueue' =>
    obtain ⟨rfl, rfl⟩ := List.cons.inj (hqueue'.symm.trans hqueue)
    rw [hresult]
    rfl
  · next hnone => exact absurd hqueue (hnone cmd rest hphase)

theorem Loop.send_step {env : LoopEnv} {depth c : Nat} {s : Loop} {frame : Frame} {rest : List ServerCommand}
    {conn u : Endpoint} (hgo : s.uncaught.isSome = false) (hphase : s.phase = .commands)
    (hqueue : s.commandQueue = ⟨.send, c, some frame⟩ :: rest) (hconn : s.connections.lookup c = some conn)
    (hsend : sendFrame (env.conn c) depth frame conn = some u) :
    s.perform env depth .command = some ({s with commandQueue := rest}.put c u) := by
  have hresult : Loop.handleCommand env depth ⟨.send, c, some frame⟩ {s with commandQueue := rest} =
      some (.ok (), {s with commandQueue := rest}.put c u) := by
    rw [Loop.handleCommand, hconn]
    dsimp only
    rw [hsend]
    rfl
  exact Loop.command_step hgo hphase hqueue hresult

theorem Loop.respond_step {env : LoopEnv} {depth : Nat} {s : Loop} {request : Request} {conn : Endpoint}
    (hgo : s.uncaught.isSome = false) (hrequest : request ∈ s.requests)
    (hconn : s.connections.lookup request.connID = some conn) (data : Bytes) (status : UInt8) :
    s.perform env depth (.respond request data status) = some {s with
      responding := s.responding ++ [⟨.send, request.connID,
        some (conn.conn.makeRespFrame request.path data status 0 request.rid)⟩]} := by
  have hconn' : s.connections.lookup (Response.ofRequest request data status).connID = some conn := hconn
  simp only [Loop.perform, hgo, Bool.false_eq_true, if_false, if_pos hrequest, Loop.sendResponse, hconn']
  rfl

theorem Loop.push_step {env : LoopEnv} {depth : Nat} {s : Loop} {cmd : ServerCommand}
    (hgo : s.uncaught.isSome = false) (hcmd : cmd ∈ s.responding) :
    s.perform env depth (.push cmd) = some {s with
      responding := s.responding.erase cmd, commandQueue := s.commandQueue ++ [cmd]} := by
  simp only [Loop.perform, hgo, Bool.false_eq_true, if_false, if_pos hcmd, Loop.push]

/-! ### One connection -/

/-- What sending rests on. -/
def ClientConnection.sender (c : ClientConnection) : Int × ConnectionState × UInt32 × Bytes × UInt64 :=
  (c.fd, c.state, c.fid, c.aesKey, c.ssid)

end Server

/-- A frame that fits is encoded, under the fid it is given. -/
theorem Fits.encoding {max : UInt32} {frame : Frame} (h : Fits max frame) (hsmall : frame.bodySize < 2 ^ 31) (evp : Evp)
    (iv : Block 12) {key : Bytes} (hkey : key.length = 32) (r : UInt32) :
    ∃ raw, encodeFrame evp iv frame true key r = .ok raw ∧ Encoding evp key max (frame.renumber r) raw := by
  have htotal := encodeFrame_total evp iv frame r hkey
  rw [if_pos (by rw [cInt_of_lt hsmall]; omega)] at htotal
  obtain ⟨raw, henc⟩ := htotal
  exact ⟨raw, henc, ⟨iv, encodeFrame_renumber evp iv frame key r ▸ henc⟩, h.path, h.size⟩

section
variable {e : ExchangeEnv} {max : UInt32} {conn u : Server.Endpoint} {depth : Nat}

/-- A frame that fits is written under the next fid. -/
theorem Fits.sent {frame : Frame} (h : Fits max frame) (hsmall : frame.bodySize < 2 ^ 31) (hfd : conn.conn.fd ≠ -1)
    (hkey : conn.conn.aesKey = e.client.key.val) :
    ∃ u raw, (∀ depth, Server.sendFrame (e.server.conn e.connId) depth frame conn = some u) ∧
      Encoding e.client.evp e.client.key.val max (frame.renumber (conn.conn.fid + 1)) raw ∧
      u.conn = conn.nextFid.conn ∧ Server.wire u.log = Server.wire conn.log ++ raw := by
  obtain ⟨raw, henc, hencoding⟩ := h.encoding hsmall (e.server.conn e.connId).evp
    ((e.server.conn e.connId).iv conn.ivs) e.client.key.property (conn.conn.fid + 1)
  rw [← hkey] at henc
  rw [e.evp] at hencoding
  obtain ⟨u, hu, hconn, hwire⟩ := Server.sendFrame_written hfd e.send henc
  exact ⟨u, raw, hu, hencoding, hconn, hwire⟩

/-- What a read makes of the connection: it waits for more of the handshake, accepts it and confirms
it, or takes the frames of the session. -/
theorem Reads.read {input : Recv} {now : UInt32} {r : Except Exn Bool} (h : Reads e max conn input now)
    (hfd : conn.conn.fd ≠ -1) (hr : Server.readFd (e.server.conn e.connId) depth input now conn = some (r, u)) :
    r = .ok true ∧ u.conn.state ≠ .closed ∧ ((conn.conn.state = .handshake ∧ u = conn.receive input.bytes) ∨
      (conn.conn.state = .handshake ∧ ∃ raw, Encoding e.client.evp e.client.key.val max
          ((conn.confirmation (e.server.conn e.connId)).renumber (conn.conn.fid + 1)) raw ∧
        u.conn.sender = (conn.conn.fd, .active, conn.conn.fid + 1, e.client.key.val,
          (e.server.conn e.connId).rand64) ∧
        Server.wire u.log = Server.wire conn.log ++ raw) ∨
      (conn.conn.state = .active ∧ u.conn.sender = conn.conn.sender ∧ Server.wire u.log = Server.wire conn.log)) := by
  obtain ⟨hfin, hreads⟩ := h
  cases hstate : conn.conn.state with
  | handshake =>
    rw [hstate] at hreads
    dsimp only at hreads
    rw [Server.readFd_handshake hfd hstate hfin] at hr
    split at hreads
    · next hnext =>
      rw [hnext] at hr
      cases hr
      exact ⟨rfl, by rw [Server.receive_conn, hstate]; decide, .inl ⟨rfl, rfl⟩⟩
    · next frame rest hnext =>
      obtain ⟨hfits, hkey⟩ := hreads
      have hsmall : (conn.confirmation (e.server.conn e.connId)).bodySize < 2 ^ 31 := by
        rw [show (conn.confirmation (e.server.conn e.connId)).bodySize = 38 from rfl]
        decide
      obtain ⟨raw, henc, hencoding⟩ := hfits.encoding hsmall (e.server.conn e.connId).evp
        ((e.server.conn e.connId).iv conn.ivs) e.client.key.property (conn.conn.fid + 1)
      rw [e.evp] at hencoding
      have hkey' : Server.acceptedKey (e.server.conn e.connId).rsa frame.data
          (conn.setBuffer rest).conn.rsaPrivKey now =
          some e.client.key.val := hkey
      obtain ⟨v, hv, hconn, hwire⟩ := Server.setAesKey_written (s := conn.setBuffer rest) hfd e.send henc
      simp only [hnext, Server.acceptHandshake_eq, hkey', hv] at hr
      cases hr
      exact ⟨rfl, (by rw [hconn]; intro hc; cases hc), .inr (.inl ⟨rfl, raw, hencoding, by rw [hconn]; rfl, hwire⟩)⟩
    · cases hreads
  | active =>
    rw [hstate] at hreads
    obtain ⟨hbad, hall⟩ := hreads
    cases hdrain : (conn.conn.framer (e.server.conn e.connId).evp).drain (conn.conn.inFrameBuffer ++ input.bytes) with
    | mk items rest bad =>
      rw [hdrain] at hbad hall
      cases hbad
      rw [Server.readFd_accepted hfd hstate hfin hdrain hall] at hr
      cases hr
      refine ⟨rfl, ?_, .inr (.inr ⟨rfl, rfl, Server.wire_handOver _ items⟩)⟩
      show conn.conn.state ≠ .closed
      rw [hstate]
      decide
  | closed =>
    rw [hstate] at hreads
    cases hreads

end

/-! ### The frames on their way -/

open Client (Hears Advances outstanding countedTo responses reachable_sends)
open Server (Request framesFor)

/-- Before the handshake: the connection, if it has been accepted, has written nothing, and nothing
has been asked for. -/
structure Exchange.Opening (e : ExchangeEnv) (q : Exchange) (unread : List (Frame × Bytes)) : Prop where
  conn : ∀ conn, q.loop.connections.lookup e.connId = some conn →
    conn.conn.fd ≠ -1 ∧ conn.conn.state = .handshake ∧ conn.conn.fid = 0
  waiting : q.loop.waiting e.connId = []
  requests : ∀ request ∈ q.loop.requests, request.connID ≠ e.connId
  entered : q.entered = []
  nothing : unread = []
  counted : countedTo q.process unread = 0
  client : q.process.endpoint.conn.state = .handshake

/-- After it: the connection has the client's key and its session id, which all frames that wait for it
carry, and its counter is ahead of the client's and counts the frames it has sent. -/
structure Exchange.Serving (e : ExchangeEnv) (q : Exchange) (unread : List (Frame × Bytes)) (conn : Server.Endpoint) :
    Prop where
  registered : q.loop.connections.lookup e.connId = some conn
  fd : conn.conn.fd ≠ -1
  state : conn.conn.state = .active
  aesKey : conn.conn.aesKey = e.client.key.val
  ssid : conn.conn.ssid = (e.server.conn e.connId).rand64
  waiting : ∀ frame ∈ q.loop.waiting e.connId, frame.ssid = (e.server.conn e.connId).rand64
  counted : countedTo q.process unread ≤ conn.conn.fid
  fid : conn.conn.fid.toNat + (framesFor e.connId q.loop.commandQueue).length = q.entered.length + 1
  confirmed : q.process.endpoint.conn.state = .handshake → unread ≠ []

/-- Every response that has been asked for is on its way or has been handed over. -/
structure Conveys (e : ExchangeEnv) (q : Exchange) (unread : List (Frame × Bytes)) : Prop where
  hears : Hears e.client (e.server.conn e.connId).rand64 q.process q.link unread
  called : q.called.Perm (q.entered ++ (framesFor e.connId q.loop.responding).map .ofFrame)
  entered : q.entered = (responses q.process.endpoint.log ++ outstanding q.process unread ++
    framesFor e.connId q.loop.commandQueue).map .ofFrame
  stage : q.Opening e unread ∨ ∃ conn, q.Serving e unread conn

section
variable {e : ExchangeEnv} {q r : Exchange} {unread later : List (Frame × Bytes)} {depth : Nat}

/-! ### Steps of the client -/

/-- The client reads all that is on the link. -/
theorem Exchange.read_link {p : Client.Process}
    (hp : Client.perform e.client (.readable (.once q.link)) q.process = some p) :
    q.perform e depth (.client (.readable (.once q.link))) = some {q with process := p, link := []} := by
  have hbytes : (Recv.once q.link).bytes = q.link := List.flatten_singleton
  have hall : (Recv.once q.link).bytes <+: q.link ∧ (Recv.once q.link).fin = .again := ⟨by rw [hbytes], rfl⟩
  rw [Exchange.perform, if_pos hall, hp, Option.map_some, hbytes, List.drop_length]

theorem Conveys.client (hq : Conveys e q unread) {p : Client.Process} {link : Bytes}
    (hhears : Hears e.client (e.server.conn e.connId).rand64 p link later)
    (hadvances : Advances q.process p unread later) : Conveys e {q with process := p, link := link} later := by
  refine ⟨hhears, hq.called, ?_, ?_⟩
  · have hreceived := hadvances.received
    rw [hq.entered, ← hreceived]
  · rcases hq.stage with hopening | ⟨conn, hserving⟩
    · obtain ⟨hlater, hstate⟩ := hadvances.nothing hopening.nothing
      refine .inl ⟨hopening.conn, hopening.waiting, hopening.requests, hopening.entered, hlater, ?_,
        hstate.trans hopening.client⟩
      exact UInt32.le_zero_iff.mp (hopening.counted ▸ hadvances.counted)
    · refine .inr ⟨conn, hserving.registered, hserving.fd, hserving.state, hserving.aesKey, hserving.ssid,
        hserving.waiting, UInt32.le_trans hadvances.counted hserving.counted, hserving.fid, fun hhand => ?_⟩
      obtain ⟨hbefore, hsame⟩ := hadvances.handshake hhand
      rw [hsame]
      exact hserving.confirmed hbefore

/-! ### Steps of the server -/

theorem Exchange.serve {event : Server.LoopEvent} {t : Server.Loop} (h : q.loop.perform e.server depth event = some t) :
    (exchange e).step q (.server event) (q.served e event t) :=
  ⟨depth, by rw [Exchange.perform, h]; rfl⟩

/-- A step that asks for nothing and puts nothing into the queue. -/
theorem Exchange.served_silent {event : Server.LoopEvent} {t : Server.Loop} {out : Bytes}
    (hwire : t.wire e.connId = q.loop.wire e.connId ++ out) (hcalled : Server.called e.connId event = [])
    (hentered : Server.entered e.connId event = []) :
    q.served e event t = {q with loop := t, link := q.link ++ out} := by
  rw [Exchange.served, hwire, hcalled, hentered, List.drop_left, List.append_nil, List.append_nil]

theorem wire_registered {s : Server.Loop} {c : Nat} {conn : Server.Endpoint}
    (h : s.connections.lookup c = some conn) : s.wire c = Server.wire conn.log := by
  rw [Server.Loop.wire, h]
  rfl

/-- A step that does not concern the connection. -/
theorem Conveys.elsewhere (hq : Conveys e q unread) {event : Server.LoopEvent} {t : Server.Loop}
    (hconn : t.connections.lookup e.connId = q.loop.connections.lookup e.connId)
    (hqueue : framesFor e.connId t.commandQueue = framesFor e.connId q.loop.commandQueue)
    (hresponding : framesFor e.connId t.responding = framesFor e.connId q.loop.responding)
    (hrequests : ∀ request ∈ t.requests, request.connID = e.connId → request ∈ q.loop.requests)
    (hcalled : Server.called e.connId event = []) (hentered : Server.entered e.connId event = []) :
    Conveys e (q.served e event t) unread := by
  have hwire : t.wire e.connId = q.loop.wire e.connId ++ [] := by
    rw [Server.Loop.wire, Server.Loop.wire, hconn, List.append_nil]
  have hwaiting : t.waiting e.connId = q.loop.waiting e.connId := by
    rw [Server.Loop.waiting_eq, Server.Loop.waiting_eq, hqueue, hresponding]
  rw [Exchange.served_silent hwire hcalled hentered, List.append_nil]
  refine ⟨hq.hears, ?_, ?_, ?_⟩
  · show q.called.Perm (q.entered ++ (framesFor e.connId t.responding).map .ofFrame)
    rw [hresponding]
    exact hq.called
  · show q.entered = (responses q.process.endpoint.log ++ outstanding q.process unread ++
      framesFor e.connId t.commandQueue).map .ofFrame
    rw [hqueue]
    exact hq.entered
  · rcases hq.stage with hopening | ⟨conn, hserving⟩
    · refine .inl ⟨fun conn h => hopening.conn conn (hconn ▸ h), hwaiting.trans hopening.waiting, ?_,
        hopening.entered, hopening.nothing, hopening.counted, hopening.client⟩
      exact fun request hmem hc => hopening.requests request (hrequests request hmem hc) hc
    · refine .inr ⟨conn, hconn.trans hserving.registered, hserving.fd, hserving.state, hserving.aesKey, hserving.ssid,
        fun frame hframe => hserving.waiting frame (hwaiting ▸ hframe), hserving.counted, ?_, hserving.confirmed⟩
      show conn.conn.fid.toNat + (framesFor e.connId t.commandQueue).length = _
      rw [hqueue]
      exact hserving.fid

/-- The connection is accepted. -/
theorem Conveys.accepted (hq : Conveys e q unread) {clientFd : Int} (hfd : 0 ≤ clientFd)
    (hid : (q.loop.connCount + 1).toNat = e.connId) (hnew : e.connId ∉ q.loop.connections) :
    Conveys e (q.served e (.accept clientFd) (q.loop.accept e.server clientFd)) unread := by
  have hnone : q.loop.connections.lookup e.connId = none := AList.lookup_eq_none.mpr hnew
  have hconn : (q.loop.accept e.server clientFd).connections.lookup e.connId =
      some (e.server.accepts clientFd e.connId) := by
    simp only [Server.Loop.accept, hid]
    exact AList.lookup_insert _
  have hwire : (q.loop.accept e.server clientFd).wire e.connId = q.loop.wire e.connId ++ [] := by
    rw [wire_registered hconn, Server.Loop.wire, hnone]
    rfl
  rw [Exchange.served_silent hwire rfl rfl, List.append_nil]
  refine ⟨hq.hears, hq.called, hq.entered, ?_⟩
  rcases hq.stage with hopening | ⟨conn, hserving⟩
  · refine .inl ⟨fun conn h => ?_, hopening.waiting, hopening.requests, hopening.entered, hopening.nothing,
      hopening.counted, hopening.client⟩
    obtain rfl : _ = conn := Option.some.inj (hconn.symm.trans h)
    exact ⟨by show clientFd ≠ -1; omega, rfl, rfl⟩
  · cases hnone.symm.trans hserving.registered

/-- The handshake is accepted, and its confirmation goes onto the link. -/
theorem Conveys.confirms (hq : Conveys e q unread) {conn u : Server.Endpoint} {raw : Bytes} {t : Server.Loop}
    (hconn : q.loop.connections.lookup e.connId = some conn) (hstate : conn.conn.state = .handshake)
    (henc : Encoding e.client.evp e.client.key.val q.process.endpoint.conn.maxFrameSize
      ((conn.confirmation (e.server.conn e.connId)).renumber (conn.conn.fid + 1)) raw)
    (hsender : u.conn.sender =
      (conn.conn.fd, .active, conn.conn.fid + 1, e.client.key.val, (e.server.conn e.connId).rand64))
    (hu : t.connections.lookup e.connId = some u) (hqueue : t.commandQueue = q.loop.commandQueue)
    (hresponding : t.responding = q.loop.responding) :
    ∃ later, Conveys e {q with loop := t, link := q.link ++ raw} later := by
  rcases hq.stage with hopening | ⟨conn', hserving⟩
  · obtain ⟨hfd, _, hzero⟩ := hopening.conn conn hconn
    obtain rfl := hopening.nothing
    rw [hzero] at henc hsender
    simp only [Server.ClientConnection.sender, Prod.mk.injEq] at hsender
    obtain ⟨hfd', hstate', hfid, hkey, hssid⟩ := hsender
    let confirmation := (conn.confirmation (e.server.conn e.connId)).renumber (0 + 1)
    have hfirst : countedTo q.process [] < confirmation.fid := by
      rw [hopening.counted]
      exact UInt32.zero_lt_one
    obtain ⟨hhears, hcount⟩ := hq.hears.sent (x := (confirmation, raw)) henc rfl hfirst fun _ _ => rfl
    have hwaiting : t.waiting e.connId = [] := by
      rw [Server.Loop.waiting, hqueue, hresponding]
      exact hopening.waiting
    refine ⟨[(confirmation, raw)], hhears, ?_, ?_, .inr ⟨u, hu, hfd' ▸ hfd, hstate', hkey, hssid, ?_, ?_, ?_, ?_⟩⟩
    · show q.called.Perm (q.entered ++ (framesFor e.connId t.responding).map .ofFrame)
      rw [hresponding]
      exact hq.called
    · show q.entered = (responses q.process.endpoint.log ++ outstanding q.process [(confirmation, raw)] ++
        framesFor e.connId t.commandQueue).map .ofFrame
      rw [hqueue, Client.outstanding_confirmation hopening.client]
      exact hq.entered
    · rw [hwaiting]
      exact fun frame hframe => by cases hframe
    · exact le_of_eq (hcount.trans hfid.symm)
    · rw [Server.Loop.waiting_eq, List.append_eq_nil_iff] at hwaiting
      show u.conn.fid.toNat + (framesFor e.connId t.commandQueue).length = q.entered.length + 1
      rw [hfid, hwaiting.1, hopening.entered]
      rfl
    · exact fun _ hnil => by cases hnil
  · obtain rfl : conn' = conn := Option.some.inj (hserving.registered.symm.trans hconn)
    cases hstate.symm.trans hserving.state

theorem Conveys.fd (hq : Conveys e q unread) {conn : Server.Endpoint}
    (hconn : q.loop.connections.lookup e.connId = some conn) : conn.conn.fd ≠ -1 := by
  rcases hq.stage with hopening | ⟨conn', hserving⟩
  · exact (hopening.conn conn hconn).1
  · obtain rfl : conn' = conn := Option.some.inj (hserving.registered.symm.trans hconn)
    exact hserving.fd

/-- The connection reads. -/
theorem Conveys.heard (hq : Conveys e q unread) {conn u : Server.Endpoint} {input : Recv} {now : UInt32}
    {ok : Except Exn Bool} {t : Server.Loop} (hconn : q.loop.connections.lookup e.connId = some conn)
    (hreads : Reads e q.process.endpoint.conn.maxFrameSize conn input now)
    (hread : Server.readFd (e.server.conn e.connId) depth input now conn = some (ok, u))
    (hu : t.connections.lookup e.connId = some u) (hqueue : t.commandQueue = q.loop.commandQueue)
    (hresponding : t.responding = q.loop.responding)
    (hrequests : t.requests = q.loop.requests ++ Server.handed conn u) :
    ∃ later, Conveys e (q.served e (.event input now) t) later := by
  have hbefore := wire_registered hconn
  have hafter := wire_registered hu
  have hwaiting : t.waiting e.connId = q.loop.waiting e.connId := by
    rw [Server.Loop.waiting, Server.Loop.waiting, hqueue, hresponding]
  have hcalled := hq.called
  have hentered := hq.entered
  rw [← hresponding] at hcalled
  rw [← hqueue] at hentered
  have hfd := hq.fd hconn
  obtain ⟨_, _, ⟨hstate, rfl⟩ | ⟨hstate, raw, henc, hsender, hwire⟩ | ⟨hstate, hsender, hwire⟩⟩ :=
      hreads.read hfd hread
  · -- The handshake has not arrived whole.
    have hout : t.wire e.connId = q.loop.wire e.connId ++ [] := by
      rw [hafter, hbefore, List.append_nil]
      rfl
    rw [Exchange.served_silent hout rfl rfl, List.append_nil]
    refine ⟨unread, hq.hears, hcalled, hentered, ?_⟩
    rcases hq.stage with hopening | ⟨conn', hserving⟩
    · refine .inl ⟨fun v hv => ?_, hwaiting.trans hopening.waiting, ?_, hopening.entered, hopening.nothing,
        hopening.counted, hopening.client⟩
      · obtain rfl : _ = v := Option.some.inj (hu.symm.trans hv)
        exact hopening.conn conn hconn
      · have hnone : Server.handed conn (conn.receive input.bytes) = [] := by
          show (conn.log.drop conn.log.length).filterMap _ = []
          rw [List.drop_length]
          rfl
        show ∀ request ∈ t.requests, _
        rw [hrequests, hnone, List.append_nil]
        exact hopening.requests
    · obtain rfl : conn' = conn := Option.some.inj (hserving.registered.symm.trans hconn)
      cases hstate.symm.trans hserving.state
  · -- The handshake is accepted and confirmed.
    have hout : t.wire e.connId = q.loop.wire e.connId ++ raw := by
      rw [hafter, hbefore, hwire]
    rw [Exchange.served_silent hout rfl rfl]
    exact hq.confirms hconn hstate henc hsender hu hqueue hresponding
  · -- Frames of the session are taken.
    have hout : t.wire e.connId = q.loop.wire e.connId ++ [] := by
      rw [hafter, hbefore, hwire, List.append_nil]
    rw [Exchange.served_silent hout rfl rfl, List.append_nil]
    refine ⟨unread, hq.hears, hcalled, hentered, ?_⟩
    simp only [Server.ClientConnection.sender, Prod.mk.injEq] at hsender
    obtain ⟨hfd', hstate', hfid, hkey, hssid⟩ := hsender
    rcases hq.stage with hopening | ⟨conn', hserving⟩
    · cases hstate.symm.trans (hopening.conn conn hconn).2.1
    · obtain rfl : conn' = conn := Option.some.inj (hserving.registered.symm.trans hconn)
      refine .inr ⟨u, hu, hfd' ▸ hfd, hstate'.trans hstate, hkey.trans hserving.aesKey, hssid.trans hserving.ssid,
        fun frame hframe => hserving.waiting frame (hwaiting ▸ hframe), hfid ▸ hserving.counted, ?_,
          hserving.confirmed⟩
      show u.conn.fid.toNat + (framesFor e.connId t.commandQueue).length = _
      rw [hfid, hqueue]
      exact hserving.fid

/-- The connection sends the next frame of the queue. -/
theorem Conveys.sent (hq : Conveys e q unread) {conn u : Server.Endpoint} {frame : Frame} {t : Server.Loop}
    (hserving : q.Serving e unread conn) (hfits : Fits q.process.endpoint.conn.maxFrameSize frame)
    (hsmall : frame.bodySize < 2 ^ 31) (hfew : q.entered.length < 2 ^ 32 - 1)
    (hsend : Server.sendFrame (e.server.conn e.connId) depth frame conn = some u)
    (hu : t.connections.lookup e.connId = some u)
    (hqueue : framesFor e.connId q.loop.commandQueue = frame :: framesFor e.connId t.commandQueue)
    (hresponding : t.responding = q.loop.responding) : ∃ later, Conveys e (q.served e .command t) later := by
  obtain ⟨v, raw, hv, henc, hconn, hwire⟩ := @Fits.sent e _ conn frame hfits hsmall hserving.fd hserving.aesKey
  obtain rfl : v = u := Option.some.inj ((hv depth).symm.trans hsend)
  have hout : t.wire e.connId = q.loop.wire e.connId ++ raw := by
    rw [wire_registered hu, wire_registered hserving.registered, hwire]
  rw [Exchange.served_silent hout rfl rfl]
  have hfid := hserving.fid
  rw [hqueue, List.length_cons] at hfid
  have hnext : (conn.conn.fid + 1).toNat = conn.conn.fid.toNat + 1 := toNat_succ (by omega)
  have habove : conn.conn.fid < conn.conn.fid + 1 := by
    rw [UInt32.lt_iff_toNat_lt, hnext]
    exact Nat.lt_succ_self _
  have hsent : (frame.renumber (conn.conn.fid + 1)).fid = conn.conn.fid + 1 :=
    if_neg fun hzero => by rw [hzero] at habove; exact UInt32.not_lt_zero habove
  have hwaiting : q.loop.waiting e.connId = frame :: t.waiting e.connId := by
    rw [Server.Loop.waiting_eq, Server.Loop.waiting_eq, hqueue, hresponding]
    rfl
  have hown := hserving.waiting
  rw [hwaiting] at hown
  obtain ⟨hhears, hcount⟩ := hq.hears.sent (x := (frame.renumber (conn.conn.fid + 1), raw)) henc
    (hown frame (List.mem_cons_self ..)) (hsent.symm ▸ UInt32.lt_of_le_of_lt hserving.counted habove)
    fun hhand hnil => absurd hnil (hserving.confirmed hhand)
  refine ⟨_, hhears, ?_, ?_, .inr ⟨v, hu, ?_, ?_, ?_, ?_, ?_, ?_, ?_, ?_⟩⟩
  · show q.called.Perm (q.entered ++ (framesFor e.connId t.responding).map .ofFrame)
    rw [hresponding]
    exact hq.called
  · show q.entered = _
    rw [hq.entered, hqueue, Client.outstanding_sent hserving.confirmed]
    simp only [List.map_append, List.map_cons, List.map_nil, List.append_assoc]
    rfl
  · rw [hconn]
    exact hserving.fd
  · rw [hconn]
    exact hserving.state
  · rw [hconn]
    exact hserving.aesKey
  · rw [hconn]
    exact hserving.ssid
  · exact fun frame' hframe' => hown frame' (List.mem_cons_of_mem _ hframe')
  · rw [hconn]
    exact le_of_eq (hcount.trans hsent)
  · rw [hconn]
    show (conn.conn.fid + 1).toNat + (framesFor e.connId t.commandQueue).length = q.entered.length + 1
    omega
  · exact fun _ hnil => List.append_ne_nil_of_right_ne_nil _ (List.cons_ne_nil _ _) hnil

/-- A step that writes nothing. -/
theorem Exchange.served_unwritten {event : Server.LoopEvent} {t : Server.Loop}
    (hconnections : t.connections = q.loop.connections) :
    q.served e event t = {q with
      loop := t
      called := q.called ++ Server.called e.connId event
      entered := q.entered ++ Server.entered e.connId event} := by
  have hwire : t.wire e.connId = q.loop.wire e.connId := by
    rw [Server.Loop.wire, Server.Loop.wire, hconnections]
  rw [Exchange.served, hwire, List.drop_length, List.append_nil]

/-- A response has been built for the connection. -/
theorem Conveys.built (hq : Conveys e q unread) {conn : Server.Endpoint} (hserving : q.Serving e unread conn)
    {event : Server.LoopEvent} {resp : Server.Response} (hid : resp.connID = e.connId)
    (hcalled : Server.called e.connId event = [⟨resp.path, resp.data, resp.status⟩])
    (hentered : Server.entered e.connId event = []) :
    Conveys e (q.served e event (q.loop.sendResponse resp)) unread := by
  let frame := conn.conn.makeRespFrame resp.path resp.data resp.status 0 resp.rid
  let t : Server.Loop := {q.loop with responding := q.loop.responding ++ [⟨.send, resp.connID, some frame⟩]}
  have hconn : q.loop.connections.lookup resp.connID = some conn := hid ▸ hserving.registered
  have ht : q.loop.sendResponse resp = t := by
    simp only [Server.Loop.sendResponse, hconn]
    rfl
  have hframes : framesFor e.connId t.responding = framesFor e.connId q.loop.responding ++ [frame] := by
    rw [← hid, Server.framesFor_append, Server.framesFor_call ⟨.send, resp.connID, some frame⟩]
    rfl
  have hunwritten : q.served e event t = _ := Exchange.served_unwritten rfl
  rw [ht, hunwritten, hcalled, hentered, List.append_nil]
  refine ⟨hq.hears, ?_, hq.entered, .inr ⟨conn, hserving.registered, hserving.fd, hserving.state, hserving.aesKey,
    hserving.ssid, fun f hf => ?_, hserving.counted, hserving.fid, hserving.confirmed⟩⟩
  · show (q.called ++ [Client.Response.ofFrame frame]).Perm
        (q.entered ++ (framesFor e.connId t.responding).map .ofFrame)
    rw [hframes, List.map_append, ← List.append_assoc]
    exact hq.called.append_right _
  · have hf' : f ∈ t.waiting e.connId := hf
    rw [Server.Loop.waiting_eq, hframes, ← List.append_assoc, List.mem_append, List.mem_singleton] at hf'
    rcases hf' with hf' | rfl
    · exact hserving.waiting f (Server.Loop.waiting_eq .. ▸ hf')
    · exact hserving.ssid

/-- A command goes from its worker into the queue. -/
theorem Conveys.pushed (hq : Conveys e q unread) {cmd : Server.ServerCommand} (hcmd : cmd ∈ q.loop.responding) :
    Conveys e (q.served e (.push cmd) (({q.loop with responding := q.loop.responding.erase cmd}).push cmd))
      unread := by
  let t := ({q.loop with responding := q.loop.responding.erase cmd} : Server.Loop).push cmd
  have hunwritten : q.served e (.push cmd) t = _ := Exchange.served_unwritten rfl
  have hqueue : framesFor e.connId t.commandQueue =
      framesFor e.connId q.loop.commandQueue ++ framesFor e.connId [cmd] := Server.framesFor_append ..
  have hresponding : (framesFor e.connId q.loop.responding).Perm
      (framesFor e.connId [cmd] ++ framesFor e.connId t.responding) := by
    rw [← Server.framesFor_cons]
    exact Server.framesFor_perm _ (List.perm_cons_erase hcmd)
  have hwaiting : (q.loop.waiting e.connId).Perm (t.waiting e.connId) := by
    rw [Server.Loop.waiting_eq, Server.Loop.waiting_eq, hqueue, List.append_assoc]
    exact hresponding.append_left _
  show Conveys e (q.served e (.push cmd) t) unread
  rw [hunwritten, show Server.called e.connId (.push cmd) = [] from rfl, List.append_nil]
  refine ⟨hq.hears, ?_, ?_, ?_⟩
  · show q.called.Perm ((q.entered ++ (framesFor e.connId [cmd]).map .ofFrame) ++
      (framesFor e.connId t.responding).map .ofFrame)
    rw [List.append_assoc, ← List.map_append]
    exact hq.called.trans ((hresponding.map _).append_left _)
  · show q.entered ++ (framesFor e.connId [cmd]).map .ofFrame = (responses q.process.endpoint.log ++
      outstanding q.process unread ++ framesFor e.connId t.commandQueue).map .ofFrame
    rw [hqueue, ← List.append_assoc, List.map_append, ← hq.entered]
  · rcases hq.stage with hopening | ⟨conn, hserving⟩
    · have hnone : t.waiting e.connId = [] := (hopening.waiting ▸ hwaiting).nil_eq.symm
      refine .inl ⟨hopening.conn, hnone, hopening.requests, ?_, hopening.nothing, hopening.counted, hopening.client⟩
      rw [Server.Loop.waiting_eq, hqueue, List.append_assoc] at hnone
      show q.entered ++ (framesFor e.connId [cmd]).map .ofFrame = []
      rw [hopening.entered, (List.append_eq_nil_iff.mp (List.append_eq_nil_iff.mp hnone).2).1]
      rfl
    · refine .inr ⟨conn, hserving.registered, hserving.fd, hserving.state, hserving.aesKey, hserving.ssid,
        fun f hf => hserving.waiting f (hwaiting.mem_iff.mpr hf), hserving.counted, ?_, hserving.confirmed⟩
      have hfid := hserving.fid
      show conn.conn.fid.toNat + (framesFor e.connId t.commandQueue).length =
        (q.entered ++ (framesFor e.connId [cmd]).map Client.Response.ofFrame).length + 1
      rw [hqueue, List.length_append, List.length_append, List.length_map]
      omega

/-- A command for the connection is handled. -/
theorem Conveys.handled (hq : Conveys e q unread) {cmd : Server.ServerCommand} {rest : List Server.ServerCommand}
    {ok : Except Exn Unit} {t : Server.Loop} (hrule : Carried e q (.server .command))
    (hqueue : q.loop.commandQueue = cmd :: rest) (hid : cmd.connID = e.connId)
    (h : Server.CommandEffect e.server depth cmd {q.loop with commandQueue := rest} ok t) :
    ∃ later, Conveys e (q.served e .command (Server.Loop.after (ok, t))) later := by
  have hhead : cmd ∈ q.loop.commandQueue.head? := by rw [hqueue]; rfl
  obtain ⟨htype, hfew, hfits⟩ := hrule.1 cmd hhead hid
  have hsmall := hrule.2 cmd hhead hid
  have hframes : framesFor e.connId q.loop.commandQueue =
      (cmd.call.bind Server.Call.frame).toList ++ framesFor e.connId rest := by
    rw [hqueue, Server.framesFor_cons, ← hid, Server.framesFor_call]
  -- A command without a frame leaves everything as it is.
  have hframeless : ∀ {ok}, (cmd.call.bind Server.Call.frame).toList = [] →
      ∃ later, Conveys e (q.served e .command (Server.Loop.after (ok, {q.loop with commandQueue := rest})))
        later := by
    intro ok hnone
    rw [hnone, List.nil_append] at hframes
    cases ok <;> exact ⟨unread, hq.elsewhere rfl hframes.symm rfl (fun _ hmem _ => hmem) rfl rfl⟩
  have hopening : q.Opening e unread → (cmd.call.bind Server.Call.frame).toList = [] := by
    intro hopening
    have hnone := hopening.waiting
    rw [Server.Loop.waiting_eq, hframes, List.append_assoc] at hnone
    exact (List.append_eq_nil_iff.mp hnone).1
  cases h with
  | missing hnone =>
    rcases hq.stage with hstage | ⟨conn, hserving⟩
    · exact hframeless (hopening hstage)
    · rw [hid] at hnone
      cases hnone.symm.trans hserving.registered
  | frameless _ hcall => exact hframeless (by rw [hcall]; rfl)
  | @called conn u call hconn hcall hu =>
    obtain ⟨frame, hframe, rfl⟩ : ∃ frame, cmd.frame = some frame ∧ call = .sendFrame frame := by
      rw [Server.ServerCommand.call, htype] at hcall
      obtain ⟨frame, hframe, rfl⟩ := Option.map_eq_some_iff.mp hcall
      exact ⟨frame, hframe, rfl⟩
    rw [hcall] at hframes hopening
    rw [hid] at hconn hu
    rcases hq.stage with hstage | ⟨conn', hserving⟩
    · cases hopening hstage
    · obtain rfl : conn' = conn := Option.some.inj (hserving.registered.symm.trans hconn)
      refine hq.sent hserving (hfits frame hframe) (hsmall frame hframe) hfew hu ?_ hframes rfl
      show (q.loop.connections.insert cmd.connID u).lookup e.connId = some u
      rw [hid]
      exact AList.lookup_insert _

/-- An event is handled. -/
theorem Conveys.raised (hq : Conveys e q unread) (hregistered : q.loop.Registered e.server) {ev : Server.EpollEvent}
    {rest : List Server.EpollEvent} {input : Recv} {now : UInt32} {ok : Except Exn Unit} {t : Server.Loop}
    (hrule : Carried e q (.server (.event input now))) (hevents : q.loop.events = ev :: rest)
    (h : Server.Loop.handleEvent e.server depth ev input now {q.loop with events := rest} = some (ok, t))
    (hrequests : (Server.Loop.after (ok, t)).connections.lookup e.connId = q.loop.connections.lookup e.connId →
      ∀ request ∈ (Server.Loop.after (ok, t)).requests, request.connID = e.connId → request ∈ q.loop.requests) :
    ∃ later, Conveys e (q.served e (.event input now) (Server.Loop.after (ok, t))) later := by
  have hquiet : Conveys e (q.served e (.event input now) {q.loop with events := rest}) unread :=
    hq.elsewhere rfl rfl rfl (fun _ hmem _ => hmem) rfl rfl
  obtain ⟨rfl, heffect⟩ := Server.handleEvent_effect (by exact fun _ _ hconn => hregistered.wellFormed hconn) h
  by_cases hmapped : q.loop.fdToId.lookup ev.fd = some e.connId
  · cases hconn : q.loop.connections.lookup e.connId with
    | none =>
      simp only [Server.Loop.handleEvent, hmapped, hconn] at h
      cases h
      exact ⟨unread, hquiet⟩
    | some conn =>
      have hfinds : ({q.loop with events := rest} : Server.Loop).Finds ev.fd e.connId conn := ⟨hmapped, hconn⟩
      obtain ⟨hhup, hreads⟩ := hrule.1 ev (by rw [hevents]; rfl) hmapped conn hconn
      cases hreadable : ev.readable with
      | false =>
        simp only [Server.Loop.handleEvent, hmapped, hconn, hhup, hreadable, Bool.false_eq_true, if_false] at h
        cases h
        exact ⟨unread, hquiet⟩
      | true =>
        cases hread : Server.readFd (e.server.conn e.connId) depth input now conn with
        | none =>
          simp only [Server.Loop.handleEvent, hmapped, hconn, hhup, hreadable, hread, Bool.false_eq_true, if_false,
            if_true] at h
          cases h
        | some result =>
          obtain ⟨ok, u⟩ := result
          obtain ⟨rfl, hopen, _⟩ := (hreads hreadable).read (hq.fd hconn) hread
          rw [Server.handleEvent_read hfinds hhup hreadable hread hopen] at h
          cases h
          exact hq.heard hconn (hreads hreadable) hread (AList.lookup_insert _) rfl rfl rfl
  · rcases heffect.touches with rfl | ⟨c, hc, _, htouches⟩
    · exact ⟨unread, hquiet⟩
    · have hne : e.connId ≠ c := fun hsame => hmapped (hsame ▸ hc)
      have hsame := htouches.others e.connId hne
      obtain ⟨hqueue, hresponding⟩ := htouches.commands
      exact ⟨unread, hq.elsewhere hsame (congrArg _ hqueue) (congrArg _ hresponding) (hrequests hsame) rfl rfl⟩

/-- **A step of the server.** -/
theorem Conveys.server (hq : Conveys e q unread) (hreach : Reachable (Server.epollLoop e.server) q.loop)
    {event : Server.LoopEvent} {t : Server.Loop} (hrule : Carried e q (.server event))
    (h : q.loop.perform e.server depth event = some t) : ∃ later, Conveys e (q.served e event t) later := by
  have hregistered := (Server.reachable_each hreach).registered
  have hstep := (Server.perform_step h).2
  have hrequests : t.connections.lookup e.connId = q.loop.connections.lookup e.connId →
      ∀ request ∈ t.requests, request.connID = e.connId → request ∈ q.loop.requests := by
    intro hsame request hmem hid
    rw [← hid] at hsame
    exact (hstep.effect hregistered).requests_same hregistered (Server.reachable_connId hreach) hsame hmem
  -- Steps that leave the connections, the queues and the requests as they are.
  have hquiet : ∀ {u : Server.Loop}, u.connections = q.loop.connections → u.commandQueue = q.loop.commandQueue →
      u.responding = q.loop.responding → u.requests = q.loop.requests → Server.called e.connId event = [] →
      Server.entered e.connId event = [] → ∃ later, Conveys e (q.served e event u) later := by
    intro u hconnections hqueue hresponding hsame hcalled hentered
    exact ⟨unread, hq.elsewhere (by rw [hconnections]) (by rw [hqueue]) (by rw [hresponding])
      (fun request hmem _ => hsame ▸ hmem) hcalled hentered⟩
  cases hstep with
  | wait | wake | listen | accepted | drained => exact hquiet rfl rfl rfl rfl rfl rfl
  | event _ hevents _ _ hu => exact hq.raised hregistered hrule hevents hu hrequests
  | @accept clientFd _ hfree =>
    by_cases hid : (q.loop.connCount + 1).toNat = e.connId
    · exact ⟨unread, hq.accepted hfree.1 hid (hrule.1 hid)⟩
    · refine ⟨unread, hq.elsewhere (AList.lookup_insert_ne (Ne.symm hid)) rfl rfl (fun _ hmem _ => hmem) rfl rfl⟩
  | @command cmd rest ok u _ hqueue hu =>
    have heffect := Server.handleCommand_effect hu
    by_cases hid : cmd.connID = e.connId
    · exact hq.handled hrule hqueue hid heffect
    · have hframes : framesFor e.connId rest = framesFor e.connId q.loop.commandQueue := by
        rw [hqueue, Server.framesFor_cons, Server.framesFor_other hid, List.nil_append]
      have hsame : (Server.Loop.after (ok, u)).connections.lookup e.connId = q.loop.connections.lookup e.connId ∧
          (Server.Loop.after (ok, u)).commandQueue = rest ∧
          (Server.Loop.after (ok, u)).responding = q.loop.responding := by
        have hafter : (Server.Loop.after (ok, u)).connections = u.connections ∧
            (Server.Loop.after (ok, u)).commandQueue = u.commandQueue ∧
            (Server.Loop.after (ok, u)).responding = u.responding := by
          cases ok <;> exact ⟨rfl, rfl, rfl⟩
        rw [hafter.1, hafter.2.1, hafter.2.2]
        cases heffect with
        | missing | frameless => exact ⟨rfl, rfl, rfl⟩
        | called => exact ⟨AList.lookup_insert_ne (Ne.symm hid), rfl, rfl⟩
      exact ⟨unread, hq.elsewhere hsame.1 (by rw [hsame.2.1, hframes]) (by rw [hsame.2.2])
        (hrequests hsame.1) rfl rfl⟩
  | @respond request data status hmem =>
    by_cases hid : request.connID = e.connId
    · rcases hq.stage with hopening | ⟨conn, hserving⟩
      · exact absurd hid (hopening.requests request hmem)
      · exact ⟨unread, hq.built hserving hid (if_pos hid) rfl⟩
    · obtain ⟨hresponding, hconnections, hqueue, hsame⟩ :=
        Server.sendResponse_other (.ofRequest request data status) hid q.loop
      exact ⟨unread, hq.elsewhere (by rw [hconnections]) (by rw [hqueue]) hresponding
        (fun request hmem _ => hsame ▸ hmem) (if_neg hid) rfl⟩
  | @serverPush connID path data status =>
    by_cases hid : connID = e.connId
    · rcases hq.stage with hopening | ⟨conn, hserving⟩
      · obtain ⟨conn, hconn, hstate⟩ := Option.map_eq_some_iff.mp (hrule.1 hid)
        cases hstate.symm.trans (hopening.conn conn hconn).2.1
      · exact ⟨unread, hq.built hserving hid (if_pos hid) rfl⟩
    · obtain ⟨hresponding, hconnections, hqueue, hsame⟩ :=
        Server.sendResponse_other ⟨connID, path, data, status, 0⟩ hid q.loop
      exact ⟨unread, hq.elsewhere (by rw [hconnections]) (by rw [hqueue]) hresponding
        (fun request hmem _ => hsame ▸ hmem) (if_neg hid) rfl⟩
  | push hcmd => exact ⟨unread, hq.pushed hcmd⟩
  | @closeConnection connID =>
    have hframes : framesFor e.connId [⟨.close, connID, none⟩] = [] := by
      by_cases hid : connID = e.connId
      · subst hid
        exact Server.framesFor_call _
      · exact Server.framesFor_other hid
    refine ⟨unread, hq.elsewhere rfl ?_ rfl (fun _ hmem _ => hmem) rfl rfl⟩
    show framesFor e.connId (q.loop.commandQueue ++ [⟨.close, connID, none⟩]) = _
    rw [Server.framesFor_append, hframes, List.append_nil]

end

end Fmxp
