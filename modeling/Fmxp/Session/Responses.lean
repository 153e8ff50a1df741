import Fmxp.Session.Conveying

/-! From `sendResponse` to `_onResponse`.

In every run in which nothing disturbs the exchange and the encoder takes what it is given, the client
takes all frames, and is given the response of each call once, in the order of the queue
(`responses_delivered`). A frame that the encoder does not take ends all this: the client is given the
farewell of the server in its place (`oversize_lost`). -/
namespace Fmxp
open Transition Framing
open Client (Hears outstanding responses reachable_sends)
open Server (framesFor)

section
variable {e : ExchangeEnv} {q r : Exchange} {unread later : List (Frame × Bytes)} {depth : Nat}

/-! ### Every run -/

/-- The server and the client of an exchange live lives of their own. -/
theorem exchange_parties (h : Reachable (exchange e) q) :
    Reachable (Server.epollLoop e.server) q.loop ∧ Reachable (Client.lifecycle e.client) q.process := by
  induction h with
  | init hq =>
    obtain ⟨hloop, hprocess, _⟩ := hq
    exact ⟨.init hloop, .init hprocess⟩
  | @step q r event _ hstep ih =>
    obtain ⟨depth, hperform⟩ := hstep
    have hclient : ∀ {event p}, Client.perform e.client event q.process = some p →
        Reachable (Client.lifecycle e.client) p := fun hp => .step ih.2 hp
    cases event with
    | server event =>
      obtain ⟨t, ht, rfl⟩ := Option.map_eq_some_iff.mp hperform
      exact ⟨.step ih.1 ⟨depth, ht⟩, ih.2⟩
    | client event =>
      cases event with
      | readable input =>
        simp only [Exchange.perform] at hperform
        split at hperform
        · obtain ⟨p, hp, rfl⟩ := Option.map_eq_some_iff.mp hperform
          exact ⟨ih.1, hclient hp⟩
        · cases hperform
      | _ =>
        obtain ⟨p, hp, rfl⟩ := Option.map_eq_some_iff.mp hperform
        exact ⟨ih.1, hclient hp⟩

theorem exchange_init (h : (exchange e).init q) : Conveys e q [] := by
  obtain ⟨⟨connCount, hloop⟩, ⟨pubKey, maxFrameSize, socket, epollFd, cmdEvFd, hsocket, hprocess⟩, hlink, hcalled,
    hentered⟩ := h
  have hnone : q.loop.connections.lookup e.connId = none := by
    rw [hloop]
    rfl
  refine ⟨⟨?_, ?_, ?_, fun x hx => (by cases hx), ?_, ?_, .inl ?_⟩, ?_, ?_, .inl ⟨?_, ?_, ?_, hentered, rfl, ?_, ?_⟩⟩
  · rw [hprocess]
    exact hsocket
  · rw [hprocess, hlink]
    rfl
  · rw [hprocess]
    exact Framer.decode_wait _ _ rfl
  · rw [hprocess]
    exact fun f hf => by cases hf
  · rw [hprocess]
    trivial
  · rw [hprocess]
    exact ⟨rfl, rfl, fun x hx => by cases hx⟩
  · rw [hcalled, hentered, hloop]
    exact .refl _
  · rw [hentered, hloop, hprocess]
    rfl
  · intro conn hconn
    cases hnone.symm.trans hconn
  · rw [hloop]
    rfl
  · rw [hloop]
    exact fun request hmem => by cases hmem
  · rw [hprocess]
    rfl
  · rw [hprocess]

/-- **A step of the client** that reads or hands over ends in no exception. -/
theorem Conveys.clientStep (hq : Conveys e q unread) (hreach : Reachable (Client.lifecycle e.client) q.process)
    {event : Client.Event} (hrule : Carried e q (.client event))
    (h : q.perform e depth (.client event) = some r) :
    (∃ later, Conveys e r later) ∧
      (event = .dispatch ∨ (∃ input, event = .readable input) → r.process.uncaught = none) := by
  have haside : ∀ {event p}, (∀ input, event ≠ .readable input) → event ≠ .dispatch →
      (event ≠ .hangup ∧ event ≠ .beginClose) → Client.perform e.client event q.process = some p →
      ∃ later, Conveys e {q with process := p} later := by
    intro event p hread hdispatch hclose hp
    obtain ⟨hhears, hadvances⟩ := hq.hears.aside
      (Client.perform_aside (reachable_sends hreach) hq.hears.open_ hread hdispatch hclose hp)
    exact ⟨unread, hq.client hhears hadvances⟩
  cases event with
  | readable input =>
    simp only [Exchange.perform] at h
    split at h
    · next hinput =>
      obtain ⟨p, hp, rfl⟩ := Option.map_eq_some_iff.mp h
      have hlink : input.bytes ++ q.link.drop input.bytes.length = q.link := List.prefix_append_drop hinput.1 |>.symm
      obtain ⟨hrunning, later, hhears, hadvances⟩ :=
        hq.hears.read (Client.reachable_wellFormed hreach) hlink hinput.2 hp
      exact ⟨⟨later, hq.client hhears hadvances⟩, fun _ => hrunning⟩
    · cases h
  | dispatch =>
    obtain ⟨p, hp, rfl⟩ := Option.map_eq_some_iff.mp h
    obtain ⟨hrunning, hhears, hadvances⟩ := hq.hears.dispatch hp
    exact ⟨⟨unread, hq.client hhears hadvances⟩, fun _ => hrunning⟩
  | hangup => cases hrule.1
  | beginClose => cases hrule.1
  | start now | command | sendReq path data | endClose | setOnClose =>
    obtain ⟨p, hp, rfl⟩ := Option.map_eq_some_iff.mp h
    refine ⟨haside (fun _ hc => by cases hc) (fun hc => by cases hc)
      ⟨fun hc => (by cases hc), fun hc => by cases hc⟩ hp, ?_⟩
    rintro (hc | ⟨input, hc⟩) <;> cases hc

/-- In every run that carries its frames, every response is on its way or has been handed over. -/
theorem reachable_conveys (h : Reachable ((exchange e).under (Carried e)) q) : ∃ unread, Conveys e q unread := by
  induction h with
  | init hq => exact ⟨[], exchange_init hq⟩
  | @step q r event hreach hstep ih =>
    obtain ⟨unread, hq⟩ := ih
    obtain ⟨hrule, depth, hperform⟩ := hstep
    obtain ⟨hloop, hprocess⟩ := exchange_parties hreach.of_under
    cases event with
    | server event =>
      obtain ⟨t, ht, rfl⟩ := Option.map_eq_some_iff.mp hperform
      exact hq.server hloop hrule ht
    | client event => exact (hq.clientStep hprocess hrule hperform).1

/-- The client can hand over all that waits for it. -/
theorem hand_over_pending (h : Reachable ((exchange e).under (Carried e)) q)
    (hrunning : q.process.uncaught = none) :
    ∃ labels r, Run ((exchange e).under (Carried e)) q labels r ∧ r.loop = q.loop ∧ r.link = q.link ∧
      r.entered = q.entered ∧ r.process.looping = q.process.looping ∧ r.process.uncaught = none ∧
      r.process.pending = [] := by
  induction hpending : q.process.pending generalizing q with
  | nil => exact ⟨[], q, .nil, rfl, rfl, rfl, rfl, hrunning, hpending⟩
  | cons frame rest ih =>
    obtain ⟨unread, hq⟩ := reachable_conveys h
    let p : Client.Process :=
      {q.process with endpoint := q.process.endpoint.handOver [frame], pending := rest}
    have hperform : q.perform e 0 (.client .dispatch) = some {q with process := p} := by
      simp only [Exchange.perform, hq.hears.dispatched hrunning hpending]
      rfl
    have hstep : ((exchange e).under (Carried e)).step q (.client .dispatch) {q with process := p} :=
      ⟨⟨trivial, trivial⟩, 0, hperform⟩
    obtain ⟨labels, r, hrun, hend⟩ := ih (h.step hstep) hrunning rfl
    exact ⟨_, r, .cons hstep hrun, hend⟩

/-- A client whose loop runs can read and hand over all that has been written. -/
theorem drain_link (h : Reachable ((exchange e).under (Carried e)) q) (hlooping : q.process.looping = true)
    (hrunning : q.process.uncaught = none) :
    ∃ labels r, Run ((exchange e).under (Carried e)) q labels r ∧ r.loop = q.loop ∧ r.link = [] ∧
      r.entered = q.entered ∧ r.process.pending = [] := by
  obtain ⟨labels, r, hrun, hloop, hlink, hentered, hsame, hgo, hpending⟩ := hand_over_pending h hrunning
  have hreach := h.run hrun
  obtain ⟨unread, hr⟩ := reachable_conveys hreach
  have hprocess := (exchange_parties hreach.of_under).2
  have hidle : r.process.idle = true := by
    rw [Client.Process.idle, hsame, hlooping, ((Client.reachable_wellFormed hprocess).live hr.hears.open_).joinable,
      hpending]
    rfl
  let input : Recv := .once r.link
  obtain ⟨p, hp⟩ : ∃ p, Client.perform e.client (.readable input) r.process = some p := by
    have hnone : r.process.uncaught.isSome = false := by rw [hgo]; rfl
    simp only [Client.perform, hnone, hidle, Bool.false_eq_true, if_false, if_true]
    exact ⟨_, rfl⟩
  have hperform : r.perform e 0 (.client (.readable input)) = some {r with process := p, link := []} :=
    Exchange.read_link hp
  have hstep : ((exchange e).under (Carried e)).step r (.client (.readable input)) _ :=
    ⟨⟨trivial, trivial⟩, 0, hperform⟩
  have hread := (hr.clientStep hprocess (by exact hstep.1) hperform).2 (.inr ⟨input, rfl⟩)
  obtain ⟨labels', t, hrun', hloop', hlink', hentered', _, _, hpending'⟩ :=
      hand_over_pending (hreach.step hstep) hread
  exact ⟨_, t, hrun.append (.cons hstep hrun'), hloop'.trans hloop, hlink', hentered'.trans hentered, hpending'⟩

/-- What the client has been given, in order. -/
def Exchange.received (q : Exchange) : List Client.Response := (responses q.process.endpoint.log).map .ofFrame

/-- What an exchange has delivered, and that it can go on. -/
structure Delivers (e : ExchangeEnv) (q : Exchange) : Prop where
  /-- The client has rejected nothing and will reject nothing that comes next. -/
  accepts : q.process.endpoint.conn.state ≠ .closed ∧
    ∀ event r, event = .dispatch ∨ (∃ input, event = .readable input) →
      (exchange e).step q (.client event) r → r.process.uncaught = none
  /-- Every call has its one command, in the queue's history or still with its worker. -/
  called : q.called.Perm (q.entered ++ (framesFor e.connId q.loop.responding).map .ofFrame)
  /-- The client has been given the first that entered the queue, in that order; all, when none is on its way. -/
  received : ∃ rest, q.entered = q.received ++ rest ∧
    (framesFor e.connId q.loop.commandQueue = [] → q.link = [] → q.process.pending = [] → rest = [])
  /-- A command that comes up for the connection is handled. -/
  handles : ∀ cmd ∈ q.loop.commandQueue.head?, cmd.connID = e.connId → q.loop.phase = .commands →
    q.loop.uncaught = none → Carried e q (.server .command) → ∃ r, (exchange e).step q (.server .command) r
  /-- A client whose loop runs can be given all that has left the queue. -/
  drains : q.process.looping = true → q.process.uncaught = none →
    ∃ labels r, Run ((exchange e).under (Carried e)) q labels r ∧ r.loop = q.loop ∧
      q.entered = r.received ++ (framesFor e.connId q.loop.commandQueue).map .ofFrame

theorem Conveys.received (hq : Conveys e q unread) : ∃ rest, q.entered = q.received ++ rest ∧
    (framesFor e.connId q.loop.commandQueue = [] → q.link = [] → q.process.pending = [] → rest = []) := by
  refine ⟨(outstanding q.process unread ++ framesFor e.connId q.loop.commandQueue).map .ofFrame, ?_, ?_⟩
  · rw [hq.entered, List.append_assoc, List.map_append]
    rfl
  · intro hqueue hlink hpending
    have hhears := hq.hears
    rw [hlink] at hhears
    rw [hhears.drained, outstanding, hpending, hqueue]
    split <;> rfl

/-- A command for the connection is handled, at whatever depth. -/
theorem Conveys.handles (hq : Conveys e q unread) {cmd : Server.ServerCommand} {rest : List Server.ServerCommand}
    (hqueue : q.loop.commandQueue = cmd :: rest) (hid : cmd.connID = e.connId)
    (hrule : Carried e q (.server .command)) :
    ∃ result, Server.Loop.handleCommand e.server 0 cmd {q.loop with commandQueue := rest} = some result := by
  have hhead : cmd ∈ q.loop.commandQueue.head? := by rw [hqueue]; rfl
  obtain ⟨htype, _, hfits⟩ := hrule.1 cmd hhead hid
  cases hconn : q.loop.connections.lookup cmd.connID with
  | none => exact ⟨_, by simp only [Server.Loop.handleCommand, hconn]; rfl⟩
  | some conn =>
    cases hframe : cmd.frame with
    | none => exact ⟨_, by simp only [Server.Loop.handleCommand, hconn, htype, hframe]; rfl⟩
    | some frame =>
      rcases hq.stage with hopening | ⟨conn', hserving⟩
      · -- A frame does not wait before the handshake.
        have hwaiting := hopening.waiting
        rw [Server.Loop.waiting_eq, hqueue, Server.framesFor_cons, ← hid, Server.framesFor_call,
          Server.ServerCommand.call, htype, hframe] at hwaiting
        cases hwaiting
      · obtain rfl : conn' = conn := Option.some.inj (hserving.registered.symm.trans (hid ▸ hconn))
        obtain ⟨u, _, hu, _⟩ := @Fits.sent e _ conn' frame (hfits frame hframe) (hrule.2 cmd hhead hid frame hframe)
          hserving.fd hserving.aesKey
        rw [← hid] at hu
        exact ⟨_, by simp only [Server.Loop.handleCommand, hconn, htype, hframe, hu]; rfl⟩

/-- **Delivery of responses**: in every undisturbed run whose frames the encoder takes, the client rejects none of
them, and is given the response of every call once, in the order in which the commands entered the queue. -/
theorem responses_delivered (h : Reachable ((exchange e).under (Carried e)) q) : Delivers e q := by
  obtain ⟨unread, hq⟩ := reachable_conveys h
  have hprocess := (exchange_parties h.of_under).2
  refine ⟨⟨hq.hears.open_, ?_⟩, hq.called, hq.received, ?_, ?_⟩
  · rintro event r hevent ⟨depth, hperform⟩
    have hrule : Carried e q (.client event) := by
      rcases hevent with rfl | ⟨input, rfl⟩ <;> exact ⟨trivial, trivial⟩
    exact (hq.clientStep hprocess hrule hperform).2 hevent
  · intro cmd hcmd hid hphase hrunning hrule
    obtain ⟨rest, hqueue⟩ := List.head?_eq_some_iff.mp hcmd
    obtain ⟨result, hresult⟩ := hq.handles hqueue hid hrule
    have hgo : q.loop.uncaught.isSome = false := by rw [hrunning]; rfl
    have hperform : q.loop.perform e.server 0 .command = some (Server.Loop.after result) :=
      Server.Loop.command_step hgo hphase hqueue hresult
    exact ⟨_, Exchange.serve hperform⟩
  · intro hlooping hrunning
    obtain ⟨labels, r, hrun, hloop, hlink, hentered, hpending⟩ := drain_link h hlooping hrunning
    obtain ⟨unread', hr⟩ := reachable_conveys (h.run hrun)
    have hhears := hr.hears
    rw [hlink] at hhears
    refine ⟨labels, r, hrun, hloop, ?_⟩
    rw [← hentered, hr.entered, hhears.drained, outstanding, hpending, hloop]
    simp only [List.tail_nil, List.map_nil, ite_self, List.append_nil, List.map_append]
    rfl

end

/-! ### A response on its way -/

instance (max : UInt32) (frame : Frame) : Decidable (Fits max frame) :=
  decidable_of_iff (frame.path.length ≤ 65535 ∧ headerSize + 28 + frame.bodySize ≤ max.toNat)
    ⟨fun ⟨hpath, hsize⟩ => ⟨hpath, hsize⟩, fun h => ⟨h.path, h.size⟩⟩

instance (e : ExchangeEnv) (max : UInt32) (conn : Server.Endpoint) (input : Recv) (now : UInt32) :
    Decidable (Reads e max conn input now) := by
  unfold Reads
  refine @instDecidableAnd _ _ _ ?_
  split
  · split <;> infer_instance
  · infer_instance
  · infer_instance

instance (e : ExchangeEnv) (q : Exchange) (event : ExchangeEvent) : Decidable (Undisturbed e q event) :=
  match event with
  | .server (.event ..) => inferInstanceAs (Decidable (∀ ev ∈ q.loop.events.head?, _ → ∀ conn ∈ _, _ ∧ (_ → _)))
  | .server (.accept _) => inferInstanceAs (Decidable (_ → ¬ _))
  | .server .command => inferInstanceAs
      (Decidable (∀ cmd ∈ q.loop.commandQueue.head?, _ → _ ∧ _ ∧ ∀ frame ∈ cmd.frame, _))
  | .server (.serverPush _ _ _ _) => inferInstanceAs (Decidable (_ → _ = _))
  | .client .hangup | .client .beginClose => .isFalse id
  | .server (.wait _) | .server .accepted | .server .drained | .server (.respond ..) | .server (.push _)
  | .server (.closeConnection _) | .client (.start _) | .client (.readable _) | .client .dispatch | .client .command
  | .client (.sendReq ..) | .client .endClose | .client .setOnClose => .isTrue trivial

instance (e : ExchangeEnv) (q : Exchange) (event : ExchangeEvent) : Decidable (Encodable e q event) :=
  match event with
  | .server .command => inferInstanceAs
      (Decidable (∀ cmd ∈ q.loop.commandQueue.head?, _ → ∀ frame ∈ cmd.frame, frame.bodySize < 2 ^ 31))
  | .server (.event ..) | .server (.accept _) | .server (.serverPush ..) | .server (.wait _) | .server .accepted
  | .server .drained | .server (.respond ..) | .server (.push _) | .server (.closeConnection _) | .client _ =>
    .isTrue trivial

instance (e : ExchangeEnv) (q : Exchange) (event : ExchangeEvent) : Decidable (Carried e q event) :=
  inferInstanceAs (Decidable (_ ∧ _))

/-- The first connection of a server, and its client. -/
def firstExchange : ExchangeEnv := ⟨Server.listening3, Client.quietEnv, 1, rfl, Server.quietEnv_send⟩

/-- What `serverPush` builds on that connection before anything is sent. -/
def pushed7 : Frame := ⟨1, 0, 7, STATUS_OK, 0, ascii ['/', 'n'], [4]⟩

/-- A worker responds and another pushes, whose command is the first to enter the queue; the client reads what has been
written at once. -/
def answeredRun : List ExchangeEvent :=
  (Server.respondRun.take 9 ++ ([.serverPush 1 (ascii ['/', 'n']) [4] STATUS_OK, .push ⟨.send, 1, some pushed7⟩,
    .push ⟨.send, 1, some {Client.response7 with fid := 1}⟩, .wait [⟨4, false, true, 0⟩], .event (.once []) 102,
    .command, .command] : List Server.LoopEvent)).map .server ++
  [.client (.start 100), .client (.readable (.once (Client.confirmationRaw ++ sealedFrame pushed7 2 ++
    sealedFrame Client.response7 3))), .client .dispatch, .client .dispatch]

/-- Both responses of the run have been delivered, in the order of the queue. -/
theorem answered_delivered : ∃ q,
    q.called = [⟨ascii ['/', 'p'], [3], STATUS_OK⟩, ⟨ascii ['/', 'n'], [4], STATUS_OK⟩] ∧
    q.received = [⟨ascii ['/', 'n'], [4], STATUS_OK⟩, ⟨ascii ['/', 'p'], [3], STATUS_OK⟩] ∧
      Delivers firstExchange q := by
  have hrun : (execute (guarded (Carried firstExchange) fun q event => q.perform firstExchange 3 event)
      answeredRun {loop := {}, process := Client.connected3}).map (fun q => (q.called, q.received)) =
      some ([⟨ascii ['/', 'p'], [3], STATUS_OK⟩, ⟨ascii ['/', 'n'], [4], STATUS_OK⟩],
        [⟨ascii ['/', 'n'], [4], STATUS_OK⟩, ⟨ascii ['/', 'p'], [3], STATUS_OK⟩]) := by
    decide +kernel
  obtain ⟨q, hq, hresult⟩ := Option.map_eq_some_iff.mp hrun
  obtain ⟨hcalled, hreceived⟩ := Prod.mk.inj hresult
  have hinit : ((exchange firstExchange).under (Carried firstExchange)).init
      {loop := {}, process := Client.connected3} :=
    ⟨⟨0, rfl⟩, Client.connected3_fresh, rfl, rfl, rfl⟩
  have hreach : Reachable ((exchange firstExchange).under (Carried firstExchange)) q :=
    Reachable.execute (fun _ _ _ _ h => guarded_step (fun _ _ h => ⟨3, h⟩) h) (.init hinit) hq
  exact ⟨q, hcalled, hreceived, responses_delivered hreach⟩

/-! ### A response that the encoder does not take -/

/-- A client that takes frames of any size. -/
def roomy3 : Client.Process :=
  {endpoint := {conn := {pubKey := [], socket := 3, epollFd := 4, cmdEvFd := 5, maxFrameSize := 4294967295}}}

/-- The request has been handed over, the client has its confirmation, and the server looks for commands. -/
def requestedRun : List ExchangeEvent :=
  (Server.respondRun.take 8 ++ ([.wait [⟨4, false, true, 0⟩], .event (.once []) 102] : List Server.LoopEvent)).map
    .server ++ [.client (.start 100), .client (.readable (.once Client.confirmationRaw))]

def farewell7 : Frame := ⟨2, 0, 7, STATUS_OK, 0, [], []⟩

/-- Where a response is too big for the encoder, though not for the client, the client is given the farewell of the
server in its place. -/
theorem oversize {data : Bytes} (hbig : 2 ^ 31 ≤ 22 + data.length) (hfits : 59 + data.length < 2 ^ 32) :
    ∃ q, Reachable ((exchange firstExchange).under (Undisturbed firstExchange)) q ∧
      q.called = [⟨ascii ['/', 'p'], data, STATUS_OK⟩] ∧ q.entered = [⟨ascii ['/', 'p'], data, STATUS_OK⟩] ∧
      q.received = [⟨[], [], STATUS_OK⟩] := by
  let request : Server.Request := ⟨1, ascii ['/', 'p'], [1, 2], 2⟩
  have hrun : ∃ q ∈ execute (guarded (Undisturbed firstExchange) fun q event => q.perform firstExchange 3 event)
      requestedRun {loop := {}, process := roomy3},
      q.loop.uncaught = none ∧ q.loop.phase = .commands ∧ q.loop.commandQueue = [] ∧
      request ∈ q.loop.requests ∧ q.link = [] ∧ q.called = [] ∧ q.entered = [] ∧
      q.process.endpoint.conn.maxFrameSize = 4294967295 ∧
      (∃ conn ∈ q.loop.connections.lookup 1, conn.conn.aesKey.length = 32 ∧
        ∃ u ∈ Server.closeConnection Server.quietEnv 3 .encryptionError true conn.nextFid,
          (Server.wire u.log).drop (Server.wire conn.log).length = sealedFrame farewell7 3) ∧
      ∃ p ∈ Client.perform Client.quietEnv (.readable (.once (sealedFrame farewell7 3))) q.process,
        ∃ p' ∈ Client.perform Client.quietEnv .dispatch p,
          Client.responses p'.endpoint.log = [{farewell7 with fid := 3}] := by
    decide +kernel
  obtain ⟨q, hq, hgo, hphase, hqueue, hrequest, hlink, hcalled, hentered, hmax,
    ⟨conn, hconn, hkey, u, hu, hfarewell⟩, p, hp, p', hp', hresponses⟩ := hrun
  have hreach : Reachable ((exchange firstExchange).under (Undisturbed firstExchange)) q :=
    Reachable.execute (fun _ _ _ _ h => guarded_step (fun _ _ h => ⟨3, h⟩) h)
      (.init ⟨⟨0, rfl⟩, ⟨[], 4294967295, 3, 4, 5, by decide, rfl⟩, rfl, rfl, rfl⟩) hq
  have hnone : q.loop.uncaught.isSome = false := by rw [hgo]; rfl
  let frame : Frame := conn.conn.makeRespFrame (ascii ['/', 'p']) data STATUS_OK 0 2
  let cmd : Server.ServerCommand := ⟨.send, 1, some frame⟩
  have hbody : frame.bodySize = 22 + data.length := rfl
  -- The worker responds.
  let responding : Server.Loop := {q.loop with responding := q.loop.responding ++ [cmd]}
  have hrespond : q.loop.perform Server.listening3 3 (.respond request data STATUS_OK) = some responding :=
    Server.Loop.respond_step hnone hrequest hconn data STATUS_OK
  let q1 := q.served firstExchange (.respond request data STATUS_OK) responding
  have h1 : Reachable ((exchange firstExchange).under (Undisturbed firstExchange)) q1 :=
    hreach.step (a := .server (.respond request data STATUS_OK)) ⟨trivial, Exchange.serve hrespond⟩
  -- Its command enters the queue.
  let queued : Server.Loop :=
    {q.loop with responding := responding.responding.erase cmd, commandQueue := q.loop.commandQueue ++ [cmd]}
  have hpush : responding.perform Server.listening3 3 (.push cmd) = some queued :=
    Server.Loop.push_step hnone (List.mem_append_right _ (List.mem_singleton_self cmd))
  let q2 := q1.served firstExchange (.push cmd) queued
  have h2 : Reachable ((exchange firstExchange).under (Undisturbed firstExchange)) q2 :=
    h1.step (a := .server (.push cmd)) ⟨trivial, Exchange.serve hpush⟩
  -- The encoder does not take the frame, and the connection is closed with a farewell.
  have hqueued : queued.commandQueue = [cmd] := by
    show q.loop.commandQueue ++ [cmd] = _
    rw [hqueue]
    rfl
  let refused : Server.Loop := {queued with commandQueue := []}.put 1 u
  have hcommand : queued.perform Server.listening3 3 .command = some refused := by
    have hnegative : ¬ 0 ≤ cInt frame.bodySize := by
      rw [hbody, cInt]
      split <;> omega
    exact Server.Loop.send_step hnone hphase hqueued hconn
      ((Server.sendFrame_oversize Server.quietEnv hkey hnegative 3).trans hu)
  have hrule : Undisturbed firstExchange q2 (.server .command) := by
    intro cmd' hcmd' _
    obtain rfl : cmd = cmd' := Option.some.inj ((congrArg List.head? hqueued).symm.trans hcmd')
    refine ⟨rfl, ?_, ?_⟩
    · show ((q.entered ++ _) ++ _).length < 2 ^ 32 - 1
      rw [hentered]
      show 1 < 2 ^ 32 - 1
      decide
    · intro frame' hframe'
      obtain rfl : frame = frame' := Option.some.inj hframe'
      refine ⟨Nat.le_of_ble_eq_true rfl, ?_⟩
      show headerSize + 28 + frame.bodySize ≤ q.process.endpoint.conn.maxFrameSize.toNat
      rw [hmax, hbody]
      show 9 + 28 + (22 + data.length) ≤ 4294967295
      omega
  let q3 := q2.served firstExchange .command refused
  have h3 : Reachable ((exchange firstExchange).under (Undisturbed firstExchange)) q3 :=
    h2.step (a := .server .command) ⟨hrule, Exchange.serve hcommand⟩
  -- The client reads it and is given it.
  have hunwritten : q2.link = [] := by
    show (q.link ++ (q.loop.wire 1).drop (q.loop.wire 1).length) ++ (q.loop.wire 1).drop (q.loop.wire 1).length = []
    rw [hlink, List.drop_length]
    rfl
  have hlink3 : q3.link = sealedFrame farewell7 3 := by
    have hbefore : queued.wire 1 = Server.wire conn.log := wire_registered hconn
    have hafter : refused.wire 1 = Server.wire u.log := wire_registered (AList.lookup_insert _)
    show q2.link ++ (refused.wire 1).drop (queued.wire 1).length = _
    rw [hunwritten, hbefore, hafter, hfarewell]
    rfl
  have h4 : Reachable ((exchange firstExchange).under (Undisturbed firstExchange))
      {q3 with process := p, link := []} := by
    refine h3.step (a := .client (.readable (.once (sealedFrame farewell7 3)))) ⟨trivial, 0, ?_⟩
    have hread : Client.perform Client.quietEnv (.readable (.once q3.link)) q3.process = some p := by
      rw [hlink3]
      exact hp
    rw [← hlink3]
    exact Exchange.read_link hread
  have h5 : Reachable ((exchange firstExchange).under (Undisturbed firstExchange))
      {q3 with process := p', link := []} := by
    refine h4.step (a := .client .dispatch) ⟨trivial, 0, ?_⟩
    show (Client.perform Client.quietEnv .dispatch p).map _ = _
    rw [hp']
    rfl
  refine ⟨_, h5, ?_, ?_, ?_⟩
  · show ((q.called ++ _) ++ _) ++ _ = _
    rw [hcalled]
    rfl
  · show ((q.entered ++ _) ++ _) ++ _ = _
    rw [hentered]
    rfl
  · show (Client.responses p'.endpoint.log).map Client.Response.ofFrame = _
    rw [hresponses]
    rfl

/-- **A response of 2 GiB within the client's limit is lost**, and what the client is given is not a response. -/
theorem oversize_lost :
    ∃ q, Reachable ((exchange firstExchange).under (Undisturbed firstExchange)) q ∧
      q.called = [⟨ascii ['/', 'p'], List.replicate (2 ^ 31) 0, STATUS_OK⟩] ∧ q.received = [⟨[], [], STATUS_OK⟩] ∧
      ¬ Delivers firstExchange q := by
  have hlength : (List.replicate (2 ^ 31) (0 : UInt8)).length = 2 ^ 31 := List.length_replicate
  generalize List.replicate (2 ^ 31) (0 : UInt8) = data at hlength ⊢
  obtain ⟨q, hreach, hcalled, hentered, hreceived⟩ := @oversize data (by omega) (by omega)
  refine ⟨q, hreach, hcalled, hreceived, fun hdelivers => ?_⟩
  obtain ⟨rest, hrest, _⟩ := hdelivers.received
  rw [hentered, hreceived] at hrest
  have hpath : ascii ['/', 'p'] = [] := congrArg Client.Response.path (List.cons.inj hrest).1
  exact absurd hpath (by decide)

end Fmxp
