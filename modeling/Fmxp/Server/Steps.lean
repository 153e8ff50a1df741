import Fmxp.Library.Assoc
import Fmxp.Server.Loop

/-! What a step of the epoll loop can do.

`Step` says for each label when the step is possible and what it leaves, `EventEffect` and
`CommandEffect` the same for the two calls that act on a connection; each of them makes calls on
one connection, of the kinds of `lifecycle`. Invariants of the loop are derived from these, and
those of a connection hold of every registered one, since it has lived a life of its own
(`reachable_registered`). -/
namespace Fmxp.Server
open Transition

/-! ### Calls on a connection -/

/-- The call that handles a command. A `SEND` without a frame has none. -/
def ServerCommand.call (cmd : ServerCommand) : Option Call :=
  match cmd.type with
  | .send => cmd.frame.map .sendFrame
  | .close => some (.closeConnection .natural true)

theorem ServerCommand.call_cases {cmd : ServerCommand} {call : Call} (h : cmd.call = some call) :
    (∃ frame, cmd.frame = some frame ∧ call = .sendFrame frame) ∨ call = .closeConnection .natural true := by
  unfold ServerCommand.call at h
  split at h
  · obtain ⟨frame, hframe, rfl⟩ := Option.map_eq_some_iff.mp h
    exact .inl ⟨frame, hframe, rfl⟩
  · cases h
    exact .inr rfl

inductive CommandEffect (env : LoopEnv) (depth : Nat) (cmd : ServerCommand) (s : Loop) :
    Except Exn Unit → Loop → Prop
  | missing : s.connections.lookup cmd.connID = none →
      CommandEffect env depth cmd s
        (defaultErrorHandler ERR_CONNECTION (toString cmd.connID ++ ": Connection not found")) s
  | frameless {conn : Endpoint} : s.connections.lookup cmd.connID = some conn → cmd.call = none →
      CommandEffect env depth cmd s (.error .badOptionalAccess) s
  | called {conn u : Endpoint} {call : Call} : s.connections.lookup cmd.connID = some conn → cmd.call = some call →
      perform (env.conn cmd.connID) depth call conn = some u →
      CommandEffect env depth cmd s (.ok ()) (s.put cmd.connID u)

theorem handleCommand_effect {env : LoopEnv} {depth : Nat} {cmd : ServerCommand} {s t : Loop}
    {r : Except Exn Unit} (h : s.handleCommand env depth cmd = some (r, t)) : CommandEffect env depth cmd s r t := by
  unfold Loop.handleCommand at h
  split at h
  · next hnone =>
    cases h
    exact .missing hnone
  next conn hconn =>
  split at h
  · next htype hframe =>
    cases h
    exact .frameless hconn (by simp only [ServerCommand.call, htype, hframe, Option.map_none])
  · next frame htype hframe =>
    obtain ⟨u, hu, heq⟩ := Option.map_eq_some_iff.mp h
    cases heq
    exact @CommandEffect.called env depth cmd s conn u (.sendFrame frame) hconn
      (by simp only [ServerCommand.call, htype, hframe, Option.map_some]) hu
  · next htype =>
    obtain ⟨u, hu, heq⟩ := Option.map_eq_some_iff.mp h
    cases heq
    exact @CommandEffect.called env depth cmd s conn u (.closeConnection .natural true) hconn
      (by simp only [ServerCommand.call, htype]) hu

/-- The connection an event is looked up for. -/
structure Loop.Finds (s : Loop) (fd : Int) (connId : Nat) (conn : Endpoint) : Prop where
  mapped : s.fdToId.lookup fd = some connId
  registered : s.connections.lookup connId = some conn

/-- Deleting a connection, which closes it. -/
def Deleted (env : LoopEnv) (depth connId : Nat) (conn : Endpoint) (s t : Loop) : Prop :=
  ∃ u, perform (env.conn connId) depth (.closeConnection .natural true) conn = some u ∧
    t = {s with connections := s.connections.erase connId, deleted := s.deleted ++ [u]}

inductive EventEffect (env : LoopEnv) (depth : Nat) (e : EpollEvent) (input : Recv) (now : UInt32) (s t : Loop) :
    Prop where
  | ignored : t = s → EventEffect env depth e input now s t
  | dropped {connId : Nat} {conn : Endpoint} : s.Finds e.fd connId conn → e.hup = true →
      Deleted env depth connId conn s t → EventEffect env depth e input now s t
  | read {connId : Nat} {conn u : Endpoint} : s.Finds e.fd connId conn → e.hup = false → e.readable = true →
      perform (env.conn connId) depth (.readFd input now) conn = some u → u.conn.state ≠ .closed →
      t = {s.put connId u with requests := s.requests ++ handed conn u} → EventEffect env depth e input now s t
  | readDropped {connId : Nat} {conn u : Endpoint} : s.Finds e.fd connId conn → e.hup = false → e.readable = true →
      perform (env.conn connId) depth (.readFd input now) conn = some u →
      Deleted env depth connId u {s.put connId u with requests := s.requests ++ handed conn u} t →
      EventEffect env depth e input now s t

theorem handleEvent_effect {env : LoopEnv} {depth : Nat} {e : EpollEvent} {input : Recv} {now : UInt32}
    {s t : Loop} {r : Except Exn Unit}
    (hs : ∀ c conn, s.connections.lookup c = some conn → WellFormed (env.conn c) conn)
    (h : s.handleEvent env depth e input now = some (r, t)) : r = .ok () ∧ EventEffect env depth e input now s t := by
  unfold Loop.handleEvent at h
  split at h
  · cases h
    exact ⟨rfl, .ignored rfl⟩
  next connId hfd =>
  split at h
  · cases h
    exact ⟨rfl, .ignored rfl⟩
  next conn hconn =>
  have hfinds : s.Finds e.fd connId conn := ⟨hfd, hconn⟩
  split at h
  · next hhup =>
    obtain ⟨u, hu, heq⟩ := Option.map_eq_some_iff.mp h
    cases heq
    obtain ⟨v, hv, rfl⟩ := Option.map_eq_some_iff.mp hu
    exact ⟨rfl, .dropped hfinds hhup ⟨v, hv, rfl⟩⟩
  next hhup =>
  split at h
  · next hreadable =>
    split at h
    · cases h
    · next err u hread =>
      -- A read throws nothing.
      obtain ⟨⟨b, hb⟩, _⟩ := readFd_cases (hs connId conn hconn).closed hread
      cases hb
    · next ok u hread =>
      have hcall : perform (env.conn connId) depth (.readFd input now) conn = some u :=
        Option.map_eq_some_iff.mpr ⟨_, hread, rfl⟩
      have hno : e.hup = false := Bool.eq_false_of_not_eq_true hhup
      dsimp only at h
      split at h
      · obtain ⟨v, hv, heq⟩ := Option.map_eq_some_iff.mp h
        cases heq
        obtain ⟨w, hw, rfl⟩ := Option.map_eq_some_iff.mp hv
        exact ⟨rfl, .readDropped hfinds hno hreadable hcall ⟨w, hw, rfl⟩⟩
      · next hopen =>
        cases h
        simp only [Bool.or_eq_true, decide_eq_true_eq, not_or] at hopen
        exact ⟨rfl, .read hfinds hno hreadable hcall hopen.2 rfl⟩
  · cases h
    exact ⟨rfl, .ignored rfl⟩

/-- A read that takes all it finds. -/
theorem handleEvent_read {env : LoopEnv} {depth : Nat} {e : EpollEvent} {input : Recv} {now : UInt32} {s : Loop}
    {c : Nat} {conn u : Endpoint} (hfinds : s.Finds e.fd c conn) (hhup : e.hup = false) (hreadable : e.readable = true)
    (hread : readFd (env.conn c) depth input now conn = some (.ok true, u)) (hopen : u.conn.state ≠ .closed) :
    s.handleEvent env depth e input now =
      some (.ok (), {s.put c u with requests := s.requests ++ handed conn u}) := by
  simp only [Loop.handleEvent, hfinds.mapped, hfinds.registered, hhup, hreadable, hread, hopen, Bool.false_eq_true,
    if_false, if_true, Bool.not_true, decide_false, Bool.or_self]

/-! ### Steps -/

inductive Step (env : LoopEnv) (depth : Nat) (s : Loop) : LoopEvent → Loop → Prop
  | wait {batch : List EpollEvent} : s.phase = .events → s.events = [] → s.Raised env batch →
      Step env depth s (.wait batch) {s with events := batch}
  | wake {input : Recv} {now : UInt32} {e : EpollEvent} {rest : List EpollEvent} : s.phase = .events →
      s.events = e :: rest → e.fd = env.cmdEvFd →
      Step env depth s (.event input now) {s with events := rest, phase := .commands}
  | listen {input : Recv} {now : UInt32} {e : EpollEvent} {rest : List EpollEvent} : s.phase = .events →
      s.events = e :: rest → e.fd ≠ env.cmdEvFd → e.fd = env.socket →
      Step env depth s (.event input now) {s with events := rest, phase := .accepting}
  | event {input : Recv} {now : UInt32} {e : EpollEvent} {rest : List EpollEvent} {r : Except Exn Unit} {t : Loop} :
      s.phase = .events → s.events = e :: rest → e.fd ≠ env.cmdEvFd → e.fd ≠ env.socket →
      Loop.handleEvent env depth e input now {s with events := rest} = some (r, t) →
      Step env depth s (.event input now) (Loop.after (r, t))
  | accept {clientFd : Int} : s.phase = .accepting → s.Free env clientFd →
      Step env depth s (.accept clientFd) (s.accept env clientFd)
  | accepted : s.phase = .accepting → Step env depth s .accepted {s with phase := .events}
  | command {cmd : ServerCommand} {rest : List ServerCommand} {r : Except Exn Unit} {t : Loop} :
      s.phase = .commands → s.commandQueue = cmd :: rest →
      Loop.handleCommand env depth cmd {s with commandQueue := rest} = some (r, t) →
      Step env depth s .command (Loop.after (r, t))
  | drained : s.phase = .commands → s.commandQueue = [] → Step env depth s .drained {s with phase := .events}
  | respond {request : Request} {data : Bytes} {status : UInt8} : request ∈ s.requests →
      Step env depth s (.respond request data status) (s.sendResponse (.ofRequest request data status))
  | serverPush {connID : Nat} {path data : Bytes} {status : UInt8} :
      Step env depth s (.serverPush connID path data status) (s.sendResponse ⟨connID, path, data, status, 0⟩)
  | push {cmd : ServerCommand} : cmd ∈ s.responding →
      Step env depth s (.push cmd) (({s with responding := s.responding.erase cmd}).push cmd)
  | closeConnection {connID : Nat} : Step env depth s (.closeConnection connID) (s.closeConnection connID)

theorem perform_step {env : LoopEnv} {depth : Nat} {event : LoopEvent} {s t : Loop}
    (h : s.perform env depth event = some t) : s.uncaught = none ∧ Step env depth s event t := by
  unfold Loop.perform at h
  split at h
  · cases h
  next hgo =>
  refine ⟨Option.not_isSome_iff_eq_none.mp hgo, ?_⟩
  cases event with
  | wait batch =>
    dsimp only at h
    split at h
    · next hok =>
      cases h
      exact .wait hok.1 hok.2.1 hok.2.2
    · cases h
  | event input now =>
    dsimp only at h
    split at h
    · next e rest hphase hevents =>
      split at h
      · next hcmd =>
        cases h
        exact .wake hphase hevents hcmd
      next hcmd =>
      split at h
      · next hsocket =>
        cases h
        exact .listen hphase hevents hcmd hsocket
      · next hsocket =>
        obtain ⟨⟨r, u⟩, hu, rfl⟩ := Option.map_eq_some_iff.mp h
        exact .event hphase hevents hcmd hsocket hu
    · cases h
  | accept clientFd =>
    dsimp only at h
    split at h
    · next hok =>
      cases h
      exact .accept hok.1 hok.2
    · cases h
  | accepted =>
    dsimp only at h
    split at h
    · next hphase =>
      cases h
      exact .accepted hphase
    · cases h
  | command =>
    dsimp only at h
    split at h
    · next cmd rest hphase hqueue =>
      obtain ⟨⟨r, u⟩, hu, rfl⟩ := Option.map_eq_some_iff.mp h
      exact .command hphase hqueue hu
    · cases h
  | drained =>
    dsimp only at h
    split at h
    · next hok =>
      cases h
      exact .drained hok.1 hok.2
    · cases h
  | respond request data status =>
    dsimp only at h
    split at h
    · next hmem =>
      cases h
      exact .respond hmem
    · cases h
  | serverPush connID path data status =>
    cases h
    exact .serverPush
  | push cmd =>
    dsimp only at h
    split at h
    · next hmem =>
      cases h
      exact .push hmem
    · cases h
  | closeConnection connID =>
    cases h
    exact .closeConnection

/-! ### The registered connections -/

/-- Every registered connection has lived a life of its own. -/
def Loop.Registered (env : LoopEnv) (s : Loop) : Prop :=
  ∀ c conn, s.connections.lookup c = some conn → Reachable (lifecycle (env.conn c)) conn

theorem Loop.Registered.wellFormed {env : LoopEnv} {s : Loop} (hs : s.Registered env) {c : Nat} {conn : Endpoint}
    (h : s.connections.lookup c = some conn) : WellFormed (env.conn c) conn :=
  reachable_wellFormed (hs c conn h)

/-- A step leaves connections, descriptors and requests alone, or it is an event, a command or an accept. -/
inductive LoopEffect (env : LoopEnv) (depth : Nat) (event : LoopEvent) (s t : Loop) : Prop
  | quiet : t.connections = s.connections → t.fdToId = s.fdToId → t.deleted = s.deleted →
      t.requests = s.requests → t.connCount = s.connCount → LoopEffect env depth event s t
  | event {input : Recv} {now : UInt32} {e : EpollEvent} {rest : List EpollEvent} : event = .event input now →
      s.events = e :: rest → e.fd ≠ env.cmdEvFd → e.fd ≠ env.socket →
      EventEffect env depth e input now {s with events := rest} t → LoopEffect env depth event s t
  | accept {clientFd : Int} : event = .accept clientFd → s.Free env clientFd → t = s.accept env clientFd →
      LoopEffect env depth event s t
  | command {cmd : ServerCommand} {rest : List ServerCommand} {r : Except Exn Unit} {u : Loop} :
      event = .command → s.commandQueue = cmd :: rest →
      CommandEffect env depth cmd {s with commandQueue := rest} r u → t = Loop.after (r, u) →
      LoopEffect env depth event s t

theorem sendResponse_quiet (env : LoopEnv) (depth : Nat) (event : LoopEvent) (resp : Response) (s : Loop) :
    LoopEffect env depth event s (s.sendResponse resp) := by
  unfold Loop.sendResponse
  split <;> exact .quiet rfl rfl rfl rfl rfl

theorem Step.effect {env : LoopEnv} {depth : Nat} {event : LoopEvent} {s t : Loop} (hs : s.Registered env)
    (h : Step env depth s event t) : LoopEffect env depth event s t := by
  cases h with
  | wait | wake | listen | accepted | drained | push | closeConnection => exact .quiet rfl rfl rfl rfl rfl
  | respond | serverPush => exact sendResponse_quiet ..
  | event hphase hevents hcmd hsocket hu =>
    obtain ⟨rfl, heffect⟩ := handleEvent_effect (by exact fun _ _ hconn => hs.wellFormed hconn) hu
    exact .event rfl hevents hcmd hsocket heffect
  | accept hphase hfree => exact .accept rfl hfree rfl
  | command hphase hqueue hu => exact .command rfl hqueue (handleCommand_effect hu) rfl

@[simp] theorem after_connections (r : Except Exn Unit) (t : Loop) :
    (Loop.after (r, t)).connections = t.connections := by
  cases r <;> rfl

@[simp] theorem after_fdToId (r : Except Exn Unit) (t : Loop) : (Loop.after (r, t)).fdToId = t.fdToId := by
  cases r <;> rfl

@[simp] theorem after_events (r : Except Exn Unit) (t : Loop) : (Loop.after (r, t)).events = t.events := by
  cases r <;> rfl

@[simp] theorem after_deleted (r : Except Exn Unit) (t : Loop) : (Loop.after (r, t)).deleted = t.deleted := by
  cases r <;> rfl

/-- The calls a step makes on connection `c`, besides the close when it deletes it. -/
inductive Calls (s : Loop) (c : Nat) : LoopEvent → Call → Prop
  | read {input : Recv} {now : UInt32} {e : EpollEvent} {rest : List EpollEvent} : s.events = e :: rest →
      s.fdToId.lookup e.fd = some c → e.hup = false → e.readable = true →
      Calls s c (.event input now) (.readFd input now)
  | command {cmd : ServerCommand} {rest : List ServerCommand} {call : Call} : s.commandQueue = cmd :: rest →
      cmd.connID = c → cmd.call = some call → Calls s c .command call

/-- `P` holds of the connections the server has: those registered, and those it has deleted. -/
structure Loop.Each (P : Nat → Endpoint → Prop) (s : Loop) : Prop where
  registered : ∀ c conn, s.connections.lookup c = some conn → P c conn
  deleted : ∀ conn ∈ s.deleted, ∃ c, P c conn

/-- A connection as `accept` registers it. -/
def LoopEnv.accepts (env : LoopEnv) (clientFd : Int) (connId : Nat) : Endpoint :=
  {conn := {fd := clientFd, connId := connId, maxFrameSize := env.maxFrameSize, rsaPrivKey := env.privKey}}

theorem LoopEnv.accepts_fresh (env : LoopEnv) {clientFd : Int} (h : 0 ≤ clientFd) (connId : Nat) :
    (env.accepts clientFd connId).Fresh :=
  ⟨clientFd, connId, env.maxFrameSize, env.privKey, h, rfl⟩

section
variable {env : LoopEnv} {depth : Nat} {event : LoopEvent} {s t : Loop} {P : Nat → Endpoint → Prop}

/-- What a step leaves of the registered connections: those of before, what its calls have made of
them, and a new one. -/
theorem LoopEffect.registered (h : LoopEffect env depth event s t)
    (hcall : ∀ c conn call u, Calls s c event call → s.connections.lookup c = some conn →
      perform (env.conn c) depth call conn = some u → P c u)
    (hnew : ∀ clientFd, event = .accept clientFd → s.Free env clientFd →
      P (s.connCount + 1).toNat (env.accepts clientFd (s.connCount + 1).toNat))
    (hs : ∀ c conn, s.connections.lookup c = some conn → P c conn) :
    ∀ c conn, t.connections.lookup c = some conn → P c conn := by
  cases h with
  | quiet hconnections =>
    rw [hconnections]
    exact hs
  | event hevent hevents _ _ heffect =>
    subst hevent
    cases heffect with
    | ignored ht =>
      subst ht
      exact hs
    | dropped _ _ hdeleted =>
      obtain ⟨v, _, rfl⟩ := hdeleted
      exact Assoc.forall_erase fun c _ => hs c
    | read hfinds hhup hreadable hread _ ht =>
      have hu := hcall _ _ _ _ (.read hevents hfinds.mapped hhup hreadable) hfinds.registered hread
      subst ht
      exact Assoc.forall_insert hu fun c _ => hs c
    | readDropped _ _ _ _ hdeleted =>
      obtain ⟨v, _, rfl⟩ := hdeleted
      refine Assoc.forall_erase fun c hc conn hconn => hs c conn ?_
      exact (AList.lookup_insert_ne hc).symm.trans hconn
  | accept hevent hfree ht =>
    subst ht
    exact Assoc.forall_insert (hnew _ hevent hfree) fun c _ => hs c
  | command hevent hqueue heffect ht =>
    subst hevent ht
    rw [after_connections]
    cases heffect with
    | missing => exact hs
    | frameless => exact hs
    | called hconn hcmd hu =>
      exact Assoc.forall_insert (hcall _ _ _ _ (.command hqueue rfl hcmd) hconn hu) fun c _ => hs c

/-- What every call keeps, and holds of a new connection, every step keeps. -/
theorem LoopEffect.each (h : LoopEffect env depth event s t)
    (hcall : ∀ c conn call u, Calls s c event call → s.connections.lookup c = some conn → P c conn →
      perform (env.conn c) depth call conn = some u → P c u)
    (hclose : ∀ c conn u, P c conn →
      perform (env.conn c) depth (.closeConnection .natural true) conn = some u → P c u)
    (hnew : ∀ clientFd, event = .accept clientFd → s.Free env clientFd →
      P (s.connCount + 1).toNat (env.accepts clientFd (s.connCount + 1).toNat))
    (hs : s.Each P) : t.Each P := by
  have hcalled : ∀ c conn call u, Calls s c event call → s.connections.lookup c = some conn →
      perform (env.conn c) depth call conn = some u → P c u :=
    fun c conn call u hcalls hconn hu => hcall c conn call u hcalls hconn (hs.registered c conn hconn) hu
  refine ⟨h.registered hcalled hnew hs.registered, ?_⟩
  -- Deleting a connection closes it.
  have hgone : ∀ {c conn r r'}, P c conn → Deleted env depth c conn r r' → r.deleted = s.deleted →
      ∀ conn ∈ r'.deleted, ∃ c, P c conn := by
    rintro c conn r r' hconn ⟨v, hv, rfl⟩ hsame conn' hconn'
    rcases List.mem_append.mp hconn' with hold | hmem
    · exact hs.deleted conn' (hsame ▸ hold)
    · exact ⟨c, List.mem_singleton.mp hmem ▸ hclose c conn v hconn hv⟩
  cases h with
  | quiet _ _ hdeleted =>
    rw [hdeleted]
    exact hs.deleted
  | event hevent hevents _ _ heffect =>
    subst hevent
    cases heffect with
    | ignored ht =>
      subst ht
      exact hs.deleted
    | dropped hfinds _ hdeleted => exact hgone (hs.registered _ _ hfinds.registered) hdeleted rfl
    | read _ _ _ _ _ ht =>
      subst ht
      exact hs.deleted
    | readDropped hfinds hhup hreadable hread hdeleted =>
      exact hgone (hcalled _ _ _ _ (.read hevents hfinds.mapped hhup hreadable) hfinds.registered hread) hdeleted rfl
  | accept _ _ ht =>
    subst ht
    exact hs.deleted
  | command hevent hqueue heffect ht =>
    subst hevent ht
    rw [after_deleted]
    cases heffect <;> exact hs.deleted

/-- Every connection the server has had has lived a life of its own. -/
theorem reachable_each (h : Reachable (epollLoop env) s) :
    s.Each fun c conn => Reachable (lifecycle (env.conn c)) conn := by
  induction h with
  | init hs =>
    obtain ⟨connCount, rfl⟩ := hs
    exact ⟨fun c conn hconn => (by cases hconn), fun conn hconn => (by cases hconn)⟩
  | step _ hstep ih =>
    obtain ⟨depth, hperform⟩ := hstep
    refine ((perform_step hperform).2.effect ih.registered).each ?_ ?_ ?_ ih
    · exact fun _ _ _ _ _ _ hconn hu => .step hconn ⟨depth, hu⟩
    · exact fun _ _ _ hconn hu => .step hconn ⟨depth, hu⟩
    · exact fun _ _ hfree => .init (env.accepts_fresh hfree.1 _)

end

end Fmxp.Server
