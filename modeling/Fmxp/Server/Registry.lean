import Fmxp.Server.Finality
import Fmxp.Server.Isolation

/-! The two maps of the server: ids to connections, and descriptors to ids.

A closed connection gives its descriptor back at once, but stays registered until an event or
nothing takes it out, and an entry of the map of descriptors stays for ever. So an event that is
still to come in a batch may find its descriptor with another connection, and a command that
closes leaves a connection without a descriptor behind. `event_own` and `registry_open` are what
holds of every run in which neither happens. -/
namespace Fmxp.Server
open Transition

variable {env : LoopEnv} {s t : Loop}

/-! ### Descriptors -/

/-- A connection keeps its descriptor until it has none. -/
theorem perform_fd {env : Env} {depth : Nat} {call : Call} {s t : Endpoint} (hs : WellFormed env s)
    (h : perform env depth call s = some t) : t.conn.fd = s.conn.fd ∨ t.conn.fd = -1 := by
  have hsettled : ∀ {u v : Endpoint}, u.conn.fd = s.conn.fd → Settled u v →
      v.conn.fd = s.conn.fd ∨ v.conn.fd = -1 := by
    intro u v hfd hsettled
    exact hsettled.imp (fun h => h.2.trans hfd) And.right
  cases call with
  | readFd input now =>
    obtain ⟨⟨r, u⟩, hread, rfl⟩ := Option.map_eq_some_iff.mp h
    obtain ⟨_, heffect⟩ := readFd_cases hs.closed hread
    cases heffect with
    | quiet buffer _ hend => exact hsettled rfl hend
    | secured frame rest key _ _ _ _ hset =>
      obtain ⟨v, _, hend, rfl⟩ := setAesKey_keeps (s := s.setBuffer rest) hs.closed hset
      have hfd : v.conn.fd = s.conn.fd ∨ v.conn.fd = -1 := hsettled rfl hend
      exact hfd
    | delivered frames rest _ _ _ _ hend => exact hsettled rfl hend
  | sendFrame frame => exact hsettled rfl (sendFrame_keeps hs.closed h).2
  | closeConnection reason invokeOnClose => exact .inr (closeConnection_keeps hs.closed h).2.2
  | setOnClose =>
    cases h
    exact .inl rfl

/-- Every connection of `t` is one of `s`, on the descriptor it had or on none. -/
structure Loop.Descends (s t : Loop) : Prop where
  connections : ∀ c conn, t.connections.lookup c = some conn →
    ∃ conn', s.connections.lookup c = some conn' ∧ (conn.conn.fd = conn'.conn.fd ∨ conn.conn.fd = -1)
  fdToId : t.fdToId = s.fdToId

theorem Loop.Descends.of_eq (hconnections : t.connections = s.connections) (hfdToId : t.fdToId = s.fdToId) :
    s.Descends t := by
  refine ⟨fun c conn hconn => ⟨conn, ?_, .inl rfl⟩, hfdToId⟩
  rw [← hconnections]
  exact hconn

theorem Loop.Descends.insert {c : Nat} {conn u : Endpoint} (hconn : s.connections.lookup c = some conn)
    (hfd : u.conn.fd = conn.conn.fd ∨ u.conn.fd = -1) (hconnections : t.connections = s.connections.insert c u)
    (hfdToId : t.fdToId = s.fdToId) : s.Descends t := by
  refine ⟨?_, hfdToId⟩
  rw [hconnections]
  exact Assoc.forall_insert ⟨conn, hconn, hfd⟩ fun _ _ conn' hconn' => ⟨conn', hconn', .inl rfl⟩

theorem Deleted.descends {depth connId : Nat} {conn : Endpoint} (h : Deleted env depth connId conn s t) :
    s.Descends t := by
  obtain ⟨u, _, rfl⟩ := h
  exact ⟨Assoc.forall_erase fun _ _ conn' hconn' => ⟨conn', hconn', .inl rfl⟩, rfl⟩

theorem Loop.Descends.trans {u : Loop} (h : s.Descends t) (h' : t.Descends u) : s.Descends u := by
  refine ⟨fun c conn hconn => ?_, h'.fdToId.trans h.fdToId⟩
  obtain ⟨conn', hconn', hfd'⟩ := h'.connections c conn hconn
  obtain ⟨conn'', hconn'', hfd''⟩ := h.connections c conn' hconn'
  refine ⟨conn'', hconn'', ?_⟩
  rcases hfd' with heq | hgone
  · rw [heq]
    exact hfd''
  · exact .inr hgone

theorem EventEffect.descends {depth : Nat} {e : EpollEvent} {input : Recv} {now : UInt32} (hs : s.Registered env)
    (h : EventEffect env depth e input now s t) : s.Descends t := by
  have hread : ∀ {connId conn u}, s.Finds e.fd connId conn →
      perform (env.conn connId) depth (.readFd input now) conn = some u →
      s.Descends {s.put connId u with requests := s.requests ++ handed conn u} := by
    intro connId conn u hfinds hu
    exact .insert hfinds.registered (perform_fd (hs.wellFormed hfinds.registered) hu) rfl rfl
  cases h with
  | ignored ht =>
    subst ht
    exact .of_eq rfl rfl
  | dropped _ _ hdeleted => exact hdeleted.descends
  | read hfinds _ _ hu _ ht =>
    subst ht
    exact hread hfinds hu
  | readDropped hfinds _ _ hu hdeleted => exact (hread hfinds hu).trans hdeleted.descends

theorem CommandEffect.descends {depth : Nat} {cmd : ServerCommand} {r : Except Exn Unit} (hs : s.Registered env)
    (h : CommandEffect env depth cmd s r t) : s.Descends t := by
  cases h with
  | missing => exact .of_eq rfl rfl
  | frameless => exact .of_eq rfl rfl
  | called hconn _ hu => exact .insert hconn (perform_fd (hs.wellFormed hconn) hu) rfl rfl

/-- No step but an `accept` gives a connection a descriptor. -/
theorem LoopEffect.descends {depth : Nat} {event : LoopEvent} (hs : s.Registered env)
    (h : LoopEffect env depth event s t) :
    s.Descends t ∨ ∃ clientFd, event = .accept clientFd ∧ s.Free env clientFd ∧ t = s.accept env clientFd := by
  cases h with
  | quiet hconnections hfdToId => exact .inl (.of_eq hconnections hfdToId)
  | event _ _ _ _ heffect =>
    have hdescends := heffect.descends (by exact hs)
    exact .inl ⟨hdescends.connections, hdescends.fdToId⟩
  | accept hevent hfree ht => exact .inr ⟨_, hevent, hfree, ht⟩
  | @command cmd rest r u _ _ heffect ht =>
    have hdescends := heffect.descends (by exact hs)
    subst ht
    refine .inl ⟨fun c conn hconn => hdescends.connections c conn ?_, ?_⟩
    · rwa [after_connections] at hconn
    · rw [after_fdToId]
      exact hdescends.fdToId

/-- A connection that has a descriptor is found by it. -/
def Loop.Mapped (s : Loop) : Prop :=
  ∀ c conn, s.connections.lookup c = some conn → conn.conn.fd ≠ -1 → s.fdToId.lookup conn.conn.fd = some c

theorem Loop.Mapped.descends (hs : s.Mapped) (h : s.Descends t) : t.Mapped := by
  intro c conn hconn hfd
  obtain ⟨conn', hconn', hkept⟩ := h.connections c conn hconn
  have hsame := hkept.resolve_right hfd
  rw [hsame] at hfd ⊢
  rw [h.fdToId]
  exact hs c conn' hconn' hfd

theorem Loop.Mapped.accept (hs : s.Mapped) {clientFd : Int} (hfree : s.Free env clientFd) :
    (s.accept env clientFd).Mapped := by
  refine Assoc.forall_insert (fun _ => AList.lookup_insert _) fun c _ conn hconn hfd => ?_
  have hne : conn.conn.fd ≠ clientFd := hfree.2.2.2 ⟨c, conn⟩ (AList.mem_lookup_iff.mp hconn)
  exact (AList.lookup_insert_ne hne).trans (hs c conn hconn hfd)

/-! ### Events -/

/-- A new connection gets an id that no other has, and neither the descriptor nor the id of one
for which an event is still to come in the batch. -/
def NotReused (s : Loop) : LoopEvent → Prop
  | .accept clientFd => (s.connCount + 1).toNat ∉ s.connections ∧
      ∀ e ∈ s.events, e.fd ≠ clientFd ∧ e.owner ≠ (s.connCount + 1).toNat
  | _ => True

/-- The connection that event `e` was raised for is the one its descriptor is mapped to. If it is
still registered, it has that descriptor or none. -/
def Loop.Points (s : Loop) (e : EpollEvent) : Prop :=
  s.fdToId.lookup e.fd = some e.owner ∧
    ∀ conn, s.connections.lookup e.owner = some conn → conn.conn.fd = e.fd ∨ conn.conn.fd = -1

/-- What holds between two events of a batch. -/
structure Pointed (env : LoopEnv) (s : Loop) : Prop where
  mapped : s.Mapped
  events : ∀ e ∈ s.events, e.fd = env.cmdEvFd ∨ e.fd = env.socket ∨ s.Points e

theorem Loop.Points.descends {e : EpollEvent} (hs : s.Points e) (h : s.Descends t) : t.Points e := by
  refine ⟨by rw [h.fdToId]; exact hs.1, fun conn hconn => ?_⟩
  obtain ⟨conn', hconn', hkept⟩ := h.connections _ conn hconn
  rcases hkept with hsame | hgone
  · rw [hsame]
    exact hs.2 conn' hconn'
  · exact .inr hgone

theorem Loop.Points.accept {e : EpollEvent} (hs : s.Points e) {clientFd : Int} (hfd : e.fd ≠ clientFd)
    (howner : e.owner ≠ (s.connCount + 1).toNat) : (s.accept env clientFd).Points e := by
  refine ⟨(AList.lookup_insert_ne hfd).trans hs.1, fun conn hconn => hs.2 conn ?_⟩
  exact (AList.lookup_insert_ne howner).symm.trans hconn

/-- The events of a batch that are still to come after a step. -/
theorem Step.events {depth : Nat} {event : LoopEvent} (hs : s.Registered env) (h : Step env depth s event t) :
    (∀ e ∈ t.events, e ∈ s.events) ∨ ∃ batch, s.Raised env batch ∧ t = {s with events := batch} := by
  have hrest : ∀ {e : EpollEvent} {rest}, s.events = e :: rest → ∀ e ∈ rest, e ∈ s.events := by
    intro e rest hevents e' he'
    rw [hevents]
    exact List.mem_cons_of_mem e he'
  cases h with
  | wait _ _ hraised => exact .inr ⟨_, hraised, rfl⟩
  | wake _ hevents | listen _ hevents => exact .inl (hrest hevents)
  | @event input now e rest r u _ hevents _ _ hu =>
    have hkept : u.events = rest := by
      obtain ⟨_, heffect⟩ := handleEvent_effect (by exact fun _ _ hconn => hs.wellFormed hconn) hu
      cases heffect with
      | ignored ht => rw [ht]
      | dropped _ _ hdeleted =>
        obtain ⟨v, _, rfl⟩ := hdeleted
        rfl
      | read _ _ _ _ _ ht => rw [ht]; rfl
      | readDropped _ _ _ _ hdeleted =>
        obtain ⟨v, _, rfl⟩ := hdeleted
        rfl
    rw [after_events, hkept]
    exact .inl (hrest hevents)
  | @command cmd rest r u _ _ hu =>
    have hkept : u.events = s.events := by
      cases handleCommand_effect hu <;> rfl
    rw [after_events, hkept]
    exact .inl fun e he => he
  | respond | serverPush =>
    refine .inl fun e he => ?_
    unfold Loop.sendResponse at he
    split at he <;> exact he
  | accept | accepted | drained | push | closeConnection => exact .inl fun e he => he

theorem reachable_pointed (h : Reachable ((epollLoop env).under NotReused) s) : Pointed env s := by
  induction h with
  | init hs =>
    obtain ⟨connCount, rfl⟩ := hs
    exact ⟨fun c conn hconn => (by cases hconn), fun e he => (by cases he)⟩
  | @step s t event hs hstep ih =>
    obtain ⟨hrule, depth, hperform⟩ := hstep
    have hregistered := (reachable_each hs.of_under).registered
    have hstep := (perform_step hperform).2
    rcases (hstep.effect hregistered).descends hregistered with hdescends | ⟨clientFd, rfl, hfree, rfl⟩
    · refine ⟨ih.mapped.descends hdescends, ?_⟩
      rcases hstep.events hregistered with hsub | ⟨batch, hraised, rfl⟩
      · exact fun e he => (ih.events e (hsub e he)).imp_right (Or.imp_right fun hp => hp.descends hdescends)
      · -- An event is raised for a connection that has the descriptor, so is found by it.
        intro e he
        refine (hraised.2 e he).imp_right (Or.imp_right fun ⟨hpos, howner⟩ => ?_)
        obtain ⟨conn, hconn, hfd⟩ := Option.map_eq_some_iff.mp howner
        refine ⟨?_, fun conn' hconn' => ?_⟩
        · rw [← hfd]
          exact ih.mapped e.owner conn hconn (by omega)
        · cases hconn.symm.trans hconn'
          exact .inl hfd
    · refine ⟨ih.mapped.accept hfree, fun e he => ?_⟩
      have hother := hrule.2 e he
      exact (ih.events e he).imp_right (Or.imp_right fun hp => hp.accept hother.1 hother.2)

/-- **Events act only on their own connection**, in every run in which no descriptor and no id is
given away while an event for it is still to come: the event reads, closes and deletes no other
connection than the one it was raised for, which has the descriptor it was raised on, or none. -/
theorem event_own (h : Reachable ((epollLoop env).under NotReused) s) {e : EpollEvent} {rest : List EpollEvent}
    (hevents : s.events = e :: rest) (hcmd : e.fd ≠ env.cmdEvFd) (hsocket : e.fd ≠ env.socket) {input : Recv}
    {now : UInt32} (hstep : (epollLoop env).step s (.event input now) t) :
    (∀ c, c ≠ e.owner → t.connections.lookup c = s.connections.lookup c) ∧
      (∀ conn, s.connections.lookup e.owner = some conn → conn.conn.fd = e.fd ∨ conn.conn.fd = -1) := by
  have hpoints : s.Points e := by
    have hmem : e ∈ s.events := by
      rw [hevents]
      exact List.mem_cons_self ..
    exact (((reachable_pointed h).events e hmem).resolve_left hcmd).resolve_left hsocket
  refine ⟨fun c hc => ?_, hpoints.2⟩
  obtain ⟨depth, hperform⟩ := hstep
  have hregistered : s.Registered env := (reachable_each h.of_under).registered
  cases (perform_step hperform).2 with
  | wake _ hevents' hcmd' =>
    cases hevents.symm.trans hevents'
    exact absurd hcmd' hcmd
  | listen _ hevents' _ hsocket' =>
    cases hevents.symm.trans hevents'
    exact absurd hsocket' hsocket
  | event _ hevents' _ _ hu =>
    cases hevents.symm.trans hevents'
    obtain ⟨_, heffect⟩ := handleEvent_effect (by exact fun _ _ hconn => hregistered.wellFormed hconn) hu
    rw [after_connections]
    rcases heffect.touches with hsame | ⟨connId, hmapped, _, htouches⟩
    · rw [hsame]
    · cases hpoints.1.symm.trans hmapped
      exact htouches.others c hc

instance (s : Loop) (event : LoopEvent) : Decidable (NotReused s event) :=
  match event with
  | .accept _ => inferInstanceAs (Decidable (¬ _ ∧ ∀ e ∈ s.events, _))
  | .wait _ | .event .. | .accepted | .command | .drained | .respond .. | .serverPush .. | .push _
  | .closeConnection _ => .isTrue trivial

/-- Two connections, on the descriptors 5 and 6. -/
def twoAccepted : List LoopEvent :=
  [.wait [⟨3, false, true, 0⟩], .event (.once []) 100, .accept 5, .accept 6, .accepted]

/-- One client disconnects: its connection is deleted, and the other one left alone. -/
theorem disconnect_own :
    ∃ s t : Loop, s.events = [⟨5, true, false, 1⟩] ∧ (epollLoop listening3).step s (.event (.once []) 101) t ∧
      t.connections.keys = [2] ∧ t.connections.lookup 2 = s.connections.lookup 2 := by
  have hrun : ((execute (guarded NotReused fun s event => s.perform listening3 3 event)
      (twoAccepted ++ [.wait [⟨5, true, false, 1⟩]]) {}).bind fun s =>
      (s.perform listening3 3 (.event (.once []) 101)).map fun t => (s, t)).map (fun (s, t) =>
        (s.events, t.connections.keys)) = some ([⟨5, true, false, 1⟩], [2]) := by
    decide +kernel
  obtain ⟨⟨s, t⟩, hst, hresult⟩ := Option.map_eq_some_iff.mp hrun
  obtain ⟨s', hs, ht⟩ := Option.bind_eq_some_iff.mp hst
  obtain ⟨t', ht', heq⟩ := Option.map_eq_some_iff.mp ht
  cases heq
  obtain ⟨hevents, hkeys⟩ := Prod.mk.inj hresult
  have hreach : Reachable ((epollLoop listening3).under NotReused) s :=
    Reachable.execute (fun _ _ _ _ => guarded_step fun _ _ h => ⟨3, h⟩) (.init ⟨0, rfl⟩) hs
  have hstep : (epollLoop listening3).step s (.event (.once []) 101) t := ⟨3, ht'⟩
  exact ⟨s, t, hevents, hstep, hkeys, (event_own hreach hevents (by decide) (by decide) hstep).1 2 (by decide)⟩

/-- **The client of connection 1 disconnects in the batch in which a command closes that connection
and `accept` gives its descriptor to connection 2: the disconnect deletes connection 2.** -/
theorem disconnect_hits_other :
    ∃ s t, Reachable (epollLoop listening3) s ∧ s.events = [⟨5, true, false, 1⟩] ∧
      (epollLoop listening3).step s (.event (.once []) 102) t ∧
      (s.connections.lookup 2).map (fun conn => (conn.conn.state, conn.conn.fd)) = some (.handshake, 5) ∧
      t.connections.lookup 2 = none := by
  have hrun : ((execute (fun (s : Loop) event => s.perform listening3 3 event)
      [.wait [⟨3, false, true, 0⟩], .event (.once []) 100, .accept 5, .accepted, .closeConnection 1,
        .wait [⟨4, false, true, 0⟩, ⟨3, false, true, 0⟩, ⟨5, true, false, 1⟩], .event (.once []) 101, .command,
        .drained, .event (.once []) 101, .accept 5, .accepted] {}).bind fun s =>
      (s.perform listening3 3 (.event (.once []) 102)).map fun t => (s, t)).map (fun (s, t) =>
        (s.events, (s.connections.lookup 2).map (fun conn => (conn.conn.state, conn.conn.fd)),
          t.connections.lookup 2)) = some ([⟨5, true, false, 1⟩], some (.handshake, 5), none) := by
    decide +kernel
  obtain ⟨⟨s, t⟩, hst, hresult⟩ := Option.map_eq_some_iff.mp hrun
  obtain ⟨s', hs, ht⟩ := Option.bind_eq_some_iff.mp hst
  obtain ⟨t', ht', heq⟩ := Option.map_eq_some_iff.mp ht
  cases heq
  simp only [Prod.mk.injEq] at hresult
  obtain ⟨hevents, hbefore, hafter⟩ := hresult
  exact ⟨s, t, Reachable.execute (fun _ _ _ _ h => ⟨3, h⟩) (.init ⟨0, rfl⟩) hs, hevents, ⟨3, ht'⟩, hbefore, hafter⟩

/-! ### Connections that are registered -/

/-- A call that leaves an open connection open: a read whose handshake, if it has one, is confirmed,
or a frame that goes out. -/
def Undisturbed (env : Env) (s : Endpoint) : Call → Prop
  | .readFd input now => ConfirmationTaken env s (.readFd input now)
  | .sendFrame frame => 0 ≤ cInt frame.bodySize ∧ Takes env.send s.sends (wireSize frame)
  | .closeConnection .. => False
  | .setOnClose => True

/-- The calls of a step on registered connections leave them open. -/
def Orderly (env : LoopEnv) (s : Loop) (event : LoopEvent) : Prop :=
  ∀ c conn call, Calls s c event call → s.connections.lookup c = some conn → Undisturbed (env.conn c) conn call

/-- A frame that goes out leaves state and descriptor as they are. -/
theorem sendFrame_open {env : Env} {depth : Nat} {frame : Frame} {s t : Endpoint} (hopen : s.conn.state ≠ .closed)
    (hfd : s.conn.fd ≠ -1) (hframe : Undisturbed env s (.sendFrame frame))
    (h : sendFrame env depth frame s = some t) : t.conn.state = s.conn.state ∧ t.conn.fd = s.conn.fd := by
  rcases sendFrame_encoded env (sendFrame_key hopen hfd h) hframe.1 with ⟨_, u, hu, hsend⟩ | ⟨hnot, _⟩
  · rw [hsend depth] at h
    cases h
    exact ⟨congrArg (·.state) hu, congrArg (·.fd) hu⟩
  · exact absurd hframe.2 hnot

/-- No registered connection is closed. -/
def Loop.Open (s : Loop) : Prop :=
  ∀ c conn, s.connections.lookup c = some conn → conn.conn.state ≠ .closed ∧ conn.conn.fd ≠ -1

theorem Loop.Open.insert (hs : s.Open) {c : Nat} {u : Endpoint} (hu : u.conn.state ≠ .closed ∧ u.conn.fd ≠ -1)
    (hconnections : t.connections = s.connections.insert c u) : t.Open := by
  rw [Loop.Open, hconnections]
  exact Assoc.forall_insert (P := fun _ conn => _) hu fun c' _ => hs c'

theorem Deleted.open {depth connId : Nat} {conn : Endpoint} (hs : ∀ c, c ≠ connId → ∀ conn,
      s.connections.lookup c = some conn → conn.conn.state ≠ .closed ∧ conn.conn.fd ≠ -1)
    (h : Deleted env depth connId conn s t) : t.Open := by
  obtain ⟨u, _, rfl⟩ := h
  exact Assoc.forall_erase (P := fun _ conn => _) hs

theorem EventEffect.open {depth : Nat} {e : EpollEvent} {input : Recv} {now : UInt32} {rest : List EpollEvent}
    (hregistered : s.Registered env) (hs : s.Open) (hevents : s.events = e :: rest)
    (hrule : Orderly env s (.event input now)) (h : EventEffect env depth e input now {s with events := rest} t) :
    t.Open := by
  cases h with
  | ignored ht =>
    subst ht
    exact hs
  | dropped _ _ hdeleted => exact hdeleted.open (by exact fun c _ => hs c)
  | @read connId conn u hfinds hhup hreadable hread hstate ht =>
    subst ht
    have hopen := hs connId conn hfinds.registered
    have hconfirmed : ConfirmationTaken (env.conn connId) conn (.readFd input now) :=
      hrule connId conn _ (.read hevents hfinds.mapped hhup hreadable) hfinds.registered
    have hiff := perform_closed_iff (hregistered.wellFormed hfinds.registered)
      (by simp only [hopen.1, hopen.2]) hconfirmed hread
    exact hs.insert ⟨hstate, fun hgone => hstate (hiff.mpr hgone)⟩ rfl
  | readDropped _ _ _ _ hdeleted =>
    refine hdeleted.open fun c hc conn' hconn' => hs c conn' ?_
    exact (AList.lookup_insert_ne hc).symm.trans hconn'

theorem reachable_open (h : Reachable ((epollLoop env).under (Orderly env)) s) : s.Mapped ∧ s.Open := by
  induction h with
  | init hs =>
    obtain ⟨connCount, rfl⟩ := hs
    exact ⟨fun c conn hconn => (by cases hconn), fun c conn hconn => (by cases hconn)⟩
  | @step s t event hs hstep ih =>
    obtain ⟨hrule, depth, hperform⟩ := hstep
    have hregistered : s.Registered env := (reachable_each hs.of_under).registered
    have heffect := (perform_step hperform).2.effect hregistered
    refine ⟨?_, ?_⟩
    · rcases heffect.descends hregistered with hdescends | ⟨clientFd, _, hfree, rfl⟩
      · exact ih.1.descends hdescends
      · exact ih.1.accept hfree
    · cases heffect with
      | quiet hconnections =>
        intro c conn hconn
        exact ih.2 c conn (hconnections ▸ hconn)
      | event hevent hevents _ _ heffect =>
        subst hevent
        exact heffect.open hregistered ih.2 hevents hrule
      | @accept clientFd _ hfree ht =>
        subst ht
        have hfd : clientFd ≠ -1 := by
          have hpos := hfree.1
          omega
        exact ih.2.insert ⟨fun hc => (by cases hc), hfd⟩ rfl
      | command hevent hqueue heffect ht =>
        subst hevent ht
        cases heffect with
        | missing => exact ih.2
        | frameless => exact ih.2
        | @called conn u call hconn hcmd hu =>
          have hopen := ih.2 _ _ hconn
          have hundisturbed := hrule _ _ _ (.command hqueue rfl hcmd) hconn
          rcases ServerCommand.call_cases hcmd with ⟨frame, _, rfl⟩ | rfl
          · obtain ⟨hstate, hfd⟩ := sendFrame_open hopen.1 hopen.2 hundisturbed hu
            exact ih.2.insert ⟨hstate ▸ hopen.1, hfd ▸ hopen.2⟩ rfl
          · exact hundisturbed.elim

/-- **The registry**, in every run in which no command closes a connection and every frame and
confirmation that is sent goes out: after every step each registered connection is open, has a
descriptor and is found by it. -/
theorem registry_open (h : Reachable ((epollLoop env).under (Orderly env)) s) {c : Nat} {conn : Endpoint}
    (hconn : s.connections.lookup c = some conn) :
    conn.conn.state ≠ .closed ∧ conn.conn.fd ≠ -1 ∧ s.fdToId.lookup conn.conn.fd = some c := by
  obtain ⟨hmapped, hopen⟩ := reachable_open h
  obtain ⟨hstate, hfd⟩ := hopen c conn hconn
  exact ⟨hstate, hfd, hmapped c conn hconn hfd⟩

/-- With every `send` taking what it is given, a step that handles no command is orderly. -/
theorem orderly_of_quiet {s : Loop} {event : LoopEvent} (h : event ≠ .command) : Orderly listening3 s event := by
  intro c conn call hcall _
  cases hcall with
  | read => exact fun _ _ _ _ _ => takes_of_pos (fun i _ => quietEnv_send i) _
  | command => exact absurd rfl h

/-- A connection that has been accepted, has made its handshake and has sent a request. -/
theorem request_registered :
    ∃ (s : Loop) (conn : Endpoint), s.connections.lookup 1 = some conn ∧ s.requests.length = 1 ∧
      conn.conn.state ≠ .closed ∧ conn.conn.fd ≠ -1 ∧ s.fdToId.lookup conn.conn.fd = some 1 := by
  have hrun : (execute (fun (s : Loop) event => s.perform listening3 3 event) (respondRun.take 8) {}).map
      (fun s => (s.connections.keys, s.requests.length)) = some ([1], 1) := by
    decide +kernel
  obtain ⟨s, hs, hresult⟩ := Option.map_eq_some_iff.mp hrun
  obtain ⟨hkeys, hrequests⟩ := Prod.mk.inj hresult
  have hquiet : ∀ event ∈ respondRun.take 8, event ≠ .command := by decide
  have hreach : Reachable ((epollLoop listening3).under (Orderly listening3)) s :=
    Reachable.execute (fun event hevent _ _ h => ⟨orderly_of_quiet (hquiet event hevent), 3, h⟩) (.init ⟨0, rfl⟩) hs
  have hmem : 1 ∈ s.connections := by
    rw [AList.mem_keys, hkeys]
    decide
  obtain ⟨conn, hconn⟩ := Option.isSome_iff_exists.mp (AList.lookup_isSome.mpr hmem)
  exact ⟨s, conn, hconn, hrequests, registry_open hreach hconn⟩

/-- **A command closes the connection: it stays registered, closed and without a descriptor.** -/
theorem closed_registered :
    ∃ s conn, Reachable (epollLoop listening3) s ∧ s.phase = .events ∧ s.connections.lookup 1 = some conn ∧
      conn.conn.state = .closed ∧ conn.conn.fd = -1 := by
  have hrun : (execute (fun (s : Loop) event => s.perform listening3 3 event)
      [.wait [⟨3, false, true, 0⟩], .event (.once []) 100, .accept 5, .accepted, .closeConnection 1,
        .wait [⟨4, false, true, 0⟩], .event (.once []) 101, .command, .drained] {}).map (fun s =>
        (s.phase, (s.connections.lookup 1).map fun conn => (conn.conn.state, conn.conn.fd))) =
        some (.events, some (.closed, -1)) := by
    decide +kernel
  obtain ⟨s, hs, hresult⟩ := Option.map_eq_some_iff.mp hrun
  obtain ⟨hphase, hconn⟩ := Prod.mk.inj hresult
  obtain ⟨conn, hconn, hclosed⟩ := Option.map_eq_some_iff.mp hconn
  obtain ⟨hstate, hfd⟩ := Prod.mk.inj hclosed
  exact ⟨s, conn, Reachable.execute (fun _ _ _ _ h => ⟨3, h⟩) (.init ⟨0, rfl⟩) hs, hphase, hconn, hstate, hfd⟩

end Fmxp.Server
