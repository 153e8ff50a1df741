import Fmxp.Server.Returning

/-! The connections of a server, each by itself.

What a step does to a connection it does to the one its event was raised for or its command
is for, unless the event's descriptor has been given to another connection within the batch;
and nothing throws, unless a command comes up whose connection is gone, which the default
error handler makes an exception of; and the loop gets through the step, unless a call on the
connection never returns. `isolation` is what holds of every run in which none of this happens,
`response_ends_loop` a run of the second kind. -/
namespace Fmxp.Server
open Transition

/-- The connection a step is about: the one its event was raised for, or its command is for. -/
def Loop.concerns (env : LoopEnv) (s : Loop) : LoopEvent → Option Nat
  | .event _ _ => s.events.head?.bind fun e => if e.fd = env.cmdEvFd ∨ e.fd = env.socket then none else some e.owner
  | .command => s.commandQueue.head?.map ServerCommand.connID
  | _ => none

/-- A command comes up while its connection is registered, an event while its descriptor belongs
to no other connection than the one it was raised for, and a new connection gets an id that no
other has. -/
def Addressed (s : Loop) : LoopEvent → Prop
  | .event _ _ => ∀ e ∈ s.events.head?, ∀ connId ∈ s.fdToId.lookup e.fd, connId ∈ s.connections → connId = e.owner
  | .command => ∀ cmd ∈ s.commandQueue.head?, cmd.connID ∈ s.connections
  | .accept _ => (s.connCount + 1).toNat ∉ s.connections
  | _ => True

/-- What is asked of a step for it to leave the other connections alone: that it is about the connection it should
be about, and that the call it makes there returns. -/
structure Attended (env : LoopEnv) (s : Loop) (event : LoopEvent) : Prop where
  addressed : Addressed s event
  returns : s.Returns env event

/-- Connection `c`, if it is registered, is so in `t` as it is in `s`, in the same state. -/
def Loop.Unchanged (c : Nat) (s t : Loop) : Prop :=
  ∀ conn, s.connections.lookup c = some conn → t.connections.lookup c = some conn ∧
    (conn.conn.fd ≠ -1 → t.fdToId.lookup conn.conn.fd = s.fdToId.lookup conn.conn.fd)

/-! ### Steps that touch one connection -/

/-- A `SEND` that has been pushed, or will be, has a frame. -/
def Loop.Framed (s : Loop) : Prop :=
  ∀ cmd ∈ s.commandQueue ++ s.responding, cmd.type = .send → cmd.frame.isSome

/-- `t` is `s` after something has been done to connection `connId`. -/
structure Touches (env : LoopEnv) (connId : Nat) (s t : Loop) : Prop where
  registered : s.Registered env → t.Registered env
  others : ∀ c, c ≠ connId → t.connections.lookup c = s.connections.lookup c
  fdToId : t.fdToId = s.fdToId
  commands : t.commandQueue = s.commandQueue ∧ t.responding = s.responding
  uncaught : t.uncaught = s.uncaught

theorem Touches.unchanged {env : LoopEnv} {connId c : Nat} {s t : Loop} (h : Touches env connId s t)
    (hc : c ≠ connId) : s.Unchanged c t := by
  intro conn hconn
  rw [h.others c hc, h.fdToId]
  exact ⟨hconn, fun _ => rfl⟩

theorem Touches.trans {env : LoopEnv} {connId : Nat} {s t u : Loop} (h : Touches env connId s t)
    (h' : Touches env connId t u) : Touches env connId s u :=
  ⟨h'.registered ∘ h.registered, fun c hc => (h'.others c hc).trans (h.others c hc), h'.fdToId.trans h.fdToId,
    ⟨h'.commands.1.trans h.commands.1, h'.commands.2.trans h.commands.2⟩, h'.uncaught.trans h.uncaught⟩

theorem put_touches (call : Call) {env : LoopEnv} {depth connId : Nat} {s : Loop} {conn t : Endpoint}
    (hconn : s.connections.lookup connId = some conn) (h : perform (env.conn connId) depth call conn = some t) :
    Touches env connId s (s.put connId t) := by
  refine ⟨fun hs => ?_, fun c hc => AList.lookup_insert_ne hc, rfl, ⟨rfl, rfl⟩, rfl⟩
  exact Assoc.forall_insert (Reachable.step (hs connId conn hconn) ⟨depth, h⟩) fun c _ => hs c

theorem delete_touches {env : LoopEnv} {depth connId : Nat} {conn : Endpoint} {s t : Loop}
    (h : Deleted env depth connId conn s t) : Touches env connId s t := by
  obtain ⟨u, _, rfl⟩ := h
  exact ⟨fun hs => Assoc.forall_erase fun c _ => hs c, fun c hc => AList.lookup_erase_ne hc, rfl, ⟨rfl, rfl⟩, rfl⟩

/-- A command whose connection is registered throws nothing. -/
theorem CommandEffect.touches {env : LoopEnv} {depth : Nat} {cmd : ServerCommand} {s t : Loop}
    {r : Except Exn Unit} (hcmd : cmd.connID ∈ s.connections) (hframe : cmd.type = .send → cmd.frame.isSome)
    (h : CommandEffect env depth cmd s r t) : r = .ok () ∧ Touches env cmd.connID s t := by
  cases h with
  | missing hnone => exact absurd hcmd (AList.lookup_eq_none.mp hnone)
  | frameless _ hcall =>
    cases htype : cmd.type with
    | send =>
      obtain ⟨frame, hsome⟩ := Option.isSome_iff_exists.mp (hframe htype)
      simp only [ServerCommand.call, htype, hsome] at hcall
      cases hcall
    | close =>
      simp only [ServerCommand.call, htype] at hcall
      cases hcall
  | called hconn _ hu => exact ⟨rfl, put_touches _ hconn hu⟩

/-- An event touches the connection its descriptor is mapped to. -/
theorem EventEffect.touches {env : LoopEnv} {depth : Nat} {e : EpollEvent} {input : Recv} {now : UInt32}
    {s t : Loop} (h : EventEffect env depth e input now s t) :
    t = s ∨ ∃ connId ∈ s.fdToId.lookup e.fd, connId ∈ s.connections ∧ Touches env connId s t := by
  have hmem : ∀ {connId conn}, s.Finds e.fd connId conn → connId ∈ s.connections := by
    intro connId conn hfinds
    exact AList.lookup_isSome.mp (by rw [hfinds.registered]; rfl)
  -- The requests of a read are handed on.
  have hhanded : ∀ {connId conn u}, s.Finds e.fd connId conn →
      perform (env.conn connId) depth (.readFd input now) conn = some u →
      Touches env connId s {s.put connId u with requests := s.requests ++ handed conn u} := by
    intro connId conn u hfinds hu
    exact (put_touches _ hfinds.registered hu).trans ⟨fun hs => hs, fun _ _ => rfl, rfl, ⟨rfl, rfl⟩, rfl⟩
  cases h with
  | ignored ht => exact .inl ht
  | dropped hfinds _ hdeleted => exact .inr ⟨_, hfinds.mapped, hmem hfinds, delete_touches hdeleted⟩
  | read hfinds _ _ hread _ ht =>
    subst ht
    exact .inr ⟨_, hfinds.mapped, hmem hfinds, hhanded hfinds hread⟩
  | readDropped hfinds _ _ hread hdeleted =>
    exact .inr ⟨_, hfinds.mapped, hmem hfinds, (hhanded hfinds hread).trans (delete_touches hdeleted)⟩

/-! ### Every step -/

/-- What holds of a server all of whose steps have gone to the right connection. -/
structure Sound (env : LoopEnv) (s : Loop) : Prop where
  uncaught : s.uncaught = none
  registered : s.Registered env
  framed : s.Framed

theorem unchanged_of_eq {s t : Loop} (hconnections : t.connections = s.connections) (hfdToId : t.fdToId = s.fdToId)
    (c : Nat) : s.Unchanged c t := by
  intro conn hconn
  rw [hconnections, hfdToId]
  exact ⟨hconn, fun _ => rfl⟩

theorem Touches.sound {env : LoopEnv} {connId : Nat} {s t : Loop} (hs : Sound env s) (h : Touches env connId s t) :
    Sound env t := by
  refine ⟨h.uncaught.trans hs.uncaught, h.registered hs.registered, ?_⟩
  rw [Loop.Framed, h.commands.1, h.commands.2]
  exact hs.framed

/-- A command that has a frame, if it sends one, may be added. -/
theorem Loop.Framed.add {s t : Loop} (hs : s.Framed) (cmd : ServerCommand)
    (hcmd : cmd.type = .send → cmd.frame.isSome)
    (h : ∀ c ∈ t.commandQueue ++ t.responding, c ∈ s.commandQueue ++ s.responding ∨ c = cmd) : t.Framed := by
  intro c hc
  rcases h c hc with hold | rfl
  · exact hs c hold
  · exact hcmd

theorem accept_sound {env : LoopEnv} {clientFd : Int} {s : Loop} (hs : Sound env s) (hfree : s.Free env clientFd)
    (hnew : (s.connCount + 1).toNat ∉ s.connections) :
    Sound env (s.accept env clientFd) ∧ ∀ c, s.Unchanged c (s.accept env clientFd) := by
  obtain ⟨hpos, _, _, hunused⟩ := hfree
  have hfresh : Reachable (lifecycle (env.conn (s.connCount + 1).toNat))
      (env.accepts clientFd (s.connCount + 1).toNat) :=
    .init (env.accepts_fresh hpos _)
  have hregistered : (s.accept env clientFd).Registered env := Assoc.forall_insert hfresh fun c _ => hs.registered c
  refine ⟨⟨hs.uncaught, hregistered, hs.framed⟩, fun c conn hconn => ⟨?_, fun _ => ?_⟩⟩
  · simp only [Loop.accept, AList.lookup_insert_ne (Assoc.ne_of_lookup hnew hconn)]
    exact hconn
  · have hfd : conn.conn.fd ≠ clientFd := hunused ⟨c, conn⟩ (AList.mem_lookup_iff.mp hconn)
    simp only [Loop.accept, AList.lookup_insert_ne hfd]

theorem sendResponse_sound {env : LoopEnv} (resp : Response) {s : Loop} (hs : Sound env s) :
    Sound env (s.sendResponse resp) ∧ ∀ c, s.Unchanged c (s.sendResponse resp) := by
  unfold Loop.sendResponse
  split
  · exact ⟨hs, unchanged_of_eq rfl rfl⟩
  · next conn _ =>
    let cmd : ServerCommand :=
      ⟨.send, resp.connID, some (conn.conn.makeRespFrame resp.path resp.data resp.status 0 resp.rid)⟩
    refine ⟨⟨hs.uncaught, hs.registered, hs.framed.add cmd (fun _ => rfl) fun c hc => ?_⟩, unchanged_of_eq rfl rfl⟩
    rw [← List.mem_singleton, ← List.mem_append, List.append_assoc]
    exact hc

/-- **One step**: it throws nothing, and leaves alone every connection it is not about. -/
theorem perform_sound {env : LoopEnv} {depth : Nat} {event : LoopEvent} {s t : Loop} (hs : Sound env s)
    (hrule : Addressed s event) (h : s.perform env depth event = some t) :
    Sound env t ∧ ∀ c, s.concerns env event ≠ some c → s.Unchanged c t := by
  -- Steps that leave connections and commands as they are.
  have hquiet : ∀ {u : Loop}, u.connections = s.connections → u.fdToId = s.fdToId → u.uncaught = s.uncaught →
      u.commandQueue = s.commandQueue → u.responding = s.responding →
      Sound env u ∧ ∀ c, s.concerns env event ≠ some c → s.Unchanged c u := by
    intro u hconnections hfdToId huncaught hqueue hresponding
    refine ⟨⟨huncaught.trans hs.uncaught, ?_, ?_⟩, fun c _ => unchanged_of_eq hconnections hfdToId c⟩
    · rw [Loop.Registered, hconnections]
      exact hs.registered
    · rw [Loop.Framed, hqueue, hresponding]
      exact hs.framed
  cases (perform_step h).2 with
  | wait | wake | listen | accepted | drained => exact hquiet rfl rfl rfl rfl rfl
  | @event input now e rest r u _ hevents hcmd hsocket hu =>
    have htaken : Sound env {s with events := rest} := ⟨hs.uncaught, hs.registered, hs.framed⟩
    obtain ⟨rfl, heffect⟩ := handleEvent_effect (fun _ _ h => htaken.registered.wellFormed h) hu
    rcases heffect.touches with hsame | ⟨connId, hfd, hmem, htouches⟩
    · subst hsame
      exact hquiet rfl rfl rfl rfl rfl
    · have howner : connId = e.owner := hrule e (by rw [hevents]; rfl) connId hfd hmem
      refine ⟨htouches.sound htaken, fun c hc => ?_⟩
      have hne : c ≠ connId := by
        rintro rfl
        rw [Loop.concerns, hevents, howner] at hc
        exact hc (if_neg (not_or.mpr ⟨hcmd, hsocket⟩))
      exact htouches.unchanged hne
  | accept _ hfree =>
    obtain ⟨hsound, hunchanged⟩ := accept_sound hs hfree hrule
    exact ⟨hsound, fun c _ => hunchanged c⟩
  | @command cmd rest r u _ hqueue hu =>
    have hmem : cmd.connID ∈ s.connections := hrule cmd (by rw [hqueue]; rfl)
    have hpopped : Sound env {s with commandQueue := rest} := by
      refine ⟨hs.uncaught, hs.registered, fun c hc => hs.framed c ?_⟩
      rw [hqueue]
      exact List.mem_cons_of_mem cmd hc
    have hframe := hs.framed cmd (by rw [hqueue]; exact List.mem_cons_self ..)
    obtain ⟨rfl, htouches⟩ := (handleCommand_effect hu).touches (by exact hmem) hframe
    refine ⟨htouches.sound hpopped, fun c hc => ?_⟩
    have hne : c ≠ cmd.connID := by
      rintro rfl
      exact hc (by rw [Loop.concerns, hqueue]; rfl)
    exact htouches.unchanged hne
  | @respond request data status _ =>
    obtain ⟨hsound, hunchanged⟩ := sendResponse_sound (.ofRequest request data status) hs
    exact ⟨hsound, fun c _ => hunchanged c⟩
  | @serverPush connID path data status =>
    obtain ⟨hsound, hunchanged⟩ := sendResponse_sound ⟨connID, path, data, status, 0⟩ hs
    exact ⟨hsound, fun c _ => hunchanged c⟩
  | @push cmd hmem =>
    have hframe := hs.framed cmd (List.mem_append_right _ hmem)
    refine ⟨⟨hs.uncaught, hs.registered, hs.framed.add cmd hframe fun c hc => ?_⟩,
      fun c _ => unchanged_of_eq rfl rfl c⟩
    simp only [Loop.push, List.mem_append, List.mem_singleton] at hc ⊢
    rcases hc with (hc | hc) | hc
    · exact .inl (.inl hc)
    · exact .inr hc
    · exact .inl (.inr (List.mem_of_mem_erase hc))
  | @closeConnection connID =>
    refine ⟨⟨hs.uncaught, hs.registered, hs.framed.add ⟨.close, connID, none⟩ (fun hc => by cases hc) fun c hc => ?_⟩,
      fun c _ => unchanged_of_eq rfl rfl c⟩
    simp only [Loop.closeConnection, Loop.push, List.mem_append, List.mem_singleton] at hc ⊢
    rcases hc with (hc | hc) | hc
    · exact .inl (.inl hc)
    · exact .inr hc
    · exact .inl (.inr hc)

theorem reachable_sound {env : LoopEnv} {s : Loop} (h : Reachable ((epollLoop env).under Addressed) s) :
    Sound env s := by
  refine h.invariant ?_ ?_
  · rintro s ⟨connCount, rfl⟩
    exact ⟨rfl, fun c conn hconn => (by cases hconn), fun cmd hcmd => (by cases hcmd)⟩
  · rintro s event t hs ⟨hrule, depth, hstep⟩
    exact (perform_sound hs hrule hstep).1

/-- A step that has been completed has returned. -/
theorem reachable_attended {env : LoopEnv} {s : Loop} (h : Reachable ((epollLoop env).under Addressed) s) :
    Reachable ((epollLoop env).under (Attended env)) s := by
  induction h with
  | init hs => exact .init hs
  | step hs hstep ih =>
    obtain ⟨hrule, hstep⟩ := hstep
    have hsound := reachable_sound hs
    have hreturns := ((step_iff hsound.registered hsound.uncaught _).mp ⟨_, hstep⟩).2
    exact .step ih ⟨⟨hrule, hreturns⟩, hstep⟩

/-- **Isolation of connections**, in every run of attended steps: no exception has left the loop, it gets
through every attended event that it comes to, and no exception leaves it then, and every connection that
the event is not about is left alone. -/
theorem isolation {env : LoopEnv} {s : Loop} (h : Reachable ((epollLoop env).under (Attended env)) s) :
    s.uncaught = none ∧ ∀ event, Attended env s event →
      (s.Enabled env event → ∃ t, (epollLoop env).step s event t) ∧
      ∀ t, (epollLoop env).step s event t → t.uncaught = none ∧
        ∀ c, s.concerns env event ≠ some c → s.Unchanged c t := by
  have haddressed : Reachable ((epollLoop env).under Addressed) s := by
    induction h with
    | init hs => exact .init hs
    | step _ hstep ih => exact .step ih ⟨hstep.1.addressed, hstep.2⟩
  have hs := reachable_sound haddressed
  refine ⟨hs.uncaught, fun event hrule => ⟨fun henabled => ?_, fun t ⟨depth, hstep⟩ => ?_⟩⟩
  · exact (step_iff hs.registered hs.uncaught event).mpr ⟨henabled, hrule.returns⟩
  · obtain ⟨ht, hunchanged⟩ := perform_sound hs hrule.addressed hstep
    exact ⟨ht.uncaught, hunchanged⟩

/-! ### A response and a disconnect -/

instance (s : Loop) (event : LoopEvent) : Decidable (Addressed s event) :=
  match event with
  | .event _ _ => inferInstanceAs (Decidable (∀ e ∈ s.events.head?, ∀ connId ∈ s.fdToId.lookup e.fd, _ → _))
  | .command => inferInstanceAs (Decidable (∀ cmd ∈ s.commandQueue.head?, _))
  | .accept _ => inferInstanceAs (Decidable (¬ _))
  | .wait _ | .accepted | .drained | .respond .. | .serverPush .. | .push _ | .closeConnection _ => .isTrue trivial

/-- A server that listens on descriptor 3 and is woken up on descriptor 4. -/
def listening3 : LoopEnv := ⟨3, 4, 4096, [], fun _ => quietEnv⟩

/-- One connection, on descriptor 5; its handshake, its request, and the answer of a worker. -/
def respondRun : List LoopEvent :=
  [.wait [⟨3, false, true, 0⟩], .event (.once []) 100, .accept 5, .accepted,
    .wait [⟨5, false, true, 1⟩], .event (.once (handshakeRaw 100)) 100,
    .wait [⟨5, false, true, 1⟩], .event (.once requestRaw) 101,
    .respond ⟨1, ascii ['/', 'p'], [1, 2], 2⟩ [3] STATUS_OK,
    .push ⟨.send, 1, some ⟨1, 2, 7, STATUS_OK, 0, ascii ['/', 'p'], [3]⟩⟩]

/-- The command comes up while its client is connected, and another one too: the loop gets through it, and leaves
the other connection alone. -/
theorem response_handled :
    ∃ s, Reachable ((epollLoop listening3).under (Attended listening3)) s ∧ 2 ∈ s.connections ∧
      s.commandQueue = [⟨.send, 1, some ⟨1, 2, 7, STATUS_OK, 0, ascii ['/', 'p'], [3]⟩⟩] ∧
      ∃ t, (epollLoop listening3).step s .command t ∧ t.uncaught = none ∧ s.Unchanged 2 t := by
  have hrun : (execute (guarded Addressed fun s event => s.perform listening3 3 event)
      (respondRun ++ [.wait [⟨3, false, true, 0⟩], .event (.once []) 102, .accept 6, .accepted,
        .wait [⟨4, false, true, 0⟩], .event (.once []) 102]) {}).map (fun s => (s.phase, s.commandQueue,
          (s.connections.lookup 1).map fun conn => conn.conn.aesKey.length, decide (2 ∈ s.connections))) =
      some (.commands, [⟨.send, 1, some ⟨1, 2, 7, STATUS_OK, 0, ascii ['/', 'p'], [3]⟩⟩], some 32, true) := by
    decide +kernel
  obtain ⟨s, hs, hresult⟩ := Option.map_eq_some_iff.mp hrun
  simp only [Prod.mk.injEq, decide_eq_true_eq] at hresult
  obtain ⟨hphase, hqueue, hkey, hother⟩ := hresult
  have hreach : Reachable ((epollLoop listening3).under (Attended listening3)) s :=
    reachable_attended (Reachable.execute (fun _ _ _ _ => guarded_step fun _ _ h => ⟨3, h⟩) (.init ⟨0, rfl⟩) hs)
  obtain ⟨conn, hconn, hlen⟩ := Option.map_eq_some_iff.mp hkey
  have hrule : Attended listening3 s .command := by
    refine ⟨fun cmd hcmd => ?_, fun cmd hcmd _ conn' hconn' frame _ => .inr ⟨?_, ?_⟩⟩
    · rw [hqueue] at hcmd
      cases hcmd
      exact AList.lookup_isSome.mp (by rw [hconn]; rfl)
    · rw [hqueue] at hcmd
      cases hcmd
      rw [← Option.some.inj (hconn.symm.trans hconn')]
      exact hlen
    · exact .inl (takes_of_pos (fun i _ => quietEnv_send i) _)
  obtain ⟨hgo, hafter⟩ := (isolation hreach).2 .command hrule
  obtain ⟨t, ht⟩ := hgo ⟨hphase, by rw [hqueue]; exact List.cons_ne_nil _ []⟩
  obtain ⟨huncaught, halone⟩ := hafter t ht
  refine ⟨s, hreach, hother, hqueue, t, ht, huncaught, halone 2 ?_⟩
  rw [Loop.concerns, hqueue]
  decide

/-- **The client disconnects before the command is handled: the loop ends.** -/
theorem response_ends_loop :
    ∃ s, Reachable (epollLoop listening3) s ∧
      s.uncaught = some (.fmxp ⟨ERR_CONNECTION, "1: Connection not found"⟩) := by
  have hrun : (execute (fun (s : Loop) event => s.perform listening3 3 event)
      (respondRun ++ [.wait [⟨5, true, false, 1⟩, ⟨4, false, true, 0⟩], .event (.once []) 102,
        .event (.once []) 102, .command]) {}).map (fun s => s.uncaught) =
        some (some (Exn.fmxp ⟨ERR_CONNECTION, "1: Connection not found"⟩)) := by
    decide +kernel
  obtain ⟨s, hs, hresult⟩ := Option.map_eq_some_iff.mp hrun
  exact ⟨s, Reachable.execute (fun _ _ _ _ h => ⟨3, h⟩) (.init ⟨0, rfl⟩) hs, hresult⟩

end Fmxp.Server
