import Fmxp.Server.Descriptors
import Fmxp.Server.Isolation

/-! That a server closes only descriptors of its own.

`stop` closes `_socket` and `_epollFd` and leaves their numbers in the fields, and the destructor calls `stop`
again. A second `stop` so closes numbers that stand for nothing by then, or for a descriptor that other code has
opened since (`stop_closes_other`). As long as no `stop` comes upon a field that an earlier one has closed, every
descriptor that is closed is the server's own (`closes_own`). -/
namespace Fmxp.Server
open Transition Ownership

/-- No `stop`, that of the destructor included, begins while a field still holds what an earlier one has closed. -/
def StopsOnce (h : Host) : HostEvent → Prop
  | .stop | .destroy => h.socketClosed = false ∧ h.epollFdClosed = false
  | _ => True

instance (h : Host) : (event : HostEvent) → Decidable (StopsOnce h event)
  | .stop | .destroy => inferInstanceAs (Decidable (_ ∧ _))
  | .listen _ | .accept _ | .call _ _ | .delete _ | .stopNext | .otherOpens _ | .otherCloses _ => .isTrue trivial

variable {env : LoopEnv} {h r : Host} {n : Int}

/-! ### Opening -/

theorem kept_socket (fds : Descriptors) (socket : Int) :
    Host.kept {h with fds := fds, socket := socket, socketClosed := false} =
      Function.update h.kept .socket (valid socket) := by
  funext slot
  cases slot with
  | socket => rfl
  | epollFd | connection => rfl

theorem kept_epollFd (fds : Descriptors) (epollFd : Int) :
    Host.kept {h with fds := fds, epollFd := epollFd, epollFdClosed := false} =
      Function.update h.kept .epollFd (valid epollFd) := by
  funext slot
  cases slot with
  | epollFd => rfl
  | socket | connection => rfl

theorem InOrder.accept (hh : InOrder env h) (hr : h.accept env n = some r) : InOrder env r := by
  obtain ⟨fds, hfds, rfl⟩ := Option.map_eq_some_iff.mp hr
  obtain ⟨hn, hfree, _⟩ := Descriptors.opened_spec hfds
  refine ⟨?_, ?_, hh.socket, hh.epollFd⟩
  · rw [kept_insert]
    show Accounted fds (Function.update h.kept _ (valid n))
    rw [valid_of_ne (by omega)]
    exact hh.accounted.taken hfds _
  · exact Assoc.forall_insert (env.accepts_fresh hn _).wellFormed fun c _ => hh.wellFormed c

theorem InOrder.openSocket (hh : InOrder env h) (hstop : h.stopping = none) (hr : h.openSocket n = some r) :
    InOrder env r ∧ r.stopping = none := by
  obtain ⟨fds, hfds, rfl⟩ := Option.map_eq_some_iff.mp hr
  have hn := (Descriptors.opened_spec hfds).1
  refine ⟨⟨?_, hh.wellFormed, fun _ => rfl, hh.epollFd⟩, hstop⟩
  rw [kept_socket, valid_of_ne (by omega)]
  exact hh.accounted.taken hfds _

theorem InOrder.openEpollFd (hh : InOrder env h) (hstop : h.stopping = none) (hr : h.openEpollFd n = some r) :
    InOrder env r ∧ r.stopping = none := by
  obtain ⟨fds, hfds, rfl⟩ := Option.map_eq_some_iff.mp hr
  have hn := (Descriptors.opened_spec hfds).1
  refine ⟨⟨?_, hh.wellFormed, hh.socket, fun _ => rfl⟩, hstop⟩
  rw [kept_epollFd, valid_of_ne (by omega)]
  exact hh.accounted.taken hfds _

theorem InOrder.openCmdEvFd (hh : InOrder env h) (hr : h.openCmdEvFd n = some r) : InOrder env r := by
  obtain ⟨fds, hfds, rfl⟩ := Option.map_eq_some_iff.mp hr
  exact ⟨hh.accounted.opened hfds, hh.wellFormed, hh.socket, hh.epollFd⟩

theorem InOrder.listen (hh : InOrder env h) (hstop : h.stopping = none) {how : Listening}
    (hr : h.listen how = some r) : InOrder env r := by
  cases how with
  | socketFailed =>
    cases hr
    refine ⟨?_, hh.wellFormed, fun _ => rfl, hh.epollFd⟩
    rw [kept_socket]
    exact hh.accounted.mono fun _ _ hj => (of_forgotten hj).2
  | bindFailed socket => exact (hh.openSocket hstop hr).1
  | epollFailed socket =>
    obtain ⟨u, hu, heq⟩ := Option.bind_eq_some_iff.mp hr
    cases heq
    have hopened := (hh.openSocket hstop hu).1
    refine ⟨?_, hopened.wellFormed, hopened.socket, fun _ => rfl⟩
    rw [kept_epollFd]
    exact hopened.accounted.mono fun _ _ hj => (of_forgotten hj).2
  | eventfdFailed socket epollFd =>
    obtain ⟨u, hu, hrest⟩ := Option.bind_eq_some_iff.mp hr
    obtain ⟨v, hv, heq⟩ := Option.bind_eq_some_iff.mp hrest
    cases heq
    obtain ⟨hopened, hstop'⟩ := hh.openSocket hstop hu
    have hboth := (hopened.openEpollFd hstop' hv).1
    exact ⟨hboth.accounted, hboth.wellFormed, hboth.socket, hboth.epollFd⟩
  | opened socket epollFd cmdEvFd =>
    obtain ⟨u, hu, hrest⟩ := Option.bind_eq_some_iff.mp hr
    obtain ⟨v, hv, hcmd⟩ := Option.bind_eq_some_iff.mp hrest
    obtain ⟨hopened, hstop'⟩ := hh.openSocket hstop hu
    exact (hopened.openEpollFd hstop' hv).1.openCmdEvFd hcmd

/-! ### Stopping -/

theorem InOrder.closeSocket (hh : InOrder env h) (hstop : h.stopping = some .socket) :
    InOrder env {h.closeSocket with stopping := some .epollFd} := by
  have hopen : h.socketClosed = false := hh.socket (.inr hstop)
  have hepollFd : h.epollFdClosed = false := hh.epollFd (by rw [hstop]; rfl)
  unfold Host.closeSocket
  split
  · exact ⟨hh.accounted, hh.wellFormed, fun h => (by rcases h with h | h <;> cases h), fun _ => hepollFd⟩
  · next hsocket =>
    refine ⟨?_, hh.wellFormed, fun h => (by rcases h with h | h <;> cases h), fun _ => hepollFd⟩
    have hheld : h.kept .socket = some h.socket := by
      simp only [Host.kept, hopen, Bool.false_eq_true, if_false, valid_of_ne hsocket]
    have hgone : Host.kept {h with fds := h.fds.close h.socket, socketClosed := true, stopping := some .epollFd} =
        Function.update h.kept .socket none := by
      funext slot
      cases slot with
      | socket => rfl
      | epollFd | connection => rfl
    rw [hgone]
    exact hh.accounted.closed hheld

theorem InOrder.closeEpollFd (hh : InOrder env h) (hstop : h.stopping = some .epollFd) :
    InOrder env {h.closeEpollFd with stopping := none} := by
  have hopen : h.epollFdClosed = false := hh.epollFd (by rw [hstop]; rfl)
  unfold Host.closeEpollFd
  split
  · exact ⟨hh.accounted, hh.wellFormed, fun h => (by rcases h with h | h <;> cases h), fun h => by cases h⟩
  · next hepollFd =>
    refine ⟨?_, hh.wellFormed, fun h => (by rcases h with h | h <;> cases h), fun h => by cases h⟩
    have hheld : h.kept .epollFd = some h.epollFd := by
      simp only [Host.kept, hopen, Bool.false_eq_true, if_false, valid_of_ne hepollFd]
    have hgone : Host.kept {h with fds := h.fds.close h.epollFd, epollFdClosed := true, stopping := none} =
        Function.update h.kept .epollFd none := by
      funext slot
      cases slot with
      | epollFd => rfl
      | socket | connection => rfl
    rw [hgone]
    exact hh.accounted.closed hheld

theorem InOrder.stopNext (hh : InOrder env h) {depth : Nat} (hr : h.stopNext env depth = some r) :
    InOrder env r := by
  unfold Host.stopNext at hr
  split at hr
  · cases hr
  · next hstop =>
    split at hr
    · cases hr
      exact ⟨hh.accounted, hh.wellFormed, fun _ => hh.socket (.inl hstop), fun _ => hh.epollFd (by rw [hstop]; rfl)⟩
    · exact hh.delete hr
  · next hstop =>
    cases hr
    exact hh.closeSocket hstop
  · next hstop =>
    cases hr
    exact hh.closeEpollFd hstop

/-! ### Every run -/

theorem InOrder.perform (hh : InOrder env h) {depth : Nat} {event : HostEvent} (hrule : StopsOnce h event)
    (hr : h.perform env depth event = some r) : InOrder env r := by
  cases event with
  | listen how =>
    simp only [Host.perform] at hr
    split at hr
    · next hserves =>
      simp only [Host.serves, Bool.and_eq_true, Option.isNone_iff_eq_none] at hserves
      exact hh.listen hserves.1 hr
    · cases hr
  | accept clientFd =>
    simp only [Host.perform] at hr
    split at hr
    · exact hh.accept hr
    · cases hr
  | call connId call =>
    simp only [Host.perform] at hr
    split at hr
    · exact hh.call hr
    · cases hr
  | delete connId =>
    simp only [Host.perform] at hr
    split at hr
    · exact hh.delete hr
    · cases hr
  | stop | destroy =>
    simp only [Host.perform] at hr
    split at hr <;> cases hr
    exact ⟨hh.accounted, hh.wellFormed, fun _ => hrule.1, fun _ => hrule.2⟩
  | stopNext => exact hh.stopNext hr
  | otherOpens n =>
    obtain ⟨fds, hfds, rfl⟩ := Option.map_eq_some_iff.mp hr
    exact ⟨hh.accounted.opened hfds, hh.wellFormed, hh.socket, hh.epollFd⟩
  | otherCloses n =>
    obtain ⟨fds, hfds, rfl⟩ := Option.map_eq_some_iff.mp hr
    exact ⟨hh.accounted.released hfds, hh.wellFormed, hh.socket, hh.epollFd⟩

theorem Host.Constructed.inOrder (hh : h.Constructed) : InOrder env h := by
  obtain ⟨connCount, cmdEvFd, owner, _, hunused, rfl⟩ := hh
  refine ⟨⟨.nothing fun slot => ?_, hunused, fun e he => (by cases he)⟩, fun c conn hconn => (by cases hconn),
    fun _ => rfl, fun _ => rfl⟩
  cases slot with
  | socket | epollFd | connection => rfl

theorem reachable_inOrder (hh : Reachable ((hosted env).under StopsOnce) h) : InOrder env h := by
  refine hh.invariant (fun _ => Host.Constructed.inOrder) ?_
  rintro h event r hinv ⟨hrule, depth, hr⟩
  exact hinv.perform hrule hr

/-- **Every descriptor the server closes is its own**, in every run in which no `stop` comes upon a field that an
earlier one has closed. -/
theorem closes_own (hh : Reachable ((hosted env).under StopsOnce) h) :
    ∀ e ∈ h.fds.closes, e.1 ≠ -1 → e.2 = some .server := (reachable_inOrder hh).accounted.own

/-! ### The epoll loop -/

/-- The host is serving, with the connections of the loop. -/
structure Host.Shows (h : Host) (s : Loop) : Prop where
  serves : h.serves = true
  connections : h.connections = s.connections
  connCount : h.connCount = s.connCount

section
variable {depth : Nat} {s t : Loop} {c : Nat} {conn u : Endpoint}

theorem Host.Shows.call (hs : h.Shows s) {call : Call} (hconn : s.connections.lookup c = some conn)
    (hu : Server.perform (env.conn c) depth call conn = some u) (ht : t.connections = s.connections.insert c u)
    (hcount : t.connCount = s.connCount) : ∃ r, (hosted env).step h (.call c call) r ∧ r.Shows t := by
  refine ⟨Host.closing {h with connections := h.connections.insert c u} conn u, ⟨depth, ?_⟩, hs.serves, ?_, ?_⟩
  · simp only [Host.perform, hs.serves, if_true, Host.call, hs.connections, hconn, hu, Option.map_some]
  · show h.connections.insert c u = t.connections
    rw [hs.connections, ht]
  · exact hs.connCount.trans hcount.symm

theorem Host.Shows.delete (hs : h.Shows s) (hconn : s.connections.lookup c = some conn)
    (hdeleted : Deleted env depth c conn s t) : ∃ r, (hosted env).step h (.delete c) r ∧ r.Shows t := by
  obtain ⟨u, hu, rfl⟩ := hdeleted
  have hclose : closeConnection (env.conn c) depth .natural true conn = some u := hu
  refine ⟨Host.closing {h with connections := h.connections.erase c} conn u, ⟨depth, ?_⟩, hs.serves, ?_, hs.connCount⟩
  · simp only [Host.perform, hs.serves, if_true, Host.delete, hs.connections, hconn, hclose, Option.map_some]
  · show h.connections.erase c = s.connections.erase c
    rw [hs.connections]

/-- **What a step of the epoll loop does to its connections, a host can do**, if `accept` returns a number that is
not in use in the process. -/
theorem LoopEffect.hosted {event : LoopEvent} (heffect : LoopEffect env depth event s t) (hs : h.Shows s)
    (hfree : ∀ clientFd, event = .accept clientFd → h.fds.owner clientFd = none) :
    ∃ labels r, Run (Server.hosted env) h labels r ∧ r.Shows t := by
  have hstay : ∀ {t : Loop}, t.connections = s.connections → t.connCount = s.connCount →
      ∃ labels r, Run (Server.hosted env) h labels r ∧ r.Shows t := fun hconnections hcount =>
    ⟨[], h, .nil, hs.serves, hs.connections.trans hconnections.symm, hs.connCount.trans hcount.symm⟩
  cases heffect with
  | quiet hconnections _ _ _ hcount => exact hstay hconnections hcount
  | @event _ _ _ rest _ _ _ _ heffect =>
    have htaken : h.Shows {s with events := rest} := ⟨hs.serves, hs.connections, hs.connCount⟩
    cases heffect with
    | ignored ht =>
      subst ht
      exact hstay rfl rfl
    | dropped hfinds _ hdeleted =>
      obtain ⟨r, hr, hshows⟩ := htaken.delete hfinds.registered hdeleted
      exact ⟨_, r, .cons hr .nil, hshows⟩
    | @read _ conn u hfinds _ _ hread _ ht =>
      obtain ⟨r, hr, hshows⟩ := htaken.call (t := t) hfinds.registered hread (by rw [ht]; rfl) (by rw [ht]; rfl)
      exact ⟨_, r, .cons hr .nil, hshows⟩
    | @readDropped c conn u hfinds _ _ hread hdeleted =>
      let put : Loop := {Loop.put {s with events := rest} c u with requests := s.requests ++ handed conn u}
      obtain ⟨r, hr, hshows⟩ := htaken.call (t := put) hfinds.registered hread rfl rfl
      obtain ⟨r', hr', hshows'⟩ := hshows.delete (AList.lookup_insert _) hdeleted
      exact ⟨_, r', .cons hr (.cons hr' .nil), hshows'⟩
  | @accept clientFd hevent hok ht =>
    subst ht
    let fds : Descriptors := {h.fds with owner := Function.update h.fds.owner clientFd (some .server)}
    have hopened : h.fds.opened .server clientFd = some fds := if_pos ⟨hok.1, hfree clientFd hevent⟩
    have hr : (Server.hosted env).step h (.accept clientFd)
        {h with
          fds := fds
          connCount := h.connCount + 1
          connections := h.connections.insert (h.connCount + 1).toNat
            (env.accepts clientFd (h.connCount + 1).toNat)} := by
      refine ⟨0, ?_⟩
      simp only [Host.perform, hs.serves, if_true, Host.accept, hopened, Option.map_some]
    refine ⟨_, _, .cons hr .nil, hs.serves, ?_, ?_⟩
    · simp only [hs.connections, hs.connCount]
      rfl
    · simp only [hs.connCount]
      rfl
  | command _ _ heffect ht =>
    cases heffect with
    | missing | frameless =>
      subst ht
      exact hstay rfl rfl
    | called hconn _ hu =>
      obtain ⟨r, hr, hshows⟩ := hs.call (t := t) hconn hu (by rw [ht]; rfl) (by rw [ht]; rfl)
      exact ⟨_, r, .cons hr .nil, hshows⟩

end

/-! ### Stopping once, and twice -/

/-- A server in a process that has nothing open. -/
def emptyHost : Host := {cmdEvFd := 0, fds := {owner := fun _ => none}}

theorem emptyHost_constructed : emptyHost.Constructed := ⟨0, 0, fun _ => none, fun _ => by simp, rfl, rfl⟩

/-- The server listens on 3, with 4 for its epoll instance, accepts two connections and closes one of them. -/
def servingRun : List HostEvent :=
  [.listen (.opened 3 4 5), .accept 6, .accept 7, .call 1 (.closeConnection .natural true), .otherOpens 6]

/-- It is destroyed: the other connection is closed, and both fields. -/
theorem destroyed_closes_own : ∃ h : Host, h.fds.closes = [(6, some .server), (7, some .server), (3, some .server),
    (4, some .server)] ∧ ∀ e ∈ h.fds.closes, e.1 ≠ -1 → e.2 = some .server := by
  have hrun : (execute (guarded StopsOnce fun h event => h.perform listening3 3 event)
      (servingRun ++ [.destroy, .stopNext, .stopNext, .stopNext, .stopNext, .stopNext]) emptyHost).map
        (fun h => h.fds.closes) =
      some [(6, some .server), (7, some .server), (3, some .server), (4, some .server)] := by
    decide +kernel
  obtain ⟨h, hh, hcloses⟩ := Option.map_eq_some_iff.mp hrun
  have hnext : ∀ event (h r : Host), h.perform listening3 3 event = some r → (hosted listening3).step h event r :=
    fun _ _ _ hr => ⟨3, hr⟩
  have hreach : Reachable ((hosted listening3).under StopsOnce) h :=
    Reachable.execute (fun event _ _ _ => guarded_step (hnext event)) (.init emptyHost_constructed) hh
  exact ⟨h, hcloses, closes_own hreach⟩

/-- **The destructor stops a server that was stopped before**: what it closes under the old number of `_socket` is
a descriptor that other code has opened. -/
theorem stop_closes_other :
    ∃ h, Reachable (hosted listening3) h ∧ ¬ ∀ e ∈ h.fds.closes, e.1 ≠ -1 → e.2 = some .server := by
  have hrun : (execute (fun h event => Host.perform listening3 3 event h)
      [.listen (.opened 3 4 5), .stop, .stopNext, .stopNext, .stopNext, .otherOpens 3, .destroy, .stopNext, .stopNext]
      emptyHost).map (fun h => decide (((3, some .other) : Int × Option Owner) ∈ h.fds.closes)) = some true := by
    decide +kernel
  obtain ⟨h, hh, hmem⟩ := Option.map_eq_some_iff.mp hrun
  refine ⟨h, Reachable.execute (fun _ _ _ _ hr => ⟨3, hr⟩) (.init emptyHost_constructed) hh, fun hown => ?_⟩
  cases hown _ (of_decide_eq_true hmem) (by decide)

end Fmxp.Server
