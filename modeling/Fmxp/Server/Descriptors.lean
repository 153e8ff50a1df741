import Fmxp.Library.Ownership
import Fmxp.Server.Acts
import Fmxp.Server.Steps

/-! The descriptors a server opens and closes, among those of its process.

A number stands for a descriptor as long as that is open, and for another one later. `Descriptors` says who has
opened the descriptor under each number and keeps a record of the calls of `close` that the server makes.
`Host` is a server as far as its descriptors go: the connections, with everything each of them does, the fields
`listen` sets, and `stop`, close by close, with other code opening and closing descriptors of its own at any
point. The calls on connections come in any order; the epoll loop is one such order (`Step.hosted`). -/
namespace Fmxp.Server
open Transition Ownership

inductive Owner where
  | server
  | other
  deriving DecidableEq, Repr

/-- Who has opened the descriptor under each number in use, and the server's calls of `close`, each with the
owner of the descriptor it found. -/
structure Descriptors where
  owner : Int → Option Owner
  closes : List (Int × Option Owner) := []

/-- The system picks a number that is not in use. -/
def Descriptors.opened (who : Owner) (n : Int) (d : Descriptors) : Option Descriptors :=
  if 0 ≤ n ∧ d.owner n = none then some {d with owner := Function.update d.owner n (some who)} else none

/-- A call of `close` by the server. -/
def Descriptors.close (n : Int) (d : Descriptors) : Descriptors where
  owner := Function.update d.owner n none
  closes := d.closes ++ [(n, d.owner n)]

def Descriptors.closeAll (ns : List Int) (d : Descriptors) : Descriptors := ns.foldl (fun d n => d.close n) d

/-- What other code closes is its own. -/
def Descriptors.released (n : Int) (d : Descriptors) : Option Descriptors :=
  if d.owner n = some .other then some {d with owner := Function.update d.owner n none} else none

def Output.closes : Output → Option Int
  | .closedFd fd => some fd
  | _ => none

/-- The descriptors a connection has closed. -/
def closedFds (log : List Output) : List Int := log.filterMap Output.closes

/-- Where `stop` is. -/
inductive StopPoint where
  | connections
  | socket
  | epollFd
  deriving DecidableEq, Repr

/-- How far `listen` comes, with the descriptors it has opened by then. -/
inductive Listening where
  | socketFailed
  | bindFailed (socket : Int)
  | epollFailed (socket : Int)
  | eventfdFailed (socket epollFd : Int)
  | opened (socket epollFd cmdEvFd : Int)
  deriving DecidableEq, Repr

/-- `socketClosed` and `epollFdClosed` say that a `stop` has closed what the field holds; the code does not keep
that. -/
structure Host where
  connections : AList fun _ : Nat => Endpoint := ∅
  connCount : UInt64 := 0
  socket : Int := -1
  epollFd : Int := -1
  cmdEvFd : Int
  stopping : Option StopPoint := none
  destroyed : Bool := false
  fds : Descriptors
  socketClosed : Bool := false
  epollFdClosed : Bool := false

inductive HostEvent where
  | listen (how : Listening)
  | accept (clientFd : Int)
  | call (connId : Nat) (call : Call)
  | delete (connId : Nat)
  | stop
  | destroy
  | stopNext
  | otherOpens (n : Int)
  | otherCloses (n : Int)
  deriving DecidableEq, Repr

def Host.openSocket (n : Int) (h : Host) : Option Host :=
  (h.fds.opened .server n).map fun fds => {h with fds := fds, socket := n, socketClosed := false}

def Host.openEpollFd (n : Int) (h : Host) : Option Host :=
  (h.fds.opened .server n).map fun fds => {h with fds := fds, epollFd := n, epollFdClosed := false}

def Host.openCmdEvFd (n : Int) (h : Host) : Option Host :=
  (h.fds.opened .server n).map fun fds => {h with fds := fds, cmdEvFd := n}

/-- `listen`, up to `_epollLoop`. A call that fails gives -1. -/
def Host.listen (how : Listening) (h : Host) : Option Host :=
  match how with
  | .socketFailed => some {h with socket := -1, socketClosed := false}
  | .bindFailed socket => h.openSocket socket
  | .epollFailed socket => do
    let h ← h.openSocket socket
    some {h with epollFd := -1, epollFdClosed := false}
  | .eventfdFailed socket epollFd => do
    let h ← h.openSocket socket
    let h ← h.openEpollFd epollFd
    some {h with cmdEvFd := -1}
  | .opened socket epollFd cmdEvFd => do
    let h ← h.openSocket socket
    let h ← h.openEpollFd epollFd
    h.openCmdEvFd cmdEvFd

/-- A connection is now `t`, after a call that has closed what `t` has closed since. -/
def Host.closing (h : Host) (s t : Endpoint) : Host :=
  {h with fds := h.fds.closeAll (closedFds (t.log.drop s.log.length))}

def Host.accept (env : LoopEnv) (clientFd : Int) (h : Host) : Option Host :=
  let connId := (h.connCount + 1).toNat
  (h.fds.opened .server clientFd).map fun fds =>
    {h with
      fds := fds
      connCount := h.connCount + 1
      connections := h.connections.insert connId (env.accepts clientFd connId)}

def Host.call (env : LoopEnv) (depth connId : Nat) (call : Call) (h : Host) : Option Host :=
  match h.connections.lookup connId with
  | none => none
  | some conn => (perform (env.conn connId) depth call conn).map fun t =>
      {h with connections := h.connections.insert connId t}.closing conn t

/-- `delete conn`, which closes the connection. -/
def Host.delete (env : LoopEnv) (depth connId : Nat) (h : Host) : Option Host :=
  match h.connections.lookup connId with
  | none => none
  | some conn => (closeConnection (env.conn connId) depth .natural true conn).map fun t =>
      {h with connections := h.connections.erase connId}.closing conn t

/-- `if (_socket != -1) close(_socket);` -/
def Host.closeSocket (h : Host) : Host :=
  if h.socket = -1 then h else {h with fds := h.fds.close h.socket, socketClosed := true}

def Host.closeEpollFd (h : Host) : Host :=
  if h.epollFd = -1 then h else {h with fds := h.fds.close h.epollFd, epollFdClosed := true}

/-- The next thing `stop` does. A connection is taken out of the map as it is deleted. -/
def Host.stopNext (env : LoopEnv) (depth : Nat) (h : Host) : Option Host :=
  match h.stopping with
  | none => none
  | some .connections =>
    match h.connections.keys with
    | [] => some {h with stopping := some .socket}
    | connId :: _ => h.delete env depth connId
  | some .socket => some {h.closeSocket with stopping := some .epollFd}
  | some .epollFd => some {h.closeEpollFd with stopping := none}

/-- The server is there, and not stopping. -/
def Host.serves (h : Host) : Bool := h.stopping.isNone && !h.destroyed

def Host.perform (env : LoopEnv) (depth : Nat) (event : HostEvent) (h : Host) : Option Host :=
  match event with
  | .listen how => if h.serves then h.listen how else none
  | .accept clientFd => if h.serves then h.accept env clientFd else none
  | .call connId call => if h.serves then h.call env depth connId call else none
  | .delete connId => if h.serves then h.delete env depth connId else none
  | .stop => if h.serves then some {h with stopping := some .connections} else none
  | .destroy => if h.serves then some {h with stopping := some .connections, destroyed := true} else none
  | .stopNext => h.stopNext env depth
  | .otherOpens n => (h.fds.opened .other n).map fun fds => {h with fds := fds}
  | .otherCloses n => (h.fds.released n).map fun fds => {h with fds := fds}

/-- A server just constructed; other code may have descriptors open. -/
def Host.Constructed (h : Host) : Prop :=
  ∃ connCount cmdEvFd owner, (∀ n, owner n ≠ some .server) ∧ owner (-1) = none ∧
    h = {connCount := connCount, cmdEvFd := cmdEvFd, fds := {owner := owner}}

def hosted (env : LoopEnv) : System Host HostEvent where
  init := Host.Constructed
  step := fun h event r => ∃ depth, h.perform env depth event = some r

/-! ### What a call on a connection closes -/

section
variable {env : Env} {s t u : Endpoint}

/-- A call has closed nothing and left the descriptor, or it has closed the descriptor, and perhaps -1 behind it. -/
def Closes (s t : Endpoint) : Prop :=
  ∃ outs, t.log = s.log ++ outs ∧ ((t.conn.fd = s.conn.fd ∧ closedFds outs = []) ∨
    (t.conn.fd = -1 ∧ ∃ rest, closedFds outs = s.conn.fd :: rest ∧ ∀ n ∈ rest, n = -1))

theorem Closes.refl (s : Endpoint) : Closes s s := ⟨[], (List.append_nil _).symm, .inl ⟨rfl, rfl⟩⟩

theorem Closes.same (h : Closes s t) (hlog : u.log = t.log) (hfd : u.conn.fd = t.conn.fd) : Closes s u := by
  unfold Closes
  rw [hlog, hfd]
  exact h

theorem Closes.logged (h : Closes s t) {o : Output} (ho : o.closes = none) (hlog : u.log = t.log ++ [o])
    (hfd : u.conn.fd = t.conn.fd) : Closes s u := by
  obtain ⟨outs, houts, hcloses⟩ := h
  refine ⟨outs ++ [o], by rw [hlog, houts, List.append_assoc], ?_⟩
  have hsame : closedFds (outs ++ [o]) = closedFds outs := by
    simp only [closedFds, List.filterMap_append, List.filterMap_cons, ho, List.filterMap_nil, List.append_nil]
  rw [hsame, hfd]
  exact hcloses

theorem Closes.closed (h : Closes s t) : Closes s t.closeFd := by
  obtain ⟨outs, houts, hcloses⟩ := h
  have hnext : closedFds (outs ++ [.closedFd t.conn.fd]) = closedFds outs ++ [t.conn.fd] := List.filterMap_append
  refine ⟨outs ++ [.closedFd t.conn.fd], ?_, .inr ⟨rfl, ?_⟩⟩
  · show t.log ++ [.closedFd t.conn.fd] = _
    rw [houts, List.append_assoc]
  · rw [hnext]
    rcases hcloses with ⟨hfd, hnone⟩ | ⟨hfd, rest, hsome, hrest⟩
    · exact ⟨[], by rw [hnone, hfd]; rfl, fun n hn => (by cases hn)⟩
    · refine ⟨rest ++ [t.conn.fd], by rw [hsome]; rfl, fun n hn => ?_⟩
      rcases List.mem_append.mp hn with hn | hn
      · exact hrest n hn
      · exact (List.mem_singleton.mp hn).trans hfd

theorem perform_closes {depth : Nat} {call : Call} (hs : WellFormed env s) (h : perform env depth call s = some t) :
    Closes s t := by
  refine (perform_acts hs h).keeps (P := Closes s) ?_ (.refl s)
  intro u v hact hu
  cases hact with
  | sent rest =>
    have hfd : (u.send env rest).2.conn.fd = u.conn.fd := congrArg (·.fd) (send_keeps env rest u).1
    rcases send_log env rest u with hsame | ⟨bytes, hlog⟩
    · exact hu.same hsame hfd
    · exact hu.logged rfl hlog hfd
  | closedFd => exact hu.closed
  | encoded | notified | secured | handed => exact hu.logged rfl rfl rfl
  | refused | closed | buffered | activated | callbackSet => exact hu.same rfl rfl

end

/-! ### The server's books -/

/-- The server owns what is kept, and each of its calls of `close` so far was on -1 or on a descriptor of its own. -/
structure Accounted {ι : Type*} (d : Descriptors) (kept : ι → Option Int) : Prop where
  holds : Holds d.owner .server kept
  unused : d.owner (-1) = none
  own : ∀ e ∈ d.closes, e.1 ≠ -1 → e.2 = some .server

section
variable {ι : Type*} {d d' : Descriptors} {kept kept' : ι → Option Int} {n : Int}

theorem Accounted.mono (h : Accounted d kept) (hle : ∀ i n, kept' i = some n → kept i = some n) : Accounted d kept' :=
  ⟨h.holds.mono hle, h.unused, h.own⟩

theorem Descriptors.opened_spec {who : Owner} (hd : d.opened who n = some d') :
    0 ≤ n ∧ d.owner n = none ∧ d' = {d with owner := Function.update d.owner n (some who)} := by
  unfold Descriptors.opened at hd
  split at hd <;> cases hd
  next hfree => exact ⟨hfree.1, hfree.2, rfl⟩

/-- A descriptor is opened, and not kept. -/
theorem Accounted.opened (h : Accounted d kept) {who : Owner} (hd : d.opened who n = some d') :
    Accounted d' kept := by
  obtain ⟨hn, hfree, rfl⟩ := Descriptors.opened_spec hd
  refine ⟨h.holds.foreign (by rw [hfree]; simp) _, ?_, h.own⟩
  show Function.update d.owner n (some who) (-1) = none
  rw [Function.update_of_ne (by omega)]
  exact h.unused

theorem Accounted.released (h : Accounted d kept) (hd : d.released n = some d') : Accounted d' kept := by
  unfold Descriptors.released at hd
  split at hd <;> cases hd
  next hother =>
  refine ⟨h.holds.foreign (by rw [hother]; simp) none, ?_, h.own⟩
  show Function.update d.owner n none (-1) = none
  rw [Function.update_of_ne]
  · exact h.unused
  · rintro rfl
    cases h.unused.symm.trans hother

/-- `close(-1)` closes nothing. -/
theorem Accounted.closeAll (h : Accounted d kept) {ns : List Int} (hns : ∀ n ∈ ns, n = -1) :
    Accounted (d.closeAll ns) kept := by
  induction ns generalizing d with
  | nil => exact h
  | cons n ns ih =>
    have hn := hns n (List.mem_cons_self ..)
    subst hn
    have hclosed : Accounted (d.close (-1)) kept := by
      have hnone : Function.update d.owner (-1) none (-1) = none := Function.update_self ..
      refine ⟨h.holds.foreign (by rw [h.unused]; simp) none, hnone, ?_⟩
      intro e he hne
      rcases List.mem_append.mp he with he | he
      · exact h.own e he hne
      · rw [List.mem_singleton.mp he] at hne
        exact absurd rfl hne
    exact ih hclosed fun m hm => hns m (List.mem_cons_of_mem _ hm)

variable [DecidableEq ι]

/-- A descriptor is opened and kept. -/
theorem Accounted.taken (h : Accounted d kept) (hd : d.opened .server n = some d') (i : ι) :
    Accounted d' (Function.update kept i (some n)) := by
  have hunused := (h.opened hd).unused
  obtain ⟨_, hfree, rfl⟩ := Descriptors.opened_spec hd
  exact ⟨h.holds.taken (by rw [hfree]; simp) i, hunused, h.own⟩

/-- What is kept is closed, and kept no more. -/
theorem Accounted.closed (h : Accounted d kept) {i : ι} (hi : kept i = some n) :
    Accounted (d.close n) (Function.update kept i none) := by
  have howned := h.holds.owned i n hi
  refine ⟨h.holds.returned hi, ?_, ?_⟩
  · show Function.update d.owner n none (-1) = none
    rw [Function.update_of_ne]
    · exact h.unused
    · rintro rfl
      cases h.unused.symm.trans howned
  · intro e he hne
    rcases List.mem_append.mp he with he | he
    · exact h.own e he hne
    · rw [List.mem_singleton.mp he]
      exact howned

end

/-! ### Where a server keeps its descriptors -/

inductive Slot where
  | socket
  | epollFd
  | connection (c : Nat)
  deriving DecidableEq

def valid (n : Int) : Option Int := if n = -1 then none else some n

/-- What a field holds that a `stop` has closed is not kept. -/
def Host.kept (h : Host) : Slot → Option Int
  | .socket => if h.socketClosed then none else valid h.socket
  | .epollFd => if h.epollFdClosed then none else valid h.epollFd
  | .connection c => (h.connections.lookup c).bind fun conn => valid conn.conn.fd

/-- The books are in order, and `stop` has still to close what its fields hold. -/
structure InOrder (env : LoopEnv) (h : Host) : Prop where
  accounted : Accounted h.fds h.kept
  wellFormed : ∀ c conn, h.connections.lookup c = some conn → WellFormed (env.conn c) conn
  socket : h.stopping = some .connections ∨ h.stopping = some .socket → h.socketClosed = false
  epollFd : h.stopping.isSome = true → h.epollFdClosed = false

section
variable {env : LoopEnv} {h r : Host} {n : Int}

theorem valid_of_ne (hn : n ≠ -1) : valid n = some n := if_neg hn

theorem kept_registered {c : Nat} {conn : Endpoint} (hconn : h.connections.lookup c = some conn) :
    h.kept (.connection c) = valid conn.conn.fd := by
  simp only [Host.kept, hconn, Option.bind_some]

/-- A connection that is put in, or put back. -/
theorem kept_insert {c : Nat} {t : Endpoint} (fds : Descriptors) (connCount : UInt64) :
    Host.kept {h with fds := fds, connCount := connCount, connections := h.connections.insert c t} =
      Function.update h.kept (.connection c) (valid t.conn.fd) := by
  funext slot
  cases slot with
  | socket | epollFd => rfl
  | connection c' =>
    by_cases hc : c' = c
    · subst hc
      rw [Function.update_self]
      simp only [Host.kept, AList.lookup_insert, Option.bind_some]
    · rw [Function.update_of_ne (by simpa using hc)]
      simp only [Host.kept, AList.lookup_insert_ne hc]

theorem kept_erase {c : Nat} (fds : Descriptors) :
    Host.kept {h with fds := fds, connections := h.connections.erase c} =
      Function.update h.kept (.connection c) none := by
  funext slot
  cases slot with
  | socket | epollFd => rfl
  | connection c' =>
    by_cases hc : c' = c
    · subst hc
      rw [Function.update_self]
      simp only [Host.kept, AList.lookup_erase, Option.bind_none]
    · rw [Function.update_of_ne (by simpa using hc)]
      simp only [Host.kept, AList.lookup_erase_ne hc]

/-- What a call on a connection does to the books. -/
theorem Accounted.call {d : Descriptors} {kept : Slot → Option Int} {c : Nat} {s t : Endpoint}
    (h : Accounted d kept) (hs : kept (.connection c) = valid s.conn.fd) (hcloses : Closes s t) :
    Accounted (d.closeAll (closedFds (t.log.drop s.log.length)))
      (Function.update kept (.connection c) (valid t.conn.fd)) := by
  obtain ⟨outs, houts, hfds⟩ := hcloses
  rw [houts, List.drop_left]
  rcases hfds with ⟨hfd, hnone⟩ | ⟨hfd, rest, hsome, hrest⟩
  · rw [hnone, hfd, ← hs, Function.update_eq_self]
    exact h
  · rw [hsome, hfd]
    by_cases hopen : s.conn.fd = -1
    · have hnothing : ∀ n ∈ s.conn.fd :: rest, n = -1 := by
        intro n hn
        rcases List.mem_cons.mp hn with rfl | hn
        · exact hopen
        · exact hrest n hn
      rw [← hopen, ← hs, Function.update_eq_self]
      exact h.closeAll hnothing
    · have hclosed := h.closed (hs.trans (valid_of_ne hopen))
      exact hclosed.closeAll hrest

theorem InOrder.call (hh : InOrder env h) {depth c : Nat} {call : Call} (hr : h.call env depth c call = some r) :
    InOrder env r := by
  unfold Host.call at hr
  split at hr
  · cases hr
  next conn hconn =>
  obtain ⟨t, ht, rfl⟩ := Option.map_eq_some_iff.mp hr
  have hwell := hh.wellFormed c conn hconn
  refine ⟨?_, ?_, hh.socket, hh.epollFd⟩
  · unfold Host.closing
    rw [kept_insert _ h.connCount]
    exact hh.accounted.call (kept_registered hconn) (perform_closes hwell ht)
  · exact Assoc.forall_insert (perform_wellFormed hwell ht) fun c _ => hh.wellFormed c

theorem InOrder.delete (hh : InOrder env h) {depth c : Nat} (hr : h.delete env depth c = some r) : InOrder env r := by
  unfold Host.delete at hr
  split at hr
  · cases hr
  next conn hconn =>
  obtain ⟨t, ht, rfl⟩ := Option.map_eq_some_iff.mp hr
  have hwell := hh.wellFormed c conn hconn
  have hcall : perform (env.conn c) depth (.closeConnection .natural true) conn = some t := ht
  have hgone : t.conn.fd = -1 := (closeConnection_keeps hwell.closed ht).2.2
  refine ⟨?_, Assoc.forall_erase fun c _ => hh.wellFormed c, hh.socket, hh.epollFd⟩
  have hclosed := hh.accounted.call (kept_registered hconn) (perform_closes hwell hcall)
  rw [hgone] at hclosed
  unfold Host.closing
  rw [kept_erase]
  exact hclosed

end

end Fmxp.Server
