import Fmxp.Server.Isolation
import Fmxp.Server.Replies
import Fmxp.Server.Segmentation
import Fmxp.Server.Waiting

/-! The end of a client's stream.

A client writes its last frames and closes its socket. Bytes and end arrive in that order, at any
time: between two wake-ups, between a wake-up and the read it leads to, or in the middle of that
read. The server has two ways to notice the end, `EPOLLRDHUP` and a `recv` that returns 0, and both
drop the connection without parsing what has arrived with it (`unread_lost`). If nothing waits to be
parsed when the end arrives, every frame has been handed over before (`requests_before_drop`). -/
namespace Fmxp.Server
open Transition Framing

/-- A server and the peer of one of its connections. `queued` is the socket's receive buffer,
`event` what `epoll_wait` has reported for the socket, `reading` what a call of `readFd` that is
under way has received; `before` are the requests of earlier, `written` those of the stream. -/
structure PeerClose where
  loop : Loop
  connId : Nat
  fd : Int
  before : List Frame
  written : List Frame
  inFlight : Bytes
  queued : Bytes := []
  ended : Bool := false
  event : Option EpollEvent := none
  reading : Option (List Bytes) := none

inductive PeerEvent where
  | arrive (n : Nat)
  | finish
  | wait
  | wake
  | recv (n : Nat)
  | handled (now : UInt32)
  | elsewhere (t : Loop)

/-- What has arrived and is in no buffer of the connection. -/
def PeerClose.unread (q : PeerClose) : Bytes := (q.reading.getD []).flatten ++ q.queued

/-- The handling of an event ends. -/
def PeerClose.after (q : PeerClose) (r : Except Exn Unit × Loop) : PeerClose :=
  {q with loop := Loop.after r, event := none, reading := none}

/-- Until the connection is dropped. -/
def PeerClose.perform (env : LoopEnv) (depth : Nat) (event : PeerEvent) (q : PeerClose) : Option PeerClose :=
  if (q.loop.connections.lookup q.connId).isNone then none
  else match event with
    | .arrive n => some {q with inFlight := q.inFlight.drop n, queued := q.queued ++ q.inFlight.take n}
    | .finish => if q.inFlight = [] then some {q with ended := true} else none
    | .wait =>
      if q.event = none ∧ (q.queued ≠ [] ∨ q.ended = true) then
        some {q with event := some ⟨q.fd, q.ended, true, q.connId⟩}
      else none
    | .wake =>
      match q.event, q.reading with
      | some e, none =>
        if e.hup then (q.loop.handleEvent env depth e ⟨[], .again⟩ 0).map q.after
        else some {q with reading := some []}
      | _, _ => none
    | .recv n =>
      match q.reading with
      | some chunks =>
        if 0 < n ∧ n ≤ 8192 ∧ n ≤ q.queued.length then
          some {q with reading := some (chunks ++ [q.queued.take n]), queued := q.queued.drop n}
        else none
      | none => none
    | .handled now =>
      match q.event, q.reading with
      | some e, some chunks =>
        if q.queued = [] then
          (q.loop.handleEvent env depth e ⟨chunks, if q.ended then .disconnect else .again⟩ now).map q.after
        else none
      | _, _ => none
    | .elsewhere _ => none

/-- Whatever the rest of the server does, it leaves of the connection all but the frames it sends. -/
structure PeerClose.Elsewhere (env : LoopEnv) (q : PeerClose) (t : Loop) : Prop where
  registered : t.Registered env
  mapped : t.fdToId.lookup q.fd = q.loop.fdToId.lookup q.fd
  conn : ∃ conn conn', q.loop.connections.lookup q.connId = some conn ∧
    t.connections.lookup q.connId = some conn' ∧ conn'.conn = {conn.conn with fid := conn'.conn.fid} ∧
      requests conn'.log = requests conn.log

/-- An active connection, and a stream of complete frames that it takes. -/
structure PeerClose.Fresh (env : LoopEnv) (q : PeerClose) : Prop where
  registered : q.loop.Registered env
  fd : 0 ≤ q.fd
  mapped : q.loop.fdToId.lookup q.fd = some q.connId
  conn : ∃ conn, q.loop.connections.lookup q.connId = some conn ∧ conn.conn.state = .active ∧
    conn.conn.connId = q.connId ∧ conn.conn.fd = q.fd ∧ requests conn.log = q.before ∧
      conn.conn.accepted q.written = q.written ∧
      (conn.conn.framer (env.conn q.connId).evp).drain (conn.conn.inFrameBuffer ++ q.inFlight) = ⟨q.written, [], none⟩
  idle : q.queued = [] ∧ q.ended = false ∧ q.event = none ∧ q.reading = none

def peerClose (env : LoopEnv) : System PeerClose PeerEvent where
  init := PeerClose.Fresh env
  step := fun q event r => (∃ depth, q.perform env depth event = some r) ∨
    ∃ t, event = .elsewhere t ∧ q.Elsewhere env t ∧ r = {q with loop := t}

/-- When the end of the stream arrives, nothing is unread and the buffer holds no complete frame. -/
def EndsRead (env : LoopEnv) (q : PeerClose) : PeerEvent → Prop
  | .finish => q.unread = [] ∧ ∀ conn ∈ q.loop.connections.lookup q.connId,
      ((conn.conn.framer (env.conn q.connId).evp).drain conn.conn.inFrameBuffer).items = []
  | _ => True

/-! ### One step -/

/-- Without new bytes and without a complete frame in the buffer a read hands nothing over. -/
theorem readFd_nothing {env : Env} {depth : Nat} {input : Recv} {now : UInt32} {s t : Endpoint}
    (hwf : WellFormed env s) (hbytes : input.bytes = [])
    (hnone : ((s.conn.framer env.evp).drain s.conn.inFrameBuffer).items = [])
    (h : perform env depth (.readFd input now) s = some t) : requests t.log = requests s.log := by
  rcases (perform_effect hwf h).newRequests with hsame | ⟨input', now', frames, rest, hcall, _, hdrain, hmore⟩
  · exact hsame
  · cases hcall
    rw [hbytes, List.append_nil] at hdrain
    rw [hdrain] at hnone
    rw [hmore, show frames = [] from hnone]
    exact List.append_nil _

variable {env : LoopEnv} {depth : Nat}

/-- A step of the loop that is not about the connection. -/
theorem Sound.elsewhere {q : PeerClose} {event : LoopEvent} {conn : Endpoint} {t : Loop} (hs : Sound env q.loop)
    (hconn : q.loop.connections.lookup q.connId = some conn) (hfd : conn.conn.fd = q.fd) (hopen : 0 ≤ q.fd)
    (hrule : Addressed q.loop event) (hconcerns : q.loop.concerns env event ≠ some q.connId)
    (h : q.loop.perform env depth event = some t) : q.Elsewhere env t := by
  obtain ⟨ht, hunchanged⟩ := perform_sound hs hrule h
  obtain ⟨hconn', hmapped⟩ := hunchanged q.connId hconcerns conn hconn
  refine ⟨ht.registered, ?_, conn, conn, hconn, hconn', rfl, rfl⟩
  rw [← hfd]
  exact hmapped (by omega)

/-! ### Every run -/

/-- The connection is registered, and `todo` is what is left of the stream. -/
structure Attends (env : LoopEnv) (q : PeerClose) (conn : Endpoint) (todo : List Frame) : Prop where
  mapped : q.loop.fdToId.lookup q.fd = some q.connId
  state : conn.conn.state = .active
  connId : conn.conn.connId = q.connId
  fd : conn.conn.fd = q.fd
  handed : requests conn.log ++ todo = q.before ++ q.written
  accepted : conn.conn.accepted todo = todo
  stream : (conn.conn.framer (env.conn q.connId).evp).drain
    (conn.conn.inFrameBuffer ++ (q.unread ++ q.inFlight)) = ⟨todo, [], none⟩

structure Receiving (env : LoopEnv) (q : PeerClose) : Prop where
  registered : q.loop.Registered env
  fd : 0 ≤ q.fd
  attends : ∀ conn, q.loop.connections.lookup q.connId = some conn → ∃ todo, Attends env q conn todo ∧
    (q.ended = true → todo = [])
  ended : q.ended = true → q.inFlight = [] ∧ q.unread = []
  event : ∀ e, q.event = some e → e.fd = q.fd ∧ e.readable = true ∧ (e.hup = true → q.ended = true)
  reading : q.reading.isSome → ∃ e, q.event = some e ∧ e.hup = false
  dropped : q.loop.connections.lookup q.connId = none →
    ∃ conn ∈ q.loop.deleted, conn.conn.connId = q.connId ∧ requests conn.log = q.before ++ q.written

variable {q r : PeerClose}

/-- Bytes move on towards the connection. -/
theorem Receiving.moved (hq : Receiving env q) {inFlight queued : Bytes} {ended : Bool} {event : Option EpollEvent}
    {reading : Option (List Bytes)}
    (hbytes : ((reading.getD []).flatten ++ queued) ++ inFlight = q.unread ++ q.inFlight)
    (hended : ended = true → q.ended = true ∨ (q.unread ++ q.inFlight = [] ∧
      ∀ conn, q.loop.connections.lookup q.connId = some conn →
        ((conn.conn.framer (env.conn q.connId).evp).drain conn.conn.inFrameBuffer).items = []))
    (hevent : ∀ e, event = some e → e.fd = q.fd ∧ e.readable = true ∧ (e.hup = true → ended = true))
    (hreading : reading.isSome → ∃ e, event = some e ∧ e.hup = false) :
    Receiving env
      {q with inFlight := inFlight, queued := queued, ended := ended, event := event, reading := reading} := by
  refine ⟨hq.registered, hq.fd, fun conn hconn => ?_, fun hend => ?_, hevent, hreading, hq.dropped⟩
  · obtain ⟨todo, hattends, htodo⟩ := hq.attends conn hconn
    refine ⟨todo, ⟨hattends.mapped, hattends.state, hattends.connId, hattends.fd, hattends.handed,
      hattends.accepted, ?_⟩, fun hend => ?_⟩
    · exact (congrArg _ (congrArg _ hbytes)).trans hattends.stream
    · rcases hended hend with hbefore | ⟨hnone, hitems⟩
      · exact htodo hbefore
      · -- What is left of the stream is in the buffer, and there is no frame in that.
        have hstream := hattends.stream
        rw [hnone, List.append_nil] at hstream
        have hnil := hitems conn hconn
        rw [hstream] at hnil
        exact hnil
  · have hnone : q.unread ++ q.inFlight = [] := by
      rcases hended hend with hbefore | ⟨hnone, _⟩
      · obtain ⟨hflight, hunread⟩ := hq.ended hbefore
        rw [hflight, hunread]
        rfl
      · exact hnone
    obtain ⟨hunread, hflight⟩ := List.append_eq_nil_iff.mp (hbytes.trans hnone)
    exact ⟨hflight, hunread⟩

/-- The frames of a read are taken, and the rest of the stream would be. -/
theorem accepted_split {F : Framer UInt8 Frame Refusal} {c : ClientConnection} {b x : Bytes} {todo : List Frame}
    (hall : c.accepted todo = todo) (hstream : F.drain (b ++ x) = ⟨todo, [], none⟩) :
    ∃ items rest todo', F.drain b = ⟨items, rest, none⟩ ∧ todo = items ++ todo' ∧ c.accepted items = items ∧
      F.drain (rest ++ x) = ⟨todo', [], none⟩ ∧
        acceptedFrames c.ssid (lastFid c.lastCliFid items) todo' = todo' := by
  have hbad : (F.drain b).bad = none := by
    by_contra hbad
    obtain ⟨e, he⟩ := Option.ne_none_iff_exists'.mp hbad
    rw [F.drain_append, he] at hstream
    cases congrArg Drained.bad hstream
  rw [F.drain_append_of_none hbad] at hstream
  obtain ⟨htodo, hrest, hgood⟩ := Drained.mk.inj hstream
  obtain ⟨hfresh, hssid⟩ := acceptedFrames_eq_self.mp hall
  rw [← htodo] at hfresh hssid
  obtain ⟨hfirst, hsecond⟩ := Fresh.append.mp hfresh
  refine ⟨(F.drain b).items, (F.drain b).rest, (F.drain ((F.drain b).rest ++ x)).items, ?_, htodo.symm, ?_, ?_, ?_⟩
  · rw [← hbad]
  · exact acceptedFrames_eq_self.mpr ⟨hfirst, fun f hf => hssid f (List.mem_append_left _ hf)⟩
  · rw [← hrest, ← hgood]
  · exact acceptedFrames_eq_self.mpr ⟨hsecond, fun f hf => hssid f (List.mem_append_right _ hf)⟩

/-- A read before the end hands over the frames it completes. -/
theorem Receiving.read (hq : Receiving env q) (hopen : q.ended = false) {conn : Endpoint}
    (hconn : q.loop.connections.lookup q.connId = some conn) {e : EpollEvent} (he : q.event = some e)
    (hhup : e.hup = false) {chunks : List Bytes} (hreading : q.reading = some chunks) (hqueued : q.queued = [])
    {now : UInt32} {p : Except Exn Unit × Loop}
    (h : q.loop.handleEvent env depth e ⟨chunks, .again⟩ now = some p) : Receiving env (q.after p) := by
  obtain ⟨hfd, hreadable, _⟩ := hq.event e he
  obtain ⟨todo, hattends, _⟩ := hq.attends conn hconn
  have hne : conn.conn.fd ≠ -1 := by
    have hpos := hq.fd
    rw [hattends.fd]
    omega
  have hstream := hattends.stream
  have hunread : q.unread = chunks.flatten := by
    rw [PeerClose.unread, hreading, hqueued]
    exact List.append_nil _
  rw [hunread, ← List.append_assoc] at hstream
  obtain ⟨items, rest, todo', hdrain, rfl, hitems, hlater, htodo'⟩ := accepted_split hattends.accepted hstream
  have hread := @readFd_accepted _ depth ⟨chunks, .again⟩ now _ _ _ hne hattends.state rfl hdrain
    hitems
  have hfinds : q.loop.Finds e.fd q.connId conn := ⟨hfd ▸ hattends.mapped, hconn⟩
  have hactive : ((conn.setBuffer rest).handOver items).conn.state = .active := hattends.state
  rw [handleEvent_read hfinds hhup hreadable hread (by rw [hactive]; decide)] at h
  cases h
  have hcall : perform (env.conn q.connId) depth (.readFd ⟨chunks, .again⟩ now) conn =
      some ((conn.setBuffer rest).handOver items) := Option.map_eq_some_iff.mpr ⟨_, hread, rfl⟩
  have hlife := (hq.registered q.connId conn hconn).step ⟨depth, hcall⟩
  refine ⟨Assoc.forall_insert hlife fun c _ => hq.registered c, hq.fd, fun conn' hconn' => ?_, fun hend => ?_,
    fun e he => (by cases he), fun hsome => (by cases hsome), fun hnone => ?_⟩
  · cases (AList.lookup_insert _).symm.trans hconn'
    refine ⟨todo', ⟨hattends.mapped, hactive, hattends.connId, hattends.fd, ?_, htodo', ?_⟩, fun hend => ?_⟩
    · have hmore : requests ((conn.setBuffer rest).handOver items).log = requests conn.log ++ items := by
        show requests (conn.log ++ _) = _
        rw [requests_append, requests_handOver]
      rw [hmore, List.append_assoc]
      exact hattends.handed
    · show (conn.conn.framer _).drain (rest ++ (([] ++ q.queued) ++ q.inFlight)) = _
      rw [hqueued]
      exact hlater
    · cases hopen.symm.trans hend
  · cases hopen.symm.trans hend
  · cases (AList.lookup_insert _).symm.trans hnone

/-- When the stream has ended, the connection is dropped, and everything has been handed over. -/
theorem Receiving.drop (hq : Receiving env q) (hended : q.ended = true) {conn : Endpoint}
    (hconn : q.loop.connections.lookup q.connId = some conn) {e : EpollEvent} (he : q.event = some e) {input : Recv}
    (hinput : e.hup = false → input.bytes = [] ∧ input.fin = .disconnect) {now : UInt32} {p : Except Exn Unit × Loop}
    (h : q.loop.handleEvent env depth e input now = some p) : Receiving env (q.after p) := by
  obtain ⟨hfd, _, _⟩ := hq.event e he
  obtain ⟨hflight, hunread⟩ := hq.ended hended
  have hqueued : q.queued = [] := (List.append_eq_nil_iff.mp hunread).2
  obtain ⟨todo, hattends, htodo⟩ := hq.attends conn hconn
  rw [htodo hended] at hattends
  have hwf := hq.registered.wellFormed hconn
  have hhanded : requests conn.log = q.before ++ q.written := (List.append_nil _).symm.trans hattends.handed
  have hfound : ∀ {c conn'}, q.loop.Finds e.fd c conn' → c = q.connId ∧ conn' = conn := by
    intro c conn' hfinds
    have hc : c = q.connId := Option.some.inj (hfinds.mapped.symm.trans (hfd ▸ hattends.mapped))
    subst hc
    exact ⟨rfl, Option.some.inj (hfinds.registered.symm.trans hconn)⟩
  obtain ⟨result, t⟩ := p
  obtain ⟨rfl, heffect⟩ := handleEvent_effect (fun _ _ hconn => hq.registered.wellFormed hconn) h
  have hregistered : t.Registered env := by
    rcases heffect.touches with rfl | ⟨_, _, _, htouches⟩
    · exact hq.registered
    · exact htouches.registered hq.registered
  -- The connection is deleted, after something that has handed nothing over.
  have hgone : ∀ {u : Endpoint} {s : Loop}, u.conn.connId = q.connId → requests u.log = q.before ++ q.written →
      (u.conn.state = .closed → u.conn.fd = -1) → Deleted env depth q.connId u s t →
      Receiving env (q.after (.ok (), t)) := by
    rintro u s hconnId hu hclosed ⟨v, hv, rfl⟩
    have hkeeps := (closeConnection_keeps hclosed hv).1
    refine ⟨hregistered, hq.fd, fun conn' hconn' => ?_, fun _ => ⟨hflight, hqueued⟩, fun e he => (by cases he),
      fun hsome => (by cases hsome), fun _ => ⟨v, List.mem_append_right _ (List.mem_singleton.mpr rfl),
        hkeeps.connId.trans hconnId, hkeeps.requests.trans hu⟩⟩
    cases (AList.lookup_erase _ _).symm.trans hconn'
  cases heffect with
  | ignored ht =>
    subst ht
    have hbytes : (([] : List Bytes).flatten ++ q.queued) ++ q.inFlight = q.unread ++ q.inFlight := by
      rw [hunread, hqueued]
      rfl
    exact @Receiving.moved env q hq q.inFlight q.queued q.ended none none hbytes .inl (fun e he => by cases he)
      fun hsome => by cases hsome
  | dropped hfinds _ hdeleted =>
    obtain ⟨rfl, rfl⟩ := hfound hfinds
    exact hgone hattends.connId hhanded hwf.closed hdeleted
  | read hfinds hhup _ hread hopen _ =>
    obtain ⟨rfl, rfl⟩ := hfound hfinds
    obtain ⟨⟨r, u⟩, hu, rfl⟩ := Option.map_eq_some_iff.mp hread
    exact absurd (readFd_ended hwf.closed (by rw [(hinput hhup).2]; decide) hu) hopen
  | readDropped hfinds hhup _ hread hdeleted =>
    obtain ⟨rfl, rfl⟩ := hfound hfinds
    have hstream := hattends.stream
    rw [hunread, hflight, List.append_nil, List.append_nil] at hstream
    have hsame := readFd_nothing hwf (hinput hhup).1 (by rw [hstream]) hread
    have hconnId := (perform_writes hwf hread).connId.trans hattends.connId
    exact hgone hconnId (hsame.trans hhanded) (perform_wellFormed hwf hread).closed hdeleted

theorem Receiving.elsewhere (hq : Receiving env q) {t : Loop} (h : q.Elsewhere env t) :
    Receiving env {q with loop := t} := by
  obtain ⟨conn, conn', hconn, hconn', hsame, hrequests⟩ := h.conn
  obtain ⟨todo, hattends, htodo⟩ := hq.attends conn hconn
  have hfields : conn'.conn.state = conn.conn.state ∧ conn'.conn.connId = conn.conn.connId ∧
      conn'.conn.fd = conn.conn.fd ∧ conn'.conn.accepted todo = conn.conn.accepted todo ∧
        conn'.conn.inFrameBuffer = conn.conn.inFrameBuffer ∧
        ∀ evp, conn'.conn.framer evp = conn.conn.framer evp := by
    rw [hsame]
    exact ⟨rfl, rfl, rfl, rfl, rfl, fun _ => rfl⟩
  obtain ⟨hstate, hconnId, hfd, haccepted, hbuffer, hframer⟩ := hfields
  refine ⟨h.registered, hq.fd, fun u hu => ?_, hq.ended, hq.event, hq.reading, fun hnone => ?_⟩
  · cases hconn'.symm.trans hu
    refine ⟨todo, ⟨h.mapped.trans hattends.mapped, hstate.trans hattends.state, hconnId.trans hattends.connId,
      hfd.trans hattends.fd, ?_, ?_, ?_⟩, htodo⟩
    · rw [hrequests]
      exact hattends.handed
    · exact haccepted.trans hattends.accepted
    · rw [hframer, hbuffer]
      exact hattends.stream
  · cases hconn'.symm.trans hnone

/-- One step, if the stream ends only when all of it has been read. -/
theorem Receiving.step (hq : Receiving env q) {event : PeerEvent} (hrule : EndsRead env q event)
    (h : q.perform env depth event = some r) : Receiving env r := by
  unfold PeerClose.perform at h
  split at h
  · cases h
  next hsome =>
  obtain ⟨conn, hconn⟩ : ∃ conn, q.loop.connections.lookup q.connId = some conn := by
    cases hlookup : q.loop.connections.lookup q.connId with
    | none => exact absurd (by rw [hlookup]; rfl) hsome
    | some conn => exact ⟨conn, rfl⟩
  cases event with
  | arrive n =>
    cases h
    refine hq.moved ?_ .inl hq.event hq.reading
    rw [PeerClose.unread, List.append_assoc, List.append_assoc, List.append_assoc, List.take_append_drop]
  | finish =>
    dsimp only at h
    split at h
    · next hflight =>
      cases h
      obtain ⟨hunread, hnone⟩ := hrule
      refine hq.moved rfl (fun _ => .inr ⟨?_, fun conn hconn => hnone conn hconn⟩) (fun e he => ?_) hq.reading
      · rw [hunread, hflight]
        rfl
      · obtain ⟨hfd, hreadable, _⟩ := hq.event e he
        exact ⟨hfd, hreadable, fun _ => rfl⟩
    · cases h
  | wait =>
    dsimp only at h
    split at h
    · next hidle =>
      cases h
      refine hq.moved rfl .inl (fun e he => ?_) fun hreading => ?_
      · cases he
        exact ⟨rfl, rfl, id⟩
      · obtain ⟨e, he, _⟩ := hq.reading hreading
        cases hidle.1.symm.trans he
    · cases h
  | wake =>
    dsimp only at h
    split at h
    · next e he hreading =>
      split at h
      · next hhup =>
        obtain ⟨p, hp, rfl⟩ := Option.map_eq_some_iff.mp h
        exact hq.drop ((hq.event e he).2.2 hhup) hconn he (fun hno => by rw [hno] at hhup; cases hhup) hp
      · next hhup =>
        cases h
        refine hq.moved ?_ .inl hq.event fun _ => ⟨e, he, Bool.eq_false_of_not_eq_true hhup⟩
        rw [PeerClose.unread, hreading]
        rfl
    · cases h
  | recv n =>
    dsimp only at h
    split at h
    · next chunks hreading =>
      split at h
      · cases h
        refine hq.moved ?_ .inl hq.event fun _ => hq.reading (by rw [hreading]; rfl)
        rw [PeerClose.unread, hreading]
        simp only [Option.getD_some, List.flatten_append, List.flatten_cons, List.flatten_nil, List.append_nil,
          List.append_assoc, List.take_append_drop]
      · cases h
    · cases h
  | handled now =>
    dsimp only at h
    split at h
    · next e chunks he hreading =>
      obtain ⟨e', he', hhup⟩ := hq.reading (by rw [hreading]; rfl)
      cases he.symm.trans he'
      split at h
      · next hqueued =>
        obtain ⟨p, hp, rfl⟩ := Option.map_eq_some_iff.mp h
        cases hended : q.ended with
        | false =>
          rw [hended] at hp
          exact hq.read hended hconn he hhup hreading hqueued hp
        | true =>
          rw [hended] at hp
          have hunread := (hq.ended hended).2
          rw [PeerClose.unread, hreading, hqueued, List.append_nil] at hunread
          refine hq.drop hended hconn he ?_ hp
          exact fun _ => ⟨hunread, rfl⟩
      · cases h
    · cases h
  | elsewhere => cases h

theorem PeerClose.Fresh.receiving (h : q.Fresh env) : Receiving env q := by
  obtain ⟨hqueued, hended, hevent, hreading⟩ := h.idle
  obtain ⟨conn, hconn, hstate, hconnId, hfd, hbefore, haccepted, hstream⟩ := h.conn
  refine ⟨h.registered, h.fd, fun conn' hconn' => ?_, fun hend => ?_, fun e he => ?_, fun hsome => ?_,
    fun hnone => ?_⟩
  · cases hconn.symm.trans hconn'
    refine ⟨q.written, ⟨h.mapped, hstate, hconnId, hfd, by rw [hbefore], haccepted, ?_⟩, fun hend => ?_⟩
    · rw [PeerClose.unread, hreading, hqueued]
      exact hstream
    · cases hended.symm.trans hend
  · cases hended.symm.trans hend
  · cases hevent.symm.trans he
  · rw [hreading] at hsome
    cases hsome
  · cases hconn.symm.trans hnone

/-- **No request is lost when the stream ends**, in every run in which it ends with nothing unread and
no complete frame in the buffer: what is dropped has handed over every frame of the stream, once and
in order. -/
theorem requests_before_drop (h : Reachable ((peerClose env).under (EndsRead env)) q)
    (hdropped : q.loop.connections.lookup q.connId = none) :
    ∃ conn ∈ q.loop.deleted, conn.conn.connId = q.connId ∧ requests conn.log = q.before ++ q.written := by
  have hq : Receiving env q := by
    refine h.invariant ?_ ?_
    · intro q hq
      exact PeerClose.Fresh.receiving hq
    · rintro q event r hq ⟨hrule, ⟨depth, hstep⟩ | ⟨t, rfl, helsewhere, rfl⟩⟩
      · exact hq.step hrule hstep
      · exact hq.elsewhere helsewhere
  exact hq.dropped hdropped

/-! ### One request before the end -/

instance (env : LoopEnv) (q : PeerClose) (event : PeerEvent) : Decidable (EndsRead env q event) :=
  match event with
  | .finish => inferInstanceAs (Decidable (_ ∧ ∀ conn ∈ q.loop.connections.lookup q.connId, _))
  | .arrive _ | .wait | .wake | .recv _ | .handled _ | .elsewhere _ => .isTrue trivial

/-- A server whose client on descriptor 5 has made its handshake. -/
def secured5 : Option Loop := execute (fun s event => s.perform listening3 3 event) (respondRun.take 6) {}

/-- That client writes a request. -/
def peer5 (s : Loop) : PeerClose :=
  {loop := s, connId := 1, fd := 5, before := [], written := [request7], inFlight := requestRaw}

def stream5 (conn : Endpoint) : Drained UInt8 Frame Refusal :=
  (conn.conn.framer quietEnv.evp).drain (conn.conn.inFrameBuffer ++ requestRaw)

theorem peer5_fresh {s : Loop} (h : secured5 = some s) : (peer5 s).Fresh listening3 := by
  have hfound : secured5.map (fun s => s.fdToId.lookup 5) = some (some 1) := by decide +kernel
  have hrun : secured5.map (fun s => (s.connections.lookup 1).map fun conn =>
      (conn.conn.state, conn.conn.connId, conn.conn.fd, requests conn.log)) = some (some (.active, 1, 5, [])) := by
    decide +kernel
  have hread : secured5.map (fun s => (s.connections.lookup 1).map fun conn =>
      (conn.conn.accepted [request7], (stream5 conn).items, (stream5 conn).rest, (stream5 conn).bad.isNone)) =
      some (some ([request7], [request7], [], true)) := by
    decide +kernel
  rw [h] at hfound hrun hread
  obtain ⟨conn, hconn, hfields⟩ := Option.map_eq_some_iff.mp (Option.some.inj hrun)
  rw [Option.map_some, hconn] at hread
  simp only [Option.map_some, Option.some.injEq, Prod.mk.injEq, Option.isNone_iff_eq_none] at hfields hread
  obtain ⟨hstate, hconnId, hfd, hrequests⟩ := hfields
  obtain ⟨haccepted, hitems, hrest, hbad⟩ := hread
  have hreach : Reachable (epollLoop listening3) s := Reachable.execute (fun _ _ _ _ h => ⟨3, h⟩) (.init ⟨0, rfl⟩) h
  refine ⟨(reachable_each hreach).registered, ?_, Option.some.inj hfound,
    ⟨conn, hconn, hstate, hconnId, hfd, hrequests, haccepted, ?_⟩, rfl, rfl, rfl, rfl⟩
  · exact (by decide : (0 : Int) ≤ 5)
  · exact congr (congr (congrArg Drained.mk hitems) hrest) hbad

/-- The request is read before the end of the stream arrives: when the connection is dropped, the request has been
handed over. -/
theorem request_before_drop : ∃ q : PeerClose, q.loop.connections.lookup q.connId = none ∧
    q.before ++ q.written = [request7] ∧
      ∃ conn ∈ q.loop.deleted, conn.conn.connId = q.connId ∧ requests conn.log = q.before ++ q.written := by
  have hrun : (secured5.bind fun s =>
      (execute (guarded (EndsRead listening3) fun q event => q.perform listening3 3 event)
      [.arrive requestRaw.length, .wait, .wake, .recv requestRaw.length, .handled 101, .finish, .wait, .wake]
      (peer5 s)).map fun q => (s, q)).map (fun (_, q) =>
        ((q.loop.connections.lookup q.connId).isNone, q.before ++ q.written)) = some (true, [request7]) := by
    decide +kernel
  obtain ⟨⟨s, q⟩, hpair, hresult⟩ := Option.map_eq_some_iff.mp hrun
  obtain ⟨s', hs, hrest⟩ := Option.bind_eq_some_iff.mp hpair
  obtain ⟨q', hq, hsame⟩ := Option.map_eq_some_iff.mp hrest
  cases hsame
  simp only [Prod.mk.injEq, Option.isNone_iff_eq_none] at hresult
  have hreach : Reachable ((peerClose listening3).under (EndsRead listening3)) q :=
    Reachable.execute (fun _ _ _ _ => guarded_step fun _ _ h => .inl ⟨3, h⟩) (.init (peer5_fresh hs)) hq
  exact ⟨q, hresult.1, hresult.2, requests_before_drop hreach hresult.1⟩

/-- **A request and the end of the stream: when both have arrived before the server looks, and when the end
arrives while the server is about to read the request, the connection is dropped and the request is lost.** -/
theorem unread_lost : ∃ s, (peer5 s).Fresh listening3 ∧
    ∀ events ∈ [[PeerEvent.arrive requestRaw.length, .finish, .wait, .wake],
      [.arrive requestRaw.length, .wait, .wake, .finish, .recv requestRaw.length, .handled 101]],
    ∃ q, Run (peerClose listening3) (peer5 s) events q ∧ q.loop.connections.lookup 1 = none ∧
      q.loop.deleted.map (fun conn => requests conn.log) = [[]] := by
  obtain ⟨s, hs⟩ : ∃ s, secured5 = some s := Option.isSome_iff_exists.mp (by decide +kernel)
  refine ⟨s, peer5_fresh hs, fun events hevents => ?_⟩
  have hrun : (secured5.bind fun s =>
      execute (fun q event => PeerClose.perform listening3 3 event q) events (peer5 s)).map
      (fun q => ((q.loop.connections.lookup 1).isNone, q.loop.deleted.map fun conn => requests conn.log)) =
        some (true, [[]]) := by
    simp only [List.mem_cons, List.not_mem_nil, or_false] at hevents
    rcases hevents with rfl | rfl <;> decide +kernel
  rw [hs] at hrun
  obtain ⟨q, hq, hresult⟩ := Option.map_eq_some_iff.mp hrun
  simp only [Prod.mk.injEq, Option.isNone_iff_eq_none] at hresult
  exact ⟨q, .of_execute (fun _ _ _ _ h => .inl ⟨3, h⟩) hq, hresult.1, hresult.2⟩

end Fmxp.Server
