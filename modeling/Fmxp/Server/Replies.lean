import Fmxp.Server.Acts
import Fmxp.Server.Isolation

/-! Where the responses go.

A worker that responds names the connection its request came from by id; the epoll thread looks
the connection up again when it sends. Descriptors are used again, ids are not while the counter
does not go round, so a connection that is found is the one the request was read from: what is
sent for the response goes to the descriptor the request arrived on, or nowhere if that has been
closed (`response_delivered`). `Replying` is a server that remembers on which descriptor each
request arrived, and which command each response was made. -/
namespace Fmxp.Server
open Transition

structure Replying where
  loop : Loop
  arrivals : List (Request × Int) := []
  answers : List (Request × ServerCommand) := []

/-- The descriptor of the connection that the next event is looked up for. -/
def Loop.hearing (s : Loop) : Int :=
  (s.events.head?.bind fun e => (s.fdToId.lookup e.fd).bind fun c =>
    (s.connections.lookup c).map fun conn => conn.conn.fd).getD (-1)

/-- The commands that a call of `respond` has made. -/
def answered (event : LoopEvent) (s t : Loop) : List (Request × ServerCommand) :=
  match event with
  | .respond request _ _ => (t.responding.drop s.responding.length).map (Prod.mk request)
  | _ => []

def Replying.perform (env : LoopEnv) (depth : Nat) (event : LoopEvent) (q : Replying) : Option Replying :=
  (q.loop.perform env depth event).map fun t => {
    loop := t
    arrivals := q.arrivals ++ (t.requests.drop q.loop.requests.length).map fun request => (request, q.loop.hearing)
    answers := q.answers ++ answered event q.loop t}

def replying (env : LoopEnv) : System Replying LoopEvent where
  init := fun q => q.loop.Started ∧ q.arrivals = [] ∧ q.answers = []
  step := fun q event r => ∃ depth, q.perform env depth event = some r

/-- The connections are fewer than the counter counts. -/
def FewAccepts (q : Replying) : LoopEvent → Prop
  | .accept _ => q.loop.connCount.toNat + 1 < 2 ^ 64
  | _ => True

instance (q : Replying) (event : LoopEvent) : Decidable (FewAccepts q event) := by
  unfold FewAccepts
  split <;> infer_instance

/-! ### What a connection writes -/

section
variable {env : Env} {given : Option Frame} {s t u : Endpoint}

/-- `t` is `s` after what has written to the descriptor of `s` alone, while it was open. -/
structure Writes (s t : Endpoint) : Prop where
  connId : t.conn.connId = s.conn.connId
  fd : t.conn.fd = s.conn.fd ∨ t.conn.fd = -1
  log : ∃ outs, t.log = s.log ++ outs ∧ ∀ fd bytes, .wrote fd bytes ∈ outs → fd = s.conn.fd ∧ fd ≠ -1

theorem Writes.of_log (outs : List Output) (hconnId : t.conn.connId = s.conn.connId)
    (hfd : t.conn.fd = s.conn.fd ∨ t.conn.fd = -1) (hlog : t.log = s.log ++ outs)
    (houts : ∀ fd bytes, .wrote fd bytes ∉ outs) : Writes s t :=
  ⟨hconnId, hfd, outs, hlog, fun fd bytes hmem => absurd hmem (houts fd bytes)⟩

theorem Writes.trans (h : Writes s t) (h' : Writes t u) : Writes s u := by
  obtain ⟨outs, hlog, hwrites⟩ := h.log
  obtain ⟨outs', hlog', hwrites'⟩ := h'.log
  refine ⟨h'.connId.trans h.connId, ?_, outs ++ outs', by rw [hlog', hlog, List.append_assoc], ?_⟩
  · rcases h'.fd with hfd | hgone
    · rw [hfd]
      exact h.fd
    · exact .inr hgone
  · intro fd bytes hmem
    rcases List.mem_append.mp hmem with hmem | hmem
    · exact hwrites fd bytes hmem
    · obtain ⟨hfd, hopen⟩ := hwrites' fd bytes hmem
      exact ⟨hfd.trans (h.fd.resolve_right fun hgone => hopen (hfd.trans hgone)), hopen⟩

theorem send_writes (env : Env) (rest : Bytes) (s : Endpoint) : Writes s (s.send env rest).2 := by
  unfold Endpoint.send
  split
  · exact .of_log [] rfl (.inl rfl) (List.append_nil _).symm fun _ _ hmem => by cases hmem
  next hfd =>
  split
  · exact .of_log [] rfl (.inl rfl) (List.append_nil _).symm fun _ _ hmem => by cases hmem
  · refine ⟨rfl, .inl rfl, _, rfl, fun fd bytes hmem => ?_⟩
    cases List.mem_singleton.mp hmem
    exact ⟨rfl, hfd⟩

theorem Act.writes (h : Act env given s t) : Writes s t := by
  have hquiet : ∀ {t} (o : Output), (∀ fd bytes, o ≠ .wrote fd bytes) → t.conn.connId = s.conn.connId →
      (t.conn.fd = s.conn.fd ∨ t.conn.fd = -1) → t.log = s.log ++ [o] → Writes s t := by
    intro t o ho hconnId hfd hlog
    exact .of_log [o] hconnId hfd hlog fun fd bytes hmem => ho fd bytes (List.mem_singleton.mp hmem).symm
  have hsame : ∀ {t}, t.conn.connId = s.conn.connId → t.conn.fd = s.conn.fd → t.log = s.log → Writes s t := by
    intro t hconnId hfd hlog
    exact .of_log [] hconnId (.inl hfd) (hlog.trans (List.append_nil _).symm) fun _ _ hmem => by cases hmem
  cases h with
  | encoded => exact hquiet _ (fun _ _ hc => by cases hc) rfl (.inl rfl) rfl
  | sent rest => exact send_writes env rest s
  | closedFd => exact hquiet (.closedFd s.conn.fd) (fun _ _ hc => by cases hc) rfl (.inr rfl) rfl
  | notified | secured | handed => exact hquiet _ (fun _ _ hc => by cases hc) rfl (.inl rfl) rfl
  | refused | closed | buffered | activated | callbackSet => exact hsame rfl rfl rfl

theorem perform_writes {depth : Nat} {call : Call} (hwf : WellFormed env s) (h : perform env depth call s = some t) :
    Writes s t := by
  have hnone : Writes s s := .of_log [] rfl (.inl rfl) (List.append_nil _).symm fun _ _ hmem => by cases hmem
  exact (perform_acts hwf h).keeps (fun _ _ hact hs => hs.trans hact.writes) hnone

/-- The connection has handed the request over. -/
def Endpoint.Took (s : Endpoint) (request : Request) : Prop :=
  ∃ ioFrame, .request ioFrame ∈ s.log ∧ request = .ofIOFrame ioFrame

theorem Writes.took {request : Request} (h : Writes s t) (hs : s.Took request) : t.Took request := by
  obtain ⟨ioFrame, hmem, heq⟩ := hs
  obtain ⟨outs, hlog, _⟩ := h.log
  exact ⟨ioFrame, hlog ▸ List.mem_append_left outs hmem, heq⟩

theorem mem_handed {request : Request} (h : request ∈ handed s t) :
    ∃ ioFrame, .request ioFrame ∈ t.log.drop s.log.length ∧ request = .ofIOFrame ioFrame := by
  obtain ⟨o, ho, hrequest⟩ := List.mem_filterMap.mp h
  cases o with
  | request ioFrame =>
    cases hrequest
    exact ⟨ioFrame, ho, rfl⟩
  | _ => cases hrequest

/-- The requests of a read have the connection's id, and paths that fit the format. -/
theorem handed_request {depth : Nat} {input : Recv} {now : UInt32} (hwf : WellFormed env s)
    (h : perform env depth (.readFd input now) s = some t) {request : Request} (hmem : request ∈ handed s t) :
    request.connID = s.conn.connId ∧ t.Took request ∧ request.path.length < 65536 := by
  obtain ⟨ioFrame, ho, rfl⟩ := mem_handed hmem
  have htook : t.Took (.ofIOFrame ioFrame) := ⟨ioFrame, List.mem_of_mem_drop ho, rfl⟩
  cases perform_effect hwf h with
  | quiet outs houts hlog =>
    rw [hlog, List.drop_left] at ho
    cases houts _ ho
  | secured key outs houts hlog =>
    rw [hlog, List.drop_left, List.mem_cons] at ho
    rcases ho with ho | ho
    · cases ho
    · cases houts _ ho
  | delivered input now frames rest outs hcall houts _ hdrain hlog =>
    cases hcall
    rw [hlog, List.append_assoc, List.drop_left, List.mem_append] at ho
    rcases ho with ho | ho
    · obtain ⟨frame, hframe, heq⟩ := List.mem_map.mp ho
      cases heq
      have hitem : frame ∈ ((s.conn.framer env.evp).drain (s.conn.inFrameBuffer ++ input.bytes)).items := by
        rw [hdrain]
        exact (acceptedFrames_isPrefix ..).subset hframe
      obtain ⟨raw, _, hdec⟩ := frameFramer_raw hitem
      obtain ⟨_, _, _, _, hpath⟩ := decodeFrame_ok_iff.mp hdec
      exact ⟨rfl, htook, hpath⟩
    · cases houts _ ho

end

/-! ### Every run -/

/-- The command sends a response to the request. -/
def Answers (request : Request) (cmd : ServerCommand) : Prop :=
  cmd.type = .send ∧ cmd.connID = request.connID ∧
    ∃ frame, cmd.frame = some frame ∧ frame.rid = request.rid ∧ frame.path = request.path

/-- The connection has taken the requests of its id that have arrived, on the descriptor it still
has, if any. -/
def Endpoint.Served (conn : Endpoint) (arrivals : List (Request × Int)) : Prop :=
  ∀ request fd, (request, fd) ∈ arrivals → request.connID = conn.conn.connId →
    conn.Took request ∧ (conn.conn.fd = fd ∨ conn.conn.fd = -1)

structure Replied (env : LoopEnv) (q : Replying) : Prop where
  registered : q.loop.Registered env
  requests : q.loop.requests = q.arrivals.map Prod.fst
  owns : ∀ c conn, q.loop.connections.lookup c = some conn →
    conn.conn.connId = c ∧ c ≤ q.loop.connCount.toNat ∧ conn.Served q.arrivals
  issued : ∀ request fd, (request, fd) ∈ q.arrivals →
    request.connID ≤ q.loop.connCount.toNat ∧ request.path.length < 65536
  answers : ∀ request cmd, (request, cmd) ∈ q.answers → (∃ fd, (request, fd) ∈ q.arrivals) ∧ Answers request cmd

section
variable {env : LoopEnv} {depth : Nat} {event : LoopEvent} {s t : Loop} {q r : Replying}

/-- The requests of a step come from one read. -/
theorem LoopEffect.newRequests (h : LoopEffect env depth event s t) :
    t.requests = s.requests ∨ ∃ c conn u input now, s.connections.lookup c = some conn ∧
      s.hearing = conn.conn.fd ∧ perform (env.conn c) depth (.readFd input now) conn = some u ∧
        t.requests = s.requests ++ handed conn u ∧ ∀ v, t.connections.lookup c = some v → v = u := by
  cases h with
  | quiet _ _ _ hrequests => exact .inl hrequests
  | event _ hevents _ _ heffect =>
    have hhearing : ∀ {fd c conn}, (∃ e rest, s.events = e :: rest ∧ e.fd = fd) → s.fdToId.lookup fd = some c →
        s.connections.lookup c = some conn → s.hearing = conn.conn.fd := by
      rintro fd c conn ⟨e, rest, hevents, rfl⟩ hmapped hconn
      simp only [Loop.hearing, hevents, List.head?_cons, Option.bind_some, hmapped, hconn, Option.map_some,
        Option.getD_some]
    cases heffect with
    | ignored ht =>
      subst ht
      exact .inl rfl
    | dropped _ _ hdeleted =>
      obtain ⟨v, _, rfl⟩ := hdeleted
      exact .inl rfl
    | read hfinds _ _ hread _ ht =>
      subst ht
      refine .inr ⟨_, _, _, _, _, hfinds.registered, hhearing ⟨_, _, hevents, rfl⟩ hfinds.mapped hfinds.registered,
        hread, rfl, fun v hv => ?_⟩
      exact Option.some.inj (hv.symm.trans (AList.lookup_insert _))
    | readDropped hfinds _ _ hread hdeleted =>
      obtain ⟨v, _, rfl⟩ := hdeleted
      refine .inr ⟨_, _, _, _, _, hfinds.registered, hhearing ⟨_, _, hevents, rfl⟩ hfinds.mapped hfinds.registered,
        hread, rfl, fun v hv => ?_⟩
      cases (AList.lookup_erase _ _).symm.trans hv
  | accept _ _ ht =>
    subst ht
    exact .inl rfl
  | command _ _ heffect ht =>
    subst ht
    have hsame : ∀ (r : Except Exn Unit) (u : Loop), (Loop.after (r, u)).requests = u.requests := by
      intro r u
      cases r <;> rfl
    rw [hsame]
    cases heffect <;> exact .inl rfl

theorem LoopEffect.connCount_le (h : LoopEffect env depth event s t)
    (hnext : ∀ clientFd, event = .accept clientFd → (s.connCount + 1).toNat = s.connCount.toNat + 1) :
    s.connCount.toNat ≤ t.connCount.toNat := by
  cases h with
  | quiet _ _ _ _ hcount => rw [hcount]
  | event _ _ _ _ heffect =>
    cases heffect with
    | ignored ht | read _ _ _ _ _ ht =>
      subst ht
      exact Nat.le_refl _
    | dropped _ _ hdeleted | readDropped _ _ _ _ hdeleted =>
      obtain ⟨v, _, rfl⟩ := hdeleted
      exact Nat.le_refl _
  | accept hevent _ ht =>
    subst ht
    show _ ≤ (s.connCount + 1).toNat
    rw [hnext _ hevent]
    exact Nat.le_succ _
  | command _ _ heffect ht =>
    subst ht
    have hsame : ∀ (r : Except Exn Unit) (u : Loop), (Loop.after (r, u)).connCount = u.connCount := by
      intro r u
      cases r <;> rfl
    rw [hsame]
    cases heffect <;> exact Nat.le_refl _

/-- A connection is registered under its id. -/
theorem reachable_connId (h : Reachable (epollLoop env) s) :
    ∀ c conn, s.connections.lookup c = some conn → conn.conn.connId = c := by
  induction h with
  | init hs =>
    obtain ⟨connCount, rfl⟩ := hs
    exact fun c conn hconn => by cases hconn
  | step hreach hstep ih =>
    obtain ⟨depth, hperform⟩ := hstep
    have hregistered := (reachable_each hreach).registered
    refine ((perform_step hperform).2.effect hregistered).registered ?_ (fun _ _ _ => rfl) ih
    intro c conn call u _ hconn hu
    exact (perform_writes (reachable_wellFormed (hregistered c conn hconn)) hu).connId.trans (ih c conn hconn)

/-- A step that leaves connection `c` as it is brings no request of it. -/
theorem LoopEffect.requests_same (hs : s.Registered env)
    (hids : ∀ c conn, s.connections.lookup c = some conn → conn.conn.connId = c) (h : LoopEffect env depth event s t)
    {request : Request} (hsame : t.connections.lookup request.connID = s.connections.lookup request.connID)
    (hmem : request ∈ t.requests) : request ∈ s.requests := by
  rcases h.newRequests with heq | ⟨c, conn, u, input, now, hconn, _, hread, heq, hleft⟩
  · rwa [heq] at hmem
  · rw [heq] at hmem
    rcases List.mem_append.mp hmem with hold | hnew
    · exact hold
    · obtain ⟨hid, _⟩ := handed_request (hs.wellFormed hconn) hread hnew
      obtain rfl : request.connID = c := hid.trans (hids c conn hconn)
      obtain rfl : conn = u := hleft conn (hsame.trans hconn)
      rw [handed, List.drop_length] at hnew
      cases hnew

theorem Step.accept_eq {clientFd : Int} (h : Step env depth s (.accept clientFd) t) : t = s.accept env clientFd := by
  cases h with
  | accept => rfl

/-- A call of `respond` makes a command that sends a response to its request. -/
theorem Step.answered (h : Step env depth s event t) {request : Request} {cmd : ServerCommand}
    (hmem : (request, cmd) ∈ answered event s t) : request ∈ s.requests ∧ Answers request cmd := by
  cases h with
  | respond hrequest =>
    obtain ⟨cmd', hcmd, heq⟩ := List.mem_map.mp hmem
    cases heq
    refine ⟨hrequest, ?_⟩
    unfold Loop.sendResponse at hcmd
    split at hcmd
    · rw [List.drop_length] at hcmd
      cases hcmd
    · rw [List.drop_left, List.mem_singleton] at hcmd
      subst hcmd
      exact ⟨rfl, rfl, _, rfl, rfl, rfl⟩
  | _ => cases hmem

/-- What a step adds to the arrivals: requests of one connection, which has taken them. -/
theorem Replied.arrived (hq : Replied env q) (heffect : LoopEffect env depth event q.loop t)
    {request : Request} {fd : Int} (hmem : (request, fd) ∈ q.arrivals ++
      (t.requests.drop q.loop.requests.length).map fun request => (request, q.loop.hearing)) :
    (request, fd) ∈ q.arrivals ∨
      (request.connID ≤ q.loop.connCount.toNat ∧ request.path.length < 65536 ∧
        ∀ conn, t.connections.lookup request.connID = some conn →
          conn.Took request ∧ (conn.conn.fd = fd ∨ conn.conn.fd = -1)) := by
  rcases List.mem_append.mp hmem with hmem | hmem
  · exact .inl hmem
  obtain ⟨request', hnew, heq⟩ := List.mem_map.mp hmem
  cases heq
  rcases heffect.newRequests with hsame | ⟨c, conn, u, input, now, hconn, hhearing, hread, hmore, hleft⟩
  · rw [hsame, List.drop_length] at hnew
    cases hnew
  · rw [hmore, List.drop_left] at hnew
    have hwf := hq.registered.wellFormed hconn
    obtain ⟨hown, htook, hpath⟩ := handed_request hwf hread hnew
    obtain ⟨hid, hle, _⟩ := hq.owns c conn hconn
    rw [hid] at hown
    subst hown
    refine .inr ⟨hle, hpath, fun v hv => ?_⟩
    rw [hleft v hv, hhearing]
    exact ⟨htook, (perform_writes hwf hread).fd⟩

theorem Replied.step (hq : Replied env q) (hrule : FewAccepts q event) (h : q.perform env depth event = some r) :
    Replied env r := by
  obtain ⟨t, ht, rfl⟩ := Option.map_eq_some_iff.mp h
  have hstep := (perform_step ht).2
  have heffect := hstep.effect hq.registered
  have hnext : ∀ clientFd, event = .accept clientFd → (q.loop.connCount + 1).toNat = q.loop.connCount.toNat + 1 := by
    rintro clientFd rfl
    have hfew : q.loop.connCount.toNat + 1 < 2 ^ 64 := hrule
    rw [UInt64.toNat_add]
    exact Nat.mod_eq_of_lt hfew
  have hcount := heffect.connCount_le hnext
  refine ⟨?_, ?_, ?_, fun request fd hmem => ?_, fun request cmd hmem => ?_⟩
  · refine heffect.registered (fun c conn call u _ hconn hu => ?_) (fun _ _ hfree => ?_) hq.registered
    · exact .step (hq.registered c conn hconn) ⟨depth, hu⟩
    · exact .init (env.accepts_fresh hfree.1 _)
  · have hmore : t.requests = q.loop.requests ++ t.requests.drop q.loop.requests.length := by
      rcases heffect.newRequests with hsame | ⟨_, _, _, _, _, _, _, _, hmore, _⟩
      · rw [hsame, List.drop_length, List.append_nil]
      · rw [hmore, List.drop_left]
    rw [List.map_append, List.map_map, ← hq.requests]
    exact hmore.trans (congrArg _ (List.map_id _).symm)
  · -- What has arrived before stays as it was, and what has just arrived is as `arrived` says.
    have hold : ∀ c conn, t.connections.lookup c = some conn →
        conn.conn.connId = c ∧ c ≤ t.connCount.toNat ∧ conn.Served q.arrivals := by
      refine heffect.registered (fun c conn call u _ hconn hu => ?_) (fun clientFd hevent _ => ?_)
        fun c conn hconn => ?_
      · obtain ⟨hid, hle, hserved⟩ := hq.owns c conn hconn
        have hwrites := perform_writes (hq.registered.wellFormed hconn) hu
        refine ⟨hwrites.connId.trans hid, hle.trans hcount, fun request fd hmem hc => ?_⟩
        obtain ⟨htook, hfd⟩ := hserved request fd hmem (hc.trans hwrites.connId)
        refine ⟨hwrites.took htook, ?_⟩
        rcases hwrites.fd with hsame | hgone
        · rw [hsame]
          exact hfd
        · exact .inr hgone
      · subst hevent
        rw [hstep.accept_eq]
        refine ⟨rfl, Nat.le_refl _, fun request fd hmem hc => ?_⟩
        -- No request has arrived under the new id.
        have hle := (hq.issued request fd hmem).1
        have hid : request.connID = (q.loop.connCount + 1).toNat := hc
        rw [hid, hnext clientFd rfl] at hle
        omega
      · obtain ⟨hid, hle, hserved⟩ := hq.owns c conn hconn
        exact ⟨hid, hle.trans hcount, hserved⟩
    intro c conn hconn
    obtain ⟨hid, hle, hserved⟩ := hold c conn hconn
    refine ⟨hid, hle, fun request fd hmem hc => ?_⟩
    rcases hq.arrived heffect hmem with hbefore | ⟨_, _, hnow⟩
    · exact hserved request fd hbefore hc
    · exact hnow conn (by rw [hc, hid]; exact hconn)
  · rcases hq.arrived heffect hmem with hbefore | ⟨hle, hpath, _⟩
    · obtain ⟨hle, hpath⟩ := hq.issued request fd hbefore
      exact ⟨hle.trans hcount, hpath⟩
    · exact ⟨hle.trans hcount, hpath⟩
  · rcases List.mem_append.mp hmem with hmem | hmem
    · obtain ⟨⟨fd, hfd⟩, hanswers⟩ := hq.answers request cmd hmem
      exact ⟨⟨fd, List.mem_append_left _ hfd⟩, hanswers⟩
    · obtain ⟨hrequest, hanswers⟩ := hstep.answered hmem
      rw [hq.requests] at hrequest
      obtain ⟨⟨request', fd⟩, hfd, heq⟩ := List.mem_map.mp hrequest
      cases heq
      exact ⟨⟨fd, List.mem_append_left _ hfd⟩, hanswers⟩

/-- Handling the command of a response: other connections are left alone, and what is written is
written by the connection that has taken the request, to an open descriptor on which it arrived. The
frame that is encoded decodes to nothing but a frame with the request's rid and path. -/
structure Delivered (env : LoopEnv) (request : Request) (frame : Frame) (arrivals : List (Request × Int))
    (s t : Loop) : Prop where
  others : ∀ c, c ≠ request.connID → t.connections.lookup c = s.connections.lookup c
  deleted : t.deleted = s.deleted
  missing : s.connections.lookup request.connID = none → t.connections.lookup request.connID = none
  sent : ∀ conn, s.connections.lookup request.connID = some conn → ∃ u outs,
    t.connections.lookup request.connID = some u ∧ u.log = conn.log ++ outs ∧
      (∀ fd bytes, .wrote fd bytes ∈ outs → conn.Took request ∧ (request, fd) ∈ arrivals ∧
        conn.conn.state ≠ .closed ∧ conn.conn.fd = fd) ∧
      ∀ raw, encodeFrame (env.conn request.connID).evp ((env.conn request.connID).iv conn.ivs) frame true
          conn.conn.aesKey conn.nextFid.conn.fid = .ok raw →
        outs.head? = some (.encoded conn.conn.aesKey raw) ∧
          ∀ f, decodeFrame (env.conn request.connID).evp raw true conn.conn.aesKey = .ok f →
            f.rid = request.rid ∧ f.path = request.path

theorem CommandEffect.delivered {request : Request} {cmd : ServerCommand} {frame : Frame} {fd : Int} {u : Loop}
    {result : Except Exn Unit} (hq : Replied env q) (harrived : (request, fd) ∈ q.arrivals)
    (hanswers : Answers request cmd) (hframe : cmd.frame = some frame)
    (hs : s.connections = q.loop.connections ∧ s.deleted = q.loop.deleted)
    (h : CommandEffect env depth cmd s result u) :
    Delivered env request frame q.arrivals q.loop (Loop.after (result, u)) := by
  obtain ⟨hsend, hid, frame', hframe', hrid, hpath⟩ := hanswers
  cases hframe.symm.trans hframe'
  have hcall : cmd.call = some (.sendFrame frame) := by simp only [ServerCommand.call, hsend, hframe, Option.map_some]
  cases h with
  | missing hnone =>
    rw [hid, hs.1] at hnone
    refine ⟨fun c _ => ?_, ?_, fun _ => ?_, fun conn hconn => ?_⟩
    · rw [after_connections, hs.1]
    · rw [after_deleted, hs.2]
    · rw [after_connections, hs.1]
      exact hnone
    · cases hnone.symm.trans hconn
  | frameless _ hnone => cases hcall.symm.trans hnone
  | @called conn v call hconn hcall' hu =>
    cases hcall.symm.trans hcall'
    rw [hid, hs.1] at hconn
    rw [hid] at hu ⊢
    have hwf := hq.registered.wellFormed hconn
    have hsent : sendFrame (env.conn request.connID) depth frame conn = some v := hu
    obtain ⟨outs, hlog, hwrites⟩ := (perform_writes hwf hu).log
    refine ⟨fun c hc => ?_, hs.2, fun hnone => ?_, fun conn' hconn' => ?_⟩
    · rw [← hs.1]
      exact AList.lookup_insert_ne hc
    · cases hconn.symm.trans hnone
    · cases hconn.symm.trans hconn'
      refine ⟨v, outs, AList.lookup_insert _, hlog, fun fd' bytes hmem => ?_, fun raw henc => ?_⟩
      · obtain ⟨hfd, hopen⟩ := hwrites fd' bytes hmem
        -- The descriptor is the one the request arrived on, since it has not been closed.
        obtain ⟨hid', _, hserved⟩ := hq.owns _ conn hconn
        obtain ⟨htook, hsame⟩ := hserved request fd harrived hid'.symm
        have hsame := hsame.resolve_right fun hgone => hopen (hfd.trans hgone)
        rw [hfd, hsame]
        exact ⟨htook, harrived, fun hclosed => hopen (hfd.trans (hwf.closed hclosed)), rfl⟩
      · obtain ⟨outs', hlog'⟩ := sendFrame_log hwf.closed henc hsent
        rw [hlog] at hlog'
        rw [List.append_cancel_left hlog']
        refine ⟨rfl, fun f hdec => ?_⟩
        obtain ⟨_, hrid', _, hpath'⟩ := decodeFrame_encoded henc hdec
        have hshort : frame.path.length < 65536 := by
          rw [hpath]
          exact (hq.issued request fd harrived).2
        exact ⟨hrid'.trans hrid, (hpath' hshort).trans hpath⟩

theorem reachable_replied (h : Reachable ((replying env).under FewAccepts) q) : Replied env q := by
  induction h with
  | @init q hq =>
    obtain ⟨⟨connCount, hloop⟩, harrivals, hanswers⟩ := hq
    refine ⟨fun c conn hconn => ?_, ?_, fun c conn hconn => ?_, fun request fd hmem => ?_, fun request cmd hmem => ?_⟩
    · rw [hloop] at hconn
      cases hconn
    · rw [hloop, harrivals]
      rfl
    · rw [hloop] at hconn
      cases hconn
    · rw [harrivals] at hmem
      cases hmem
    · rw [hanswers] at hmem
      cases hmem
  | step _ hstep ih =>
    obtain ⟨hrule, depth, hperform⟩ := hstep
    exact ih.step hrule hperform

/-- **Responses reach the right peer**: in every run with fewer accepts than the counter counts, when
the epoll thread handles a command that a call of `respond` has made, nothing is written but to
the descriptor the request arrived on, and nothing at all once that connection is closed or gone;
what is encoded carries the request's rid and path. -/
theorem response_delivered (h : Reachable ((replying env).under FewAccepts) q) {request : Request}
    {cmd : ServerCommand} {rest : List ServerCommand} (hanswer : (request, cmd) ∈ q.answers)
    (hqueue : q.loop.commandQueue = cmd :: rest) (hstep : (replying env).step q .command r) :
    ∃ frame, cmd.frame = some frame ∧ Delivered env request frame q.arrivals q.loop r.loop := by
  have hq := reachable_replied h
  obtain ⟨⟨fd, harrived⟩, hanswers⟩ := hq.answers request cmd hanswer
  obtain ⟨_, _, frame, hframe, _⟩ := id hanswers
  obtain ⟨depth, hperform⟩ := hstep
  obtain ⟨t, ht, rfl⟩ := Option.map_eq_some_iff.mp hperform
  refine ⟨frame, hframe, ?_⟩
  cases (perform_step ht).2 with
  | command _ hqueue' hu =>
    cases hqueue.symm.trans hqueue'
    have heffect := handleCommand_effect hu
    refine heffect.delivered hq harrived hanswers hframe ?_
    exact ⟨rfl, rfl⟩

end

/-- Two connections, on the descriptors 5 and 6, with a request each; the command for the second is the first to enter
the queue. -/
def twoRequests : List LoopEvent :=
  respondRun.take 9 ++ [.wait [⟨3, false, true, 0⟩], .event (.once []) 102, .accept 6, .accepted,
    .wait [⟨6, false, true, 2⟩], .event (.once (handshakeRaw 103)) 103, .wait [⟨6, false, true, 2⟩],
    .event (.once requestRaw) 104, .respond ⟨2, ascii ['/', 'p'], [1, 2], 2⟩ [4] STATUS_OK,
    .push ⟨.send, 2, some ⟨1, 2, 7, STATUS_OK, 0, ascii ['/', 'p'], [4]⟩⟩,
    .push ⟨.send, 1, some ⟨1, 2, 7, STATUS_OK, 0, ascii ['/', 'p'], [3]⟩⟩,
    .wait [⟨4, false, true, 0⟩], .event (.once []) 105]

/-- The second is answered on descriptor 6, and there alone. -/
theorem request_answered : ∃ q r request frame, (replying listening3).step q .command r ∧
    q.arrivals = [(⟨1, ascii ['/', 'p'], [1, 2], 2⟩, 5), (request, 6)] ∧ request.connID = 2 ∧
    Delivered listening3 request frame q.arrivals q.loop r.loop := by
  let request : Request := ⟨2, ascii ['/', 'p'], [1, 2], 2⟩
  let cmd : ServerCommand := ⟨.send, 2, some ⟨1, 2, 7, STATUS_OK, 0, ascii ['/', 'p'], [4]⟩⟩
  have hrun : (execute (guarded FewAccepts fun q event => q.perform listening3 3 event) twoRequests ⟨{}, [], []⟩).map
      (fun q => (q.arrivals, decide ((request, cmd) ∈ q.answers), q.loop.commandQueue,
        (q.perform listening3 3 .command).isSome)) =
      some ([(⟨1, ascii ['/', 'p'], [1, 2], 2⟩, 5), (request, 6)], true,
        [cmd, ⟨.send, 1, some ⟨1, 2, 7, STATUS_OK, 0, ascii ['/', 'p'], [3]⟩⟩], true) := by
    decide +kernel
  obtain ⟨q, hq, hresult⟩ := Option.map_eq_some_iff.mp hrun
  simp only [Prod.mk.injEq] at hresult
  obtain ⟨harrivals, hanswers, hqueue, hsome⟩ := hresult
  obtain ⟨r, hr⟩ := Option.isSome_iff_exists.mp hsome
  have hreach : Reachable ((replying listening3).under FewAccepts) q :=
    Reachable.execute (fun _ _ _ _ => guarded_step fun _ _ h => ⟨3, h⟩) (.init ⟨⟨0, rfl⟩, rfl, rfl⟩) hq
  obtain ⟨frame, _, hdelivered⟩ := response_delivered hreach (of_decide_eq_true hanswers) hqueue ⟨3, hr⟩
  exact ⟨q, r, request, frame, ⟨3, hr⟩, harrivals, rfl, hdelivered⟩

end Fmxp.Server
