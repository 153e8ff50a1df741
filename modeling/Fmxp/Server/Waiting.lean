import Fmxp.Server.Numbering
import Fmxp.Server.Steps

/-! The frames that wait to be sent.

`sendResponse` builds a frame with the session id its connection has at that moment, and the frame
waits, first for its worker and then in the command queue, until the epoll thread sends it. If the
connection draws its session id in between, the frame carries another. `SsidsCurrent` excludes
just this, and then every connection is given frames with its own session id (`reachable_ownSsid`). -/
namespace Fmxp.Server
open Transition

/-- The frames that wait to be sent on connection `c`. -/
def Loop.waiting (s : Loop) (c : Nat) : List Frame :=
  ((s.commandQueue ++ s.responding).filter fun cmd => cmd.connID = c).filterMap fun cmd => cmd.call.bind Call.frame

theorem Loop.mem_waiting {s : Loop} {c : Nat} {frame : Frame} :
    frame ∈ s.waiting c ↔
      ∃ cmd ∈ s.commandQueue ++ s.responding, cmd.connID = c ∧ cmd.call = some (.sendFrame frame) := by
  have hcall : ∀ cmd : ServerCommand, cmd.call.bind Call.frame = some frame ↔ cmd.call = some (.sendFrame frame) := by
    intro cmd
    rcases hcmd : cmd.call with _ | call
    · simp
    · cases call <;> simp [Call.frame]
  simp only [Loop.waiting, List.mem_filterMap, List.mem_filter, decide_eq_true_eq, hcall, and_assoc]

/-- This read completes a handshake that the connection accepts. -/
def Secures (env : Env) (s : Endpoint) (input : Recv) (now : UInt32) : Prop :=
  s.conn.state = .handshake ∧ input.fin = .again ∧
    match (frameFramer env.evp s.conn.maxFrameSize false []).next (s.conn.inFrameBuffer ++ input.bytes) with
    | .item frame _ => (acceptedKey env.rsa frame.data s.conn.rsaPrivKey now).isSome
    | _ => False

instance (env : Env) (s : Endpoint) (input : Recv) (now : UInt32) : Decidable (Secures env s input now) := by
  unfold Secures
  split <;> infer_instance

/-- When a connection draws its session id, every frame that waits for it carries that id. -/
def SsidsCurrent (env : LoopEnv) (s : Loop) : LoopEvent → Prop
  | .event input now => ∀ e ∈ s.events.head?, ∀ c ∈ s.fdToId.lookup e.fd, ∀ conn ∈ s.connections.lookup c,
      e.hup = false → e.readable = true → Secures (env.conn c) conn input now →
      ∀ frame ∈ s.waiting c, frame.ssid = (env.conn c).rand64
  | _ => True

instance (env : LoopEnv) (s : Loop) (event : LoopEvent) : Decidable (SsidsCurrent env s event) :=
  match event with
  | .event input now => inferInstanceAs (Decidable (∀ e ∈ s.events.head?, ∀ c ∈ s.fdToId.lookup e.fd,
      ∀ conn ∈ s.connections.lookup c, e.hup = false → e.readable = true → Secures (env.conn c) conn input now →
      ∀ frame ∈ s.waiting c, frame.ssid = (env.conn c).rand64))
  | .wait _ | .accept _ | .accepted | .command | .drained | .respond .. | .serverPush .. | .push _ |
      .closeConnection _ =>
    .isTrue trivial

/-! ### One connection -/

/-- A read that does not end in `EAGAIN` closes the connection. -/
theorem readFd_ended {env : Env} {depth : Nat} {input : Recv} {now : UInt32} {r : Except Exn Bool} {s t : Endpoint}
    (hs : s.conn.state = .closed → s.conn.fd = -1) (hfin : input.fin ≠ .again)
    (h : readFd env depth input now s = some (r, t)) : t.conn.state = .closed := by
  have hclose : ∀ {reason} {buffer : Bytes}, (closeConnection env depth reason true (s.setBuffer buffer)).map
      (Prod.mk (Except.ok (ε := Exn) false)) = some (r, t) → t.conn.state = .closed := by
    intro reason buffer hmap
    obtain ⟨u, hu, heq⟩ := Option.map_eq_some_iff.mp hmap
    cases heq
    exact (closeConnection_keeps (s := s.setBuffer buffer) hs hu).2.1
  unfold readFd at h
  by_cases hfd : s.conn.fd = -1
  · rw [if_pos hfd] at h
    exact hclose h
  · cases hend : input.fin with
    | again => exact absurd hend hfin
    | disconnect =>
      simp only [if_neg hfd, hend] at h
      exact hclose h
    | error =>
      simp only [if_neg hfd, hend] at h
      exact hclose h

/-- A connection keeps its key and its session id, except when it draws one. -/
theorem perform_ssid {env : Env} {depth : Nat} {call : Call} {s t : Endpoint} (hwf : WellFormed env s)
    (h : perform env depth call s = some t) :
    (t.conn.aesKey = s.conn.aesKey ∧ t.conn.ssid = s.conn.ssid) ∨
      ∃ input now, call = .readFd input now ∧ Secures env s input now ∧ t.conn.ssid = env.rand64 := by
  cases call with
  | readFd input now =>
    obtain ⟨⟨r, u⟩, hread, rfl⟩ := Option.map_eq_some_iff.mp h
    obtain ⟨_, heffect⟩ := readFd_cases hwf.closed hread
    cases heffect with
    | quiet buffer hkeeps => exact .inl ⟨hkeeps.aesKey, hkeeps.ssid⟩
    | secured frame rest key _ hstate hnext hkey hset =>
      obtain ⟨v, hkeeps, _, rfl⟩ := setAesKey_keeps (s := s.setBuffer rest) hwf.closed hset
      refine .inr ⟨input, now, rfl, ⟨hstate, ?_, ?_⟩, hkeeps.ssid⟩
      · by_contra hfin
        cases readFd_ended hwf.closed hfin hread
      · rw [hnext]
        exact Option.isSome_iff_exists.mpr ⟨key, hkey⟩
    | delivered frames rest _ _ _ hkeeps => exact .inl ⟨hkeeps.aesKey, hkeeps.ssid⟩
  | sendFrame frame =>
    have hkeeps := (sendFrame_keeps hwf.closed h).1
    exact .inl ⟨hkeeps.aesKey, hkeeps.ssid⟩
  | closeConnection reason invokeOnClose =>
    have hkeeps := (closeConnection_keeps hwf.closed h).1
    exact .inl ⟨hkeeps.aesKey, hkeeps.ssid⟩
  | setOnClose =>
    cases h
    exact .inl ⟨rfl, rfl⟩

/-! ### Every run -/

variable {env : LoopEnv} {depth : Nat} {event : LoopEvent} {s t : Loop}

/-- Every frame that waits for a registered connection carries its session id, once there is a key. -/
def Loop.Addressed (s : Loop) : Prop :=
  ∀ c conn, s.connections.lookup c = some conn → conn.conn.aesKey ≠ [] →
    ∀ frame ∈ s.waiting c, frame.ssid = conn.conn.ssid

/-- A step adds no waiting frame but one that is built from its connection. -/
theorem Step.waiting (hs : s.Registered env) (h : Step env depth s event t) {c : Nat} {frame : Frame}
    (hframe : frame ∈ t.waiting c) :
    frame ∈ s.waiting c ∨
      ∃ conn, s.connections.lookup c = some conn ∧ frame.ssid = conn.conn.ssid ∧ t.connections = s.connections := by
  obtain ⟨cmd, hmem, hc, hcall⟩ := Loop.mem_waiting.mp hframe
  have hold : cmd ∈ s.commandQueue ++ s.responding → frame ∈ s.waiting c :=
    fun hmem => Loop.mem_waiting.mpr ⟨cmd, hmem, hc, hcall⟩
  have hresponse : ∀ {resp}, cmd ∈ (s.sendResponse resp).commandQueue ++ (s.sendResponse resp).responding →
      cmd ∈ s.commandQueue ++ s.responding ∨ ∃ conn, s.connections.lookup c = some conn ∧
        frame.ssid = conn.conn.ssid ∧ (s.sendResponse resp).connections = s.connections := by
    intro resp hmem
    unfold Loop.sendResponse at hmem ⊢
    split at hmem
    · exact .inl hmem
    · next conn hconn =>
      simp only [List.mem_append, List.mem_singleton] at hmem ⊢
      rcases hmem with hmem | hmem | rfl
      · exact .inl (.inl hmem)
      · exact .inl (.inr hmem)
      · cases hcall
        exact .inr ⟨conn, hc ▸ hconn, rfl, trivial⟩
  cases h with
  | wait | wake | listen | accept | accepted | drained => exact .inl (hold hmem)
  | @event input now e rest r u _ _ _ _ hu =>
    obtain ⟨rfl, heffect⟩ := handleEvent_effect (by exact fun _ _ hconn => hs.wellFormed hconn) hu
    have hsame : u.commandQueue = s.commandQueue ∧ u.responding = s.responding := by
      cases heffect with
      | ignored ht => exact ⟨by rw [ht], by rw [ht]⟩
      | dropped _ _ hdeleted | readDropped _ _ _ _ hdeleted =>
        obtain ⟨v, _, rfl⟩ := hdeleted
        exact ⟨rfl, rfl⟩
      | read _ _ _ _ _ ht => exact ⟨by rw [ht]; rfl, by rw [ht]; rfl⟩
    have hmem' : cmd ∈ u.commandQueue ++ u.responding := hmem
    rw [hsame.1, hsame.2] at hmem'
    exact .inl (hold hmem')
  | @command cmd' rest r u _ hqueue hu =>
    have hsame : (Loop.after (r, u)).commandQueue = rest ∧ (Loop.after (r, u)).responding = s.responding := by
      cases handleCommand_effect hu <;> exact ⟨rfl, rfl⟩
    rw [hsame.1, hsame.2] at hmem
    refine .inl (hold ?_)
    rw [hqueue]
    exact List.mem_cons_of_mem cmd' hmem
  | respond => exact (hresponse hmem).imp_left hold
  | serverPush => exact (hresponse hmem).imp_left hold
  | @push cmd' hcmd' =>
    have hmem' : cmd ∈ (s.commandQueue ++ [cmd']) ++ s.responding.erase cmd' := hmem
    simp only [List.mem_append, List.mem_singleton] at hmem'
    refine .inl (hold (List.mem_append.mpr ?_))
    rcases hmem' with (hmem' | rfl) | hmem'
    · exact .inl hmem'
    · exact .inr hcmd'
    · exact .inr (List.mem_of_mem_erase hmem')
  | @closeConnection connID =>
    have hmem' : cmd ∈ (s.commandQueue ++ [⟨.close, connID, none⟩]) ++ s.responding := hmem
    simp only [List.mem_append, List.mem_singleton] at hmem'
    refine .inl ?_
    rcases hmem' with (hmem' | rfl) | hmem'
    · exact hold (List.mem_append_left _ hmem')
    · cases hcall
    · exact hold (List.mem_append_right _ hmem')

theorem Step.addressed (hregistered : s.Registered env) (hs : s.Addressed) (hrule : SsidsCurrent env s event)
    (h : Step env depth s event t) : t.Addressed := by
  -- The frames that waited before, for the connections as they are now.
  have hbefore : ∀ c conn, t.connections.lookup c = some conn → conn.conn.aesKey ≠ [] →
      ∀ frame ∈ s.waiting c, frame.ssid = conn.conn.ssid := by
    refine (h.effect hregistered).registered (fun c conn call u hcalls hconn hu hkey => ?_)
      (fun _ _ _ hkey => absurd rfl hkey) hs
    rcases perform_ssid (hregistered.wellFormed hconn) hu with ⟨hsame, hssid⟩ | ⟨input, now, rfl, hsecures, hdrawn⟩
    · rw [hssid]
      exact hs c conn hconn (hsame ▸ hkey)
    · rw [hdrawn]
      cases hcalls with
      | read hevents hmapped hhup hreadable =>
        exact hrule _ (by rw [hevents]; rfl) c hmapped conn hconn hhup hreadable hsecures
      | command _ _ hcall => rcases ServerCommand.call_cases hcall with ⟨_, _, hc⟩ | hc <;> cases hc
  intro c conn hconn hkey frame hframe
  rcases h.waiting hregistered hframe with hold | ⟨conn', hconn', hssid, hsame⟩
  · exact hbefore c conn hconn hkey frame hold
  · rw [hsame, hconn'] at hconn
    cases hconn
    exact hssid

/-- The calls of a step give every connection frames with its own session id. -/
theorem Calls.ownSsid {c : Nat} {call : Call} {conn : Endpoint} (hs : s.Addressed) (h : Calls s c event call)
    (hconn : s.connections.lookup c = some conn) : OwnSsid conn call := by
  intro hkey frame hframe
  cases h with
  | read => cases hframe
  | command hqueue hc hcmd =>
    rcases ServerCommand.call_cases hcmd with ⟨frame', _, rfl⟩ | rfl
    · cases hframe
      refine hs c conn hconn hkey frame (Loop.mem_waiting.mpr ⟨_, ?_, hc, hcmd⟩)
      rw [hqueue]
      exact List.mem_cons_self ..
    · cases hframe

theorem reachable_addressed (h : Reachable ((epollLoop env).under (SsidsCurrent env)) s) : s.Addressed := by
  induction h with
  | init hs =>
    obtain ⟨connCount, rfl⟩ := hs
    exact fun c conn hconn => (by cases hconn)
  | step hs hstep ih =>
    obtain ⟨hrule, depth, hperform⟩ := hstep
    exact (perform_step hperform).2.addressed (reachable_each hs.of_under).registered ih hrule

/-- **Every connection is given frames with its own session id**, in every run in which no frame waits
for it with another when it draws one. -/
theorem reachable_ownSsid (h : Reachable ((epollLoop env).under (SsidsCurrent env)) s) :
    s.Each fun c conn => Reachable ((lifecycle (env.conn c)).under OwnSsid) conn := by
  induction h with
  | init hs =>
    obtain ⟨connCount, rfl⟩ := hs
    exact ⟨fun c conn hconn => (by cases hconn), fun conn hconn => (by cases hconn)⟩
  | step hs hstep ih =>
    obtain ⟨_, depth, hperform⟩ := hstep
    have haddressed := reachable_addressed hs
    refine ((perform_step hperform).2.effect (reachable_each hs.of_under).registered).each ?_ ?_ ?_ ih
    · exact fun _ _ _ _ hcalls hconn hlife hu => .step hlife ⟨hcalls.ownSsid haddressed hconn, depth, hu⟩
    · exact fun _ _ _ hlife hu => .step hlife ⟨fun _ _ hframe => (by cases hframe), depth, hu⟩
    · exact fun _ _ hfree => .init (env.accepts_fresh hfree.1 _)

end Fmxp.Server
