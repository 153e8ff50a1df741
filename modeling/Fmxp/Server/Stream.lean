import Fmxp.Server.Attempts
import Fmxp.Server.Requests

/-! The stream a connection writes.

A frame that the socket takes only a part of is not resumed: `sendFrame` closes the connection, and the
close writes a farewell on the same socket first. So the stream stays a sequence of whole frames as long
as no frame breaks off in the middle (`stream_framed`), and a call that lets one break off and returns
has written something else behind it (`perform_breaks`). -/
namespace Fmxp.Server
open Transition Framing

/-- The calls that send and close. -/
def Call.sending : Call → Bool
  | .sendFrame _ | .closeConnection .. => true
  | _ => false

/-- A connection with a stored key. -/
structure Keyed (s : Endpoint) : Prop where
  key : s.conn.aesKey.length = 32
  closed : s.conn.state = .closed → s.conn.fd = -1

/-- Sending and closing on a connection with a stored key; what it does is logged from here on. -/
def sending (env : Env) : System Endpoint Call where
  init := fun s => Keyed s ∧ s.log = []
  step := fun s call t => call.sending = true ∧ ∃ depth, perform env depth call s = some t

/-- The size of the frame a call sends first: the encoder refuses a frame whose size is negative as an
`int`, and a farewell is sent in its place. -/
def firstSize (frame : Frame) : Nat := if 0 ≤ cInt frame.bodySize then wireSize frame else farewellSize

/-- No frame of the call breaks off in the middle. -/
def Uncut (env : Env) (s : Endpoint) : Call → Prop
  | .sendFrame frame => s.conn.fd ≠ -1 → Unbroken env.send s.sends (firstSize frame)
  | .closeConnection reason _ => s.conn.fd ≠ -1 → reason ≠ .natural → Unbroken env.send s.sends farewellSize
  | _ => True

variable {env : Env} {depth : Nat} {call : Call} {s t : Endpoint}

theorem Keyed.canSend (h : Keyed s) (hfd : s.conn.fd ≠ -1) : CanSend s :=
  ⟨fun hc => hfd (h.closed hc), hfd, h.key⟩

/-- A call that sends or closes keeps the key, and is made of acts. -/
theorem perform_keyed (hs : Keyed s) (hcall : call.sending = true) (h : perform env depth call s = some t) :
    Keyed t ∧ Keeps s t ∧ Acts env call.frame s t := by
  have hkeyed : Keeps s t → Settled s t → Keyed t := by
    intro hkeeps hsettled
    refine ⟨(congrArg List.length hkeeps.aesKey).trans hs.key, fun hc => ?_⟩
    rcases hsettled with ⟨hstate, hfd⟩ | ⟨_, hfd⟩
    · exact hfd.trans (hs.closed (hstate.symm.trans hc))
    · exact hfd
  cases call with
  | sendFrame frame =>
    obtain ⟨hkeeps, hsettled⟩ := sendFrame_keeps hs.closed h
    exact ⟨hkeyed hkeeps hsettled, hkeeps, (sendFrame_effect hs.closed h).acts (.given rfl)⟩
  | closeConnection reason invokeOnClose =>
    obtain ⟨hkeeps, hclosed⟩ := closeConnection_keeps hs.closed h
    exact ⟨hkeyed hkeeps (.inr hclosed), hkeeps, closeConnection_acts hs.closed h⟩
  | _ => cases hcall

/-- Without a descriptor nothing is written. -/
theorem Acts.detached {given : Option Frame} (h : Acts env given s t) (hfd : s.conn.fd = -1) :
    wire t.log = wire s.log := by
  refine (h.keeps (P := fun u => u.conn.fd = -1 ∧ wire u.log = wire s.log) ?_ ⟨hfd, rfl⟩).2
  intro u v hact ⟨hgone, hu⟩
  -- What is added to the log is no output of `send`.
  have hadded : ∀ o : Output, o.bytes = [] → wire (u.log ++ [o]) = wire s.log := by
    intro o ho
    rw [wire_append, hu]
    show wire s.log ++ (o.bytes ++ []) = _
    rw [ho, List.append_nil, List.append_nil]
  cases hact with
  | sent rest =>
    have hsame : (u.send env rest).2 = u := by simp only [Endpoint.send, if_pos hgone]
    rw [hsame]
    exact ⟨hgone, hu⟩
  | encoded _ _ => exact ⟨hgone, hadded _ rfl⟩
  | closedFd => exact ⟨rfl, hadded _ rfl⟩
  | notified reason => exact ⟨hgone, hadded _ rfl⟩
  | secured key _ _ _ => exact ⟨hgone, hadded _ rfl⟩
  | handed _ _ _ => exact ⟨hgone, hadded _ rfl⟩
  | refused | closed | buffered | activated | callbackSet => exact ⟨hgone, hu⟩

/-- A call none of whose frames breaks off adds whole frames to the stream. -/
theorem perform_whole (hs : Keyed s) (hwhole : WritesWhole s) (hrule : Uncut env s call) (hcall : call.sending = true)
    (h : perform env depth call s = some t) : WritesWhole t := by
  obtain ⟨_, hkeeps, hacts⟩ := perform_keyed hs hcall h
  by_cases hfd : s.conn.fd = -1
  · exact hwhole.keeps hkeeps (hacts.detached hfd)
  have hcan := hs.canSend hfd
  cases call with
  | sendFrame frame =>
    have hunbroken : Unbroken env.send s.sends (firstSize frame) := hrule hfd
    unfold firstSize at hunbroken
    split at hunbroken
    · next hsize =>
      exact sendFrame_whole (fun hu hnext hw hv => closeConnection_whole hu (by decide) hnext hw hv) hcan hsize
        hunbroken hwhole h
    · next hsize =>
      have hnext : WritesWhole s.nextFid := hwhole.keeps (Keeps.of_conn rfl rfl) rfl
      exact closeConnection_whole (s := s.nextFid) (hcan.of_conn rfl) (by decide) hunbroken hnext
        ((sendFrame_oversize env hcan.key hsize depth).symm.trans h)
  | closeConnection reason invokeOnClose =>
    by_cases hreason : reason = .natural
    · -- The peer is gone: the descriptor is closed and nothing is said.
      have hsilent : ∀ {n}, closeConnection env (n + 1) reason invokeOnClose s =
          some (s.shut reason invokeOnClose) := by
        intro n
        simp only [closeConnection, if_neg hcan.state, if_neg hfd, if_pos hreason]
        rfl
      cases depth with
      | zero => cases h
      | succ depth =>
        cases hsilent.symm.trans h
        exact hwhole.keeps hkeeps (shut_wire reason invokeOnClose s)
    · exact closeConnection_whole hcan hreason (hrule hfd hreason) hwhole h
  | _ => cases hcall

/-- A call that lets a frame break off, and returns, has written something behind it. -/
theorem perform_breaks (hs : Keyed s) (hrule : ¬ Uncut env s call) (h : perform env depth call s = some t) :
    BreaksOff s t := by
  cases call with
  | sendFrame frame =>
    obtain ⟨hfd, hbroken⟩ := Classical.not_imp.mp hrule
    have hcan := hs.canSend hfd
    unfold firstSize at hbroken
    split at hbroken
    · next hsize =>
      exact (sendFrame_writes (fun hu hv => closeConnection_writes hu (by decide) hv) hcan hsize h).breaks hbroken
    · next hsize =>
      exact (closeConnection_writes (s := s.nextFid) (hcan.of_conn rfl) (by decide)
        ((sendFrame_oversize env hcan.key hsize depth).symm.trans h)).breaks hbroken
  | closeConnection reason invokeOnClose =>
    obtain ⟨hfd, hrest⟩ := Classical.not_imp.mp hrule
    obtain ⟨hreason, hbroken⟩ := Classical.not_imp.mp hrest
    exact (closeConnection_writes (hs.canSend hfd) hreason h).breaks hbroken
  | _ => exact absurd trivial hrule

theorem reachable_whole (h : Reachable ((sending env).under (Uncut env)) s) : Keyed s ∧ WritesWhole s := by
  induction h with
  | @init s hs =>
    obtain ⟨hkeyed, hlog⟩ := hs
    refine ⟨hkeyed, ?_⟩
    rw [WritesWhole, hlog]
    exact .nil
  | step _ hstep ih =>
    obtain ⟨hrule, hcall, depth, hperform⟩ := hstep
    exact ⟨(perform_keyed ih.1 hcall hperform).1, perform_whole ih.1 ih.2 hrule hcall hperform⟩

/-- **The stream stays framed**, in every run none of whose frames breaks off in the middle: it is whole
frames the connection has encoded under its key, and at most one incomplete frame behind them. A call that
does let a frame break off, and returns, has written something else behind that part. -/
theorem stream_framed (h : Reachable ((sending env).under (Uncut env)) s) :
    Framed (Sent s) (wire s.log) ∧ ∀ call t, (sending env).step s call t → ¬ Uncut env s call → BreaksOff s t := by
  obtain ⟨hkeyed, hwhole⟩ := reachable_whole h
  refine ⟨hwhole.framed, fun call t hstep hrule => ?_⟩
  obtain ⟨_, depth, hperform⟩ := hstep
  exact perform_breaks hkeyed hrule hperform

/-- A connection on descriptor 5 that has stored the key of 32 fives. -/
def keyed5 : Endpoint :=
  {conn := {fd := 5, connId := 1, maxFrameSize := 4096, state := .active, aesKey := List.replicate 32 5, ssid := 7,
            rsaPrivKey := []}}

theorem keyed5_init (env : Env) : (sending env).init keyed5 := ⟨⟨rfl, fun h => by cases h⟩, rfl⟩

/-- A response, and a farewell. -/
def answerAndClose : List Call :=
  [.sendFrame (keyed5.conn.makeRespFrame [] [1, 2] STATUS_OK 0 2), .closeConnection .invalidRequest true]

/-- `send` takes 20 bytes at a time. -/
def slowEnv : Env := {quietEnv with send := fun _ => .count 20}

/-- A response of 59 bytes and a farewell of 57, in pieces of 20 bytes. -/
theorem keyed5_framed : ∃ s, (wire s.log).length = 116 ∧ Framed (Sent s) (wire s.log) := by
  have hrun : (execute (fun s call => perform slowEnv 3 call s) answerAndClose keyed5).map
      (fun s => (wire s.log).length) = some 116 := by
    decide +kernel
  obtain ⟨s, hs, hlen⟩ := Option.map_eq_some_iff.mp hrun
  have hpos : ∀ i, 0 < (slowEnv.send i).bytes := fun _ => Nat.zero_lt_succ 19
  have hrule : ∀ s call, Uncut slowEnv s call := by
    intro s call
    cases call with
    | sendFrame frame => exact fun _ => .inl (takes_of_pos (fun i _ => hpos i) _)
    | closeConnection reason invokeOnClose => exact fun _ _ => .inl (takes_of_pos (fun i _ => hpos i) _)
    | _ => trivial
  have hsending : ∀ call ∈ answerAndClose, call.sending = true := by decide
  have hreach : Reachable ((sending slowEnv).under (Uncut slowEnv)) s :=
    Reachable.execute (fun call hcall s t h => ⟨hrule s call, hsending call hcall, 3, h⟩)
      (.init (keyed5_init slowEnv)) hs
  exact ⟨s, hlen, (stream_framed hreach).1⟩

/-- `send` takes one byte, then it fails, and then it takes everything. -/
def brokenEnv : Env :=
  {quietEnv with send := fun i => if i = 0 then .count 1 else if i = 1 then .error else .count 65536}

/-- **One byte of a response is taken, the next call fails: the farewell follows that byte.** -/
theorem farewell_behind_part : ∃ s, Reachable (sending brokenEnv) s ∧ ¬ Framed (Sent s) (wire s.log) := by
  have hrun : (execute (fun s call => perform brokenEnv 3 call s) (answerAndClose.take 1) keyed5).map
      (fun (s : Endpoint) => ((wire s.log).take 2, decide (∀ e ∈ ledger s.log, e.2.take 2 = [102, 109]))) =
        some ([102, 102], true) := by
    decide +kernel
  obtain ⟨s, hs, hresult⟩ := Option.map_eq_some_iff.mp hrun
  simp only [Prod.mk.injEq, decide_eq_true_eq] at hresult
  obtain ⟨hstream, hframes⟩ := hresult
  have hsending : ∀ call ∈ answerAndClose.take 1, call.sending = true := by decide
  refine ⟨s, Reachable.execute (fun call hcall _ _ h => ⟨hsending call hcall, 3, h⟩)
    (.init (keyed5_init brokenEnv)) hs, fun hframed => ?_⟩
  have htag : ∀ raw, Sent s raw → [102, 109] <+: raw := by
    intro raw hraw
    have hmem : (s.conn.aesKey, raw) ∈ ledger s.log := List.mem_filterMap.mpr ⟨_, hraw, rfl⟩
    exact hframes _ hmem ▸ List.take_prefix 2 raw
  -- The stream does not begin as a frame does.
  have hlong : 2 ≤ (wire s.log).length := by
    have hlen := congrArg List.length hstream
    rw [List.length_take] at hlen
    simp only [List.length_cons, List.length_nil] at hlen
    omega
  cases hstream.symm.trans (hframed.head htag hlong)

end Fmxp.Server
