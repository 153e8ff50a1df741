import Fmxp.Server.Acts
import Fmxp.Server.Closing
import Fmxp.Server.Requests

/-! Whether a closed connection stays closed.

Closing sets state and descriptor together, and no call but `_setAesKey` ever sets the state to
anything else. That one sets it to `ACTIVE` whatever became of the confirmation, so a connection
that was closed while the confirmation was being sent is `ACTIVE` again, without a descriptor.
`closed_final` is what holds of every run in which each confirmation goes out. -/
namespace Fmxp.Server
open Transition

/-- A handshake comes up for acceptance only while its confirmation is taken by the socket. -/
def ConfirmationTaken (env : Env) (s : Endpoint) : Call → Prop
  | .readFd input now => s.conn.state = .handshake → ∀ frame rest,
      (frameFramer env.evp s.conn.maxFrameSize false []).next (s.conn.inFrameBuffer ++ input.bytes) =
        .item frame rest →
      (acceptedKey env.rsa frame.data s.conn.rsaPrivKey now).isSome →
      Takes env.send s.sends (wireSize (s.confirmation env))
  | _ => True

variable {env : Env} {s t : Endpoint}

/-- A confirmation that is taken leaves an active connection with its descriptor. -/
theorem setAesKey_taken {depth : Nat} {key : Bytes} (hs : s.conn.state = .handshake) (hfd : s.conn.fd ≠ -1)
    (hkey : key.length = 32) (htakes : Takes env.send s.sends (wireSize (s.confirmation env)))
    (h : setAesKey env depth key s = some t) : t.conn.state = .active ∧ t.conn.fd = s.conn.fd := by
  have hopen : (s.secure env key).conn.state ≠ .closed := by
    show s.conn.state ≠ .closed
    rw [hs]
    decide
  have hsize : 0 ≤ cInt (s.confirmation env).bodySize := by
    rw [show (s.confirmation env).bodySize = 38 from rfl]
    decide
  rw [setAesKey_eq] at h
  obtain ⟨u, hu, rfl⟩ := Option.map_eq_some_iff.mp h
  rcases sendFrame_encoded env (s := s.secure env key) ⟨hopen, hfd, hkey⟩ hsize with ⟨_, v, hv, hsend⟩ | ⟨hnot, _⟩
  · rw [hsend depth] at hu
    cases hu
    exact ⟨rfl, congrArg (·.fd) hv⟩
  · exact absurd htakes hnot

theorem perform_closed_iff {depth : Nat} {call : Call} (hwf : WellFormed env s)
    (hs : s.conn.state = .closed ↔ s.conn.fd = -1) (hrule : ConfirmationTaken env s call)
    (h : perform env depth call s = some t) : t.conn.state = .closed ↔ t.conn.fd = -1 := by
  have hsettled : ∀ {u v : Endpoint}, u.conn.state = s.conn.state → u.conn.fd = s.conn.fd → Settled u v →
      (v.conn.state = .closed ↔ v.conn.fd = -1) := by
    intro u v hstate hfd hsettled
    rcases hsettled with ⟨hstate', hfd'⟩ | ⟨hclosed, hgone⟩
    · rw [hstate', hfd', hstate, hfd]
      exact hs
    · exact ⟨fun _ => hgone, fun _ => hclosed⟩
  cases call with
  | readFd input now =>
    obtain ⟨⟨r, u⟩, hread, rfl⟩ := Option.map_eq_some_iff.mp h
    obtain ⟨_, heffect⟩ := readFd_cases hwf.closed hread
    cases heffect with
    | quiet buffer _ hend => exact hsettled rfl rfl hend
    | secured frame rest key hfd hstate hnext hkey hset =>
      have htakes := hrule hstate frame rest hnext (by rw [hkey]; rfl)
      have hactive := setAesKey_taken (s := s.setBuffer rest) hstate hfd (length_acceptedKey hkey) htakes hset
      refine ⟨fun hc => ?_, fun hc => absurd (hactive.2.symm.trans hc) hfd⟩
      rw [hactive.1] at hc
      cases hc
    | delivered frames rest _ _ _ _ hend => exact hsettled rfl rfl hend
  | sendFrame frame => exact hsettled rfl rfl (sendFrame_keeps hwf.closed h).2
  | closeConnection reason invokeOnClose => exact hsettled rfl rfl (.inr (closeConnection_keeps hwf.closed h).2)
  | setOnClose =>
    cases h
    exact hs

theorem reachable_closed_iff (h : Reachable ((lifecycle env).under (ConfirmationTaken env)) s) :
    s.conn.state = .closed ↔ s.conn.fd = -1 := by
  induction h with
  | init hs =>
    obtain ⟨fd, connId, maxFrameSize, rsaPrivKey, hfd, rfl⟩ := hs
    refine ⟨fun hc => (by cases hc), fun hc => ?_⟩
    have hgone : fd = -1 := hc
    omega
  | step hs hstep ih =>
    obtain ⟨hrule, depth, hcall⟩ := hstep
    exact perform_closed_iff (reachable_wellFormed hs.of_under) ih hrule hcall

/-- Once a descriptor has been closed there is none, in whatever state the connection is. -/
theorem reachable_closedFd (h : Reachable (lifecycle env) s) : (∃ fd, .closedFd fd ∈ s.log) → s.conn.fd = -1 := by
  induction h with
  | init hs =>
    obtain ⟨fd, connId, maxFrameSize, rsaPrivKey, _, rfl⟩ := hs
    rintro ⟨fd, hmem⟩
    cases hmem
  | @step s t call hs hstep ih =>
    obtain ⟨depth, hcall⟩ := hstep
    refine (perform_acts (reachable_wellFormed hs) hcall).keeps
      (P := fun s => (∃ fd, .closedFd fd ∈ s.log) → s.conn.fd = -1) ?_ ih
    intro u v hact hu
    -- Only closing the descriptor adds such an entry, and nothing opens one again.
    have hold : ∀ o, (∀ fd, o ≠ Output.closedFd fd) → v.log = u.log ++ [o] → v.conn.fd = u.conn.fd →
        (∃ fd, .closedFd fd ∈ v.log) → v.conn.fd = -1 := by
      rintro o hne hlog hfd ⟨fd, hmem⟩
      rw [hlog, List.mem_append, List.mem_singleton] at hmem
      exact hfd.trans (hu ⟨fd, hmem.resolve_right fun heq => hne fd heq.symm⟩)
    cases hact with
    | sent rest =>
      rcases send_log env rest u with hsame | ⟨bytes, hlog⟩
      · rw [hsame, (send_keeps env rest u).1]
        exact hu
      · exact hold _ (by intro fd h; cases h) hlog (congrArg (·.fd) (send_keeps env rest u).1)
    | closedFd => exact fun _ => rfl
    | encoded _ _ => exact hold _ (by intro fd h; cases h) rfl rfl
    | notified reason => exact hold _ (by intro fd h; cases h) rfl rfl
    | secured key _ _ _ => exact hold _ (by intro fd h; cases h) rfl rfl
    | handed _ _ _ => exact hold _ (by intro fd h; cases h) rfl rfl
    | refused | closed | buffered | activated | callbackSet => exact hu

theorem perform_stays_closed {depth : Nat} {call : Call} (hwf : WellFormed env s) (hs : s.conn.state = .closed)
    (h : perform env depth call s = some t) : t.conn.state = .closed := by
  cases perform_effect hwf h with
  | quiet outs _ _ _ hstate => exact hstate.elim (·.trans hs) id
  | secured key outs _ _ hhand _ _ =>
    rw [hs] at hhand
    cases hhand
  | delivered input now frames rest outs _ _ hactive _ _ _ _ =>
    rw [hs] at hactive
    cases hactive

/-- **Closed is final**, in every run in which each confirmation goes out: between two calls a
connection is closed exactly when it has no descriptor, and it is so ever after its descriptor has
been closed. -/
theorem closed_final (h : Reachable ((lifecycle env).under (ConfirmationTaken env)) s) :
    (s.conn.state = .closed ↔ s.conn.fd = -1) ∧ ((∃ fd, .closedFd fd ∈ s.log) → s.conn.state = .closed) ∧
      ∀ calls t, Run ((lifecycle env).under (ConfirmationTaken env)) s calls t →
        s.conn.state = .closed → t.conn.state = .closed := by
  have hiff := reachable_closed_iff h
  refine ⟨hiff, fun hmem => hiff.mpr (reachable_closedFd h.of_under hmem), fun calls t hrun => ?_⟩
  clear hiff
  induction hrun with
  | nil => exact id
  | cons hstep _ ih =>
    intro hclosed
    have hnext := Reachable.step h hstep
    obtain ⟨_, depth, hcall⟩ := hstep
    exact ih hnext (perform_stays_closed (reachable_wellFormed h.of_under) hclosed hcall)

/-- A connection that has accepted a handshake and has then been closed. -/
theorem accepted5_closed_final :
    ∃ s, s.conn.state = .closed ∧ s.conn.fd = -1 ∧ ∀ calls t,
      Run ((lifecycle quietEnv).under (ConfirmationTaken quietEnv)) s calls t → t.conn.state = .closed := by
  have hrun : (execute (fun (s : Endpoint) call => perform quietEnv 3 call s)
      [.readFd (.once (handshakeRaw 100)) 100, .closeConnection .natural true] accepted5).map
        (fun s => (s.conn.state, s.conn.fd)) = some (.closed, -1) := by
    decide +kernel
  obtain ⟨s, hs, hresult⟩ := Option.map_eq_some_iff.mp hrun
  obtain ⟨hstate, hfd⟩ := Prod.mk.inj hresult
  have hrule : ∀ s call, ConfirmationTaken quietEnv s call := by
    intro s call
    cases call with
    | readFd input now => exact fun _ _ _ _ _ => takes_of_pos (fun i _ => quietEnv_send i) _
    | _ => trivial
  have hreach : Reachable ((lifecycle quietEnv).under (ConfirmationTaken quietEnv)) s :=
    Reachable.execute (fun call _ s t h => ⟨hrule s call, 3, h⟩) (.init accepted5_fresh) hs
  exact ⟨s, hstate, hfd, fun calls t hrun => (closed_final hreach).2.2 calls t hrun hstate⟩

/-- `send` fails at first, and then takes everything. -/
def failingEnv : Env := {quietEnv with send := fun i => if i = 0 then .error else .count 65536}

/-- **The confirmation fails, the farewell goes out: the connection is closed, and then active.** -/
theorem closed_then_active :
    ∃ s, Reachable (lifecycle failingEnv) s ∧ s.conn.state = .active ∧ s.conn.fd = -1 ∧ .closedFd 5 ∈ s.log := by
  have hrun : (execute (fun (s : Endpoint) call => perform failingEnv 3 call s)
      [.readFd (.once (handshakeRaw 100)) 100] accepted5).map
        (fun s => (s.conn.state, s.conn.fd, decide (.closedFd 5 ∈ s.log))) = some (.active, -1, true) := by
    decide +kernel
  obtain ⟨s, hs, hresult⟩ := Option.map_eq_some_iff.mp hrun
  simp only [Prod.mk.injEq, decide_eq_true_eq] at hresult
  exact ⟨s, Reachable.execute (fun _ _ _ _ h => ⟨3, h⟩) (.init accepted5_fresh) hs, hresult⟩

end Fmxp.Server
