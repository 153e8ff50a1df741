import Fmxp.Server.Connection

/-! What each call may change.

Sending and closing touch the descriptor, the state and the frame counter, and
nothing a session rests on (`Keeps`). `readFd` does one of three things besides
that: it takes bytes into the buffer, it accepts a handshake, or it hands requests
over (`readFd_cases`). Every invariant of a connection is derived from these. -/
namespace Fmxp.Server

/-- An output that is part of sending or closing. -/
def Output.quiet : Output → Bool
  | .secured .. | .request .. => false
  | _ => true

/-- `t` is `s` after some sending and closing. -/
structure Keeps (s t : Endpoint) : Prop where
  conn : t.conn = {s.conn with fd := t.conn.fd, state := t.conn.state, fid := t.conn.fid}
  log : ∃ outs, t.log = s.log ++ outs ∧ ∀ o ∈ outs, o.quiet = true

theorem Keeps.refl (s : Endpoint) : Keeps s s := ⟨rfl, [], by simp, by simp⟩

theorem Keeps.trans {s t u : Endpoint} (h : Keeps s t) (h' : Keeps t u) : Keeps s u := by
  obtain ⟨outs, hlog, hquiet⟩ := h.log
  obtain ⟨outs', hlog', hquiet'⟩ := h'.log
  refine ⟨?_, outs ++ outs', by rw [hlog', hlog, List.append_assoc], ?_⟩
  · rw [h'.conn, h.conn]
  · intro o ho
    rcases List.mem_append.mp ho with ho | ho
    · exact hquiet o ho
    · exact hquiet' o ho

theorem Keeps.of_conn {s t : Endpoint} (hlog : t.log = s.log)
    (hconn : t.conn = {s.conn with fd := t.conn.fd, state := t.conn.state, fid := t.conn.fid}) :
    Keeps s t :=
  ⟨hconn, [], by rw [hlog, List.append_nil], by simp⟩

theorem Keeps.emit {s t : Endpoint} (h : Keeps s t) (o : Output) (ho : o.quiet = true) :
    Keeps s (t.emit o) := by
  refine h.trans ⟨rfl, [o], rfl, ?_⟩
  intro o' ho'
  rw [List.mem_singleton.mp ho']
  exact ho

theorem Keeps.aesKey {s t : Endpoint} (h : Keeps s t) : t.conn.aesKey = s.conn.aesKey := by rw [h.conn]
theorem Keeps.ssid {s t : Endpoint} (h : Keeps s t) : t.conn.ssid = s.conn.ssid := by rw [h.conn]
theorem Keeps.connId {s t : Endpoint} (h : Keeps s t) : t.conn.connId = s.conn.connId := by rw [h.conn]
theorem Keeps.lastCliFid {s t : Endpoint} (h : Keeps s t) : t.conn.lastCliFid = s.conn.lastCliFid := by
  rw [h.conn]

/-! ### Sending and closing -/

theorem send_keeps (env : Env) (rest : Bytes) (s : Endpoint) :
    (s.send env rest).2.conn = s.conn ∧ Keeps s (s.send env rest).2 := by
  unfold Endpoint.send
  split
  · exact ⟨rfl, Keeps.refl s⟩
  · split
    · exact ⟨rfl, Keeps.of_conn rfl rfl⟩
    · have hdrawn : Keeps s {s with sends := s.sends + 1} := Keeps.of_conn rfl rfl
      exact ⟨rfl, hdrawn.emit _ rfl⟩

theorem sendLoop_keeps (env : Env) (n : Nat) (rest : Bytes) (s : Endpoint) :
    (sendLoop env n rest s).1.conn = s.conn ∧ Keeps s (sendLoop env n rest s).1 := by
  induction n generalizing rest s with
  | zero => exact ⟨rfl, Keeps.refl s⟩
  | succ n ih =>
    obtain ⟨hconn, hkeeps⟩ := send_keeps env rest s
    simp only [sendLoop]
    split
    · exact ⟨rfl, Keeps.refl s⟩
    · split
      · exact ⟨hconn, hkeeps⟩
      · obtain ⟨hconn', hkeeps'⟩ := ih (rest.drop (s.send env rest).1.toNat) (s.send env rest).2
        exact ⟨hconn'.trans hconn, hkeeps.trans hkeeps'⟩

/-- The state a call leaves: as it was, or closed with no descriptor. -/
def Settled (s t : Endpoint) : Prop :=
  (t.conn.state = s.conn.state ∧ t.conn.fd = s.conn.fd) ∨ (t.conn.state = .closed ∧ t.conn.fd = -1)

/-- `sendFrame` keeps what the close it is given keeps. -/
theorem sendFrameWith_keeps {env : Env} {close : CloseReason → Endpoint → Option Endpoint} {frame : Frame}
    {s t : Endpoint} (hclose : ∀ r u v, u.conn.state = s.conn.state → u.conn.fd = s.conn.fd →
      close r u = some v → Keeps u v ∧ v.conn.state = .closed ∧ v.conn.fd = -1)
    (h : sendFrameWith env close frame s = some t) : Keeps s t ∧ Settled s t := by
  have hfid : Keeps s s.nextFid := Keeps.of_conn rfl rfl
  simp only [sendFrameWith] at h
  split at h
  · obtain ⟨hkeeps, hend⟩ := hclose _ s.nextFid t rfl rfl h
    exact ⟨hfid.trans hkeeps, .inr hend⟩
  · next encoded _ =>
    have hrecorded : Keeps s (s.nextFid.recordEncoded encoded) := by
      have hdrawn : Keeps s {s.nextFid with ivs := s.nextFid.ivs + 1} := Keeps.of_conn rfl rfl
      exact hdrawn.emit _ rfl
    obtain ⟨hconn, hkeeps⟩ := sendLoop_keeps env encoded.length encoded (s.nextFid.recordEncoded encoded)
    have hboth := hrecorded.trans hkeeps
    split at h
    · next v hloop =>
      rw [hloop] at hboth hconn
      cases h
      exact ⟨hboth, .inl ⟨congrArg (·.state) hconn, congrArg (·.fd) hconn⟩⟩
    · next v hloop =>
      rw [hloop] at hboth hconn
      obtain ⟨hkeeps', hend⟩ := hclose _ v t (congrArg (·.state) hconn) (congrArg (·.fd) hconn) h
      exact ⟨hboth.trans hkeeps', .inr hend⟩

/-- A frame the encoder takes is the first thing the call logs. -/
theorem sendFrameWith_log {env : Env} {close : CloseReason → Endpoint → Option Endpoint} {frame : Frame}
    {s t : Endpoint} {raw : Bytes}
    (hclose : ∀ r u v, u.conn.state = s.conn.state → u.conn.fd = s.conn.fd → close r u = some v → Keeps u v)
    (henc : encodeFrame env.evp (env.iv s.ivs) frame true s.conn.aesKey s.nextFid.conn.fid = .ok raw)
    (h : sendFrameWith env close frame s = some t) :
    ∃ outs, t.log = s.log ++ .encoded s.conn.aesKey raw :: outs := by
  have hrun : encodeFrame env.evp (env.iv s.nextFid.ivs) frame true s.nextFid.conn.aesKey s.nextFid.conn.fid =
      .ok raw := henc
  obtain ⟨hconn, hkeeps⟩ := sendLoop_keeps env raw.length raw (s.nextFid.recordEncoded raw)
  have hafter : Keeps (s.nextFid.recordEncoded raw) t := by
    simp only [sendFrameWith, hrun] at h
    split at h
    · next v hloop =>
      rw [hloop] at hkeeps
      cases h
      exact hkeeps
    · next v hloop =>
      rw [hloop] at hkeeps hconn
      exact hkeeps.trans (hclose _ v t (congrArg (·.state) hconn) (congrArg (·.fd) hconn) h)
  obtain ⟨outs, hlog, _⟩ := hafter.log
  refine ⟨outs, hlog.trans ?_⟩
  show (s.log ++ [.encoded s.conn.aesKey raw]) ++ outs = _
  rw [List.append_assoc, List.singleton_append]

theorem closeFd_keeps (s : Endpoint) : Keeps s s.closeFd := by
  have hlogged := (Keeps.refl s).emit (.closedFd s.conn.fd) rfl
  exact hlogged.trans (Keeps.of_conn rfl rfl)

/-- A close that returns has closed the connection. -/
theorem closeConnection_keeps {env : Env} {depth : Nat} {reason : CloseReason} {invokeOnClose : Bool}
    {s t : Endpoint} (hs : s.conn.state = .closed → s.conn.fd = -1)
    (h : closeConnection env depth reason invokeOnClose s = some t) :
    Keeps s t ∧ t.conn.state = .closed ∧ t.conn.fd = -1 := by
  induction depth generalizing reason invokeOnClose s t with
  | zero => cases h
  | succ depth ih =>
    simp only [closeConnection] at h
    split at h
    · next hclosed =>
      cases h
      exact ⟨Keeps.refl s, hclosed, hs hclosed⟩
    · next hopen =>
      obtain ⟨u, hu, rfl⟩ := Option.map_eq_some_iff.mp h
      -- The shutdown leaves no descriptor, whichever way it went.
      have hshut : Keeps s u ∧ u.conn.fd = -1 := by
        split at hu
        · next hfd =>
          cases hu
          exact ⟨Keeps.refl s, hfd⟩
        · split at hu
          · cases hu
            exact ⟨closeFd_keeps s, rfl⟩
          · obtain ⟨v, hv, rfl⟩ := Option.map_eq_some_iff.mp hu
            have hkeeps := (sendFrameWith_keeps (fun r u w hstate _ hw =>
              ih (fun hc => absurd (hstate.symm.trans hc) hopen) hw) hv).1
            exact ⟨hkeeps.trans (closeFd_keeps v), rfl⟩
      have hclosed : Keeps s (u.modify fun c => {c with state := .closed}) :=
        hshut.1.trans (Keeps.of_conn rfl rfl)
      split
      · exact ⟨hclosed.emit _ rfl, rfl, hshut.2⟩
      · exact ⟨hclosed, rfl, hshut.2⟩

theorem sendFrame_keeps {env : Env} {depth : Nat} {frame : Frame} {s t : Endpoint}
    (hs : s.conn.state = .closed → s.conn.fd = -1) (h : sendFrame env depth frame s = some t) :
    Keeps s t ∧ Settled s t :=
  sendFrameWith_keeps (fun _ _ _ hstate hfd hv =>
    closeConnection_keeps (fun hc => hfd.trans (hs (hstate.symm.trans hc))) hv) h

theorem sendFrame_log {env : Env} {depth : Nat} {frame : Frame} {s t : Endpoint} {raw : Bytes}
    (hs : s.conn.state = .closed → s.conn.fd = -1)
    (henc : encodeFrame env.evp (env.iv s.ivs) frame true s.conn.aesKey s.nextFid.conn.fid = .ok raw)
    (h : sendFrame env depth frame s = some t) : ∃ outs, t.log = s.log ++ .encoded s.conn.aesKey raw :: outs :=
  sendFrameWith_log (fun _ _ _ hstate hfd hv =>
    (closeConnection_keeps (fun hc => hfd.trans (hs (hstate.symm.trans hc))) hv).1) henc h

end Fmxp.Server
