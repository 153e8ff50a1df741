import Fmxp.Client.Receive

/-! What each call of the client may change.

Sending and closing leave alone what a session rests on (`Keeps`): the key, the session
id, the last received fid and the buffer. A read moves the buffer on and may take a
confirmation (`receive_effect`); a round of the dispatch loop hands one frame over or
closes (`dispatchFrame_effect`). -/
namespace Fmxp.Client
open Framing

/-- An output of sending or closing. -/
def Output.quiet : Output → Bool
  | .confirmed _ | .response _ => false
  | _ => true

/-- Key and bytes of an encoded frame. -/
def Output.encoding : Output → Option (Bytes × Bytes)
  | .encoded key raw => some (key, raw)
  | _ => none

/-- Everything a client has encoded under its key. -/
def ledger (log : List Output) : List (Bytes × Bytes) := log.filterMap Output.encoding

@[simp] theorem ledger_append (log outs : List Output) : ledger (log ++ outs) = ledger log ++ ledger outs :=
  List.filterMap_append

/-- The fields a session rests on: key, session id, last received fid, limit, buffer. -/
def Connection.session (c : Connection) : Bytes × UInt64 × UInt32 × UInt32 × Bytes :=
  (c.aesKey, c.ssid, c.lastSrvFid, c.maxFrameSize, c.frameBuffer)

def Connection.status (c : Connection) : ConnectionState × Bool × Bool := (c.state, c.running, c.joinable)

/-- `t` is `s` after some sending and closing. -/
structure Keeps (s t : Endpoint) : Prop where
  session : t.conn.session = s.conn.session
  status : t.conn.status = s.conn.status ∨ t.conn.state = .closed
  log : ∃ outs, t.log = s.log ++ outs ∧
    ∀ o ∈ outs, o.quiet = true ∧ ∀ key raw, o = .encoded key raw → key = s.conn.aesKey

theorem Keeps.of_log_eq {s t : Endpoint} (hlog : t.log = s.log) (hsession : t.conn.session = s.conn.session)
    (hstatus : t.conn.status = s.conn.status ∨ t.conn.state = .closed) : Keeps s t :=
  ⟨hsession, hstatus, [], by rw [hlog, List.append_nil], by simp⟩

theorem Keeps.refl (s : Endpoint) : Keeps s s := .of_log_eq rfl rfl (.inl rfl)

theorem Keeps.aesKey {s t : Endpoint} (h : Keeps s t) : t.conn.aesKey = s.conn.aesKey :=
  congrArg (·.1) h.session
theorem Keeps.ssid {s t : Endpoint} (h : Keeps s t) : t.conn.ssid = s.conn.ssid :=
  congrArg (·.2.1) h.session
theorem Keeps.lastSrvFid {s t : Endpoint} (h : Keeps s t) : t.conn.lastSrvFid = s.conn.lastSrvFid :=
  congrArg (·.2.2.1) h.session

theorem Keeps.trans {s t u : Endpoint} (h : Keeps s t) (h' : Keeps t u) : Keeps s u := by
  obtain ⟨outs, hlog, hquiet⟩ := h.log
  obtain ⟨outs', hlog', hquiet'⟩ := h'.log
  refine ⟨h'.session.trans h.session, ?_, outs ++ outs', by rw [hlog', hlog, List.append_assoc], ?_⟩
  · rcases h'.status with hstatus | hclosed
    · rcases h.status with hstatus' | hclosed'
      · exact .inl (hstatus.trans hstatus')
      · exact .inr ((congrArg (·.1) hstatus).trans hclosed')
    · exact .inr hclosed
  · intro o ho
    rcases List.mem_append.mp ho with ho | ho
    · exact hquiet o ho
    · obtain ⟨hq, hkey⟩ := hquiet' o ho
      exact ⟨hq, fun key raw heq => (hkey key raw heq).trans h.aesKey⟩

theorem Keeps.of_log {s t : Endpoint} (o : Output) (hlog : t.log = s.log ++ [o]) (ho : o.quiet = true)
    (hkey : ∀ key raw, o = .encoded key raw → key = s.conn.aesKey) (hconn : t.conn = s.conn) : Keeps s t := by
  refine ⟨by rw [hconn], .inl (by rw [hconn]), [o], hlog, ?_⟩
  intro o' ho'
  rw [List.mem_singleton.mp ho']
  exact ⟨ho, hkey⟩

/-! ### Closing -/

theorem beginClose_keeps (s : Endpoint) : Keeps s s.beginClose ∧ s.beginClose.conn.state = .closed := by
  have hlogged : Keeps s (if s.conn.onClose then s.emit .onClose else s) := by
    cases s.conn.onClose
    · exact Keeps.refl s
    · exact .of_log .onClose rfl rfl (by intro _ _ h; cases h) rfl
  exact ⟨hlogged.trans (.of_log_eq rfl rfl (.inr rfl)), rfl⟩

theorem closeFds_keeps {s : Endpoint} (hs : s.conn.state = .closed) : Keeps s s.closeFds := by
  have hlogged : Keeps s (s.emit (.closedFds s.conn.socket s.conn.epollFd s.conn.cmdEvFd)) :=
    .of_log _ rfl rfl (by intro _ _ h; cases h) rfl
  exact hlogged.trans (.of_log_eq rfl rfl (.inr hs))

theorem close_keeps (thread : Thread) (s : Endpoint) : Keeps s (close thread s).2 := by
  obtain ⟨hbegin, hclosed⟩ := beginClose_keeps s
  unfold close
  split
  · exact Keeps.refl s
  · dsimp only
    split
    · cases thread with
      | epoll => exact hbegin.trans (.of_log .joinedSelf rfl rfl (by intro _ _ h; cases h) rfl)
      | application =>
        have hjoined : Keeps s.beginClose (s.beginClose.modify fun c => {c with joinable := false}) :=
          .of_log_eq rfl rfl (.inr hclosed)
        exact (hbegin.trans hjoined).trans (closeFds_keeps hclosed)
    · exact hbegin.trans (closeFds_keeps hclosed)

theorem closeThen_keeps {α : Type} (s : Endpoint) (result : α) : Keeps s (closeThen s result).2 := by
  have hclose := close_keeps .epoll s
  unfold closeThen
  cases h : close .epoll s with
  | mk r t =>
    rw [h] at hclose
    cases r <;> exact hclose

/-! ### Sending -/

theorem send_keeps (env : Env) (bytes : Bytes) (s : Endpoint) : Keeps s (s.send env bytes) := by
  unfold Endpoint.send
  split
  · exact Keeps.refl s
  · exact .of_log _ rfl rfl (by intro _ _ h; cases h) rfl

theorem handleCommand_keeps (env : Env) (cmd : ClientCommand) (s : Endpoint) :
    Keeps s (handleCommand env cmd s).2 := by
  unfold handleCommand
  split
  · exact Keeps.refl s
  · split
    · split
      · exact Keeps.refl s
      · have hmarked : Keeps s (s.modify fun c => {c with handshakeSent := true}) :=
          .of_log_eq rfl rfl (.inl rfl)
        dsimp only
        split
        · exact hmarked
        · exact hmarked.trans (send_keeps env _ _)
    · have hnumbered : Keeps s (s.modify fun c => {c with fid := c.fid + 1}) := .of_log_eq rfl rfl (.inl rfl)
      dsimp only
      split
      · exact hnumbered
      · next encoded _ =>
        have hrecorded : Keeps (s.modify fun c => {c with fid := c.fid + 1})
            ((s.modify fun c => {c with fid := c.fid + 1}).recordEncoded encoded) :=
          .of_log _ rfl rfl (by intro _ _ h; cases h; rfl) rfl
        exact (hnumbered.trans hrecorded).trans (send_keeps env _ _)
  · exact close_keeps .epoll s

/-! ### Receiving -/

theorem endParse_keeps (frames : List Frame) (rest : Bytes) (bad : Option Refusal) (s : Endpoint) :
    Keeps (s.setBuffer rest) (endParse frames rest bad s).2 ∧
      ∀ frames', (endParse frames rest bad s).1 = .ok frames' → frames' = frames := by
  cases bad with
  | none => exact ⟨Keeps.refl _, fun frames' h => by cases h; rfl⟩
  | some r =>
    have hclose : Keeps (s.setBuffer rest) (closeThen (s.setBuffer rest) frames).2 ∧
        ∀ frames', (closeThen (s.setBuffer rest) frames).1 = .ok frames' → frames' = frames := by
      refine ⟨closeThen_keeps _ _, fun frames' h => ?_⟩
      unfold closeThen at h
      cases hclose : close .epoll (s.setBuffer rest) with
      | mk r t =>
        rw [hclose] at h
        cases r <;> cases h
        rfl
    have hthrow : ∀ e, Keeps (s.setBuffer rest) (((.error e : Except Exn (List Frame)), s.setBuffer rest)).2 ∧
        ∀ frames', (((.error e : Except Exn (List Frame)), s.setBuffer rest)).1 = .ok frames' → frames' = frames :=
      fun e => ⟨Keeps.refl _, fun frames' h => by cases h⟩
    cases r with
    | protocol => exact hclose
    | tooLong => exact hclose
    | rejected e =>
      cases e with
      | fmxp e => exact hclose
      | _ => exact hthrow _

/-- A read takes at most the confirmation it finds; if it returns frames, they are those it finds. -/
theorem receive_effect (env : Env) (input : Recv) {s : Endpoint} (hs : s.conn.state ≠ .closed → Live s) :
    let p := s.conn.parsed env.evp (s.conn.frameBuffer ++ (heard input s).bytes)
    ∃ confirmation b, Keeps ((s.confirm confirmation).setBuffer b) (receive env input s).2 ∧
      (∀ frame, confirmation = some frame → p.confirmation = some frame) ∧
      ∀ frames, (receive env input s).1 = .ok frames → confirmation = p.confirmation ∧ frames = p.frames := by
  intro p
  by_cases h : (heard input s).fin = .again ∨ s.conn.state = .closed
  · obtain ⟨hkeeps, hframes⟩ := endParse_keeps p.frames p.rest p.bad (s.confirm p.confirmation)
    rw [receive_parse h]
    exact ⟨p.confirmation, p.rest, hkeeps, fun _ => id, fun frames hok => ⟨rfl, hframes frames hok⟩⟩
  · obtain ⟨hfin, hopen⟩ := not_or.mp h
    rw [receive_broken (hs hopen) hfin]
    have hclose := (beginClose_keeps (s.hear input)).1
    refine ⟨none, s.conn.frameBuffer ++ (heard input s).bytes, ?_, ?_, ?_⟩
    · exact hclose.trans (.of_log .joinedSelf rfl rfl (by intro _ _ h; cases h) rfl)
    · intro frame hframe
      cases hframe
    · intro frames hok
      cases hok

/-- A round of the dispatch loop hands its frame over, or closes. -/
theorem dispatchFrame_effect (f : Frame) (s : Endpoint) :
    (f.ssid = s.conn.ssid ∧ s.conn.lastSrvFid < f.fid ∧ dispatchFrame f s = (.ok true, s.handOver [f])) ∨
      (Keeps s (dispatchFrame f s).2 ∧ (dispatchFrame f s).1 ≠ .ok true) := by
  rw [dispatchFrame_eq]
  split
  · next h => exact .inl ⟨h.1, h.2, rfl⟩
  · refine .inr ⟨closeThen_keeps s false, fun h => ?_⟩
    unfold closeThen at h
    cases hclose : close .epoll s with
    | mk r t =>
      rw [hclose] at h
      cases r <;> cases h

end Fmxp.Client
