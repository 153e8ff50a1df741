import Fmxp.Client.Accepted
import Fmxp.Library.Framed

/-! The stream a client writes.

The epoll thread gives each frame to `::send` once, on a socket that does not block, and does not look
at the result: what the socket did not take of a frame is lost, and the next frame follows. So the stream
is framed as long as the socket takes nothing more once it has taken a part of a frame (`requests_framed`).
`Sending` is a client together with the frames it has given to `::send` and what was taken of each. -/
namespace Fmxp.Client
open Transition Framing

/-- What `::send` takes of a frame. -/
def Endpoint.taken (env : Env) (raw : Bytes) (s : Endpoint) : Bytes :=
  if s.conn.socket = -1 then [] else raw.take (env.send s.sends).bytes

/-- What `_handleCommand` gives to `::send`, if it comes to that. -/
def toBeSent (env : Env) (cmd : ClientCommand) (s : Endpoint) : Option Bytes :=
  match cmd.type, cmd.frame with
  | .send, some frame =>
    if s.conn.state = .handshake then
      if s.conn.handshakeSent then none else (encodeFrame env.evp (env.iv s.ivs) frame false []).toOption
    else (encodeFrame env.evp (env.iv s.ivs) {frame with fid := s.conn.fid + 1} true s.conn.aesKey).toOption
  | _, _ => none

/-- What a step gives to `::send`: the opening of the handshake, or a frame from the command queue. -/
def SubmitEvent.toBeSent (env : Env) (event : SubmitEvent) (s : Endpoint) : Option Bytes :=
  match event with
  | .step (.start now) =>
    match rsaEncrypt env.rsa env.seed (env.key.val ++ u32ToStr now) s.conn.pubKey with
    | .error _ => none
    | .ok encedKey =>
      let (frame, s) := makeReqFrame [] encedKey 0 (keyed env s)
      Client.toBeSent env ⟨.send, some frame⟩ s
  | .step .command => s.conn.commandQueue.head?.bind fun cmd => Client.toBeSent env cmd s
  | _ => none

/-- A client, and the frames it has given to `::send`, each with what was taken of it. -/
structure Sending where
  client : Submitting
  frames : List (Bytes × Bytes) := []
  deriving DecidableEq, Repr

def Sending.perform (env : Env) (event : SubmitEvent) (q : Sending) : Option Sending :=
  (q.client.perform env event).map fun r =>
    let s := q.client.process.endpoint
    ⟨r, q.frames ++ ((event.toBeSent env s).map fun raw => (raw, s.taken env raw)).toList⟩

def sending (env : Env) : System Sending SubmitEvent where
  init := fun q => (submitting env).init q.client ∧ q.frames = []
  step := fun q event r => q.perform env event = some r

/-- Once a part of a frame was taken, nothing is taken of the frames that follow. -/
def LastCut (env : Env) (q : Sending) (event : SubmitEvent) : Prop :=
  match event.toBeSent env q.client.process.endpoint with
  | some raw => (∃ e ∈ q.frames, e.2 ≠ [] ∧ e.2 ≠ e.1) → q.client.process.endpoint.taken env raw = []
  | none => True

instance (env : Env) (q : Sending) (event : SubmitEvent) : Decidable (LastCut env q event) := by
  unfold LastCut
  split <;> infer_instance

variable {env : Env} {s t : Endpoint}

/-! ### What a step writes -/

/-- Everything a client has written to its socket. -/
def wire (log : List Output) : Bytes := (writes log).flatten

theorem wire_append (log outs : List Output) : wire (log ++ outs) = wire log ++ wire outs := by
  rw [wire, writes_append, List.flatten_append]
  rfl

theorem Still.wire (h : Still s t) : wire t.log = Client.wire s.log := congrArg List.flatten h.writes

theorem send_wire (env : Env) (raw : Bytes) (s : Endpoint) :
    wire (s.send env raw).log = wire s.log ++ s.taken env raw := by
  unfold Endpoint.send Endpoint.taken
  split
  · exact (List.append_nil _).symm
  · refine (wire_append ..).trans ?_
    exact congrArg (wire s.log ++ ·) (List.append_nil _)

/-- What was given to `::send` and taken. -/
def takenOf (env : Env) (raw : Option Bytes) (s : Endpoint) : Bytes := (raw.map fun raw => s.taken env raw).getD []

theorem handleCommand_wire (env : Env) (cmd : ClientCommand) (s : Endpoint) :
    wire (handleCommand env cmd s).2.log = wire s.log ++ takenOf env (toBeSent env cmd s) s := by
  obtain ⟨type, frame⟩ := cmd
  have hnone : wire s.log = wire s.log ++ takenOf env none s := (List.append_nil _).symm
  cases type with
  | close => exact (close_still .epoll s).wire.trans hnone
  | send =>
    cases frame with
    | none => exact hnone
    | some frame =>
      by_cases hstate : s.conn.state = .handshake
      · simp only [handleCommand, toBeSent, if_pos hstate]
        by_cases hsent : s.conn.handshakeSent = true
        · simp only [if_pos hsent]
          exact hnone
        · simp only [if_neg hsent]
          have hivs : (s.modify fun c => {c with handshakeSent := true}).ivs = s.ivs := rfl
          rw [hivs]
          cases encodeFrame env.evp (env.iv s.ivs) frame false [] with
          | error e => exact hnone
          | ok raw => exact send_wire env raw (s.modify fun c => {c with handshakeSent := true})
      · rw [handleCommand_send env frame hstate]
        simp only [toBeSent, if_neg hstate]
        cases encodeFrame env.evp (env.iv s.ivs) {frame with fid := s.conn.fid + 1} true s.conn.aesKey with
        | error e => exact hnone
        | ok raw =>
          refine (send_wire env raw (s.nextFid.recordEncoded raw)).trans ?_
          have hencoded : wire (s.nextFid.recordEncoded raw).log = wire s.log :=
            (wire_append ..).trans (List.append_nil _)
          rw [hencoded]
          rfl

theorem doHandshake_wire (env : Env) (now : UInt32) (s : Endpoint) :
    wire (doHandshake env now s).2.log = wire s.log ++
      takenOf env ((SubmitEvent.step (.start now)).toBeSent env s) s := by
  unfold doHandshake SubmitEvent.toBeSent
  dsimp only
  have hpub : (s.modify fun c => {c with aesKey := env.key.val}).conn.pubKey = s.conn.pubKey := rfl
  have hkey : (s.modify fun c => {c with aesKey := env.key.val}).conn.aesKey = env.key.val := rfl
  rw [hpub, hkey]
  cases rsaEncrypt env.rsa env.seed (env.key.val ++ u32ToStr now) s.conn.pubKey with
  | error e => exact (List.append_nil _).symm
  | ok encedKey => exact handleCommand_wire env ⟨.send, some (makeReqFrame [] encedKey 0 (keyed env s)).1⟩ _

/-- A step of the connection that is neither the start nor a command writes nothing. -/
theorem Progress.silent {event : SubmitEvent} {q r : Submitting} (hstart : ∀ now, event ≠ .step (.start now))
    (hcommand : event ≠ .step .command) (h : Progress env event q r) :
    wire r.process.endpoint.log = wire q.process.endpoint.log := by
  cases h with
  | still hstill _ _ _ => exact hstill.wire
  | confirmed input frame _ _ _ _ hstill _ _ _ =>
    refine hstill.wire.trans ?_
    exact (wire_append ..).trans (List.append_nil _)
  | started now hevent _ _ => exact absurd hevent (hstart now)
  | command cmd rest hevent _ _ _ => exact absurd hevent hcommand
  | built frame hstill _ _ _ _ => exact hstill.wire
  | pushed cmd _ hr =>
    rw [hr]
    rfl

theorem toBeSent_command (env : Env) {s : Endpoint} {cmd : ClientCommand} {rest : List ClientCommand}
    (h : s.conn.commandQueue = cmd :: rest) : (SubmitEvent.step .command).toBeSent env s = toBeSent env cmd s := by
  show (s.conn.commandQueue.head?.bind fun cmd => toBeSent env cmd s) = _
  rw [h]
  exact Option.bind_some ..

theorem toBeSent_none (env : Env) {event : SubmitEvent} (hstart : ¬ ∃ now, event = .step (.start now))
    (hcommand : event ≠ .step .command) (s : Endpoint) : event.toBeSent env s = none := by
  cases event with
  | step event =>
    cases event with
    | start now => exact absurd ⟨now, rfl⟩ hstart
    | command => exact absurd rfl hcommand
    | _ => exact rfl
  | _ => exact rfl

/-- **A step writes what `::send` takes of the frame it is given**, and nothing else. -/
theorem perform_wire {event : SubmitEvent} {q r : Submitting} (hwell : WellFormed env q.process)
    (h : q.perform env event = some r) :
    wire r.process.endpoint.log = wire q.process.endpoint.log ++
      takenOf env (event.toBeSent env q.process.endpoint) q.process.endpoint := by
  have hprogress := (perform_progress hwell.live h).2
  by_cases hstart : ∃ now, event = .step (.start now)
  · obtain ⟨now, rfl⟩ := hstart
    obtain ⟨p, hp, rfl⟩ := Option.map_eq_some_iff.mp h
    cases (perform_performs hp).2 with
    | start now _ =>
      show wire (Process.after _ _ _).endpoint.log = _
      rw [(after_same ..).1]
      exact doHandshake_wire env now q.process.endpoint
  by_cases hcommand : event = .step .command
  · subst hcommand
    obtain ⟨p, hp, rfl⟩ := Option.map_eq_some_iff.mp h
    cases (perform_performs hp).2 with
    | command cmd rest hqueue _ =>
      show wire (Process.after _ _ _).endpoint.log = _
      rw [(after_same ..).1, handleCommand_wire, toBeSent_command env hqueue]
      rfl
  · rw [hprogress.silent (fun now hevent => hstart ⟨now, hevent⟩) hcommand, toBeSent_none env hstart hcommand]
    exact (List.append_nil _).symm

/-! ### Every run -/

/-- The stream is what was taken of the frames, one after the other, and after a part of a frame nothing. -/
structure Streamed (q : Sending) : Prop where
  wire : wire q.client.process.endpoint.log = (q.frames.map Prod.snd).flatten
  parts : ∀ e ∈ q.frames, e.2 <+: e.1
  last : q.frames.Pairwise fun e later => e.2 = [] ∨ e.2 = e.1 ∨ later.2 = []

theorem taken_prefix (env : Env) (raw : Bytes) (s : Endpoint) : s.taken env raw <+: raw := by
  unfold Endpoint.taken
  split
  · exact List.nil_prefix
  · exact List.take_prefix ..

theorem Sending.perform_frames {event : SubmitEvent} {q r : Sending} (h : q.perform env event = some r) :
    q.client.perform env event = some r.client ∧ r.frames = q.frames ++
      ((event.toBeSent env q.client.process.endpoint).map fun raw =>
        (raw, q.client.process.endpoint.taken env raw)).toList := by
  obtain ⟨client, hclient, rfl⟩ := Option.map_eq_some_iff.mp h
  exact ⟨hclient, rfl⟩

theorem Streamed.step {event : SubmitEvent} {q r : Sending} (hwell : WellFormed env q.client.process)
    (hq : Streamed q) (hrule : LastCut env q event) (h : q.perform env event = some r) : Streamed r := by
  obtain ⟨hclient, hframes⟩ := Sending.perform_frames h
  have hwire := perform_wire hwell hclient
  unfold LastCut at hrule
  cases hoffered : event.toBeSent env q.client.process.endpoint with
  | none =>
    rw [hoffered] at hwire hframes
    have hsame : r.frames = q.frames := hframes.trans (List.append_nil _)
    refine ⟨?_, by rw [hsame]; exact hq.parts, by rw [hsame]; exact hq.last⟩
    rw [hsame, hwire, ← hq.wire]
    exact List.append_nil _
  | some raw =>
    rw [hoffered] at hwire hframes
    simp only [hoffered] at hrule
    have hmore : r.frames = q.frames ++ [(raw, q.client.process.endpoint.taken env raw)] := hframes
    refine ⟨?_, fun e he => ?_, ?_⟩
    · rw [hwire, hmore, hq.wire, List.map_append, List.flatten_append]
      exact congrArg _ (List.append_nil _).symm
    · rw [hmore] at he
      rcases List.mem_append.mp he with he | he
      · exact hq.parts e he
      · rw [List.mem_singleton.mp he]
        exact taken_prefix ..
    · rw [hmore]
      refine List.pairwise_append.mpr ⟨hq.last, List.pairwise_singleton .., fun e he later hlater => ?_⟩
      rw [List.mem_singleton.mp hlater]
      by_cases hcut : e.2 ≠ [] ∧ e.2 ≠ e.1
      · exact .inr (.inr (hrule ⟨e, he, hcut⟩))
      · rw [not_and_or, not_not, not_not] at hcut
        exact hcut.imp_right .inl

/-- What the client itself does is a run of the client. -/
theorem reachable_client {q : Sending} (h : Reachable (sending env) q) : Reachable (submitting env) q.client := by
  induction h with
  | init hq => exact .init hq.1
  | step _ hstep ih =>
    obtain ⟨client, hclient, rfl⟩ := Option.map_eq_some_iff.mp hstep
    exact .step ih hclient

theorem reachable_streamed {q : Sending} (h : Reachable ((sending env).under (LastCut env)) q) : Streamed q := by
  induction h with
  | @init q hq =>
    obtain ⟨⟨⟨pubKey, maxFrameSize, socket, epollFd, cmdEvFd, _, hprocess⟩, _⟩, hframes⟩ := hq
    refine ⟨?_, fun e he => ?_, ?_⟩
    · rw [hframes, hprocess]
      rfl
    · rw [hframes] at he
      cases he
    · rw [hframes]
      exact .nil
  | step hs hstep ih => exact ih.step (submitting_wellFormed (reachable_client hs.of_under)) hstep.1 hstep.2

/-- **The stream stays framed**, in every run in which the socket takes nothing more once it has taken a
part of a frame: it is whole frames that were given to `::send`, and at most one incomplete frame behind
them. In a step that breaks this rule bytes are written behind a frame that has broken off. -/
theorem requests_framed {q : Sending} (h : Reachable ((sending env).under (LastCut env)) q) :
    Framed (· ∈ q.frames.map Prod.fst) (wire q.client.process.endpoint.log) ∧
      ∀ event r, (sending env).step q event r → ¬ LastCut env q event →
        (∃ e ∈ q.frames, e.2 ≠ [] ∧ e.2 ≠ e.1) ∧ ∃ bytes, bytes ≠ [] ∧
          wire r.client.process.endpoint.log = wire q.client.process.endpoint.log ++ bytes := by
  have hstreamed := reachable_streamed h
  refine ⟨?_, fun event r hstep hrule => ?_⟩
  · rw [hstreamed.wire]
    exact .of_pairwise hstreamed.parts hstreamed.last
  · obtain ⟨hclient, _⟩ := Sending.perform_frames hstep
    have hwire := perform_wire (submitting_wellFormed (reachable_client h.of_under)) hclient
    unfold LastCut at hrule
    split at hrule
    · next raw hoffered =>
      obtain ⟨hcut, hsome⟩ := Classical.not_imp.mp hrule
      rw [hoffered] at hwire
      exact ⟨hcut, _, hsome, hwire⟩
    · exact absurd trivial hrule

/-- The requests of a connected client, each pushed and then sent. -/
def twoRequests : List SubmitEvent :=
  requestRun ++ [.build (ascii ['/', 'q']) [3],
    .push ⟨.send, some ⟨1, 3, 7, STATUS_REQ, 0, ascii ['/', 'q'], [3]⟩⟩, .step .command]

/-- `::send` takes everything, but of the second frame only a byte. -/
def shortEnv : Env := {quietEnv with send := fun i => if i = 1 then .count 1 else .count 65536}

/-- A request of which one byte is taken, and nothing after it. -/
theorem request_framed : ∃ q : Sending, q.frames.map (fun e => (e.1.length, e.2.length)) = [(65, 65), (61, 1)] ∧
    Framed (· ∈ q.frames.map Prod.fst) (wire q.client.process.endpoint.log) := by
  have hrun : (execute (guarded (LastCut shortEnv) fun (q : Sending) event => q.perform shortEnv event) requestRun
      ⟨⟨connected3, [], []⟩, []⟩).map (fun q => q.frames.map fun e => (e.1.length, e.2.length)) =
        some [(65, 65), (61, 1)] := by
    decide +kernel
  obtain ⟨q, hq, hframes⟩ := Option.map_eq_some_iff.mp hrun
  have hnext : ∀ event (q r : Sending), q.perform shortEnv event = some r → (sending shortEnv).step q event r :=
    fun _ _ _ h => h
  have hreach : Reachable ((sending shortEnv).under (LastCut shortEnv)) q :=
    Reachable.execute (fun event _ _ _ => guarded_step (hnext event))
      (.init ⟨⟨connected3_fresh, rfl, rfl⟩, rfl⟩) hq
  exact ⟨q, hframes, (requests_framed hreach).1⟩

/-- **One byte of a request is taken: the next request follows that byte.** -/
theorem request_behind_part : ∃ q, Reachable (sending shortEnv) q ∧
    ¬ Framed (· ∈ q.frames.map Prod.fst) (wire q.client.process.endpoint.log) := by
  have hrun : (execute (fun (q : Sending) event => q.perform shortEnv event) twoRequests
      ⟨⟨connected3, [], []⟩, []⟩).map (fun q =>
        let stream := wire q.client.process.endpoint.log
        (decide (∀ d ∈ q.frames.map Prod.fst, stream.take 65 <+: d ∨ d <+: stream.take 65 → d = stream.take 65),
          decide (∀ d ∈ q.frames.map Prod.fst, [102, 109] <+: d), (stream.drop 65).take 2)) =
            some (true, true, [102, 102]) := by
    decide +kernel
  obtain ⟨q, hq, hresult⟩ := Option.map_eq_some_iff.mp hrun
  simp only [Prod.mk.injEq, decide_eq_true_eq] at hresult
  obtain ⟨hfree, htag, hstream⟩ := hresult
  refine ⟨q, Reachable.execute (fun _ _ _ _ h => h) (.init ⟨⟨connected3_fresh, rfl, rfl⟩, rfl⟩) hq, fun hframed => ?_⟩
  have hlong : 2 ≤ ((wire q.client.process.endpoint.log).drop 65).length := by
    have hlen := congrArg List.length hstream
    rw [List.length_take] at hlen
    simp only [List.length_cons, List.length_nil] at hlen
    omega
  -- What follows the handshake does not begin as a frame does.
  rw [← List.take_append_drop 65 (wire q.client.process.endpoint.log)] at hframed
  have hrest := hframed.tail hfree (List.ne_nil_of_length_pos (by omega))
  cases hstream.symm.trans (hrest.head htag hlong)

end Fmxp.Client
