import Fmxp.Client.Effects
import Fmxp.Library.Transition

/-! The life of a client connection, as a transition system.

A process is a connection, the frames its epoll thread has parsed and not yet
dispatched, and the exception that ended it, if one left that thread. Its labels are
the rounds of the epoll thread's loops and the calls of the application, in any order;
a call of `close` by the application is two steps, with whatever the epoll thread does
before it is joined between them. `Performs` lists the steps and the tests they pass, and
`Effect` what they come to. -/
namespace Fmxp.Client
open Transition

inductive Event where
  | start (now : UInt32)
  | readable (input : Recv)
  | dispatch
  | hangup
  | command
  | sendReq (path data : Bytes)
  | beginClose
  | endClose
  | setOnClose
  deriving DecidableEq, Repr

/-- `looping` says whether the epoll thread has entered its loop, `pending` holds the
frames its dispatch loop has still to go through. -/
structure Process where
  endpoint : Endpoint
  looping : Bool := false
  pending : List Frame := []
  uncaught : Option Exn := none
  deriving DecidableEq, Repr

/-- The outcome of a call on the epoll thread: an exception ends the process. -/
def Process.after (p : Process) {α : Type} (r : Except Exn α × Endpoint) (next : α → Process → Process) :
    Process :=
  match r with
  | (.ok a, s) => next a {p with endpoint := s}
  | (.error e, s) => {p with endpoint := s, uncaught := some e}

/-- The epoll thread is between two rounds of its event loop. -/
def Process.idle (p : Process) : Bool := p.looping && p.endpoint.conn.joinable && p.pending.isEmpty

def perform (env : Env) (event : Event) (p : Process) : Option Process :=
  if p.uncaught.isSome then none
  else match event with
    | .start now =>
      if p.looping then none
      else some ({p with looping := true}.after (doHandshake env now p.endpoint) fun _ p => p)
    | .readable input =>
      if p.idle then some (p.after (receive env input p.endpoint) fun frames p => {p with pending := frames})
      else none
    | .dispatch =>
      match p.pending with
      | [] => none
      | frame :: rest =>
        some (p.after (dispatchFrame frame p.endpoint) fun taken p =>
          {p with pending := if taken then rest else []})
    | .hangup => if p.idle then some (p.after (close .epoll p.endpoint) fun _ p => p) else none
    | .command =>
      match p.endpoint.conn.commandQueue with
      | [] => none
      | cmd :: rest =>
        if p.idle then
          some (p.after (handleCommand env cmd (p.endpoint.modify fun c => {c with commandQueue := rest}))
            fun _ p => p)
        else none
    | .sendReq path data => some {p with endpoint := (sendReq path data p.endpoint).2}
    | .beginClose =>
      if !p.endpoint.conn.running || p.endpoint.conn.state = .closed then none
      else some {p with endpoint := p.endpoint.beginClose}
    | .endClose =>
      if p.endpoint.conn.state = .closed && p.endpoint.conn.joinable && p.pending.isEmpty then
        some {p with endpoint := (p.endpoint.modify fun c => {c with joinable := false}).closeFds}
      else none
    | .setOnClose => some {p with endpoint := p.endpoint.modify fun c => {c with onClose := true}}

/-- A process as the constructor of its connection leaves it. -/
def Process.Fresh (p : Process) : Prop :=
  ∃ pubKey maxFrameSize socket epollFd cmdEvFd, socket ≠ -1 ∧
    p = {endpoint := {conn := {
      pubKey := pubKey, socket := socket, epollFd := epollFd, cmdEvFd := cmdEvFd, maxFrameSize := maxFrameSize}}}

def lifecycle (env : Env) : System Process Event where
  init := Process.Fresh
  step := fun p event q => perform env event p = some q

/-! ### What a step can do -/

theorem Process.looping_of_idle {p : Process} (h : p.idle = true) : p.looping = true := by
  simp only [Process.idle, Bool.and_eq_true] at h
  exact h.1.1

theorem Process.pending_of_idle {p : Process} (h : p.idle = true) : p.pending = [] := by
  simp only [Process.idle, Bool.and_eq_true, List.isEmpty_iff] at h
  exact h.2

/-- A step, with the tests it has passed. -/
inductive Performs (env : Env) (p : Process) : Event → Process → Prop where
  | start (now : UInt32) : p.looping = false →
      Performs env p (.start now) ({p with looping := true}.after (doHandshake env now p.endpoint) fun _ p => p)
  | readable (input : Recv) : p.idle = true → Performs env p (.readable input)
      (p.after (receive env input p.endpoint) fun frames p => {p with pending := frames})
  | dispatch (frame : Frame) (rest : List Frame) : p.pending = frame :: rest → Performs env p .dispatch
      (p.after (dispatchFrame frame p.endpoint) fun taken p => {p with pending := if taken then rest else []})
  | hangup : p.idle = true → Performs env p .hangup (p.after (close .epoll p.endpoint) fun _ p => p)
  | command (cmd : ClientCommand) (rest : List ClientCommand) : p.endpoint.conn.commandQueue = cmd :: rest →
      p.idle = true → Performs env p .command
        (p.after (handleCommand env cmd (p.endpoint.modify fun c => {c with commandQueue := rest})) fun _ p => p)
  | sendReq (path data : Bytes) :
      Performs env p (.sendReq path data) {p with endpoint := (sendReq path data p.endpoint).2}
  | beginClose : p.endpoint.conn.running = true → p.endpoint.conn.state ≠ .closed →
      Performs env p .beginClose {p with endpoint := p.endpoint.beginClose}
  | endClose : p.endpoint.conn.state = .closed → p.endpoint.conn.joinable = true → p.pending = [] →
      Performs env p .endClose {p with endpoint := (p.endpoint.modify fun c => {c with joinable := false}).closeFds}
  | setOnClose : Performs env p .setOnClose {p with endpoint := p.endpoint.modify fun c => {c with onClose := true}}

theorem perform_performs {env : Env} {event : Event} {p q : Process} (h : perform env event p = some q) :
    p.uncaught = none ∧ Performs env p event q := by
  unfold perform at h
  split at h
  · cases h
  next hgo =>
  refine ⟨Option.not_isSome_iff_eq_none.mp hgo, ?_⟩
  cases event with
  | start now =>
    dsimp only at h
    split at h <;> cases h
    next hloop => exact .start now (Bool.eq_false_of_not_eq_true hloop)
  | readable input =>
    dsimp only at h
    split at h <;> cases h
    next hidle => exact .readable input hidle
  | dispatch =>
    dsimp only at h
    split at h <;> cases h
    next frame rest hpending => exact .dispatch frame rest hpending
  | hangup =>
    dsimp only at h
    split at h <;> cases h
    next hidle => exact .hangup hidle
  | command =>
    dsimp only at h
    split at h
    · cases h
    next cmd rest hqueue =>
    split at h <;> cases h
    next hidle => exact .command cmd rest hqueue hidle
  | sendReq path data =>
    cases h
    exact .sendReq path data
  | beginClose =>
    dsimp only at h
    split at h <;> cases h
    next hopen =>
    simp only [Bool.or_eq_true, Bool.not_eq_true', decide_eq_true_eq, not_or, Bool.not_eq_false] at hopen
    exact .beginClose hopen.1 hopen.2
  | endClose =>
    dsimp only at h
    split at h <;> cases h
    next hclosed =>
    simp only [Bool.and_eq_true, decide_eq_true_eq, List.isEmpty_iff] at hclosed
    exact .endClose hclosed.1.1 hclosed.1.2 hclosed.2
  | setOnClose =>
    cases h
    exact .setOnClose

/-- The key of the connection once the handshake has been started. -/
def keyed (env : Env) (s : Endpoint) : Endpoint := s.modify fun c => {c with aesKey := env.key.val}

/-- **A step sends or closes, starts the handshake, reads, or hands a frame over.** -/
inductive Effect (env : Env) (event : Event) (p q : Process) : Prop where
  | quiet : Keeps p.endpoint q.endpoint → q.looping = p.looping →
      (q.pending = p.pending ∨ q.pending = []) → Effect env event p q
  | started : p.looping = false → Keeps (keyed env p.endpoint) q.endpoint → q.looping = true →
      q.pending = p.pending → Effect env event p q
  | read (input : Recv) (confirmation : Option Frame) (b : Bytes) : event = .readable input → p.idle = true →
      Keeps ((p.endpoint.confirm confirmation).setBuffer b) q.endpoint →
      (∀ frame, confirmation = some frame → (p.endpoint.conn.parsed env.evp
        (p.endpoint.conn.frameBuffer ++ (heard input p.endpoint).bytes)).confirmation = some frame) →
      (q.pending = [] ∨ (q.pending = (p.endpoint.conn.parsed env.evp
          (p.endpoint.conn.frameBuffer ++ (heard input p.endpoint).bytes)).frames ∧
        confirmation = (p.endpoint.conn.parsed env.evp
          (p.endpoint.conn.frameBuffer ++ (heard input p.endpoint).bytes)).confirmation)) →
      q.looping = p.looping → Effect env event p q
  | handed (frame : Frame) (rest : List Frame) : event = .dispatch → p.pending = frame :: rest →
      frame.ssid = p.endpoint.conn.ssid → p.endpoint.conn.lastSrvFid < frame.fid →
      q = {p with endpoint := p.endpoint.handOver [frame], pending := rest} → Effect env event p q

theorem after_endpoint (p : Process) {α : Type} (r : Except Exn α × Endpoint) (next : α → Process → Process)
    (hnext : ∀ a q, (next a q).endpoint = q.endpoint) : (p.after r next).endpoint = r.2 := by
  obtain ⟨r, s⟩ := r
  cases r with
  | ok a => exact hnext a _
  | error e => rfl

theorem after_same (p : Process) (r : Except Exn Unit × Endpoint) :
    (p.after r fun _ q => q).endpoint = r.2 ∧ (p.after r fun _ q => q).looping = p.looping ∧
      (p.after r fun _ q => q).pending = p.pending := by
  obtain ⟨r, s⟩ := r
  cases r <;> exact ⟨rfl, rfl, rfl⟩

theorem doHandshake_keeps (env : Env) (now : UInt32) (s : Endpoint) :
    Keeps (keyed env s) (doHandshake env now s).2 := by
  unfold doHandshake
  dsimp only
  split
  · exact Keeps.refl _
  · have hnumbered : Keeps (keyed env s) ((keyed env s).modify fun c => {c with rid := c.rid + 1}) :=
      .of_log_eq rfl rfl (.inl rfl)
    exact hnumbered.trans (handleCommand_keeps env _ _)

theorem perform_effect {env : Env} {event : Event} {p q : Process}
    (hs : p.endpoint.conn.state ≠ .closed → Live p.endpoint) (h : perform env event p = some q) :
    Effect env event p q := by
  have hquiet : ∀ {r : Except Exn Unit × Endpoint}, Keeps p.endpoint r.2 →
      Effect env event p (p.after r fun _ q => q) := by
    intro r hkeeps
    obtain ⟨hend, hlooping, hpending⟩ := after_same p r
    exact .quiet (hend ▸ hkeeps) hlooping (.inl hpending)
  cases (perform_performs h).2 with
  | start now hloop =>
    obtain ⟨hend, hlooping, hpending⟩ := after_same {p with looping := true} (doHandshake env now p.endpoint)
    exact .started hloop (hend ▸ doHandshake_keeps env now p.endpoint) hlooping hpending
  | readable input hidle =>
    have hempty := Process.pending_of_idle hidle
    obtain ⟨confirmation, b, hkeeps, hconfirmed, hframes⟩ := receive_effect env input hs
    cases hr : receive env input p.endpoint with
    | mk r t =>
      rw [hr] at hkeeps hframes
      cases r with
      | ok frames =>
        obtain ⟨hconf, hpending⟩ := hframes frames rfl
        exact .read input confirmation b rfl hidle hkeeps hconfirmed (.inr ⟨hpending, hconf⟩) rfl
      | error e => exact .read input confirmation b rfl hidle hkeeps hconfirmed (.inl hempty) rfl
  | dispatch frame rest hpending =>
    rcases dispatchFrame_effect frame p.endpoint with ⟨hssid, hfid, htaken⟩ | ⟨hkeeps, hrefused⟩
    · rw [htaken]
      exact .handed frame rest rfl hpending hssid hfid rfl
    · cases hr : dispatchFrame frame p.endpoint with
      | mk r t =>
        rw [hr] at hkeeps hrefused
        cases r with
        | error e => exact .quiet hkeeps rfl (.inl rfl)
        | ok taken =>
          cases taken with
          | true => exact absurd rfl hrefused
          | false => exact .quiet hkeeps rfl (.inr rfl)
  | hangup _ => exact hquiet (close_keeps .epoll p.endpoint)
  | command cmd rest _ _ =>
    have hpopped : Keeps p.endpoint (p.endpoint.modify fun c => {c with commandQueue := rest}) :=
      .of_log_eq rfl rfl (.inl rfl)
    exact hquiet (hpopped.trans (handleCommand_keeps env cmd _))
  | sendReq path data =>
    refine .quiet ?_ rfl (.inl rfl)
    show Keeps p.endpoint (sendReq path data p.endpoint).2
    unfold sendReq
    split
    · exact Keeps.refl _
    · exact .of_log_eq rfl rfl (.inl rfl)
  | beginClose _ _ => exact .quiet (beginClose_keeps p.endpoint).1 rfl (.inl rfl)
  | endClose hclosed _ _ =>
    have hjoined : Keeps p.endpoint (p.endpoint.modify fun c => {c with joinable := false}) :=
      .of_log_eq rfl rfl (.inr hclosed)
    exact .quiet (hjoined.trans (closeFds_keeps hclosed)) rfl (.inl rfl)
  | setOnClose => exact .quiet (.of_log_eq rfl rfl (.inl rfl)) rfl (.inl rfl)

/-! ### Invariants of every run -/

structure WellFormed (env : Env) (p : Process) : Prop where
  live : p.endpoint.conn.state ≠ .closed → Live p.endpoint
  key : p.looping = true → p.endpoint.conn.aesKey = env.key.val
  pending : p.looping = false → p.pending = []

theorem Keeps.live {s t : Endpoint} (h : Keeps s t) (hs : s.conn.state ≠ .closed → Live s) :
    t.conn.state ≠ .closed → Live t := by
  intro hopen
  have hstatus := h.status.resolve_right hopen
  have hstate : t.conn.state = s.conn.state := congrArg (·.1) hstatus
  have hlive := hs (hstate ▸ hopen)
  exact ⟨hopen, (congrArg (·.2.1) hstatus).trans hlive.running, (congrArg (·.2.2) hstatus).trans hlive.joinable⟩

/-- A confirmation is found during the handshake alone. -/
theorem parsed_confirmation {evp : Evp} {c : Connection} {b : Bytes} {f : Frame}
    (h : (c.parsed evp b).confirmation = some f) : c.state = .handshake := by
  unfold Connection.parsed at h
  split at h
  · assumption
  · cases h

theorem confirm_live {evp : Evp} {s : Endpoint} {confirmation : Option Frame} {b c : Bytes}
    (hs : s.conn.state ≠ .closed → Live s)
    (hconf : ∀ f, confirmation = some f → (s.conn.parsed evp b).confirmation = some f) :
    ((s.confirm confirmation).setBuffer c).conn.state ≠ .closed → Live ((s.confirm confirmation).setBuffer c) := by
  intro hopen
  cases confirmation with
  | none =>
    have hlive := hs hopen
    exact ⟨hopen, hlive.running, hlive.joinable⟩
  | some f =>
    have hstate := parsed_confirmation (hconf f rfl)
    have hlive := hs (by rw [hstate]; intro h; cases h)
    exact ⟨hopen, hlive.running, hlive.joinable⟩

theorem confirm_aesKey (s : Endpoint) (confirmation : Option Frame) (b : Bytes) :
    ((s.confirm confirmation).setBuffer b).conn.aesKey = s.conn.aesKey := by
  cases confirmation <;> rfl

theorem Effect.wellFormed {env : Env} {event : Event} {p q : Process} (hp : WellFormed env p)
    (h : Effect env event p q) :
    WellFormed env q := by
  cases h with
  | quiet hkeeps hlooping hpending =>
    refine ⟨hkeeps.live hp.live, fun hl => hkeeps.aesKey.trans (hp.key (hlooping ▸ hl)), fun hl => ?_⟩
    rcases hpending with heq | hnil
    · exact heq.trans (hp.pending (hlooping ▸ hl))
    · exact hnil
  | started _ hkeeps hlooping _ =>
    have hkeyed : (keyed env p.endpoint).conn.state ≠ .closed → Live (keyed env p.endpoint) := by
      intro hopen
      have hlive := hp.live hopen
      exact ⟨hopen, hlive.running, hlive.joinable⟩
    refine ⟨hkeeps.live hkeyed, fun _ => hkeeps.aesKey, fun hl => ?_⟩
    rw [hlooping] at hl
    cases hl
  | read input confirmation b _ hidle hkeeps hconf _ hlooping =>
    have hloop := Process.looping_of_idle hidle
    refine ⟨hkeeps.live (confirm_live hp.live hconf), fun _ => ?_, fun hl => ?_⟩
    · rw [hkeeps.aesKey, confirm_aesKey]
      exact hp.key hloop
    · rw [hlooping, hloop] at hl
      cases hl
  | handed frame rest _ hpending _ _ heq =>
    subst heq
    refine ⟨fun hopen => ?_, hp.key, fun hl => ?_⟩
    · have hlive := hp.live hopen
      exact ⟨hopen, hlive.running, hlive.joinable⟩
    · rw [hp.pending hl] at hpending
      cases hpending

theorem Process.Fresh.wellFormed {env : Env} {p : Process} (h : p.Fresh) : WellFormed env p := by
  obtain ⟨pubKey, maxFrameSize, socket, epollFd, cmdEvFd, _, rfl⟩ := h
  refine ⟨fun hopen => ⟨hopen, rfl, rfl⟩, fun hl => ?_, fun _ => rfl⟩
  cases hl

/-- **Every state a client reaches is well formed.** -/
theorem reachable_wellFormed {env : Env} {p : Process} (h : Reachable (lifecycle env) p) : WellFormed env p := by
  refine h.invariant (fun _ => Process.Fresh.wellFormed) ?_
  intro p event q hp hstep
  have hperform : perform env event p = some q := hstep
  exact (perform_effect hp.live hperform).wellFormed hp

/-! ### A connection to try things on -/

/-- An environment in which every call succeeds. -/
def quietEnv : Env where
  evp := Evp.transparent
  rsa := Rsa.transparent
  iv := fun _ => iv7
  send := fun _ => .count 65536
  key := ⟨List.replicate 32 5, rfl⟩
  seed := []

/-- A client just connected, on socket 3. -/
def connected3 : Process :=
  {endpoint := {conn := {pubKey := [], socket := 3, epollFd := 4, cmdEvFd := 5, maxFrameSize := 4096}}}

theorem connected3_fresh : connected3.Fresh := ⟨[], 4096, 3, 4, 5, by decide, rfl⟩

/-- The confirmation a server sends on session 7, in the clear and on the wire. -/
def confirmation7 : Frame := ⟨1, 0, 7, STATUS_OK, 0, [], connectionSecured⟩

def confirmationRaw : Bytes := sealedFrame confirmation7 0

/-- A response on that session, with the fid behind the confirmation's, and its encoding. -/
def response7 : Frame := ⟨2, 2, 7, STATUS_OK, 0, ascii ['/', 'p'], [3]⟩

def responseRaw : Bytes := sealedFrame response7 0

end Fmxp.Client
