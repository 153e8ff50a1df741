import Fmxp.Server.Closing
import Fmxp.Server.Steps

/-! Which steps the epoll loop gets through.

`Closing` says when the calls on a connection return, of `readFd` during the handshake only;
`readFd_returns` adds the session. A step of the loop is completed when the calls it makes are, so
the loop gets through an event exactly when it has come to it (`Loop.Enabled`) and these calls return
(`Loop.Returns`). -/
namespace Fmxp.Server
open Transition Framing

/-! ### A greater depth -/

section
variable {env : Env} {depth : Nat} {s t : Endpoint}

theorem sendFrameWith_mono {close close' : CloseReason → Endpoint → Option Endpoint} {frame : Frame}
    (hclose : ∀ reason u v, close reason u = some v → close' reason u = some v)
    (h : sendFrameWith env close frame s = some t) : sendFrameWith env close' frame s = some t := by
  unfold sendFrameWith at h ⊢
  dsimp only at h ⊢
  cases henc : encodeFrame env.evp (env.iv s.nextFid.ivs) frame true s.nextFid.conn.aesKey s.nextFid.conn.fid with
  | error e =>
    simp only [henc] at h ⊢
    exact hclose _ _ _ h
  | ok raw =>
    simp only [henc] at h ⊢
    cases hrun : sendLoop env raw.length raw (s.nextFid.recordEncoded raw) with
    | mk u sent =>
      simp only [hrun] at h ⊢
      cases sent with
      | true => exact h
      | false => exact hclose _ _ _ h

/-- What returns at some depth returns the same at the next one. -/
theorem closeConnection_succ {reason : CloseReason} {invokeOnClose : Bool}
    (h : closeConnection env depth reason invokeOnClose s = some t) :
    closeConnection env (depth + 1) reason invokeOnClose s = some t := by
  induction depth generalizing reason invokeOnClose s t with
  | zero => cases h
  | succ depth ih =>
    unfold closeConnection at h ⊢
    split at h
    · next hclosed =>
      rw [if_pos hclosed]
      exact h
    next hopen =>
    rw [if_neg hopen]
    obtain ⟨u, hu, rfl⟩ := Option.map_eq_some_iff.mp h
    refine Option.map_eq_some_iff.mpr ⟨u, ?_, rfl⟩
    split at hu
    · next hfd => rw [if_pos hfd, hu]
    next hfd =>
    rw [if_neg hfd]
    split at hu
    · next hreason => rw [if_pos hreason, hu]
    next hreason =>
    rw [if_neg hreason]
    obtain ⟨v, hv, rfl⟩ := Option.map_eq_some_iff.mp hu
    exact Option.map_eq_some_iff.mpr ⟨v, sendFrameWith_mono (fun _ _ _ hclose => ih hclose) hv, rfl⟩

theorem readFd_succ {input : Recv} {now : UInt32} {p : Except Exn Bool × Endpoint} (hs : WellFormed env s)
    (h : readFd env depth input now s = some p) : readFd env (depth + 1) input now s = some p := by
  have hclose : ∀ {reason b u}, (closeConnection env depth reason true u).map (Prod.mk (Except.ok b)) = some p →
      (closeConnection env (depth + 1) reason true u).map (Prod.mk (Except.ok b)) = some p := by
    intro reason b u hmap
    obtain ⟨v, hv, hp⟩ := Option.map_eq_some_iff.mp hmap
    exact Option.map_eq_some_iff.mpr ⟨v, closeConnection_succ hv, hp⟩
  by_cases hfd : s.conn.fd = -1
  · unfold readFd at h ⊢
    rw [if_pos hfd] at h ⊢
    exact hclose h
  cases hfin : input.fin with
  | disconnect =>
    unfold readFd at h ⊢
    simp only [if_neg hfd, hfin] at h ⊢
    exact hclose h
  | error =>
    unfold readFd at h ⊢
    simp only [if_neg hfd, hfin] at h ⊢
    exact hclose h
  | again =>
    cases hstate : s.conn.state with
    | closed => exact absurd (hs.closed hstate) hfd
    | handshake =>
      rw [readFd_handshake hfd hstate hfin] at h ⊢
      cases hnext : (frameFramer env.evp s.conn.maxFrameSize false []).next (s.conn.inFrameBuffer ++ input.bytes) with
      | wait =>
        rw [hnext] at h
        exact h
      | bad r =>
        rw [hnext] at h
        exact hclose h
      | item frame rest =>
        simp only [hnext, acceptHandshake_eq] at h ⊢
        cases hkey : acceptedKey env.rsa frame.data (s.setBuffer rest).conn.rsaPrivKey now with
        | none =>
          rw [hkey] at h
          exact hclose h
        | some key =>
          simp only [hkey, setAesKey_eq, Option.map_map] at h ⊢
          obtain ⟨t, ht, hp⟩ := Option.map_eq_some_iff.mp h
          exact Option.map_eq_some_iff.mpr
            ⟨t, sendFrameWith_mono (fun _ _ _ hclose => closeConnection_succ hclose) ht, hp⟩
    | active =>
      cases hdrain : (s.conn.framer env.evp).drain (s.conn.inFrameBuffer ++ input.bytes) with
      | mk items rest bad =>
        cases bad with
        | some refusal =>
          rw [readFd_refused hfd hstate hfin hdrain] at h ⊢
          exact hclose h
        | none =>
          rw [readFd_drained hfd hstate hfin hdrain, deliver_eq] at h ⊢
          split at h
          · next hall =>
            rw [if_pos hall]
            exact h
          · next hsome =>
            rw [if_neg hsome]
            rw [Option.map_map] at h ⊢
            exact hclose h

end

/-! ### Reading -/

/-- Reading this returns: in a session the peer has closed, all that has arrived is taken, or the close
that follows returns. -/
def ReadReturns (env : Env) (input : Recv) (now : UInt32) (s : Endpoint) : Prop :=
  match s.conn.state with
  | .closed => True
  | .handshake => HandshakeReturns env input now s
  | .active =>
    let d := (s.conn.framer env.evp).drain (s.conn.inFrameBuffer ++ input.bytes)
    input.fin = .disconnect ∨ (input.fin = .again ∧ d.bad = none ∧ s.conn.accepted d.items = d.items) ∨
      CloseReturns env .invalidRequest s

section
variable {env : Env} {input : Recv} {now : UInt32} {s : Endpoint}

/-- **When reading returns**, in every state a connection reaches. -/
theorem readFd_returns (hs : WellFormed env s) :
    (∃ depth p, readFd env depth input now s = some p) ↔ ReadReturns env input now s := by
  have hmap : ∀ {reason b u}, (u.conn.state = .closed → u.conn.fd = -1) →
      ((∃ depth p, (closeConnection env depth reason true u).map (Prod.mk (Except.ok (ε := Exn) (b : Bool))) = some p) ↔
        CloseReturns env reason u) := by
    intro reason b u hu
    rw [← closeConnection_returns_iff env reason true hu]
    simp only [Option.map_eq_some_iff]
    constructor
    · rintro ⟨depth, p, t, ht, _⟩
      exact ⟨depth, t, ht⟩
    · rintro ⟨depth, t, ht⟩
      exact ⟨depth, _, t, ht, rfl⟩
  by_cases hfd : s.conn.fd = -1
  · -- There is nothing to read from, and nobody to say farewell to.
    have hreturns : ReadReturns env input now s := by
      unfold ReadReturns
      split
      · trivial
      · next hstate => exact absurd hfd (hs.handshake hstate).1
      · exact .inr (.inr (.inl hfd))
    have hread : ∀ depth, readFd env depth input now s =
        (closeConnection env depth .socketError true (s.receive [])).map (Prod.mk (.ok false)) := by
      intro depth
      unfold readFd
      rw [if_pos hfd]
      rfl
    simp only [hread]
    exact (hmap (u := s.receive []) hs.closed).trans ⟨fun _ => hreturns, fun _ => .inl hfd⟩
  cases hstate : s.conn.state with
  | closed => exact absurd (hs.closed hstate) hfd
  | handshake =>
    rw [readFd_returns_iff hs hstate]
    simp only [ReadReturns, hstate]
  | active =>
    simp only [ReadReturns, hstate]
    cases hfin : input.fin with
    | disconnect =>
      have hread : ∀ depth, readFd env depth input now s =
          (closeConnection env depth .natural true (s.receive input.bytes)).map (Prod.mk (.ok false)) := by
        intro depth
        unfold readFd
        simp only [if_neg hfd, hfin]
        rfl
      simp only [hread]
      exact (hmap (u := s.receive input.bytes) hs.closed).trans ⟨fun _ => .inl trivial, fun _ => .inr (.inl rfl)⟩
    | error =>
      have hread : ∀ depth, readFd env depth input now s =
          (closeConnection env depth .socketError true (s.receive input.bytes)).map (Prod.mk (.ok false)) := by
        intro depth
        unfold readFd
        simp only [if_neg hfd, hfin]
        rfl
      simp only [hread, reduceCtorEq, false_and, false_or]
      exact (hmap (u := s.receive input.bytes) hs.closed).trans (closeReturns_iff (by decide) rfl rfl rfl)
    | again =>
      simp only [reduceCtorEq, false_or, true_and]
      cases hdrain : (s.conn.framer env.evp).drain (s.conn.inFrameBuffer ++ input.bytes) with
      | mk items rest bad =>
        cases bad with
        | some refusal =>
          simp only [readFd_refused hfd hstate hfin hdrain, reduceCtorEq, false_and, false_or]
          exact (hmap (u := s.setBuffer rest) hs.closed).trans
            (closeReturns_iff (reasonOf_ne_natural refusal) rfl rfl rfl)
        | none =>
          simp only [true_and]
          by_cases hall : s.conn.accepted items = items
          · exact ⟨fun _ => .inl hall, fun _ => ⟨0, _, readFd_accepted hfd hstate hfin hdrain hall⟩⟩
          · have hsome : (s.setBuffer rest).conn.accepted items ≠ items := hall
            simp only [readFd_drained hfd hstate hfin hdrain, deliver_eq, if_neg hsome, Option.map_map, hall, false_or]
            exact (hmap (u := (s.setBuffer rest).handOver ((s.setBuffer rest).conn.accepted items)) hs.closed).trans
              (closeReturns_iff (by decide) rfl rfl rfl)

end

/-! ### Steps of the loop -/

/-- The loop has come to this event, or somebody else may make this call. -/
def Loop.Enabled (env : LoopEnv) (s : Loop) : LoopEvent → Prop
  | .wait batch => s.phase = .events ∧ s.events = [] ∧ s.Raised env batch
  | .event _ _ => s.phase = .events ∧ s.events ≠ []
  | .accept clientFd => s.phase = .accepting ∧ s.Free env clientFd
  | .accepted => s.phase = .accepting
  | .command => s.phase = .commands ∧ s.commandQueue ≠ []
  | .drained => s.phase = .commands ∧ s.commandQueue = []
  | .respond request _ _ => request ∈ s.requests
  | .push cmd => cmd ∈ s.responding
  | .serverPush .. | .closeConnection _ => True

/-- The call that an event makes on a connection returns: the read of the connection it is looked up for, or
the sending of the command's frame. Deleting and `CLOSE` are closes of the kind that always returns. -/
def Loop.Returns (env : LoopEnv) (s : Loop) : LoopEvent → Prop
  | .event input now => ∀ e ∈ s.events.head?, e.fd ≠ env.cmdEvFd → e.fd ≠ env.socket →
      ∀ c conn, s.Finds e.fd c conn → e.hup = false → e.readable = true → ReadReturns (env.conn c) input now conn
  | .command => ∀ cmd ∈ s.commandQueue.head?, cmd.type = .send → ∀ conn, s.connections.lookup cmd.connID = some conn →
      ∀ frame ∈ cmd.frame, SendReturns (env.conn cmd.connID) frame conn
  | _ => True

section
variable {env : LoopEnv} {s : Loop}

theorem delete_returns (env : LoopEnv) (depth connId : Nat) (conn : Endpoint) (s : Loop) :
    ∃ t, s.delete env (depth + 1) connId conn = some t := by
  obtain ⟨t, ht⟩ := closeConnection_silent (env.conn connId) depth .natural true (s := conn) (.inr (.inr rfl))
  exact ⟨_, by rw [Loop.delete, ht]; rfl⟩

theorem handleEvent_returns {e : EpollEvent} {input : Recv} {now : UInt32} (hs : s.Registered env) :
    (∃ depth r, s.handleEvent env depth e input now = some r) ↔
      ∀ c conn, s.Finds e.fd c conn → e.hup = false → e.readable = true → ReadReturns (env.conn c) input now conn := by
  constructor
  · rintro ⟨depth, r, hr⟩ c conn hfinds hhup hreadable
    rw [← readFd_returns (hs.wellFormed hfinds.registered)]
    cases hread : readFd (env.conn c) depth input now conn with
    | some p => exact ⟨depth, p, hread⟩
    | none =>
      simp only [Loop.handleEvent, hfinds.mapped, hfinds.registered, hhup, hreadable, hread, Bool.false_eq_true,
        if_false, if_true] at hr
      cases hr
  · intro hreturns
    simp only [Loop.handleEvent]
    cases hmapped : s.fdToId.lookup e.fd with
    | none => exact ⟨0, _, rfl⟩
    | some c =>
      cases hconn : s.connections.lookup c with
      | none => exact ⟨0, (.ok (), s), by simp only [hconn]⟩
      | some conn =>
        simp only [hconn]
        cases hhup : e.hup with
        | true =>
          obtain ⟨t, ht⟩ := delete_returns env 0 c conn s
          exact ⟨1, _, by rw [if_pos rfl, ht]; rfl⟩
        | false =>
          cases hreadable : e.readable with
          | false => exact ⟨0, _, rfl⟩
          | true =>
            have hwf := hs.wellFormed hconn
            obtain ⟨depth, ⟨r, u⟩, hread⟩ := (readFd_returns hwf).mpr (hreturns c conn ⟨hmapped, hconn⟩ hhup hreadable)
            obtain ⟨⟨ok, rfl⟩, _⟩ := readFd_cases hwf.closed hread
            refine ⟨depth + 1, ?_⟩
            simp only [Bool.false_eq_true, if_false, if_true, readFd_succ hwf hread]
            split
            · obtain ⟨t, ht⟩ := delete_returns env depth c u
                {s.put c u with requests := s.requests ++ handed conn u}
              exact ⟨_, by rw [ht]; rfl⟩
            · exact ⟨_, rfl⟩

theorem handleCommand_returns {cmd : ServerCommand} (hs : s.Registered env) :
    (∃ depth r, s.handleCommand env depth cmd = some r) ↔
      (cmd.type = .send → ∀ conn, s.connections.lookup cmd.connID = some conn →
        ∀ frame ∈ cmd.frame, SendReturns (env.conn cmd.connID) frame conn) := by
  simp only [Loop.handleCommand]
  cases hconn : s.connections.lookup cmd.connID with
  | none => exact ⟨fun _ _ conn h => (by cases h), fun _ => ⟨0, _, rfl⟩⟩
  | some conn =>
    cases htype : cmd.type with
    | close =>
      obtain ⟨t, ht⟩ := closeConnection_silent (env.conn cmd.connID) 0 .natural true (s := conn) (.inr (.inr rfl))
      exact ⟨fun _ h => (by cases h), fun _ => ⟨1, _, by simp only [ht]; rfl⟩⟩
    | send =>
      cases hframe : cmd.frame with
      | none => exact ⟨fun _ _ _ _ frame h => (by cases h), fun _ => ⟨0, _, rfl⟩⟩
      | some frame =>
        have hsend := sendFrame_returns_iff (env.conn cmd.connID) frame (hs.wellFormed hconn).closed
        simp only [Option.some.injEq, forall_eq', Option.mem_def, forall_const, ← hsend, Option.map_eq_some_iff]
        constructor
        · rintro ⟨depth, r, t, ht, _⟩
          exact ⟨depth, t, ht⟩
        · rintro ⟨depth, t, ht⟩
          exact ⟨depth, _, t, ht, rfl⟩

/-- **Which events the loop gets through.** -/
theorem step_iff (hs : s.Registered env) (huncaught : s.uncaught = none) (event : LoopEvent) :
    (∃ t, (epollLoop env).step s event t) ↔ s.Enabled env event ∧ s.Returns env event := by
  have hgo : ¬ s.uncaught.isSome = true := by
    rw [huncaught]
    decide
  constructor
  · rintro ⟨t, depth, hperform⟩
    cases (perform_step hperform).2 with
    | wait hphase hevents hraised => exact ⟨⟨hphase, hevents, hraised⟩, trivial⟩
    | @wake _ _ e rest hphase hevents hcmd =>
      refine ⟨⟨hphase, by rw [hevents]; exact List.cons_ne_nil e rest⟩, fun e' he' hne => ?_⟩
      rw [hevents] at he'
      cases he'
      exact absurd hcmd hne
    | @listen _ _ e rest hphase hevents _ hsocket =>
      refine ⟨⟨hphase, by rw [hevents]; exact List.cons_ne_nil e rest⟩, fun e' he' _ hne => ?_⟩
      rw [hevents] at he'
      cases he'
      exact absurd hsocket hne
    | @event _ _ e rest _ _ hphase hevents _ _ hu =>
      refine ⟨⟨hphase, by rw [hevents]; exact List.cons_ne_nil e rest⟩, fun e' he' _ _ c conn hfinds => ?_⟩
      rw [hevents] at he'
      cases he'
      have htaken : Loop.Registered env {s with events := rest} := hs
      exact (handleEvent_returns htaken).mp ⟨depth, _, hu⟩ c conn ⟨hfinds.mapped, hfinds.registered⟩
    | accept hphase hfree => exact ⟨⟨hphase, hfree⟩, trivial⟩
    | accepted hphase => exact ⟨hphase, trivial⟩
    | @command cmd rest _ _ hphase hqueue hu =>
      refine ⟨⟨hphase, by rw [hqueue]; exact List.cons_ne_nil cmd rest⟩, fun cmd' hcmd' => ?_⟩
      rw [hqueue] at hcmd'
      cases hcmd'
      have hpopped : Loop.Registered env {s with commandQueue := rest} := hs
      exact (handleCommand_returns hpopped).mp ⟨depth, _, hu⟩
    | drained hphase hqueue => exact ⟨⟨hphase, hqueue⟩, trivial⟩
    | respond hmem => exact ⟨hmem, trivial⟩
    | serverPush => exact ⟨trivial, trivial⟩
    | push hmem => exact ⟨hmem, trivial⟩
    | closeConnection => exact ⟨trivial, trivial⟩
  · rintro ⟨henabled, hreturns⟩
    cases event with
    | wait | accept | accepted | drained | respond | push =>
      exact ⟨_, 0, by rw [Loop.perform, if_neg hgo]; exact if_pos henabled⟩
    | serverPush | closeConnection => exact ⟨_, 0, by rw [Loop.perform, if_neg hgo]⟩
    | event input now =>
      obtain ⟨hphase, hsome⟩ := henabled
      obtain ⟨e, rest, hevents⟩ := List.exists_cons_of_ne_nil hsome
      have hperform : ∀ depth, s.perform env depth (.event input now) =
          if e.fd = env.cmdEvFd then some {s with events := rest, phase := .commands}
          else if e.fd = env.socket then some {s with events := rest, phase := .accepting}
          else (Loop.handleEvent env depth e input now {s with events := rest}).map Loop.after := by
        intro depth
        simp only [Loop.perform, huncaught, hphase, hevents, Option.isSome_none, Bool.false_eq_true, if_false]
      by_cases hcmd : e.fd = env.cmdEvFd
      · exact ⟨_, 0, by rw [hperform, if_pos hcmd]⟩
      by_cases hsocket : e.fd = env.socket
      · exact ⟨_, 0, by rw [hperform, if_neg hcmd, if_pos hsocket]⟩
      have htaken : Loop.Registered env {s with events := rest} := hs
      obtain ⟨depth, r, hr⟩ := (handleEvent_returns htaken).mpr fun c conn hfinds =>
        hreturns e (by rw [hevents]; rfl) hcmd hsocket c conn ⟨hfinds.mapped, hfinds.registered⟩
      exact ⟨_, depth, by rw [hperform, if_neg hcmd, if_neg hsocket, hr]; rfl⟩
    | command =>
      obtain ⟨hphase, hsome⟩ := henabled
      obtain ⟨cmd, rest, hqueue⟩ := List.exists_cons_of_ne_nil hsome
      have hpopped : Loop.Registered env {s with commandQueue := rest} := hs
      obtain ⟨depth, r, hr⟩ := (handleCommand_returns hpopped).mpr (hreturns cmd (by rw [hqueue]; rfl))
      have hperform : s.perform env depth .command =
          (Loop.handleCommand env depth cmd {s with commandQueue := rest}).map Loop.after := by
        simp only [Loop.perform, huncaught, hphase, hqueue, Option.isSome_none, Bool.false_eq_true, if_false]
      exact ⟨_, depth, by rw [hperform, hr]; rfl⟩

end

end Fmxp.Server
