import Fmxp.Client.Lifecycle

/-! What becomes of input the client refuses.

Three kinds of refusal reach three different ends. A buffer without the protocol tag or
over the limit, and a frame the decoder refuses, call `close`, which joins the thread it is
running on. A body the cipher refuses, and a handshake answer of another content, throw a
`runtime_error`, which nothing catches. Either way an exception leaves `_parseFrames`, so it
returns exactly when it refuses nothing (`parse_graceful_iff`). -/
namespace Fmxp.Client
open Transition Framing

/-- `_parseFrames`, on the epoll thread, deals with what it refuses: the call returns,
the connection is closed, and `close` has not joined its own thread. -/
structure Graceful (env : Env) (s : Endpoint) : Prop where
  returns : ∃ frames, (parseFrames env (s.conn.frameBuffer.length + 1) s []).1 = .ok frames
  closes : (s.conn.parsed env.evp s.conn.frameBuffer).bad ≠ none →
    (parseFrames env (s.conn.frameBuffer.length + 1) s []).2.conn.state = .closed
  joins : .joinedSelf ∉ (parseFrames env (s.conn.frameBuffer.length + 1) s []).2.log.drop s.log.length

theorem confirm_log (s : Endpoint) (confirmation : Option Frame) :
    (s.confirm confirmation).log = s.log ++ (confirmation.map Output.confirmed).toList := by
  cases confirmation with
  | none => exact (List.append_nil _).symm
  | some f => rfl

/-- Every refusal ends in an exception: the join of the running thread, or the one that was thrown. -/
theorem refuse_throws {s : Endpoint} (hs : Live s) (r : Refusal) (frames : List Frame) :
    ∃ e, (refuse r frames s).1 = .error e := by
  have hclose : ∃ e, (closeThen s frames).1 = .error e := ⟨_, by rw [closeThen_live hs]⟩
  cases r with
  | protocol => exact hclose
  | tooLong => exact hclose
  | rejected e =>
    cases e with
    | fmxp _ => exact hclose
    | _ => exact ⟨_, rfl⟩

theorem graceful_iff {env : Env} {s : Endpoint} (hs : Live s) :
    Graceful env s ↔ (s.conn.parsed env.evp s.conn.frameBuffer).bad = none := by
  have hparse := parseFrames_eq env s
  cases hp : s.conn.parsed env.evp s.conn.frameBuffer with
  | mk confirmation frames rest bad =>
    rw [hp] at hparse
    cases bad with
    | none =>
      refine ⟨fun _ => rfl, fun _ => ⟨⟨frames, by rw [hparse]; rfl⟩, ?_, ?_⟩⟩
      · rw [hp]
        intro h
        exact absurd rfl h
      · have hlog : (endParse frames rest none (s.confirm confirmation)).2.log = (s.confirm confirmation).log := rfl
        rw [hparse, hlog, confirm_log, List.drop_left]
        cases confirmation <;> simp
    | some r =>
      refine ⟨fun h => ?_, fun h => by cases h⟩
      obtain ⟨frames', hok⟩ := h.returns
      have hconf : ∀ f, confirmation = some f →
          (s.conn.parsed env.evp s.conn.frameBuffer).confirmation = some f := by
        rw [hp]
        exact fun _ => id
      have hlive := confirm_live (c := rest) (fun _ => hs) hconf
      have hopen : ((s.confirm confirmation).setBuffer rest).conn.state ≠ .closed := by
        cases confirmation with
        | none => exact hs.state
        | some f => intro h; cases h
      obtain ⟨e, he⟩ := refuse_throws (hlive hopen) r frames
      rw [hparse] at hok
      cases he.symm.trans hok

/-- **`_parseFrames` deals with its input exactly when it refuses none of it**, in every open
state a client reaches and for every buffer, key and limit. -/
theorem parse_graceful_iff {env : Env} {p : Process} (h : Reachable (lifecycle env) p)
    (hopen : p.endpoint.conn.state ≠ .closed) (buffer key : Bytes) (maxFrameSize : UInt32) :
    let s := p.endpoint.modify fun c => {c with frameBuffer := buffer, aesKey := key, maxFrameSize := maxFrameSize}
    Graceful env s ↔ (s.conn.parsed env.evp buffer).bad = none := by
  have hlive := (reachable_wellFormed h).live hopen
  exact graceful_iff ⟨hlive.state, hlive.running, hlive.joinable⟩

/-- The confirmation and two frames behind it are dealt with: the connection is secured and has the frames. -/
theorem connected3_graceful :
    let s := connected3.endpoint.modify fun c =>
      {c with frameBuffer := confirmationRaw ++ responseRaw ++ responseRaw, aesKey := List.replicate 32 5,
              maxFrameSize := 4096}
    (parseFrames quietEnv (s.conn.frameBuffer.length + 1) s []).1 = .ok [response7, response7] ∧
      Graceful quietEnv s := by
  have hclean : (((connected3.endpoint.modify fun c =>
      {c with frameBuffer := confirmationRaw ++ responseRaw ++ responseRaw, aesKey := List.replicate 32 5,
              maxFrameSize := 4096}).conn.parsed quietEnv.evp (confirmationRaw ++ responseRaw ++ responseRaw)).bad) =
      none := by
    decide +kernel
  exact ⟨by decide +kernel, (parse_graceful_iff
    (.init connected3_fresh : Reachable (lifecycle quietEnv) connected3) (by decide) _ _ _).mpr hclean⟩

/-- **A header in front of 20 bytes that are no AES packet: the cipher's exception leaves
`_parseFrames` and the connection stays open. 29 bytes of anything else: `close` joins
the thread it runs on.** -/
theorem malformed_escapes :
    Reachable (lifecycle quietEnv) connected3 ∧
      (let s := connected3.endpoint.modify fun c =>
        {c with frameBuffer := withHeader (List.replicate 20 0), aesKey := List.replicate 32 5}
       let r := parseFrames quietEnv (s.conn.frameBuffer.length + 1) s []
       (∃ e, r.1 = .error (.runtime e)) ∧ r.2.conn.state = .handshake) ∧
      (let s := connected3.endpoint.setBuffer (List.replicate 29 0)
       let r := parseFrames quietEnv (s.conn.frameBuffer.length + 1) s []
       (∃ what, r.1 = .error (.system what)) ∧ .joinedSelf ∈ r.2.log) := by
  refine ⟨.init connected3_fresh, ⟨⟨_, rfl⟩, rfl⟩, ⟨_, rfl⟩, ?_⟩
  decide

end Fmxp.Client
