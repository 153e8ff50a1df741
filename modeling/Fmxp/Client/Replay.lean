import Fmxp.Client.Rejection

/-! Replays of what the client has consumed.

A client consumes one frame as the confirmation of its handshake and then frames as
responses. Responses have increasing fids, so none is taken twice. The confirmation does
not count: it leaves the last received fid as it was, and a copy of it is taken as a
response until the counter has passed its fid. `consumed_nodup` is what holds of every run
in which no such copy comes up, `confirmation_replayed` a run in which one does. -/
namespace Fmxp.Client
open Transition

/-- The frame an output consumes, as the confirmation or as a response. -/
def Output.consumes : Output → Option Frame
  | .confirmed frame => some frame
  | .response frame => some frame
  | _ => none

def consumed (log : List Output) : List Frame := log.filterMap Output.consumes

@[simp] theorem consumed_append (log outs : List Output) :
    consumed (log ++ outs) = consumed log ++ consumed outs :=
  List.filterMap_append

theorem consumed_quiet {outs : List Output} (h : ∀ o ∈ outs, o.quiet = true) : consumed outs = [] := by
  rw [consumed, List.filterMap_eq_nil_iff]
  intro o ho
  have hquiet := h o ho
  cases o <;> first | rfl | cases hquiet

theorem Keeps.consumed {s t : Endpoint} (h : Keeps s t) : consumed t.log = consumed s.log := by
  obtain ⟨outs, hlog, hquiet⟩ := h.log
  rw [hlog, consumed_append, consumed_quiet fun o ho => (hquiet o ho).1, List.append_nil]

theorem Keeps.mem_log {s t : Endpoint} (h : Keeps s t) {o : Output} (ho : o.quiet = false) :
    o ∈ t.log ↔ o ∈ s.log := by
  obtain ⟨outs, hlog, hquiet⟩ := h.log
  rw [hlog, List.mem_append, or_iff_left]
  intro hmem
  rw [(hquiet o hmem).1] at ho
  cases ho

/-- No frame comes up for dispatch that was taken as the confirmation and whose fid the
last received fid has not reached. -/
def ConfirmationCounted (p : Process) (event : Event) : Prop :=
  event = .dispatch → ∀ frame rest, p.pending = frame :: rest → .confirmed frame ∈ p.endpoint.log →
    frame.fid ≤ p.endpoint.conn.lastSrvFid

/-- What the frames consumed so far satisfy. -/
structure Once (p : Process) : Prop where
  nodup : (consumed p.endpoint.log).Nodup
  below : ∀ frame, .response frame ∈ p.endpoint.log → frame.fid ≤ p.endpoint.conn.lastSrvFid
  handshake : p.endpoint.conn.state = .handshake → consumed p.endpoint.log = [] ∧ p.pending = []

theorem Keeps.once {p q : Process} (hp : Once p) (h : Keeps p.endpoint q.endpoint)
    (hpending : q.pending = p.pending ∨ q.pending = []) : Once q := by
  refine ⟨h.consumed ▸ hp.nodup, fun frame hmem => ?_, fun hstate => ?_⟩
  · rw [h.lastSrvFid]
    exact hp.below frame ((h.mem_log rfl).mp hmem)
  · have hstatus := h.status.resolve_right (by rw [hstate]; intro h; cases h)
    obtain ⟨hnone, hempty⟩ := hp.handshake ((congrArg (·.1) hstatus).symm.trans hstate)
    rw [h.consumed, hnone]
    exact ⟨rfl, hpending.elim (fun heq => heq.trans hempty) id⟩

/-- During the handshake a parse without a confirmation has no frames. -/
theorem parsed_handshake {evp : Evp} {c : Connection} {b : Bytes} (hstate : c.state = .handshake)
    (hnone : (c.parsed evp b).confirmation = none) : (c.parsed evp b).frames = [] := by
  unfold Connection.parsed at *
  rw [if_pos hstate] at *
  split at hnone
  · rfl
  · rfl
  · next frame rest h =>
    split at hnone
    · cases hnone
    · next hdata => rw [if_neg hdata]

theorem Effect.once {env : Env} {p q : Process} {event : Event} (hp : Once p)
    (hrule : ConfirmationCounted p event) (h : Effect env event p q) : Once q := by
  cases h with
  | quiet hkeeps _ hpending => exact hkeeps.once hp hpending
  | started _ hkeeps _ hpending =>
    have hkeyed : Once {p with endpoint := keyed env p.endpoint} := ⟨hp.nodup, hp.below, hp.handshake⟩
    exact Keeps.once hkeyed hkeeps (.inl hpending)
  | read input confirmation b _ hidle hkeeps hconf hpending _ =>
    have hempty := Process.pending_of_idle hidle
    have hread : Once {q with endpoint := (p.endpoint.confirm confirmation).setBuffer b} := by
      cases confirmation with
      | none =>
        refine ⟨hp.nodup, hp.below, fun hstate => ⟨(hp.handshake hstate).1, ?_⟩⟩
        rcases hpending with hnil | ⟨hframes, hnone⟩
        · exact hnil
        · exact hframes.trans (parsed_handshake hstate hnone.symm)
      | some f =>
        -- A confirmation is taken during the handshake, when nothing has been consumed.
        obtain ⟨hnone, _⟩ := hp.handshake (parsed_confirmation (hconf f rfl))
        have hlog : ((p.endpoint.confirm (some f)).setBuffer b).log = p.endpoint.log ++ [.confirmed f] := rfl
        refine ⟨?_, fun frame hmem => ?_, fun hstate => by cases hstate⟩
        · rw [hlog, consumed_append, hnone]
          simp [consumed, Output.consumes]
        · rw [hlog, List.mem_append, List.mem_singleton] at hmem
          rcases hmem with hmem | hmem
          · exact hp.below frame hmem
          · cases hmem
    exact Keeps.once hread hkeeps (.inl rfl)
  | handed frame rest hevent hpending hssid hfid heq =>
    subst heq
    have hlog : (p.endpoint.handOver [frame]).log = p.endpoint.log ++ [.response frame] := rfl
    have hfresh : frame ∉ consumed p.endpoint.log := by
      intro hmem
      obtain ⟨o, ho, hconsumes⟩ := List.mem_filterMap.mp hmem
      cases o with
      | confirmed f =>
        cases hconsumes
        exact UInt32.not_le.mpr hfid (hrule hevent frame rest hpending ho)
      | response f =>
        cases hconsumes
        exact UInt32.not_le.mpr hfid (hp.below frame ho)
      | _ => cases hconsumes
    refine ⟨?_, fun f hmem => ?_, fun hstate => ?_⟩
    · rw [hlog, consumed_append]
      exact List.nodup_append.mpr ⟨hp.nodup, by simp [consumed, Output.consumes], fun a ha b hb heq => by
        rw [List.mem_singleton.mp hb] at heq
        exact hfresh (heq ▸ ha)⟩
    · show f.fid ≤ frame.fid
      rw [hlog, List.mem_append, List.mem_singleton] at hmem
      rcases hmem with hmem | hmem
      · exact UInt32.le_of_lt (UInt32.lt_of_le_of_lt (hp.below f hmem) hfid)
      · cases hmem
        exact UInt32.le_refl _
    · have hnone := (hp.handshake hstate).2
      rw [hpending] at hnone
      cases hnone

/-- **No frame is consumed twice**, whatever the network delivers, in every run in which no
copy of the confirmation comes up before the last received fid has reached its fid. -/
theorem consumed_nodup {env : Env} {p : Process}
    (h : Reachable ((lifecycle env).under ConfirmationCounted) p) : (consumed p.endpoint.log).Nodup := by
  have hinv : WellFormed env p ∧ Once p := by
    refine h.invariant (I := fun p => WellFormed env p ∧ Once p) ?_ ?_
    · intro p hp
      refine ⟨Process.Fresh.wellFormed hp, ?_⟩
      obtain ⟨pubKey, maxFrameSize, socket, epollFd, cmdEvFd, _, rfl⟩ := hp
      refine ⟨List.nodup_nil, fun frame hmem => ?_, fun _ => ⟨rfl, rfl⟩⟩
      cases hmem
    · rintro p event q ⟨hwf, honce⟩ ⟨hrule, hstep⟩
      have hperform : perform env event p = some q := hstep
      have heffect := perform_effect hwf.live hperform
      exact ⟨heffect.wellFormed hwf, heffect.once honce hrule⟩
  exact hinv.2.nodup

instance (p : Process) (event : Event) : Decidable (ConfirmationCounted p event) :=
  decidable_of_iff (event = .dispatch → ∀ frame ∈ p.pending.head?, .confirmed frame ∈ p.endpoint.log →
    frame.fid ≤ p.endpoint.conn.lastSrvFid) (by
      refine imp_congr_right fun _ => ⟨fun h frame rest hpending => ?_, fun h frame hframe => ?_⟩
      · exact h frame (by rw [hpending]; rfl)
      · obtain ⟨rest, hpending⟩ := List.head?_eq_some_iff.mp hframe
        exact h frame rest hpending)

/-- A response behind the confirmation, delivered twice, is consumed once; its copy ends the connection. -/
theorem response_taken : ∃ p : Process, consumed p.endpoint.log = [confirmation7, response7] ∧
    p.endpoint.conn.state = .closed ∧ (consumed p.endpoint.log).Nodup := by
  have hrun : (execute (guarded ConfirmationCounted fun p event => perform quietEnv event p)
      [.start 0, .readable (.once (confirmationRaw ++ responseRaw)), .dispatch, .readable (.once responseRaw),
        .dispatch]
      connected3).map (fun p => (consumed p.endpoint.log, p.endpoint.conn.state)) =
        some ([confirmation7, response7], .closed) := by
    decide +kernel
  obtain ⟨p, hp, hresult⟩ := Option.map_eq_some_iff.mp hrun
  obtain ⟨hconsumed, hstate⟩ := Prod.mk.inj hresult
  have hstep : ∀ event (p q : Process), perform quietEnv event p = some q → (lifecycle quietEnv).step p event q :=
    fun _ _ _ h => h
  have hreach : Reachable ((lifecycle quietEnv).under ConfirmationCounted) p :=
    Reachable.execute (fun event _ _ _ => guarded_step (hstep event)) (.init connected3_fresh) hp
  exact ⟨p, hconsumed, hstate, consumed_nodup hreach⟩

/-- **The confirmation, delivered twice, is consumed twice**: as the confirmation and as a response. -/
theorem confirmation_replayed :
    encodeFrame quietEnv.evp (quietEnv.iv 0) (makeFrame 0 STATUS_OK 0 [] connectionSecured 0 7) true
        quietEnv.key.val 1 = .ok confirmationRaw ∧
      ∃ p, Reachable (lifecycle quietEnv) p ∧ consumed p.endpoint.log = [confirmation7, confirmation7] := by
  have hrun : (execute (fun p event => perform quietEnv event p)
      [.start 0, .readable (.once (confirmationRaw ++ confirmationRaw)), .dispatch] connected3).map
        (fun p => consumed p.endpoint.log) = some [confirmation7, confirmation7] := by
    decide +kernel
  obtain ⟨p, hp, hconsumed⟩ := Option.map_eq_some_iff.mp hrun
  exact ⟨rfl, p, Reachable.execute (fun _ _ _ _ h => h) (.init connected3_fresh) hp, hconsumed⟩

end Fmxp.Client
