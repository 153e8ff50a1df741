import Fmxp.Server.Acts

/-! The bytes a connection writes.

The write loop writes a part of what it is given, and all of it when it succeeds (`sendLoop_outs`).
While no call of `send` fails, `sendFrame` writes the whole of what it has encoded, in as many calls
as it takes, and changes nothing else but the counter (`sendFrame_written`); an accepted handshake
is followed by its confirmation and nothing else (`setAesKey_written`). -/
namespace Fmxp.Server

def Output.bytes : Output → Bytes
  | .wrote _ bytes => bytes
  | _ => []

/-- Everything that has been written, as one stream. -/
def wire (log : List Output) : Bytes := log.flatMap Output.bytes

@[simp] theorem wire_append (log outs : List Output) : wire (log ++ outs) = wire log ++ wire outs :=
  List.flatMap_append

theorem wire_handOver (s : Endpoint) (frames : List Frame) : wire (s.handOver frames).log = wire s.log := by
  have hnone : wire (frames.map fun frame => Output.request ⟨frame, s.conn.connId⟩) = [] := by
    rw [wire, List.flatMap_map]
    exact List.flatMap_eq_nil_iff.mpr fun _ _ => rfl
  show wire (s.log ++ _) = _
  rw [wire_append, hnone, List.append_nil]

variable {env : Env} {s t : Endpoint}

/-- One call of `send` writes what it takes. -/
theorem send_wire (env : Env) (rest : Bytes) (s : Endpoint) :
    wire (s.send env rest).2.log = wire s.log ++ rest.take (s.send env rest).1.toNat := by
  unfold Endpoint.send
  split
  · exact (List.append_nil _).symm
  · split
    · exact (List.append_nil _).symm
    · next n _ =>
      show wire (s.log ++ [Output.wrote s.conn.fd (rest.take n)]) = _
      rw [wire_append, Int.toNat_natCast, List.length_take, List.take_eq_take_min]
      exact congrArg _ (List.append_nil _)

/-- What one call of `send` adds to the log. -/
theorem send_outs (env : Env) (rest : Bytes) (s : Endpoint) :
    ∃ outs, (s.send env rest).2.log = s.log ++ outs ∧ (∀ o ∈ outs, ∃ bytes, o = .wrote s.conn.fd bytes) ∧
      wire outs = rest.take (s.send env rest).1.toNat := by
  have hwire := send_wire env rest s
  rcases send_log env rest s with hsame | ⟨bytes, hlog⟩
  · refine ⟨[], by rw [hsame, List.append_nil], fun o ho => (by cases ho), ?_⟩
    rw [hsame] at hwire
    exact List.append_cancel_left ((List.append_nil _).trans hwire)
  · refine ⟨[.wrote s.conn.fd bytes], hlog, fun o ho => ⟨bytes, List.mem_singleton.mp ho⟩, ?_⟩
    rw [hlog, wire_append] at hwire
    exact List.append_cancel_left hwire

/-- What the write loop adds to the log: a part of what it is given, all of it when it succeeds, and
nothing when the first call fails. -/
theorem sendLoop_outs (env : Env) {m : Nat} {rest : Bytes} {s : Endpoint} (hm : rest.length ≤ m) :
    ∃ outs, (sendLoop env m rest s).1.log = s.log ++ outs ∧ (∀ o ∈ outs, ∃ bytes, o = .wrote s.conn.fd bytes) ∧
      wire outs <+: rest ∧ ((sendLoop env m rest s).2 = true ↔ wire outs = rest) ∧
      (wire outs = [] ↔ rest = [] ∨ (s.send env rest).1 ≤ 0) := by
  induction m generalizing rest s with
  | zero =>
    have hnil : rest = [] := List.eq_nil_of_length_eq_zero (by omega)
    subst hnil
    exact ⟨[], (List.append_nil _).symm, fun o ho => (by cases ho), List.prefix_rfl, ⟨fun _ => rfl, fun _ => rfl⟩,
      ⟨fun _ => .inl rfl, fun _ => rfl⟩⟩
  | succ m ih =>
    by_cases hnil : rest = []
    · subst hnil
      refine ⟨[], ?_, fun o ho => (by cases ho), List.prefix_rfl, ?_, ⟨fun _ => .inl rfl, fun _ => rfl⟩⟩
      · simp only [sendLoop, if_true, List.append_nil]
      · simp only [sendLoop, if_true]
        exact ⟨fun _ => rfl, fun _ => trivial⟩
    obtain ⟨first, hfirst, hwrote, htaken⟩ := send_outs env rest s
    by_cases hstop : (s.send env rest).1 ≤ 0
    · -- The call fails: it has taken nothing.
      have hnone : wire first = [] := by
        rw [htaken, Int.toNat_of_nonpos hstop, List.take_zero]
      simp only [sendLoop, if_neg hnil, if_pos hstop]
      refine ⟨first, hfirst, hwrote, ?_, ?_, ?_⟩
      · rw [hnone]
        exact List.nil_prefix
      · rw [hnone]
        exact ⟨fun h => (by cases h), fun h => absurd h.symm hnil⟩
      · exact ⟨fun _ => .inr hstop, fun _ => hnone⟩
    · -- The call takes some bytes, and the loop goes on with the others.
      have hpos := List.length_pos_iff.mpr hnil
      have hshort : (rest.drop (s.send env rest).1.toNat).length ≤ m := by
        rw [List.length_drop]
        omega
      have hfd : (s.send env rest).2.conn.fd = s.conn.fd := congrArg (·.fd) (send_keeps env rest s).1
      obtain ⟨outs, hlog, hrest, hprefix, hwhole, _⟩ := ih (s := (s.send env rest).2) hshort
      have hwire : wire (first ++ outs) = rest.take (s.send env rest).1.toNat ++ wire outs := by
        rw [wire_append, htaken]
      simp only [sendLoop, if_neg hnil, if_neg hstop]
      refine ⟨first ++ outs, by rw [hlog, hfirst, List.append_assoc], fun o ho => ?_, ?_, ?_, ?_⟩
      · rcases List.mem_append.mp ho with ho | ho
        · exact hwrote o ho
        · exact hfd ▸ hrest o ho
      · obtain ⟨x, hx⟩ := hprefix
        exact ⟨x, by rw [hwire, List.append_assoc, hx, List.take_append_drop]⟩
      · rw [hwhole, hwire]
        constructor
        · intro h
          rw [h, List.take_append_drop]
        · intro h
          exact List.append_cancel_left (h.trans (List.take_append_drop _ rest).symm)
      · have hsome : wire (first ++ outs) ≠ [] := by
          rw [hwire]
          intro h
          have hlen := congrArg List.length (List.append_eq_nil_iff.mp h).1
          rw [List.length_take, List.length_nil] at hlen
          omega
        exact ⟨fun h => absurd h hsome, fun h => absurd h (by rintro (h | h); exacts [hnil h, hstop h])⟩

/-- The write loop, when it succeeds, has written everything. -/
theorem sendLoop_wire {m : Nat} {rest : Bytes} (hm : rest.length ≤ m) (h : (sendLoop env m rest s).2 = true) :
    wire (sendLoop env m rest s).1.log = wire s.log ++ rest := by
  obtain ⟨outs, hlog, _, _, hwhole, _⟩ := sendLoop_outs env (s := s) hm
  rw [hlog, wire_append, hwhole.mp h]

/-- What the encoder takes is written, and the connection goes on. -/
theorem sendFrame_written {frame : Frame} {raw : Bytes} (hfd : s.conn.fd ≠ -1) (hsend : ∀ i, 0 < (env.send i).bytes)
    (henc : encodeFrame env.evp (env.iv s.ivs) frame true s.conn.aesKey (s.conn.fid + 1) = .ok raw) :
    ∃ t, (∀ depth, sendFrame env depth frame s = some t) ∧ t.conn = s.nextFid.conn ∧
      wire t.log = wire s.log ++ raw := by
  have hconn := (sendLoop_keeps env raw.length raw (s.nextFid.recordEncoded raw)).1
  have hsent : (sendLoop env raw.length raw (s.nextFid.recordEncoded raw)).2 = true := by
    have hspec := sendLoop_spec env (s := s.nextFid.recordEncoded raw) hfd (Nat.le_refl raw.length)
    exact (hspec.resolve_right fun hfails => hfails.2.1 (takes_of_pos (fun i _ => hsend i) raw.length)).1
  have hwire := sendLoop_wire (Nat.le_refl raw.length) hsent
  cases hloop : sendLoop env raw.length raw (s.nextFid.recordEncoded raw) with
  | mk t sent =>
    have hsend := sendFrame_looped henc hloop
    rw [hloop] at hconn hsent hwire
    cases hsent
    refine ⟨t, hsend, hconn, hwire.trans ?_⟩
    show wire (s.log ++ [Output.encoded s.conn.aesKey raw]) ++ raw = _
    rw [wire_append]
    exact congrArg (· ++ raw) (List.append_nil _)

/-- An accepted handshake: the connection is active, and has written the confirmation. -/
theorem setAesKey_written {key raw : Bytes} (hfd : s.conn.fd ≠ -1) (hsend : ∀ i, 0 < (env.send i).bytes)
    (henc : encodeFrame env.evp (env.iv s.ivs) (s.confirmation env) true key (s.conn.fid + 1) = .ok raw) :
    ∃ t, (∀ depth, setAesKey env depth key s = some t) ∧
      t.conn = {s.conn with fid := s.conn.fid + 1, aesKey := key, ssid := env.rand64, state := .active} ∧
      wire t.log = wire s.log ++ raw := by
  obtain ⟨u, hu, hconn, hwire⟩ := sendFrame_written (s := s.secure env key) hfd hsend henc
  refine ⟨u.modify fun c => {c with state := .active}, fun depth => ?_, ?_, hwire.trans ?_⟩
  · rw [setAesKey_eq, hu]
    rfl
  · show {u.conn with state := .active} = _
    rw [hconn]
    rfl
  · show wire (s.log ++ [Output.secured key env.rand64]) ++ raw = _
    rw [wire_append]
    exact congrArg (· ++ raw) (List.append_nil _)

end Fmxp.Server
