import Fmxp.Server.Lifecycle

/-! What a read leaves in the buffer.

A read drains its buffer or closes the connection, so between two reads an open connection holds less
than one frame, and not more than a frame may have. The exception is the read that accepts the handshake:
`_parseFrames` takes the one frame of the handshake and returns, as the client is expected to wait, and
what was received behind that frame stays for the next read (`buffer_residual`). -/
namespace Fmxp.Server
open Transition Framing

/-- There is less in the buffer than a frame may have, and not all of the frame at its front. -/
def Residual (maxFrameSize : UInt32) (b : Bytes) : Prop :=
  b.length < max 29 maxFrameSize.toNat ∧
    (b.length < 29 ∨ ∃ bodyLen, getFrameBodySize b = some bodyLen ∧ b.length < bodyLen.toNat + 9)

/-- The read accepts a handshake, and these bytes are behind it. -/
def AcceptsHandshake (env : Env) (input : Recv) (now : UInt32) (s : Endpoint) (rest : Bytes) : Prop :=
  s.conn.state = .handshake ∧ input.fin = .again ∧ ∃ frame,
    (frameFramer env.evp s.conn.maxFrameSize false []).next (s.conn.inFrameBuffer ++ input.bytes) =
      .item frame rest ∧ (acceptedKey env.rsa frame.data s.conn.rsaPrivKey now).isSome

/-- What the parsers wait on is less than a frame. -/
theorem residual_of_wait {evp : Evp} {maxFrameSize : UInt32} {encrypted : Bool} {key b : Bytes}
    (h : (frameFramer evp maxFrameSize encrypted key).next b = .wait) : Residual maxFrameSize b := by
  by_cases hlen : b.length < 29
  · exact ⟨by omega, .inl hlen⟩
  have hmin : ¬ b.length < minFrameSize := by
    rw [minFrameSize_eq]
    exact hlen
  obtain ⟨lead, hlead⟩ := leadingFrame_total maxFrameSize b
  rw [frameFramer_next evp encrypted key hlead] at h
  obtain ⟨bodyLen, hbody⟩ := exists_bodySize (b := b) (by simp only [headerSize]; omega)
  cases hproto : validateProtocol b with
  | false =>
    simp only [leadingFrame, hmin, if_false, hproto, Bool.not_false, if_true] at hlead
    cases hlead
    cases h
  | true =>
    rw [leadingFrame_eq hmin hproto hbody] at hlead
    split at hlead
    · cases hlead
      cases h
    next hlimit =>
    split at hlead
    · next hshort =>
      simp only [headerSize] at hlimit hshort
      exact ⟨by omega, .inr ⟨bodyLen, hbody, hshort⟩⟩
    · cases hlead
      simp only [Lead.next] at h
      split at h <;> cases h

variable {env : Env} {depth : Nat} {input : Recv} {now : UInt32} {r : Except Exn Bool} {s t : Endpoint}

/-- **A read that leaves the connection open** has accepted the handshake, and left what is behind it,
or has left less than a frame. -/
theorem readFd_buffer (hs : s.conn.state = .closed → s.conn.fd = -1)
    (h : readFd env depth input now s = some (r, t)) (hopen : t.conn.state ≠ .closed) :
    t.conn.maxFrameSize = s.conn.maxFrameSize ∧
      (AcceptsHandshake env input now s t.conn.inFrameBuffer ∨
        (¬ ∃ rest, AcceptsHandshake env input now s rest) ∧ Residual s.conn.maxFrameSize t.conn.inFrameBuffer) := by
  have hclosed : ∀ {reason u}, (u.conn.state = .closed → u.conn.fd = -1) →
      closeConnection env depth reason true u = some t → False := fun hu ht =>
    hopen (closeConnection_keeps hu ht).2.1
  cases (readFd_outcome hs h).2 with
  | detached _ ht => exact (hclosed hs ht).elim
  | ended reason _ _ ht => exact (hclosed (by exact hs) ht).elim
  | declined reason rest _ _ _ ht => exact (hclosed (by exact hs) ht).elim
  | refused items rest refusal _ _ _ _ ht => exact (hclosed (by exact hs) ht).elim
  | invalid items rest _ _ _ _ _ ht => exact (hclosed (by exact hs) ht).elim
  | waits _ _ _ hwait ht =>
    subst ht
    refine ⟨rfl, .inr ⟨?_, residual_of_wait hwait⟩⟩
    rintro ⟨rest, _, _, frame, hnext, _⟩
    cases hwait.symm.trans hnext
  | secured frame rest key _ hstate hfin hnext hkey ht =>
    obtain ⟨v, hkeeps, _, rfl⟩ := setAesKey_keeps (s := s.setBuffer rest) hs ht
    have hconn := hkeeps.conn
    have hbuffer : v.conn.inFrameBuffer = rest := by rw [hconn]; rfl
    refine ⟨by show v.conn.maxFrameSize = _; rw [hconn]; rfl, .inl ⟨hstate, hfin, frame, ?_, ?_⟩⟩
    · rw [hnext]
      exact congrArg (Next.item frame) hbuffer.symm
    · exact Option.isSome_iff_exists.mpr ⟨key, hkey⟩
  | delivered items rest _ hstate _ hdrain _ ht =>
    subst ht
    have hwait := Framer.drain_rest_wait (F := s.conn.framer env.evp) (s.conn.inFrameBuffer ++ input.bytes)
    rw [hdrain] at hwait
    refine ⟨rfl, .inr ⟨?_, residual_of_wait (hwait rfl)⟩⟩
    rintro ⟨_, hhand, _⟩
    cases hstate.symm.trans hhand

/-- **What a read leaves in the buffer of an open connection**: what it received behind the handshake
frame, if it accepted a handshake, and otherwise less than a frame and within the limit. -/
theorem buffer_residual (h : Reachable (lifecycle env) s) (hread : readFd env depth input now s = some (r, t))
    (hopen : t.conn.state ≠ .closed) :
    (∀ rest, AcceptsHandshake env input now s rest → t.conn.inFrameBuffer = rest) ∧
      ((¬ ∃ rest, AcceptsHandshake env input now s rest) → Residual t.conn.maxFrameSize t.conn.inFrameBuffer) := by
  obtain ⟨hmax, haccepted | ⟨hnone, hresidual⟩⟩ := readFd_buffer (reachable_wellFormed h).closed hread hopen
  · refine ⟨fun rest hrest => ?_, fun hnone => absurd ⟨_, haccepted⟩ hnone⟩
    obtain ⟨_, _, frame, hnext, _⟩ := haccepted
    obtain ⟨_, _, frame', hnext', _⟩ := hrest
    cases hnext.symm.trans hnext'
    rfl
  · refine ⟨fun rest hrest => absurd ⟨rest, hrest⟩ hnone, fun _ => ?_⟩
    rw [hmax]
    exact hresidual

/-- The first half of a handshake stays in the buffer. -/
theorem half_handshake_residual : ∃ t, readFd quietEnv 3 (.once ((handshakeRaw 100).take 40)) 100 accepted5 =
    some (.ok true, t) ∧ t.conn.inFrameBuffer.length = 40 ∧ Residual t.conn.maxFrameSize t.conn.inFrameBuffer := by
  have hrun : (readFd quietEnv 3 (.once ((handshakeRaw 100).take 40)) 100 accepted5).map
      (fun (r, t) => (r.toOption, t.conn.state, t.conn.inFrameBuffer.length)) =
        some (some true, .handshake, 40) := by
    decide +kernel
  obtain ⟨⟨r, t⟩, hread, hresult⟩ := Option.map_eq_some_iff.mp hrun
  simp only [Prod.mk.injEq] at hresult
  obtain ⟨hr, hstate, hlen⟩ := hresult
  have hopen : t.conn.state ≠ .closed := by
    rw [hstate]
    decide
  have hkeep := (buffer_residual (.init accepted5_fresh) hread hopen).2
  cases r with
  | error e => cases hr
  | ok b =>
    cases hr
    refine ⟨t, hread, hlen, hkeep ?_⟩
    rintro ⟨rest, _, _, frame, hnext, _⟩
    have hwait : ((frameFramer quietEnv.evp accepted5.conn.maxFrameSize false []).next
        (accepted5.conn.inFrameBuffer ++ (Recv.once ((handshakeRaw 100).take 40)).bytes)) = .wait := by
      rfl
    cases hwait.symm.trans hnext

/-- **A request received behind the handshake stays in the buffer**, whole. -/
theorem request_retained : ∃ s t, Reachable (lifecycle quietEnv) s ∧
    readFd quietEnv 3 (.once (handshakeRaw 100 ++ requestRaw)) 100 s = some (.ok true, t) ∧
      t.conn.state = .active ∧ ¬ Residual t.conn.maxFrameSize t.conn.inFrameBuffer := by
  have hrun : (readFd quietEnv 3 (.once (handshakeRaw 100 ++ requestRaw)) 100 accepted5).map
      (fun (r, t) => (r.toOption, t.conn.state, t.conn.inFrameBuffer)) = some (some true, .active, requestRaw) := by
    decide +kernel
  obtain ⟨⟨r, t⟩, hread, hresult⟩ := Option.map_eq_some_iff.mp hrun
  simp only [Prod.mk.injEq] at hresult
  obtain ⟨hr, hstate, hbuffer⟩ := hresult
  cases r with
  | error e => cases hr
  | ok b =>
    cases hr
    refine ⟨accepted5, t, .init accepted5_fresh, hread, hstate, ?_⟩
    have hsize : getFrameBodySize requestRaw = some 52 := by decide
    have hlen : requestRaw.length = 61 := by decide
    rw [hbuffer]
    rintro ⟨_, hshort | ⟨bodyLen, hbody, hshort⟩⟩
    · omega
    · cases hsize.symm.trans hbody
      rw [hlen] at hshort
      exact absurd hshort (by decide)

end Fmxp.Server
