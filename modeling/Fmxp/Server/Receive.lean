import Fmxp.Server.Effects

/-! What `readFd` does, in terms of the stream it reads.

Past the handshake `_parseFrames` drains the buffer as the framer of encrypted
frames does (`parseFrames_session`); during it, it takes at most one frame in the
clear (`parseFrames_handshake`). `readFd_cases` puts the pieces together. -/
namespace Fmxp.Server
open Framing

def reasonOf : Refusal → CloseReason
  | .protocol => .invalidRequest
  | .tooLong => .requestTooLong
  | .rejected _ => .invalidRequest

theorem reasonOf_ne_natural (r : Refusal) : reasonOf r ≠ .natural := by
  cases r <;> intro h <;> cases h

def Endpoint.setBuffer (s : Endpoint) (b : Bytes) : Endpoint :=
  s.modify fun c => {c with inFrameBuffer := b}

@[simp] theorem setBuffer_conn (s : Endpoint) (b : Bytes) :
    (s.setBuffer b).conn = {s.conn with inFrameBuffer := b} := rfl

@[simp] theorem setBuffer_self (s : Endpoint) : s.setBuffer s.conn.inFrameBuffer = s := rfl

@[simp] theorem setBuffer_setBuffer (s : Endpoint) (b b' : Bytes) :
    (s.setBuffer b).setBuffer b' = s.setBuffer b' := rfl

/-- The end of a parse: the rest stays in the buffer, and a refusal closes. -/
def endParse (env : Env) (depth : Nat) (frames : List Frame) (rest : Bytes) (bad : Option Refusal)
    (s : Endpoint) : Option (Except Exn (List Frame) × Endpoint) :=
  match bad with
  | none => some (.ok frames, s.setBuffer rest)
  | some r => (closeConnection env depth (reasonOf r) true (s.setBuffer rest)).map (Prod.mk (.ok frames))

/-- Whatever the decoder throws is caught. -/
theorem decodeFrame_caught {evp : Evp} {data key : Bytes} {encrypted : Bool} {e : Exn}
    (h : decodeFrame evp data encrypted key = .error e) : caught e = true := by
  rcases decodeFrame_error h with ⟨msg, rfl⟩ | ⟨x, rfl⟩ <;> rfl

/-- The framer a connection past the handshake parses with. -/
def ClientConnection.framer (evp : Evp) (c : ClientConnection) : Framer UInt8 Frame Refusal :=
  frameFramer evp c.maxFrameSize true c.aesKey

theorem parseFrames_session (env : Env) (depth n : Nat) (s : Endpoint) (frames : List Frame)
    (hstate : s.conn.state ≠ .handshake) (hn : s.conn.inFrameBuffer.length < n) :
    let d := (s.conn.framer env.evp).drain s.conn.inFrameBuffer
    parseFrames env depth n s frames = endParse env depth (frames ++ d.items) d.rest d.bad s := by
  induction n generalizing s frames with
  | zero => omega
  | succ n ih =>
    obtain ⟨lead, hlead⟩ := leadingFrame_total s.conn.maxFrameSize s.conn.inFrameBuffer
    have hnext := frameFramer_next env.evp true s.conn.aesKey hlead
    unfold ClientConnection.framer
    cases lead with
    | incomplete =>
      rw [Framer.drain_wait _ hnext]
      simp only [parseFrames, hlead, endParse, List.append_nil, setBuffer_self]
    | invalid =>
      rw [Framer.drain_bad _ hnext]
      simp only [parseFrames, hlead, endParse, reasonOf, List.append_nil, setBuffer_self]
    | tooLong =>
      rw [Framer.drain_bad _ hnext]
      simp only [parseFrames, hlead, endParse, reasonOf, List.append_nil, setBuffer_self]
    | frame raw size =>
      obtain ⟨_, hpos, hle, _⟩ := leadingFrame_frame hlead
      have hslice := slice_suffix hle
      simp only [Lead.next] at hnext
      cases hdec : decodeFrame env.evp raw true s.conn.aesKey with
      | error e =>
        rw [hdec] at hnext
        rw [Framer.drain_bad _ hnext]
        simp only [parseFrames, hlead, hstate, if_false, hdec, decodeFrame_caught hdec, if_true, endParse,
          reasonOf, List.append_nil, setBuffer_self]
      | ok f =>
        rw [hdec] at hnext
        rw [Framer.drain_item _ hnext]
        simp only [headerSize] at hpos
        have hshort : (s.setBuffer (s.conn.inFrameBuffer.drop size)).conn.inFrameBuffer.length < n := by
          rw [setBuffer_conn, List.length_drop]
          omega
        have hrest := ih (s.setBuffer (s.conn.inFrameBuffer.drop size)) (frames ++ [f]) hstate hshort
        simp only [parseFrames, hlead, hstate, if_false, hdec, hslice]
        refine Eq.trans hrest ?_
        simp only [setBuffer_conn, ClientConnection.framer, endParse, setBuffer_setBuffer, List.append_assoc,
          List.singleton_append]

/-- During the handshake at most one frame is taken, in the clear. -/
theorem parseFrames_handshake (env : Env) (depth n : Nat) (s : Endpoint)
    (hstate : s.conn.state = .handshake) :
    parseFrames env depth (n + 1) s [] =
      match (frameFramer env.evp s.conn.maxFrameSize false []).next s.conn.inFrameBuffer with
      | .wait => some (.ok [], s)
      | .bad r => (closeConnection env depth (reasonOf r) true s).map (Prod.mk (.ok []))
      | .item f rest => some (.ok [f], s.setBuffer rest) := by
  obtain ⟨lead, hlead⟩ := leadingFrame_total s.conn.maxFrameSize s.conn.inFrameBuffer
  rw [frameFramer_next env.evp false [] hlead]
  cases lead with
  | incomplete => simp only [parseFrames, hlead, Lead.next]
  | invalid => simp only [parseFrames, hlead, Lead.next, reasonOf]
  | tooLong => simp only [parseFrames, hlead, Lead.next, reasonOf]
  | frame raw size =>
    obtain ⟨_, _, hle, _⟩ := leadingFrame_frame hlead
    have hslice := slice_suffix hle
    simp only [Lead.next]
    cases hdec : decodeFrame env.evp raw false [] with
    | error e => simp only [parseFrames, hlead, hstate, if_true, hdec, decodeFrame_caught hdec, reasonOf]
    | ok f =>
      simp only [parseFrames, hlead, hstate, if_true, hdec, hslice, List.nil_append]
      rfl

/-! ### Handing requests over -/

/-- The connection after it has handed these frames over. -/
def Endpoint.handOver (s : Endpoint) (frames : List Frame) : Endpoint where
  conn := {s.conn with lastCliFid := lastFid s.conn.lastCliFid frames}
  sends := s.sends
  ivs := s.ivs
  log := s.log ++ frames.map fun frame => .request ⟨frame, s.conn.connId⟩

/-- The frames of a batch that pass `_validateFrame`, up to the first that does not. -/
def ClientConnection.accepted (c : ClientConnection) (frames : List Frame) : List Frame :=
  acceptedFrames c.ssid c.lastCliFid frames

theorem handOver_nil (s : Endpoint) : s.handOver [] = s := by
  simp [Endpoint.handOver, lastFid, Counter.final]

theorem validateFrame_eq (env : Env) (depth : Nat) (f : Frame) (s : Endpoint) :
    validateFrame env depth f s =
      if f.ssid = s.conn.ssid ∧ s.conn.lastCliFid < f.fid then some (true, s)
      else (closeConnection env depth .invalidRequest true s).map (Prod.mk false) := by
  by_cases hok : f.ssid = s.conn.ssid ∧ s.conn.lastCliFid < f.fid
  · have hlt : ¬ f.fid ≤ s.conn.lastCliFid := UInt32.not_le.mpr hok.2
    simp [validateFrame, hok, hlt]
  · have hbad : f.ssid ≠ s.conn.ssid ∨ f.fid ≤ s.conn.lastCliFid := by
      rw [← UInt32.not_lt]
      exact Decidable.not_and_iff_or_not.mp hok
    simp [validateFrame, hok, hbad]

theorem deliver_eq (env : Env) (depth : Nat) (frames : List Frame) (s : Endpoint) :
    deliver env depth frames s =
      if s.conn.accepted frames = frames then some (true, s.handOver frames)
      else (closeConnection env depth .invalidRequest true (s.handOver (s.conn.accepted frames))).map
        (Prod.mk false) := by
  induction frames generalizing s with
  | nil => simp only [deliver, handOver_nil, ClientConnection.accepted, acceptedFrames, Counter.accepted, if_true]
  | cons f fs ih =>
    rw [deliver, validateFrame_eq]
    simp only [ClientConnection.accepted, acceptedFrames_cons]
    by_cases hok : f.ssid = s.conn.ssid ∧ s.conn.lastCliFid < f.fid
    · -- The rest is handed over by the connection this frame leaves.
      have hover : ∀ xs, ((s.modify fun c => {c with lastCliFid := f.fid}).emit
          (.request ⟨f, s.conn.connId⟩)).handOver xs = s.handOver (f :: xs) := by
        intro xs
        simp [Endpoint.handOver, Endpoint.emit, Endpoint.modify, lastFid, Counter.final]
      have hrest := ih ((s.modify fun c => {c with lastCliFid := f.fid}).emit (.request ⟨f, s.conn.connId⟩))
      simp only [hover] at hrest
      simp only [if_pos hok, List.cons.injEq, true_and]
      exact hrest
    · rw [if_neg hok, if_neg hok, if_neg (by intro hc; cases hc), handOver_nil]
      cases closeConnection env depth .invalidRequest true s <;> rfl

/-! ### The handshake -/

/-- The key a handshake payload carries, if the connection takes it. -/
def acceptedKey (rsa : Rsa) (encAesKey rsaPrivKey : Bytes) (now : UInt32) : Option Bytes :=
  match rsaDecrypt rsa encAesKey rsaPrivKey with
  | .error _ => none
  | .ok decrypted =>
    if decrypted.length = 32 + 4 then
      (ptrToU32 (decrypted.drop 32)).bind fun timestamp =>
        if timestamp - now > 60 then none else some (decrypted.take 32)
    else none

theorem length_acceptedKey {rsa : Rsa} {encAesKey rsaPrivKey key : Bytes} {now : UInt32}
    (h : acceptedKey rsa encAesKey rsaPrivKey now = some key) : key.length = 32 := by
  unfold acceptedKey at h
  split at h
  · cases h
  · next decrypted _ =>
    split at h
    · next hlen =>
      obtain ⟨timestamp, _, hkey⟩ := Option.bind_eq_some_iff.mp h
      split at hkey <;> cases hkey
      rw [List.length_take, hlen]
      rfl
    · cases h

theorem acceptHandshake_eq (env : Env) (depth : Nat) (encAesKey : Bytes) (now : UInt32) (s : Endpoint) :
    acceptHandshake env depth encAesKey now s =
      match acceptedKey env.rsa encAesKey s.conn.rsaPrivKey now with
      | none => (closeConnection env depth .encryptionError true s).map (Prod.mk (.ok false))
      | some key => (setAesKey env depth key s).map (Prod.mk (.ok true)) := by
  unfold acceptHandshake acceptedKey
  cases rsaDecrypt env.rsa encAesKey s.conn.rsaPrivKey with
  | error e => rfl
  | ok decrypted =>
    by_cases hlen : decrypted.length = 32 + 4
    · obtain ⟨timestamp, hts⟩ : ∃ timestamp, ptrToU32 (decrypted.drop 32) = some timestamp :=
        ⟨_, ptrToU32_eq (by rw [List.length_drop, hlen])⟩
      have hslice : slice decrypted 0 32 = .ok (decrypted.take 32) := slice_zero (by omega)
      simp only [hlen, hts, deref, hslice, ne_eq, not_true_eq_false, if_false, if_true, Option.bind_some]
      split <;> rfl
    · simp only [hlen, ne_eq, not_false_eq_true, if_true, if_false]

/-- The connection as `_setAesKey` leaves it for the confirmation to be sent. -/
def Endpoint.secure (env : Env) (key : Bytes) (s : Endpoint) : Endpoint :=
  (s.modify fun c => {c with aesKey := key, ssid := env.rand64}).emit (.secured key env.rand64)

/-- The confirmation of a handshake. -/
def Endpoint.confirmation (env : Env) (s : Endpoint) : Frame :=
  makeFrame s.conn.fid STATUS_OK 0 [] connectionSecured 0 env.rand64

theorem setAesKey_eq (env : Env) (depth : Nat) (key : Bytes) (s : Endpoint) :
    setAesKey env depth key s = (sendFrame env depth (s.confirmation env) (s.secure env key)).map
      fun t => t.modify fun c => {c with state := .active} := by
  show (sendFrame env depth (s.confirmation env) (s.secure env key)).bind _ = _
  cases sendFrame env depth (s.confirmation env) (s.secure env key) <;> rfl

/-- An accepted handshake ends in `ACTIVE`, whether or not the confirmation went out. -/
theorem setAesKey_keeps {env : Env} {depth : Nat} {key : Bytes} {s t : Endpoint}
    (hs : s.conn.state = .closed → s.conn.fd = -1) (h : setAesKey env depth key s = some t) :
    ∃ u, Keeps (s.secure env key) u ∧ Settled s u ∧
      t = u.modify fun c => {c with state := .active} := by
  rw [setAesKey_eq] at h
  obtain ⟨u, hu, ht⟩ := Option.map_eq_some_iff.mp h
  obtain ⟨hkeeps, hsettled⟩ := sendFrame_keeps (s := s.secure env key) hs hu
  exact ⟨u, hkeeps, hsettled, ht.symm⟩

/-! ### `readFd` -/

/-- The connection with newly received bytes in its buffer. -/
def Endpoint.receive (s : Endpoint) (bytes : Bytes) : Endpoint := s.setBuffer (s.conn.inFrameBuffer ++ bytes)

@[simp] theorem receive_conn (s : Endpoint) (bytes : Bytes) :
    (s.receive bytes).conn = {s.conn with inFrameBuffer := s.conn.inFrameBuffer ++ bytes} := rfl

section
variable {env : Env} {depth : Nat} {input : Recv} {now : UInt32} {s : Endpoint}

theorem readFd_again (hfd : s.conn.fd ≠ -1) (hfin : input.fin = .again) :
    readFd env depth input now s =
      match parseFrames env depth ((s.receive input.bytes).conn.inFrameBuffer.length + 1)
        (s.receive input.bytes) [] with
      | none => none
      | some (.error e, s) => some (.error e, s)
      | some (.ok frames, s) => handleFrames env depth now frames s := by
  unfold readFd
  simp only [if_neg hfd, hfin]
  rfl

/-- A parse that has closed the connection ends the read. -/
theorem handleFrames_closed {frames : List Frame} (h : s.conn.state = .closed) :
    handleFrames env depth now frames s = some (.ok true, s) := by
  simp only [handleFrames, h]

/-- Reading during the handshake. -/
theorem readFd_handshake (hfd : s.conn.fd ≠ -1) (hstate : s.conn.state = .handshake)
    (hfin : input.fin = .again) :
    readFd env depth input now s =
      match (frameFramer env.evp s.conn.maxFrameSize false []).next (s.conn.inFrameBuffer ++ input.bytes) with
      | .wait => some (.ok true, s.receive input.bytes)
      | .bad r => (closeConnection env depth (reasonOf r) true (s.receive input.bytes)).map (Prod.mk (.ok true))
      | .item frame rest => acceptHandshake env depth frame.data now (s.setBuffer rest) := by
  have hparse := parseFrames_handshake env depth (s.receive input.bytes).conn.inFrameBuffer.length
    (s.receive input.bytes) hstate
  rw [readFd_again hfd hfin, hparse, receive_conn]
  cases (frameFramer env.evp s.conn.maxFrameSize false []).next (s.conn.inFrameBuffer ++ input.bytes) with
  | wait => simp only [handleFrames, receive_conn, hstate]
  | bad r =>
    have hopen : (s.receive input.bytes).conn.state = .closed → (s.receive input.bytes).conn.fd = -1 := by
      intro hc
      rw [receive_conn, hstate] at hc
      cases hc
    cases hclose : closeConnection env depth (reasonOf r) true (s.receive input.bytes) with
    | none => simp only [hclose, Option.map_none]
    | some t =>
      have hclosed := (closeConnection_keeps hopen hclose).2.1
      simp only [hclose, Option.map_some, handleFrames_closed hclosed]
  | item frame rest =>
    have hkeep : ((s.receive input.bytes).setBuffer rest).conn.state = .handshake := hstate
    simp only [handleFrames, hkeep]
    rfl

/-- Reading in a session. -/
theorem readFd_active (hfd : s.conn.fd ≠ -1) (hstate : s.conn.state = .active)
    (hfin : input.fin = .again) :
    let d := (s.conn.framer env.evp).drain (s.conn.inFrameBuffer ++ input.bytes)
    readFd env depth input now s =
      match d.bad with
      | some r => (closeConnection env depth (reasonOf r) true (s.setBuffer d.rest)).map (Prod.mk (.ok true))
      | none => (deliver env depth d.items (s.setBuffer d.rest)).map fun (ok, s) => (.ok ok, s) := by
  intro d
  have hne : (s.receive input.bytes).conn.state ≠ .handshake := by
    rw [receive_conn, hstate]
    intro hc
    cases hc
  have hparse := parseFrames_session env depth _ (s.receive input.bytes) [] hne (Nat.lt_succ_self _)
  have hdrain : ((s.receive input.bytes).conn.framer env.evp).drain
      (s.receive input.bytes).conn.inFrameBuffer = d := rfl
  have hbuffer : (s.receive input.bytes).setBuffer d.rest = s.setBuffer d.rest := rfl
  rw [readFd_again hfd hfin, hparse, hdrain, List.nil_append]
  cases d.bad with
  | none =>
    have hkeep : (s.setBuffer d.rest).conn.state = .active := hstate
    simp only [endParse, hbuffer, handleFrames, hkeep]
  | some r =>
    have hopen : (s.setBuffer d.rest).conn.state = .closed → (s.setBuffer d.rest).conn.fd = -1 := by
      intro hc
      rw [setBuffer_conn, hstate] at hc
      cases hc
    cases hclose : closeConnection env depth (reasonOf r) true (s.setBuffer d.rest) with
    | none => simp only [endParse, hbuffer, hclose, Option.map_none]
    | some t =>
      have hclosed := (closeConnection_keeps hopen hclose).2.1
      simp only [endParse, hbuffer, hclose, Option.map_some, handleFrames_closed hclosed]

/-- A read that finds nothing to refuse goes on to deliver its frames. -/
theorem readFd_drained {items : List Frame} {rest : Bytes} (hfd : s.conn.fd ≠ -1) (hstate : s.conn.state = .active)
    (hfin : input.fin = .again)
    (hdrain : (s.conn.framer env.evp).drain (s.conn.inFrameBuffer ++ input.bytes) = ⟨items, rest, none⟩) :
    readFd env depth input now s =
      (deliver env depth items (s.setBuffer rest)).map fun (ok, s) => (.ok ok, s) := by
  have hread := @readFd_active env depth input now s hfd hstate hfin
  rw [hdrain] at hread
  exact hread

/-- A read that finds something to refuse delivers nothing. -/
theorem readFd_refused {items : List Frame} {rest : Bytes} {refusal : Refusal} (hfd : s.conn.fd ≠ -1)
    (hstate : s.conn.state = .active) (hfin : input.fin = .again)
    (hdrain : (s.conn.framer env.evp).drain (s.conn.inFrameBuffer ++ input.bytes) = ⟨items, rest, some refusal⟩) :
    readFd env depth input now s =
      (closeConnection env depth (reasonOf refusal) true (s.setBuffer rest)).map (Prod.mk (.ok true)) := by
  have hread := @readFd_active env depth input now s hfd hstate hfin
  rw [hdrain] at hread
  exact hread

/-- A read all of whose frames are taken. -/
theorem readFd_accepted {items : List Frame} {rest : Bytes} (hfd : s.conn.fd ≠ -1) (hstate : s.conn.state = .active)
    (hfin : input.fin = .again)
    (hdrain : (s.conn.framer env.evp).drain (s.conn.inFrameBuffer ++ input.bytes) = ⟨items, rest, none⟩)
    (hall : s.conn.accepted items = items) :
    readFd env depth input now s = some (.ok true, (s.setBuffer rest).handOver items) := by
  have haccepted : (s.setBuffer rest).conn.accepted items = items := hall
  rw [readFd_drained hfd hstate hfin hdrain, deliver_eq, if_pos haccepted]
  rfl

end

/-- How a call of `readFd` that returns can go: which close ends it, or what it does with the stream. -/
inductive ReadOutcome (env : Env) (depth : Nat) (input : Recv) (now : UInt32) (s t : Endpoint) : Prop where
  /-- There is no descriptor to read from. -/
  | detached : s.conn.fd = -1 → closeConnection env depth .socketError true s = some t →
      ReadOutcome env depth input now s t
  /-- The stream has ended, or `recv` has failed. -/
  | ended (reason : CloseReason) : s.conn.fd ≠ -1 →
      (input.fin = .disconnect ∧ reason = .natural ∨ input.fin = .error ∧ reason = .socketError) →
      closeConnection env depth reason true (s.receive input.bytes) = some t → ReadOutcome env depth input now s t
  | waits : s.conn.fd ≠ -1 → s.conn.state = .handshake → input.fin = .again →
      (frameFramer env.evp s.conn.maxFrameSize false []).next (s.conn.inFrameBuffer ++ input.bytes) = .wait →
      t = s.receive input.bytes → ReadOutcome env depth input now s t
  /-- What comes first is no frame, or no acceptable handshake. -/
  | declined (reason : CloseReason) (rest : Bytes) : s.conn.fd ≠ -1 → s.conn.state = .handshake → reason ≠ .natural →
      closeConnection env depth reason true (s.setBuffer rest) = some t → ReadOutcome env depth input now s t
  | secured (frame : Frame) (rest key : Bytes) : s.conn.fd ≠ -1 → s.conn.state = .handshake → input.fin = .again →
      (frameFramer env.evp s.conn.maxFrameSize false []).next (s.conn.inFrameBuffer ++ input.bytes) =
        .item frame rest →
      acceptedKey env.rsa frame.data s.conn.rsaPrivKey now = some key →
      setAesKey env depth key (s.setBuffer rest) = some t → ReadOutcome env depth input now s t
  | refused (items : List Frame) (rest : Bytes) (refusal : Refusal) : s.conn.fd ≠ -1 → s.conn.state = .active →
      input.fin = .again →
      (s.conn.framer env.evp).drain (s.conn.inFrameBuffer ++ input.bytes) = ⟨items, rest, some refusal⟩ →
      closeConnection env depth (reasonOf refusal) true (s.setBuffer rest) = some t →
      ReadOutcome env depth input now s t
  | delivered (items : List Frame) (rest : Bytes) : s.conn.fd ≠ -1 → s.conn.state = .active → input.fin = .again →
      (s.conn.framer env.evp).drain (s.conn.inFrameBuffer ++ input.bytes) = ⟨items, rest, none⟩ →
      s.conn.accepted items = items → t = (s.setBuffer rest).handOver items → ReadOutcome env depth input now s t
  /-- One of the frames is not acceptable; those before it have been handed over. -/
  | invalid (items : List Frame) (rest : Bytes) : s.conn.fd ≠ -1 → s.conn.state = .active → input.fin = .again →
      (s.conn.framer env.evp).drain (s.conn.inFrameBuffer ++ input.bytes) = ⟨items, rest, none⟩ →
      s.conn.accepted items ≠ items →
      closeConnection env depth .invalidRequest true ((s.setBuffer rest).handOver (s.conn.accepted items)) = some t →
      ReadOutcome env depth input now s t

/-- **`readFd` throws nothing, and goes in one of these ways.** -/
theorem readFd_outcome {env : Env} {depth : Nat} {input : Recv} {now : UInt32} {r : Except Exn Bool}
    {s t : Endpoint} (hs : s.conn.state = .closed → s.conn.fd = -1)
    (h : readFd env depth input now s = some (r, t)) :
    (∃ b, r = .ok b) ∧ ReadOutcome env depth input now s t := by
  have hclose : ∀ {reason b u}, (closeConnection env depth reason true u).map (Prod.mk (Except.ok (ε := Exn) b)) =
      some (r, t) → (∃ b, r = .ok b) ∧ closeConnection env depth reason true u = some t := by
    intro reason b u hmap
    obtain ⟨v, hv, heq⟩ := Option.map_eq_some_iff.mp hmap
    cases heq
    exact ⟨⟨b, rfl⟩, hv⟩
  by_cases hfd : s.conn.fd = -1
  · unfold readFd at h
    rw [if_pos hfd] at h
    have hsame : s.receive [] = s := by rw [Endpoint.receive, List.append_nil, setBuffer_self]
    obtain ⟨hb, ht⟩ := hclose (u := s.receive []) h
    exact ⟨hb, .detached hfd (hsame ▸ ht)⟩
  cases hfin : input.fin with
  | disconnect =>
    unfold readFd at h
    simp only [if_neg hfd, hfin] at h
    obtain ⟨hb, ht⟩ := hclose h
    exact ⟨hb, .ended .natural hfd (.inl ⟨hfin, rfl⟩) ht⟩
  | error =>
    unfold readFd at h
    simp only [if_neg hfd, hfin] at h
    obtain ⟨hb, ht⟩ := hclose h
    exact ⟨hb, .ended .socketError hfd (.inr ⟨hfin, rfl⟩) ht⟩
  | again =>
    cases hstate : s.conn.state with
    | closed => exact absurd (hs hstate) hfd
    | handshake =>
      rw [readFd_handshake hfd hstate hfin] at h
      split at h
      · next hwait =>
        cases h
        exact ⟨⟨true, rfl⟩, .waits hfd hstate hfin hwait rfl⟩
      · next refusal _ =>
        obtain ⟨hb, ht⟩ := hclose h
        exact ⟨hb, .declined (reasonOf refusal) _ hfd hstate (reasonOf_ne_natural refusal) ht⟩
      · next frame rest hnext =>
        rw [acceptHandshake_eq] at h
        split at h
        · obtain ⟨hb, ht⟩ := hclose h
          exact ⟨hb, .declined .encryptionError rest hfd hstate (by decide) ht⟩
        · next key hkey =>
          obtain ⟨u, hu, heq⟩ := Option.map_eq_some_iff.mp h
          cases heq
          exact ⟨⟨true, rfl⟩, .secured frame rest key hfd hstate hfin hnext hkey hu⟩
    | active =>
      cases hdrain : (s.conn.framer env.evp).drain (s.conn.inFrameBuffer ++ input.bytes) with
      | mk items rest bad =>
        cases bad with
        | some refusal =>
          rw [readFd_refused hfd hstate hfin hdrain] at h
          obtain ⟨hb, ht⟩ := hclose h
          exact ⟨hb, .refused items rest refusal hfd hstate hfin hdrain ht⟩
        | none =>
          rw [readFd_drained hfd hstate hfin hdrain, deliver_eq] at h
          obtain ⟨⟨b, u⟩, hu, heq⟩ := Option.map_eq_some_iff.mp h
          cases heq
          refine ⟨⟨b, rfl⟩, ?_⟩
          split at hu
          · next hall =>
            cases hu
            exact .delivered items rest hfd hstate hfin hdrain hall rfl
          · next hsome =>
            obtain ⟨v, hv, heq⟩ := Option.map_eq_some_iff.mp hu
            cases heq
            exact .invalid items rest hfd hstate hfin hdrain hsome hv

/-- What a call of `readFd` can have done. -/
inductive ReadEffect (env : Env) (depth : Nat) (input : Recv) (now : UInt32) (s t : Endpoint) : Prop where
  /-- Bytes went into the buffer or out of it; the connection may have been closed. -/
  | quiet (buffer : Bytes) : Keeps (s.setBuffer buffer) t → Settled s t → ReadEffect env depth input now s t
  /-- The first frame of the stream was an acceptable handshake. -/
  | secured (frame : Frame) (rest key : Bytes) : s.conn.fd ≠ -1 → s.conn.state = .handshake →
      (frameFramer env.evp s.conn.maxFrameSize false []).next (s.conn.inFrameBuffer ++ input.bytes) =
        .item frame rest →
      acceptedKey env.rsa frame.data s.conn.rsaPrivKey now = some key →
      setAesKey env depth key (s.setBuffer rest) = some t → ReadEffect env depth input now s t
  /-- The frames of the batch that passed were handed over. -/
  | delivered (frames : List Frame) (rest : Bytes) : s.conn.fd ≠ -1 → s.conn.state = .active →
      (s.conn.framer env.evp).drain (s.conn.inFrameBuffer ++ input.bytes) = ⟨frames, rest, none⟩ →
      Keeps ((s.setBuffer rest).handOver (s.conn.accepted frames)) t → Settled s t →
      ReadEffect env depth input now s t

/-- **`readFd` has one of three effects**, besides closing the connection. -/
theorem readFd_cases {env : Env} {depth : Nat} {input : Recv} {now : UInt32} {r : Except Exn Bool}
    {s t : Endpoint} (hs : s.conn.state = .closed → s.conn.fd = -1)
    (h : readFd env depth input now s = some (r, t)) :
    (∃ b, r = .ok b) ∧ ReadEffect env depth input now s t := by
  obtain ⟨hb, houtcome⟩ := readFd_outcome hs h
  refine ⟨hb, ?_⟩
  -- Every way that ends in a close is quiet, but for the requests handed over before it.
  have hclose : ∀ {reason buffer}, closeConnection env depth reason true (s.setBuffer buffer) = some t →
      ReadEffect env depth input now s t := by
    intro reason buffer ht
    obtain ⟨hkeeps, hclosed⟩ := closeConnection_keeps (s := s.setBuffer buffer) hs ht
    exact .quiet buffer hkeeps (.inr hclosed)
  cases houtcome with
  | detached _ ht => exact @hclose _ s.conn.inFrameBuffer ht
  | ended reason _ _ ht => exact hclose ht
  | waits _ _ _ _ ht => exact .quiet (s.conn.inFrameBuffer ++ input.bytes) (ht ▸ Keeps.refl _) (ht ▸ .inl ⟨rfl, rfl⟩)
  | declined reason rest _ _ _ ht => exact hclose ht
  | secured frame rest key hfd hstate _ hnext hkey ht => exact .secured frame rest key hfd hstate hnext hkey ht
  | refused items rest refusal _ _ _ _ ht => exact hclose ht
  | delivered items rest hfd hstate _ hdrain hall ht =>
    refine .delivered items rest hfd hstate hdrain ?_ (ht ▸ .inl ⟨rfl, rfl⟩)
    rw [hall, ht]
    exact Keeps.refl _
  | invalid items rest hfd hstate _ hdrain _ ht =>
    obtain ⟨hkeeps, hclosed⟩ := closeConnection_keeps (s := (s.setBuffer rest).handOver (s.conn.accepted items)) hs ht
    exact .delivered items rest hfd hstate hdrain hkeeps (.inr hclosed)

end Fmxp.Server
