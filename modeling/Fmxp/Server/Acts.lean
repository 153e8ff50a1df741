import Mathlib.Logic.Relation
import Fmxp.Server.Closing

/-! The acts a call on a connection is made of.

A call that sends or closes goes through nested calls of `sendFrame` and `closeConnection`, in an
order that depends on the results of `send`. What it does on the way is a sequence of a few acts:
it numbers and encodes a frame, it calls `send`, it closes the descriptor, it changes the state
(`perform_acts`). What every act keeps, every call keeps, however it is nested (`Acts.keeps`). -/
namespace Fmxp.Server

/-- The frame a call is given to send. -/
def Call.frame : Call → Option Frame
  | .sendFrame frame => some frame
  | _ => none

/-- The frames a call sends: the one it was given, and what the connection says itself. -/
inductive Sends (given : Option Frame) (c : ClientConnection) : Frame → Prop
  | given {frame : Frame} : given = some frame → Sends given c frame
  | farewell : Sends given c (c.makeRespFrame [] [] STATUS_OK 0 0)
  | confirmation : Sends given c (c.makeRespFrame [] connectionSecured STATUS_OK 0 0)

/-- One act. With a descriptor the encoder refuses a frame for its size alone: without a key the
call would not return. -/
inductive Act (env : Env) (given : Option Frame) (s : Endpoint) : Endpoint → Prop
  | encoded {frame : Frame} {raw : Bytes} : Sends given s.conn frame →
      encodeFrame env.evp (env.iv s.ivs) frame true s.conn.aesKey s.nextFid.conn.fid = .ok raw →
      Act env given s (s.nextFid.recordEncoded raw)
  | refused {frame : Frame} : Sends given s.conn frame → (s.conn.fd ≠ -1 → cInt frame.bodySize < 0) →
      Act env given s s.nextFid
  | sent (rest : Bytes) : Act env given s (s.send env rest).2
  | closedFd : Act env given s s.closeFd
  | closed : s.conn.fd = -1 → Act env given s (s.modify fun c => {c with state := .closed})
  | notified (reason : CloseReason) : Act env given s (s.emit (.onClose (cInt s.conn.connId) reason))
  | buffered (b : Bytes) : Act env given s (s.setBuffer b)
  | secured (key : Bytes) : s.conn.state = .handshake → s.conn.aesKey = [] → key.length = 32 →
      Act env given s (s.secure env key)
  | activated : s.conn.aesKey.length = 32 → s.conn.ssid = env.rand64 →
      Act env given s (s.modify fun c => {c with state := .active})
  | handed {frame : Frame} : s.conn.state = .active → frame.ssid = s.conn.ssid → s.conn.lastCliFid < frame.fid →
      Act env given s (s.handOver [frame])
  | callbackSet : Act env given s (s.modify fun c => {c with onClose := true})

def Acts (env : Env) (given : Option Frame) : Endpoint → Endpoint → Prop := Relation.ReflTransGen (Act env given)

variable {env : Env} {given : Option Frame} {s t u : Endpoint}

theorem Act.acts (h : Act env given s t) : Acts env given s t := .single h

theorem Acts.refl (s : Endpoint) : Acts env given s s := Relation.ReflTransGen.refl

theorem Acts.trans (h : Acts env given s t) (h' : Acts env given t u) : Acts env given s u :=
  Relation.ReflTransGen.trans h h'

/-- What every act keeps, every call keeps. -/
theorem Acts.keeps {P : Endpoint → Prop} (h : Acts env given s t)
    (hact : ∀ u v, Act env given u v → P u → P v) (hs : P s) : P t := by
  induction h with
  | refl => exact hs
  | tail _ hlast ih => exact hact _ _ hlast ih

theorem Act.of_own (given : Option Frame) (h : Act env none s t) : Act env given s t := by
  have hsends : ∀ {c frame}, Sends none c frame → Sends given c frame := by
    intro c frame h
    cases h with
    | given hgiven => cases hgiven
    | farewell => exact .farewell
    | confirmation => exact .confirmation
  cases h with
  | encoded hown henc => exact .encoded (hsends hown) henc
  | refused hown hsize => exact .refused (hsends hown) hsize
  | sent rest => exact .sent rest
  | closedFd => exact .closedFd
  | closed hfd => exact .closed hfd
  | notified reason => exact .notified reason
  | buffered b => exact .buffered b
  | secured key hstate hnil hkey => exact .secured key hstate hnil hkey
  | activated hkey hssid => exact .activated hkey hssid
  | handed hstate hssid hfid => exact .handed hstate hssid hfid
  | callbackSet => exact .callbackSet

/-- What a connection does of its own, it may do in any call. -/
theorem Acts.of_own (given : Option Frame) (h : Acts env none s t) : Acts env given s t :=
  Relation.ReflTransGen.mono (fun _ _ hact => Act.of_own given hact) s t h

/-! ### Sending and closing -/

/-- A call of `send` adds what it has written to the log, if anything. -/
theorem send_log (env : Env) (rest : Bytes) (s : Endpoint) :
    (s.send env rest).2.log = s.log ∨ ∃ bytes, (s.send env rest).2.log = s.log ++ [.wrote s.conn.fd bytes] := by
  unfold Endpoint.send
  split
  · exact .inl rfl
  · split
    · exact .inl rfl
    · exact .inr ⟨_, rfl⟩

theorem sendLoop_acts (n : Nat) (rest : Bytes) (s : Endpoint) : Acts env given s (sendLoop env n rest s).1 := by
  induction n generalizing rest s with
  | zero => exact .refl s
  | succ n ih =>
    simp only [sendLoop]
    split
    · exact .refl s
    · have hsent : Acts env given s (s.send env rest).2 := (Act.sent rest).acts
      split
      · exact hsent
      · exact hsent.trans (ih _ _)

/-- How `sendFrame` begins: the frame is encoded, or the encoder refuses it and the connection is
closed. All that follows the connection does of its own. -/
inductive SendEffect (env : Env) (frame : Frame) (s t : Endpoint) : Prop
  | encoded {raw : Bytes} :
      encodeFrame env.evp (env.iv s.ivs) frame true s.conn.aesKey s.nextFid.conn.fid = .ok raw →
      Acts env none (s.nextFid.recordEncoded raw) t → SendEffect env frame s t
  | refused : (s.conn.fd ≠ -1 → cInt frame.bodySize < 0) → t.conn.fd = -1 → Acts env none s.nextFid t →
      SendEffect env frame s t

theorem SendEffect.acts {frame : Frame} (hsends : Sends given s.conn frame) (h : SendEffect env frame s t) :
    Acts env given s t := by
  cases h with
  | encoded henc hrest =>
    have hfirst := (Act.encoded hsends henc).acts
    exact hfirst.trans (hrest.of_own given)
  | refused hsize _ hrest =>
    have hfirst : Acts env given s s.nextFid := (Act.refused hsends hsize).acts
    exact hfirst.trans (hrest.of_own given)

/-- `sendFrame` acts as the close it is given does, besides encoding and sending. -/
theorem sendFrameWith_effect {close : CloseReason → Endpoint → Option Endpoint} {frame : Frame}
    (hkey : s.conn.fd ≠ -1 → s.conn.aesKey.length = 32)
    (hclose : ∀ r u v, u.conn.state = s.conn.state → u.conn.fd = s.conn.fd → close r u = some v →
      Acts env none u v ∧ v.conn.fd = -1)
    (h : sendFrameWith env close frame s = some t) : SendEffect env frame s t := by
  simp only [sendFrameWith] at h
  split at h
  · next e he =>
    obtain ⟨hacts, hgone⟩ := hclose _ s.nextFid t rfl rfl h
    refine .refused (fun hfd => ?_) hgone hacts
    by_contra hsize
    have htotal := encodeFrame_total env.evp (env.iv s.nextFid.ivs) frame s.nextFid.conn.fid
      (show s.nextFid.conn.aesKey.length = 32 from hkey hfd)
    rw [if_pos (by omega)] at htotal
    obtain ⟨raw, hraw⟩ := htotal
    cases he.symm.trans hraw
  · next raw hraw =>
    have hloop := @sendLoop_acts env none raw.length raw (s.nextFid.recordEncoded raw)
    have hconn := (sendLoop_keeps env raw.length raw (s.nextFid.recordEncoded raw)).1
    refine .encoded hraw ?_
    split at h
    · next v hv =>
      rw [hv] at hloop
      cases h
      exact hloop
    · next v hv =>
      rw [hv] at hloop hconn
      have hacts := (hclose _ v t (congrArg (·.state) hconn) (congrArg (·.fd) hconn) h).1
      exact hloop.trans hacts

theorem closeConnection_acts {depth : Nat} {reason : CloseReason} {invokeOnClose : Bool}
    (hs : s.conn.state = .closed → s.conn.fd = -1)
    (h : closeConnection env depth reason invokeOnClose s = some t) : Acts env none s t := by
  induction depth generalizing reason invokeOnClose s t with
  | zero => cases h
  | succ depth ih =>
    have hreturns := h
    simp only [closeConnection] at h
    split at h
    · cases h
      exact .refl s
    next hopen =>
    obtain ⟨u, hu, rfl⟩ := Option.map_eq_some_iff.mp h
    have hshut : Acts env none s u ∧ u.conn.fd = -1 := by
      split at hu
      · next hfd =>
        cases hu
        exact ⟨.refl s, hfd⟩
      next hfd =>
      split at hu
      · cases hu
        exact ⟨Act.closedFd.acts, rfl⟩
      · next hreason =>
        -- Without a key the close would not have returned.
        have hkey := (closeConnection_key hopen hfd hreason hreturns).key
        obtain ⟨v, hv, rfl⟩ := Option.map_eq_some_iff.mp hu
        have hsent := sendFrameWith_effect (fun _ => hkey) (fun r u w hstate hsame hw => by
          have hu : u.conn.state = .closed → u.conn.fd = -1 := fun hc => absurd (hstate.symm.trans hc) hopen
          exact ⟨ih hu hw, (closeConnection_keeps hu hw).2.2⟩) hv
        exact ⟨(hsent.acts .farewell).trans Act.closedFd.acts, rfl⟩
    have hclosed : Acts env none s (u.modify fun c => {c with state := .closed}) :=
      hshut.1.trans (Act.closed hshut.2).acts
    split
    · exact hclosed.trans (Act.notified reason).acts
    · exact hclosed

theorem sendFrame_effect {depth : Nat} {frame : Frame} (hs : s.conn.state = .closed → s.conn.fd = -1)
    (h : sendFrame env depth frame s = some t) : SendEffect env frame s t := by
  have hkey : s.conn.fd ≠ -1 → s.conn.aesKey.length = 32 := fun hfd =>
    (sendFrame_key (fun hc => hfd (hs hc)) hfd h).key
  refine sendFrameWith_effect hkey (fun r u v hstate hfd hv => ?_) h
  have hu : u.conn.state = .closed → u.conn.fd = -1 := fun hc => hfd.trans (hs (hstate.symm.trans hc))
  exact ⟨closeConnection_acts hu hv, (closeConnection_keeps hu hv).2.2⟩

/-! ### Receiving -/

theorem setAesKey_acts {depth : Nat} {key : Bytes} (hs : WellFormed env s) (hstate : s.conn.state = .handshake)
    (hkey : key.length = 32) (h : setAesKey env depth key s = some t) : Acts env none s t := by
  rw [setAesKey_eq] at h
  obtain ⟨u, hu, rfl⟩ := Option.map_eq_some_iff.mp h
  obtain ⟨hkeeps, _⟩ := sendFrame_keeps (s := s.secure env key) hs.closed hu
  have hsecured : Acts env none s (s.secure env key) :=
    (Act.secured key hstate (hs.handshake hstate).2.1 hkey).acts
  have hsent : Acts env none (s.secure env key) u :=
    (sendFrame_effect (s := s.secure env key) hs.closed hu).acts .confirmation
  have hactivated : Act env none u (u.modify fun c => {c with state := .active}) :=
    .activated ((congrArg List.length hkeeps.aesKey).trans hkey) hkeeps.ssid
  exact (hsecured.trans hsent).trans hactivated.acts

theorem handOver_acts (hstate : s.conn.state = .active) (frames : List Frame) :
    Acts env none s (s.handOver (s.conn.accepted frames)) := by
  induction frames generalizing s with
  | nil =>
    have hnil : s.conn.accepted [] = [] := rfl
    rw [hnil, handOver_nil]
    exact .refl s
  | cons f frames ih =>
    simp only [ClientConnection.accepted, acceptedFrames_cons]
    split
    · next hok =>
      have hfirst : Acts env none s (s.handOver [f]) := (Act.handed hstate hok.1 hok.2).acts
      have hrest := ih (s := s.handOver [f]) hstate
      have hboth : (s.handOver [f]).handOver ((s.handOver [f]).conn.accepted frames) =
          s.handOver (f :: acceptedFrames s.conn.ssid f.fid frames) := by
        simp [Endpoint.handOver, ClientConnection.accepted, lastFid, Counter.final]
      rw [hboth] at hrest
      exact hfirst.trans hrest
    · rw [handOver_nil]
      exact .refl s

theorem readFd_acts {depth : Nat} {input : Recv} {now : UInt32} {r : Except Exn Bool} (hs : WellFormed env s)
    (h : readFd env depth input now s = some (r, t)) : Acts env none s t := by
  have hbuffered : ∀ b, Acts env none s (s.setBuffer b) := fun b => (Act.buffered b).acts
  -- Closing after the buffer has moved on.
  have hclose : ∀ {reason b}, closeConnection env depth reason true (s.setBuffer b) = some t → Acts env none s t :=
    fun ht => (hbuffered _).trans (closeConnection_acts (by exact hs.closed) ht)
  cases (readFd_outcome hs.closed h).2 with
  | detached _ ht => exact closeConnection_acts hs.closed ht
  | ended reason _ _ ht => exact hclose ht
  | waits _ _ _ _ ht => exact ht ▸ hbuffered _
  | declined reason rest _ _ _ ht => exact hclose ht
  | secured frame rest key hfd hstate _ _ hkey ht =>
    have hwell : WellFormed env (s.setBuffer rest) := ⟨hs.closed, hs.handshake, hs.active⟩
    exact (hbuffered rest).trans (setAesKey_acts hwell hstate (length_acceptedKey hkey) ht)
  | refused items rest refusal _ _ _ _ ht => exact hclose ht
  | delivered items rest _ hstate _ _ hall ht =>
    have hover := @handOver_acts env (s.setBuffer rest) hstate items
    rw [show (s.setBuffer rest).conn.accepted items = items from hall] at hover
    exact ht ▸ (hbuffered rest).trans hover
  | invalid items rest _ hstate _ _ _ ht =>
    have hover := @handOver_acts env (s.setBuffer rest) hstate items
    exact ((hbuffered rest).trans hover).trans (closeConnection_acts (by exact hs.closed) ht)

/-- A call that is given no frame does everything of its own. -/
theorem perform_own {depth : Nat} {call : Call} (hs : WellFormed env s) (hcall : call.frame = none)
    (h : perform env depth call s = some t) : Acts env none s t := by
  cases call with
  | readFd input now =>
    obtain ⟨⟨r, u⟩, hread, rfl⟩ := Option.map_eq_some_iff.mp h
    exact readFd_acts hs hread
  | sendFrame frame => cases hcall
  | closeConnection reason invokeOnClose => exact closeConnection_acts hs.closed h
  | setOnClose =>
    cases h
    exact Act.callbackSet.acts

/-- **A call is a sequence of acts.** -/
theorem perform_acts {depth : Nat} {call : Call} (hs : WellFormed env s) (h : perform env depth call s = some t) :
    Acts env call.frame s t := by
  cases hcall : call.frame with
  | none => exact perform_own hs hcall h
  | some frame =>
    cases call with
    | sendFrame =>
      cases hcall
      exact (sendFrame_effect hs.closed h).acts (.given rfl)
    | _ => cases hcall

end Fmxp.Server
