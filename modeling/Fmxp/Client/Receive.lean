import Fmxp.Client.Connection

/-! What the client's read path does, in terms of the stream it reads.

`parsed` says what `_parseFrames` finds in a buffer: the confirmation, if the handshake
is still open, then the frames of the session, up to a refusal (`parseFrames_eq`).
`accepted` says which of these frames reach `_onResponse` (`dispatch_eq`). Closing touches
nothing a session rests on (`Keeps`). -/
namespace Fmxp.Client
open Framing

def Endpoint.setBuffer (s : Endpoint) (b : Bytes) : Endpoint := s.modify fun c => {c with frameBuffer := b}

@[simp] theorem setBuffer_conn (s : Endpoint) (b : Bytes) :
    (s.setBuffer b).conn = {s.conn with frameBuffer := b} := rfl

@[simp] theorem setBuffer_self (s : Endpoint) : s.setBuffer s.conn.frameBuffer = s := rfl

@[simp] theorem setBuffer_setBuffer (s : Endpoint) (b b' : Bytes) :
    (s.setBuffer b).setBuffer b' = s.setBuffer b' := rfl

/-! ### Parsing -/

def Connection.framer (evp : Evp) (c : Connection) : Framer UInt8 Frame Refusal :=
  frameFramer evp c.maxFrameSize true c.aesKey

/-- What `_parseFrames` finds in a buffer. -/
structure Parsed where
  confirmation : Option Frame
  frames : List Frame
  rest : Bytes
  bad : Option Refusal
  deriving DecidableEq, Repr

def handshakeFailed : Exn := .runtime (throwErr ERR_CONNECTION "Handshake failed")

def Connection.parsedSession (evp : Evp) (c : Connection) (confirmation : Option Frame) (b : Bytes) : Parsed :=
  let d := (c.framer evp).drain b
  ⟨confirmation, d.items, d.rest, d.bad⟩

def Connection.parsed (evp : Evp) (c : Connection) (b : Bytes) : Parsed :=
  if c.state = .handshake then
    match (c.framer evp).next b with
    | .wait => ⟨none, [], b, none⟩
    | .bad r => ⟨none, [], b, some r⟩
    | .item frame rest =>
      if frame.data = connectionSecured then c.parsedSession evp (some frame) rest
      else ⟨none, [], b, some (.rejected handshakeFailed)⟩
  else c.parsedSession evp none b

/-- The connection once a confirmation has been taken. -/
def Endpoint.confirm (s : Endpoint) : Option Frame → Endpoint
  | none => s
  | some frame => (s.modify fun c => {c with state := .connected, ssid := frame.ssid}).emit (.confirmed frame)

/-- What a refusal leads to: the decoder's own exception is caught, others are not. -/
def refuse (r : Refusal) (frames : List Frame) (s : Endpoint) : Except Exn (List Frame) × Endpoint :=
  match r with
  | .protocol | .tooLong | .rejected (.fmxp _) => closeThen s frames
  | .rejected e => (.error e, s)

def endParse (frames : List Frame) (rest : Bytes) (bad : Option Refusal) (s : Endpoint) :
    Except Exn (List Frame) × Endpoint :=
  match bad with
  | none => (.ok frames, s.setBuffer rest)
  | some r => refuse r frames (s.setBuffer rest)

theorem parseFrames_session (env : Env) (n : Nat) (s : Endpoint) (frames : List Frame)
    (hstate : s.conn.state ≠ .handshake) (hn : s.conn.frameBuffer.length < n) :
    let d := (s.conn.framer env.evp).drain s.conn.frameBuffer
    parseFrames env n s frames = endParse (frames ++ d.items) d.rest d.bad s := by
  induction n generalizing s frames with
  | zero => omega
  | succ n ih =>
    obtain ⟨lead, hlead⟩ := leadingFrame_total s.conn.maxFrameSize s.conn.frameBuffer
    have hnext := frameFramer_next env.evp true s.conn.aesKey hlead
    unfold Connection.framer
    cases lead with
    | incomplete =>
      rw [Framer.drain_wait _ hnext]
      simp only [parseFrames, hlead, endParse, List.append_nil, setBuffer_self]
    | invalid =>
      rw [Framer.drain_bad _ hnext]
      simp only [parseFrames, hlead, endParse, refuse, List.append_nil, setBuffer_self]
    | tooLong =>
      rw [Framer.drain_bad _ hnext]
      simp only [parseFrames, hlead, endParse, refuse, List.append_nil, setBuffer_self]
    | frame raw size =>
      obtain ⟨_, hpos, hle, _⟩ := leadingFrame_frame hlead
      have hslice := slice_suffix hle
      simp only [Lead.next] at hnext
      cases hdec : decodeFrame env.evp raw true s.conn.aesKey with
      | error e =>
        rw [hdec] at hnext
        rw [Framer.drain_bad _ hnext]
        cases e <;> simp only [parseFrames, hlead, hdec, endParse, refuse, List.append_nil, setBuffer_self]
      | ok f =>
        rw [hdec] at hnext
        rw [Framer.drain_item _ hnext]
        simp only [headerSize] at hpos
        have hshort : (s.setBuffer (s.conn.frameBuffer.drop size)).conn.frameBuffer.length < n := by
          rw [setBuffer_conn, List.length_drop]
          omega
        have hrest := ih (s.setBuffer (s.conn.frameBuffer.drop size)) (frames ++ [f]) hstate hshort
        simp only [parseFrames, hlead, hstate, if_false, hdec, hslice]
        refine Eq.trans hrest ?_
        simp only [setBuffer_conn, Connection.framer, endParse, setBuffer_setBuffer, List.append_assoc,
          List.singleton_append]

/-- **`_parseFrames` on a whole buffer.** -/
theorem parseFrames_eq (env : Env) (s : Endpoint) :
    let p := s.conn.parsed env.evp s.conn.frameBuffer
    parseFrames env (s.conn.frameBuffer.length + 1) s [] =
      endParse p.frames p.rest p.bad (s.confirm p.confirmation) := by
  unfold Connection.parsed
  by_cases hstate : s.conn.state = .handshake
  · rw [if_pos hstate]
    obtain ⟨lead, hlead⟩ := leadingFrame_total s.conn.maxFrameSize s.conn.frameBuffer
    have hnext := frameFramer_next env.evp true s.conn.aesKey hlead
    unfold Connection.framer
    rw [hnext]
    cases lead with
    | incomplete => simp only [parseFrames, hlead, Lead.next, endParse, Endpoint.confirm, setBuffer_self]
    | invalid => simp only [parseFrames, hlead, Lead.next, endParse, refuse, Endpoint.confirm, setBuffer_self]
    | tooLong => simp only [parseFrames, hlead, Lead.next, endParse, refuse, Endpoint.confirm, setBuffer_self]
    | frame raw size =>
      obtain ⟨_, hpos, hle, _⟩ := leadingFrame_frame hlead
      have hslice := slice_suffix hle
      simp only [Lead.next]
      cases hdec : decodeFrame env.evp raw true s.conn.aesKey with
      | error e =>
        cases e <;> simp only [parseFrames, hlead, hdec, endParse, refuse, Endpoint.confirm, setBuffer_self]
      | ok f =>
        by_cases hdata : f.data = connectionSecured
        · -- Once confirmed, the rest of the buffer is parsed as in a session.
          have hlen : (s.conn.frameBuffer.drop size).length < s.conn.frameBuffer.length := by
            rw [List.length_drop]
            simp only [headerSize] at hpos
            omega
          have hrest := parseFrames_session env s.conn.frameBuffer.length
            ((s.confirm (some f)).setBuffer (s.conn.frameBuffer.drop size)) [] (by intro h; cases h) hlen
          simp only [parseFrames, hlead, hstate, hdec, hdata, hslice, if_true]
          refine Eq.trans hrest ?_
          simp only [List.nil_append, Connection.parsedSession]
          rfl
        · simp only [parseFrames, hlead, hstate, hdec, hdata, if_true, if_false, endParse, refuse,
            handshakeFailed, Endpoint.confirm, setBuffer_self]
  · rw [if_neg hstate]
    exact parseFrames_session env _ s [] hstate (Nat.lt_succ_self _)

/-! ### Closing -/

/-- A connection whose epoll thread has not been joined and which has not been closed. -/
structure Live (s : Endpoint) : Prop where
  state : s.conn.state ≠ .closed
  running : s.conn.running = true
  joinable : s.conn.joinable = true

/-- The state a close on the epoll thread throws from. -/
def Endpoint.closeHere (s : Endpoint) : Endpoint := s.beginClose.emit .joinedSelf

/-- On the epoll thread `close` does its first half and then tries to join itself. -/
theorem close_live {s : Endpoint} (hs : Live s) :
    close .epoll s = (.error (.system "Resource deadlock avoided"), s.closeHere) := by
  have hjoinable : s.beginClose.conn.joinable = true := by
    unfold Endpoint.beginClose
    cases s.conn.onClose <;> exact hs.joinable
  simp only [close, hs.running, hs.state, Bool.not_true, decide_false, Bool.or_self, Bool.false_eq_true,
    if_false, hjoinable, if_true]
  rfl

theorem close_closed {s : Endpoint} (thread : Thread) (hs : s.conn.state = .closed) :
    close thread s = (.ok (), s) := by
  simp only [close, hs, decide_true, Bool.or_true, if_true]

theorem closeThen_live {α : Type} {s : Endpoint} (hs : Live s) (result : α) :
    closeThen s result = (.error (.system "Resource deadlock avoided"), s.closeHere) := by
  simp only [closeThen, close_live hs]

/-! ### Handing responses over -/

/-- The connection after it has handed these frames over. -/
def Endpoint.handOver (s : Endpoint) (frames : List Frame) : Endpoint where
  conn := {s.conn with lastSrvFid := lastFid s.conn.lastSrvFid frames}
  sends := s.sends
  ivs := s.ivs
  log := s.log ++ frames.map .response

/-- The frames of a batch that pass `_validateFrame`, up to the first that does not. -/
def Connection.accepted (c : Connection) (frames : List Frame) : List Frame :=
  acceptedFrames c.ssid c.lastSrvFid frames

theorem handOver_nil (s : Endpoint) : s.handOver [] = s := by
  simp [Endpoint.handOver, lastFid, Counter.final]

theorem handOver_cons (s : Endpoint) (f : Frame) (frames : List Frame) :
    (s.handOver [f]).handOver frames = s.handOver (f :: frames) := by
  simp [Endpoint.handOver, lastFid, Counter.final]

theorem dispatchFrame_eq (f : Frame) (s : Endpoint) :
    dispatchFrame f s =
      if f.ssid = s.conn.ssid ∧ s.conn.lastSrvFid < f.fid then (.ok true, s.handOver [f])
      else closeThen s false := by
  unfold dispatchFrame validateFrame
  by_cases hok : f.ssid = s.conn.ssid ∧ s.conn.lastSrvFid < f.fid
  · have hlt : ¬ f.fid ≤ s.conn.lastSrvFid := UInt32.not_le.mpr hok.2
    simp only [hlt, hok, ne_eq, not_true_eq_false, decide_false, Bool.or_self, Bool.false_eq_true, if_false,
      and_self, if_true]
    rfl
  · have hbad : f.fid ≤ s.conn.lastSrvFid ∨ f.ssid ≠ s.conn.ssid := by
      rw [← UInt32.not_lt]
      exact (Decidable.not_and_iff_or_not.mp hok).symm
    rw [if_neg hok, if_pos (by simpa using hbad)]
    unfold closeThen
    cases close .epoll s with
    | mk r t => cases r <;> rfl

theorem dispatch_eq (frames : List Frame) (s : Endpoint) :
    dispatch frames s =
      if s.conn.accepted frames = frames then (.ok (), s.handOver frames)
      else closeThen (s.handOver (s.conn.accepted frames)) () := by
  induction frames generalizing s with
  | nil => simp only [dispatch, handOver_nil, Connection.accepted, acceptedFrames, Counter.accepted, if_true]
  | cons f fs ih =>
    rw [dispatch, dispatchFrame_eq]
    simp only [Connection.accepted, acceptedFrames_cons]
    by_cases hok : f.ssid = s.conn.ssid ∧ s.conn.lastSrvFid < f.fid
    · -- The rest is handed over by the connection this frame leaves.
      have hrest := ih (s.handOver [f])
      simp only [handOver_cons] at hrest
      simp only [if_pos hok, List.cons.injEq, true_and]
      exact hrest
    · rw [if_neg hok, if_neg hok, if_neg (by intro hc; cases hc), handOver_nil]
      unfold closeThen
      cases close .epoll s with
      | mk r t => cases r <;> rfl

/-! ### The read path -/

theorem confirm_setBuffer (s : Endpoint) (b : Bytes) (confirmation : Option Frame) :
    (s.setBuffer b).confirm confirmation = (s.confirm confirmation).setBuffer b := by
  cases confirmation <;> rfl

/-- What a read finds in the buffer and the new bytes, unless it closes first. -/
theorem receive_parse {env : Env} {input : Recv} {s : Endpoint}
    (h : (heard input s).fin = .again ∨ s.conn.state = .closed) :
    let p := s.conn.parsed env.evp (s.conn.frameBuffer ++ (heard input s).bytes)
    receive env input s = endParse p.frames p.rest p.bad (s.confirm p.confirmation) := by
  intro p
  have hreceive : receive env input s =
      parseFrames env ((s.hear input).conn.frameBuffer.length + 1) (s.hear input) [] := by
    unfold receive
    by_cases hfin : (heard input s).fin = .again
    · rw [if_pos hfin]
    · have hclosed : (s.hear input).conn.state = .closed := h.resolve_left hfin
      rw [if_neg hfin, close_closed .epoll hclosed]
  have hparsed : (s.hear input).conn.parsed env.evp (s.hear input).conn.frameBuffer = p := rfl
  have hheard : s.hear input = s.setBuffer (s.conn.frameBuffer ++ (heard input s).bytes) := rfl
  rw [hreceive, parseFrames_eq, hparsed, hheard, confirm_setBuffer]
  cases hbad : p.bad <;> simp only [endParse, setBuffer_setBuffer]

/-- A read that meets the end of the stream or an error closes before it parses anything. -/
theorem receive_broken {env : Env} {input : Recv} {s : Endpoint} (hs : Live s)
    (hfin : (heard input s).fin ≠ .again) :
    receive env input s = (.error (.system "Resource deadlock avoided"), (s.hear input).closeHere) := by
  have hlive : Live (s.hear input) := ⟨hs.state, hs.running, hs.joinable⟩
  unfold receive
  rw [if_neg hfin, close_live hlive]

end Fmxp.Client
