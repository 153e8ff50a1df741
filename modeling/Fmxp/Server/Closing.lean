import Fmxp.Core.RoundTrip
import Fmxp.Server.Lifecycle

/-! When closing and sending return.

`closeConnection` sends a farewell frame before it marks the connection closed, and
`sendFrame` closes the connection when it fails, so the two call each other until a
frame goes out. Without a key none does; with one, every frame that fails to go out
is followed by another farewell, which draws the next results of `send`. `Takes` and
`GoesOut` are the two conditions on these results, and `calls_return_iff` says for every
reachable state which calls return. -/
namespace Fmxp.Server
open Transition Framing

/-! ### Results of `send` -/

/-- From call `i` on, `n` bytes are taken before a call fails. -/
inductive Takes (send : Nat → SendResult) : Nat → Nat → Prop where
  | done {i : Nat} : Takes send i 0
  | call {i n : Nat} : 0 < n → 0 < (send i).bytes → Takes send (i + 1) (n - (send i).bytes) →
      Takes send i n

/-- The first failure from call `i` on is call `k`. -/
structure FailsAt (send : Nat → SendResult) (i k : Nat) : Prop where
  le : i ≤ k
  fails : (send k).bytes = 0
  before : ∀ j, i ≤ j → j < k → 0 < (send j).bytes

theorem FailsAt.first {send : Nat → SendResult} {i j k : Nat} (h : FailsAt send i k) (hle : i ≤ j)
    (hfails : (send j).bytes = 0) : k ≤ j := by
  by_contra hlt
  have hpos := h.before j hle (by omega)
  omega

/-- The bytes of a farewell frame: it has neither path nor data. -/
def farewellSize : Nat := headerSize + 28 + bodyHeaderSize

/-- A frame of `n` bytes goes out from call `i` on, or one of the farewells after it does. -/
def GoesOut (send : Nat → SendResult) (i n : Nat) : Prop :=
  Takes send i n ∨ ∃ k, i ≤ k ∧ (send k).bytes = 0 ∧ Takes send (k + 1) farewellSize

variable {send : Nat → SendResult}

/-- After a first failure everything depends on the farewells. -/
theorem goesOut_of_failsAt {i k n : Nat} (hnot : ¬ Takes send i n) (hk : FailsAt send i k) :
    GoesOut send i n ↔ GoesOut send (k + 1) farewellSize := by
  constructor
  · rintro (htakes | ⟨k', hle, hfails, htakes⟩)
    · exact absurd htakes hnot
    · by_cases heq : k' = k
      · exact .inl (heq ▸ htakes)
      · have hge := hk.first hle hfails
        exact .inr ⟨k', by omega, hfails, htakes⟩
  · rintro (htakes | ⟨k', hle, hfails, htakes⟩)
    · exact .inr ⟨k, hk.le, hk.fails, htakes⟩
    · exact .inr ⟨k', by have := hk.le; omega, hfails, htakes⟩

/-- A frame that still has bytes goes on only through the next call. -/
theorem takes_iff {i n : Nat} (hn : 0 < n) :
    Takes send i n ↔ 0 < (send i).bytes ∧ Takes send (i + 1) (n - (send i).bytes) := by
  constructor
  · intro h
    cases h with
    | done => omega
    | call _ hbytes hrest => exact ⟨hbytes, hrest⟩
  · rintro ⟨hbytes, hrest⟩
    exact .call hn hbytes hrest

/-- Where no call fails any more, everything is taken. -/
theorem takes_of_pos {i : Nat} (h : ∀ j, i ≤ j → 0 < (send j).bytes) (n : Nat) : Takes send i n := by
  induction n using Nat.strongRecOn generalizing i with
  | _ n ih =>
    by_cases hn : n = 0
    · rw [hn]
      exact .done
    · have hpos := h i (Nat.le_refl i)
      exact .call (Nat.pos_of_ne_zero hn) hpos (ih _ (by omega) fun j hj => h j (by omega))

/-! ### The write loop -/

/-- One call of `send` on an open descriptor takes what its result says, as far as there is any. -/
theorem send_taken (env : Env) (rest : Bytes) {s : Endpoint} (hfd : s.conn.fd ≠ -1) :
    (s.send env rest).1.toNat = min (env.send s.sends).bytes rest.length ∧
      ((s.send env rest).1 ≤ 0 ↔ min (env.send s.sends).bytes rest.length = 0) ∧
      (s.send env rest).2.sends = s.sends + 1 ∧ (s.send env rest).2.conn = s.conn := by
  simp only [Endpoint.send, if_neg hfd]
  cases env.send s.sends with
  | error => simp [SendResult.bytes]
  | count n =>
    simp only [SendResult.bytes, Endpoint.emit, ← List.length_take, Int.toNat_natCast, true_and, and_true]
    omega

/-- The write loop succeeds when the bytes are taken, and otherwise stops at the first failure. -/
theorem sendLoop_spec (env : Env) {m : Nat} {rest : Bytes} {s : Endpoint} (hfd : s.conn.fd ≠ -1)
    (hm : rest.length ≤ m) :
    ((sendLoop env m rest s).2 = true ∧ Takes env.send s.sends rest.length) ∨
    ((sendLoop env m rest s).2 = false ∧ ¬ Takes env.send s.sends rest.length ∧
      ∃ k, FailsAt env.send s.sends k ∧ (sendLoop env m rest s).1.sends = k + 1) := by
  induction m generalizing rest s with
  | zero =>
    have hnil : rest = [] := List.eq_nil_of_length_eq_zero (by omega)
    rw [hnil]
    exact .inl ⟨rfl, .done⟩
  | succ m ih =>
    by_cases hnil : rest = []
    · rw [hnil]
      exact .inl ⟨by simp only [sendLoop, if_true], .done⟩
    have hpos : 0 < rest.length := List.length_pos_iff.mpr hnil
    obtain ⟨hsent, hstop, hsends, hconn⟩ := send_taken env rest hfd
    rw [takes_iff hpos]
    by_cases hfails : (env.send s.sends).bytes = 0
    · -- This call fails, or takes nothing, which counts as a failure.
      have hnow : (s.send env rest).1 ≤ 0 := hstop.mpr (by omega)
      simp only [sendLoop, if_neg hnil, if_pos hnow]
      refine .inr ⟨trivial, by omega, s.sends, ⟨Nat.le_refl _, hfails, ?_⟩, hsends⟩
      intro j hge hlt
      omega
    · -- This call takes some bytes, and the loop goes on with the others.
      have hgo : ¬ (s.send env rest).1 ≤ 0 := by
        rw [hstop]
        omega
      simp only [sendLoop, if_neg hnil, if_neg hgo]
      have hrest : (rest.drop (s.send env rest).1.toNat).length =
          rest.length - (env.send s.sends).bytes := by
        rw [List.length_drop, hsent]
        omega
      have hleft : (rest.drop (s.send env rest).1.toNat).length ≤ m := by omega
      have hnext := ih (s := (s.send env rest).2) (hconn ▸ hfd) hleft
      rw [hrest, hsends] at hnext
      rcases hnext with ⟨hok, htakes⟩ | ⟨hbad, hnot, k, hk, hlast⟩
      · exact .inl ⟨hok, by omega, htakes⟩
      · refine .inr ⟨hbad, fun h => hnot h.2, k, ⟨by have := hk.le; omega, hk.fails, ?_⟩, hlast⟩
        intro j hge hlt
        by_cases heq : j = s.sends
        · rw [heq]
          omega
        · exact hk.before j (by omega) hlt

/-! ### Sending and closing with a key -/

/-- The bytes of a frame on the wire. -/
def wireSize (frame : Frame) : Nat := headerSize + 28 + (cInt frame.bodySize).toNat

/-- A connection that is open and has a key. -/
structure CanSend (s : Endpoint) : Prop where
  state : s.conn.state ≠ .closed
  fd : s.conn.fd ≠ -1
  key : s.conn.aesKey.length = 32

theorem CanSend.of_conn {s t : Endpoint} (h : CanSend s) (hconn : t.conn = s.nextFid.conn) : CanSend t := by
  refine ⟨?_, ?_, ?_⟩ <;> rw [hconn]
  · exact h.state
  · exact h.fd
  · exact h.key

/-- What the encoder refuses is never written; the connection is closed instead. -/
theorem sendFrame_refused {env : Env} {frame : Frame} {s : Endpoint} {e : RuntimeError}
    (h : encodeFrame env.evp (env.iv s.ivs) frame true s.conn.aesKey s.nextFid.conn.fid = .error e)
    (depth : Nat) :
    sendFrame env depth frame s = closeConnection env depth .encryptionError true s.nextFid := by
  have henc : encodeFrame env.evp (env.iv s.nextFid.ivs) frame true s.nextFid.conn.aesKey s.nextFid.conn.fid =
      .error e := h
  simp only [sendFrame, sendFrameWith, henc]

/-- So it is with a frame whose size is negative as an `int`. -/
theorem sendFrame_oversize (env : Env) {frame : Frame} {s : Endpoint} (hkey : s.conn.aesKey.length = 32)
    (hsize : ¬ 0 ≤ cInt frame.bodySize) (depth : Nat) :
    sendFrame env depth frame s = closeConnection env depth .encryptionError true s.nextFid := by
  have htotal := encodeFrame_total env.evp (env.iv s.ivs) frame s.nextFid.conn.fid hkey
  rw [if_neg hsize] at htotal
  obtain ⟨e, he⟩ := htotal
  exact sendFrame_refused he depth

/-- What the encoder takes is given to the write loop, and the connection is closed when that fails. -/
theorem sendFrame_looped {env : Env} {frame : Frame} {s t : Endpoint} {raw : Bytes} {sent : Bool}
    (h : encodeFrame env.evp (env.iv s.ivs) frame true s.conn.aesKey s.nextFid.conn.fid = .ok raw)
    (hrun : sendLoop env raw.length raw (s.nextFid.recordEncoded raw) = (t, sent)) (depth : Nat) :
    sendFrame env depth frame s = if sent then some t else closeConnection env depth .socketError true t := by
  have henc : encodeFrame env.evp (env.iv s.nextFid.ivs) frame true s.nextFid.conn.aesKey s.nextFid.conn.fid =
      .ok raw := h
  simp only [sendFrame, sendFrameWith, henc, hrun]
  cases sent <;> rfl

theorem CanSend.encodes {s : Endpoint} (hs : CanSend s) (env : Env) {frame : Frame} (hsize : 0 ≤ cInt frame.bodySize) :
    ∃ raw, encodeFrame env.evp (env.iv s.ivs) frame true s.conn.aesKey s.nextFid.conn.fid = .ok raw ∧
      raw.length = wireSize frame := by
  have htotal := encodeFrame_total env.evp (env.iv s.ivs) frame s.nextFid.conn.fid hs.key
  rw [if_pos hsize] at htotal
  obtain ⟨raw, hraw⟩ := htotal
  exact ⟨raw, hraw, length_encodeFrame hraw⟩

/-- What the encoder takes is written, or the connection is closed after the first failure. -/
theorem sendFrame_encoded (env : Env) {frame : Frame} {s : Endpoint} (hs : CanSend s)
    (hsize : 0 ≤ cInt frame.bodySize) :
    (Takes env.send s.sends (wireSize frame) ∧ ∃ t, t.conn = s.nextFid.conn ∧
      ∀ depth, sendFrame env depth frame s = some t) ∨
    (¬ Takes env.send s.sends (wireSize frame) ∧ ∃ k t, FailsAt env.send s.sends k ∧ t.sends = k + 1 ∧
      CanSend t ∧ ∀ depth, sendFrame env depth frame s = closeConnection env depth .socketError true t) := by
  obtain ⟨raw, hraw, hlen⟩ := hs.encodes env hsize
  have hconn := (sendLoop_keeps env raw.length raw (s.nextFid.recordEncoded raw)).1
  have hloop := sendLoop_spec env (s := s.nextFid.recordEncoded raw) hs.fd (Nat.le_refl raw.length)
  have hsends : (s.nextFid.recordEncoded raw).sends = s.sends := rfl
  cases hrun : sendLoop env raw.length raw (s.nextFid.recordEncoded raw) with
  | mk t sent =>
    have hsend := sendFrame_looped hraw hrun
    rw [hrun] at hloop hconn
    rw [hlen, hsends] at hloop
    rcases hloop with ⟨hok, htakes⟩ | ⟨hbad, hnot, k, hk, hlast⟩
    · have hsent : sent = true := hok
      exact .inl ⟨htakes, t, hconn, fun depth => by rw [hsend, hsent]; rfl⟩
    · have hsent : sent = false := hbad
      refine .inr ⟨hnot, k, t, hk, hlast, hs.of_conn hconn, fun depth => ?_⟩
      rw [hsend, hsent]
      rfl

theorem farewell_size (c : ClientConnection) :
    0 ≤ cInt (c.makeRespFrame [] [] STATUS_OK 0 0).bodySize ∧
      wireSize (c.makeRespFrame [] [] STATUS_OK 0 0) = farewellSize := by
  have hsize : (c.makeRespFrame [] [] STATUS_OK 0 0).bodySize = 20 := rfl
  rw [wireSize, hsize]
  exact ⟨by decide, by decide⟩

/-- A close that has to say farewell returns when sending the farewell does. -/
theorem closeConnection_farewell {env : Env} {depth : Nat} {reason : CloseReason} {invokeOnClose : Bool}
    {s : Endpoint} (hopen : s.conn.state ≠ .closed) (hfd : s.conn.fd ≠ -1) (hreason : reason ≠ .natural) :
    (∃ t, closeConnection env (depth + 1) reason invokeOnClose s = some t) ↔
      ∃ t, sendFrame env depth (s.conn.makeRespFrame [] [] STATUS_OK 0 0) s = some t := by
  simp only [closeConnection, if_neg hopen, if_neg hfd, if_neg hreason, Option.map_map]
  change (∃ t, Option.map _ (sendFrame env depth _ s) = some t) ↔ _
  cases sendFrame env depth (s.conn.makeRespFrame [] [] STATUS_OK 0 0) s <;> simp

/-- A close whose farewell is taken needs no other one. -/
theorem closeConnection_taken {env : Env} {reason : CloseReason} {invokeOnClose : Bool} {s : Endpoint}
    (hs : CanSend s) (hreason : reason ≠ .natural) (htakes : Takes env.send s.sends farewellSize) (depth : Nat) :
    ∃ t, closeConnection env (depth + 1) reason invokeOnClose s = some t := by
  obtain ⟨hsize, hwire⟩ := farewell_size s.conn
  rw [closeConnection_farewell hs.state hs.fd hreason]
  rcases sendFrame_encoded env hs hsize with ⟨_, t, _, hsend⟩ | ⟨hnot, _⟩
  · exact ⟨t, hsend depth⟩
  · exact absurd (hwire ▸ htakes) hnot

/-- **Closing with a key**: it returns exactly when one of the farewells goes out. -/
theorem closes_iff {env : Env} {reason : CloseReason} {invokeOnClose : Bool} {s : Endpoint}
    (hs : CanSend s) (hreason : reason ≠ .natural) :
    (∃ depth t, closeConnection env depth reason invokeOnClose s = some t) ↔
      GoesOut env.send s.sends farewellSize := by
  constructor
  · rintro ⟨depth, hclose⟩
    induction depth generalizing reason invokeOnClose s with
    | zero =>
      obtain ⟨t, ht⟩ := hclose
      cases ht
    | succ depth ih =>
      rw [closeConnection_farewell hs.state hs.fd hreason] at hclose
      obtain ⟨hsize, hwire⟩ := farewell_size s.conn
      rcases sendFrame_encoded env hs hsize with ⟨htakes, _⟩ | ⟨hnot, k, t, hk, hlast, ht, hsend⟩
      · exact .inl (hwire ▸ htakes)
      · rw [hwire] at hnot
        rw [hsend] at hclose
        rw [goesOut_of_failsAt hnot hk, ← hlast]
        exact ih ht (by decide) hclose
  · rintro (htakes | ⟨k', hle, hfails, htakes⟩)
    · exact ⟨1, closeConnection_taken hs hreason htakes 0⟩
    · -- Induction on the distance to the failure after which a farewell goes out.
      induction hdist : k' - s.sends using Nat.strongRecOn generalizing reason invokeOnClose s with
      | _ dist ih =>
        obtain ⟨hsize, hwire⟩ := farewell_size s.conn
        have hreturn : ∀ depth, (∃ t, sendFrame env depth (s.conn.makeRespFrame [] [] STATUS_OK 0 0) s = some t) →
            ∃ depth t, closeConnection env depth reason invokeOnClose s = some t := fun depth h =>
          ⟨depth + 1, (closeConnection_farewell hs.state hs.fd hreason).mpr h⟩
        rcases sendFrame_encoded env hs hsize with ⟨_, t, _, hsend⟩ | ⟨_, k, t, hk, hlast, ht, hsend⟩
        · exact hreturn 0 ⟨t, hsend 0⟩
        · have hge := hk.first hle hfails
          have hnested : ∃ depth u, closeConnection env depth .socketError true t = some u := by
            by_cases heq : k' = k
            · exact ⟨1, closeConnection_taken ht (by decide) (hlast ▸ heq ▸ htakes) 0⟩
            · have hbefore := hk.le
              exact ih (k' - t.sends) (by omega) ht (by decide) (by omega) rfl
          obtain ⟨depth, u, hu⟩ := hnested
          exact hreturn depth ⟨u, (hsend depth).trans hu⟩

/-! ### Every call -/

/-- Without a key a close that has to say farewell never returns. -/
theorem closeConnection_stuck (env : Env) (depth : Nat) {reason : CloseReason} (invokeOnClose : Bool)
    {s : Endpoint} (hopen : s.conn.state ≠ .closed) (hfd : s.conn.fd ≠ -1) (hkey : s.conn.aesKey.length ≠ 32)
    (hreason : reason ≠ .natural) :
    closeConnection env depth reason invokeOnClose s = none := by
  induction depth generalizing reason invokeOnClose s with
  | zero => rfl
  | succ depth ih =>
    have hstuck : ¬ ∃ t, closeConnection env (depth + 1) reason invokeOnClose s = some t := by
      rw [closeConnection_farewell hopen hfd hreason, sendFrame_refused (encodeFrame_key hkey)]
      rw [ih true (s := s.nextFid) hopen hfd hkey (by decide)]
      rintro ⟨t, ht⟩
      cases ht
    cases h : closeConnection env (depth + 1) reason invokeOnClose s with
    | none => rfl
    | some t => exact absurd ⟨t, h⟩ hstuck

/-- A close of an open connection that has something to say returns with a key only. -/
theorem closeConnection_key {env : Env} {depth : Nat} {reason : CloseReason} {invokeOnClose : Bool} {s t : Endpoint}
    (hopen : s.conn.state ≠ .closed) (hfd : s.conn.fd ≠ -1) (hreason : reason ≠ .natural)
    (h : closeConnection env depth reason invokeOnClose s = some t) : CanSend s := by
  refine ⟨hopen, hfd, ?_⟩
  by_contra hkey
  rw [closeConnection_stuck env depth invokeOnClose hopen hfd hkey hreason] at h
  cases h

/-- And so does a call of `sendFrame`, as it closes when there is no key. -/
theorem sendFrame_key {env : Env} {depth : Nat} {frame : Frame} {s t : Endpoint} (hopen : s.conn.state ≠ .closed)
    (hfd : s.conn.fd ≠ -1) (h : sendFrame env depth frame s = some t) : CanSend s := by
  refine ⟨hopen, hfd, ?_⟩
  by_contra hkey
  rw [sendFrame_refused (encodeFrame_key hkey)] at h
  exact hkey (closeConnection_key (s := s.nextFid) hopen hfd (by decide) h).key

/-- Nothing is to be sent: there is no descriptor, or the peer has closed. -/
theorem closeConnection_silent (env : Env) (depth : Nat) (reason : CloseReason) (invokeOnClose : Bool)
    {s : Endpoint} (h : s.conn.state = .closed ∨ s.conn.fd = -1 ∨ reason = .natural) :
    ∃ t, closeConnection env (depth + 1) reason invokeOnClose s = some t := by
  simp only [closeConnection]
  by_cases hclosed : s.conn.state = .closed
  · exact ⟨s, if_pos hclosed⟩
  · rw [if_neg hclosed]
    by_cases hfd : s.conn.fd = -1
    · exact ⟨_, by rw [if_pos hfd]; rfl⟩
    · have hreason : reason = .natural := by
        rcases h with h | h | h
        · exact absurd h hclosed
        · exact absurd h hfd
        · exact h
      exact ⟨_, by rw [if_neg hfd, if_pos hreason]; rfl⟩

/-- A close for this reason returns: there is nothing to say farewell with or to,
or a farewell goes out. -/
def CloseReturns (env : Env) (reason : CloseReason) (s : Endpoint) : Prop :=
  s.conn.fd = -1 ∨ reason = .natural ∨
    (s.conn.aesKey.length = 32 ∧ GoesOut env.send s.sends farewellSize)

/-- Sending this frame returns: the descriptor is gone, or the frame or a farewell
goes out. A frame whose size is negative as an `int` is replaced by a farewell. -/
def SendReturns (env : Env) (frame : Frame) (s : Endpoint) : Prop :=
  s.conn.fd = -1 ∨
    (s.conn.aesKey.length = 32 ∧
      GoesOut env.send s.sends (if 0 ≤ cInt frame.bodySize then wireSize frame else farewellSize))

/-- Reading this during the handshake returns: the peer has closed, the stream is
good so far, or it carries an acceptable handshake whose confirmation goes out. -/
def HandshakeReturns (env : Env) (input : Recv) (now : UInt32) (s : Endpoint) : Prop :=
  match input.fin with
  | .disconnect => True
  | .error => False
  | .again =>
    match (frameFramer env.evp s.conn.maxFrameSize false []).next (s.conn.inFrameBuffer ++ input.bytes) with
    | .wait => True
    | .bad _ => False
    | .item frame _ => ∃ key, acceptedKey env.rsa frame.data s.conn.rsaPrivKey now = some key ∧
        GoesOut env.send s.sends (headerSize + 28 + bodyHeaderSize + connectionSecured.length)

theorem closeConnection_returns_iff (env : Env) (reason : CloseReason) (invokeOnClose : Bool) {s : Endpoint}
    (hs : s.conn.state = .closed → s.conn.fd = -1) :
    (∃ depth t, closeConnection env depth reason invokeOnClose s = some t) ↔ CloseReturns env reason s := by
  unfold CloseReturns
  by_cases hsilent : s.conn.state = .closed ∨ s.conn.fd = -1 ∨ reason = .natural
  · have hcond : s.conn.fd = -1 ∨ reason = .natural := hsilent.elim (fun h => .inl (hs h)) id
    exact ⟨fun _ => hcond.imp_right .inl, fun _ => ⟨1, closeConnection_silent env 0 reason invokeOnClose hsilent⟩⟩
  · have hopen : s.conn.state ≠ .closed := fun h => hsilent (.inl h)
    have hfd : s.conn.fd ≠ -1 := fun h => hsilent (.inr (.inl h))
    have hreason : reason ≠ .natural := fun h => hsilent (.inr (.inr h))
    simp only [hfd, hreason, false_or]
    by_cases hkey : s.conn.aesKey.length = 32
    · rw [closes_iff ⟨hopen, hfd, hkey⟩ hreason]
      simp only [hkey, true_and]
    · simp only [hkey, false_and, iff_false]
      rintro ⟨depth, t, ht⟩
      exact hkey (closeConnection_key hopen hfd hreason ht).key

/-- The same of a connection that need not be well formed: a closed one has nothing to do. -/
theorem closeConnection_returns (env : Env) (reason : CloseReason) (invokeOnClose : Bool) (s : Endpoint) :
    (∃ depth t, closeConnection env depth reason invokeOnClose s = some t) ↔
      s.conn.state = .closed ∨ CloseReturns env reason s := by
  by_cases hclosed : s.conn.state = .closed
  · exact ⟨fun _ => .inl hclosed, fun _ => ⟨1, closeConnection_silent env 0 reason invokeOnClose (.inl hclosed)⟩⟩
  · rw [closeConnection_returns_iff env reason invokeOnClose fun h => absurd h hclosed]
    exact (or_iff_right hclosed).symm

/-- All reasons but one are alike, and of the connection only some fields matter. -/
theorem closeReturns_iff {env : Env} {reason : CloseReason} {s t : Endpoint} (hreason : reason ≠ .natural)
    (hfd : t.conn.fd = s.conn.fd) (hkey : t.conn.aesKey = s.conn.aesKey) (hsends : t.sends = s.sends) :
    CloseReturns env reason t ↔ CloseReturns env .invalidRequest s := by
  have hinvalid : CloseReason.invalidRequest ≠ .natural := by decide
  simp only [CloseReturns, hfd, hkey, hsends, hreason, hinvalid, false_or]

/-- Without a descriptor the frame is not written, and there is nobody to say farewell to. -/
theorem sendFrame_detached (env : Env) (frame : Frame) {s : Endpoint} (hfd : s.conn.fd = -1) (depth : Nat) :
    ∃ t, sendFrame env (depth + 1) frame s = some t := by
  simp only [sendFrame, sendFrameWith]
  split
  · exact closeConnection_silent env depth .encryptionError true (s := s.nextFid) (.inr (.inl hfd))
  · next encoded _ =>
    have hconn := (sendLoop_keeps env encoded.length encoded (s.nextFid.recordEncoded encoded)).1
    split
    · next t _ => exact ⟨t, rfl⟩
    · next t hrun =>
      rw [hrun] at hconn
      have hgone : t.conn.fd = -1 := (congrArg (·.fd) hconn).trans hfd
      exact closeConnection_silent env depth .socketError true (.inr (.inl hgone))

theorem sendFrame_returns_iff (env : Env) (frame : Frame) {s : Endpoint}
    (hs : s.conn.state = .closed → s.conn.fd = -1) :
    (∃ depth t, sendFrame env depth frame s = some t) ↔ SendReturns env frame s := by
  unfold SendReturns
  by_cases hfd : s.conn.fd = -1
  · exact ⟨fun _ => .inl hfd, fun _ => ⟨1, sendFrame_detached env frame hfd 0⟩⟩
  have hopen : s.conn.state ≠ .closed := fun h => hfd (hs h)
  simp only [hfd, false_or]
  by_cases hkey : s.conn.aesKey.length = 32
  · have hsend : CanSend s := ⟨hopen, hfd, hkey⟩
    have hnext : CanSend s.nextFid := hsend.of_conn rfl
    simp only [hkey, true_and]
    by_cases hsize : 0 ≤ cInt frame.bodySize
    · rw [if_pos hsize]
      rcases sendFrame_encoded env hsend hsize with ⟨htakes, t, _, hgo⟩ | ⟨hnot, k, t, hk, hlast, ht, hgo⟩
      · exact ⟨fun _ => .inl htakes, fun _ => ⟨0, t, hgo 0⟩⟩
      · simp only [hgo]
        rw [closes_iff ht (by decide), goesOut_of_failsAt hnot hk, hlast]
    · rw [if_neg hsize]
      simp only [sendFrame_oversize env hkey hsize]
      exact closes_iff hnext (by decide)
  · simp only [hkey, false_and, iff_false]
    rintro ⟨depth, t, ht⟩
    exact hkey (sendFrame_key hopen hfd ht).key

/-- Accepting a handshake returns when the confirmation or a farewell after it goes out. -/
theorem setAesKey_returns_iff (env : Env) {key : Bytes} {s : Endpoint} (hfd : s.conn.fd ≠ -1)
    (hopen : s.conn.state ≠ .closed) (hkey : key.length = 32) :
    (∃ depth t, setAesKey env depth key s = some t) ↔
      GoesOut env.send s.sends (headerSize + 28 + bodyHeaderSize + connectionSecured.length) := by
  have hclosed : (s.secure env key).conn.state = .closed → (s.secure env key).conn.fd = -1 :=
    fun h => absurd h hopen
  have hsize : (s.confirmation env).bodySize = 38 := rfl
  have hint : cInt 38 = 38 := by decide
  have hfd' : (s.secure env key).conn.fd ≠ -1 := hfd
  have hkey' : (s.secure env key).conn.aesKey.length = 32 := hkey
  have hsent := sendFrame_returns_iff env (s.confirmation env) hclosed
  simp only [SendReturns, wireSize, hsize, hint, hfd', hkey', false_or, true_and] at hsent
  refine Iff.trans ?_ hsent
  simp only [setAesKey_eq, Option.map_eq_some_iff]
  constructor
  · rintro ⟨depth, t, u, hu, _⟩
    exact ⟨depth, u, hu⟩
  · rintro ⟨depth, u, hu⟩
    exact ⟨depth, _, u, hu, rfl⟩

theorem readFd_returns_iff {env : Env} {input : Recv} {now : UInt32} {s : Endpoint} (hs : WellFormed env s)
    (hstate : s.conn.state = .handshake) :
    (∃ depth p, readFd env depth input now s = some p) ↔ HandshakeReturns env input now s := by
  obtain ⟨hfd, hkey, _, _⟩ := hs.handshake hstate
  have hopen : s.conn.state ≠ .closed := by
    rw [hstate]
    intro h
    cases h
  have hnokey : s.conn.aesKey.length ≠ 32 := by
    rw [hkey]
    decide
  have hstuck : ∀ reason buffer depth, reason ≠ .natural →
      closeConnection env depth reason true (s.setBuffer buffer) = none := by
    intro reason buffer depth hreason
    exact closeConnection_stuck env depth true (s := s.setBuffer buffer) hopen hfd hnokey hreason
  unfold HandshakeReturns
  cases hfin : input.fin with
  | disconnect =>
    simp only [iff_true]
    obtain ⟨t, ht⟩ := closeConnection_silent env 0 .natural true (s := s.receive input.bytes)
      (.inr (.inr rfl))
    refine ⟨1, (.ok false, t), ?_⟩
    unfold readFd
    simp only [if_neg hfd, hfin]
    exact congrArg (Option.map _) ht
  | error =>
    simp only [iff_false]
    rintro ⟨depth, p, hp⟩
    unfold readFd at hp
    simp only [if_neg hfd, hfin] at hp
    have hnone := hstuck .socketError (s.conn.inFrameBuffer ++ input.bytes) depth (by decide)
    cases (congrArg (Option.map _) hnone).symm.trans hp
  | again =>
    simp only [readFd_handshake hfd hstate hfin]
    cases (frameFramer env.evp s.conn.maxFrameSize false []).next (s.conn.inFrameBuffer ++ input.bytes) with
    | wait => exact ⟨fun _ => trivial, fun _ => ⟨0, _, rfl⟩⟩
    | bad r =>
      simp only [Endpoint.receive, hstuck _ _ _ (reasonOf_ne_natural r), Option.map_none, iff_false]
      rintro ⟨depth, p, hp⟩
      cases hp
    | item frame rest =>
      simp only [acceptHandshake_eq]
      have hsame : (s.setBuffer rest).conn.rsaPrivKey = s.conn.rsaPrivKey := rfl
      rw [hsame]
      cases hoffered : acceptedKey env.rsa frame.data s.conn.rsaPrivKey now with
      | none =>
        have hnone : ∀ depth, closeConnection env depth .encryptionError true (s.setBuffer rest) = none :=
          fun depth => hstuck .encryptionError rest depth (by decide)
        simp only [hnone, Option.map_none]
        simp
      | some key =>
        have hlen := length_acceptedKey hoffered
        have hset := setAesKey_returns_iff env (s := s.setBuffer rest) hfd hopen hlen
        simp only [Option.some.injEq, exists_eq_left']
        refine Iff.trans ?_ hset
        constructor
        · rintro ⟨depth, p, hp⟩
          obtain ⟨t, ht, _⟩ := Option.map_eq_some_iff.mp hp
          exact ⟨depth, t, ht⟩
        · rintro ⟨depth, t, ht⟩
          exact ⟨depth, _, by rw [ht]; rfl⟩

/-- **When the calls on a connection return**, in every state a connection reaches:
closing, sending, and reading during the handshake. -/
theorem calls_return_iff {env : Env} {s : Endpoint} (h : Reachable (lifecycle env) s) :
    (∀ reason invokeOnClose,
      (∃ depth t, closeConnection env depth reason invokeOnClose s = some t ∧
        t.conn.state = .closed ∧ t.conn.fd = -1) ↔ CloseReturns env reason s) ∧
    (∀ frame, (∃ depth t, sendFrame env depth frame s = some t) ↔ SendReturns env frame s) ∧
    (s.conn.state = .handshake → ∀ input now,
      (∃ depth r, readFd env depth input now s = some r) ↔ HandshakeReturns env input now s) := by
  have hs := reachable_wellFormed h
  refine ⟨?_, fun frame => sendFrame_returns_iff env frame hs.closed, fun hstate input now =>
    readFd_returns_iff hs hstate⟩
  intro reason invokeOnClose
  rw [← closeConnection_returns_iff env reason invokeOnClose hs.closed]
  constructor
  · rintro ⟨depth, t, ht, _⟩
    exact ⟨depth, t, ht⟩
  · rintro ⟨depth, t, ht⟩
    exact ⟨depth, t, ht, (closeConnection_keeps hs.closed ht).2⟩

/-- `send` fails once the handshake has been confirmed, and from then on takes everything. -/
def flakyEnv : Env := {quietEnv with send := fun i => if i = 1 then .error else .count 65536}

/-- **A farewell that is not sent is followed by one that is**: a connection with a key closes for a
request that is not valid, and the close returns. -/
theorem second_farewell_returns : ∃ s, Reachable (lifecycle flakyEnv) s ∧ s.conn.aesKey = List.replicate 32 5 ∧
    ¬ Takes flakyEnv.send s.sends farewellSize ∧ CloseReturns flakyEnv .invalidRequest s ∧
    ∃ depth t, closeConnection flakyEnv depth .invalidRequest true s = some t ∧
      t.conn.state = .closed ∧ t.conn.fd = -1 := by
  have hrun : (readFd flakyEnv 3 (.once (handshakeRaw 100)) 100 accepted5).map
      (fun p => (p.2.conn.aesKey, p.2.sends)) = some (List.replicate 32 5, 1) := by
    decide +kernel
  obtain ⟨⟨r, s⟩, hs, hresult⟩ := Option.map_eq_some_iff.mp hrun
  simp only [Prod.mk.injEq] at hresult
  obtain ⟨hkey, hsends⟩ := hresult
  have hreach : Reachable (lifecycle flakyEnv) s :=
    (Reachable.init accepted5_fresh).step
      (a := .readFd (.once (handshakeRaw 100)) 100) ⟨3, by rw [perform, hs]; rfl⟩
  -- The first farewell is given to call 1, the second one to call 2.
  have hfails : ¬ Takes flakyEnv.send s.sends farewellSize := by
    rw [hsends, takes_iff (by decide)]
    rintro ⟨hpos, _⟩
    exact absurd hpos (by decide)
  have hlater : ∀ i, 2 ≤ i → 0 < (flakyEnv.send i).bytes := by
    intro i hi
    have hne : i ≠ 1 := by omega
    simp only [flakyEnv, if_neg hne, SendResult.bytes]
    decide
  have hreturns : CloseReturns flakyEnv .invalidRequest s := by
    refine .inr (.inr ⟨by rw [hkey, List.length_replicate], .inr ⟨1, by omega, rfl, ?_⟩⟩)
    exact takes_of_pos hlater farewellSize
  exact ⟨s, hreach, hkey, hfails, hreturns, ((calls_return_iff hreach).1 .invalidRequest true).mpr hreturns⟩

/-- **29 bytes that are not a frame, before the handshake: `readFd` never returns**,
although every `send` would succeed. -/
theorem garbage_never_returns :
    Reachable (lifecycle quietEnv) accepted5 ∧
      ∀ depth, readFd quietEnv depth ⟨[List.replicate 29 0], .again⟩ 0 accepted5 = none := by
  refine ⟨.init accepted5_fresh, fun depth => ?_⟩
  have hbad : (frameFramer quietEnv.evp accepted5.conn.maxFrameSize false []).next
      (accepted5.conn.inFrameBuffer ++ Recv.bytes ⟨[List.replicate 29 0], .again⟩) = .bad .protocol := rfl
  have hstuck : closeConnection quietEnv depth .invalidRequest true
      (accepted5.receive (List.replicate 29 0)) = none :=
    closeConnection_stuck quietEnv depth true (by decide) (by decide) (by decide) (by decide)
  rw [readFd_handshake (by decide) rfl rfl, hbad]
  exact congrArg (Option.map _) hstuck

end Fmxp.Server
