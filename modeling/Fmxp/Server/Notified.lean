import Fmxp.Server.Finality
import Fmxp.Server.Residue
import Fmxp.Server.Segmentation
import Fmxp.Server.Stream

/-! How often the close callback is invoked.

`closeConnection` invokes the callback after its farewell, and a farewell that fails is followed by
another close, with another farewell, which invokes it too. So a close invokes it once for every attempt
that fails, and then once for itself (`closeConnection_failures`), and a connection that was closed while
its handshake was being confirmed is `ACTIVE` again and can be closed a second time. `notified_once` is
what holds of every run in which neither happens. -/
namespace Fmxp.Server
open Transition

def Output.notice : Output → Bool
  | .onClose .. => true
  | _ => false

/-- How often the callback has been invoked. -/
def notices (log : List Output) : Nat := log.countP Output.notice

theorem notices_append (log outs : List Output) : notices (log ++ outs) = notices log + notices outs :=
  List.countP_append

theorem notices_eq_zero {outs : List Output} (h : ∀ o ∈ outs, o.notice = false) : notices outs = 0 := by
  refine List.countP_eq_zero.mpr fun o ho hnotice => ?_
  rw [h o ho] at hnotice
  cases hnotice

/-- From call `i` on, with a frame of `n` bytes first and farewells after it, `m` attempts fail before
one is taken whole. -/
inductive Failures (send : Nat → SendResult) : Nat → Nat → Nat → Prop
  | taken {i n : Nat} : Takes send i n → Failures send i n 0
  | failed {i n k m : Nat} : ¬ Takes send i n → FailsAt send i k → Failures send (k + 1) farewellSize m →
      Failures send i n (m + 1)

theorem Failures.eq_zero {send : Nat → SendResult} {i n m : Nat} (h : Failures send i n m) (htakes : Takes send i n) :
    m = 0 := by
  cases h with
  | taken _ => rfl
  | failed hnot _ _ => exact absurd htakes hnot

theorem FailsAt.unique {send : Nat → SendResult} {i k k' : Nat} (h : FailsAt send i k) (h' : FailsAt send i k') :
    k = k' := Nat.le_antisymm (h.first h'.le h'.fails) (h'.first h.le h.fails)

theorem Failures.unique {send : Nat → SendResult} {i n m m' : Nat} (h : Failures send i n m)
    (h' : Failures send i n m') : m = m' := by
  induction h generalizing m' with
  | taken htakes => exact (h'.eq_zero htakes).symm
  | failed hnot hk _ ih =>
    cases h' with
    | taken htakes => exact absurd htakes hnot
    | failed _ hk' hrest =>
      rw [hk'.unique hk] at hrest
      rw [ih hrest]

variable {env : Env} {depth : Nat} {reason : CloseReason} {invokeOnClose : Bool} {frame : Frame} {s t : Endpoint}

/-- Encoding and writing a frame invokes nothing. -/
theorem notices_encoded {key raw : Bytes} {fd : Int} {outs : List Output}
    (h : ∀ o ∈ outs, ∃ bytes, o = .wrote fd bytes) : notices (.encoded key raw :: outs) = 0 := by
  refine notices_eq_zero fun o ho => ?_
  rcases List.mem_cons.mp ho with rfl | ho
  · rfl
  · obtain ⟨bytes, rfl⟩ := h o ho
    rfl

theorem Attempt.notices {raw : Bytes} {outs : List Output} (h : Attempt raw outs s t) :
    notices t.log = Server.notices s.log := by
  rw [h.log, notices_append, notices_encoded h.wrote, Nat.add_zero]

theorem shut_notices (reason : CloseReason) (invokeOnClose : Bool) (s : Endpoint) :
    notices (s.shut reason invokeOnClose).log =
      notices s.log + if s.conn.onClose then invokeOnClose.toNat else 0 := by
  have hclosed : notices (s.log ++ [.closedFd s.conn.fd]) = notices s.log := notices_append ..
  have hsame : (s.closeFd.modify fun c => {c with state := .closed}).conn.onClose = s.conn.onClose := rfl
  unfold Endpoint.shut
  dsimp only
  rw [hsame]
  cases s.conn.onClose with
  | false =>
    rw [Bool.and_false]
    exact hclosed
  | true =>
    cases invokeOnClose with
    | false => exact hclosed
    | true =>
      refine (notices_append (s.log ++ [.closedFd s.conn.fd]) [.onClose (cInt s.conn.connId) reason]).trans ?_
      rw [hclosed]
      rfl

theorem handOver_notices (s : Endpoint) (frames : List Frame) : notices (s.handOver frames).log = notices s.log := by
  have hnone : notices (frames.map fun frame => Output.request ⟨frame, s.conn.connId⟩) = 0 := by
    refine notices_eq_zero fun o ho => ?_
    obtain ⟨frame, _, rfl⟩ := List.mem_map.mp ho
    rfl
  exact (notices_append ..).trans (by rw [hnone, Nat.add_zero])

/-! ### Sending and closing with a key -/

/-- **Sending invokes the callback once for every attempt that fails.** -/
theorem sendFrame_failures
    (hclose : ∀ {u v}, CanSend u → closeConnection env depth .socketError true u = some v →
      ∃ m, Failures env.send u.sends farewellSize m ∧
        notices v.log = notices u.log + if u.conn.onClose then m + 1 else 0)
    (hs : CanSend s) (hsize : 0 ≤ cInt frame.bodySize) (h : sendFrame env depth frame s = some t) :
    ∃ m, Failures env.send s.sends (wireSize frame) m ∧
      notices t.log = (notices s.log + if s.conn.onClose then m else 0) ∧
        (m = 0 ∨ t.conn.state = .closed ∧ t.conn.fd = -1) := by
  obtain ⟨raw, outs, u, hattempt, ⟨htakes, _, hsend⟩ | ⟨hnot, _, _, ⟨k, hk, hlast⟩, hsend⟩⟩ :=
    sendFrame_attempt env hs hsize
  · cases (hsend depth).symm.trans h
    refine ⟨0, .taken htakes, ?_, .inl rfl⟩
    rw [hattempt.notices, ite_self, Nat.add_zero]
  · rw [hsend] at h
    have hcan : CanSend u := hs.of_conn hattempt.conn
    obtain ⟨m, hfailures, hnotices⟩ := hclose hcan h
    have hcallback : u.conn.onClose = s.conn.onClose := congrArg (·.onClose) hattempt.conn
    refine ⟨m + 1, .failed hnot hk (hlast ▸ hfailures), ?_, .inr ?_⟩
    · rw [hnotices, hattempt.notices, hcallback]
    · exact (closeConnection_keeps (fun hc => absurd hc hcan.state) h).2

/-- **Closing invokes the callback once for every farewell that fails**, and then for itself. -/
theorem closeConnection_failures (hs : CanSend s) (hreason : reason ≠ .natural)
    (h : closeConnection env depth reason invokeOnClose s = some t) :
    ∃ m, Failures env.send s.sends farewellSize m ∧
      notices t.log = notices s.log + if s.conn.onClose then m + invokeOnClose.toNat else 0 := by
  induction depth generalizing reason invokeOnClose s t with
  | zero => cases h
  | succ depth ih =>
    rw [closeConnection_attempts hs hreason] at h
    obtain ⟨u, hu, rfl⟩ := Option.map_eq_some_iff.mp h
    obtain ⟨hsize, hwire⟩ := farewell_size s.conn
    obtain ⟨m, hfailures, hnotices, _⟩ := sendFrame_failures (fun hcan hv => ih hcan (by decide) hv) hs hsize hu
    have hkeeps := (sendFrame_keeps (fun hc => absurd hc hs.state) hu).1
    have hcallback : u.conn.onClose = s.conn.onClose := by rw [hkeeps.conn]
    refine ⟨m, hwire ▸ hfailures, ?_⟩
    rw [shut_notices, hnotices, hcallback]
    split <;> omega

/-- Accepting a handshake invokes the callback once for every attempt that fails. -/
theorem setAesKey_failures {key : Bytes} (hopen : s.conn.state ≠ .closed) (hfd : s.conn.fd ≠ -1)
    (hkey : key.length = 32) (h : setAesKey env depth key s = some t) :
    ∃ m, Failures env.send s.sends (wireSize (s.confirmation env)) m ∧
      notices t.log = (notices s.log + if s.conn.onClose then m else 0) ∧ (m = 0 ∨ t.conn.fd = -1) := by
  rw [setAesKey_eq] at h
  obtain ⟨u, hu, rfl⟩ := Option.map_eq_some_iff.mp h
  obtain ⟨m, hfailures, hnotices, hend⟩ :=
    sendFrame_failures (s := s.secure env key) (fun hcan hv => closeConnection_failures hcan (by decide) hv)
      ⟨hopen, hfd, hkey⟩ (by rw [show (s.confirmation env).bodySize = 38 from rfl]; decide) hu
  have hsecured : notices (s.secure env key).log = notices s.log := notices_append s.log _
  exact ⟨m, hfailures, hnotices.trans (by rw [hsecured]; rfl), hend.imp_right And.right⟩

/-! ### The calls of a connection -/

/-- A read of an open session that ends in a close with a farewell. -/
def Refuses (env : Env) (input : Recv) (s : Endpoint) : Prop :=
  s.conn.state = .active ∧ s.conn.fd ≠ -1 ∧ (input.fin = .error ∨ input.fin = .again ∧
    let d := (s.conn.framer env.evp).drain (s.conn.inFrameBuffer ++ input.bytes)
    d.bad ≠ none ∨ s.conn.accepted d.items ≠ d.items)

/-- What invokes the callback, an attempt that fails or a close, happens once at most in the call; a
confirmation does not fail. -/
def OneNotice (env : Env) (s : Endpoint) : Call → Prop
  | .readFd input now => (Refuses env input s → Takes env.send s.sends farewellSize) ∧
      ∀ rest, AcceptsHandshake env input now s rest → Takes env.send s.sends (wireSize (s.confirmation env))
  | .sendFrame frame => s.conn.fd ≠ -1 → ∀ m, Failures env.send s.sends (firstSize frame) m →
      m + (if 0 ≤ cInt frame.bodySize then 0 else 1) ≤ 1
  | .closeConnection reason invokeOnClose => s.conn.fd ≠ -1 → reason ≠ .natural →
      ∀ m, Failures env.send s.sends farewellSize m → m + invokeOnClose.toNat ≤ 1
  | .setOnClose => True

/-- The callback has been invoked once at most, and not yet on an open connection, which has a descriptor. -/
structure Notified (s : Endpoint) : Prop where
  once : notices s.log ≤ 1
  pending : s.conn.state ≠ .closed → notices s.log = 0 ∧ s.conn.fd ≠ -1

theorem Notified.of_eq (hs : Notified s) (hnotices : notices t.log = notices s.log)
    (hstate : t.conn.state ≠ .closed → s.conn.state ≠ .closed ∧ t.conn.fd = s.conn.fd) : Notified t := by
  refine ⟨hnotices.trans_le hs.once, fun hopen => ?_⟩
  obtain ⟨hopen', hfd⟩ := hstate hopen
  obtain ⟨hnone, hfd'⟩ := hs.pending hopen'
  exact ⟨hnotices.trans hnone, hfd.symm ▸ hfd'⟩

/-- A close of an open connection that was not closed before, with few enough farewells that fail. -/
theorem closeConnection_notified (hopen : s.conn.state ≠ .closed) (hfd : s.conn.fd ≠ -1) (hnone : notices s.log = 0)
    (hfew : s.conn.aesKey.length = 32 → reason ≠ .natural →
      ∀ m, Failures env.send s.sends farewellSize m → m + invokeOnClose.toNat ≤ 1)
    (h : closeConnection env depth reason invokeOnClose s = some t) : Notified t := by
  have hclosed := (closeConnection_keeps (fun hc => absurd hc hopen) h).2.1
  refine ⟨?_, fun hc => absurd hclosed hc⟩
  by_cases hreason : reason = .natural
  · cases depth with
    | zero => cases h
    | succ depth =>
      simp only [closeConnection, if_neg hopen, if_neg hfd, if_pos hreason] at h
      cases h
      have hshut := shut_notices reason invokeOnClose s
      rw [hnone, Nat.zero_add] at hshut
      refine hshut.trans_le ?_
      split
      · exact Bool.toNat_le invokeOnClose
      · exact Nat.zero_le 1
  · have hcan := closeConnection_key hopen hfd hreason h
    obtain ⟨m, hfailures, hnotices⟩ := closeConnection_failures hcan hreason h
    have hone := hfew hcan.key hreason m hfailures
    rw [hnotices, hnone]
    split <;> omega

/-- Sending on an open connection. -/
theorem sendFrame_notified (hs : CanSend s) (hnone : notices s.log = 0)
    (hfew : ∀ m, Failures env.send s.sends (firstSize frame) m → m + (if 0 ≤ cInt frame.bodySize then 0 else 1) ≤ 1)
    (h : sendFrame env depth frame s = some t) : Notified t := by
  by_cases hsize : 0 ≤ cInt frame.bodySize
  · obtain ⟨m, hfailures, hnotices, hend⟩ :=
      sendFrame_failures (fun hcan hv => closeConnection_failures hcan (by decide) hv) hs hsize h
    have hone := hfew m (by rw [firstSize, if_pos hsize]; exact hfailures)
    rw [if_pos hsize, Nat.add_zero] at hone
    refine ⟨?_, fun hopen => ⟨?_, ?_⟩⟩
    · rw [hnotices, hnone]
      split <;> omega
    · rw [hnotices, hnone, hend.resolve_right fun hclosed => hopen hclosed.1, ite_self]
    · rcases (sendFrame_keeps (fun hc => absurd hc hs.state) h).2 with ⟨_, hfd⟩ | ⟨hclosed, _⟩
      · rw [hfd]
        exact hs.fd
      · exact absurd hclosed hopen
  · have hnext : CanSend s.nextFid := hs.of_conn rfl
    refine closeConnection_notified (s := s.nextFid) hnext.state hnext.fd hnone (fun _ _ m hfailures => ?_)
      ((sendFrame_oversize env hs.key hsize depth).symm.trans h)
    have hone := hfew m (by rw [firstSize, if_neg hsize]; exact hfailures)
    rw [if_neg hsize] at hone
    exact hone

/-- On a closed connection nothing invokes the callback. -/
theorem sendFrame_closed (hs : s.conn.state = .closed)
    (h : sendFrame env depth frame s = some t) : notices t.log = notices s.log ∧ t.conn.state = .closed := by
  have hstay : ∀ {u v reason}, u.conn.state = .closed → closeConnection env depth reason true u = some v → v = u := by
    intro u v reason hu hv
    cases depth with
    | zero => cases hv
    | succ depth => exact (Option.some.inj ((closeConnection_closed hu reason true).symm.trans hv)).symm
  simp only [sendFrame, sendFrameWith] at h
  split at h
  · rw [hstay (u := s.nextFid) hs h]
    exact ⟨rfl, hs⟩
  · next raw _ =>
    have hconn := (sendLoop_keeps env raw.length raw (s.nextFid.recordEncoded raw)).1
    obtain ⟨outs, hlog, hwrote, _⟩ := sendLoop_outs env (s := s.nextFid.recordEncoded raw) (Nat.le_refl raw.length)
    have hall : ∀ v : Endpoint, v.log = (s.nextFid.recordEncoded raw).log ++ outs →
        notices v.log = notices s.log := by
      intro v hv
      rw [hv]
      show notices ((s.log ++ [.encoded s.conn.aesKey raw]) ++ outs) = _
      rw [List.append_assoc, List.singleton_append, notices_append, notices_encoded hwrote, Nat.add_zero]
    split at h
    · next v hrun =>
      rw [hrun] at hconn hlog
      cases h
      exact ⟨hall _ hlog, (congrArg (·.state) hconn).trans hs⟩
    · next v hrun =>
      rw [hrun] at hconn hlog
      have hv : v.conn.state = .closed := (congrArg (·.state) hconn).trans hs
      rw [hstay hv h]
      exact ⟨hall _ hlog, hv⟩

theorem perform_closed {call : Call} (hs : s.conn.state = .closed) (hfd : s.conn.fd = -1)
    (h : perform env depth call s = some t) : notices t.log = notices s.log ∧ t.conn.state = .closed := by
  have hstay : ∀ {reason b}, closeConnection env depth reason b s = some t →
      notices t.log = notices s.log ∧ t.conn.state = .closed := by
    intro reason b ht
    cases depth with
    | zero => cases ht
    | succ depth =>
      cases (closeConnection_closed hs reason b).symm.trans ht
      exact ⟨rfl, hs⟩
  cases call with
  | readFd input now =>
    obtain ⟨⟨r, u⟩, hread, rfl⟩ := Option.map_eq_some_iff.mp h
    rw [readFd_detached hfd] at hread
    obtain ⟨v, hv, heq⟩ := Option.map_eq_some_iff.mp hread
    cases heq
    exact hstay hv
  | sendFrame frame => exact sendFrame_closed hs h
  | closeConnection reason invokeOnClose => exact hstay h
  | setOnClose =>
    cases h
    exact ⟨rfl, hs⟩

/-- Reading on an open connection. -/
theorem readFd_notified {input : Recv} {now : UInt32} {r : Except Exn Bool} (hwf : WellFormed env s)
    (hfd : s.conn.fd ≠ -1) (hs : Notified s) (hrule : OneNotice env s (.readFd input now))
    (h : readFd env depth input now s = some (r, t)) : Notified t := by
  have hopen : s.conn.state ≠ .closed := fun hc => hfd (hwf.closed hc)
  have hnone := (hs.pending hopen).1
  -- A refusal is followed by a farewell, which is taken; without a key the close does not return.
  have hrefused : Refuses env input s → ∀ m, Failures env.send s.sends farewellSize m → m + 1 ≤ 1 := by
    intro hrefuses m hfailures
    rw [hfailures.eq_zero (hrule.1 hrefuses)]
  have hkeyless : s.conn.state = .handshake → s.conn.aesKey.length ≠ 32 := by
    intro hstate
    rw [(hwf.handshake hstate).2.1]
    decide
  cases (readFd_outcome hwf.closed h).2 with
  | detached hgone _ => exact absurd hgone hfd
  | ended reason _ hend ht =>
    refine closeConnection_notified (s := s.receive input.bytes) hopen hfd hnone (fun hkey hreason => ?_) ht
    rcases hend with ⟨_, hnatural⟩ | ⟨hfin, _⟩
    · exact absurd hnatural hreason
    · cases hstate : s.conn.state with
      | handshake => exact absurd hkey (hkeyless hstate)
      | active => exact hrefused ⟨hstate, hfd, .inl hfin⟩
      | closed => exact absurd hstate hopen
  | waits _ _ _ _ ht => exact hs.of_eq (by rw [ht]; rfl) fun _ => ⟨hopen, by rw [ht]; rfl⟩
  | declined reason rest _ hstate _ ht =>
    exact closeConnection_notified (s := s.setBuffer rest) hopen hfd hnone
      (fun hkey => absurd hkey (hkeyless hstate)) ht
  | secured frame rest key _ hstate hfin hnext hkey ht =>
    have htakes := hrule.2 rest ⟨hstate, hfin, frame, hnext, by rw [hkey]; rfl⟩
    have hkept := setAesKey_taken (s := s.setBuffer rest) hstate hfd (length_acceptedKey hkey) htakes ht
    obtain ⟨m, hfailures, hnotices, _⟩ :=
      setAesKey_failures (s := s.setBuffer rest) hopen hfd (length_acceptedKey hkey) ht
    rw [hfailures.eq_zero htakes, ite_self, Nat.add_zero] at hnotices
    exact hs.of_eq hnotices fun _ => ⟨hopen, hkept.2⟩
  | refused items rest refusal _ hstate hfin hdrain ht =>
    refine closeConnection_notified (s := s.setBuffer rest) hopen hfd hnone (fun _ _ => ?_) ht
    refine hrefused ⟨hstate, hfd, .inr ⟨hfin, .inl ?_⟩⟩
    rw [hdrain]
    exact Option.some_ne_none refusal
  | delivered items rest _ _ _ _ _ ht =>
    refine hs.of_eq ?_ fun _ => ⟨hopen, by rw [ht]; rfl⟩
    rw [ht]
    exact handOver_notices ..
  | invalid items rest _ hstate hfin hdrain hsome ht =>
    refine closeConnection_notified (s := (s.setBuffer rest).handOver (s.conn.accepted items)) hopen hfd
      ((handOver_notices ..).trans hnone) (fun _ _ => ?_) ht
    refine hrefused ⟨hstate, hfd, .inr ⟨hfin, .inr ?_⟩⟩
    rw [hdrain]
    exact hsome

theorem perform_notified {call : Call} (hwf : WellFormed env s) (hs : Notified s) (hrule : OneNotice env s call)
    (h : perform env depth call s = some t) : Notified t := by
  by_cases hclosed : s.conn.state = .closed
  · obtain ⟨hnotices, hstate⟩ := perform_closed hclosed (hwf.closed hclosed) h
    exact hs.of_eq hnotices fun hopen => absurd hstate hopen
  obtain ⟨hnone, hfd⟩ := hs.pending hclosed
  cases call with
  | readFd input now =>
    obtain ⟨⟨r, u⟩, hread, rfl⟩ := Option.map_eq_some_iff.mp h
    exact readFd_notified hwf hfd hs hrule hread
  | sendFrame frame => exact sendFrame_notified (sendFrame_key hclosed hfd h) hnone (hrule hfd) h
  | closeConnection reason invokeOnClose =>
    exact closeConnection_notified hclosed hfd hnone (fun _ hreason => hrule hfd hreason) h
  | setOnClose =>
    cases h
    exact hs.of_eq rfl fun _ => ⟨hclosed, rfl⟩

/-! ### Calls that break the rule -/

/-- The callback has been invoked twice, or it has been invoked and the connection is left open without a
descriptor. -/
def Overdone (s t : Endpoint) : Prop :=
  notices s.log + 2 ≤ notices t.log ∨
    (notices s.log + 1 ≤ notices t.log ∧ t.conn.state ≠ .closed ∧ t.conn.fd = -1 ∧ t.conn.onClose = true)

/-- A handshake whose confirmation fails. -/
theorem unconfirmed_overdone {input : Recv} {now : UInt32} {r : Except Exn Bool} {rest : Bytes}
    (hwf : WellFormed env s) (hcallback : s.conn.onClose = true) (haccepts : AcceptsHandshake env input now s rest)
    (hnot : ¬ Takes env.send s.sends (wireSize (s.confirmation env)))
    (h : readFd env depth input now s = some (r, t)) : Overdone s t := by
  obtain ⟨hstate, hfin, frame, hnext, _⟩ := haccepts
  obtain ⟨hfd, hkeyless, _⟩ := hwf.handshake hstate
  have hopen : s.conn.state ≠ .closed := by
    rw [hstate]
    decide
  cases (readFd_outcome hwf.closed h).2 with
  | detached hgone _ => exact absurd hgone hfd
  | ended reason _ hend _ => rcases hend with ⟨hother, _⟩ | ⟨hother, _⟩ <;> cases hfin.symm.trans hother
  | waits _ _ _ hwait _ => cases hwait.symm.trans hnext
  | declined reason rest _ _ hreason ht =>
    -- Without a key this close does not return.
    have hkey := (closeConnection_key (s := s.setBuffer rest) hopen hfd hreason ht).key
    rw [show (s.setBuffer rest).conn.aesKey = [] from hkeyless] at hkey
    cases hkey
  | secured frame rest key _ _ _ _ hkey ht =>
    have hkey := length_acceptedKey hkey
    obtain ⟨m, hfailures, hnotices, hend⟩ := setAesKey_failures (s := s.setBuffer rest) hopen hfd hkey ht
    have hset : (s.setBuffer rest).conn.onClose = true := hcallback
    rw [if_pos hset] at hnotices
    have hpos : m ≠ 0 := by
      rintro rfl
      cases hfailures with
      | taken htakes => exact hnot htakes
    obtain ⟨u, hkeeps, hsettled, rfl⟩ := setAesKey_keeps (s := s.setBuffer rest) hwf.closed ht
    refine .inr ⟨?_, fun hc => (by cases hc), ?_, ?_⟩
    · rw [hnotices]
      show notices s.log + 1 ≤ notices s.log + m
      omega
    · exact hend.resolve_left hpos
    · show u.conn.onClose = true
      rw [hkeeps.conn]
      exact hcallback
  | refused items rest refusal _ hactive _ _ _ => cases hstate.symm.trans hactive
  | delivered items rest _ hactive _ _ _ _ => cases hstate.symm.trans hactive
  | invalid items rest _ hactive _ _ _ _ => cases hstate.symm.trans hactive

/-- A read that is refused, with a farewell that fails. -/
theorem refused_overdone {input : Recv} {now : UInt32} {r : Except Exn Bool} (hwf : WellFormed env s)
    (hcallback : s.conn.onClose = true) (hrefuses : Refuses env input s)
    (hnot : ¬ Takes env.send s.sends farewellSize) (h : readFd env depth input now s = some (r, t)) :
    Overdone s t := by
  obtain ⟨hstate, hfd, hend⟩ := hrefuses
  have hopen : s.conn.state ≠ .closed := by
    rw [hstate]
    decide
  have htwice : ∀ {u reason}, u.conn.state ≠ .closed → u.conn.fd ≠ -1 → u.sends = s.sends → u.conn.onClose = true →
      notices u.log = notices s.log → reason ≠ .natural → closeConnection env depth reason true u = some t →
      Overdone s t := by
    intro u reason hopen hfd hsends hset hsame hreason ht
    obtain ⟨m, hfailures, hnotices⟩ := closeConnection_failures (closeConnection_key hopen hfd hreason ht) hreason ht
    have hpos : m ≠ 0 := by
      rintro rfl
      cases hfailures with
      | taken htakes => exact hnot (hsends ▸ htakes)
    rw [hset, if_pos rfl, hsame, Bool.toNat_true] at hnotices
    exact .inl (by omega)
  cases (readFd_outcome hwf.closed h).2 with
  | detached hgone _ => exact absurd hgone hfd
  | ended reason _ hfin ht =>
    refine htwice (u := s.receive input.bytes) hopen hfd rfl hcallback rfl ?_ ht
    rcases hfin with ⟨hfin, _⟩ | ⟨_, rfl⟩
    · rcases hend with herror | ⟨hagain, _⟩
      · cases hfin.symm.trans herror
      · cases hfin.symm.trans hagain
    · decide
  | waits _ hhand _ _ _ => cases hstate.symm.trans hhand
  | declined reason rest _ hhand _ _ => cases hstate.symm.trans hhand
  | secured frame rest key _ hhand _ _ _ _ => cases hstate.symm.trans hhand
  | refused items rest refusal _ _ _ _ ht =>
    exact htwice (u := s.setBuffer rest) hopen hfd rfl hcallback rfl (reasonOf_ne_natural refusal) ht
  | delivered items rest _ _ hfin hdrain hall _ =>
    rcases hend with herror | ⟨_, hbad⟩
    · cases hfin.symm.trans herror
    · rw [hdrain] at hbad
      rcases hbad with hbad | hsome
      · exact absurd rfl hbad
      · exact absurd hall hsome
  | invalid items rest _ _ _ _ _ ht =>
    exact htwice (u := (s.setBuffer rest).handOver (s.conn.accepted items)) hopen hfd rfl hcallback
      (handOver_notices ..) (by decide) ht

theorem perform_overdone {call : Call} (hwf : WellFormed env s) (hcallback : s.conn.onClose = true)
    (hrule : ¬ OneNotice env s call) (h : perform env depth call s = some t) : Overdone s t := by
  cases call with
  | readFd input now =>
    obtain ⟨⟨r, u⟩, hread, rfl⟩ := Option.map_eq_some_iff.mp h
    by_cases hrefuses : Refuses env input s → Takes env.send s.sends farewellSize
    · have hconfirmed : ¬ ∀ rest, AcceptsHandshake env input now s rest →
          Takes env.send s.sends (wireSize (s.confirmation env)) := fun hall => hrule ⟨hrefuses, hall⟩
      simp only [not_forall, exists_prop] at hconfirmed
      obtain ⟨rest, haccepts, hnot⟩ := hconfirmed
      exact unconfirmed_overdone hwf hcallback haccepts hnot hread
    · obtain ⟨hrefuses, hnot⟩ := Classical.not_imp.mp hrefuses
      exact refused_overdone hwf hcallback hrefuses hnot hread
  | sendFrame frame =>
    obtain ⟨hfd, hmany⟩ := Classical.not_imp.mp hrule
    simp only [not_forall, exists_prop] at hmany
    obtain ⟨m, hfailures, hmany⟩ := hmany
    have hcan := sendFrame_key (fun hc => hfd (hwf.closed hc)) hfd h
    by_cases hsize : 0 ≤ cInt frame.bodySize
    · obtain ⟨m', hfailures', hnotices, _⟩ :=
        sendFrame_failures (fun hu hv => closeConnection_failures hu (by decide) hv) hcan hsize h
      rw [firstSize, if_pos hsize] at hfailures
      rw [if_pos hsize, hfailures.unique hfailures'] at hmany
      rw [if_pos hcallback] at hnotices
      exact .inl (by omega)
    · obtain ⟨m', hfailures', hnotices⟩ := closeConnection_failures (s := s.nextFid) (hcan.of_conn rfl) (by decide)
        ((sendFrame_oversize env hcan.key hsize depth).symm.trans h)
      rw [firstSize, if_neg hsize] at hfailures
      rw [if_neg hsize, hfailures.unique hfailures'] at hmany
      have hset : s.nextFid.conn.onClose = true := hcallback
      have hsame : notices s.nextFid.log = notices s.log := rfl
      rw [if_pos hset, Bool.toNat_true, hsame] at hnotices
      exact .inl (by omega)
  | closeConnection reason invokeOnClose =>
    obtain ⟨hfd, hrest⟩ := Classical.not_imp.mp hrule
    obtain ⟨hreason, hmany⟩ := Classical.not_imp.mp hrest
    simp only [not_forall, exists_prop] at hmany
    obtain ⟨m, hfailures, hmany⟩ := hmany
    have hcan := closeConnection_key (fun hc => hfd (hwf.closed hc)) hfd hreason h
    obtain ⟨m', hfailures', hnotices⟩ := closeConnection_failures hcan hreason h
    rw [hfailures.unique hfailures'] at hmany
    rw [if_pos hcallback] at hnotices
    exact .inl (by omega)
  | setOnClose => exact absurd trivial hrule

/-- Whatever happens after it, the destructor has the callback invoked for the second time. -/
theorem destroyed_twice {u : Endpoint} (hwf : WellFormed env t) (hover : Overdone s t)
    (h : closeConnection env depth .natural true t = some u) : 2 ≤ notices u.log := by
  rcases hover with htwice | ⟨honce, hopen, hfd, hcallback⟩
  · obtain ⟨outs, hlog, _⟩ := (closeConnection_keeps hwf.closed h).1.log
    rw [hlog, notices_append]
    omega
  · cases depth with
    | zero => cases h
    | succ depth =>
      simp only [closeConnection, if_neg hopen, if_pos hfd, Option.map_some] at h
      have hset : (t.modify fun c => {c with state := .closed}).conn.onClose = true := hcallback
      rw [hset, Bool.and_true, if_pos rfl] at h
      cases h
      refine le_trans ?_ (notices_append t.log [.onClose (cInt t.conn.connId) .natural]).ge
      show 2 ≤ notices t.log + 1
      omega

/-! ### Every run -/

/-- **The callback is invoked once at most**, in every run in which each confirmation is taken and an attempt fails
only where nothing else in the call invokes the callback. A call that breaks this rule, with a callback set, has
it invoked twice by the time the connection is destroyed. -/
theorem notified_once (h : Reachable ((lifecycle env).under (OneNotice env)) s) :
    notices s.log ≤ 1 ∧ ∀ call t u, s.conn.onClose = true → ¬ OneNotice env s call →
      (lifecycle env).step s call t → (lifecycle env).step t (.closeConnection .natural true) u →
        2 ≤ notices u.log := by
  have hinv : Notified s := by
    induction h with
    | init hs =>
      obtain ⟨fd, connId, maxFrameSize, rsaPrivKey, hfd, rfl⟩ := hs
      refine ⟨Nat.zero_le 1, fun _ => ⟨rfl, ?_⟩⟩
      show fd ≠ -1
      omega
    | step hs hstep ih =>
      obtain ⟨hrule, depth, hcall⟩ := hstep
      exact perform_notified (reachable_wellFormed hs.of_under) ih hrule hcall
  refine ⟨hinv.once, fun call t u hcallback hrule ⟨depth, hcall⟩ ⟨depth', hdestroy⟩ => ?_⟩
  have hwf := reachable_wellFormed h.of_under
  exact destroyed_twice (perform_wellFormed hwf hcall) (perform_overdone hwf hcallback hrule hcall) hdestroy

/-- A connection with a callback, a handshake and a close. -/
def closedRun : List Call :=
  [.setOnClose, .readFd (.once (handshakeRaw 100)) 100, .closeConnection .invalidRequest true,
    .closeConnection .natural true]

/-- The callback is invoked by the close, and not by the destructor. -/
theorem accepted5_notified : ∃ s : Endpoint, 0 < notices s.log ∧ notices s.log ≤ 1 := by
  have hrun : (execute (fun (s : Endpoint) call => perform quietEnv 3 call s) closedRun accepted5).map
      (fun s => notices s.log) = some 1 := by
    decide +kernel
  obtain ⟨s, hs, hnotices⟩ := Option.map_eq_some_iff.mp hrun
  have htakes : ∀ i n, Takes quietEnv.send i n := fun i n => takes_of_pos (fun j _ => quietEnv_send j) n
  have hrule : ∀ call ∈ closedRun, ∀ s, OneNotice quietEnv s call := by
    intro call hcall s
    simp only [closedRun, List.mem_cons, List.not_mem_nil, or_false] at hcall
    rcases hcall with rfl | rfl | rfl | rfl
    · trivial
    · exact ⟨fun _ => htakes _ _, fun _ _ => htakes _ _⟩
    · intro _ _ m hfailures
      rw [hfailures.eq_zero (htakes _ _)]
      exact Nat.le_refl 1
    · exact fun _ hreason => absurd rfl hreason
  have hreach : Reachable ((lifecycle quietEnv).under (OneNotice quietEnv)) s :=
    Reachable.execute (fun call hcall s t h => ⟨hrule call hcall s, 3, h⟩) (.init accepted5_fresh) hs
  exact ⟨s, hnotices ▸ Nat.one_pos, (notified_once hreach).1⟩

/-- The confirmation is taken, the next call of `send` fails, and then everything is taken. -/
def farewellFailsEnv : Env := {quietEnv with send := fun i => if i = 1 then .error else .count 65536}

/-- **The first farewell of a close fails: the callback is invoked twice.** -/
theorem notified_twice : ∃ s, Reachable (lifecycle farewellFailsEnv) s ∧ notices s.log = 2 := by
  have hrun : (execute (fun (s : Endpoint) call => perform farewellFailsEnv 3 call s)
      (closedRun.take 3) accepted5).map (fun s => notices s.log) = some 2 := by
    decide +kernel
  obtain ⟨s, hs, hnotices⟩ := Option.map_eq_some_iff.mp hrun
  exact ⟨s, Reachable.execute (fun _ _ _ _ h => ⟨3, h⟩) (.init accepted5_fresh) hs, hnotices⟩

end Fmxp.Server
