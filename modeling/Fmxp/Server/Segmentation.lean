import Fmxp.Server.Closing
import Fmxp.Server.Requests

/-! Whether it matters how a stream is cut into reads.

A read parses everything it has before it hands anything over. Where it meets something it
refuses it closes the connection, and the frames of that read that came before are dropped; had
they come in an earlier read they would have been handed over. `reads_requests` says for any
stream, good or bad, what a number of reads hands over, and `segmentation_iff` for which streams
every division gives the same. -/
namespace Fmxp.Server
open Transition Framing

/-- One call of `readFd` after the other, whatever each of them says. -/
def reads (env : Env) (depth : Nat) : List (Recv × UInt32) → Endpoint → Option Endpoint :=
  execute fun s r => (readFd env depth r.1 r.2 s).map Prod.snd

/-- Reads that receive these bytes, between them, and neither an error nor the end of the stream. -/
def Division (bytes : Bytes) (xs : List (Recv × UInt32)) : Prop :=
  xs ≠ [] ∧ (∀ r ∈ xs, r.1.fin = .again) ∧ (xs.map fun r => r.1.bytes).flatten = bytes

/-- Both divisions come to an end, with the same requests and in the same state. -/
def SameOutcome (env : Env) (xs ys : List (Recv × UInt32)) (s : Endpoint) : Prop :=
  ∃ depth t u, reads env depth xs s = some t ∧ reads env depth ys s = some u ∧
    requests t.log = requests u.log ∧ t.conn.state = u.conn.state

variable {env : Env} {s t : Endpoint} {depth : Nat}

theorem reads_cons (r : Recv × UInt32) (xs : List (Recv × UInt32)) :
    reads env depth (r :: xs) s = ((readFd env depth r.1 r.2 s).map Prod.snd).bind (reads env depth xs) := rfl

theorem Keeps.requests {s t : Endpoint} (h : Keeps s t) : requests t.log = requests s.log := by
  obtain ⟨outs, hlog, hquiet⟩ := h.log
  rw [hlog, requests_append, requests_quiet hquiet, List.append_nil]

/-! ### Reads on a closed connection -/

/-- Without a descriptor a read closes the connection, if that has not been done. -/
theorem readFd_detached (hfd : s.conn.fd = -1) (input : Recv) (now : UInt32) :
    readFd env depth input now s = (closeConnection env depth .socketError true s).map (Prod.mk (.ok false)) := by
  unfold readFd
  rw [if_pos hfd]
  show (closeConnection env depth .socketError true (s.setBuffer (s.conn.inFrameBuffer ++ []))).map _ = _
  rw [List.append_nil, setBuffer_self]

theorem closeConnection_closed (hs : s.conn.state = .closed) (reason : CloseReason) (invokeOnClose : Bool) :
    closeConnection env (depth + 1) reason invokeOnClose s = some s := by
  simp only [closeConnection, if_pos hs]

theorem reads_closed (hs : s.conn.state = .closed) (hfd : s.conn.fd = -1) (xs : List (Recv × UInt32)) :
    reads env (depth + 1) xs s = some s := by
  induction xs with
  | nil => rfl
  | cons r xs ih =>
    rw [reads_cons, readFd_detached hfd, closeConnection_closed hs]
    exact ih

/-! ### Reads in a session -/

/-- An active connection on which no further call of `send` fails. -/
structure Steady (env : Env) (s : Endpoint) : Prop where
  state : s.conn.state = .active
  fd : s.conn.fd ≠ -1
  key : s.conn.aesKey.length = 32
  send : ∀ i, s.sends ≤ i → 0 < (env.send i).bytes

theorem Steady.close (hs : Steady env s) {reason : CloseReason} (hreason : reason ≠ .natural) (depth : Nat) :
    ∃ t, closeConnection env (depth + 1) reason true s = some t ∧ Keeps s t ∧
      t.conn.state = .closed ∧ t.conn.fd = -1 := by
  have hopen : s.conn.state ≠ .closed := by
    rw [hs.state]
    decide
  obtain ⟨t, ht⟩ := @closeConnection_taken env reason true s ⟨hopen, hs.fd, hs.key⟩ hreason
    (takes_of_pos hs.send farewellSize) depth
  exact ⟨t, ht, closeConnection_keeps (fun hc => absurd hc hopen) ht⟩

/-- One read: what it finds is refused, or part of it is, or it is all handed over. -/
theorem Steady.read (hs : Steady env s) {input : Recv} (hfin : input.fin = .again) (now : UInt32) (depth : Nat) :
    let d := (s.conn.framer env.evp).drain (s.conn.inFrameBuffer ++ input.bytes)
    ∃ r t, readFd env (depth + 1) input now s = some (r, t) ∧
      ((d.bad = none ∧ s.conn.accepted d.items = d.items ∧ t = (s.setBuffer d.rest).handOver d.items) ∨
        (t.conn.state = .closed ∧ t.conn.fd = -1 ∧
          ((d.bad ≠ none ∧ requests t.log = requests s.log) ∨
            (d.bad = none ∧ s.conn.accepted d.items ≠ d.items ∧
              requests t.log = requests s.log ++ s.conn.accepted d.items)))) := by
  intro d
  have hd : (s.conn.framer env.evp).drain (s.conn.inFrameBuffer ++ input.bytes) = d := rfl
  have hbuffered : Steady env (s.setBuffer d.rest) := ⟨hs.state, hs.fd, hs.key, hs.send⟩
  clear_value d
  cases d with
  | mk items rest bad =>
    cases bad with
    | some refusal =>
      obtain ⟨t, ht, hkeeps, hclosed, hgone⟩ := hbuffered.close (reasonOf_ne_natural refusal) depth
      refine ⟨.ok true, t, ?_, .inr ⟨hclosed, hgone, .inl ⟨Option.some_ne_none _, hkeeps.requests⟩⟩⟩
      rw [readFd_refused hs.fd hs.state hfin hd]
      exact congrArg (Option.map _) ht
    | none =>
      have hdeliver := @readFd_drained env (depth + 1) input now s items rest hs.fd hs.state hfin hd
      have haccepted : (s.setBuffer rest).conn.accepted items = s.conn.accepted items := rfl
      rw [deliver_eq, haccepted] at hdeliver
      by_cases hall : s.conn.accepted items = items
      · exact ⟨.ok true, _, hdeliver.trans (congrArg _ (if_pos hall)), .inl ⟨rfl, hall, rfl⟩⟩
      · have hover : Steady env ((s.setBuffer rest).handOver (s.conn.accepted items)) :=
          ⟨hs.state, hs.fd, hs.key, hs.send⟩
        obtain ⟨t, ht, hkeeps, hclosed, hgone⟩ :=
          hover.close (show CloseReason.invalidRequest ≠ .natural by decide) depth
        refine ⟨.ok false, t, ?_, .inr ⟨hclosed, hgone, .inr ⟨rfl, hall, ?_⟩⟩⟩
        · rw [hdeliver, if_neg hall]
          exact congrArg (fun o => (Option.map (Prod.mk false) o).map _) ht
        · rw [hkeeps.requests]
          show requests (s.log ++ _) = _
          rw [requests_append, requests_handOver]

/-- **What any number of reads does to a session**: it hands over the acceptable frames of the reads
before the one with a refusal, and is active at the end if nothing was refused. -/
theorem Steady.reads (hs : Steady env s) {xs : List (Recv × UInt32)} (hfin : ∀ r ∈ xs, r.1.fin = .again)
    (depth : Nat) :
    let F := s.conn.framer env.evp
    let batches := xs.map fun r => r.1.bytes
    ∃ t, reads env (depth + 1) xs s = some t ∧
      requests t.log = requests s.log ++ s.conn.accepted (F.beforeRefusal s.conn.inFrameBuffer batches) ∧
      t.conn.state = if (F.feed s.conn.inFrameBuffer batches).bad = none ∧
        s.conn.accepted (F.feed s.conn.inFrameBuffer batches).items = (F.feed s.conn.inFrameBuffer batches).items
        then .active else .closed := by
  induction xs generalizing s with
  | nil => exact ⟨s, rfl, (List.append_nil _).symm, hs.state.trans (if_pos ⟨rfl, rfl⟩).symm⟩
  | cons r xs ih =>
    obtain ⟨res, t, hread, hcase⟩ := hs.read (hfin r (List.mem_cons_self ..)) r.2 depth
    cases hd : (s.conn.framer env.evp).drain (s.conn.inFrameBuffer ++ r.1.bytes) with
    | mk items rest bad =>
      simp only [hd] at hcase
      simp only [List.map_cons, Framer.beforeRefusal, Framer.feed, hd, reads_cons, hread, Option.map_some,
        Option.bind_some]
      rcases hcase with ⟨rfl, hall, rfl⟩ | ⟨hclosed, hgone, ⟨hbad, hsame⟩ | ⟨rfl, hsome, hmore⟩⟩
      · -- The read is handed over as a whole; the others go on from there.
        have hnext : Steady env ((s.setBuffer rest).handOver items) := ⟨hs.state, hs.fd, hs.key, hs.send⟩
        obtain ⟨t, ht, hrequests, hstate⟩ := ih hnext fun r hr => hfin r (List.mem_cons_of_mem _ hr)
        have happend := acceptedFrames_append_of_eq hall
        refine ⟨t, ht, ?_, ?_⟩
        · rw [hrequests, ClientConnection.accepted, ClientConnection.accepted, happend, ← List.append_assoc]
          show requests (s.log ++ _) ++ _ = _
          rw [requests_append, requests_handOver]
          rfl
        · refine hstate.trans (if_congr (and_congr_right fun _ => ?_) rfl rfl)
          rw [ClientConnection.accepted, ClientConnection.accepted, happend]
          exact (List.append_right_inj items).symm
      · -- A refusal drops the whole read.
        obtain ⟨e, rfl⟩ := Option.ne_none_iff_exists'.mp hbad
        refine ⟨t, reads_closed hclosed hgone xs, hsame.trans (List.append_nil _).symm, hclosed.trans ?_⟩
        exact (if_neg fun h => Option.some_ne_none e h.1).symm
      · -- A frame that is not acceptable closes the connection; the others come too late.
        have happend := fun ys => acceptedFrames_append_of_ne hsome ys
        refine ⟨t, reads_closed hclosed hgone xs, ?_, ?_⟩
        · rw [hmore, ClientConnection.accepted, ClientConnection.accepted, happend]
        · refine hclosed.trans (if_neg ?_).symm
          rintro ⟨_, hall⟩
          rw [ClientConnection.accepted, happend] at hall
          have hlen := congrArg List.length hall
          have hfront := acceptedFrames_isPrefix s.conn.ssid s.conn.lastCliFid items
          have hshort := hfront.length_le
          rw [List.length_append] at hlen
          exact hsome (hfront.eq_of_length (by omega))

/-! ### All divisions -/

/-- However these bytes are cut, it makes no difference: the connection has no descriptor, or
nothing in them is refused, or something is that has been received before, or there is no
acceptable frame in front of it. -/
def Indifferent (env : Env) (s : Endpoint) (bytes : Bytes) : Prop :=
  let F := s.conn.framer env.evp
  s.conn.fd = -1 ∨ (F.drain (s.conn.inFrameBuffer ++ bytes)).bad = none ∨ (F.drain s.conn.inFrameBuffer).bad ≠ none ∨
    s.conn.accepted (F.drain (s.conn.inFrameBuffer ++ bytes)).items = []

theorem accepted_nil_of_isPrefix {c : ClientConnection} {xs ys : List Frame} (h : c.accepted ys = [])
    (hxs : xs <+: ys) :
    c.accepted xs = [] := by
  obtain ⟨zs, rfl⟩ := hxs
  by_cases hall : c.accepted xs = xs
  · rw [ClientConnection.accepted, acceptedFrames_append_of_eq hall] at h
    rw [hall]
    exact (List.append_eq_nil_iff.mp h).1
  · rw [ClientConnection.accepted, acceptedFrames_append_of_ne hall] at h
    exact h

/-- Reads without a descriptor close the connection and hand nothing over. -/
theorem reads_detached (hfd : s.conn.fd = -1) {xs : List (Recv × UInt32)} (hne : xs ≠ []) (depth : Nat) :
    ∃ t, reads env (depth + 1) xs s = some t ∧ requests t.log = requests s.log ∧ t.conn.state = .closed := by
  cases xs with
  | nil => exact absurd rfl hne
  | cons r xs =>
    obtain ⟨t, ht⟩ := closeConnection_silent env depth .socketError true (.inr (.inl hfd))
    obtain ⟨hkeeps, hclosed, hgone⟩ := closeConnection_keeps (fun _ => hfd) ht
    refine ⟨t, ?_, hkeeps.requests, hclosed⟩
    rw [reads_cons, readFd_detached hfd, ht]
    exact reads_closed hclosed hgone xs

/-- A division reads what there is to read, if not in the same reads. -/
theorem Division.feed {bytes : Bytes} {xs : List (Recv × UInt32)} (h : Division bytes xs)
    (F : Framer UInt8 Frame Refusal) (buffer : Bytes) :
    (F.feed buffer (xs.map fun r => r.1.bytes)).items = (F.drain (buffer ++ bytes)).items ∧
      (F.feed buffer (xs.map fun r => r.1.bytes)).bad = (F.drain (buffer ++ bytes)).bad := by
  obtain ⟨hne, _, rfl⟩ := h
  cases xs with
  | nil => exact absurd rfl hne
  | cons r xs => exact F.feed_cons_eq ..

/-- A read of these bytes, and nothing more for now. -/
theorem division_of_flatten (batches : List Bytes) (hne : batches ≠ []) :
    Division batches.flatten (batches.map fun b => (.once b, 0)) := by
  refine ⟨by simpa using hne, fun r hr => ?_, ?_⟩
  · obtain ⟨b, _, rfl⟩ := List.mem_map.mp hr
    rfl
  · have hbytes : (fun r : Recv × UInt32 => r.1.bytes) ∘ (fun b => (Recv.once b, 0)) = id := by
      funext b
      exact List.append_nil b
    rw [List.map_map, hbytes, List.map_id]

theorem division_bytes (batches : List Bytes) :
    ((batches.map fun b => (Recv.once b, (0 : UInt32))).map fun r => r.1.bytes) = batches := by
  rw [List.map_map]
  refine (List.map_congr_left fun b _ => ?_).trans (List.map_id batches)
  exact List.append_nil b

/-- In one read with a refusal nothing is handed over; a division that hands something over differs. -/
theorem Steady.not_sameOutcome (hs : Steady env s) {bytes : Bytes} {xs : List (Recv × UInt32)} {r : Recv × UInt32}
    (hxs : Division bytes xs) (hwhole : Division bytes [r])
    (hbad : ((s.conn.framer env.evp).drain (s.conn.inFrameBuffer ++ bytes)).bad ≠ none)
    (hsome : s.conn.accepted ((s.conn.framer env.evp).beforeRefusal s.conn.inFrameBuffer
      (xs.map fun r => r.1.bytes)) ≠ []) : ¬ SameOutcome env xs [r] s := by
  rintro ⟨depth, t, u, ht, hu, hrequests, _⟩
  obtain ⟨e, he⟩ := Option.ne_none_iff_exists'.mp hbad
  have hfin : r.1.fin = .again := hwhole.2.1 r (List.mem_singleton_self r)
  have hbytes : r.1.bytes = bytes := (List.append_nil _).symm.trans hwhole.2.2
  cases depth with
  | zero =>
    -- A close takes a call.
    have hread := @readFd_active env 0 r.1 r.2 s hs.fd hs.state hfin
    simp only [hbytes, he, closeConnection, Option.map_none] at hread
    rw [reads_cons, hread] at hu
    cases hu
  | succ depth =>
    obtain ⟨t', ht', htr, _⟩ := hs.reads hxs.2.1 depth
    obtain ⟨u', hu', hur, _⟩ := hs.reads hwhole.2.1 depth
    cases ht.symm.trans ht'
    cases hu.symm.trans hu'
    simp only [List.map_cons, Framer.beforeRefusal, hbytes, he] at hur
    rw [htr, hur] at hrequests
    exact hsome (List.append_cancel_left hrequests)

/-- **Independence of segmentation**: all divisions of a byte string into reads have the same
outcome on an active connection exactly when the string is `Indifferent` to it. -/
theorem segmentation_iff (h : Reachable (lifecycle env) s) (hactive : s.conn.state = .active)
    (hsend : ∀ i, s.sends ≤ i → 0 < (env.send i).bytes) (bytes : Bytes) :
    (∀ xs ys, Division bytes xs → Division bytes ys → SameOutcome env xs ys s) ↔ Indifferent env s bytes := by
  have hkey := ((reachable_wellFormed h).active hactive).1
  constructor
  · intro hsame
    by_contra hnot
    simp only [Indifferent, not_or, ne_eq, not_not] at hnot
    obtain ⟨hfd, hbad, hbuffer, hitems⟩ := hnot
    obtain ⟨e, he⟩ := Option.ne_none_iff_exists'.mp hbad
    have hsteady : Steady env s := ⟨hactive, hfd, hkey, hsend⟩
    -- One division separates the acceptable frames from the refusal, the other one does not.
    have hexact : (s.conn.framer env.evp).Exact := frameFramer_exact env.evp s.conn.maxFrameSize true s.conn.aesKey
    have hempty : (s.conn.framer env.evp).next [] = .wait := Framer.decode_wait _ _ rfl
    obtain ⟨y, z, rfl, hcut⟩ := (s.conn.framer env.evp).exists_cut hexact hempty hbuffer he
    have hapart := division_of_flatten [y, z] (List.cons_ne_nil y [z])
    have hwhole := division_of_flatten [y ++ z] (List.cons_ne_nil (y ++ z) [])
    rw [show [y, z].flatten = y ++ z by simp] at hapart
    rw [show [y ++ z].flatten = y ++ z by simp] at hwhole
    refine hsteady.not_sameOutcome hapart hwhole hbad ?_ (hsame _ _ hapart hwhole)
    rw [division_bytes, hcut]
    exact hitems
  · intro hcond xs ys hxs hys
    by_cases hfd : s.conn.fd = -1
    · obtain ⟨t, ht, htr, htc⟩ := @reads_detached env s hfd xs hxs.1 0
      obtain ⟨u, hu, hur, huc⟩ := @reads_detached env s hfd ys hys.1 0
      exact ⟨1, t, u, ht, hu, htr.trans hur.symm, htc.trans huc.symm⟩
    have hsteady : Steady env s := ⟨hactive, hfd, hkey, hsend⟩
    obtain ⟨t, ht, htr, hts⟩ := hsteady.reads hxs.2.1 0
    obtain ⟨u, hu, hur, hus⟩ := hsteady.reads hys.2.1 0
    obtain ⟨hxitems, hxbad⟩ := hxs.feed (s.conn.framer env.evp) s.conn.inFrameBuffer
    obtain ⟨hyitems, hybad⟩ := hys.feed (s.conn.framer env.evp) s.conn.inFrameBuffer
    refine ⟨1, t, u, ht, hu, ?_, by rw [hts, hus, hxitems, hxbad, hyitems, hybad]⟩
    rw [htr, hur]
    rcases hcond.resolve_left hfd with hnone | hbuffer | hitems
    · rw [Framer.beforeRefusal_of_none _ (hxbad.trans hnone), Framer.beforeRefusal_of_none _ (hybad.trans hnone),
        hxitems, hyitems]
    · obtain ⟨e, he⟩ := Option.ne_none_iff_exists'.mp hbuffer
      rw [Framer.beforeRefusal_of_bad _ he, Framer.beforeRefusal_of_bad _ he]
    · have hx := Framer.beforeRefusal_isPrefix (s.conn.framer env.evp) s.conn.inFrameBuffer
          (xs.map fun r => r.1.bytes)
      have hy := Framer.beforeRefusal_isPrefix (s.conn.framer env.evp) s.conn.inFrameBuffer
          (ys.map fun r => r.1.bytes)
      rw [accepted_nil_of_isPrefix hitems (hxitems ▸ hx), accepted_nil_of_isPrefix hitems (hyitems ▸ hy)]

/-- After its handshake a connection reads a request, and in the same read or the next one 29 bytes that
are no frame. -/
def securedRun : Option Endpoint := perform quietEnv 3 (.readFd (.once (handshakeRaw 100)) 100) accepted5

/-- A request cut anywhere is handed over just the same. -/
theorem request_indifferent :
    ∃ s, s.conn.state = .active ∧ ∀ xs ys, Division requestRaw xs → Division requestRaw ys →
      SameOutcome quietEnv xs ys s := by
  have hrun : securedRun.map (fun s => (s.conn.state, s.sends, decide (((s.conn.framer quietEnv.evp).drain
      (s.conn.inFrameBuffer ++ requestRaw)).bad = none))) = some (.active, 1, true) := by
    decide +kernel
  obtain ⟨s, hs, hresult⟩ := Option.map_eq_some_iff.mp hrun
  simp only [Prod.mk.injEq, decide_eq_true_eq] at hresult
  obtain ⟨hactive, _, hgood⟩ := hresult
  have hreach : Reachable (lifecycle quietEnv) s := .step (.init accepted5_fresh) ⟨3, hs⟩
  exact ⟨s, hactive, (segmentation_iff hreach hactive (fun i _ => quietEnv_send i) requestRaw).mpr
    (.inr (.inl hgood))⟩

/-- **A request and 29 zero bytes: the request is handed over if they come in two reads, and dropped if
they come in one.** -/
theorem request_dropped :
    ∃ s, Reachable (lifecycle quietEnv) s ∧ s.conn.state = .active ∧ (∀ i, 0 < (quietEnv.send i).bytes) ∧
      ∃ xs ys, Division (requestRaw ++ List.replicate 29 0) xs ∧ Division (requestRaw ++ List.replicate 29 0) ys ∧
        ¬ SameOutcome quietEnv xs ys s := by
  have hrun : securedRun.map (fun s => (s.conn.state, s.conn.fd, s.conn.aesKey.length,
      decide (((s.conn.framer quietEnv.evp).drain
        (s.conn.inFrameBuffer ++ (requestRaw ++ List.replicate 29 0))).bad = none),
      s.conn.accepted ((s.conn.framer quietEnv.evp).beforeRefusal s.conn.inFrameBuffer
        [requestRaw, List.replicate 29 0]))) = some (.active, 5, 32, false, [request7]) := by
    decide +kernel
  obtain ⟨s, hs, hresult⟩ := Option.map_eq_some_iff.mp hrun
  simp only [Prod.mk.injEq, decide_eq_false_iff_not] at hresult
  obtain ⟨hactive, hfd, hkey, hbad, haccepted⟩ := hresult
  have hsteady : Steady quietEnv s := ⟨hactive, by rw [hfd]; decide, hkey, fun i _ => quietEnv_send i⟩
  have hapart := division_of_flatten [requestRaw, List.replicate 29 0] (List.cons_ne_nil _ _)
  have hwhole := division_of_flatten [requestRaw ++ List.replicate 29 0] (List.cons_ne_nil _ _)
  refine ⟨s, .step (.init accepted5_fresh) ⟨3, hs⟩, hactive, quietEnv_send, _, _, hapart, hwhole, ?_⟩
  refine hsteady.not_sameOutcome hapart hwhole hbad ?_
  rw [division_bytes, haccepted]
  exact List.cons_ne_nil _ _

end Fmxp.Server
