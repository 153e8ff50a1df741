import Fmxp.Server.Lifecycle

/-! What a server connection hands over, in every run.

A call does one of three things: it sends and closes, it accepts a handshake, or it hands
over the frames of a batch that pass `_validateFrame` (`perform_effect`). `Serving` holds in
every state a connection reaches: its requests come after an accepted handshake, carry its
session id and have increasing fids. -/
namespace Fmxp.Server
open Transition Framing

/-- The frame an output hands over. -/
def Output.handed : Output → Option Frame
  | .request ioFrame => some ioFrame.frame
  | _ => none

def requests (log : List Output) : List Frame := log.filterMap Output.handed

/-- Key and bytes of an encoded frame. -/
def Output.encoding : Output → Option (Bytes × Bytes)
  | .encoded key raw => some (key, raw)
  | _ => none

/-- Everything a connection has encoded. -/
def ledger (log : List Output) : List (Bytes × Bytes) := log.filterMap Output.encoding

@[simp] theorem requests_append (log outs : List Output) : requests (log ++ outs) = requests log ++ requests outs :=
  List.filterMap_append

@[simp] theorem requests_secured (key : Bytes) (ssid : UInt64) (outs : List Output) :
    requests (.secured key ssid :: outs) = requests outs :=
  rfl

theorem requests_quiet {outs : List Output} (h : ∀ o ∈ outs, o.quiet = true) : requests outs = [] := by
  rw [requests, List.filterMap_eq_nil_iff]
  intro o ho
  have hquiet := h o ho
  cases o <;> first | rfl | cases hquiet

theorem requests_handOver (frames : List Frame) (connId : Nat) :
    requests (frames.map fun frame => .request ⟨frame, connId⟩) = frames := by
  rw [requests, List.filterMap_map]
  exact List.filterMap_some

/-! ### What a call can do -/

/-- What a session rests on: the key, the id and the last received fid. -/
def ClientConnection.session (c : ClientConnection) : Bytes × UInt64 × UInt32 := (c.aesKey, c.ssid, c.lastCliFid)

theorem session_eq {c : ClientConnection} {key : Bytes} {ssid : UInt64} {last : UInt32} :
    c.session = (key, ssid, last) ↔ c.aesKey = key ∧ c.ssid = ssid ∧ c.lastCliFid = last := by
  simp only [ClientConnection.session, Prod.mk.injEq]

theorem Keeps.session {s t : Endpoint} (h : Keeps s t) : t.conn.session = s.conn.session := by
  simp only [ClientConnection.session, h.aesKey, h.ssid, h.lastCliFid]

theorem Settled.state {s t : Endpoint} (h : Settled s t) :
    t.conn.state = s.conn.state ∨ t.conn.state = .closed := by
  rcases h with ⟨hstate, _⟩ | ⟨hclosed, _⟩
  · exact .inl hstate
  · exact .inr hclosed

/-- **A call sends and closes, accepts a handshake, or hands frames over.** -/
inductive Effect (env : Env) (call : Call) (s t : Endpoint) : Prop where
  | quiet (outs : List Output) : (∀ o ∈ outs, o.quiet = true) → t.log = s.log ++ outs →
      t.conn.session = s.conn.session → (t.conn.state = s.conn.state ∨ t.conn.state = .closed) →
      Effect env call s t
  | secured (key : Bytes) (outs : List Output) : (∀ o ∈ outs, o.quiet = true) →
      t.log = s.log ++ .secured key env.rand64 :: outs → s.conn.state = .handshake → t.conn.state = .active →
      t.conn.session = (key, env.rand64, s.conn.lastCliFid) → Effect env call s t
  | delivered (input : Recv) (now : UInt32) (frames : List Frame) (rest : Bytes) (outs : List Output) :
      call = .readFd input now → (∀ o ∈ outs, o.quiet = true) → s.conn.state = .active →
      (s.conn.framer env.evp).drain (s.conn.inFrameBuffer ++ input.bytes) = ⟨frames, rest, none⟩ →
      t.log = (s.log ++ (s.conn.accepted frames).map fun frame => .request ⟨frame, s.conn.connId⟩) ++ outs →
      t.conn.session = (s.conn.aesKey, s.conn.ssid, lastFid s.conn.lastCliFid (s.conn.accepted frames)) →
      (t.conn.state = s.conn.state ∨ t.conn.state = .closed) → Effect env call s t

theorem Effect.of_keeps {env : Env} {call : Call} {s t : Endpoint} (hkeeps : Keeps s t) (hsettled : Settled s t) :
    Effect env call s t := by
  obtain ⟨outs, hlog, hquiet⟩ := hkeeps.log
  exact .quiet outs hquiet hlog hkeeps.session hsettled.state

theorem perform_effect {env : Env} {depth : Nat} {call : Call} {s t : Endpoint} (hs : WellFormed env s)
    (h : perform env depth call s = some t) : Effect env call s t := by
  cases call with
  | readFd input now =>
    obtain ⟨⟨r, u⟩, hread, rfl⟩ := Option.map_eq_some_iff.mp h
    obtain ⟨_, heffect⟩ := readFd_cases hs.closed hread
    cases heffect with
    | quiet buffer hkeeps hsettled =>
      obtain ⟨outs, hlog, hquiet⟩ := hkeeps.log
      exact .quiet outs hquiet hlog hkeeps.session hsettled.state
    | secured frame rest key _ hstate _ _ hset =>
      obtain ⟨v, hkeeps, _, rfl⟩ := setAesKey_keeps (s := s.setBuffer rest) hs.closed hset
      obtain ⟨outs, hlog, hquiet⟩ := hkeeps.log
      refine .secured key outs hquiet (hlog.trans ?_) hstate rfl hkeeps.session
      show (s.log ++ [.secured key env.rand64]) ++ outs = _
      rw [List.append_assoc, List.singleton_append]
    | delivered frames rest _ hstate hdrain hkeeps hsettled =>
      obtain ⟨outs, hlog, hquiet⟩ := hkeeps.log
      exact .delivered input now frames rest outs rfl hquiet hstate hdrain hlog hkeeps.session hsettled.state
  | sendFrame frame =>
    obtain ⟨hkeeps, hsettled⟩ := sendFrame_keeps hs.closed h
    exact .of_keeps hkeeps hsettled
  | closeConnection reason invokeOnClose =>
    obtain ⟨hkeeps, hclosed⟩ := closeConnection_keeps hs.closed h
    exact .of_keeps hkeeps (.inr hclosed)
  | setOnClose =>
    cases h
    exact .quiet [] (fun _ ho => by cases ho) (List.append_nil _).symm rfl (.inl rfl)

/-- Nothing is ever taken out of the log. -/
theorem Effect.log {env : Env} {call : Call} {s t : Endpoint} (h : Effect env call s t) :
    ∃ outs, t.log = s.log ++ outs := by
  cases h with
  | quiet outs _ hlog => exact ⟨outs, hlog⟩
  | secured key outs _ hlog => exact ⟨_, hlog⟩
  | delivered input now frames rest outs _ _ _ _ hlog => exact ⟨_, hlog.trans (List.append_assoc ..)⟩

/-- The new requests are frames of the stream that pass `_validateFrame`, if there are any. -/
theorem Effect.newRequests {env : Env} {call : Call} {s t : Endpoint} (h : Effect env call s t) :
    requests t.log = requests s.log ∨
      ∃ input now frames rest, call = .readFd input now ∧ s.conn.state = .active ∧
        (s.conn.framer env.evp).drain (s.conn.inFrameBuffer ++ input.bytes) = ⟨frames, rest, none⟩ ∧
        requests t.log = requests s.log ++ s.conn.accepted frames := by
  cases h with
  | quiet outs hquiet hlog =>
    rw [hlog, requests_append, requests_quiet hquiet, List.append_nil]
    exact .inl rfl
  | secured key outs hquiet hlog =>
    rw [hlog, requests_append, requests_secured, requests_quiet hquiet, List.append_nil]
    exact .inl rfl
  | delivered input now frames rest outs hcall hquiet hstate hdrain hlog =>
    refine .inr ⟨input, now, frames, rest, hcall, hstate, hdrain, ?_⟩
    rw [hlog, requests_append, requests_append, requests_quiet hquiet, requests_handOver, List.append_nil]

/-- A connection that has left the handshake keeps its key. -/
theorem Effect.aesKey {env : Env} {call : Call} {s t : Endpoint} (h : Effect env call s t)
    (hs : s.conn.state ≠ .handshake) : t.conn.aesKey = s.conn.aesKey := by
  cases h with
  | quiet outs _ _ hsession _ => exact (session_eq.mp hsession).1
  | secured key outs _ _ hhand _ _ => exact absurd hhand hs
  | delivered input now frames rest outs _ _ _ _ _ hsession _ => exact (session_eq.mp hsession).1

/-- A connection never goes back to the handshake. -/
theorem Effect.left {env : Env} {call : Call} {s t : Endpoint} (h : Effect env call s t)
    (hs : s.conn.state ≠ .handshake) : t.conn.state ≠ .handshake := by
  have hkept : t.conn.state = s.conn.state ∨ t.conn.state = .closed → t.conn.state ≠ .handshake := by
    rintro (hsame | hclosed)
    · rw [hsame]
      exact hs
    · rw [hclosed]
      decide
  cases h with
  | quiet outs _ _ _ hstate => exact hkept hstate
  | secured key outs _ _ hhand _ _ => exact absurd hhand hs
  | delivered input now frames rest outs _ _ _ _ _ _ hstate => exact hkept hstate

/-! ### An invariant of every run -/

/-- `o` comes before every request of the log. -/
def Precedes (o : Output) (log : List Output) : Prop :=
  ∀ pre ioFrame post, log = pre ++ .request ioFrame :: post → o ∈ pre

theorem precedes_of_nil {o : Output} {log : List Output} (h : requests log = []) : Precedes o log := by
  rintro pre ioFrame post rfl
  simp [requests, Output.handed] at h

theorem Precedes.append {o : Output} {log outs : List Output} (h : Precedes o log)
    (hnew : o ∈ log ∨ requests outs = []) : Precedes o (log ++ outs) := by
  intro pre ioFrame post heq
  have hnone : ∀ front, outs = front ++ .request ioFrame :: post → o ∈ log := by
    rintro front rfl
    refine hnew.resolve_right fun hnil => ?_
    simp [requests, Output.handed] at hnil
  rcases List.append_eq_append_iff.mp heq with ⟨front, rfl, houts⟩ | ⟨back, rfl, hback⟩
  · exact List.mem_append_left _ (hnone front houts)
  · cases back with
    | nil =>
      have hmem := hnone [] hback.symm
      rwa [List.append_nil] at hmem
    | cons b back =>
      obtain ⟨rfl, _⟩ := List.cons.inj hback
      exact h pre ioFrame back rfl

/-- What the requests handed over so far satisfy. -/
structure Serving (env : Env) (s : Endpoint) : Prop where
  precedes : Precedes (.secured s.conn.aesKey s.conn.ssid) s.log
  secured : s.conn.state = .active → .secured s.conn.aesKey s.conn.ssid ∈ s.log ∧ s.conn.ssid = env.rand64
  drawn : requests s.log ≠ [] → s.conn.ssid = env.rand64
  handshake : s.conn.state = .handshake → requests s.log = [] ∧ s.conn.lastCliFid = 0
  ssid : ∀ frame ∈ requests s.log, frame.ssid = s.conn.ssid
  fresh : Fresh 0 (requests s.log)
  last : lastFid 0 (requests s.log) = s.conn.lastCliFid

/-- A connection with a request has left the handshake. -/
theorem Serving.left {env : Env} {s : Endpoint} (hs : Serving env s) {frame : Frame}
    (hmem : frame ∈ requests s.log) : s.conn.state ≠ .handshake := by
  intro hhand
  rw [(hs.handshake hhand).1] at hmem
  cases hmem

theorem Endpoint.Fresh.serving {env : Env} {s : Endpoint} (h : s.Fresh) : Serving env s := by
  obtain ⟨fd, connId, maxFrameSize, rsaPrivKey, _, rfl⟩ := h
  exact ⟨precedes_of_nil rfl, fun hc => (by cases hc), fun hc => absurd rfl hc, fun _ => ⟨rfl, rfl⟩,
    fun _ hf => (by cases hf), trivial, rfl⟩

theorem Effect.serving {env : Env} {call : Call} {s t : Endpoint} (hs : Serving env s)
    (h : Effect env call s t) : Serving env t := by
  cases h with
  | quiet outs hquiet hlog hsession hstate =>
    obtain ⟨hkey, hssid, hlast⟩ := session_eq.mp hsession
    have hnone := requests_quiet hquiet
    have hsame : requests t.log = requests s.log := by
      rw [hlog, requests_append, hnone, List.append_nil]
    -- An open connection is in the state it was in.
    have hopen : ∀ state, state ≠ .closed → t.conn.state = state → s.conn.state = state := by
      intro state hne ht
      exact (hstate.resolve_right fun hc => hne (ht.symm.trans hc)).symm.trans ht
    refine ⟨?_, fun ht => ?_, ?_, fun ht => ?_, ?_, ?_, ?_⟩
    · rw [hkey, hssid, hlog]
      exact hs.precedes.append (.inr hnone)
    · obtain ⟨hsecured, hdrawn⟩ := hs.secured (hopen _ (by decide) ht)
      rw [hkey, hssid, hlog]
      exact ⟨List.mem_append_left _ hsecured, hdrawn⟩
    · rw [hsame, hssid]
      exact hs.drawn
    · rw [hsame, hlast]
      exact hs.handshake (hopen _ (by decide) ht)
    · rw [hsame, hssid]
      exact hs.ssid
    · rw [hsame]
      exact hs.fresh
    · rw [hsame, hlast]
      exact hs.last
  | secured key outs hquiet hlog hhand hactive hsession =>
    obtain ⟨hkey, hssid, hlast⟩ := session_eq.mp hsession
    obtain ⟨hnone, hzero⟩ := hs.handshake hhand
    have hsame : requests t.log = [] := by
      rw [hlog, requests_append, hnone, requests_secured, requests_quiet hquiet, List.append_nil]
    refine ⟨precedes_of_nil hsame, fun _ => ⟨?_, hssid⟩, fun _ => hssid, fun ht => ?_, ?_, ?_, ?_⟩
    · rw [hkey, hssid, hlog]
      exact List.mem_append_right _ (List.mem_cons_self ..)
    · rw [hactive] at ht
      cases ht
    · rw [hsame]
      intro frame hf
      cases hf
    · rw [hsame]
      trivial
    · rw [hsame, hlast, hzero]
      rfl
  | delivered input now frames rest outs hcall hquiet hactive hdrain hlog hsession hstate =>
    obtain ⟨hkey, hssid, hlast⟩ := session_eq.mp hsession
    obtain ⟨hsecured, hdrawn⟩ := hs.secured hactive
    have hmore : requests t.log = requests s.log ++ s.conn.accepted frames := by
      rw [hlog, requests_append, requests_append, requests_quiet hquiet, requests_handOver, List.append_nil]
    have hmem : .secured t.conn.aesKey t.conn.ssid ∈ t.log := by
      rw [hkey, hssid, hlog]
      exact List.mem_append_left _ (List.mem_append_left _ hsecured)
    refine ⟨?_, fun _ => ⟨hmem, hssid.trans hdrawn⟩, fun _ => hssid.trans hdrawn, fun ht => ?_, ?_, ?_, ?_⟩
    · rw [hkey, hssid, hlog, List.append_assoc]
      exact hs.precedes.append (.inl hsecured)
    · rcases hstate with hstate | hstate
      · rw [hstate, hactive] at ht
        cases ht
      · rw [hstate] at ht
        cases ht
    · rw [hmore, hssid]
      intro frame hf
      rcases List.mem_append.mp hf with hf | hf
      · exact hs.ssid frame hf
      · exact ssid_of_mem_acceptedFrames hf
    · rw [hmore, Fresh.append, hs.last]
      exact ⟨hs.fresh, acceptedFrames_fresh ..⟩
    · rw [hmore, lastFid_append, hs.last, hlast]

/-- **Every state a connection reaches is serving.** -/
theorem reachable_serving {env : Env} {s : Endpoint} (h : Reachable (lifecycle env) s) : Serving env s := by
  have hboth : WellFormed env s ∧ Serving env s := by
    refine h.invariant (I := fun s => WellFormed env s ∧ Serving env s) ?_ ?_
    · exact fun s hs => ⟨hs.wellFormed, hs.serving⟩
    · rintro s call t ⟨hwf, hserving⟩ ⟨depth, hcall⟩
      exact ⟨perform_wellFormed hwf hcall, (perform_effect hwf hcall).serving hserving⟩
  exact hboth.2

end Fmxp.Server
