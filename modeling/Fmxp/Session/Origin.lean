import Fmxp.Session.Network

/-! Where the frames of a session come from.

Client and server use one key, one session id and one frame layout, and each checks no more
than the session id and its own counter. With an ideal cipher a frame that an endpoint takes
was encoded by one of the two, so it comes from the other unless the network has sent an
endpoint's own frame back to it (`origin`). Such a frame passes while its fid is above the
counter (`request_reflected`). -/
namespace Fmxp
open Transition Framing

/-- The frames of a ledger, as its readers decode them. -/
def decodedFrames (evp : Evp) (ledger : List (Bytes × Bytes)) : List Frame :=
  ledger.filterMap fun e => (decodeFrame evp e.2 true e.1).toOption

/-- The frames a client has encoded. -/
def Client.Endpoint.encodedFrames (evp : Evp) (s : Client.Endpoint) : List Frame :=
  decodedFrames evp (Client.ledger s.log)

/-- The frames a server connection has encoded. -/
def Server.Endpoint.encodedFrames (evp : Evp) (s : Server.Endpoint) : List Frame :=
  decodedFrames evp (Server.ledger s.log)

theorem mem_decodedFrames {evp : Evp} {ledger : List (Bytes × Bytes)} {f : Frame} :
    f ∈ decodedFrames evp ledger ↔ ∃ key raw, (key, raw) ∈ ledger ∧ decodeFrame evp raw true key = .ok f := by
  rw [decodedFrames, List.mem_filterMap]
  constructor
  · rintro ⟨⟨key, raw⟩, hmem, hdec⟩
    refine ⟨key, raw, hmem, ?_⟩
    cases hd : decodeFrame evp raw true key with
    | error e => simp only [hd] at hdec; cases hdec
    | ok g => simp only [hd] at hdec; cases hdec; rfl
  · rintro ⟨key, raw, hmem, hdec⟩
    exact ⟨(key, raw), hmem, by simp only [hdec]; rfl⟩

/-- The responses a client has handed to its callback. -/
def Client.Output.responded : Client.Output → Option Frame
  | .response frame => some frame
  | _ => none

def Client.responses (log : List Client.Output) : List Frame := log.filterMap Client.Output.responded

namespace Client

@[simp] theorem responses_append (log outs : List Output) :
    responses (log ++ outs) = responses log ++ responses outs :=
  List.filterMap_append

theorem responses_quiet {outs : List Output} (h : ∀ o ∈ outs, o.quiet = true) : responses outs = [] := by
  rw [responses, List.filterMap_eq_nil_iff]
  intro o ho
  have hquiet := h o ho
  cases o <;> first | rfl | cases hquiet

theorem Keeps.responses {s t : Endpoint} (h : Keeps s t) : responses t.log = responses s.log := by
  obtain ⟨outs, hlog, hquiet⟩ := h.log
  rw [hlog, responses_append, responses_quiet fun o ho => (hquiet o ho).1, List.append_nil]

/-- Nothing is ever taken out of the log. -/
theorem Effect.log {env : Env} {event : Event} {p q : Process} (h : Effect env event p q) :
    ∃ outs, q.endpoint.log = p.endpoint.log ++ outs := by
  cases h with
  | quiet hkeeps =>
    obtain ⟨outs, hlog, _⟩ := hkeeps.log
    exact ⟨outs, hlog⟩
  | started _ hkeeps =>
    obtain ⟨outs, hlog, _⟩ := hkeeps.log
    exact ⟨outs, hlog⟩
  | read input confirmation b _ _ hkeeps =>
    obtain ⟨outs, hlog, _⟩ := hkeeps.log
    cases confirmation with
    | none => exact ⟨outs, hlog⟩
    | some f => exact ⟨.confirmed f :: outs, hlog.trans (List.append_assoc ..)⟩
  | handed frame rest _ _ _ _ heq =>
    subst heq
    exact ⟨[.response frame], rfl⟩

/-- A step hands over at most the frame that is up for dispatch. -/
theorem Effect.newResponses {env : Env} {event : Event} {p q : Process} (h : Effect env event p q) :
    responses q.endpoint.log = responses p.endpoint.log ∨
      ∃ frame rest, event = .dispatch ∧ p.pending = frame :: rest ∧ frame.ssid = p.endpoint.conn.ssid ∧
        p.endpoint.conn.lastSrvFid < frame.fid ∧
        responses q.endpoint.log = responses p.endpoint.log ++ [frame] := by
  cases h with
  | quiet hkeeps => exact .inl hkeeps.responses
  | started _ hkeeps => exact .inl hkeeps.responses
  | read input confirmation b _ _ hkeeps =>
    refine .inl (hkeeps.responses.trans ?_)
    cases confirmation with
    | none => rfl
    | some f =>
      show responses (p.endpoint.log ++ [.confirmed f]) = _
      rw [responses_append]
      exact List.append_nil _
  | handed frame rest hevent hpending hssid hfid heq =>
    subst heq
    exact .inr ⟨frame, rest, hevent, hpending, hssid, hfid, responses_append ..⟩

/-- What is up for dispatch was so before, or has just been parsed. -/
theorem Effect.newPending {env : Env} {event : Event} {p q : Process} (h : Effect env event p q) :
    (∀ f ∈ q.pending, f ∈ p.pending) ∨
      ∃ input, event = .readable input ∧ p.idle = true ∧ q.pending = (p.endpoint.conn.parsed env.evp
        (p.endpoint.conn.frameBuffer ++ (heard input p.endpoint).bytes)).frames := by
  cases h with
  | quiet _ _ hpending =>
    refine .inl fun f hf => ?_
    rcases hpending with heq | hnil
    · exact heq ▸ hf
    · rw [hnil] at hf
      cases hf
  | started _ _ _ hpending => exact .inl fun f hf => hpending ▸ hf
  | read input confirmation b hevent hidle _ _ hpending _ =>
    rcases hpending with hnil | ⟨hframes, _⟩
    · refine .inl fun f hf => ?_
      rw [hnil] at hf
      cases hf
    · exact .inr ⟨input, hevent, hidle, hframes⟩
  | handed frame rest _ hpending _ _ heq =>
    subst heq
    refine .inl fun f hf => ?_
    rw [hpending]
    exact List.mem_cons_of_mem frame hf

/-- The frames a parse finds come from raw frames of the buffer. -/
theorem parsed_raw {evp : Evp} {c : Connection} {b : Bytes} {f : Frame} (h : f ∈ (c.parsed evp b).frames) :
    ∃ raw ∈ rawFrames c.maxFrameSize b, decodeFrame evp raw true c.aesKey = .ok f := by
  unfold Connection.parsed at h
  split at h
  · split at h
    · cases h
    · cases h
    · next frame rest hnext =>
      split at h
      · -- The confirmation is the first raw frame, the others come from the rest.
        obtain ⟨first, hraws, _⟩ := frameFramer_item hnext
        obtain ⟨raw, hraw, hdec⟩ := frameFramer_raw (b := rest) h
        exact ⟨raw, hraws ▸ List.mem_cons_of_mem first hraw, hdec⟩
      · cases h
  · exact frameFramer_raw h

end Client

/-! ### Reflection -/

/-- No frame that passes `_validateFrame` at an endpoint is one the endpoint itself has encoded:
not the frame a client is about to dispatch, nor any that a read of a server would hand over. -/
def NotReflected {ι κ : Type} (env : NetworkEnv ι κ) (n : Network ι κ) : NetworkEvent ι κ → Prop
  | .client i .dispatch =>
    let s := (n.clients i).endpoint
    ∀ frame ∈ (n.clients i).pending.take 1, frame.ssid = s.conn.ssid → s.conn.lastSrvFid < frame.fid →
      frame ∉ s.encodedFrames env.evp
  | .server j (.readFd input _) =>
    let s := n.servers j
    let d := (s.conn.framer env.evp).drain (s.conn.inFrameBuffer ++ input.bytes)
    s.conn.state = .active → d.bad = none → ∀ frame ∈ s.conn.accepted d.items, frame ∉ s.encodedFrames env.evp
  | _ => True

instance {ι κ : Type} (env : NetworkEnv ι κ) (n : Network ι κ) (event : NetworkEvent ι κ) :
    Decidable (NotReflected env n event) :=
  match event with
  | .client i .dispatch => inferInstanceAs (Decidable (∀ frame ∈ (n.clients i).pending.take 1, _ → _ → _))
  | .server j (.readFd _ _) => inferInstanceAs (Decidable ((n.servers j).conn.state = .active → _ → _))
  | .client _ (.start _) | .client _ (.readable _) | .client _ .hangup | .client _ .command
  | .client _ (.sendReq ..) | .client _ .beginClose | .client _ .endClose | .client _ .setOnClose
  | .server _ (.sendFrame _) | .server _ (.closeConnection ..) | .server _ .setOnClose => .isTrue trivial

theorem Client.Endpoint.encodedFrames_mono (evp : Evp) {s t : Client.Endpoint} {outs : List Client.Output}
    (h : t.log = s.log ++ outs) : s.encodedFrames evp ⊆ t.encodedFrames evp := by
  refine List.filterMap_subset _ (List.filterMap_subset _ ?_)
  rw [h]
  exact List.subset_append_left ..

theorem Server.Endpoint.encodedFrames_mono (evp : Evp) {s t : Server.Endpoint} {outs : List Server.Output}
    (h : t.log = s.log ++ outs) : s.encodedFrames evp ⊆ t.encodedFrames evp := by
  refine List.filterMap_subset _ (List.filterMap_subset _ ?_)
  rw [h]
  exact List.subset_append_left ..

/-- The server connection has no key yet, or that of the client. -/
def Shared (env : NetworkEnv Unit Unit) (s : Server.Endpoint) : Prop :=
  s.conn.aesKey = [] ∨ s.conn.aesKey = (env.client ()).key.val

/-- What the frames taken so far, and those to be dispatched, satisfy. -/
structure FromPeer (env : NetworkEnv Unit Unit) (p : Client.Process) (s : Server.Endpoint) : Prop where
  pending : ∀ f ∈ p.pending, f ∈ p.endpoint.encodedFrames env.evp ∨ f ∈ s.encodedFrames env.evp
  responses : ∀ f ∈ Client.responses p.endpoint.log, f ∈ s.encodedFrames env.evp
  requests : Shared env s → ∀ f ∈ Server.requests s.log, f ∈ p.endpoint.encodedFrames env.evp

section
variable {env : NetworkEnv Unit Unit} {n : Network Unit Unit}

/-- A frame decoded under the client's key, from a raw frame a read has cut off, was encoded by
one of the two. -/
theorem Authentic.encoded {event : NetworkEvent Unit Unit} {raw : Bytes} {f : Frame} (h : Authentic env n event)
    (hkey : (n.cut event).1 = (env.client ()).key.val) (hraw : raw ∈ (n.cut event).2)
    (hdec : decodeFrame env.evp raw true (n.cut event).1 = .ok f) :
    f ∈ (n.clients ()).endpoint.encodedFrames env.evp ∨ f ∈ (n.servers ()).encodedFrames env.evp := by
  rcases h raw hraw (opens_of_decodeFrame hdec) ⟨(), hkey⟩ with ⟨_, hmem⟩ | ⟨_, hmem⟩
  · exact .inl (mem_decodedFrames.mpr ⟨_, raw, hmem, hdec⟩)
  · exact .inr (mem_decodedFrames.mpr ⟨_, raw, hmem, hdec⟩)

theorem FromPeer.client {event : Client.Event} {q : Client.Process} (hn : FromPeer env (n.clients ()) (n.servers ()))
    (hwf : Client.WellFormed (env.client ()) (n.clients ()))
    (hrule : NotReflected env n (.client () event)) (hauthentic : Authentic env n (.client () event))
    (h : Client.perform (env.client ()) event (n.clients ()) = some q) : FromPeer env q (n.servers ()) := by
  have heffect := Client.perform_effect hwf.live h
  obtain ⟨outs, hlog⟩ := heffect.log
  have hmono := Client.Endpoint.encodedFrames_mono env.evp hlog
  refine ⟨fun f hf => ?_, fun f hf => ?_, fun hshared f hf => hmono (hn.requests hshared f hf)⟩
  · rcases heffect.newPending with hsub | ⟨input, rfl, hidle, hframes⟩
    · exact (hn.pending f (hsub f hf)).imp_left (hmono ·)
    · -- The parsed frames opened under the key of the client.
      rw [hframes, env.client_evp] at hf
      obtain ⟨raw, hraw, hdec⟩ := Client.parsed_raw hf
      exact (hauthentic.encoded (hwf.key (Client.Process.looping_of_idle hidle)) hraw hdec).imp_left (hmono ·)
  · rcases heffect.newResponses with hsame | ⟨frame, rest, rfl, hpending, hssid, hfid, hmore⟩
    · exact hn.responses f (hsame ▸ hf)
    · rw [hmore] at hf
      rcases List.mem_append.mp hf with hf | hf
      · exact hn.responses f hf
      · rw [List.mem_singleton.mp hf]
        have hfront : frame ∈ (n.clients ()).pending.take 1 := by
          rw [hpending]
          exact List.mem_cons_self ..
        have hmem : frame ∈ (n.clients ()).pending := List.mem_of_mem_take hfront
        exact (hn.pending frame hmem).resolve_left (hrule frame hfront hssid hfid)

theorem FromPeer.server {depth : Nat} {call : Server.Call} {t : Server.Endpoint}
    (hn : FromPeer env (n.clients ()) (n.servers ())) (hwf : Server.WellFormed (env.server ()) (n.servers ()))
    (hserving : Server.Serving (env.server ()) (n.servers ()))
    (hrule : NotReflected env n (.server () call)) (hauthentic : Authentic env n (.server () call))
    (h : Server.perform (env.server ()) depth call (n.servers ()) = some t) : FromPeer env (n.clients ()) t := by
  have heffect := Server.perform_effect hwf h
  obtain ⟨outs, hlog⟩ := heffect.log
  have hmono := Server.Endpoint.encodedFrames_mono env.evp hlog
  refine ⟨fun f hf => (hn.pending f hf).imp_right (hmono ·), fun f hf => hmono (hn.responses f hf),
    fun hshared f hf => ?_⟩
  have hold : f ∈ Server.requests (n.servers ()).log → f ∈ (n.clients ()).endpoint.encodedFrames env.evp := by
    intro hmem
    rw [Shared, heffect.aesKey (hserving.left hmem)] at hshared
    exact hn.requests hshared f hmem
  rcases heffect.newRequests with hsame | ⟨input, now, frames, rest, rfl, hactive, hdrain, hmore⟩
  · exact hold (hsame ▸ hf)
  · rw [hmore] at hf
    rw [env.server_evp] at hdrain
    rcases List.mem_append.mp hf with hf | hf
    · exact hold hf
    · -- The new requests opened under the key of the client, which the connection has kept.
      have hleft : (n.servers ()).conn.state ≠ .handshake := by
        rw [hactive]
        decide
      rw [Shared, heffect.aesKey hleft] at hshared
      have hkey := hshared.resolve_left fun hnil => by
        have hlen := (hwf.active hactive).1
        rw [hnil] at hlen
        cases hlen
      have hitem : f ∈ (((n.servers ()).conn.framer env.evp).drain
          ((n.servers ()).conn.inFrameBuffer ++ input.bytes)).items := by
        rw [hdrain]
        exact (acceptedFrames_isPrefix ..).subset hf
      obtain ⟨raw, hraw, hdec⟩ := frameFramer_raw hitem
      have hown : f ∉ (n.servers ()).encodedFrames env.evp :=
        hrule hactive (by rw [hdrain]) f (by rw [hdrain]; exact hf)
      exact (hauthentic.encoded hkey hraw hdec).resolve_right hown

/-- **Origin**: in every run of a client and a server connection that share a key, over any network
that sends no endpoint one of its own frames in time to pass, every request comes from a frame
the client has encoded and every response from a frame the server has encoded. -/
theorem origin (h : Reachable ((network env).under (NotReflected env)) n)
    (hshared : Shared env (n.servers ())) :
    (∀ f ∈ Server.requests (n.servers ()).log, f ∈ (n.clients ()).endpoint.encodedFrames env.evp) ∧
      ∀ f ∈ Client.responses (n.clients ()).endpoint.log, f ∈ (n.servers ()).encodedFrames env.evp := by
  have hn : FromPeer env (n.clients ()) (n.servers ()) := by
    clear hshared
    induction h with
    | @init n hinit =>
      obtain ⟨hclients, hservers, _⟩ := hinit
      obtain ⟨pubKey, maxFrameSize, socket, epollFd, cmdEvFd, _, hclient⟩ := hclients ()
      obtain ⟨fd, connId, maxFrameSize', rsaPrivKey, _, hserver⟩ := hservers ()
      rw [hclient, hserver]
      exact ⟨fun f hf => (by cases hf), fun f hf => (by cases hf), fun _ f hf => (by cases hf)⟩
    | @step n q event hn hstep ih =>
      obtain ⟨hrule, ⟨depth, hperform⟩, hauthentic, _⟩ := hstep
      obtain ⟨hclients, hservers⟩ := network_parties hn.of_under
      cases event with
      | client i event =>
        obtain ⟨p, hp, rfl⟩ := Option.map_eq_some_iff.mp hperform
        exact ih.client (Client.reachable_wellFormed (hclients ())) hrule hauthentic hp
      | server j call =>
        obtain ⟨t, ht, rfl⟩ := Option.map_eq_some_iff.mp hperform
        exact ih.server (Server.reachable_wellFormed (hservers ())) (Server.reachable_serving (hservers ())) hrule
          hauthentic ht
  exact ⟨hn.requests hshared, hn.responses⟩

end

/-- One connection, which draws the session id 7. -/
def oneConnection : NetworkEnv Unit Unit := quietNetwork fun _ => 7

/-- The handshake and the first request of the client. -/
def sessionStart : List (NetworkEvent Unit Unit) :=
  [.client () (.start 100), .server () (.readFd (.once (Server.handshakeRaw 100)) 100),
    .client () (.readable (.once Client.confirmationRaw)), .client () (.sendReq (ascii ['/', 'p']) [1, 2]),
    .client () .command]

/-- The request and its answer, each delivered to the other. -/
def answered : List (NetworkEvent Unit Unit) :=
  [.server () (.readFd (.once Server.requestRaw) 101), .server () (.sendFrame Client.response7),
    .client () (.readable (.once Client.responseRaw)), .client () .dispatch]

theorem answered_origin :
    ∃ n : Network Unit Unit, Server.requests (n.servers ()).log = [Server.request7] ∧
      Client.responses (n.clients ()).endpoint.log = [Client.response7] ∧
      (∀ f ∈ Server.requests (n.servers ()).log, f ∈ (n.clients ()).endpoint.encodedFrames oneConnection.evp) ∧
      ∀ f ∈ Client.responses (n.clients ()).endpoint.log, f ∈ (n.servers ()).encodedFrames oneConnection.evp := by
  have hrun : (execute (guarded (NotReflected oneConnection) (Network.next oneConnection))
      (sessionStart ++ answered) opening).map (fun n =>
        (Server.requests (n.servers ()).log, Client.responses (n.clients ()).endpoint.log,
        (n.servers ()).conn.aesKey)) = some ([Server.request7], [Client.response7], List.replicate 32 5) := by
    decide +kernel
  obtain ⟨n, hn, hresult⟩ := Option.map_eq_some_iff.mp hrun
  obtain ⟨hrequests, hlater⟩ := Prod.mk.inj hresult
  obtain ⟨hresponses, hkey⟩ := Prod.mk.inj hlater
  have hreach : Reachable ((network oneConnection).under (NotReflected oneConnection)) n :=
    Reachable.execute (fun _ _ _ _ => guarded_step fun _ _ => Network.next_step)
      (.init (opening_init oneConnection)) hn
  exact ⟨n, hrequests, hresponses, origin hreach (.inr hkey)⟩

/-- Each endpoint's own frame, sent back to it. -/
def reflected : List (NetworkEvent Unit Unit) :=
  [.server () (.readFd (.once Client.confirmationRaw) 101), .client () (.readable (.once Server.requestRaw)),
    .client () .dispatch]

/-- **Sent back to the endpoint that encoded it, a frame is taken**: the server's confirmation as a
request, and the client's request as a response. -/
theorem reflected_taken :
    ∃ n, Reachable (network oneConnection) n ∧ Shared oneConnection (n.servers ()) ∧
      (∃ f ∈ Server.requests (n.servers ()).log,
        f ∉ (n.clients ()).endpoint.encodedFrames oneConnection.evp) ∧
      ∃ f ∈ Client.responses (n.clients ()).endpoint.log, f ∉ (n.servers ()).encodedFrames oneConnection.evp := by
  have hrun : (execute (Network.next oneConnection) (sessionStart ++ reflected) opening).map (fun n =>
      (Server.requests (n.servers ()).log, (n.clients ()).endpoint.encodedFrames oneConnection.evp,
        Client.responses (n.clients ()).endpoint.log, (n.servers ()).encodedFrames oneConnection.evp,
        (n.servers ()).conn.aesKey)) =
      some ([Client.confirmation7], [Server.request7], [Server.request7], [Client.confirmation7],
        List.replicate 32 5) := by
    decide +kernel
  obtain ⟨n, hn, hresult⟩ := Option.map_eq_some_iff.mp hrun
  simp only [Prod.mk.injEq] at hresult
  obtain ⟨hrequests, hclient, hresponses, hserver, hkey⟩ := hresult
  have hreach : Reachable (network oneConnection) n :=
    Reachable.execute (fun _ _ _ _ => Network.next_step) (.init (opening_init oneConnection)) hn
  refine ⟨n, hreach, .inr hkey, ?_⟩
  rw [hrequests, hclient, hresponses, hserver]
  exact ⟨⟨Client.confirmation7, by decide, by decide⟩, Server.request7, by decide, by decide⟩

end Fmxp
