import Fmxp.Client.Numbering
import Fmxp.Server.Isolation
import Fmxp.Server.Waiting
import Fmxp.Session.Origin

/-! The numbers on the frames of a session.

Both endpoints assign the fid when a frame is sent and the session id when it is built. In between
a connection may draw its session id, and a frame that was built before is sent, encrypted, with
session id 0 (`pushed_early`); the peer takes it for a replay. In every run in which no frame waits
at that moment, what each endpoint writes carries its session id and increasing fids. -/
namespace Fmxp
open Transition

/-- **Frame numbering on the wire**, in every run in which no frame waits with another session id
when its endpoint draws or takes one, and until the counter has gone round: everything an endpoint
encodes for its socket carries its session id, and a fid above all before. -/
theorem wire_numbered (server : Server.LoopEnv) (client : Client.Env) :
    (∀ s, Reachable ((Server.epollLoop server).under (Server.SsidsCurrent server)) s →
      s.Each fun c conn => (Server.written conn.log).length + 1 < 2 ^ 32 →
        Numbered (server.conn c).evp conn.conn.ssid (Server.written conn.log)) ∧
    ∀ q, Reachable ((Client.submitting client).under (Client.SsidsCurrent client)) q →
      (Client.ledger q.process.endpoint.log).length < 2 ^ 32 →
        Numbered client.evp q.process.endpoint.conn.ssid (Client.ledger q.process.endpoint.log) := by
  refine ⟨fun s h => ?_, fun q h hfew => ?_⟩
  · have hlives := Server.reachable_ownSsid h
    have hnumbered : ∀ c conn, Reachable ((Server.lifecycle (server.conn c)).under Server.OwnSsid) conn →
        (Server.written conn.log).length + 1 < 2 ^ 32 →
          Numbered (server.conn c).evp conn.conn.ssid (Server.written conn.log) := by
      intro c conn hlife hfew
      obtain ⟨frames, hcarries, hssid, hfresh, _⟩ := (Server.reachable_numbering hlife).2.numbered hfew
      exact ⟨frames, hcarries, hssid, hfresh⟩
    refine ⟨fun c conn hconn => hnumbered c conn (hlives.registered c conn hconn), fun conn hconn => ?_⟩
    obtain ⟨c, hlife⟩ := hlives.deleted conn hconn
    exact ⟨c, hnumbered c conn hlife⟩
  · obtain ⟨frames, hcarries, hssid, hfresh, _⟩ := (Client.reachable_numbering h).counted hfew
    exact ⟨frames, hcarries, hssid, hfresh⟩

/-- What numbered entries decode to has the session id. -/
theorem Numbered.ssid {evp : Evp} {ssid : UInt64} {entries : List (Bytes × Bytes)} (h : Numbered evp ssid entries)
    {f : Frame} (hf : f ∈ decodedFrames evp entries) : f.ssid = ssid := by
  obtain ⟨frames, hcarries, hown, -⟩ := h
  obtain ⟨key, raw, hmem, hdec⟩ := mem_decodedFrames.mp hf
  clear hf
  induction hcarries with
  | nil => cases hmem
  | @cons e g entries frames he _ ih =>
    rcases List.mem_cons.mp hmem with rfl | hmem
    · exact (he.decoded hdec).2.2.trans (hown g (List.mem_cons_self ..))
    · exact ih (fun f hf => hown f (List.mem_cons_of_mem g hf)) hmem

/-- The server answers a request, after it has confirmed the handshake; a client makes the request. -/
theorem answer_numbered :
    (∃ (s : Server.Loop) (conn : Server.Endpoint), s.connections.lookup 1 = some conn ∧
      (Server.written conn.log).length = 2 ∧ Numbered Evp.transparent conn.conn.ssid (Server.written conn.log)) ∧
    ∃ q : Client.Submitting, (Client.ledger q.process.endpoint.log).length = 1 ∧
      Numbered Evp.transparent q.process.endpoint.conn.ssid (Client.ledger q.process.endpoint.log) := by
  constructor
  · have hrun : (execute (guarded (Server.SsidsCurrent Server.listening3)
        fun s event => s.perform Server.listening3 3 event)
        (Server.respondRun ++ [.wait [⟨4, false, true, 0⟩], .event (.once []) 102, .command]) {}).map (fun s =>
          (s.connections.lookup 1).map fun conn => (Server.written conn.log).length) = some (some 2) := by
      decide +kernel
    obtain ⟨s, hs, hresult⟩ := Option.map_eq_some_iff.mp hrun
    obtain ⟨conn, hconn, hlen⟩ := Option.map_eq_some_iff.mp hresult
    have hreach : Reachable ((Server.epollLoop Server.listening3).under (Server.SsidsCurrent Server.listening3)) s :=
      Reachable.execute (fun _ _ _ _ => guarded_step fun _ _ h => ⟨3, h⟩) (.init ⟨0, rfl⟩) hs
    exact ⟨s, conn, hconn, hlen,
      ((wire_numbered Server.listening3 Client.quietEnv).1 s hreach).registered 1 conn hconn (by rw [hlen]; decide)⟩
  · have hrun : (execute
        (guarded (Client.SsidsCurrent Client.quietEnv) fun q event => q.perform Client.quietEnv event)
        Client.requestRun ⟨Client.connected3, [], []⟩).map (fun q => (Client.ledger q.process.endpoint.log).length) =
          some 1 := by
      decide +kernel
    obtain ⟨q, hq, hlen⟩ := Option.map_eq_some_iff.mp hrun
    have hnext : ∀ event (q r : Client.Submitting), q.perform Client.quietEnv event = some r →
        (Client.submitting Client.quietEnv).step q event r := fun _ _ _ h => h
    have hreach : Reachable ((Client.submitting Client.quietEnv).under (Client.SsidsCurrent Client.quietEnv)) q :=
      Reachable.execute (fun event _ _ _ => guarded_step (hnext event)) (.init ⟨Client.connected3_fresh, rfl, rfl⟩) hq
    exact ⟨q, hlen, (wire_numbered Server.listening3 Client.quietEnv).2 q hreach (by rw [hlen]; decide)⟩

/-- **A push and a request that are built during the handshake are sent with session id 0**, after the
server has drawn 7 and the client has taken it. -/
theorem pushed_early :
    (∃ s conn, Reachable (Server.epollLoop Server.listening3) s ∧ s.connections.lookup 1 = some conn ∧
      conn.conn.state = .active ∧ (Server.written conn.log).length = 2 ∧
      ¬ Numbered Evp.transparent conn.conn.ssid (Server.written conn.log)) ∧
    ∃ q, Reachable (Client.submitting Client.quietEnv) q ∧ q.process.endpoint.conn.state = .connected ∧
      (Client.ledger q.process.endpoint.log).length = 1 ∧
      ¬ Numbered Evp.transparent q.process.endpoint.conn.ssid (Client.ledger q.process.endpoint.log) := by
  constructor
  · have hrun : (execute (fun (s : Server.Loop) event => s.perform Server.listening3 3 event)
        [.wait [⟨3, false, true, 0⟩], .event (.once []) 100, .accept 5, .accepted, .serverPush 1 [] [9] STATUS_OK,
          .wait [⟨5, false, true, 1⟩], .event (.once (Server.handshakeRaw 100)) 100,
          .push ⟨.send, 1, some ⟨0, 0, 0, STATUS_OK, 0, [], [9]⟩⟩, .wait [⟨4, false, true, 0⟩],
          .event (.once []) 101, .command] {}).map (fun s => (s.connections.lookup 1).map fun conn =>
            (conn.conn.state, (Server.written conn.log).length, conn.conn.ssid,
              (decodedFrames Evp.transparent (Server.written conn.log)).map Frame.ssid)) =
          some (some (.active, 2, 7, [7, 0])) := by
      decide +kernel
    obtain ⟨s, hs, hresult⟩ := Option.map_eq_some_iff.mp hrun
    obtain ⟨conn, hconn, hconn'⟩ := Option.map_eq_some_iff.mp hresult
    simp only [Prod.mk.injEq] at hconn'
    obtain ⟨hstate, hlen, hssid, hdecoded⟩ := hconn'
    refine ⟨s, conn, Reachable.execute (fun _ _ _ _ h => ⟨3, h⟩) (.init ⟨0, rfl⟩) hs, hconn, hstate, hlen, ?_⟩
    intro hnumbered
    obtain ⟨f, hf, hzero⟩ : ∃ f ∈ decodedFrames Evp.transparent (Server.written conn.log), f.ssid = 0 := by
      refine List.mem_map.mp ?_
      rw [hdecoded]
      decide
    have hown := hnumbered.ssid hf
    rw [hzero, hssid] at hown
    cases hown
  · have hrun : (execute (fun (q : Client.Submitting) event => q.perform Client.quietEnv event)
        [.step (.start 100), .build (ascii ['/', 'p']) [1, 2],
          .push ⟨.send, some ⟨0, 2, 0, STATUS_REQ, 0, ascii ['/', 'p'], [1, 2]⟩⟩,
          .step (.readable (.once Client.confirmationRaw)), .step .command] ⟨Client.connected3, [], []⟩).map (fun q =>
            (q.process.endpoint.conn.state, (Client.ledger q.process.endpoint.log).length,
              q.process.endpoint.conn.ssid,
              (decodedFrames Evp.transparent (Client.ledger q.process.endpoint.log)).map Frame.ssid)) =
          some (.connected, 1, 7, [0]) := by
      decide +kernel
    obtain ⟨q, hq, hresult⟩ := Option.map_eq_some_iff.mp hrun
    simp only [Prod.mk.injEq] at hresult
    obtain ⟨hstate, hlen, hssid, hdecoded⟩ := hresult
    refine ⟨q, Reachable.execute (fun _ _ _ _ h => h) (.init ⟨Client.connected3_fresh, rfl, rfl⟩) hq,
      hstate, hlen, ?_⟩
    intro hnumbered
    obtain ⟨f, hf, hzero⟩ : ∃ f ∈ decodedFrames Evp.transparent (Client.ledger q.process.endpoint.log),
        f.ssid = 0 := by
      refine List.mem_map.mp ?_
      rw [hdecoded]
      decide
    have hown := hnumbered.ssid hf
    rw [hzero, hssid] at hown
    cases hown

end Fmxp
