import Fmxp.Session.Network

/-! Requests over all connections of a server.

Every request stands for one delivery: a raw frame that opened under the key of the connection
(`Attributed`). A connection's requests have increasing fids, so it takes no frame twice; the
session ids tell the connections apart, so no two of them take the same frame, not even two
that a replayed handshake has given the same key (`delivered_once`). -/
namespace Fmxp
open Transition

section
variable {ι κ : Type} [DecidableEq κ] {env : NetworkEnv ι κ} {n : Network ι κ}

/-- What was handed over on connection `j`. -/
def Network.deliveredOn (n : Network ι κ) (j : κ) : List (Delivery κ) := n.delivered.filter fun d => d.conn = j

/-- The deliveries account for the requests, and each opened under the key of its connection. -/
structure Attributed (env : NetworkEnv ι κ) (n : Network ι κ) : Prop where
  requests : ∀ j, Server.requests (n.servers j).log = (n.deliveredOn j).map Delivery.frame
  decoded : ∀ d ∈ n.delivered, d.key = (n.servers d.conn).conn.aesKey ∧
    decodeFrame env.evp d.raw true d.key = .ok d.frame
  oneKey : n.OneKey

theorem mem_deliveredOn {d : Delivery κ} (hd : d ∈ n.delivered) : d ∈ n.deliveredOn d.conn :=
  List.mem_filter.mpr ⟨hd, decide_eq_true rfl⟩

/-- A delivery is a request of its connection. -/
theorem Attributed.mem_requests (hn : Attributed env n) {d : Delivery κ} (hd : d ∈ n.delivered) :
    d.frame ∈ Server.requests (n.servers d.conn).log := by
  rw [hn.requests]
  exact List.mem_map_of_mem (mem_deliveredOn hd)

variable [DecidableEq ι]

theorem reachable_attributed (h : Reachable (network env) n) : Attributed env n := by
  induction h with
  | @init n hinit =>
    obtain ⟨_, hservers, hnone⟩ := hinit
    refine ⟨fun j => ?_, fun d hd => ?_, fun d hd => ?_⟩
    · obtain ⟨fd, connId, maxFrameSize, rsaPrivKey, _, hj⟩ := hservers j
      simp only [Network.deliveredOn, hj, hnone]
      rfl
    · rw [hnone] at hd
      cases hd
    · rw [hnone] at hd
      cases hd
  | @step n q event hn hstep ih =>
    obtain ⟨⟨depth, hperform⟩, _, hone⟩ := hstep
    cases event with
    | client i event =>
      obtain ⟨p, _, rfl⟩ := Option.map_eq_some_iff.mp hperform
      exact ⟨ih.requests, ih.decoded, hone⟩
    | server j call =>
      obtain ⟨t, ht, rfl⟩ := Option.map_eq_some_iff.mp hperform
      have hj := (network_parties hn).2 j
      have hwf := Server.reachable_wellFormed hj
      have heffect := Server.perform_effect hwf ht
      obtain ⟨hmore, hnew⟩ := deliveries_decoded (env.server_evp j) hwf ht j
      refine ⟨fun j' => ?_, fun d hd => ?_, hone⟩
      · by_cases heq : j' = j
        · subst heq
          have hown : (deliveries j' call (n.servers j') t).filter (fun d => d.conn = j') =
              deliveries j' call (n.servers j') t :=
            List.filter_eq_self.mpr fun d hd => decide_eq_true (hnew d hd).1
          simp only [Network.deliveredOn, Function.update_self, List.filter_append, hown, List.map_append]
          rw [hmore, ih.requests]
          rfl
        · have hother : (deliveries j call (n.servers j) t).filter (fun d => d.conn = j') = [] :=
            List.filter_eq_nil_iff.mpr fun d hd hc => heq ((of_decide_eq_true hc).symm.trans (hnew d hd).1)
          simp only [Network.deliveredOn, Function.update_of_ne heq, List.filter_append, hother, List.append_nil]
          exact ih.requests j'
      · rcases List.mem_append.mp hd with hd | hd
        · obtain ⟨hkey, hdec⟩ := ih.decoded d hd
          refine ⟨?_, hdec⟩
          by_cases heq : d.conn = j
          · -- A connection with a request has left the handshake, so it keeps its key.
            have hleft : (n.servers j).conn.state ≠ .handshake :=
              (Server.reachable_serving hj).left (heq ▸ ih.mem_requests hd)
            simp only [heq, Function.update_self]
            rw [heffect.aesKey hleft, hkey, heq]
          · simp only [Function.update_of_ne heq]
            exact hkey
        · obtain ⟨hconn, hkey, hactive, hdec⟩ := hnew d hd
          have hleft : (n.servers j).conn.state ≠ .handshake := by
            rw [hactive]
            decide
          refine ⟨?_, hdec⟩
          simp only [hconn, Function.update_self]
          rw [heffect.aesKey hleft, hkey]

/-- A delivered frame carries the id its connection drew. -/
theorem delivered_ssid (h : Reachable (network env) n) {d : Delivery κ} (hd : d ∈ n.delivered) :
    d.frame.ssid = (n.servers d.conn).conn.ssid ∧ d.frame.ssid = (env.server d.conn).rand64 := by
  have hserving := Server.reachable_serving ((network_parties h).2 d.conn)
  have hmem := (reachable_attributed h).mem_requests hd
  have hssid := hserving.ssid d.frame hmem
  exact ⟨hssid, hssid.trans (hserving.drawn fun hnil => by rw [hnil] at hmem; cases hmem)⟩

/-- **Over all connections, no encoded frame is delivered twice.** -/
theorem delivered_once (hrand : Function.Injective fun j => (env.server j).rand64) (h : Reachable (network env) n)
    {key raw : Bytes} (hkey : ∀ d ∈ n.delivered, d.raw = raw → d.key = key) :
    (n.delivered.filter fun d => d.raw = raw).length ≤ 1 := by
  have hn := reachable_attributed h
  -- They all have one frame, so one session id, so one connection.
  have hsame : ∀ d ∈ n.delivered, ∀ e ∈ n.delivered, d.raw = raw → e.raw = raw →
      d.frame = e.frame ∧ d.conn = e.conn := by
    intro d hd e he hdraw heraw
    have hdecd := (hn.decoded d hd).2
    have hdece := (hn.decoded e he).2
    rw [hdraw, hkey d hd hdraw] at hdecd
    rw [heraw, hkey e he heraw, hdecd] at hdece
    have hframe : d.frame = e.frame := Except.ok.inj hdece
    refine ⟨hframe, hrand ?_⟩
    show (env.server d.conn).rand64 = (env.server e.conn).rand64
    rw [← (delivered_ssid h hd).2, ← (delivered_ssid h he).2, hframe]
  cases hcopies : n.delivered.filter fun d => d.raw = raw with
  | nil => exact Nat.zero_le _
  | cons d ds =>
    have hcopy : ∀ e ∈ d :: ds, e ∈ n.delivered ∧ e.raw = raw := by
      intro e he
      rw [← hcopies] at he
      exact ⟨(List.mem_filter.mp he).1, of_decide_eq_true (List.mem_filter.mp he).2⟩
    obtain ⟨hd, hraw⟩ := hcopy d (List.mem_cons_self ..)
    -- On that connection the fids increase, so the frame came up once.
    have hsub : ((d :: ds).map Delivery.frame).Sublist (Server.requests (n.servers d.conn).log) := by
      have hfilter : (d :: ds).filter (fun e => e.conn = d.conn) = d :: ds :=
        List.filter_eq_self.mpr fun e he =>
          decide_eq_true (hsame e (hcopy e he).1 d hd (hcopy e he).2 hraw).2
      rw [hn.requests, ← hfilter, ← hcopies]
      exact ((List.filter_sublist (l := n.delivered)).filter _).map _
    have hnodup := hsub.nodup (Counter.Increasing.nodup
      (Server.reachable_serving ((network_parties h).2 d.conn)).fresh)
    cases ds with
    | nil => exact Nat.le_refl _
    | cons e ds =>
      obtain ⟨he, heraw⟩ := hcopy e (List.mem_cons_of_mem _ (List.mem_cons_self ..))
      rw [List.map_cons, List.map_cons, (hsame d hd e he hraw heraw).1] at hnodup
      exact absurd (List.mem_cons_self ..) (List.nodup_cons.mp hnodup).1

/-- **Server-side replay and cross-session protection**, in every run of any number of clients
and connections: a connection hands over requests after an accepted handshake alone, each from a
frame that opens under its stored key and carries its session id, with increasing fids; and a
frame that a client has encoded is delivered at most once over all connections together. -/
theorem requests_protected (hrand : Function.Injective fun j => (env.server j).rand64)
    (h : Reachable (network env) n) :
    (∀ j, Server.Precedes (.secured (n.servers j).conn.aesKey (n.servers j).conn.ssid) (n.servers j).log ∧
      Server.requests (n.servers j).log = (n.deliveredOn j).map Delivery.frame ∧
      (Server.requests (n.servers j).log).Pairwise fun f g => f.fid < g.fid) ∧
    (∀ d ∈ n.delivered, d.key = (n.servers d.conn).conn.aesKey ∧
      decodeFrame env.evp d.raw true d.key = .ok d.frame ∧ d.frame.ssid = (n.servers d.conn).conn.ssid) ∧
    ∀ i, ∀ e ∈ Client.ledger (n.clients i).endpoint.log,
      (n.delivered.filter fun d => d.raw = e.2).length ≤ 1 := by
  have hn := reachable_attributed h
  refine ⟨fun j => ?_, fun d hd => ?_, fun i e he => ?_⟩
  · have hserving := Server.reachable_serving ((network_parties h).2 j)
    exact ⟨hserving.precedes, hn.requests j, Counter.Increasing.pairwise hserving.fresh⟩
  · obtain ⟨hkey, hdec⟩ := hn.decoded d hd
    exact ⟨hkey, hdec, (delivered_ssid h hd).1⟩
  · exact delivered_once hrand h fun d hd hraw => ((hn.oneKey d hd).1 i e he hraw.symm).symm

end

/-- A session on one connection, of which the handshake and the request are replayed on another. -/
def splicedRun : List (NetworkEvent Unit Bool) :=
  [.client () (.start 100), .server false (.readFd (.once (Server.handshakeRaw 100)) 100),
    .server true (.readFd (.once (Server.handshakeRaw 100)) 100),
      .client () (.readable (.once Client.confirmationRaw)),
    .client () (.sendReq (ascii ['/', 'p']) [1, 2]), .client () .command,
    .server false (.readFd (.once Server.requestRaw) 101), .server true (.readFd (.once Server.requestRaw) 101)]

/-- Both connections have the client's key; the request is delivered on the one it was made for. -/
theorem spliced_once :
    ∃ n : Network Unit Bool, n.delivered.map Delivery.frame = [Server.request7] ∧
      (∀ j, (n.servers j).conn.aesKey = List.replicate 32 5) ∧
      (∀ j, (Server.requests (n.servers j).log).Pairwise fun f g => f.fid < g.fid) ∧
      ∀ e ∈ Client.ledger (n.clients ()).endpoint.log, (n.delivered.filter fun d => d.raw = e.2).length ≤ 1 := by
  have hrun : (execute (Network.next twoConnections) splicedRun opening).map (fun n =>
      (n.delivered.map Delivery.frame, (n.servers true).conn.aesKey, (n.servers false).conn.aesKey)) =
        some ([Server.request7], List.replicate 32 5, List.replicate 32 5) := by
    decide +kernel
  obtain ⟨n, hn, hresult⟩ := Option.map_eq_some_iff.mp hrun
  obtain ⟨hdelivered, hkeys⟩ := Prod.mk.inj hresult
  obtain ⟨htrue, hfalse⟩ := Prod.mk.inj hkeys
  have hreach : Reachable (network twoConnections) n :=
    Reachable.execute (fun _ _ _ _ => Network.next_step) (.init (opening_init twoConnections)) hn
  have hrand : Function.Injective fun j => (twoConnections.server j).rand64 := by decide
  obtain ⟨hconns, _, honce⟩ := requests_protected hrand hreach
  refine ⟨n, hdelivered, fun j => ?_, fun j => (hconns j).2.2, honce ()⟩
  cases j
  · exact hfalse
  · exact htrue

end Fmxp
