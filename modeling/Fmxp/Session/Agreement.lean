import Fmxp.Client.Numbering
import Fmxp.Server.Waiting
import Fmxp.Session.Network

/-! Client and server agree on the session.

A client takes its session id from the first frame that opens under its key and says that the
connection is secured. The adversary may have replayed the client's handshake payload, so several
server connections can hold that key, each with an id of its own. But whatever one of them encodes
carries the id it has drawn, provided that no push is aimed at a connection that is not active, and
the client itself has encoded nothing yet. So the id a client takes is that of a connection that
has stored its key (`session_agreement`). -/
namespace Fmxp
open Transition

/-! ### A client by itself -/

namespace Client
variable {env : Env} {event : Event} {p q : Process}

/-- A step is one of those of a client whose calls can be interrupted, or a whole call of `sendReq`. -/
theorem perform_cases (hp : WellFormed env p) (h : perform env event p = some q) :
    (∃ path data, q = {p with endpoint := (sendReq path data p.endpoint).2}) ∨
      Progress env (.step event) ⟨p, [], []⟩ ⟨q, [], []⟩ := by
  by_cases hsend : ∃ path data, event = .sendReq path data
  · obtain ⟨path, data, rfl⟩ := hsend
    cases (perform_performs h).2
    exact .inl ⟨path, data, rfl⟩
  · exact .inr (step_progress (q := ⟨p, [], []⟩) hp.live (fun path data heq => hsend ⟨path, data, heq⟩) h).2

theorem sendReq_same (path data : Bytes) (s : Endpoint) : (sendReq path data s).2.log = s.log ∧
    (sendReq path data s).2.conn.state = s.conn.state ∧ (sendReq path data s).2.conn.ssid = s.conn.ssid := by
  unfold sendReq
  split <;> exact ⟨rfl, rfl, rfl⟩

/-- During the handshake nothing has been encoded. -/
theorem perform_opening (hp : WellFormed env p) (h : perform env event p = some q)
    (hopening : p.endpoint.conn.state = .handshake → ledger p.endpoint.log = [])
    (hq : q.endpoint.conn.state = .handshake) : ledger q.endpoint.log = [] := by
  have hsame : p.endpoint.conn.state = .handshake ∧ ledger q.endpoint.log = ledger p.endpoint.log := by
    rcases perform_cases hp h with ⟨path, data, rfl⟩ | hprogress
    · obtain ⟨hlog, hstate, _⟩ := sendReq_same path data p.endpoint
      exact ⟨hstate.symm.trans hq, congrArg ledger hlog⟩
    have hstill : ∀ {s : Endpoint}, Still s q.endpoint →
        s.conn.state = .handshake ∧ ledger q.endpoint.log = ledger s.log := by
      intro s hstill
      exact ⟨(hstill.open_ (by rw [hq]; decide)).1.symm.trans hq, hstill.ledger⟩
    cases hprogress with
    | still hkept => exact hstill hkept
    | confirmed input frame _ _ _ _ hkept => cases (hstill hkept).1
    | started now _ _ hr =>
      have hend : q.endpoint = (doHandshake env now p.endpoint).2 := by
        rw [show q = _ from congrArg Submitting.process hr, (after_same ..).1]
      rw [hend] at hq ⊢
      rcases doHandshake_cases env now p.endpoint with ⟨e, he⟩ | ⟨frame, _, heq⟩
      · rw [he] at hq ⊢
        exact ⟨hq, rfl⟩
      · rw [heq] at hq ⊢
        exact (handleCommand_waits ..).2 hq
    | command cmd rest _ _ _ hr =>
      have hend : q.endpoint = (handleCommand env cmd
          (p.endpoint.modify fun c => {c with commandQueue := rest})).2 := by
        rw [show q = _ from congrArg Submitting.process hr, (after_same ..).1]
      rw [hend] at hq ⊢
      exact (handleCommand_waits ..).2 hq
    | built frame hkept => exact hstill hkept
    | pushed cmd hmem => cases hmem
  rw [hsame.2]
  exact hopening hsame.1

theorem Keeps.keyed {s t : Endpoint} {key : Bytes} (h : Keeps s t) (hs : ∀ e ∈ ledger s.log, e.1 = key)
    (hkey : s.conn.aesKey = key) : ∀ e ∈ ledger t.log, e.1 = key := by
  intro e he
  obtain ⟨outs, hlog, hquiet⟩ := h.log
  rw [hlog, ledger_append] at he
  rcases List.mem_append.mp he with he | he
  · exact hs e he
  · obtain ⟨o, ho, henc⟩ := List.mem_filterMap.mp he
    cases o with
    | encoded key' raw =>
      cases henc
      exact ((hquiet _ ho).2 key' raw rfl).trans hkey
    | _ => cases henc

/-- What a client encodes is encoded under its own key. -/
theorem perform_keyed (hp : WellFormed env p) (h : perform env event p = some q)
    (hkeyed : ∀ e ∈ ledger p.endpoint.log, e.1 = env.key.val) : ∀ e ∈ ledger q.endpoint.log, e.1 = env.key.val := by
  rcases perform_cases hp h with ⟨path, data, rfl⟩ | hprogress
  · rw [(sendReq_same path data p.endpoint).1]
    exact hkeyed
  cases hprogress with
  | still hkept => exact hkept.ledger ▸ hkeyed
  | confirmed input frame _ _ _ _ hkept =>
    have hsame : ledger (p.endpoint.confirm (some frame)).log = ledger p.endpoint.log :=
      (ledger_append ..).trans (List.append_nil _)
    rw [hkept.ledger]
    exact hsame ▸ hkeyed
  | started now _ _ hr =>
    rw [show q = _ from congrArg Submitting.process hr, (after_same ..).1]
    exact (doHandshake_keeps env now p.endpoint).keyed hkeyed rfl
  | command cmd rest _ _ hidle hr =>
    rw [show q = _ from congrArg Submitting.process hr, (after_same ..).1]
    exact (handleCommand_keeps ..).keyed hkeyed (hp.key (Process.looping_of_idle hidle))
  | built frame hkept => exact hkept.ledger ▸ hkeyed
  | pushed cmd hmem => cases hmem

/-- A client is connected because it was, with the same session id, or because a read has found the
confirmation. -/
theorem perform_connected (hp : WellFormed env p) (h : perform env event p = some q)
    (hq : q.endpoint.conn.state = .connected) :
    (p.endpoint.conn.state = .connected ∧ q.endpoint.conn.ssid = p.endpoint.conn.ssid ∧
      (p.looping = true → q.looping = true)) ∨
      ∃ input frame, event = .readable input ∧ p.looping = true ∧ q.looping = true ∧
        (p.endpoint.conn.parsed env.evp
          (p.endpoint.conn.frameBuffer ++ (heard input p.endpoint).bytes)).confirmation =
          some frame ∧ q.endpoint.conn.ssid = frame.ssid := by
  have hkeeps : ∀ {s}, Keeps s q.endpoint →
      s.conn.state = .connected ∧ q.endpoint.conn.ssid = s.conn.ssid := by
    intro s hkeeps
    have hstatus := hkeeps.status.resolve_right (by rw [hq]; decide)
    exact ⟨(congrArg (·.1) hstatus).symm.trans hq, hkeeps.ssid⟩
  rcases perform_cases hp h with ⟨path, data, rfl⟩ | hprogress
  · obtain ⟨_, hstate, hssid⟩ := sendReq_same path data p.endpoint
    exact .inl ⟨hstate.symm.trans hq, hssid, id⟩
  cases hprogress with
  | still hkept hloop =>
    exact .inl ⟨(hkept.open_ (by rw [hq]; decide)).1.symm.trans hq, hkept.ssid, hloop.trans⟩
  | confirmed input frame hevent hlooping _ hconf hkept hloop =>
    cases hevent
    exact .inr ⟨input, frame, rfl, hlooping, hloop.trans hlooping, hconf, hkept.ssid⟩
  | started now _ _ hr =>
    have hnext : q = {p with looping := true}.after (doHandshake env now p.endpoint) fun _ p => p :=
      congrArg Submitting.process hr
    obtain ⟨hend, hloop, _⟩ := after_same {p with looping := true} (doHandshake env now p.endpoint)
    rw [← hnext] at hend hloop
    obtain ⟨hstate, hssid⟩ := hkeeps (hend ▸ doHandshake_keeps env now p.endpoint)
    exact .inl ⟨hstate, hssid, fun _ => hloop⟩
  | command cmd rest _ _ _ hr =>
    have hnext : q = p.after (handleCommand env cmd (p.endpoint.modify fun c => {c with commandQueue := rest}))
        fun _ p => p := congrArg Submitting.process hr
    obtain ⟨hend, hloop, _⟩ := after_same p (handleCommand env cmd
      (p.endpoint.modify fun c => {c with commandQueue := rest}))
    rw [← hnext] at hend hloop
    obtain ⟨hstate, hssid⟩ := hkeeps (hend ▸ handleCommand_keeps env cmd _)
    exact .inl ⟨hstate, hssid, hloop.trans⟩
  | built frame hkept hloop =>
    exact .inl ⟨(hkept.open_ (by rw [hq]; decide)).1.symm.trans hq, hkept.ssid, hloop.trans⟩
  | pushed cmd hmem => cases hmem

/-- A confirmation comes from a raw frame of the buffer. -/
theorem confirmation_raw {evp : Evp} {c : Connection} {b : Bytes} {f : Frame}
    (h : (c.parsed evp b).confirmation = some f) :
    ∃ raw ∈ rawFrames c.maxFrameSize b, decodeFrame evp raw true c.aesKey = .ok f := by
  unfold Connection.parsed at h
  split at h
  · split at h
    · cases h
    · cases h
    · next frame rest hnext =>
      split at h
      · cases h
        obtain ⟨raw, hraws, hdec⟩ := frameFramer_item hnext
        exact ⟨raw, hraws ▸ List.mem_cons_self .., hdec⟩
      · cases h
  · cases h

end Client

/-! ### The network and the frames its workers build -/

/-- A network, and for each connection the frames that have been built for it. -/
structure Deployment (ι κ : Type) where
  network : Network ι κ
  built : κ → List Frame := fun _ => []

inductive DeploymentEvent (ι κ : Type) where
  | network (event : NetworkEvent ι κ)
  | respond (j : κ) (request : Frame) (data : Bytes) (status : UInt8)
  | serverPush (j : κ) (path data : Bytes) (status : UInt8)
  deriving DecidableEq, Repr

section
variable {ι κ : Type} [DecidableEq ι] [DecidableEq κ]

def Deployment.build (j : κ) (path data : Bytes) (status : UInt8) (rid : UInt32) (d : Deployment ι κ) :
    Deployment ι κ :=
  let frame := (d.network.servers j).conn.makeRespFrame path data status 0 rid
  {d with built := Function.update d.built j (d.built j ++ [frame])}

/-- A connection sends what has been built for it, any number of times and in any order. -/
def Deployment.perform (env : NetworkEnv ι κ) (depth : Nat) (event : DeploymentEvent ι κ) (d : Deployment ι κ) :
    Option (Deployment ι κ) :=
  match event with
  | .network (.server j (.sendFrame frame)) =>
    if frame ∈ d.built j then
      (d.network.perform env depth (.server j (.sendFrame frame))).map fun n => {d with network := n}
    else none
  | .network event => (d.network.perform env depth event).map fun n => {d with network := n}
  | .respond j request data status =>
    if request ∈ Server.requests (d.network.servers j).log then
      some (d.build j request.path data status request.rid)
    else none
  | .serverPush j path data status => some (d.build j path data status 0)

/-- The cipher binds the reads. -/
def Deployment.Authentic (env : NetworkEnv ι κ) (d : Deployment ι κ) : DeploymentEvent ι κ → Prop
  | .network event => Fmxp.Authentic env d.network event
  | _ => True

def deployment (env : NetworkEnv ι κ) : System (Deployment ι κ) (DeploymentEvent ι κ) where
  init := fun d => (∀ i, (d.network.clients i).Fresh) ∧ (∀ j, (d.network.servers j).Fresh) ∧ ∀ j, d.built j = []
  step := fun d event e => (∃ depth, d.perform env depth event = some e) ∧ d.Authentic env event

/-- Pushes are aimed at active connections. -/
def PushesActive (d : Deployment ι κ) : DeploymentEvent ι κ → Prop
  | .serverPush j .. => (d.network.servers j).conn.state = .active
  | _ => True

/-! ### What holds in every run -/

/-- Clients and connections encode under their own keys, connections with their own session ids, and
what a connected client has taken is held by a connection. -/
structure Agreement (env : NetworkEnv ι κ) (d : Deployment ι κ) : Prop where
  lives : d.network.Lives env
  isSealed : ∀ j, Server.Sealed (env.server j) (d.network.servers j)
  built : ∀ j, ∀ f ∈ d.built j,
    (d.network.servers j).conn.state ≠ .handshake ∧ f.ssid = (d.network.servers j).conn.ssid
  keyed : ∀ i, ∀ e ∈ Client.ledger (d.network.clients i).endpoint.log, e.1 = (env.client i).key.val
  opening : ∀ i, (d.network.clients i).endpoint.conn.state = .handshake →
    Client.ledger (d.network.clients i).endpoint.log = []
  agreed : ∀ i, (d.network.clients i).endpoint.conn.state = .connected → (d.network.clients i).looping = true ∧
    ∃ j, (d.network.servers j).conn.aesKey = (env.client i).key.val ∧
      (d.network.servers j).conn.ssid = (d.network.clients i).endpoint.conn.ssid

variable {env : NetworkEnv ι κ} {d : Deployment ι κ}

theorem agreement_init (h : (deployment env).init d) : Agreement env d := by
  obtain ⟨hclients, hservers, hbuilt⟩ := h
  have hclient : ∀ i, (d.network.clients i).endpoint.conn.state = .handshake ∧
      Client.ledger (d.network.clients i).endpoint.log = [] := by
    intro i
    obtain ⟨pubKey, maxFrameSize, socket, epollFd, cmdEvFd, _, heq⟩ := hclients i
    rw [heq]
    exact ⟨rfl, rfl⟩
  refine ⟨⟨fun i => .init (hclients i), fun j => .init (hservers j)⟩, fun j => ?_, fun j f hf => ?_, fun i e he => ?_,
    fun i _ => (hclient i).2, fun i hconnected => ?_⟩
  · obtain ⟨fd, connId, maxFrameSize, rsaPrivKey, _, heq⟩ := hservers j
    rw [heq]
    intro e he
    cases he
  · rw [hbuilt j] at hf
    cases hf
  · rw [(hclient i).2] at he
    cases he
  · cases (hclient i).1.symm.trans hconnected

omit [DecidableEq ι] in
theorem Agreement.build (hd : Agreement env d) {j : κ} (hleft : (d.network.servers j).conn.state ≠ .handshake)
    (path data : Bytes) (status : UInt8) (rid : UInt32) : Agreement env (d.build j path data status rid) := by
  refine ⟨hd.lives, hd.isSealed, ?_, hd.keyed, hd.opening, hd.agreed⟩
  refine (Function.forall_update_iff d.built fun j frames => ∀ f ∈ frames,
    (d.network.servers j).conn.state ≠ .handshake ∧ f.ssid = (d.network.servers j).conn.ssid).mpr ⟨?_, ?_⟩
  · intro f hf
    rcases List.mem_append.mp hf with hf | hf
    · exact hd.built j f hf
    · rw [List.mem_singleton.mp hf]
      exact ⟨hleft, rfl⟩
  · exact fun j' _ => hd.built j'

omit [DecidableEq ι] [DecidableEq κ] in
/-- The connection that has encoded the confirmation holds the key and the session id. -/
theorem Agreement.confirmed (hd : Agreement env d)
    (hfresh : ∀ i i', (env.client i).key = (env.client i').key → i = i')
    {i : ι} {input : Recv} {f : Frame} (hlooping : (d.network.clients i).looping = true)
    (hauthentic : Authentic env d.network (.client i (.readable input)))
    (hconf : ((d.network.clients i).endpoint.conn.parsed env.evp ((d.network.clients i).endpoint.conn.frameBuffer ++
      (Client.heard input (d.network.clients i).endpoint).bytes)).confirmation = some f) :
    ∃ j, (d.network.servers j).conn.aesKey = (env.client i).key.val ∧ (d.network.servers j).conn.ssid = f.ssid := by
  have hkey := (Client.reachable_wellFormed (hd.lives.1 i)).key hlooping
  obtain ⟨raw, hraw, hdec⟩ := Client.confirmation_raw hconf
  rcases hauthentic raw hraw (opens_of_decodeFrame hdec) ⟨i, hkey⟩ with ⟨i', hmem⟩ | ⟨j, hmem⟩
  · -- No client has this key but this one, which has encoded nothing.
    have hother := hd.keyed i' _ hmem
    have hsame : (env.client i').key = (env.client i).key := Subtype.ext (hother.symm.trans hkey)
    cases hfresh i' i hsame
    rw [hd.opening i (Client.parsed_confirmation hconf)] at hmem
    cases hmem
  · obtain ⟨hheld, g, hcarries, hssid⟩ := hd.isSealed j _ hmem
    rw [env.server_evp] at hcarries
    have hsame := (hcarries.decoded hdec).2.2
    exact ⟨j, hheld.symm.trans hkey, hssid.symm.trans hsame.symm⟩

theorem Agreement.client (hd : Agreement env d) (hfresh : ∀ i i', (env.client i).key = (env.client i').key → i = i')
    {i : ι} {event : Client.Event} {depth : Nat} {n : Network ι κ}
    (hauthentic : Authentic env d.network (.client i event))
    (h : d.network.perform env depth (.client i event) = some n) : Agreement env {d with network := n} := by
  have hlives := hd.lives.perform h
  have hwf := Client.reachable_wellFormed (hd.lives.1 i)
  obtain ⟨p, hp, rfl⟩ := Option.map_eq_some_iff.mp h
  refine ⟨hlives, hd.isSealed, hd.built, ?_, ?_, ?_⟩
  · exact (Function.forall_update_iff d.network.clients fun i p =>
      ∀ e ∈ Client.ledger p.endpoint.log, e.1 = (env.client i).key.val).mpr
        ⟨Client.perform_keyed hwf hp (hd.keyed i), fun i' _ => hd.keyed i'⟩
  · exact (Function.forall_update_iff d.network.clients fun _ p =>
      p.endpoint.conn.state = .handshake → Client.ledger p.endpoint.log = []).mpr
        ⟨Client.perform_opening hwf hp (hd.opening i), fun i' _ => hd.opening i'⟩
  · refine (Function.forall_update_iff d.network.clients fun i p => p.endpoint.conn.state = .connected →
      p.looping = true ∧ ∃ j, (d.network.servers j).conn.aesKey = (env.client i).key.val ∧
        (d.network.servers j).conn.ssid = p.endpoint.conn.ssid).mpr ⟨fun hconnected => ?_, fun i' _ => hd.agreed i'⟩
    rcases Client.perform_connected hwf hp hconnected with
      ⟨hbefore, hssid, hloop⟩ | ⟨input, f, rfl, hlooping, hloop, hconf, hssid⟩
    · obtain ⟨hlooping, j, hkey, hagreed⟩ := hd.agreed i hbefore
      exact ⟨hloop hlooping, j, hkey, hagreed.trans hssid.symm⟩
    · rw [env.client_evp] at hconf
      obtain ⟨j, hkey, htaken⟩ := hd.confirmed hfresh hlooping hauthentic hconf
      exact ⟨hloop, j, hkey, htaken.trans hssid.symm⟩

theorem Agreement.server (hd : Agreement env d) {j : κ} {call : Server.Call} {depth : Nat} {n : Network ι κ}
    (hbuilt : ∀ frame, call.frame = some frame → frame ∈ d.built j)
    (h : d.network.perform env depth (.server j call) = some n) : Agreement env {d with network := n} := by
  have hlives := hd.lives.perform h
  have hwf := Server.reachable_wellFormed (hd.lives.2 j)
  obtain ⟨t, ht, rfl⟩ := Option.map_eq_some_iff.mp h
  -- A connection that has left the handshake stays past it, with its key and its id.
  have hstays : (d.network.servers j).conn.state ≠ .handshake → t.conn.state ≠ .handshake ∧
      t.conn.aesKey = (d.network.servers j).conn.aesKey ∧ t.conn.ssid = (d.network.servers j).conn.ssid := by
    intro hleft
    refine ⟨(Server.perform_effect hwf ht).left hleft, ?_⟩
    rcases Server.perform_ssid hwf ht with hsame | ⟨input, now, _, hsecures, _⟩
    · exact hsame
    · exact absurd hsecures.1 hleft
  have hown : Server.OwnSsid (d.network.servers j) call :=
    fun _ frame hframe => (hd.built j frame (hbuilt frame hframe)).2
  refine ⟨hlives, ?_, ?_, hd.keyed, hd.opening, fun i hconnected => ?_⟩
  · exact (Function.forall_update_iff d.network.servers fun j s => Server.Sealed (env.server j) s).mpr
      ⟨Server.perform_sealed hwf hown (hd.isSealed j) ht, fun j' _ => hd.isSealed j'⟩
  · refine (Function.forall_update_iff d.network.servers fun j s => ∀ f ∈ d.built j,
      s.conn.state ≠ .handshake ∧ f.ssid = s.conn.ssid).mpr ⟨fun f hf => ?_, fun j' _ => hd.built j'⟩
    obtain ⟨hleft, hssid⟩ := hd.built j f hf
    obtain ⟨hpast, _, hsame⟩ := hstays hleft
    exact ⟨hpast, hssid.trans hsame.symm⟩
  · obtain ⟨hlooping, j', hkey, hagreed⟩ := hd.agreed i hconnected
    refine ⟨hlooping, j', ?_⟩
    by_cases heq : j' = j
    · subst heq
      have hleft : (d.network.servers j').conn.state ≠ .handshake := by
        intro hhand
        have hlen := (env.client i).key.property
        rw [← hkey, (hwf.handshake hhand).2.1] at hlen
        cases hlen
      obtain ⟨_, hsame, hssid⟩ := hstays hleft
      simp only [Function.update_self]
      exact ⟨hsame.trans hkey, hssid.trans hagreed⟩
    · simp only [Function.update_of_ne heq]
      exact ⟨hkey, hagreed⟩

theorem Agreement.step {event : DeploymentEvent ι κ} {e : Deployment ι κ} (hd : Agreement env d)
    (hfresh : ∀ i i', (env.client i).key = (env.client i').key → i = i') (hrule : PushesActive d event)
    (h : (deployment env).step d event e) : Agreement env e := by
  obtain ⟨⟨depth, hperform⟩, hauthentic⟩ := h
  cases event with
  | network event =>
    cases event with
    | client i event =>
      obtain ⟨n, hn, rfl⟩ := Option.map_eq_some_iff.mp hperform
      exact hd.client hfresh hauthentic hn
    | server j call =>
      cases hcall : call.frame with
      | none =>
        have hmap : (d.network.perform env depth (.server j call)).map (fun n => {d with network := n}) = some e := by
          cases call <;> first | exact hperform | cases hcall
        obtain ⟨n, hn, rfl⟩ := Option.map_eq_some_iff.mp hmap
        refine hd.server (fun frame hframe => ?_) hn
        cases hcall.symm.trans hframe
      | some frame =>
        cases call with
        | sendFrame =>
          cases hcall
          simp only [Deployment.perform] at hperform
          split at hperform
          · next hbuilt =>
            obtain ⟨n, hn, rfl⟩ := Option.map_eq_some_iff.mp hperform
            refine hd.server (fun frame' hframe => ?_) hn
            cases hframe
            exact hbuilt
          · cases hperform
        | _ => cases hcall
  | respond j request data status =>
    simp only [Deployment.perform] at hperform
    split at hperform
    · next hmem =>
      cases hperform
      exact hd.build ((Server.reachable_serving (hd.lives.2 j)).left hmem) request.path data status request.rid
    · cases hperform
  | serverPush j path data status =>
    cases hperform
    have hactive : (d.network.servers j).conn.state = .active := hrule
    exact hd.build (by rw [hactive]; decide) path data status 0

/-- **Session agreement**: over an adversary's network with an ideal cipher, in every run in which the
clients' keys are their own and pushes are aimed at active connections, what a connected client
holds as key and session id some connection has stored. -/
theorem session_agreement (hfresh : ∀ i i', (env.client i).key = (env.client i').key → i = i')
    (h : Reachable ((deployment env).under PushesActive) d) (i : ι)
    (hconnected : (d.network.clients i).endpoint.conn.state = .connected) :
    ∃ j, (d.network.servers j).conn.aesKey = (d.network.clients i).endpoint.conn.aesKey ∧
      (d.network.servers j).conn.ssid = (d.network.clients i).endpoint.conn.ssid := by
  have hd : Agreement env d := by
    clear hconnected
    induction h with
    | init hinit => exact agreement_init hinit
    | step _ hstep ih => exact ih.step hfresh hstep.1 hstep.2
  obtain ⟨hlooping, j, hkey, hssid⟩ := hd.agreed i hconnected
  have hown := (Client.reachable_wellFormed (hd.lives.1 i)).key hlooping
  exact ⟨j, hkey.trans hown.symm, hssid⟩

/-! ### Runs that can be evaluated -/

instance (d : Deployment ι κ) (event : DeploymentEvent ι κ) : Decidable (PushesActive d event) :=
  match event with
  | .serverPush j _ _ _ => inferInstanceAs (Decidable ((d.network.servers j).conn.state = .active))
  | .network _ | .respond .. => .isTrue trivial

instance [Fintype ι] [Fintype κ] (env : NetworkEnv ι κ) (d : Deployment ι κ) (event : DeploymentEvent ι κ) :
    Decidable (d.Authentic env event) :=
  match event with
  | .network event => inferInstanceAs (Decidable (Fmxp.Authentic env d.network event))
  | .respond .. | .serverPush .. => .isTrue trivial

/-- Execution of the steps that the cipher allows. -/
def Deployment.next [Fintype ι] [Fintype κ] (env : NetworkEnv ι κ) (d : Deployment ι κ)
    (event : DeploymentEvent ι κ) : Option (Deployment ι κ) :=
  if d.Authentic env event then d.perform env 3 event else none

theorem Deployment.next_step [Fintype ι] [Fintype κ] {d e : Deployment ι κ} {event : DeploymentEvent ι κ}
    (h : d.next env event = some e) : (deployment env).step d event e := by
  unfold Deployment.next at h
  split at h
  · next hauthentic => exact ⟨⟨3, h⟩, hauthentic⟩
  · cases h

end

def confirmation8 : Frame := {Client.confirmation7 with ssid := 8}

/-- The client's handshake payload goes to both connections, and the confirmation of the second is
what the client receives. -/
def replayedHandshake : List (DeploymentEvent Unit Bool) :=
  [.network (.client () (.start 100)), .network (.server false (.readFd (.once (Server.handshakeRaw 100)) 100)),
    .network (.server true (.readFd (.once (Server.handshakeRaw 100)) 100)), .serverPush true [] [9] STATUS_OK,
    .network (.client () (.readable (.once (sealedFrame confirmation8 0))))]

theorem replayed_agreement : ∃ d : Deployment Unit Bool,
    (d.network.clients ()).endpoint.conn.state = .connected ∧
      (d.network.clients ()).endpoint.conn.ssid = 8 ∧ (d.network.servers false).conn.ssid = 7 ∧
      ∃ j, (d.network.servers j).conn.aesKey = (d.network.clients ()).endpoint.conn.aesKey ∧
        (d.network.servers j).conn.ssid = (d.network.clients ()).endpoint.conn.ssid := by
  have hrun : (execute (guarded PushesActive (Deployment.next twoConnections)) replayedHandshake
      ⟨opening, fun _ => []⟩).map
      (fun d => ((d.network.clients ()).endpoint.conn.state, (d.network.clients ()).endpoint.conn.ssid,
        (d.network.servers false).conn.ssid)) = some (.connected, 8, 7) := by
    decide +kernel
  obtain ⟨d, hd, hresult⟩ := Option.map_eq_some_iff.mp hrun
  simp only [Prod.mk.injEq] at hresult
  obtain ⟨hstate, hssid, hfirst⟩ := hresult
  have hreach : Reachable ((deployment twoConnections).under PushesActive) d :=
    Reachable.execute (fun _ _ _ _ => guarded_step fun _ _ => Deployment.next_step)
      (.init ⟨fun _ => Client.connected3_fresh, fun _ => Server.accepted5_fresh, fun _ => rfl⟩) hd
  exact ⟨d, hstate, hssid, hfirst, session_agreement (fun _ _ _ => rfl) hreach () hstate⟩

end Fmxp
