import Mathlib.Data.Fintype.Basic
import Fmxp.Client.Lifecycle
import Fmxp.Server.Requests

/-! Clients and server connections on one network.

The network belongs to an adversary: a read may return any bytes at all, so recorded frames
and handshake payloads may be dropped, delayed, reordered, repeated and spliced into any
connection. What binds the adversary is the cipher. It is ideal: a frame opens under the key
of a client only if one of the parties has encoded it under that key (`Authentic`), and what
has opened under one key is not the encoding of anything under another (`OneKey`). Besides
its parties a network remembers which raw frame each request was decoded from. -/
namespace Fmxp
open Transition Framing

/-- The environments of all parties, which use one cipher. -/
structure NetworkEnv (ι κ : Type) where
  evp : Evp
  client : ι → Client.Env
  server : κ → Server.Env
  client_evp : ∀ i, (client i).evp = evp
  server_evp : ∀ j, (server j).evp = evp

/-- A request that was handed over: where, under which key, and from which bytes. -/
structure Delivery (κ : Type) where
  conn : κ
  key : Bytes
  raw : Bytes
  frame : Frame
  deriving DecidableEq, Repr

structure Network (ι κ : Type) where
  clients : ι → Client.Process
  servers : κ → Server.Endpoint
  delivered : List (Delivery κ) := []

inductive NetworkEvent (ι κ : Type) where
  | client (i : ι) (event : Client.Event)
  | server (j : κ) (call : Server.Call)
  deriving DecidableEq, Repr

section
variable {ι κ : Type}

/-- The requests a call adds to the log, with the raw frames of its read in their order. -/
def deliveries (j : κ) (call : Server.Call) (s t : Server.Endpoint) : List (Delivery κ) :=
  match call with
  | .readFd input _ =>
    ((rawFrames s.conn.maxFrameSize (s.conn.inFrameBuffer ++ input.bytes)).zip
      ((Server.requests t.log).drop (Server.requests s.log).length)).map fun (raw, frame) =>
        ⟨j, s.conn.aesKey, raw, frame⟩
  | _ => []

def Network.perform [DecidableEq ι] [DecidableEq κ] (env : NetworkEnv ι κ) (depth : Nat)
    (event : NetworkEvent ι κ) (n : Network ι κ) : Option (Network ι κ) :=
  match event with
  | .client i event => (Client.perform (env.client i) event (n.clients i)).map fun p =>
      {n with clients := Function.update n.clients i p}
  | .server j call => (Server.perform (env.server j) depth call (n.servers j)).map fun t =>
      {n with
        servers := Function.update n.servers j t
        delivered := n.delivered ++ deliveries j call (n.servers j) t}

/-! ### The ideal cipher -/

/-- The cipher opens the body of a raw frame. -/
def opens (evp : Evp) (key raw : Bytes) : Bool := (aesDecrypt evp (getFrameBodyPtr raw) key).toOption.isSome

/-- A frame that decodes was opened. -/
theorem opens_of_decodeFrame {evp : Evp} {key raw : Bytes} {f : Frame}
    (h : decodeFrame evp raw true key = .ok f) : opens evp key raw = true := by
  obtain ⟨c, rfl, _, hopen, _⟩ := decodeFrame_ok_iff.mp h
  rw [opens, getFrameBodyPtr_withHeader]
  cases hdec : aesDecrypt evp c key with
  | ok m => rfl
  | error e =>
    rw [openBody, if_pos rfl, hdec] at hopen
    cases hopen

/-- One of the parties has encoded these bytes under this key. -/
def Network.Produced (n : Network ι κ) (key raw : Bytes) : Prop :=
  (∃ i, (key, raw) ∈ Client.ledger (n.clients i).endpoint.log) ∨ ∃ j, (key, raw) ∈ Server.ledger (n.servers j).log

/-- The key of the party that reads, and the raw frames it finds. -/
def Network.cut (n : Network ι κ) : NetworkEvent ι κ → Bytes × List Bytes
  | .client i (.readable input) =>
    let s := (n.clients i).endpoint
    (s.conn.aesKey, rawFrames s.conn.maxFrameSize (s.conn.frameBuffer ++ (Client.heard input s).bytes))
  | .server j (.readFd input _) =>
    let s := n.servers j
    (s.conn.aesKey, rawFrames s.conn.maxFrameSize (s.conn.inFrameBuffer ++ input.bytes))
  | _ => ([], [])

/-- What opens under a client's key has been encoded under it. -/
def Authentic (env : NetworkEnv ι κ) (n : Network ι κ) (event : NetworkEvent ι κ) : Prop :=
  ∀ raw ∈ (n.cut event).2, opens env.evp (n.cut event).1 raw = true →
    (∃ i, (n.cut event).1 = (env.client i).key.val) → n.Produced (n.cut event).1 raw

/-- What was opened under one key is not an encoding under another. -/
def Network.OneKey (n : Network ι κ) : Prop :=
  ∀ d ∈ n.delivered, (∀ i, ∀ e ∈ Client.ledger (n.clients i).endpoint.log, e.2 = d.raw → e.1 = d.key) ∧
    ∀ j, ∀ e ∈ Server.ledger (n.servers j).log, e.2 = d.raw → e.1 = d.key

/-- All runs of the parties over a network with an ideal cipher. -/
def network [DecidableEq ι] [DecidableEq κ] (env : NetworkEnv ι κ) : System (Network ι κ) (NetworkEvent ι κ) where
  init := fun n => (∀ i, (n.clients i).Fresh) ∧ (∀ j, (n.servers j).Fresh) ∧ n.delivered = []
  step := fun n event q => (∃ depth, n.perform env depth event = some q) ∧ Authentic env n event ∧ q.OneKey

/-! ### Requests and the bytes they come from -/

/-- The requests of a call are decoded, under the key of the connection, from the raw frames they
are put down with. -/
theorem deliveries_decoded {evp : Evp} {env : Server.Env} {depth : Nat} {call : Server.Call} {s t : Server.Endpoint}
    (hevp : env.evp = evp) (hs : Server.WellFormed env s) (h : Server.perform env depth call s = some t) (j : κ) :
    Server.requests t.log = Server.requests s.log ++ (deliveries j call s t).map Delivery.frame ∧
      ∀ d ∈ deliveries j call s t, d.conn = j ∧ d.key = s.conn.aesKey ∧ s.conn.state = .active ∧
        decodeFrame evp d.raw true d.key = .ok d.frame := by
  subst hevp
  rcases (Server.perform_effect hs h).newRequests with hnone | ⟨input, now, frames, rest, rfl, hactive, hdrain, hmore⟩
  · have hnil : deliveries j call s t = [] := by
      unfold deliveries
      split
      · rw [hnone, List.drop_length, List.zip_nil_right, List.map_nil]
      · rfl
    rw [hnil, hnone]
    exact ⟨(List.append_nil _).symm, fun d hd => by cases hd⟩
  · obtain ⟨raws, hfront, hdecoded⟩ := frameFramer_items env.evp s.conn.maxFrameSize true s.conn.aesKey
      (s.conn.inFrameBuffer ++ input.bytes)
    have hitems : ((frameFramer env.evp s.conn.maxFrameSize true s.conn.aesKey).drain
        (s.conn.inFrameBuffer ++ input.bytes)).items = frames := congrArg Drained.items hdrain
    rw [hitems] at hdecoded
    obtain ⟨hmap, hpairs⟩ := Framer.zip_decoded hdecoded hfront
      (acceptedFrames_isPrefix s.conn.ssid s.conn.lastCliFid frames)
    have hnew : (Server.requests t.log).drop (Server.requests s.log).length = s.conn.accepted frames := by
      rw [hmore, List.drop_left]
    have heq : deliveries j (.readFd input now) s t =
        ((rawFrames s.conn.maxFrameSize (s.conn.inFrameBuffer ++ input.bytes)).zip (s.conn.accepted frames)).map
          fun (raw, frame) => ⟨j, s.conn.aesKey, raw, frame⟩ := by
      simp only [deliveries, hnew]
    rw [heq, hmore, List.map_map]
    refine ⟨congrArg _ hmap.symm, fun d hd => ?_⟩
    obtain ⟨e, he, rfl⟩ := List.mem_map.mp hd
    exact ⟨rfl, rfl, hactive, hpairs e he⟩

variable [DecidableEq ι] [DecidableEq κ] {env : NetworkEnv ι κ}

/-! ### Each party by itself -/

/-- Every party is in a state that a run of its own reaches. -/
def Network.Lives (env : NetworkEnv ι κ) (n : Network ι κ) : Prop :=
  (∀ i, Reachable (Client.lifecycle (env.client i)) (n.clients i)) ∧
    ∀ j, Reachable (Server.lifecycle (env.server j)) (n.servers j)

theorem Network.Lives.perform {depth : Nat} {event : NetworkEvent ι κ} {n q : Network ι κ} (hn : n.Lives env)
    (h : n.perform env depth event = some q) : q.Lives env := by
  obtain ⟨hclients, hservers⟩ := hn
  cases event with
  | client i event =>
    obtain ⟨p, hp, rfl⟩ := Option.map_eq_some_iff.mp h
    exact ⟨(Function.forall_update_iff n.clients fun i p => Reachable (Client.lifecycle (env.client i)) p).mpr
      ⟨.step (hclients i) hp, fun i' _ => hclients i'⟩, hservers⟩
  | server j call =>
    obtain ⟨t, ht, rfl⟩ := Option.map_eq_some_iff.mp h
    exact ⟨hclients, (Function.forall_update_iff n.servers fun j s =>
      Reachable (Server.lifecycle (env.server j)) s).mpr ⟨.step (hservers j) ⟨depth, ht⟩, fun j' _ => hservers j'⟩⟩

/-- Of every party a network's run is a run of its own. -/
theorem network_parties {n : Network ι κ} (h : Reachable (network env) n) : n.Lives env := by
  refine h.invariant (I := fun n => n.Lives env) ?_ ?_
  · rintro n ⟨hclients, hservers, _⟩
    exact ⟨fun i => .init (hclients i), fun j => .init (hservers j)⟩
  · rintro n event q hn ⟨⟨depth, hstep⟩, _⟩
    exact hn.perform hstep

/-! ### Runs that can be evaluated -/

instance [Fintype ι] [Fintype κ] (n : Network ι κ) (key raw : Bytes) : Decidable (n.Produced key raw) :=
  inferInstanceAs (Decidable (_ ∨ _))

instance [Fintype ι] [Fintype κ] (env : NetworkEnv ι κ) (n : Network ι κ) (event : NetworkEvent ι κ) :
    Decidable (Authentic env n event) :=
  inferInstanceAs (Decidable (∀ raw ∈ (n.cut event).2, _))

instance [Fintype ι] [Fintype κ] (n : Network ι κ) : Decidable n.OneKey :=
  inferInstanceAs (Decidable (∀ d ∈ n.delivered, _))

/-- Execution of the steps that the cipher allows. -/
def Network.next [Fintype ι] [Fintype κ] (env : NetworkEnv ι κ) (n : Network ι κ) (event : NetworkEvent ι κ) :
    Option (Network ι κ) :=
  match n.perform env 3 event with
  | none => none
  | some q => if Authentic env n event ∧ q.OneKey then some q else none

theorem Network.next_step [Fintype ι] [Fintype κ] {n q : Network ι κ} {event : NetworkEvent ι κ}
    (h : n.next env event = some q) : (network env).step n event q := by
  unfold Network.next at h
  split at h
  · cases h
  · next r hr =>
    split at h
    · next hok =>
      cases h
      exact ⟨⟨3, hr⟩, hok⟩
    · cases h

end

/-! ### A network to try things on -/

/-- One client and connections that draw these session ids; every call succeeds. -/
def quietNetwork {κ : Type} (rand64 : κ → UInt64) : NetworkEnv Unit κ where
  evp := Evp.transparent
  client := fun _ => Client.quietEnv
  server := fun j => {Server.quietEnv with rand64 := rand64 j}
  client_evp := fun _ => rfl
  server_evp := fun _ => rfl

/-- Two connections, which draw the session ids 7 and 8. -/
def twoConnections : NetworkEnv Unit Bool := quietNetwork fun j => if j then 8 else 7

/-- The client just connected and the connections just accepted. -/
def opening {κ : Type} : Network Unit κ :=
  {clients := fun _ => Client.connected3, servers := fun _ => Server.accepted5}

theorem opening_init {κ : Type} [DecidableEq κ] (env : NetworkEnv Unit κ) : (network env).init opening :=
  ⟨fun _ => Client.connected3_fresh, fun _ => Server.accepted5_fresh, rfl⟩

end Fmxp
