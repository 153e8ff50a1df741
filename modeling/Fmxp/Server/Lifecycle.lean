import Fmxp.Server.Receive
import Fmxp.Library.Transition

/-! The life of one server connection, as a transition system.

Its labels are the calls the server makes on a connection after constructing it;
a step is a call that returns. `WellFormed` holds in every state some run reaches:
a closed connection has no descriptor, the handshake has no key, and an active
connection has a key of the right size and the session id it drew. -/
namespace Fmxp.Server
open Transition

inductive Call where
  | readFd (input : Recv) (now : UInt32)
  | sendFrame (frame : Frame)
  | closeConnection (reason : CloseReason) (invokeOnClose : Bool)
  | setOnClose
  deriving DecidableEq, Repr

def perform (env : Env) (depth : Nat) (call : Call) (s : Endpoint) : Option Endpoint :=
  match call with
  | .readFd input now => (readFd env depth input now s).map Prod.snd
  | .sendFrame frame => sendFrame env depth frame s
  | .closeConnection reason invokeOnClose => closeConnection env depth reason invokeOnClose s
  | .setOnClose => some (s.modify fun c => {c with onClose := true})

/-- A connection as its constructor leaves it, on a descriptor `accept` returned. -/
def Endpoint.Fresh (s : Endpoint) : Prop :=
  ∃ fd connId maxFrameSize rsaPrivKey, 0 ≤ fd ∧
    s = {conn := {fd := fd, connId := connId, maxFrameSize := maxFrameSize, rsaPrivKey := rsaPrivKey}}

def lifecycle (env : Env) : System Endpoint Call where
  init := Endpoint.Fresh
  step := fun s call t => ∃ depth, perform env depth call s = some t

structure WellFormed (env : Env) (s : Endpoint) : Prop where
  closed : s.conn.state = .closed → s.conn.fd = -1
  handshake : s.conn.state = .handshake →
    s.conn.fd ≠ -1 ∧ s.conn.aesKey = [] ∧ s.conn.ssid = 0 ∧ s.conn.lastCliFid = 0
  active : s.conn.state = .active → s.conn.aesKey.length = 32 ∧ s.conn.ssid = env.rand64

theorem Endpoint.Fresh.wellFormed {env : Env} {s : Endpoint} (h : s.Fresh) : WellFormed env s := by
  obtain ⟨fd, connId, maxFrameSize, rsaPrivKey, hfd, rfl⟩ := h
  refine ⟨?_, ?_, ?_⟩
  · intro hc
    cases hc
  · intro _
    exact ⟨by show fd ≠ -1; omega, rfl, rfl, rfl⟩
  · intro hc
    cases hc

/-- What keeps a connection's session and settles its state keeps it well formed. -/
theorem WellFormed.keeps {env : Env} {s t : Endpoint} (h : WellFormed env s) (hkeeps : Keeps s t)
    (hsettled : Settled s t) : WellFormed env t := by
  rcases hsettled with ⟨hstate, hfd⟩ | ⟨hclosed, hfd⟩
  · refine ⟨?_, ?_, ?_⟩
    · rw [hstate, hfd]
      exact h.closed
    · rw [hstate, hfd, hkeeps.aesKey, hkeeps.ssid, hkeeps.lastCliFid]
      exact h.handshake
    · rw [hstate, hkeeps.aesKey, hkeeps.ssid]
      exact h.active
  · refine ⟨fun _ => hfd, fun hc => ?_, fun hc => ?_⟩ <;> rw [hclosed] at hc <;> cases hc

theorem setAesKey_wellFormed {env : Env} {depth : Nat} {key : Bytes} {s t : Endpoint} (hs : WellFormed env s)
    (hkey : key.length = 32) (h : setAesKey env depth key s = some t) : WellFormed env t := by
  obtain ⟨u, hkeeps, _, rfl⟩ := setAesKey_keeps hs.closed h
  refine ⟨fun hc => (by cases hc), fun hc => (by cases hc), fun _ => ⟨?_, ?_⟩⟩
  · show u.conn.aesKey.length = 32
    rw [hkeeps.aesKey]
    exact hkey
  · show u.conn.ssid = env.rand64
    rw [hkeeps.ssid]
    rfl

theorem readFd_wellFormed {env : Env} {depth : Nat} {input : Recv} {now : UInt32} {r : Except Exn Bool}
    {s t : Endpoint} (hs : WellFormed env s) (h : readFd env depth input now s = some (r, t)) :
    WellFormed env t := by
  obtain ⟨_, heffect⟩ := readFd_cases hs.closed h
  cases heffect with
  | quiet buffer hkeeps hsettled =>
    have hbuffered : WellFormed env (s.setBuffer buffer) := ⟨hs.closed, hs.handshake, hs.active⟩
    exact hbuffered.keeps hkeeps hsettled
  | secured frame rest key _ _ _ hkey hset =>
    have hbuffered : WellFormed env (s.setBuffer rest) := ⟨hs.closed, hs.handshake, hs.active⟩
    exact setAesKey_wellFormed hbuffered (length_acceptedKey hkey) hset
  | delivered frames rest hfd hstate _ hkeeps hsettled =>
    have hover : WellFormed env ((s.setBuffer rest).handOver (s.conn.accepted frames)) := by
      refine ⟨hs.closed, fun hc => ?_, hs.active⟩
      exact absurd (hstate.symm.trans hc) (by intro h; cases h)
    exact hover.keeps hkeeps hsettled

theorem perform_wellFormed {env : Env} {depth : Nat} {call : Call} {s t : Endpoint} (hs : WellFormed env s)
    (h : perform env depth call s = some t) : WellFormed env t := by
  cases call with
  | readFd input now =>
    obtain ⟨⟨r, u⟩, hread, rfl⟩ := Option.map_eq_some_iff.mp h
    exact readFd_wellFormed hs hread
  | sendFrame frame =>
    obtain ⟨hkeeps, hsettled⟩ := sendFrame_keeps hs.closed h
    exact hs.keeps hkeeps hsettled
  | closeConnection reason invokeOnClose =>
    obtain ⟨hkeeps, hclosed⟩ := closeConnection_keeps hs.closed h
    exact hs.keeps hkeeps (.inr hclosed)
  | setOnClose =>
    cases h
    exact ⟨hs.closed, hs.handshake, hs.active⟩

/-- **Every state a connection reaches is well formed.** -/
theorem reachable_wellFormed {env : Env} {s : Endpoint} (h : Reachable (lifecycle env) s) :
    WellFormed env s := by
  refine h.invariant (fun _ => Endpoint.Fresh.wellFormed) ?_
  rintro s call t hs ⟨depth, hcall⟩
  exact perform_wellFormed hs hcall

/-! ### A connection to try things on -/

/-- An environment in which every call succeeds: `send` takes what it is given. -/
def quietEnv : Env where
  evp := Evp.transparent
  rsa := Rsa.transparent
  iv := fun _ => iv7
  send := fun _ => .count 65536
  rand64 := 7

theorem quietEnv_send (i : Nat) : 0 < (quietEnv.send i).bytes := Nat.zero_lt_succ 65535

/-- A connection just accepted on descriptor 5. -/
def accepted5 : Endpoint := {conn := {fd := 5, connId := 1, maxFrameSize := 4096, rsaPrivKey := []}}

theorem accepted5_fresh : accepted5.Fresh := ⟨5, 1, 4096, [], by decide, rfl⟩

/-- The handshake request that carries the key of 32 fives and the clock value `t`, and its encoding. -/
def handshake5 (t : UInt32) : Frame := ⟨0, 1, 0, STATUS_REQ, 0, [], List.replicate 32 5 ++ u32ToStr t⟩

def handshakeRaw (t : UInt32) : Bytes := withHeader (frameBody (handshake5 t) 0)

/-- A request on session 7, and its encoding under that key. -/
def request7 : Frame := ⟨1, 2, 7, STATUS_REQ, 0, ascii ['/', 'p'], [1, 2]⟩

def requestRaw : Bytes := sealedFrame request7 0

end Fmxp.Server
