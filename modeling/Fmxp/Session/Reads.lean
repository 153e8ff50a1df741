import Fmxp.Client.Lifecycle
import Fmxp.Core.Reads
import Fmxp.Server.Closing

/-! What the two `_parseFrames` touch.

A round of either loop looks at the front of the receive buffer, decodes the frame it finds there and cuts it off. The
loops are those rounds (`parseFrames_round`), so whatever a peer sends, their reads are inside the buffers, no
slice is out of range, and a round that goes on has taken a header off the buffer. Two things can go wrong. The length
of a ciphertext wraps when it is passed to OpenSSL as an `int`, and the server's loop does not end when it closes a
connection that has no key to say farewell with. `parse_safe_iff` says exactly when. -/
namespace Fmxp
open Framing Transition

/-- An outcome that is neither a read outside a buffer nor a slice out of range. -/
def InBounds {α : Type} (r : Except Exn α) : Prop := r ≠ .error .wildRead ∧ ∀ what, r ≠ .error (.outOfRange what)

theorem InBounds.ok {α : Type} (a : α) : InBounds (.ok a : Except Exn α) := ⟨nofun, nofun⟩

theorem InBounds.runtime {α : Type} (e : RuntimeError) : InBounds (.error (.runtime e) : Except Exn α) :=
  ⟨nofun, nofun⟩

namespace Server
variable {env : Env} {depth n : Nat} {s t : Endpoint} {frames : List Frame}

/-- One round of `_parseFrames`. During the handshake the frame is in the clear. -/
def parseRound (env : Env) (s : Endpoint) : Reading (Next UInt8 Frame Refusal) :=
  if s.conn.state = .handshake then
    Recorded.takeFrame env.evp s.conn.maxFrameSize false [] (fun _ => .ok ()) s.conn.inFrameBuffer
  else Recorded.takeFrame env.evp s.conn.maxFrameSize true s.conn.aesKey (fun _ => .ok ()) s.conn.inFrameBuffer

/-- What the loop does after a round. -/
def afterRound (env : Env) (depth n : Nat) (s : Endpoint) (frames : List Frame) :
    Except Exn (Next UInt8 Frame Refusal) → Option (Except Exn (List Frame) × Endpoint)
  | .error e =>
    if caught e then (closeConnection env depth .invalidRequest true s).map (Prod.mk (.ok frames))
    else some (.error e, s)
  | .ok .wait => some (.ok frames, s)
  | .ok (.bad r) => (closeConnection env depth (reasonOf r) true s).map (Prod.mk (.ok frames))
  | .ok (.item frame rest) =>
    if s.conn.state = .handshake then some (.ok (frames ++ [frame]), s.setBuffer rest)
    else parseFrames env depth n (s.setBuffer rest) (frames ++ [frame])

/-- The connection with which the loop goes round again. -/
def again (s : Endpoint) : Next UInt8 Frame Refusal → Option Endpoint
  | .item _ rest => if s.conn.state = .handshake then none else some (s.setBuffer rest)
  | _ => none

/-- `t` is the connection before some round of the loop. -/
abbrev Comes (env : Env) (s t : Endpoint) : Prop := Traced.Comes (parseRound env) again s t

/-- What the first `n` rounds touch. -/
def parseTouched (env : Env) (n : Nat) (s : Endpoint) : List Touch := Traced.rounds (parseRound env) again n s

/-- What is promised of `_parseFrames`: all it touches is safe, a round that goes on has taken at least 9 bytes, and
the loop is over after a ninth of the buffer's length in rounds, whatever it has come to. -/
structure ParsesSafely (env : Env) (s : Endpoint) : Prop where
  touches : ∀ n, ∀ touch ∈ parseTouched env n s, touch.Safe
  removes : ∀ t u next, Comes env s t → (parseRound env t).result = .ok next → again t next = some u →
    u.conn.inFrameBuffer.length + 9 ≤ t.conn.inFrameBuffer.length
  ends : ∃ depth p, InBounds p.1 ∧ ∀ n, s.conn.inFrameBuffer.length < 9 * n →
    parseFrames env depth n s [] = some p

/-- No frame that comes to be decrypted has `2 ^ 31` bytes of ciphertext or more. -/
def FramesSmall (env : Env) (s : Endpoint) : Prop :=
  ∀ t, Comes env s t → t.conn.state ≠ .handshake → ∀ raw size,
    leadingFrame t.conn.maxFrameSize t.conn.inFrameBuffer = .ok (.frame raw size) →
    Recorded.Decrypts raw t.conn.aesKey → raw.length < 2 ^ 31 + 37

/-- The buffer holds something that is refused. -/
def Declines (env : Env) (s : Endpoint) : Prop :=
  if s.conn.state = .handshake then
    ∃ r, (frameFramer env.evp s.conn.maxFrameSize false []).next s.conn.inFrameBuffer = .bad r
  else ((s.conn.framer env.evp).drain s.conn.inFrameBuffer).bad ≠ none

/-- **`_parseFrames` is its rounds.** -/
theorem parseFrames_round (env : Env) (depth n : Nat) (s : Endpoint) (frames : List Frame) :
    parseFrames env depth (n + 1) s frames = afterRound env depth n s frames (parseRound env s).result := by
  have hround : (parseRound env s).result = (Recorded.takeFrame env.evp s.conn.maxFrameSize
      (decide (s.conn.state ≠ .handshake)) (if s.conn.state = .handshake then [] else s.conn.aesKey)
      (fun _ => .ok ()) s.conn.inFrameBuffer).result := by
    unfold parseRound
    split
    · next hstate => simp only [hstate, ne_eq, not_true_eq_false, decide_false]
    · next hstate => simp only [hstate, ne_eq, not_false_eq_true, decide_true]
  obtain ⟨lead, hlead⟩ := leadingFrame_total s.conn.maxFrameSize s.conn.inFrameBuffer
  rw [hround]
  cases lead with
  | incomplete => simp only [parseFrames, hlead, Recorded.result_takeFrame_incomplete hlead, afterRound]
  | invalid => simp only [parseFrames, hlead, Recorded.result_takeFrame_invalid hlead, afterRound, reasonOf]
  | tooLong => simp only [parseFrames, hlead, Recorded.result_takeFrame_tooLong hlead, afterRound, reasonOf]
  | frame raw size =>
    have hslice := slice_suffix (leadingFrame_frame hlead).2.2.1
    rw [Recorded.result_takeFrame_frame hlead]
    by_cases hstate : s.conn.state = .handshake
    · cases hdecode : decodeFrame env.evp raw false [] with
      | error e =>
        simp only [parseFrames, hlead, hstate, hdecode, if_true, ne_eq, not_true_eq_false, decide_false, Except.bind,
          afterRound]
      | ok frame =>
        simp only [parseFrames, hlead, hstate, hdecode, hslice, if_true, ne_eq, not_true_eq_false, decide_false,
          Except.bind, afterRound]
        rfl
    · cases hdecode : decodeFrame env.evp raw true s.conn.aesKey with
      | error e =>
        simp only [parseFrames, hlead, hstate, hdecode, if_false, ne_eq, not_false_eq_true, decide_true, Except.bind,
          afterRound]
      | ok frame =>
        simp only [parseFrames, hlead, hstate, hdecode, hslice, if_false, ne_eq, not_false_eq_true, decide_true,
          Except.bind, afterRound]
        rfl

theorem parseTouched_safe_iff : (∀ n, ∀ touch ∈ parseTouched env n s, touch.Safe) ↔ FramesSmall env s := by
  refine Traced.rounds_all_iff.trans (forall_congr' fun t => imp_congr_right fun _ => ?_)
  by_cases hstate : t.conn.state = .handshake
  · rw [parseRound, if_pos hstate, Recorded.takeFrame_safe_iff]
    exact ⟨fun _ hne => absurd hstate hne, fun _ _ _ _ hencrypted => by cases hencrypted⟩
  · rw [parseRound, if_neg hstate, Recorded.takeFrame_safe_iff]
    exact ⟨fun h _ raw size hlead => h raw size hlead rfl, fun h raw size hlead _ => h hstate raw size hlead⟩

/-- A round that goes on has taken a header off the buffer. -/
theorem again_shorter {next : Next UInt8 Frame Refusal} (hround : (parseRound env s).result = .ok next)
    (h : again s next = some t) : t.conn.inFrameBuffer.length + 9 ≤ s.conn.inFrameBuffer.length := by
  cases next with
  | wait => cases h
  | bad r => cases h
  | item frame rest =>
    simp only [again] at h
    split at h
    · cases h
    · next hstate =>
      cases h
      rw [parseRound, if_neg hstate] at hround
      exact Recorded.takeFrame_shorter hround

theorem Comes.length_le (h : Comes env s t) : t.conn.inFrameBuffer.length ≤ s.conn.inFrameBuffer.length := by
  induction h with
  | here => exact Nat.le_refl _
  | next hround hagain _ ih =>
    have hshorter := again_shorter hround hagain
    omega

/-- A buffer that is not that long holds no such frame. -/
theorem FramesSmall.of_length (h : s.conn.inFrameBuffer.length < 2 ^ 31 + 37) : FramesSmall env s := by
  intro t ht _ raw size hlead _
  obtain ⟨hraw, _, _, _⟩ := leadingFrame_frame hlead
  have hle := ht.length_le
  rw [hraw, List.length_take]
  omega

/-- A round throws only what the decoder does, and that is caught. -/
theorem parseRound_caught {e : Exn} (h : (parseRound env s).result = .error e) : caught e = true := by
  obtain ⟨encrypted, key, raw, hdecode⟩ : ∃ encrypted key raw, decodeFrame env.evp raw encrypted key = .error e := by
    unfold parseRound at h
    split at h
    · rcases Recorded.takeFrame_error h with ⟨raw, hdecode⟩ | ⟨_, haccept⟩
      · exact ⟨_, _, raw, hdecode⟩
      · cases haccept
    · rcases Recorded.takeFrame_error h with ⟨raw, hdecode⟩ | ⟨_, haccept⟩
      · exact ⟨_, _, raw, hdecode⟩
      · cases haccept
  exact decodeFrame_caught hdecode

/-- Rounds beyond a ninth of the buffer change nothing, and no outcome is out of bounds. -/
theorem parseFrames_ends (hn : s.conn.inFrameBuffer.length < 9 * n) :
    ∃ r, (∀ p ∈ r, InBounds p.1) ∧
      ∀ m, s.conn.inFrameBuffer.length < 9 * m → parseFrames env depth m s frames = r := by
  induction n generalizing s frames with
  | zero => omega
  | succ n ih =>
    have hrefuse : ∀ reason, ∀ p ∈ (closeConnection env depth reason true s).map
        (Prod.mk (.ok frames : Except Exn (List Frame))), InBounds p.1 := by
      intro reason p hp
      obtain ⟨t, _, rfl⟩ := Option.map_eq_some_iff.mp hp
      exact .ok frames
    have hdone : ∀ {fs : List Frame} {t : Endpoint}, ∀ p ∈ some ((.ok fs : Except Exn (List Frame)), t),
        InBounds p.1 := by
      intro fs t p hp
      cases hp
      exact .ok fs
    -- What follows this round does not depend on how many more are allowed.
    have hafter : ∀ {r}, (∀ p ∈ r, InBounds p.1) → (∀ m, s.conn.inFrameBuffer.length < 9 * (m + 1) →
        afterRound env depth m s frames (parseRound env s).result = r) → ∃ r, (∀ p ∈ r, InBounds p.1) ∧
          ∀ m, s.conn.inFrameBuffer.length < 9 * m → parseFrames env depth m s frames = r := by
      intro r hr hsame
      refine ⟨r, hr, fun m hm => ?_⟩
      cases m with
      | zero => omega
      | succ m => rw [parseFrames_round, hsame m hm]
    cases hround : (parseRound env s).result with
    | error e =>
      refine hafter (hrefuse .invalidRequest) fun m _ => ?_
      rw [hround, afterRound, if_pos (parseRound_caught hround)]
    | ok next =>
      cases next with
      | wait => exact hafter hdone fun m _ => by rw [hround, afterRound]
      | bad r => exact hafter (hrefuse (reasonOf r)) fun m _ => by rw [hround, afterRound]
      | item frame rest =>
        by_cases hstate : s.conn.state = .handshake
        · exact hafter hdone fun m _ => by rw [hround, afterRound, if_pos hstate]
        · have hshorter := again_shorter (t := s.setBuffer rest) hround (if_neg hstate)
          obtain ⟨r, hr, hends⟩ := @ih (s.setBuffer rest) (frames ++ [frame]) (by omega)
          refine hafter hr fun m hm => ?_
          rw [hround, afterRound, if_neg hstate]
          exact hends m (by omega)

/-- `_parseFrames` returns exactly when a close that it makes does. -/
theorem parseFrames_returns :
    (∃ depth p, parseFrames env depth (s.conn.inFrameBuffer.length + 1) s [] = some p) ↔
      (Declines env s → s.conn.state = .closed ∨ CloseReturns env .invalidRequest s) := by
  have hclose : ∀ {fs : List Frame} {r : Refusal} (rest : Bytes),
      (∃ depth p, (closeConnection env depth (reasonOf r) true (s.setBuffer rest)).map
        (Prod.mk (.ok fs : Except Exn (List Frame))) = some p) ↔
      (s.conn.state = .closed ∨ CloseReturns env .invalidRequest s) := by
    intro fs r rest
    refine Iff.trans ?_ ((closeConnection_returns env (reasonOf r) true (s.setBuffer rest)).trans
      (or_congr_right (closeReturns_iff (reasonOf_ne_natural r) rfl rfl rfl)))
    simp only [Option.map_eq_some_iff]
    constructor
    · rintro ⟨depth, p, t, ht, _⟩
      exact ⟨depth, t, ht⟩
    · rintro ⟨depth, t, ht⟩
      exact ⟨depth, _, t, ht, rfl⟩
  by_cases hstate : s.conn.state = .handshake
  · simp only [Declines, if_pos hstate, parseFrames_handshake env _ _ s hstate]
    cases hnext : (frameFramer env.evp s.conn.maxFrameSize false []).next s.conn.inFrameBuffer with
    | wait => exact ⟨fun _ ⟨_, hr⟩ => (by cases hr), fun _ => ⟨0, _, rfl⟩⟩
    | item frame rest => exact ⟨fun _ ⟨_, hr⟩ => (by cases hr), fun _ => ⟨0, _, rfl⟩⟩
    | bad r =>
      have hrefuses : ∃ r', (Next.bad r : Next UInt8 Frame Refusal) = .bad r' := ⟨r, rfl⟩
      simp only [hrefuses, true_implies]
      exact hclose s.conn.inFrameBuffer
  · simp only [Declines, if_neg hstate, parseFrames_session env _ _ s [] hstate (Nat.lt_succ_self _)]
    cases hdrain : (s.conn.framer env.evp).drain s.conn.inFrameBuffer with
    | mk items rest bad =>
      cases bad with
      | none => exact ⟨fun _ h => absurd rfl h, fun _ => ⟨0, _, rfl⟩⟩
      | some r =>
        simp only [ne_eq, reduceCtorEq, not_false_eq_true, true_implies]
        exact hclose rest

/-- **The server's loop keeps the promise** exactly when no frame is too large to be decrypted, and a close that it has
to make returns. -/
theorem parsesSafely_iff :
    ParsesSafely env s ↔
      FramesSmall env s ∧ (Declines env s → s.conn.state = .closed ∨ CloseReturns env .invalidRequest s) := by
  rw [← parseFrames_returns, ← parseTouched_safe_iff]
  constructor
  · intro h
    obtain ⟨depth, p, _, hends⟩ := h.ends
    exact ⟨h.touches, depth, p, hends _ (by omega)⟩
  · rintro ⟨htouches, depth, p, hp⟩
    refine ⟨htouches, fun t u next _ hround hagain => again_shorter hround hagain, depth, p, ?_⟩
    obtain ⟨r, hr, hends⟩ := @parseFrames_ends env depth (s.conn.inFrameBuffer.length + 1) s [] (by omega)
    have hsame : r = some p := (hends _ (by omega)).symm.trans hp
    exact ⟨hr p hsame, fun n hn => (hends n hn).trans hsame⟩

end Server

namespace Client
variable {env : Env} {n : Nat} {s t : Endpoint} {frames : List Frame}

/-- What `_parseFrames` asks of a frame before it cuts it off. -/
def acceptFrame (s : Endpoint) (frame : Frame) : Except Exn Unit :=
  if s.conn.state = .handshake ∧ frame.data ≠ connectionSecured then .error handshakeFailed else .ok ()

/-- One round of `_parseFrames`. -/
def parseRound (env : Env) (s : Endpoint) : Reading (Next UInt8 Frame Refusal) :=
  Recorded.takeFrame env.evp s.conn.maxFrameSize true s.conn.aesKey (acceptFrame s) s.conn.frameBuffer

/-- The connection after a round that has taken a frame: during the handshake that is the confirmation. -/
def Endpoint.take (s : Endpoint) (frame : Frame) (rest : Bytes) : Endpoint :=
  (if s.conn.state = .handshake then s.confirm (some frame) else s).setBuffer rest

/-- What the loop does after a round. The confirmation is not collected. -/
def afterRound (env : Env) (n : Nat) (s : Endpoint) (frames : List Frame) :
    Except Exn (Next UInt8 Frame Refusal) → Except Exn (List Frame) × Endpoint
  | .error (.fmxp _) => closeThen s frames
  | .error e => (.error e, s)
  | .ok .wait => (.ok frames, s)
  | .ok (.bad _) => closeThen s frames
  | .ok (.item frame rest) =>
    parseFrames env n (s.take frame rest) (if s.conn.state = .handshake then frames else frames ++ [frame])

/-- The connection with which the loop goes round again. -/
def again (s : Endpoint) : Next UInt8 Frame Refusal → Option Endpoint
  | .item frame rest => some (s.take frame rest)
  | _ => none

/-- `t` is the connection before some round of the loop. -/
abbrev Comes (env : Env) (s t : Endpoint) : Prop := Traced.Comes (parseRound env) again s t

/-- What the first `n` rounds touch. -/
def parseTouched (env : Env) (n : Nat) (s : Endpoint) : List Touch := Traced.rounds (parseRound env) again n s

/-- What is promised of `_parseFrames`, as on the server. -/
structure ParsesSafely (env : Env) (s : Endpoint) : Prop where
  touches : ∀ n, ∀ touch ∈ parseTouched env n s, touch.Safe
  removes : ∀ t u next, Comes env s t → (parseRound env t).result = .ok next → again t next = some u →
    u.conn.frameBuffer.length + 9 ≤ t.conn.frameBuffer.length
  ends : ∃ p, InBounds p.1 ∧ ∀ n, s.conn.frameBuffer.length < 9 * n → parseFrames env n s [] = p

/-- No frame that comes to be decrypted has `2 ^ 31` bytes of ciphertext or more. -/
def FramesSmall (env : Env) (s : Endpoint) : Prop :=
  ∀ t, Comes env s t → ∀ raw size, leadingFrame t.conn.maxFrameSize t.conn.frameBuffer = .ok (.frame raw size) →
    Recorded.Decrypts raw t.conn.aesKey → raw.length < 2 ^ 31 + 37

/-- **`_parseFrames` is its rounds.** -/
theorem parseFrames_round (env : Env) (n : Nat) (s : Endpoint) (frames : List Frame) :
    parseFrames env (n + 1) s frames = afterRound env n s frames (parseRound env s).result := by
  obtain ⟨lead, hlead⟩ := leadingFrame_total s.conn.maxFrameSize s.conn.frameBuffer
  unfold parseRound
  cases lead with
  | incomplete => simp only [parseFrames, hlead, Recorded.result_takeFrame_incomplete hlead, afterRound]
  | invalid => simp only [parseFrames, hlead, Recorded.result_takeFrame_invalid hlead, afterRound]
  | tooLong => simp only [parseFrames, hlead, Recorded.result_takeFrame_tooLong hlead, afterRound]
  | frame raw size =>
    have hslice := slice_suffix (leadingFrame_frame hlead).2.2.1
    rw [Recorded.result_takeFrame_frame hlead]
    cases hdecode : decodeFrame env.evp raw true s.conn.aesKey with
    | error e =>
      simp only [parseFrames, hlead, hdecode, Except.bind]
      cases e <;> rfl
    | ok frame =>
      by_cases hstate : s.conn.state = .handshake
      · by_cases hdata : frame.data = connectionSecured
        · simp only [parseFrames, hlead, hdecode, hstate, hslice, hdata, if_true, Except.bind, acceptFrame, ne_eq,
            not_true_eq_false, and_false, if_false, afterRound, Endpoint.take]
          rfl
        · simp only [parseFrames, hlead, hdecode, hstate, hdata, if_true, if_false, Except.bind, acceptFrame, ne_eq,
            not_false_eq_true, and_self]
          rfl
      · simp only [parseFrames, hlead, hdecode, hstate, hslice, if_false, Except.bind, acceptFrame, false_and,
          afterRound, Endpoint.take]
        rfl

theorem parseTouched_safe_iff : (∀ n, ∀ touch ∈ parseTouched env n s, touch.Safe) ↔ FramesSmall env s := by
  refine Traced.rounds_all_iff.trans (forall_congr' fun t => imp_congr_right fun _ => ?_)
  simp only [parseRound, Recorded.takeFrame_safe_iff, true_implies]

/-- A round that goes on has taken a header off the buffer. -/
theorem again_shorter {next : Next UInt8 Frame Refusal} (hround : (parseRound env s).result = .ok next)
    (h : again s next = some t) : t.conn.frameBuffer.length + 9 ≤ s.conn.frameBuffer.length := by
  cases next with
  | wait => cases h
  | bad r => cases h
  | item frame rest =>
    cases h
    exact Recorded.takeFrame_shorter hround

theorem Comes.length_le (h : Comes env s t) : t.conn.frameBuffer.length ≤ s.conn.frameBuffer.length := by
  induction h with
  | here => exact Nat.le_refl _
  | next hround hagain _ ih =>
    have hshorter := again_shorter hround hagain
    omega

/-- A buffer that is not that long holds no such frame. -/
theorem FramesSmall.of_length (h : s.conn.frameBuffer.length < 2 ^ 31 + 37) : FramesSmall env s := by
  intro t ht raw size hlead _
  obtain ⟨hraw, _, _, _⟩ := leadingFrame_frame hlead
  have hle := Comes.length_le ht
  rw [hraw, List.length_take]
  omega

theorem closeThen_inBounds (s : Endpoint) (frames : List Frame) : InBounds (closeThen s frames).1 := by
  have hclose : InBounds (close .epoll s).1 := by
    unfold close
    split
    · exact .ok ()
    · dsimp only
      split
      · exact ⟨nofun, nofun⟩
      · exact .ok ()
  unfold closeThen
  cases h : close .epoll s with
  | mk r t =>
    rw [h] at hclose
    cases r with
    | ok u => exact .ok frames
    | error e =>
      refine ⟨fun heq => hclose.1 ?_, fun what heq => hclose.2 what ?_⟩
      · rw [Except.error.inj heq]
      · rw [Except.error.inj heq]

/-- What a round throws is what the decoder does, or that the handshake has failed. -/
theorem parseRound_thrown {e : Exn} (h : (parseRound env s).result = .error e) :
    (∃ x, e = .fmxp x) ∨ ∃ x, e = .runtime x := by
  rcases Recorded.takeFrame_error h with ⟨raw, hdecode⟩ | ⟨frame, haccept⟩
  · exact (decodeFrame_error hdecode).imp (fun ⟨msg, he⟩ => ⟨_, he⟩) id
  · unfold acceptFrame at haccept
    split at haccept
    · cases haccept
      exact .inr ⟨_, rfl⟩
    · cases haccept

/-- Rounds beyond a ninth of the buffer change nothing, and no outcome is out of bounds. -/
theorem parseFrames_ends (hn : s.conn.frameBuffer.length < 9 * n) :
    ∃ p, InBounds p.1 ∧ ∀ m, s.conn.frameBuffer.length < 9 * m → parseFrames env m s frames = p := by
  induction n generalizing s frames with
  | zero => omega
  | succ n ih =>
    -- What follows this round does not depend on how many more are allowed.
    have hafter : ∀ {p}, InBounds p.1 → (∀ m, s.conn.frameBuffer.length < 9 * (m + 1) →
        afterRound env m s frames (parseRound env s).result = p) →
          ∃ p, InBounds p.1 ∧ ∀ m, s.conn.frameBuffer.length < 9 * m → parseFrames env m s frames = p := by
      intro p hp hsame
      refine ⟨p, hp, fun m hm => ?_⟩
      cases m with
      | zero => omega
      | succ m => rw [parseFrames_round, hsame m hm]
    cases hround : (parseRound env s).result with
    | error e =>
      rcases parseRound_thrown hround with ⟨x, rfl⟩ | ⟨x, rfl⟩
      · exact hafter (closeThen_inBounds s frames) fun m _ => by rw [hround, afterRound]
      · exact hafter (p := (.error (.runtime x), s)) (.runtime x) fun m _ => by rw [hround]; rfl
    | ok next =>
      cases next with
      | wait => exact hafter (p := (.ok frames, s)) (.ok frames) fun m _ => by rw [hround, afterRound]
      | bad r => exact hafter (closeThen_inBounds s frames) fun m _ => by rw [hround, afterRound]
      | item frame rest =>
        have hshorter := again_shorter (t := s.take frame rest) hround rfl
        obtain ⟨p, hp, hends⟩ := @ih (s.take frame rest)
          (if s.conn.state = .handshake then frames else frames ++ [frame]) (by omega)
        refine hafter hp fun m hm => ?_
        rw [hround, afterRound]
        exact hends m (by omega)

/-- **The client's loop keeps the promise** exactly when no frame is too large to be decrypted. -/
theorem parsesSafely_iff : ParsesSafely env s ↔ FramesSmall env s := by
  rw [← parseTouched_safe_iff]
  refine ⟨fun h => h.touches, fun htouches => ⟨htouches, fun t u next _ => again_shorter, ?_⟩⟩
  obtain ⟨p, hp, hends⟩ := @parseFrames_ends env (s.conn.frameBuffer.length + 1) s [] (by omega)
  exact ⟨p, hp, hends⟩

end Client

/-- **Parsing hostile bytes**, on either side, in every state, for every buffer, key and limit: what is recorded of the
decoder and of the rounds of the two loops is what they compute, and the promise is kept exactly when no
frame is too large to be decrypted, and on the server a close that has to be made returns. -/
theorem parse_safe_iff (evp : Evp) (data key : Bytes) (encrypted : Bool) (server : Server.Env) (s : Server.Endpoint)
    (client : Client.Env) (c : Client.Endpoint) :
    ((Recorded.decodeFrame evp data encrypted key).result = decodeFrame evp data encrypted key ∧
      ((∀ touch ∈ (Recorded.decodeFrame evp data encrypted key).touched, touch.Safe) ↔
        (encrypted = true → Recorded.Decrypts data key → data.length < 2 ^ 31 + 37))) ∧
    ((∀ depth n frames, Server.parseFrames server depth (n + 1) s frames =
        Server.afterRound server depth n s frames (Server.parseRound server s).result) ∧
      (Server.ParsesSafely server s ↔ Server.FramesSmall server s ∧
        (Server.Declines server s → s.conn.state = .closed ∨ Server.CloseReturns server .invalidRequest s))) ∧
    (∀ n frames, Client.parseFrames client (n + 1) c frames =
        Client.afterRound client n c frames (Client.parseRound client c).result) ∧
      (Client.ParsesSafely client c ↔ Client.FramesSmall client c) :=
  ⟨⟨Recorded.result_decodeFrame .., Recorded.decodeFrame_safe_iff⟩,
    ⟨fun depth n frames => Server.parseFrames_round server depth n s frames, Server.parsesSafely_iff⟩,
    fun n frames => Client.parseFrames_round client n c frames, Client.parsesSafely_iff⟩

/-- A session with two requests in its buffer, and 29 bytes behind them that are no frame. -/
def Server.requestsAndGarbage : Server.Endpoint :=
  {conn := {
    fd := 5, connId := 1, maxFrameSize := 4096, state := .active, aesKey := List.replicate 32 5, ssid := 7,
    inFrameBuffer := Server.requestRaw ++ Server.requestRaw ++ List.replicate 29 0, rsaPrivKey := []}}

/-- A handshake whose confirmation has come, with a response and such bytes behind it. -/
def Client.responseAndGarbage : Client.Endpoint :=
  {conn := {
    pubKey := [], socket := 3, epollFd := 4, cmdEvFd := 5, maxFrameSize := 4096, aesKey := List.replicate 32 5,
    frameBuffer := Client.confirmationRaw ++ Client.responseRaw ++ List.replicate 29 0}}

/-- Both loops take the frames, refuse what is behind them, and keep the promise. -/
theorem garbage_parsed :
    (Server.parseTouched Server.quietEnv 4 Server.requestsAndGarbage).length = 59 ∧
      Server.Declines Server.quietEnv Server.requestsAndGarbage ∧
      Server.ParsesSafely Server.quietEnv Server.requestsAndGarbage ∧
      (Client.parseTouched Client.quietEnv 4 Client.responseAndGarbage).length = 59 ∧
      Client.ParsesSafely Client.quietEnv Client.responseAndGarbage := by
  have hsafe := parse_safe_iff Evp.transparent [] [] false Server.quietEnv Server.requestsAndGarbage Client.quietEnv
    Client.responseAndGarbage
  have hrefuses : Server.Declines Server.quietEnv Server.requestsAndGarbage := by
    show ((Server.requestsAndGarbage.conn.framer Server.quietEnv.evp).drain
      Server.requestsAndGarbage.conn.inFrameBuffer).bad ≠ none
    decide +kernel
  refine ⟨by decide +kernel, hrefuses, hsafe.2.1.2.mpr ⟨.of_length (by decide +kernel), fun _ => ?_⟩,
    by decide +kernel, hsafe.2.2.2.mpr (.of_length (by decide +kernel))⟩
  exact .inr (.inr (.inr ⟨rfl, .inl (Server.takes_of_pos (fun i _ => Server.quietEnv_send i) _)⟩))

/-- **29 bytes that are no frame, before the handshake: the server's loop does not end.** -/
theorem garbage_parse_stuck : Reachable (Server.lifecycle Server.quietEnv) Server.accepted5 ∧
    ¬ Server.ParsesSafely Server.quietEnv (Server.accepted5.receive (List.replicate 29 0)) := by
  refine ⟨.init Server.accepted5_fresh, fun h => ?_⟩
  have hreturns := (Server.parsesSafely_iff.mp h).2 ?_
  · rcases hreturns with hclosed | hfd | hreason | ⟨hkey, _⟩
    · cases hclosed
    · cases hfd
    · cases hreason
    · cases hkey
  · show ∃ r, (frameFramer Server.quietEnv.evp 4096 false []).next (List.replicate 29 0) = .bad r
    exact ⟨.protocol, rfl⟩

end Fmxp
