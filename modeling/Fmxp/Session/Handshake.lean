import Fmxp.Client.Lifecycle
import Fmxp.Server.Closing

/-! The handshake, from the payload a client sends to the confirmation it receives.

The server compares the clock value in the payload with its own by a subtraction of the
later from the earlier, in 32 bits. For clocks that have not drifted apart by almost
`2 ^ 32` seconds the difference wraps, so a payload is accepted in the second it was made
and in no later one (`acceptedKey_window`). What is not accepted is not refused either: there is no
key to say farewell with, and the read never returns (`refused_never`). `handshake_window_iff` says for
every pair of clock values whether both endpoints do what the acceptance window promises. -/
namespace Fmxp
open Framing Transition

/-! ### The window -/

/-- With `t` not after `n`, the test on `t - n` refuses except in the same second and in the
last 60 before the clocks are `2 ^ 32` apart. -/
theorem window_sub {t n : UInt32} (h : t ≤ n) :
    t - n > 60 ↔ t ≠ n ∧ n.toNat - t.toNat < 2 ^ 32 - 60 := by
  have hle : t.toNat ≤ n.toNat := UInt32.le_iff_toNat_le.mp h
  have hn := n.toNat_lt
  have hne : t ≠ n ↔ t.toNat ≠ n.toNat := not_congr UInt32.toNat_inj.symm
  rw [gt_iff_lt, UInt32.lt_iff_toNat_lt, UInt32.toNat_sub, hne]
  show 60 < _ ↔ _
  omega

namespace Server

/-- What the server makes of a payload made with the matching public key. -/
theorem acceptedKey_window {rsa : Rsa} {publicKey privateKey seed key payload : Bytes} {t : UInt32}
    (hpair : rsa.KeyPair publicKey privateKey) (hkey : key.length = 32)
    (hpayload : rsaEncrypt rsa seed (key ++ u32ToStr t) publicKey = .ok payload) (n : UInt32) :
    acceptedKey rsa payload privateKey n = if t - n > 60 then none else some key := by
  have hdecrypt : rsaDecrypt rsa payload privateKey = .ok (key ++ u32ToStr t) := hpair _ _ _ hpayload
  have hlen : (key ++ u32ToStr t).length = 32 + 4 := by rw [List.length_append, hkey, length_u32ToStr]
  have hstamp : ptrToU32 ((key ++ u32ToStr t).drop 32) = some t := by
    rw [List.drop_left' hkey, ← List.append_nil (u32ToStr t), ptrToU32_u32ToStr]
  simp only [acceptedKey, hdecrypt, hlen, if_true, hstamp, Option.bind_some, List.take_left' hkey]

/-! ### What the server does -/

/-- This read completes a handshake request that carries `payload`. -/
def Offered (env : Env) (input : Recv) (payload rest : Bytes) (s : Endpoint) : Prop :=
  input.fin = .again ∧ ∃ frame, frame.data = payload ∧
    (frameFramer env.evp s.conn.maxFrameSize false []).next (s.conn.inFrameBuffer ++ input.bytes) =
      .item frame rest

/-- The request is refused: `readFd` returns, the connection is closed, and no key is stored. -/
def Refused (env : Env) (input : Recv) (now : UInt32) (s : Endpoint) : Prop :=
  ∃ depth t, readFd env depth input now s = some (.ok false, t) ∧ t.conn.state = .closed ∧ t.conn.aesKey = []

end Server

/-- A client in the handshake under `key` takes `raw` for the confirmation of session `ssid`:
it is connected once that has arrived, if nothing it reads behind it is refused. -/
def Client.Confirms (evp : Evp) (key raw : Bytes) (ssid : UInt64) : Prop :=
  ∀ (env : Client.Env) (input : Recv) (c : Client.Endpoint) (rest : Bytes), env.evp = evp →
    c.conn.state = .handshake → c.conn.aesKey = key → raw.length ≤ c.conn.maxFrameSize.toNat →
    (Client.heard input c).fin = .again →
    c.conn.frameBuffer ++ (Client.heard input c).bytes = raw ++ rest →
    ((c.conn.framer evp).drain rest).bad = none →
    (Client.receive env input c).2.conn.state = .connected ∧ (Client.receive env input c).2.conn.ssid = ssid

namespace Server

/-- The request is accepted: `readFd` returns, the key is stored, the connection is active, and
what it has encoded first is the confirmation of its session to a client with that key. -/
def Accepted (env : Env) (input : Recv) (now : UInt32) (key : Bytes) (s : Endpoint) : Prop :=
  ∃ depth t raw outs, readFd env depth input now s = some (.ok true, t) ∧ t.conn.aesKey = key ∧
    t.conn.state = .active ∧ t.log = s.log ++ .secured key t.conn.ssid :: .encoded key raw :: outs ∧
    Client.Confirms env.evp key raw t.conn.ssid

/-- The bytes of the confirmation on the wire. -/
def confirmationSize : Nat := headerSize + 28 + bodyHeaderSize + connectionSecured.length

end Server

/-- The encoding of a confirmation is taken for one by the client. -/
theorem confirms_encoded {evp : Evp} {iv : Block 12} {key raw : Bytes} {frame : Frame} {r : UInt32}
    (hpath : frame.path = []) (hdata : frame.data = connectionSecured)
    (henc : encodeFrame evp iv frame true key r = .ok raw) : Client.Confirms evp key raw frame.ssid := by
  have hsize : frame.bodySize = 38 := by
    simp only [Frame.bodySize, hpath, hdata]
    rfl
  have hdec := decodeFrame_encodeFrame (by rw [hpath]; decide) (by rw [hsize]; decide) henc
  have hraw := length_encodeFrame henc
  obtain ⟨body, _, rfl⟩ := encodeFrame_encrypted_ok henc
  rw [hsize, length_withHeader] at hraw
  have hlen : body.length = 66 := Nat.add_left_cancel (hraw.trans rfl)
  rintro env input c rest rfl hstate hkey hmax hfin hbytes hrest
  rw [length_withHeader] at hmax
  -- The front of the buffer is the confirmation.
  have hnext : (c.conn.framer env.evp).next (withHeader body ++ rest) = .item (frame.renumber r) rest := by
    have hok : (decodeFrame env.evp (withHeader body) true c.conn.aesKey).mapError Refusal.rejected =
        .ok (frame.renumber r) := by
      rw [hkey, hdec]
      rfl
    exact Framer.decode_ok _ _ (wireFramer_encoded (by rw [hlen]; decide) hmax rest) hok
  have hparsed : c.conn.parsed env.evp (withHeader body ++ rest) =
      c.conn.parsedSession env.evp (some (frame.renumber r)) rest := by
    have hsecured : (frame.renumber r).data = connectionSecured := hdata
    unfold Client.Connection.parsed
    rw [if_pos hstate, hnext]
    exact if_pos hsecured
  have hreceive := @Client.receive_parse env input c (.inl hfin)
  rw [hbytes, hparsed] at hreceive
  simp only [Client.Connection.parsedSession, hrest] at hreceive
  rw [hreceive]
  exact ⟨rfl, rfl⟩

namespace Server

/-- The first frame encoded under an accepted key is the confirmation. -/
theorem setAesKey_log {env : Env} {depth : Nat} {key : Bytes} {s t : Endpoint}
    (hs : s.conn.state = .closed → s.conn.fd = -1) (hkey : key.length = 32)
    (h : setAesKey env depth key s = some t) :
    ∃ raw outs, encodeFrame env.evp (env.iv s.ivs) (s.confirmation env) true key (s.conn.fid + 1) = .ok raw ∧
      t.log = s.log ++ .secured key env.rand64 :: .encoded key raw :: outs := by
  have hsize : (s.confirmation env).bodySize = 38 := rfl
  have htotal := encodeFrame_total env.evp (env.iv s.ivs) (s.confirmation env) (s.conn.fid + 1) hkey
  rw [hsize, if_pos (by decide)] at htotal
  obtain ⟨raw, henc⟩ := htotal
  rw [setAesKey_eq] at h
  obtain ⟨u, hu, rfl⟩ := Option.map_eq_some_iff.mp h
  obtain ⟨outs, hlog⟩ := sendFrame_log (s := s.secure env key) hs henc hu
  refine ⟨raw, outs, henc, hlog.trans ?_⟩
  show (s.log ++ [.secured key env.rand64]) ++ .encoded key raw :: outs = _
  rw [List.append_assoc, List.singleton_append]

section
variable {env : Env} {input : Recv} {payload rest : Bytes} {s : Endpoint}

theorem Offered.readFd (h : Offered env input payload rest s) (hfd : s.conn.fd ≠ -1)
    (hstate : s.conn.state = .handshake) (depth : Nat) (now : UInt32) :
    readFd env depth input now s =
      match acceptedKey env.rsa payload s.conn.rsaPrivKey now with
      | none => (closeConnection env depth .encryptionError true (s.setBuffer rest)).map (Prod.mk (.ok false))
      | some key => (setAesKey env depth key (s.setBuffer rest)).map (Prod.mk (.ok true)) := by
  obtain ⟨hfin, frame, rfl, hnext⟩ := h
  rw [readFd_handshake hfd hstate hfin, hnext]
  exact acceptHandshake_eq env depth frame.data now (s.setBuffer rest)

variable (hs : WellFormed env s) (hstate : s.conn.state = .handshake) (h : Offered env input payload rest s)
include hs hstate h

/-- A request whose payload is not accepted keeps the server for ever. -/
theorem stuck_of_none {now : UInt32} (hnone : acceptedKey env.rsa payload s.conn.rsaPrivKey now = none)
    (depth : Nat) : readFd env depth input now s = none := by
  obtain ⟨hfd, hkey, _, _⟩ := hs.handshake hstate
  have hopen : s.conn.state ≠ .closed := by
    rw [hstate]
    decide
  have hlen : s.conn.aesKey.length ≠ 32 := by
    rw [hkey]
    decide
  rw [h.readFd hfd hstate, hnone]
  exact congrArg (Option.map _)
    (closeConnection_stuck env depth true (s := s.setBuffer rest) hopen hfd hlen (by decide))

/-- No request is refused. -/
theorem refused_never (now : UInt32) : ¬ Refused env input now s := by
  rintro ⟨depth, t, ht, _⟩
  cases hoffered : acceptedKey env.rsa payload s.conn.rsaPrivKey now with
  | none =>
    rw [stuck_of_none hs hstate h hoffered] at ht
    cases ht
  | some key =>
    rw [h.readFd (hs.handshake hstate).1 hstate, hoffered] at ht
    obtain ⟨u, _, heq⟩ := Option.map_eq_some_iff.mp ht
    cases heq

/-- A request is accepted with a key exactly when its payload carries that key, and the
confirmation, or a farewell after it, goes out. -/
theorem accepted_iff (now : UInt32) (key : Bytes) :
    Accepted env input now key s ↔ acceptedKey env.rsa payload s.conn.rsaPrivKey now = some key ∧
      GoesOut env.send s.sends confirmationSize := by
  obtain ⟨hfd, hempty, _, _⟩ := hs.handshake hstate
  have hopen : s.conn.state ≠ .closed := by
    rw [hstate]
    decide
  have hclosed : (s.setBuffer rest).conn.state = .closed → (s.setBuffer rest).conn.fd = -1 :=
    fun hc => absurd hc hopen
  have hread := fun depth => h.readFd hfd hstate depth now
  constructor
  · rintro ⟨depth, t, raw, outs, ht, hkey, _⟩
    rw [hread] at ht
    cases hoffered : acceptedKey env.rsa payload s.conn.rsaPrivKey now with
    | none =>
      simp only [hoffered] at ht
      obtain ⟨u, _, heq⟩ := Option.map_eq_some_iff.mp ht
      cases heq
    | some stored =>
      simp only [hoffered] at ht
      obtain ⟨u, hset, heq⟩ := Option.map_eq_some_iff.mp ht
      cases heq
      obtain ⟨v, hkeeps, _, rfl⟩ := setAesKey_keeps hclosed hset
      have hstored : stored = key := hkeeps.aesKey.symm.trans hkey
      exact ⟨congrArg some hstored, (setAesKey_returns_iff env (s := s.setBuffer rest) hfd hopen
        (length_acceptedKey hoffered)).mp ⟨depth, _, hset⟩⟩
  · rintro ⟨hoffered, hgoes⟩
    have hlen := length_acceptedKey hoffered
    obtain ⟨depth, t, ht⟩ := (setAesKey_returns_iff env (s := s.setBuffer rest) hfd hopen hlen).mpr hgoes
    obtain ⟨v, hkeeps, _, hend⟩ := setAesKey_keeps hclosed ht
    obtain ⟨raw, outs, henc, hlog⟩ := setAesKey_log hclosed hlen ht
    have hkey : t.conn.aesKey = key := by
      rw [hend]
      exact hkeeps.aesKey
    have hssid : t.conn.ssid = env.rand64 := by
      rw [hend]
      exact hkeeps.ssid
    have hactive : t.conn.state = .active := by
      rw [hend]
      rfl
    refine ⟨depth, t, raw, outs, ?_, hkey, hactive, ?_, ?_⟩
    · rw [hread, hoffered]
      exact congrArg (Option.map _) ht
    · rw [hssid]
      exact hlog
    · rw [hssid]
      exact confirms_encoded rfl rfl henc

end

/-- **The acceptance window.** A client's clock reads `t` when it makes the payload and the
server's `n` when it reads it. The promise is that the request is accepted when `n` is less than
60 seconds after `t`, and refused when it is more. It is kept in the same second, if the
confirmation goes out, and when the difference is 60, of which nothing is promised. -/
theorem handshake_window_iff {env : Env} {input : Recv} {s : Endpoint} {publicKey seed key payload rest : Bytes}
    {t n : UInt32} (hs : Reachable (lifecycle env) s) (hstate : s.conn.state = .handshake)
    (hpair : env.rsa.KeyPair publicKey s.conn.rsaPrivKey) (hkey : key.length = 32) (htn : t ≤ n)
    (hpayload : rsaEncrypt env.rsa seed (key ++ u32ToStr t) publicKey = .ok payload)
    (h : Offered env input payload rest s) :
    ((n.toNat - t.toNat < 60 → Accepted env input n key s) ∧
      (60 < n.toNat - t.toNat → Refused env input n s)) ↔
    (t = n ∧ GoesOut env.send s.sends confirmationSize) ∨ n.toNat - t.toNat = 60 := by
  have hwf := reachable_wellFormed hs
  have hwindow := acceptedKey_window hpair hkey hpayload n
  have hnever := refused_never hwf hstate h n
  rw [accepted_iff hwf hstate h, hwindow]
  by_cases hsame : t = n
  · simp [hsame]
  have hne : n.toNat - t.toNat ≠ 0 := by
    have hle : t.toNat ≤ n.toNat := UInt32.le_iff_toNat_le.mp htn
    have hdiffer : t.toNat ≠ n.toNat := fun heq => hsame (UInt32.toNat_inj.mp heq)
    omega
  by_cases hearly : n.toNat - t.toNat < 60
  · -- A second or more has passed, and the difference of the clocks has wrapped.
    have hlate : n.toNat - t.toNat < 2 ^ 32 - 60 := by omega
    simp only [if_pos ((window_sub htn).mpr ⟨hsame, hlate⟩), hearly, hsame, reduceCtorEq, false_and, false_or,
      forall_const, false_iff]
    omega
  · simp only [hnever, hearly, hsame, false_and, false_or, false_implies, true_and, imp_false]
    omega

/-- A request read in the second it was made is accepted. -/
theorem accepted5_same_second : Accepted quietEnv (.once (handshakeRaw 100)) 100 (List.replicate 32 5) accepted5 := by
  have hpair : quietEnv.rsa.KeyPair [] accepted5.conn.rsaPrivKey := by
    intro seed plaintext ciphertext h
    exact congrArg _ (Except.ok.inj h).symm
  have hoffered : Offered quietEnv (.once (handshakeRaw 100)) (List.replicate 32 5 ++ u32ToStr 100) [] accepted5 :=
    ⟨rfl, handshake5 100, rfl, rfl⟩
  have hgoes : GoesOut quietEnv.send accepted5.sends confirmationSize :=
    .inl (.call (by decide) (by decide) .done)
  exact ((handshake_window_iff (.init accepted5_fresh) rfl hpair rfl (UInt32.le_refl 100)
    (rfl : rsaEncrypt _ [] _ _ = _) hoffered).mpr (.inl ⟨rfl, hgoes⟩)).1 (by decide)

/-- **A request read one second after it was made is not accepted**: the read never returns. -/
theorem accepted5_next_second :
    Reachable (lifecycle quietEnv) accepted5 ∧
      rsaEncrypt quietEnv.rsa [] (List.replicate 32 5 ++ u32ToStr 99) [] =
        .ok (List.replicate 32 5 ++ u32ToStr 99) ∧
      Offered quietEnv (.once (handshakeRaw 99)) (List.replicate 32 5 ++ u32ToStr 99) [] accepted5 ∧
      acceptedKey quietEnv.rsa (List.replicate 32 5 ++ u32ToStr 99) accepted5.conn.rsaPrivKey 100 = none ∧
      (∀ depth, readFd quietEnv depth (.once (handshakeRaw 99)) 100 accepted5 = none) ∧
      ¬ Accepted quietEnv (.once (handshakeRaw 99)) 100 (List.replicate 32 5) accepted5 := by
  have hfresh : Reachable (lifecycle quietEnv) accepted5 := .init accepted5_fresh
  have hoffered : Offered quietEnv (.once (handshakeRaw 99)) (List.replicate 32 5 ++ u32ToStr 99) [] accepted5 :=
    ⟨rfl, handshake5 99, rfl, rfl⟩
  have hnone : acceptedKey quietEnv.rsa (List.replicate 32 5 ++ u32ToStr 99) accepted5.conn.rsaPrivKey 100 =
      none := by
    decide +kernel
  have hwf := reachable_wellFormed hfresh
  refine ⟨hfresh, rfl, hoffered, hnone, stuck_of_none hwf rfl hoffered hnone, fun haccepted => ?_⟩
  rw [accepted_iff hwf rfl hoffered, hnone] at haccepted
  cases haccepted.1

end Server

end Fmxp
