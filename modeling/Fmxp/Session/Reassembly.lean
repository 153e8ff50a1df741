import Fmxp.Core.RoundTrip
import Fmxp.Server.Lifecycle
import Fmxp.Client.Lifecycle

/-! Streams of encoded frames, however they are cut into reads.

`Encoding` is what a peer in the same session puts on the wire for one frame. A stream of
encodings and a part of one more is, to both parsers, the frames and the part left over
(`SessionStream.feed`); an endpoint that reads it in any number of reads hands over those frames,
once and in order (`reassembly`). -/
namespace Fmxp
open Framing

/-- `raw` is the encoding of `frame` under `key`: its body goes through the cipher whole, and
with header, IV and tag it is within the limit. -/
structure Encoding (evp : Evp) (key : Bytes) (max : UInt32) (frame : Frame) (raw : Bytes) : Prop where
  encoded : ∃ iv, encodeFrame evp iv frame true key = .ok raw
  path : frame.path.length ≤ 65535
  size : headerSize + 28 + frame.bodySize ≤ max.toNat

section
variable {evp : Evp} {key : Bytes} {max : UInt32}

/-- The encoder takes no body of `2 ^ 31` bytes or more that would be within the limit. -/
theorem Encoding.bodySize {frame : Frame} {raw : Bytes} (h : Encoding evp key max frame raw) :
    frame.bodySize < 2 ^ 31 := by
  obtain ⟨iv, henc⟩ := h.encoded
  have hsize := h.size
  have hmax := max.toNat_lt
  obtain ⟨c, hc, _⟩ := encodeFrame_encrypted_ok henc
  obtain ⟨_, hint, _⟩ := aesEncrypt_ok hc
  rw [length_frameBody] at hint
  simp only [cInt] at hint
  split at hint <;> omega

theorem Encoding.wire {frame : Frame} {raw : Bytes} (h : Encoding evp key max frame raw) :
    decodeFrame evp raw true key = .ok frame ∧
      ∃ c, raw = withHeader c ∧ bodyHeaderSize ≤ c.length ∧ headerSize + c.length ≤ max.toNat := by
  obtain ⟨iv, henc⟩ := h.encoded
  have hsize := h.size
  have hbody : bodyHeaderSize ≤ frame.bodySize := by
    simp only [Frame.bodySize]
    omega
  have hint : cInt frame.bodySize = frame.bodySize := cInt_of_lt h.bodySize
  have hlen := length_encodeFrame henc
  obtain ⟨c, _, hc⟩ := encodeFrame_encrypted_ok henc
  rw [hint, Int.toNat_natCast, hc, length_withHeader] at hlen
  exact ⟨decodeFrame_encodeFrame (Nat.lt_succ_of_le h.path) h.bodySize henc, c, hc, by omega, by omega⟩

theorem Encoding.next {frame : Frame} {raw : Bytes} (h : Encoding evp key max frame raw) (x : Bytes) :
    (frameFramer evp max true key).next (raw ++ x) = .item frame x := by
  obtain ⟨hdec, c, rfl, hmin, hfit⟩ := h.wire
  have hok : (decodeFrame evp (withHeader c) true key).mapError Refusal.rejected = .ok frame := by
    rw [hdec]
    rfl
  exact Framer.decode_ok _ _ (wireFramer_encoded hmin hfit x) hok

theorem Encoding.part {frame : Frame} {raw p : Bytes} (h : Encoding evp key max frame raw)
    (hp : p <+: raw) (hne : p ≠ raw) : (frameFramer evp max true key).next p = .wait := by
  obtain ⟨_, c, rfl, hmin, hfit⟩ := h.wire
  exact Framer.decode_wait _ _ (wireFramer_short hmin hfit hp hne)

end

/-- Encodings of frames of a session, with fids above the last one received, and a proper
part `p` of one more encoding. -/
structure SessionStream (evp : Evp) (key : Bytes) (max : UInt32) (ssid : UInt64) (last : UInt32)
    (encoded : List (Frame × Bytes)) (p stream : Bytes) : Prop where
  limit : max.toNat < 2 ^ 31
  encodings : ∀ e ∈ encoded, Encoding evp key max e.1 e.2
  ssid : ∀ e ∈ encoded, e.1.ssid = ssid
  fresh : Fresh last (encoded.map Prod.fst)
  part : ∃ frame raw, Encoding evp key max frame raw ∧ p <+: raw ∧ p ≠ raw
  stream : stream = (encoded.map Prod.snd).flatten ++ p

section
variable {evp : Evp} {key : Bytes} {max : UInt32} {ssid : UInt64} {last : UInt32}
  {encoded : List (Frame × Bytes)} {p : Bytes}

/-- Such a stream, cut into batches, as both parsers take it apart. -/
theorem SessionStream.feed {batches : List Bytes}
    (h : SessionStream evp key max ssid last encoded p batches.flatten) :
    (frameFramer evp max true key).feed [] batches = ⟨encoded.map Prod.fst, p, none⟩ := by
  obtain ⟨frame, raw, hlast, hp, hne⟩ := h.part
  have hempty : (frameFramer evp max true key).next [] = .wait := Framer.decode_wait _ _ rfl
  have hdrain := Framer.drain_encodings _ encoded p (fun e he => (h.encodings e he).next)
    (hlast.part hp hne)
  obtain ⟨hitems, hbad, hrest⟩ := (frameFramer evp max true key).feed_eq [] batches hempty
  rw [List.nil_append, h.stream, hdrain] at hitems hbad hrest
  cases hfeed : (frameFramer evp max true key).feed [] batches with
  | mk items rest bad =>
    rw [hfeed] at hitems hbad hrest
    rw [show items = _ from hitems, show bad = _ from hbad, show rest = _ from hrest rfl]

theorem SessionStream.frames_ssid {stream : Bytes}
    (h : SessionStream evp key max ssid last encoded p stream) : ∀ f ∈ encoded.map Prod.fst, f.ssid = ssid := by
  intro f hf
  obtain ⟨e, he, rfl⟩ := List.mem_map.mp hf
  exact h.ssid e he

end

/-! ### The server -/

namespace Server

/-- One call of `readFd` after the other, as long as it says that the connection goes on. -/
def readAll (env : Env) (depth : Nat) : List (Recv × UInt32) → Endpoint → Option Endpoint
  | [], s => some s
  | (input, now) :: reads, s =>
    match readFd env depth input now s with
    | some (.ok true, s) => readAll env depth reads s
    | _ => none

theorem handOver_handOver (s : Endpoint) (xs ys : List Frame) (b b' : Bytes) :
    (((s.setBuffer b).handOver xs).setBuffer b').handOver ys = (s.setBuffer b').handOver (xs ++ ys) := by
  simp [Endpoint.handOver, Endpoint.setBuffer, Endpoint.modify, lastFid]

/-- Reads that amount to good frames with increasing fids hand over those frames. -/
theorem readAll_feed {env : Env} {depth : Nat} {reads : List (Recv × UInt32)} {s : Endpoint}
    {frames : List Frame} {rest : Bytes} (hfd : s.conn.fd ≠ -1) (hstate : s.conn.state = .active)
    (hagain : ∀ r ∈ reads, r.1.fin = .again)
    (hfeed : (s.conn.framer env.evp).feed s.conn.inFrameBuffer (reads.map fun r => r.1.bytes) = ⟨frames, rest, none⟩)
    (hfresh : Fresh s.conn.lastCliFid frames) (hssid : ∀ f ∈ frames, f.ssid = s.conn.ssid) :
    readAll env depth reads s = some ((s.setBuffer rest).handOver frames) := by
  induction reads generalizing s frames with
  | nil =>
    cases hfeed
    rw [handOver_nil]
    rfl
  | cons r reads ih =>
    obtain ⟨input, now⟩ := r
    rw [List.map_cons, Framer.feed] at hfeed
    cases hdrain : (s.conn.framer env.evp).drain (s.conn.inFrameBuffer ++ input.bytes) with
    | mk items left bad =>
      simp only [hdrain] at hfeed
      cases bad with
      | some e => cases hfeed
      | none =>
        cases hrest : (s.conn.framer env.evp).feed left (reads.map fun r => r.1.bytes) with
        | mk items' rest' bad' =>
          rw [hrest] at hfeed
          cases hfeed
          obtain ⟨hnow, hlater⟩ := Fresh.append.mp hfresh
          have haccepted : s.conn.accepted items = items :=
            acceptedFrames_of_fresh hnow fun f hf => hssid f (List.mem_append_left _ hf)
          have hread := @readFd_accepted env depth input now s items left hfd hstate
              (hagain _ (List.mem_cons_self ..))
            hdrain haccepted
          have hgo := ih (s := (s.setBuffer left).handOver items) hfd hstate
            (fun r hr => hagain r (List.mem_cons_of_mem _ hr)) hrest hlater
            fun f hf => hssid f (List.mem_append_right _ hf)
          rw [readAll, hread]
          exact hgo.trans (congrArg some (handOver_handOver s items items' left rest'))

end Server

/-! ### The client -/

namespace Client

/-- One read of the epoll thread after the other, as long as none throws. -/
def readAll (env : Env) : List Recv → Endpoint → Option Endpoint
  | [], s => some s
  | input :: reads, s =>
    match readSocket env input s with
    | (.ok (), s) => readAll env reads s
    | (.error _, _) => none

theorem handOver_handOver (s : Endpoint) (xs ys : List Frame) (b b' : Bytes) :
    (((s.setBuffer b).handOver xs).setBuffer b').handOver ys = (s.setBuffer b').handOver (xs ++ ys) := by
  simp [Endpoint.handOver, Endpoint.setBuffer, Endpoint.modify, lastFid]

theorem readAll_feed {env : Env} {reads : List Recv} {s : Endpoint} {frames : List Frame} {rest : Bytes}
    (hsocket : s.conn.socket ≠ -1) (hstate : s.conn.state = .connected) (hagain : ∀ r ∈ reads, r.fin = .again)
    (hfeed : (s.conn.framer env.evp).feed s.conn.frameBuffer (reads.map Recv.bytes) = ⟨frames, rest, none⟩)
    (hfresh : Fresh s.conn.lastSrvFid frames) (hssid : ∀ f ∈ frames, f.ssid = s.conn.ssid) :
    readAll env reads s = some ((s.setBuffer rest).handOver frames) := by
  induction reads generalizing s frames with
  | nil =>
    cases hfeed
    rw [handOver_nil]
    rfl
  | cons input reads ih =>
    rw [List.map_cons, Framer.feed] at hfeed
    cases hdrain : (s.conn.framer env.evp).drain (s.conn.frameBuffer ++ input.bytes) with
    | mk items left bad =>
      simp only [hdrain] at hfeed
      cases bad with
      | some e => cases hfeed
      | none =>
        cases hrest : (s.conn.framer env.evp).feed left (reads.map Recv.bytes) with
        | mk items' rest' bad' =>
          rw [hrest] at hfeed
          cases hfeed
          obtain ⟨hnow, hlater⟩ := Fresh.append.mp hfresh
          have hheard : heard input s = input := if_neg hsocket
          have hfin : (heard input s).fin = .again := by
            rw [hheard]
            exact hagain input (List.mem_cons_self ..)
          have hreceive := @receive_parse env input s (.inl hfin)
          have hparsed : s.conn.parsed env.evp (s.conn.frameBuffer ++ input.bytes) = ⟨none, items, left, none⟩ := by
            unfold Connection.parsed Connection.parsedSession
            rw [if_neg (by rw [hstate]; intro h; cases h), hdrain]
          have haccepted : (s.setBuffer left).conn.accepted items = items :=
            acceptedFrames_of_fresh hnow fun f hf => hssid f (List.mem_append_left _ hf)
          rw [hheard, hparsed] at hreceive
          have hgo := ih (s := (s.setBuffer left).handOver items) hsocket hstate
            (fun r hr => hagain r (List.mem_cons_of_mem _ hr)) hrest hlater
            fun f hf => hssid f (List.mem_append_right _ hf)
          have hread : readSocket env input s = (.ok (), (s.setBuffer left).handOver items) := by
            unfold readSocket
            rw [hreceive]
            simp only [endParse, Endpoint.confirm, dispatch_eq, if_pos haccepted]
          rw [readAll, hread]
          exact hgo.trans (congrArg some (handOver_handOver s items items' left rest'))

end Client

/-- **Reassembly**: an endpoint in a session, with a descriptor to read from and an empty
buffer, hands over exactly the frames whose encodings it reads, once and in order, stays in
the session and keeps the part of the next encoding, however the stream is cut into reads. -/
theorem reassembly :
    (∀ (env : Server.Env) (depth : Nat) (s : Server.Endpoint) (encoded : List (Frame × Bytes)) (p : Bytes)
      (reads : List (Recv × UInt32)),
      s.conn.state = .active → s.conn.fd ≠ -1 → s.conn.inFrameBuffer = [] → (∀ r ∈ reads, r.1.fin = .again) →
      SessionStream env.evp s.conn.aesKey s.conn.maxFrameSize s.conn.ssid s.conn.lastCliFid encoded p
        (reads.map fun r => r.1.bytes).flatten →
      ∃ t, Server.readAll env depth reads s = some t ∧ t.conn.state = .active ∧ t.conn.inFrameBuffer = p ∧
        t.log = s.log ++ encoded.map fun e => .request ⟨e.1, s.conn.connId⟩) ∧
    (∀ (env : Client.Env) (s : Client.Endpoint) (encoded : List (Frame × Bytes)) (p : Bytes) (reads : List Recv),
      s.conn.state = .connected → s.conn.socket ≠ -1 → s.conn.frameBuffer = [] → (∀ r ∈ reads, r.fin = .again) →
      SessionStream env.evp s.conn.aesKey s.conn.maxFrameSize s.conn.ssid s.conn.lastSrvFid encoded p
        (reads.map Recv.bytes).flatten →
      ∃ t, Client.readAll env reads s = some t ∧ t.conn.state = .connected ∧ t.conn.frameBuffer = p ∧
        t.log = s.log ++ encoded.map fun e => .response e.1) := by
  constructor
  · intro env depth s encoded p reads hstate hfd hbuffer hagain hstream
    have hfeed := hstream.feed
    have hread : Server.readAll env depth reads s = _ :=
      Server.readAll_feed hfd hstate hagain (hbuffer ▸ hfeed) hstream.fresh hstream.frames_ssid
    refine ⟨_, hread, hstate, rfl, ?_⟩
    simp [Server.Endpoint.handOver, Server.Endpoint.setBuffer, Server.Endpoint.modify]
  · intro env s encoded p reads hstate hsocket hbuffer hagain hstream
    have hread := Client.readAll_feed hsocket hstate hagain (hbuffer ▸ hstream.feed) hstream.fresh
      hstream.frames_ssid
    refine ⟨_, hread, hstate, rfl, ?_⟩
    simp [Client.Endpoint.handOver, Client.Endpoint.setBuffer, Client.Endpoint.modify]

/-- A frame of session 7, and what it is on the wire under the key of 32 fives. -/
def ping : Frame := ⟨1, 1, 7, STATUS_REQ, 0, ascii ['/', 'p'], [1, 2]⟩

def pingRaw : Bytes := sealedFrame ping 0

theorem ping_stream : SessionStream Evp.transparent (List.replicate 32 5) 4096 7 0 [(ping, pingRaw)] [102]
    ((pingRaw.take 10 ++ pingRaw.drop 10) ++ [102]) := by
  have hping : Encoding Evp.transparent (List.replicate 32 5) 4096 ping pingRaw :=
    ⟨⟨iv7, rfl⟩, by decide, by decide⟩
  refine ⟨by decide, ?_, ?_, ⟨by decide, trivial⟩, ⟨ping, pingRaw, hping, by decide, by decide⟩, by decide⟩
  · intro e he
    rw [List.mem_singleton.mp he]
    exact hping
  · intro e he
    rw [List.mem_singleton.mp he]
    rfl

/-- A request read in two parts, the second with the first byte of another. -/
theorem reassembly_ping :
    (let s : Server.Endpoint := {conn := {
        fd := 5, connId := 1, maxFrameSize := 4096, state := .active, aesKey := List.replicate 32 5, ssid := 7
        rsaPrivKey := []}}
      ∃ t, Server.readAll Server.quietEnv 0
          [(⟨[pingRaw.take 10], .again⟩, 0), (⟨[pingRaw.drop 10, [102]], .again⟩, 0)] s = some t ∧
        t.conn.state = .active ∧ t.conn.inFrameBuffer = [102] ∧ t.log = [.request ⟨ping, 1⟩]) ∧
    (let s : Client.Endpoint := {conn := {
        pubKey := [], socket := 3, epollFd := 4, cmdEvFd := 5, maxFrameSize := 4096, state := .connected
        aesKey := List.replicate 32 5, ssid := 7}}
      ∃ t, Client.readAll Client.quietEnv [⟨[pingRaw.take 10], .again⟩, ⟨[pingRaw.drop 10, [102]], .again⟩] s =
          some t ∧
        t.conn.state = .connected ∧ t.conn.frameBuffer = [102] ∧ t.log = [.response ping]) :=
  ⟨reassembly.1 Server.quietEnv 0 _ [(ping, pingRaw)] [102] _ rfl (by decide) rfl (by decide) ping_stream,
    reassembly.2 Client.quietEnv _ [(ping, pingRaw)] [102] _ rfl (by decide) rfl (by decide) ping_stream⟩

end Fmxp
