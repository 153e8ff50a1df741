import Fmxp.Client.Numbering
import Fmxp.Session.Origin
import Fmxp.Session.Reassembly

/-! What a client makes of the stream its server writes.

The stream is the confirmation of the handshake and then frames of the session with increasing fids.
A read takes the encodings that have arrived whole, and nothing of the stream is refused: the first
is taken for the confirmation, the others wait to be dispatched (`Hears.read`), and every dispatch
hands one over (`Hears.dispatch`). Whatever else the client does leaves all this alone
(`Hears.aside`). -/
namespace Fmxp
open Transition Framing

/-- Without their first, the fids still increase, and end no higher. -/
theorem Fresh.tail {last : UInt32} {f : Frame} {frames : List Frame} (h : Fresh last (f :: frames)) :
    Fresh last frames ∧ lastFid last frames ≤ lastFid last (f :: frames) := by
  obtain ⟨hfirst, hrest⟩ := h
  cases frames with
  | nil => exact ⟨trivial, UInt32.le_of_lt hfirst⟩
  | cons g frames =>
    obtain ⟨hnext, hlater⟩ := hrest
    exact ⟨⟨hfirst.trans hnext, hlater⟩, UInt32.le_refl _⟩

namespace Client

/-- `unread` are the frames of the stream that have not been parsed, with their encodings; what of
them is not in the client's buffer is on the `link`. -/
structure Hears (env : Env) (ssid : UInt64) (p : Process) (link : Bytes) (unread : List (Frame × Bytes)) : Prop where
  socket : p.endpoint.conn.socket ≠ -1
  bytes : p.endpoint.conn.frameBuffer ++ link = (unread.map Prod.snd).flatten
  waits : (frameFramer env.evp p.endpoint.conn.maxFrameSize true env.key.val).next p.endpoint.conn.frameBuffer = .wait
  encodings : ∀ x ∈ unread, Encoding env.evp env.key.val p.endpoint.conn.maxFrameSize x.1 x.2
  own : ∀ f ∈ p.pending ++ unread.map Prod.fst, f.ssid = ssid
  fresh : Fresh p.endpoint.conn.lastSrvFid (p.pending ++ unread.map Prod.fst)
  state : (p.endpoint.conn.state = .handshake ∧ p.pending = [] ∧ ∀ x ∈ unread.head?, x.1.data = connectionSecured) ∨
    (p.endpoint.conn.state = .connected ∧ p.endpoint.conn.ssid = ssid)

/-- The frames that will be handed over: those that wait, and all of the stream but a confirmation. -/
def outstanding (p : Process) (unread : List (Frame × Bytes)) : List Frame :=
  p.pending ++ (if p.endpoint.conn.state = .handshake then unread.tail else unread).map Prod.fst

/-- The fid the client will have counted up to. -/
def countedTo (p : Process) (unread : List (Frame × Bytes)) : UInt32 :=
  lastFid p.endpoint.conn.lastSrvFid (p.pending ++ unread.map Prod.fst)

/-- From `p` to `r` nothing that will be handed over has been lost or added. -/
structure Advances (p r : Process) (unread later : List (Frame × Bytes)) : Prop where
  received : responses r.endpoint.log ++ outstanding r later = responses p.endpoint.log ++ outstanding p unread
  counted : countedTo r later ≤ countedTo p unread
  handshake : r.endpoint.conn.state = .handshake → p.endpoint.conn.state = .handshake ∧ later = unread
  nothing : unread = [] → later = [] ∧ r.endpoint.conn.state = p.endpoint.conn.state

variable {env : Env} {ssid : UInt64} {p r : Process} {link link' : Bytes} {unread : List (Frame × Bytes)}

theorem Hears.open_ (h : Hears env ssid p link unread) : p.endpoint.conn.state ≠ .closed := by
  rcases h.state with ⟨hstate, _⟩ | ⟨hstate, _⟩ <;> rw [hstate] <;> decide

/-- With an empty link nothing is unread. -/
theorem Hears.drained (h : Hears env ssid p [] unread) : unread = [] := by
  cases unread with
  | nil => rfl
  | cons x unread =>
    have hbytes := h.bytes
    have hwaits := h.waits
    rw [List.append_nil, List.map_cons, List.flatten_cons] at hbytes
    rw [hbytes, (h.encodings x (List.mem_cons_self ..)).next] at hwaits
    cases hwaits

/-! ### Sending -/

/-- One more frame of the stream. -/
theorem Hears.sent (h : Hears env ssid p link unread) {x : Frame × Bytes}
    (henc : Encoding env.evp env.key.val p.endpoint.conn.maxFrameSize x.1 x.2) (hssid : x.1.ssid = ssid)
    (hfid : countedTo p unread < x.1.fid)
    (hconf : p.endpoint.conn.state = .handshake → unread = [] → x.1.data = connectionSecured) :
    Hears env ssid p (link ++ x.2) (unread ++ [x]) ∧ countedTo p (unread ++ [x]) = x.1.fid := by
  have hmore : p.pending ++ (unread ++ [x]).map Prod.fst = (p.pending ++ unread.map Prod.fst) ++ [x.1] := by
    rw [List.map_append, List.append_assoc]
    rfl
  refine ⟨⟨h.socket, ?_, h.waits, ?_, ?_, ?_, ?_⟩, ?_⟩
  · rw [← List.append_assoc, h.bytes, List.map_append, List.flatten_append]
    simp only [List.map_cons, List.map_nil, List.flatten_cons, List.flatten_nil, List.append_nil]
  · intro y hy
    rcases List.mem_append.mp hy with hy | hy
    · exact h.encodings y hy
    · rw [List.mem_singleton.mp hy]
      exact henc
  · rw [hmore]
    intro f hf
    rcases List.mem_append.mp hf with hf | hf
    · exact h.own f hf
    · rw [List.mem_singleton.mp hf]
      exact hssid
  · rw [hmore]
    exact h.fresh.concat hfid
  · refine h.state.imp_left fun ⟨hstate, hpending, hhead⟩ => ⟨hstate, hpending, ?_⟩
    cases unread with
    | nil => exact fun y hy => Option.mem_some.mp hy ▸ hconf hstate rfl
    | cons y unread => exact hhead
  · rw [countedTo, hmore, lastFid_append]
    rfl

theorem outstanding_confirmation (hstate : p.endpoint.conn.state = .handshake) (x : Frame × Bytes) :
    outstanding p [x] = outstanding p [] := by
  rw [outstanding, outstanding, if_pos hstate, if_pos hstate]
  rfl

theorem outstanding_sent (hconf : p.endpoint.conn.state = .handshake → unread ≠ []) (x : Frame × Bytes) :
    outstanding p (unread ++ [x]) = outstanding p unread ++ [x.1] := by
  unfold outstanding
  split
  · next hstate =>
    rw [List.tail_append_of_ne_nil (hconf hstate), List.map_append, List.append_assoc]
    rfl
  · rw [List.map_append, List.append_assoc]
    rfl

/-! ### Reading -/

/-- What the client finds in the front of its stream. -/
theorem Hears.parsed (h : Hears env ssid p link unread) (hkey : p.endpoint.conn.aesKey = env.key.val)
    {b : Bytes} (hb : b ++ link' = (unread.map Prod.snd).flatten) :
    ∃ taken later rest, rest ++ link' = (later.map Prod.snd).flatten ∧
      (frameFramer env.evp p.endpoint.conn.maxFrameSize true env.key.val).next rest = .wait ∧
      ((p.endpoint.conn.parsed env.evp b = ⟨none, taken.map Prod.fst, rest, none⟩ ∧ unread = taken ++ later ∧
        (p.endpoint.conn.state = .handshake → taken = [])) ∨
      ∃ conf, p.endpoint.conn.parsed env.evp b = ⟨some conf.1, taken.map Prod.fst, rest, none⟩ ∧
        unread = conf :: (taken ++ later) ∧ p.endpoint.conn.state = .handshake) := by
  have hframer : p.endpoint.conn.framer env.evp =
      frameFramer env.evp p.endpoint.conn.maxFrameSize true env.key.val := by
    rw [Connection.framer, hkey]
  rw [← hframer]
  have hempty : (p.endpoint.conn.framer env.evp).next [] = .wait := Framer.decode_wait _ _ rfl
  have hnext : ∀ x ∈ unread, ∀ y, (p.endpoint.conn.framer env.evp).next (x.2 ++ y) = .item x.1 y :=
    fun x hx => hframer ▸ (h.encodings x hx).next
  have hpart : ∀ x ∈ unread, ∀ y, y <+: x.2 → y ≠ x.2 → (p.endpoint.conn.framer env.evp).next y = .wait :=
    fun x hx y => hframer ▸ (h.encodings x hx).part
  rcases h.state with ⟨hstate, _, hconf⟩ | ⟨hstate, _⟩
  · unfold Connection.parsed
    rw [if_pos hstate]
    cases unread with
    | nil =>
      obtain ⟨rfl, rfl⟩ := List.append_eq_nil_iff.mp hb
      exact ⟨[], [], [], rfl, hempty, .inl ⟨by rw [hempty]; rfl, rfl, fun _ => rfl⟩⟩
    | cons conf unread =>
      rcases Framer.next_part _ (hnext conf (List.mem_cons_self ..)) (hpart conf (List.mem_cons_self ..)) hb with
        hwait | ⟨b', hitem, hrest⟩
      · exact ⟨[], conf :: unread, b, hb, hwait, .inl ⟨by rw [hwait]; rfl, rfl, fun _ => rfl⟩⟩
      · obtain ⟨taken, later, rest, rfl, hdrain, hlater⟩ := Framer.drain_part _
          (fun x hx => hnext x (List.mem_cons_of_mem _ hx)) (fun x hx => hpart x (List.mem_cons_of_mem _ hx))
          hempty hrest
        have hwait := Framer.drain_rest_wait (p.endpoint.conn.framer env.evp) b' (by rw [hdrain])
        rw [hdrain] at hwait
        refine ⟨taken, later, rest, hlater, hwait, .inr ⟨conf, ?_, rfl, hstate⟩⟩
        have hsecured : conf.1.data = connectionSecured := hconf conf rfl
        rw [hitem]
        show (if conf.1.data = connectionSecured then _ else _) = _
        rw [if_pos hsecured, Connection.parsedSession, hdrain]
  · obtain ⟨taken, later, rest, rfl, hdrain, hlater⟩ := Framer.drain_part _ hnext hpart hempty hb
    have hwait := Framer.drain_rest_wait (p.endpoint.conn.framer env.evp) b (by rw [hdrain])
    rw [hdrain] at hwait
    refine ⟨taken, later, rest, hlater, hwait, .inl ⟨?_, rfl, fun hhand => ?_⟩⟩
    · unfold Connection.parsed
      rw [if_neg (by rw [hstate]; decide), Connection.parsedSession, hdrain]
    · cases hstate.symm.trans hhand

/-- A read that finds frames. -/
theorem Hears.frames (h : Hears env ssid p link unread) (hpending : p.pending = [])
    {taken later : List (Frame × Bytes)} {rest : Bytes} (hunread : unread = taken ++ later)
    (hrest : rest ++ link' = (later.map Prod.snd).flatten)
    (hwaits : (frameFramer env.evp p.endpoint.conn.maxFrameSize true env.key.val).next rest = .wait)
    (hnone : p.endpoint.conn.state = .handshake → taken = []) :
    let r : Process := {p with endpoint := p.endpoint.setBuffer rest, pending := taken.map Prod.fst}
    Hears env ssid r link' later ∧ Advances p r unread later := by
  subst hunread
  have hsame : taken.map Prod.fst ++ later.map Prod.fst = p.pending ++ (taken ++ later).map Prod.fst := by
    rw [hpending, List.map_append, List.nil_append]
  refine ⟨⟨h.socket, hrest, hwaits, fun x hx => h.encodings x (List.mem_append_right _ hx), ?_, ?_, ?_⟩,
    ?_, ?_, fun hhand => ⟨hhand, ?_⟩, fun hnil => ⟨(List.append_eq_nil_iff.mp hnil).2, rfl⟩⟩
  · show ∀ f ∈ taken.map Prod.fst ++ later.map Prod.fst, _
    rw [hsame]
    exact h.own
  · show Fresh p.endpoint.conn.lastSrvFid (taken.map Prod.fst ++ later.map Prod.fst)
    rw [hsame]
    exact h.fresh
  · rcases h.state with ⟨hstate, _, hconf⟩ | hconnected
    · rw [hnone hstate] at hconf ⊢
      exact .inl ⟨hstate, rfl, hconf⟩
    · exact .inr hconnected
  · show responses p.endpoint.log ++
      (taken.map Prod.fst ++ (if p.endpoint.conn.state = .handshake then later.tail else later).map Prod.fst) = _
    rw [outstanding, hpending, List.nil_append]
    split
    · next hstate =>
      rw [hnone hstate]
      rfl
    · rw [List.map_append]
  · show lastFid p.endpoint.conn.lastSrvFid (taken.map Prod.fst ++ later.map Prod.fst) ≤ _
    rw [hsame]
    exact UInt32.le_refl _
  · rw [hnone hhand]
    rfl

/-- A read that finds the confirmation. -/
theorem Hears.confirmation (h : Hears env ssid p link unread) (hpending : p.pending = []) {conf : Frame × Bytes}
    {taken later : List (Frame × Bytes)} {rest : Bytes} (hunread : unread = conf :: (taken ++ later))
    (hrest : rest ++ link' = (later.map Prod.snd).flatten)
    (hwaits : (frameFramer env.evp p.endpoint.conn.maxFrameSize true env.key.val).next rest = .wait)
    (hstate : p.endpoint.conn.state = .handshake) :
    let r : Process :=
      {p with endpoint := (p.endpoint.confirm (some conf.1)).setBuffer rest, pending := taken.map Prod.fst}
    Hears env ssid r link' later ∧ Advances p r unread later := by
  subst hunread
  have hown := h.own
  have hfresh := h.fresh
  rw [hpending, List.nil_append, List.map_cons] at hown hfresh
  obtain ⟨hlater, hcount⟩ := hfresh.tail
  rw [List.map_append] at hlater hcount
  refine ⟨⟨h.socket, hrest, hwaits, ?_, ?_, hlater, .inr ⟨rfl, hown conf.1 (List.mem_cons_self ..)⟩⟩,
    ?_, ?_, fun hhand => (by cases hhand), fun hnil => (by cases hnil)⟩
  · exact fun x hx => h.encodings x (List.mem_cons_of_mem _ (List.mem_append_right _ hx))
  · intro f hf
    rw [List.map_append] at hown
    exact hown f (List.mem_cons_of_mem _ hf)
  · show responses (p.endpoint.log ++ [Output.confirmed conf.1]) ++ (taken.map Prod.fst ++ later.map Prod.fst) = _
    rw [responses_append, outstanding, if_pos hstate, hpending, List.append_assoc, ← List.map_append]
    rfl
  · show lastFid p.endpoint.conn.lastSrvFid (taken.map Prod.fst ++ later.map Prod.fst) ≤ _
    rw [countedTo, hpending, List.nil_append, List.map_cons, List.map_append]
    exact hcount

/-- **A read** takes from the stream what has arrived whole, and refuses nothing. -/
theorem Hears.read (hwf : WellFormed env p) (h : Hears env ssid p link unread) {input : Recv}
    (hlink : input.bytes ++ link' = link) (hfin : input.fin = .again)
    (hp : perform env (.readable input) p = some r) :
    r.uncaught = none ∧ ∃ later, Hears env ssid r link' later ∧ Advances p r unread later := by
  obtain ⟨hrunning, hperforms⟩ := perform_performs hp
  cases hperforms with
  | readable input hidle =>
    have hkey := hwf.key (Process.looping_of_idle hidle)
    have hpending := Process.pending_of_idle hidle
    have hheard : heard input p.endpoint = input := if_neg h.socket
    have hreceive := @receive_parse env input p.endpoint (.inl (by rw [hheard]; exact hfin))
    have hb : (p.endpoint.conn.frameBuffer ++ input.bytes) ++ link' = (unread.map Prod.snd).flatten := by
      rw [List.append_assoc, hlink]
      exact h.bytes
    rw [hheard] at hreceive
    obtain ⟨taken, later, rest, hrest, hwaits, ⟨hparsed, hunread, hnone⟩ | ⟨conf, hparsed, hunread, hstate⟩⟩ :=
      h.parsed hkey hb
    · rw [hreceive, hparsed]
      exact ⟨hrunning, later, h.frames hpending hunread hrest hwaits hnone⟩
    · rw [hreceive, hparsed]
      exact ⟨hrunning, later, h.confirmation hpending hunread hrest hwaits hstate⟩

/-! ### Handing over -/

/-- The next frame passes `_validateFrame`. -/
theorem Hears.dispatched (h : Hears env ssid p link unread) (hrunning : p.uncaught = none) {frame : Frame}
    {rest : List Frame} (hpending : p.pending = frame :: rest) :
    perform env .dispatch p = some {p with endpoint := p.endpoint.handOver [frame], pending := rest} := by
  rcases h.state with ⟨_, hnil, _⟩ | ⟨hstate, hssid⟩
  · cases hnil.symm.trans hpending
  · have hown := h.own
    have hfresh := h.fresh
    rw [hpending, List.cons_append] at hown hfresh
    have hok : frame.ssid = p.endpoint.conn.ssid ∧ p.endpoint.conn.lastSrvFid < frame.fid :=
      ⟨(hown frame (List.mem_cons_self ..)).trans hssid.symm, hfresh.1⟩
    have hdispatch : dispatchFrame frame p.endpoint = (.ok true, p.endpoint.handOver [frame]) := by
      rw [dispatchFrame_eq, if_pos hok]
    have hgo : p.uncaught.isSome = false := by rw [hrunning]; rfl
    simp only [perform, hgo, hpending, hdispatch, Bool.false_eq_true, if_false]
    rfl

/-- **A dispatch** hands the next frame over. -/
theorem Hears.dispatch (h : Hears env ssid p link unread) (hp : perform env .dispatch p = some r) :
    r.uncaught = none ∧ Hears env ssid r link unread ∧ Advances p r unread unread := by
  obtain ⟨hrunning, hperforms⟩ := perform_performs hp
  cases hperforms with
  | dispatch frame rest hpending =>
    rw [Option.some.inj (hp.symm.trans (h.dispatched hrunning hpending))]
    have hown := h.own
    have hfresh := h.fresh
    rw [hpending, List.cons_append] at hown hfresh
    have hconnected : p.endpoint.conn.state = .connected ∧ p.endpoint.conn.ssid = ssid :=
      h.state.resolve_left fun hhand => by cases hhand.2.1.symm.trans hpending
    refine ⟨hrunning, ⟨h.socket, h.bytes, h.waits, h.encodings, fun f hf => hown f (List.mem_cons_of_mem _ hf),
      hfresh.2, .inr hconnected⟩, ?_, ?_, fun hhand => ⟨hhand, rfl⟩, fun hnil => ⟨hnil, rfl⟩⟩
    · show responses (p.endpoint.log ++ [Output.response frame]) ++
        (rest ++ (if p.endpoint.conn.state = .handshake then unread.tail else unread).map Prod.fst) = _
      rw [responses_append, outstanding, hpending, List.append_assoc, List.cons_append]
      rfl
    · rw [countedTo, countedTo, hpending, List.cons_append]
      exact UInt32.le_refl _

/-! ### Everything else -/

/-- What hearing rests on. -/
def Connection.receiver (c : Connection) : Int × ConnectionState × UInt64 × UInt32 × UInt32 × Bytes :=
  (c.socket, c.state, c.ssid, c.lastSrvFid, c.maxFrameSize, c.frameBuffer)

/-- A step that touches nothing of the receiving side. -/
structure Aside (p r : Process) : Prop where
  pending : r.pending = p.pending
  receiver : r.endpoint.conn.receiver = p.endpoint.conn.receiver
  responses : responses r.endpoint.log = responses p.endpoint.log

theorem Hears.aside (h : Hears env ssid p link unread) (hstep : Aside p r) :
    Hears env ssid r link unread ∧ Advances p r unread unread := by
  obtain ⟨hpending, hreceiver, hresponses⟩ := hstep
  simp only [Connection.receiver, Prod.mk.injEq] at hreceiver
  obtain ⟨hsocket, hstate, hssid, hlast, hmax, hbuffer⟩ := hreceiver
  refine ⟨⟨?_, ?_, ?_, ?_, ?_, ?_, ?_⟩, ?_, ?_, fun hhand => ⟨hstate ▸ hhand, rfl⟩, fun hnil => ⟨hnil, hstate⟩⟩
  · rw [hsocket]
    exact h.socket
  · rw [hbuffer]
    exact h.bytes
  · rw [hmax, hbuffer]
    exact h.waits
  · rw [hmax]
    exact h.encodings
  · rw [hpending]
    exact h.own
  · rw [hlast, hpending]
    exact h.fresh
  · rw [hstate, hssid, hpending]
    exact h.state
  · rw [outstanding, outstanding, hresponses, hstate, hpending]
  · rw [countedTo, countedTo, hlast, hpending]

/-- The queue of a client holds nothing but frames to send. -/
theorem reachable_sends (h : Reachable (lifecycle env) p) :
    ∀ cmd ∈ p.endpoint.conn.commandQueue, cmd.type = .send := by
  induction h with
  | init hp =>
    obtain ⟨pubKey, maxFrameSize, socket, epollFd, cmdEvFd, _, rfl⟩ := hp
    exact fun cmd hcmd => by cases hcmd
  | @step p r event hreach hstep ih =>
    have hperform : perform env event p = some r := hstep
    have hlive := (reachable_wellFormed hreach).live
    by_cases hevent : ∃ path data, event = Event.sendReq path data
    · obtain ⟨path, data, rfl⟩ := hevent
      cases (perform_performs hperform).2
      show ∀ cmd ∈ (sendReq path data p.endpoint).2.conn.commandQueue, cmd.type = .send
      unfold sendReq
      split
      · exact ih
      · intro cmd hcmd
        rcases List.mem_append.mp hcmd with hcmd | hcmd
        · exact ih cmd hcmd
        · rw [List.mem_singleton.mp hcmd]
    · obtain ⟨_, hprogress⟩ := step_progress (q := ⟨p, [], []⟩) hlive
        (fun path data hc => hevent ⟨path, data, hc⟩) hperform
      have hkept : r.endpoint.conn.commandQueue = p.endpoint.conn.commandQueue →
          ∀ cmd ∈ r.endpoint.conn.commandQueue, cmd.type = .send := fun hsame => hsame.symm ▸ ih
      cases hprogress with
      | still hstill => exact hkept hstill.commandQueue
      | confirmed input frame _ _ _ _ hstill => exact hkept hstill.commandQueue
      | started now _ _ hr =>
        obtain rfl : r = _ := congrArg Submitting.process hr
        have hend := (after_same {p with looping := true} (doHandshake env now p.endpoint)).1
        exact hkept ((congrArg (·.conn.commandQueue) hend).trans (doHandshake_queue ..))
      | command cmd rest _ hqueue _ hr =>
        obtain rfl : r = _ := congrArg Submitting.process hr
        have hend := (after_same p (handleCommand env cmd
            (p.endpoint.modify fun c => {c with commandQueue := rest}))).1
        have hrest := (congrArg (·.conn.commandQueue) hend).trans (handleCommand_waits ..).1
        intro cmd' hcmd'
        rw [hrest] at hcmd'
        exact ih cmd' (hqueue ▸ List.mem_cons_of_mem cmd hcmd')
      | built frame hstill => exact hkept hstill.commandQueue
      | pushed cmd hcmd => cases hcmd

/-- Sending a frame, and the handshake's, touches nothing of the receiving side. -/
theorem handleCommand_receiver (env : Env) {cmd : ClientCommand} (hcmd : cmd.type = .send) (s : Endpoint) :
    (handleCommand env cmd s).2.conn.receiver = s.conn.receiver ∧
      responses (handleCommand env cmd s).2.log = responses s.log := by
  refine ⟨?_, (handleCommand_keeps env cmd s).responses⟩
  obtain ⟨type, frame⟩ := cmd
  cases hcmd
  cases frame with
  | none => rfl
  | some frame =>
    by_cases hstate : s.conn.state = .handshake
    · simp only [handleCommand, if_pos hstate]
      split
      · rfl
      · split
        · rfl
        · next toBeSent _ =>
          have hconn := (send_ledger env toBeSent (s.modify fun c => {c with handshakeSent := true})).2
          exact (congrArg Connection.receiver hconn).trans rfl
    · rw [handleCommand_send env frame hstate]
      split
      · rfl
      · next raw _ =>
        have hconn := (send_ledger env raw (s.nextFid.recordEncoded raw)).2
        exact (congrArg Connection.receiver hconn).trans rfl

theorem doHandshake_receiver (env : Env) (now : UInt32) (s : Endpoint) :
    (doHandshake env now s).2.conn.receiver = s.conn.receiver ∧
      responses (doHandshake env now s).2.log = responses s.log := by
  rcases doHandshake_cases env now s with ⟨e, heq⟩ | ⟨frame, _, heq⟩
  · rw [heq]
    exact ⟨rfl, rfl⟩
  · rw [heq]
    exact handleCommand_receiver env rfl _

/-- A round of the epoll thread that touches nothing of the receiving side. -/
theorem after_aside {q : Process} {t : Except Exn Unit × Endpoint} (hpending : q.pending = p.pending)
    (ht : t.2.conn.receiver = p.endpoint.conn.receiver ∧ responses t.2.log = responses p.endpoint.log) :
    Aside p (q.after t fun _ q => q) := by
  obtain ⟨hend, _, hsame⟩ := after_same q t
  exact ⟨hsame.trans hpending, hend ▸ ht.1, hend ▸ ht.2⟩

/-- **Whatever else an open client does**, short of closing, leaves the receiving side alone. -/
theorem perform_aside (hsends : ∀ cmd ∈ p.endpoint.conn.commandQueue, cmd.type = .send)
    (hopen : p.endpoint.conn.state ≠ .closed) {event : Event} (hread : ∀ input, event ≠ .readable input)
    (hdispatch : event ≠ .dispatch) (hclose : event ≠ .hangup ∧ event ≠ .beginClose)
    (h : perform env event p = some r) : Aside p r := by
  cases (perform_performs h).2 with
  | start now _ => exact after_aside rfl (doHandshake_receiver env now p.endpoint)
  | readable input _ => exact absurd rfl (hread input)
  | dispatch _ _ _ => exact absurd rfl hdispatch
  | hangup _ => exact absurd rfl hclose.1
  | command cmd rest hqueue _ =>
    exact after_aside rfl (handleCommand_receiver env (hsends cmd (hqueue ▸ List.mem_cons_self ..)) _)
  | sendReq path data =>
    refine ⟨rfl, ?_, ?_⟩
    · show (sendReq path data p.endpoint).2.conn.receiver = _
      unfold sendReq
      split <;> rfl
    · show responses (sendReq path data p.endpoint).2.log = _
      unfold sendReq
      split <;> rfl
  | beginClose _ _ => exact absurd rfl hclose.2
  | endClose hclosed _ _ => exact absurd hclosed hopen
  | setOnClose => exact ⟨rfl, rfl, rfl⟩

end Client

end Fmxp
