import Cc2obp.System.Agreement
import Cc2obp.System.Wire
import Cc2obp.Translate.Routing
import Cc2obp.Translate.Tandem

/-!
# Two ends back to back

Two instances whose OpenBridge peers point at each other carry a call from a
link of one to the link of the other that has its talkgroup: the caller, the
audio and the bounds of the call arrive as they were sent.
-/
namespace Cc2obp

open World

/-! ## What a run hands over to OpenBridge -/

/-- A DMRD datagram. -/
def Out.isDmrd : Out → Bool
  | .udp _ (.dmrd ..) .. => true
  | _ => false

/-- The calls of a run as events of its translator, at some times and with some stream ids. -/
def Events (w : World) : List TrCall → List (Env × TrEvent) → Prop :=
  List.Forall₂ fun call e => ∃ now rand, e = (w.env now, call.event rand)

/-- A frame from OpenBridge. -/
def TrCall.isFrame : TrCall → Bool
  | .dmrd .. => true
  | _ => false

theorem isDmrd_datagrams (w : World) (outs : List TrOut) :
    (outs.flatMap w.datagram).filter Out.isDmrd = outs.flatMap w.datagram := by
  refine List.filter_eq_self.mpr fun o member => ?_
  obtain ⟨t, -, written⟩ := List.mem_flatMap.mp member
  cases t with
  | obpSendDmrd link peer body =>
    simp only [World.datagram] at written
    split at written
    · cases written
    · rw [List.mem_singleton.mp written]
      rfl
  | _ => cases written

section Handed
variable {w : World} {c : Ctx} {ok : TrEvent → Prop}

/-- Without frames from OpenBridge and without a tick, the datagrams of a trace are those of its calls. -/
theorem trace_datagrams (noTick : ¬ok .tick) {g g' : Stage} {log : List Out} (moments : Trace (Moment c w ok) g log g')
    (mux : ∀ call ∈ log.filterMap Out.trCall, call.isFrame = false) :
    ∃ events, Events w (log.filterMap Out.trCall) events ∧ g'.tr = (Machine.run envStep g.tr events).1 ∧
      log.filter Out.isDmrd = (Machine.run envStep g.tr events).2.flatMap w.datagram := by
  induction moments with
  | nil g => exact ⟨[], .nil, rfl, rfl⟩
  | @cons g g₁ g₂ out out' first rest ih =>
    obtain ⟨events, calls, tr, sent⟩ := ih fun call member => mux call (by simp [List.filterMap_append, member])
    cases first with
    | send o plain =>
      have silent : o.trCall = none ∧ o.isDmrd = false := by
        cases o with
        | call => exact absurd plain id
        | tcp => exact ⟨rfl, rfl⟩
        | udp fd msg bytes ip port => cases msg <;> first | exact ⟨rfl, rfl⟩ | exact absurd plain id
      refine ⟨events, ?_, tr, ?_⟩
      · simpa [silent.1] using calls
      · simpa [silent.2] using sent
    | @call up up' before call rand move fits =>
      refine ⟨(w.env c.now, call.event rand) :: events, ?_, tr, ?_⟩
      · have here : (Out.call call :: w.messages (translatorStep (w.env c.now) (call.event rand) before).2).filterMap
            Out.trCall = [call] := by
          have own : Out.trCall (.call call) = some call := rfl
          rw [List.filterMap_cons_some own, trCall_messages]
        rw [List.filterMap_append, here]
        exact .cons ⟨c.now, rand, rfl⟩ calls
      · have frames := messages_frames w _ (muxMove_frames move (w.env c.now) rand before)
        rw [List.filter_append, List.filter_cons_of_neg (by simp [Out.isDmrd]), frames, isDmrd_datagrams, sent,
          Machine.run_cons, List.flatMap_append]
        rfl
    | frame peer body arrived => exact absurd (mux (.dmrd peer body) (by simp [Out.trCall])) (by simp [TrCall.isFrame])
    | tick now => exact absurd now noTick

end Handed

namespace System

/-- What an event hands over, without a tick and without frames from OpenBridge. -/
theorem step_datagrams {s : System} (sound : Sound s) (c : Ctx) (e : Event) (noTick : ∀ fresh, e ≠ .tick fresh)
    (mux : ∀ call ∈ (s.step (c, e)).2.filterMap Out.trCall, call.isFrame = false) :
    ∃ events, Events s.world ((s.step (c, e)).2.filterMap Out.trCall) events ∧
      (s.step (c, e)).1.tr = (Machine.run envStep s.tr events).1 ∧
      (s.step (c, e)).2.filter Out.isDmrd = (Machine.run envStep s.tr events).2.flatMap s.world.datagram := by
  obtain ⟨mid, before, after, logged, first, second⟩ := step_moments sound.wf c e
  have stays : e.reloads s.world = s.world := by
    cases e with
    | tick fresh => exact absurd rfl (noTick fresh)
    | _ => rfl
  rw [stays] at second
  have whole : Trace (Moment c s.world fun ev => e.permits s.world ev ∨ ev.isDown) ⟨s.world.isUp, s.tr⟩
      (s.step (c, e)).2 ⟨(s.step (c, e)).1.world.isUp, (s.step (c, e)).1.tr⟩ := by
    rw [logged]
    exact (first.mono fun _ _ _ => Moment.mono fun _ => .inl).trans (second.mono fun _ _ _ => Moment.mono fun _ => .inr)
  refine trace_datagrams ?_ whole mux
  rintro (⟨fresh, here⟩ | ⟨i, here⟩)
  · exact noTick fresh here
  · cases here

/-- The same for a run. -/
theorem run_datagrams {s : System} (sound : Sound s) (es : List (Ctx × Event)) (noTick : ∀ e ∈ es, ∀ fresh, e.2 ≠ .tick fresh)
    (mux : ∀ call ∈ (Machine.run System.step s es).2.filterMap Out.trCall, call.isFrame = false) :
    ∃ events, Events s.world ((Machine.run System.step s es).2.filterMap Out.trCall) events ∧
      (Machine.run System.step s es).2.filter Out.isDmrd = (Machine.run envStep s.tr events).2.flatMap s.world.datagram := by
  induction es generalizing s with
  | nil => exact ⟨[], .nil, rfl⟩
  | cons e es ih =>
    obtain ⟨c, e⟩ := e
    have quiet : ∀ fresh, e ≠ .tick fresh := noTick (c, e) (by simp)
    simp only [Machine.run_cons, List.filterMap_append, List.filter_append] at mux ⊢
    have later := ih (sound.step c e) (fun e' member => noTick e' (by simp [member]))
      fun call member => mux call (by simp only [List.mem_append]; exact .inr member)
    obtain ⟨events, calls, sent⟩ := later
    -- what the event itself hands over
    obtain ⟨events', calls', tr, sent'⟩ := step_datagrams sound c e quiet
      fun call member => mux call (by simp only [List.mem_append]; exact .inl member)
    have net : SameNet s.world (s.step (c, e)).1.world := step_net sound.wf c e fun fresh => quiet (some fresh)
    refine ⟨events' ++ events, ?_, ?_⟩
    · refine List.rel_append calls' (calls.imp ?_)
      rintro call event ⟨now, rand, rfl⟩
      exact ⟨now, rand, by rw [net.env]⟩
    · rw [Machine.run_append, List.flatMap_append, sent', sent, net.datagram, tr]

end System

/-! ## What a link is sent -/

namespace World

variable (w : World) (j : Nat)

def bonTo (user : Int) (radio peer : BitVec 32) (tgid : Int) : Out :=
  .tcp j (w.links j).fd (.bon radio peer (w.cfg.linkAt j).ccLid tgid ccccCallTypeGroup)
    (buildBon (w.cfg.linkAt j).ccLid user radio peer (w.cfg.linkAt j).ccLid tgid ccccCallTypeGroup)

def voiceTo (seq : BitVec 16) (timestamp : BitVec 32) (marker : Bool) (ambe21 : Bytes 21) : Out :=
  .udp w.voiceFd (.voice j seq timestamp marker ambe21) (buildVoice seq timestamp (w.links j).syncSource marker ambe21)
    (w.cfg.linkAt j).ccRemoteIp (w.cfg.linkAt j).ccRemoteVoicePort

def boffTo (total : Int) : Out :=
  .tcp j (w.links j).fd (.boff 0 total 0) (buildBoff (w.cfg.linkAt j).ccLid 0 total 0)

/-- Voice packets that carry the payloads in order, without their padding; only the first one may be marked. -/
inductive Speaks : Bool → List (Bytes 21) → List Out → Prop
  | nil (first : Bool) : Speaks first [] []
  | cons {payloads : List (Bytes 21)} {voices : List Out} (first : Bool) (seq : BitVec 16) (timestamp : BitVec 32)
      (ambe21 : Bytes 21) (rest : Speaks false payloads voices) :
      Speaks first (ambe21 :: payloads) (w.voiceTo j seq timestamp first (clearPadding ambe21) :: voices)

end World

/-- What a log writes, calls into the translator apart. -/
def writesOf (log : List Out) : List Out := log.filter fun o => o.trCall.isNone

@[simp] theorem writesOf_append (log log' : List Out) : writesOf (log ++ log') = writesOf log ++ writesOf log' :=
  List.filter_append ..

section Written
variable {v w : World} {j : Nat}

theorem writes_bon (here : v.core = w.core) (up : (w.links j).state = .up) (radio peer : BitVec 32) (tgid : Int) :
    writesOf (v.messages [.ccccSendBon j radio peer (w.cfg.linkAt j).ccLid tgid ccccCallTypeGroup]) =
      [w.bonTo j ((v.userCtr j + 1) % 1000) radio peer tgid] := by
  have open_ : (v.links j).state = .up := links_of_core here ▸ up
  have sent : v.messages [.ccccSendBon j radio peer (w.cfg.linkAt j).ccLid tgid ccccCallTypeGroup] =
      [.tcp j (v.links j).fd (.bon radio peer (w.cfg.linkAt j).ccLid tgid ccccCallTypeGroup)
        (buildBon (v.cfg.linkAt j).ccLid ((v.userCtr j + 1) % 1000) radio peer (w.cfg.linkAt j).ccLid tgid
          ccccCallTypeGroup)] := by
    simp [World.messages, World.perform, ccccSendBon, open_, tcpSend, World.emit, World.unlogged]
  rw [sent, links_of_core here, cfg_of_core here]
  rfl

theorem writes_voice (here : v.core = w.core) (up : (w.links j).state = .up) (seq : BitVec 16) (timestamp : BitVec 32)
    (marker : Bool) (ambe21 : Bytes 21) : writesOf (v.messages [.ccccSendVoice j seq timestamp marker ambe21]) =
      [w.voiceTo j seq timestamp marker ambe21] := by
  have open_ : (v.links j).state = .up := links_of_core here ▸ up
  have sent : v.messages [.ccccSendVoice j seq timestamp marker ambe21] =
      [.udp v.voiceFd (.voice j seq timestamp marker ambe21) (buildVoice seq timestamp (v.links j).syncSource marker ambe21)
        (v.cfg.linkAt j).ccRemoteIp (v.cfg.linkAt j).ccRemoteVoicePort] := by
    simp [World.messages, World.perform, ccccSendVoice, open_, udpSendToLink, World.emit, World.unlogged]
  obtain ⟨-, -, -, voiceFd, -⟩ := (core_eq_iff _ _).mp here
  rw [sent, voiceFd, links_of_core here, cfg_of_core here]
  rfl

theorem writes_boff (here : v.core = w.core) (up : (w.links j).state = .up) (total : Int) :
    writesOf (v.messages [.ccccSendBoff j 0 total 0]) = [w.boffTo j total] := by
  have open_ : (v.links j).state = .up := links_of_core here ▸ up
  have sent : v.messages [.ccccSendBoff j 0 total 0] =
      [.tcp j (v.links j).fd (.boff 0 total 0) (buildBoff (v.cfg.linkAt j).ccLid 0 total 0)] := by
    simp [World.messages, World.perform, ccccSendBoff, open_, tcpSend, World.emit, World.unlogged]
  rw [sent, links_of_core here, cfg_of_core here]
  rfl

end Written

/-! ## The receiving end -/

/-- A peer's socket and a link that is UP and open to it. -/
structure Listening (w : World) (j q : Nat) : Prop where
  nonneg : 0 ≤ w.obpFd q
  registered : FdTable.lookup w.loop.fds (w.obpFd q) = some (.obp q)
  up : (w.links j).state = .up
  admits : ∀ now body, outOfScope body.flags = false → body.dst = u32 (w.cfg.linkAt j).tgid → Admitted (w.env now) j q body

/-- A datagram from the peer as it arrives at the socket. -/
def World.fromPeer (w : World) (q : Nat) (datagram : List Byte) : System.Event :=
  .readable (w.obpFd q) (.datagram datagram (w.cfg.openbridgeAt q).peerIp (w.cfg.openbridgeAt q).peerPort)

namespace Listening

variable {w : World} {j q : Nat} {s : System} {o : ObpPeerConfig} {body : DmrdBody} {flags : Byte}
  {src netid : BitVec 32} {stream : Bytes 4} {payload33 : Bytes 33}

/-- A frame of the peer is handed to the translator, and nothing else changes. -/
theorem hears (listening : Listening w j q) (here : s.world.core = w.core) (c : Ctx)
    (key : (w.cfg.openbridgeAt q).passphrase = o.passphrase) (magic : body.toList.take 4 = dmrdMagic)
    (slot : body.flags &&& obpfSlot2 = 0) :
    let after := s.step (c, w.fromPeer q (signDmrd o body))
    let next := translatorStep (w.env c.now) (.obpDmrdReceived q body) s.tr
    after.1.world.core = w.core ∧ after.1.tr = next.1 ∧ writesOf after.2 = writesOf (s.world.messages next.2) := by
  have accepted := acceptDmrd_signDmrd (w.cfg.openbridgeAt q) o body magic slot key
  have registered := listening.registered
  obtain ⟨cfg, loop, -⟩ := (core_eq_iff _ _).mp here
  rw [← cfg] at accepted
  rw [← loop] at registered
  have turn := System.step_frame c listening.nonneg registered accepted
  intro after next
  have same : after = s.frameStep c q body := by
    rw [← turn]
    simp only [after, World.fromPeer, cfg]
  have env : s.world.env c.now = w.env c.now := env_of_core here c.now
  rw [same]
  have kept : (s.frameStep c q body).1.world.core = s.world.core := System.core_translate c _ _
  refine ⟨kept.trans here, ?_, ?_⟩
  · rw [System.frameStep_tr, env]
  · rw [System.frameStep_out, env]
    rfl

variable (frame : FrameSays body flags src (u32 (w.cfg.linkAt j).tgid) netid stream payload33)
include frame

/-- A head that finds the link idle is a B-on. -/
theorem opens (listening : Listening w j q) (here : s.world.core = w.core) (c : Ctx)
    (key : (w.cfg.openbridgeAt q).passphrase = o.passphrase) (head : flags = vheadFlags)
    (idle : (s.tr.link j).hasCall = false) :
    let after := s.step (c, w.fromPeer q (signDmrd o body))
    after.1.world.core = w.core ∧ InObpCall stream true (after.1.tr.link j) ∧
      ∃ user, writesOf after.2 = [w.bonTo j user src netid (w.cfg.linkAt j).tgid] := by
  obtain ⟨scope, opening, slot⟩ := headFlags_read
  rw [← head, ← frame.flags] at scope opening slot
  obtain ⟨core, tr, written⟩ := listening.hears here c key frame.magic slot
  obtain ⟨within, started⟩ := head_opens (listening.admits c.now body scope frame.dst) opening idle
  rw [frame.stream] at within
  refine ⟨core, tr ▸ within, (s.world.userCtr j + 1) % 1000, ?_⟩
  rw [written, started, bonOf, frame.src, frame.netid]
  exact writes_bon here listening.up src netid _

/-- A burst of the call is a voice packet. -/
theorem speaks (listening : Listening w j q) (here : s.world.core = w.core) (c : Ctx)
    (key : (w.cfg.openbridgeAt q).passphrase = o.passphrase) {pos : Nat} (burst : flags = burstFlags (pos % 6))
    {first : Bool} (within : InObpCall stream first (s.tr.link j)) :
    let after := s.step (c, w.fromPeer q (signDmrd o body))
    after.1.world.core = w.core ∧ InObpCall stream false (after.1.tr.link j) ∧
      ∃ seq timestamp, writesOf after.2 = [w.voiceTo j seq timestamp first (ccccAmbePack21 (extractAmbe payload33))] := by
  obtain ⟨scope, notHead, notTerm, slot⟩ := burstFlags_read pos
  rw [← burst, ← frame.flags] at scope notHead notTerm slot
  obtain ⟨core, tr, written⟩ := listening.hears here c key frame.magic slot
  obtain ⟨still, seq, timestamp, spoken⟩ :=
    burst_speaks (listening.admits c.now body scope frame.dst) notHead notTerm within frame.stream
  refine ⟨core, tr ▸ still, seq, timestamp, ?_⟩
  rw [written, spoken, frame.payload]
  exact writes_voice here listening.up seq timestamp first _

/-- The terminator of the call is a B-off. -/
theorem closes (listening : Listening w j q) (here : s.world.core = w.core) (c : Ctx)
    (key : (w.cfg.openbridgeAt q).passphrase = o.passphrase) (term : flags = vtermFlags) {first : Bool}
    (within : InObpCall stream first (s.tr.link j)) :
    ∃ total, writesOf (s.step (c, w.fromPeer q (signDmrd o body))).2 = [w.boffTo j total] := by
  obtain ⟨scope, notHead, closing, slot⟩ := termFlags_read
  rw [← term, ← frame.flags] at scope notHead closing slot
  obtain ⟨-, -, written⟩ := listening.hears here c key frame.magic slot
  obtain ⟨-, total, ended⟩ := term_closes (listening.admits c.now body scope frame.dst) notHead closing within frame.stream
  refine ⟨total, ?_⟩
  rw [written, ended]
  exact writes_boff here listening.up total

omit frame

/-! ### A whole call -/

section Call
variable {lcfg : LinkConfig} {call : CallState}

/-- The bursts of a call, one after the other. -/
theorem speaks_run (listening : Listening w j q) (key : (w.cfg.openbridgeAt q).passphrase = o.passphrase)
    (caller : call.rfSrc.toNat < 2 ^ 24) (same : lcfg.tgid = (w.cfg.linkAt j).tgid)
    (talkgroup : (u32 lcfg.tgid).toNat < 2 ^ 24) {payloads : List (Bytes 21)} {bursts : List DmrdBody}
    (spoken : List.Forall₂ (CarriesVoice lcfg call) payloads bursts) {first : Bool} (here : s.world.core = w.core)
    (within : InObpCall call.streamId first (s.tr.link j)) {es : List (Ctx × System.Event)}
    (delivered : es.map Prod.snd = bursts.map fun body => w.fromPeer q (signDmrd o (outgoingBody o body))) :
    let after := Machine.run System.step s es
    after.1.world.core = w.core ∧ (∃ first', InObpCall call.streamId first' (after.1.tr.link j)) ∧
      w.Speaks j first payloads (writesOf after.2) := by
  induction spoken generalizing s es first with
  | nil =>
    obtain rfl := List.map_eq_nil_iff.mp delivered
    exact ⟨here, ⟨first, within⟩, .nil first⟩
  | @cons ambe21 body payloads bursts carries _ ih =>
    obtain ⟨⟨c, e⟩, es, rfl, arrives, rest⟩ := List.map_eq_cons_iff.mp delivered
    obtain ⟨pos, burst⟩ := carries
    have frame := burst.outgoing o caller talkgroup
    rw [same] at frame
    obtain rfl : e = _ := arrives
    obtain ⟨core, still, seq, timestamp, written⟩ := listening.speaks frame here c key rfl within
    obtain ⟨core', ongoing, voices⟩ := ih core still rest
    refine ⟨core', ongoing, ?_⟩
    rw [Machine.run_cons, writesOf_append, written, pack21_of_burst]
    exact .cons first seq timestamp ambe21 voices

/-- The frames of a call are a B-on, its voice packets and a B-off. -/
theorem call_run (listening : Listening w j q) (key : (w.cfg.openbridgeAt q).passphrase = o.passphrase)
    (caller : call.rfSrc.toNat < 2 ^ 24) (same : lcfg.tgid = (w.cfg.linkAt j).tgid)
    (talkgroup : (u32 lcfg.tgid).toNat < 2 ^ 24) {payloads : List (Bytes 21)} {frames : List DmrdBody}
    (sent : CallFrames lcfg call payloads frames) (here : s.world.core = w.core) (idle : (s.tr.link j).hasCall = false)
    {es : List (Ctx × System.Event)}
    (delivered : es.map Prod.snd = frames.map fun body => w.fromPeer q (signDmrd o (outgoingBody o body))) :
    ∃ user total voices, w.Speaks j true payloads voices ∧ writesOf (Machine.run System.step s es).2 =
      w.bonTo j user call.rfSrc (if o.preserveSourcePeer then call.ccPeerId else o.networkId) (w.cfg.linkAt j).tgid ::
        voices ++ [w.boffTo j total] := by
  obtain ⟨head, term, bursts, opening, spoken, closing⟩ := sent
  rw [List.cons_append, List.map_cons, List.map_append, List.map_singleton] at delivered
  obtain ⟨⟨c, e⟩, es, rfl, arrives, delivered⟩ := List.map_eq_cons_iff.mp delivered
  obtain ⟨middle, last, rfl, bursts', terms⟩ := List.map_eq_append_iff.mp delivered
  obtain ⟨⟨c', e'⟩, rfl, arrives'⟩ := List.map_eq_singleton_iff.mp terms
  obtain rfl : e = _ := arrives
  obtain rfl : e' = _ := arrives'
  -- the head opens the call, the bursts keep it, the terminator closes it
  have frame := opening.outgoing o caller talkgroup
  have frame' := closing.outgoing o caller talkgroup
  rw [same] at frame frame'
  obtain ⟨core, within, user, started⟩ := listening.opens frame here c key rfl idle
  obtain ⟨core', ⟨first, ongoing⟩, voices⟩ := listening.speaks_run key caller same talkgroup spoken core within bursts'
  obtain ⟨total, ended⟩ := listening.closes frame' core' c' key rfl ongoing
  refine ⟨user, total, _, voices, ?_⟩
  rw [Machine.run_cons, Machine.run_append, Machine.run_cons, Machine.run_nil, List.append_nil, writesOf_append,
    writesOf_append, started, ended]
  rfl

end Call

end Listening

/-! ## Two ends -/

/-- Peers of two ends that point at each other; each end has an address. -/
structure Mutual (o o' : ObpPeerConfig) (ip ip' : List Byte) : Prop where
  key : o.passphrase = o'.passphrase
  address : o.peerIp = ip' ∧ o'.peerIp = ip
  port : o.peerPort = o'.bindPort ∧ o'.peerPort = o.bindPort

/-- A link that is UP and idle, open to a peer whose socket is bound, with its talkgroup on it. -/
structure TandemEnd (s : System) (i p t : Nat) : Prop where
  inside : i < s.world.cfg.nLink
  peer : (s.world.cfg.linkAt i).openbridgeIdx = some p
  tgid : (s.world.cfg.linkAt i).tgid = t
  enabled : (s.world.cfg.linkAt i).enabled = true
  crossConnect : (s.world.cfg.linkAt i).crossConnectActive = true
  bound : obpPeerIsEnabled s.world p = true
  up : (s.world.links i).state = .up
  idle : (s.tr.link i).hasCall = false

/-- A B-on, voice packets with the payloads and a B-off: what a link hands to the translator for a call. -/
inductive HandsCall (i : Nat) (radio peer : BitVec 32) (payloads : List (Bytes 21)) : List TrCall → Prop
  | intro (srcLid tgid : Int) (callType : Byte) (voices : List TrCall) (lost total : Int)
      (spoken : List.Forall₂ (fun ambe21 call => ∃ seq timestamp marker, call = .voice i seq timestamp marker ambe21)
        payloads voices) :
      HandsCall i radio peer payloads (.bon i radio peer srcLid tgid callType :: voices ++ [.boff i lost total])

/-- A datagram of one end that is addressed to the socket of the other end's peer, as it arrives there. -/
def arrival (a b : System) (q : Nat) (ip ip' : List Byte) : Out → Option System.Event
  | .udp _ (.dmrd _ peer) bytes dst port =>
    if dst = ip' ∧ port = (b.world.cfg.openbridgeAt q).bindPort then
      some (.readable (b.world.obpFd q) (.datagram bytes ip (a.world.cfg.openbridgeAt peer).bindPort))
    else none
  | _ => none

section Ends
variable {s a b : System} {i j p q t : Nat} {radio peer : BitVec 32} {payloads : List (Bytes 21)} {ip ip' : List Byte}

theorem TandemEnd.socket (end_ : TandemEnd s i p t) (sound : System.Sound s) : p < s.world.cfg.nOpenbridge ∧ 0 ≤ s.world.obpFd p := by
  have bound := end_.bound
  simpa [obpPeerIsEnabled, sound.wf.sockets] using bound

theorem TandemEnd.gate (end_ : TandemEnd s i p t) (now : Rat) : obpGateOpen (s.world.env now) i = true := by
  simp [obpGateOpen, World.env, end_.crossConnect, end_.peer, end_.bound]

/-- None of the calls is a frame from OpenBridge. -/
theorem HandsCall.notFrame {calls : List TrCall} (handed : HandsCall i radio peer payloads calls) :
    ∀ call ∈ calls, call.isFrame = false := by
  obtain ⟨srcLid, tgid, callType, voices, lost, total, spoken⟩ := handed
  have voiced : ∀ call ∈ voices, call.isFrame = false := by
    induction spoken with
    | nil => simp
    | cons voice _ ih =>
      obtain ⟨seq, timestamp, marker, rfl⟩ := voice
      exact List.forall_mem_cons.mpr ⟨rfl, ih⟩
  rw [List.cons_append, List.forall_mem_cons, List.forall_mem_append, List.forall_mem_singleton]
  exact ⟨rfl, voiced, rfl⟩

/-- The translator's events of voice packets and the B-off behind them. -/
theorem speakEvents_of_calls {w : World} {voices : List TrCall} {events : List (Env × TrEvent)} {lost total : Int}
    (spoken : List.Forall₂ (fun ambe21 call => ∃ seq timestamp marker, call = .voice i seq timestamp marker ambe21)
      payloads voices) (handled : Events w (voices ++ [.boff i lost total]) events) :
    ∃ packets now, events = packets ++ [(w.env now, .ccccBoff i lost total)] ∧ SpeakEvents w.cfg i payloads packets := by
  induction spoken generalizing events with
  | nil =>
    obtain ⟨e, rest, ⟨now, rand, rfl⟩, none, rfl⟩ := List.forall₂_cons_left_iff.mp handled
    obtain rfl := List.forall₂_nil_left_iff.mp none
    exact ⟨[], now, rfl, .nil⟩
  | cons voice _ ih =>
    obtain ⟨seq, timestamp, marker, rfl⟩ := voice
    obtain ⟨e, rest, ⟨now, rand, rfl⟩, later, rfl⟩ := List.forall₂_cons_left_iff.mp handled
    obtain ⟨packets, now', rfl, spoken⟩ := ih later
    exact ⟨_ :: packets, now', rfl, .cons ⟨rfl, seq, timestamp, marker, rfl⟩ spoken⟩

/-- What leaves an idle link for its peer while the link hands over a call are the frames of that call. -/
theorem TandemEnd.sends (end_ : TandemEnd s i p t) (sound : System.Sound s) (es : List (Ctx × System.Event))
    (noTick : ∀ e ∈ es, ∀ fresh, e.2 ≠ .tick fresh)
    (handed : HandsCall i radio peer payloads ((Machine.run System.step s es).2.filterMap Out.trCall)) :
    ∃ now rand frames,
      CallFrames (s.world.cfg.linkAt i) (ccCall now (s.world.cfg.linkAt i).tgid radio peer rand) payloads frames ∧
        (Machine.run System.step s es).2.filter Out.isDmrd =
          frames.flatMap fun body => s.world.datagram (.obpSendDmrd i p body) := by
  obtain ⟨events, handled, written⟩ := System.run_datagrams sound es noTick handed.notFrame
  obtain ⟨calls, made⟩ : ∃ calls, (Machine.run System.step s es).2.filterMap Out.trCall = calls := ⟨_, rfl⟩
  rw [made] at handed handled
  obtain ⟨srcLid, tgid, callType, voices, lost, total, spoken⟩ := handed
  obtain ⟨e, rest, ⟨now, rand, rfl⟩, later, rfl⟩ := List.forall₂_cons_left_iff.mp handled
  obtain ⟨packets, now', rfl, speech⟩ := speakEvents_of_calls spoken later
  -- the link is idle and open, so the B-on starts a call
  have starts : StartsCall (s.world.env now) i s.tr := by
    constructor
    case enabled => exact end_.enabled
    case gate => exact end_.gate now
    case idleCc => simp [LinkRuntime.inCall, end_.idle]
    case idleObp => simp [LinkRuntime.inCall, end_.idle]
  obtain ⟨frames, call, sent⟩ := starts.frames end_.peer radio peer srcLid tgid callType rand speech
    (show (s.world.env now').cfg = (s.world.env now).cfg from rfl) lost total
  refine ⟨now, rand, frames, call, ?_⟩
  rw [written]
  rw [List.cons_append] at sent
  have sent' := congrArg (List.flatMap s.world.datagram) sent
  rw [List.flatMap_map] at sent'
  exact sent'

/-- The link of a tandem end listens to its peer. -/
theorem TandemEnd.listening (end_ : TandemEnd s j q t) (sound : System.Sound s) {cfg : Config} (rules : cfg.Rules)
    (fixed : s.world.cfg.fixed = cfg.fixed) : Listening s.world j q := by
  obtain ⟨inside, nonneg⟩ := end_.socket sound
  have same : (s.world.cfg.linkAt j).fixed = (cfg.linkAt j).fixed := Config.linkAt_of_fixed fixed j
  constructor
  case nonneg => exact nonneg
  case registered =>
    apply sound.wf.lookup_of_own (h := .obp q)
    simp [World.own, inside, socketOwn, nonneg]
  case up => exact end_.up
  case admits =>
    intro now body scope talkgroup
    refine ⟨scope, ?_, end_.enabled, end_.gate now⟩
    have inside' : j < cfg.nLink := Config.nLink_of_fixed fixed ▸ end_.inside
    have resolved : (cfg.linkAt j).openbridgeIdx = some q := by
      rw [← LinkConfig.openbridgeIdx_of_fixed same]
      exact end_.peer
    have routes : routeObp s.world.cfg = routeObp cfg := routeObp_of_fixed fixed
    have own := routeObp_self rules inside' resolved
    rw [← LinkConfig.tgid_of_fixed same, ← talkgroup, ← routes] at own
    exact own

/-- Every datagram of the call is addressed to the other end's socket and comes from the address it expects. -/
theorem arrivals (mutual_ : Mutual (a.world.cfg.openbridgeAt p) (b.world.cfg.openbridgeAt q) ip ip')
    (bound : p < a.world.cfg.nOpenbridge ∧ 0 ≤ a.world.obpFd p) (frames : List DmrdBody) {log : List Out}
    (sent : log.filter Out.isDmrd = frames.flatMap fun body => a.world.datagram (.obpSendDmrd i p body)) :
    (∀ o ∈ log, o.isDmrd = true → (arrival a b q ip ip' o).isSome = true) ∧
      log.filterMap (arrival a b q ip ip') = frames.map fun body => b.world.fromPeer q
        (signDmrd (a.world.cfg.openbridgeAt p) (outgoingBody (a.world.cfg.openbridgeAt p) body)) := by
  have open_ : ¬(a.world.cfg.nOpenbridge ≤ p ∨ a.world.obpFd p < 0) := by omega
  have one : ∀ body, a.world.datagram (.obpSendDmrd i p body) = [.udp (a.world.obpFd p) (.dmrd i p)
      (signDmrd (a.world.cfg.openbridgeAt p) (outgoingBody (a.world.cfg.openbridgeAt p) body))
      (a.world.cfg.openbridgeAt p).peerIp (a.world.cfg.openbridgeAt p).peerPort] := fun body => if_neg open_
  obtain ⟨-, ⟨there, back⟩, port, port'⟩ := mutual_
  have heard : ∀ body, (a.world.datagram (.obpSendDmrd i p body)).filterMap (arrival a b q ip ip') = [b.world.fromPeer q
      (signDmrd (a.world.cfg.openbridgeAt p) (outgoingBody (a.world.cfg.openbridgeAt p) body))] := by
    intro body
    rw [one]
    simp [arrival, there, port, World.fromPeer, back, port']
  constructor
  · intro o member dmrd
    have kept : o ∈ log.filter Out.isDmrd := List.mem_filter.mpr ⟨member, dmrd⟩
    rw [sent] at kept
    obtain ⟨body, -, here⟩ := List.mem_flatMap.mp kept
    rw [one, List.mem_singleton] at here
    simp [here, arrival, there, port]
  · have only : (log.filter Out.isDmrd).filterMap (arrival a b q ip ip') = log.filterMap (arrival a b q ip ip') := by
      rw [List.filterMap_filter]
      refine List.filterMap_congr fun o _ => ?_
      cases o with
      | udp fd msg bytes dst port => cases msg <;> rfl
      | _ => rfl
    rw [← only, sent, List.filterMap_flatMap]
    simp only [heard]
    exact List.map_eq_flatMap.symm

end Ends

/-- One end of a pair on one host: a peer at the other's port, an inbound link to one c-Bridge. -/
def tandemCfg (peerPort bindPort : Int) : Config :=
  { oneLinkConfig 9 with
    openbridge := [{
      name := ascii "hub", enabled := true, peerIp := ascii "10.0.0.1", peerPort, bindPort, networkId := 7
      passphrase := ascii "secret" }] }

theorem tandemCfg_rules {peerPort bindPort : Int} (peer : PortRange peerPort) (bind : PortRange bindPort) :
    (tandemCfg peerPort bindPort).Rules := by
  have rules : (oneLinkConfig 9).Rules := configLoad_rules (t := oneLinkFile 9) (by decide +kernel)
  constructor
  case accepted =>
    obtain ⟨-, links⟩ := rules.accepted
    refine ⟨by simp [Config.nOpenbridge, tandemCfg, cfgMaxOpenbridge], links.1, ?_, ?_, ?_, links.2.2.2.2⟩
    · exact List.pairwise_singleton ..
    · exact List.pairwise_singleton ..
    · exact List.forall_mem_singleton.mpr ⟨by rfl, by simp⟩
  case peers => exact List.forall_mem_singleton.mpr ⟨.inr (show isValidIpv4 (ascii "10.0.0.1") = true by decide), peer, bind⟩
  case links => exact rules.links
  case interval => exact rules.interval
  case timeout => exact rules.timeout

/-- The c-Bridge connects and asks for its link. -/
def askForLink : List (Ctx × System.Event) :=
  [({ now := 0 }, .readable 6 (.accepted [ascii "10.0.0.2"])),
    ({ now := 1 }, .readable 7 (.recv (.data (ascii "1\n1\n\n\n\n\n\n\n"))))]

def tandemSystem (peerPort bindPort : Int) : System :=
  (Machine.run System.step (System.start { now := 0 } (tandemCfg peerPort bindPort)) askForLink).1

/-- A call of one packet on the link. -/
def shortCall : List (Ctx × System.Event) :=
  [({ now := 2 }, .readable 7 (.recv (.data (buildBon 1 1 5 6 1 9 0x47)))),
    ({ now := 3 }, .readable 4 (.datagram (buildVoice 0 0 1 true (Vector.replicate 21 0xFF)) (ascii "10.0.0.2") 42422)),
    ({ now := 4 }, .readable 7 (.recv (.data (buildBoff 1 0 1 0))))]

end Cc2obp
