import Cc2obp.Cccc.CcccLink

/-!
# Effects of the mux functions

What a teardown, a timer or a datagram does to the records and to the log.
-/
namespace Cc2obp

open World

section Teardown
variable (c : Ctx) (idx : Nat) (w : World)

/-- Whether a teardown is followed by another attempt. -/
def retries (w : World) (idx : Nat) : Prop :=
  (w.cfg.linkAt idx).ccRole = .outbound ∧ (w.links idx).active = true

instance : Decidable (retries w idx) := inferInstanceAs (Decidable (_ ∧ _))

/-- The tables after a descriptor is unregistered, if there is one. -/
def releasedLoop (fd : Int) (l : EvLoop FdCb TimerCb) : EvLoop FdCb TimerCb :=
  if 0 ≤ fd then evDelFdWrite fd (evDelFd fd l) else l

/-- The open descriptors after it is closed. -/
def releasedFds (fd : Int) (fds : List Int) : List Int := if 0 ≤ fd then fds.filter (· ≠ fd) else fds

theorem releaseFd_eq (fd : Int) : releaseFd fd w =
    { w with openFds := releasedFds fd w.openFds, loop := releasedLoop fd w.loop } := by
  unfold releaseFd releasedFds releasedLoop
  split <;> rfl

@[simp] theorem releasedLoop_nextTimer (fd : Int) (l : EvLoop FdCb TimerCb) :
    (releasedLoop fd l).nextTimer = l.nextTimer := by
  unfold releasedLoop
  split <;> rfl

@[simp] theorem releasedLoop_timers (fd : Int) (l : EvLoop FdCb TimerCb) :
    (releasedLoop fd l).timers = l.timers := by
  unfold releasedLoop
  split <;> rfl

/-- A teardown in one piece: the timer is cancelled, the descriptor released, the record torn, and a
reconnect armed if the link is to be tried again. -/
theorem teardown_eq : teardownLinkConnection c idx w =
    let lk := w.links idx
    let loop := releasedLoop lk.fd (evTimerCancel lk.keepaliveTimer w.loop)
    { w.setLink idx { lk.torn with
        reconnectTimer := if retries w idx then some w.loop.nextTimer else lk.reconnectTimer } with
      openFds := releasedFds lk.fd w.openFds
      loop := if retries w idx then evTimerAt (c.now + reconnectDelayS) (.reconnect idx) loop else loop
      out := w.out ++ if lk.state = .up then [.call (.linkDown idx)] else [] } := by
  have again : ((w.cfg.linkAt idx).ccRole = .outbound ∧ (w.links idx).active = true) ↔ retries w idx := Iff.rfl
  simp only [teardownLinkConnection]
  rw [releaseFd_eq]
  by_cases up : (w.links idx).state = .up <;> by_cases dials : retries w idx <;>
    simp [up, again, dials, World.emit, World.setLink, World.onLoop, scheduleReconnect, timerAfter] <;> rfl

/-- It does not matter whether the keepalive timer is gone already. -/
theorem teardown_unkept : teardownLinkConnection c idx
    ((w.onLoop (evTimerCancel (w.links idx).keepaliveTimer)).setLink idx
      { w.links idx with keepaliveTimer := none }) = teardownLinkConnection c idx w := by
  have same : retries ((w.onLoop (evTimerCancel (w.links idx).keepaliveTimer)).setLink idx
      { w.links idx with keepaliveTimer := none }) idx ↔ retries w idx := by
    simp [retries, World.setLink, World.onLoop]
  rw [teardown_eq, teardown_eq]
  by_cases dials : retries w idx <;> simp [same, dials] <;>
    simp [World.setLink, World.onLoop, CcLink.torn]

theorem teardown_out : (teardownLinkConnection c idx w).out =
    w.out ++ if (w.links idx).state = .up then [.call (.linkDown idx)] else [] := by
  rw [teardown_eq]

theorem teardown_cfg : (teardownLinkConnection c idx w).cfg = w.cfg := by
  rw [teardown_eq]
  rfl

theorem teardown_voiceFd : (teardownLinkConnection c idx w).voiceFd = w.voiceFd := by
  rw [teardown_eq]
  rfl

theorem teardown_state : ((teardownLinkConnection c idx w).links idx).state = .down := by
  rw [teardown_eq]
  simp [World.setLink, CcLink.torn]

end Teardown

section Keepalive
variable (c : Ctx) (idx : Nat) (w : World)

/-- Nothing was heard of the other end for longer than the link may be silent. -/
def linkTimedOut : Prop := c.now - (w.links idx).lastKeepaliveRecv > w.cfg.ccLinkTimeout

instance : Decidable (linkTimedOut c idx w) := inferInstanceAs (Decidable (_ > _))

/-- The keepalive of a link, to its remote's voice port. -/
def keepaliveOut : Out :=
  .udp w.voiceFd (.keepalive idx) (buildKeepalive (w.links idx).syncSource)
    (w.cfg.linkAt idx).ccRemoteIp (w.cfg.linkAt idx).ccRemoteVoicePort

theorem keepaliveCb_down (notUp : (w.links idx).state ≠ .up) :
    keepaliveCb c idx w = w.setLink idx { w.links idx with keepaliveTimer := none } := by
  simp [keepaliveCb, World.setLink, notUp]

theorem keepaliveCb_out (up : (w.links idx).state = .up) : (keepaliveCb c idx w).out =
    w.out ++ keepaliveOut idx w :: if linkTimedOut c idx w then [.call (.linkDown idx)] else [] := by
  by_cases silent : linkTimedOut c idx w
  · have late := silent
    unfold linkTimedOut at late
    simp [keepaliveCb, World.setLink, up, udpSendToLink, World.emit, late, silent, teardown_out,
      keepaliveOut]
  · have recent := silent
    unfold linkTimedOut at recent
    simp [keepaliveCb, World.setLink, up, udpSendToLink, World.emit, recent, silent, keepaliveOut,
      timerAfter, World.onLoop]

/-- The callback keeps the configuration, the sockets and, unless the link timed out, the
connection. -/
theorem keepaliveCb_kept (up : (w.links idx).state = .up) (recent : ¬linkTimedOut c idx w) :
    ∃ timer, (keepaliveCb c idx w).links =
      Function.update w.links idx { w.links idx with keepaliveTimer := some timer } := by
  unfold linkTimedOut at recent
  refine ⟨w.loop.nextTimer, ?_⟩
  simp [keepaliveCb, World.setLink, up, udpSendToLink, World.emit, recent, timerAfter, World.onLoop]

theorem keepaliveCb_cfg : (keepaliveCb c idx w).cfg = w.cfg := by
  simp only [keepaliveCb]
  split
  · rfl
  · split
    · rw [teardown_cfg]
      rfl
    · rfl

theorem keepaliveCb_timedOut (up : (w.links idx).state = .up) (silent : linkTimedOut c idx w) :
    ((keepaliveCb c idx w).links idx).state = .down := by
  unfold linkTimedOut at silent
  simp [keepaliveCb, World.setLink, up, udpSendToLink, World.emit, silent, teardown_state]

end Keepalive

section Datagrams
variable (c : Ctx) (datagram srcIp : List Byte) (srcPort : Int) (w : World)

/-- A datagram at the voice port is answered by its reflection, or passed on, or dropped. -/
theorem onVoiceReadable_out : let out := (onVoiceReadable c datagram srcIp srcPort w).out
    out = w.out ∨
      (∃ idx, out = w.out ++ [.udp w.voiceFd (.reflect idx) (datagram.take 256) srcIp srcPort]) ∨
      ∃ call, out = w.out ++ [.call call] := by
  simp only [onVoiceReadable]
  split
  · exact .inl rfl
  split
  · split
    · exact .inl rfl
    next idx _ => exact .inr (.inl ⟨idx, rfl⟩)
  · split
    · split
      · exact .inl rfl
      · exact .inr (.inr ⟨_, rfl⟩)
    · exact .inl rfl

/-- Of the records it changes at most when a link was last heard. -/
theorem onVoiceReadable_links : ∃ heard : Nat → Rat,
    (onVoiceReadable c datagram srcIp srcPort w).links =
      fun i => { w.links i with lastKeepaliveRecv := heard i } := by
  have same : ∃ heard : Nat → Rat, w.links = fun i => { w.links i with lastKeepaliveRecv := heard i } :=
    ⟨fun i => (w.links i).lastKeepaliveRecv, rfl⟩
  simp only [onVoiceReadable]
  split
  · exact same
  split
  · split
    · exact same
    next idx _ =>
      refine ⟨fun i => if i = idx then c.now else (w.links i).lastKeepaliveRecv, funext fun i => ?_⟩
      by_cases here : i = idx
      · subst here
        simp [World.setLink, World.emit]
      · simp [World.setLink, World.emit, here]
  · split
    · split <;> exact same
    · exact same

theorem onVoiceReadable_cfg : (onVoiceReadable c datagram srcIp srcPort w).cfg = w.cfg := by
  simp only [onVoiceReadable]
  split
  · rfl
  · split
    · split <;> rfl
    · split
      · split <;> rfl
      · rfl

/-- A keepalive of a link's sync source, from the link's remote, is reflected. -/
theorem onVoiceReadable_keepalive (ssrc : BitVec 32) (idx : Nat)
    (known : findLinkBySsrc w ssrc = some idx) (remote : srcIp = (w.cfg.linkAt idx).ccRemoteIp) :
    (onVoiceReadable c (buildKeepalive ssrc) srcIp srcPort w).out =
      w.out ++ [.udp w.voiceFd (.reflect idx) (buildKeepalive ssrc) srcIp srcPort] := by
  have length : (buildKeepalive ssrc).length = 16 := rfl
  have whole : (buildKeepalive ssrc).take 256 = buildKeepalive ssrc := rfl
  have source : rdAt32 (buildKeepalive ssrc) 8 = ssrc := by
    simp [rdAt32, buildKeepalive, wr16, wr32, rd32_wr32]
  have pt : (buildKeepalive ssrc).getD 1 0 &&& 0x7F = ccccRtpPtKeepalive := by
    simp [buildKeepalive, ccccRtpPtKeepalive]
  have here : datagramLink w (buildKeepalive ssrc) srcIp = some idx := by
    simp [datagramLink, source, known, remote]
  simp only [onVoiceReadable, whole, length, pt, here, ccccKeepaliveLen]
  rfl

end Datagrams

theorem findLinkBySsrc_congr {w w' : World} (cfg : w'.cfg = w.cfg)
    (links : ∀ i, (w'.links i).hasSyncSource = (w.links i).hasSyncSource ∧
      (w'.links i).syncSource = (w.links i).syncSource) (ssrc : BitVec 32) :
    findLinkBySsrc w' ssrc = findLinkBySsrc w ssrc := by
  simp only [findLinkBySsrc, cfg, (links _).1, (links _).2]

end Cc2obp
