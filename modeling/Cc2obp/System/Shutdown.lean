import Cc2obp.System.PeerOff

/-!
# After the event loop

`main` stops the CC-CC mux and then the OpenBridge mux. Links go down first, while the
peers' sockets are still bound, so the calls that go on are closed there; nothing the
process has opened or armed is left.
-/
namespace Cc2obp

open World

namespace Wf

variable {w : World} {ph : Phase} {i s : Nat} (c : Ctx)

/-! ## Links -/

/-- A link's turn: it is switched off whatever its configuration says, and waits for nothing. -/
theorem linkStopped (wf : Wf ph w) (stale : Nat → Prop) (inside : i < w.cfg.nLink)
    (others : ∀ j, j ≠ i → ph.stale j → stale j) (here : stale i) : Wf { ph with stale } (stopLink c w i) := by
  obtain ⟨closed, inbound, trying, waiting, kept, named, orphan, -⟩ := wf.links i
  simp only [stopLink]
  split
  next held =>
    have idle := wf.not_waiting held
    have torn := wf.switched c stale inside held others false (by simp) fun fresh => absurd here fresh
    have same : ({ w.links i with active := false, reconnectTimer := none } : CcLink) =
        { w.links i with active := false } :=
      congrArg (fun timer => ({ w.links i with active := false, reconnectTimer := timer } : CcLink)) idle.symm
    rw [same, idle]
    exact torn
  next down =>
    have down : (w.links i).state = .down := by simpa using down
    -- there is no connection to release; the reconnect timer may be armed
    refine wf.withLink stale inside { w.links i with active := false, reconnectTimer := none } w.openFds
      (evTimerCancel (w.links i).reconnectTimer w.loop) others
      ⟨closed, inbound, by simp [down], by simp, kept, named, orphan, fun fresh => absurd here fresh⟩
      ?_ ?_ (wf.timers.timerCancel _) ?_
    · intro has
      simp [down] at named
      simp [named] at has
    · have owns : linkOwn i { w.links i with active := false, reconnectTimer := none } = w.own (.link i) := by
        simp [own_link w inside, linkOwn]
      rw [owns, Function.update_eq_self, evTimerCancel_fds, evTimerCancel_wfds]
      exact wf.owned
    · have cancelled := wf.armed.disarm (.reconnect i) fun id k => evLive_timerCancel (w.links i).reconnectTimer w.loop id k
      have same : (w.links i).keepaliveTimer = Function.update w.handle (.reconnect i) none (.keepalive i) := by
        simp [World.handle]
      dsimp only
      rw [same, Function.update_eq_self, evTimerCancel_nextTimer]
      exact cancelled

/-- A link that is DOWN and not supposed to be trying. -/
def Halted (w : World) (i : Nat) : Prop := (w.links i).state = .down ∧ (w.links i).active = false

theorem stopLink_cfg (i : Nat) (w : World) : (stopLink c w i).cfg = w.cfg := by
  simp only [stopLink]
  split
  · rw [teardown_cfg]
    rfl
  · rfl

theorem stopLink_links (i j : Nat) (w : World) :
    Halted (stopLink c w i) i ∧ (j ≠ i → (stopLink c w i).links j = w.links j) := by
  refine ⟨⟨(System.stopLink_other c w (Nat.succ_ne_self i)).2, ?_⟩, fun other => (System.stopLink_other c w other).1⟩
  simp only [stopLink]
  split
  · rw [teardown_links]
    simp [World.setLink, CcLink.torn]
  · simp [World.setLink]

/-- Every link has had its turn. -/
theorem linksStopped (wf : Wf ph w) : let w' := (List.range w.cfg.nLink).foldl (stopLink c) w
    Wf { ph with stale := fun _ => True } w' ∧ ∀ i, Halted w' i := by
  have turns := List.foldl_turns (stopLink c)
    (fun rest v => Wf { ph with stale := fun _ => True } v ∧ (∀ i ∈ rest, i < v.cfg.nLink) ∧ ∀ i, i ∉ rest → Halted v i) ?_
    (List.range w.cfg.nLink) w ⟨wf.weaken id (.inr rfl) fun _ _ => trivial, by simp, fun i outside => ?_⟩
  · exact ⟨turns.1, fun i => turns.2.2 i (by simp)⟩
  · rintro i rest v ⟨kept, inside, halted⟩
    refine ⟨kept.linkStopped c _ (inside i (by simp)) (fun _ _ _ => trivial) trivial, fun j member => ?_, fun j outside => ?_⟩
    · rw [stopLink_cfg]
      exact inside j (by simp [member])
    · obtain ⟨halted', others⟩ := stopLink_links c i j v
      by_cases here : j = i
      · exact here ▸ halted'
      · have before := halted j (by simp [here, outside])
        rwa [Halted, others here]
  · -- past the configured links nothing was ever switched on
    have blank := wf.beyond i (by simpa using outside)
    simp [Halted, blank]

/-! ## Pending connections -/

theorem stopPending_frame (w : World) (s : Nat) : (stopPending w s).links = w.links ∧
    ((stopPending w s).pending s).inUse = false ∧ ∀ s', s' ≠ s → (stopPending w s).pending s' = w.pending s' := by
  simp only [stopPending]
  split
  · simp only [freePending, World.setPending, Function.update_self, true_and]
    constructor
    · split <;> rfl
    · intro s' other
      rw [Function.update_of_ne other]
      split <;> rfl
  next free => exact ⟨rfl, by simpa using free, fun _ _ => rfl⟩

/-- Every slot has had its turn. -/
theorem slotsStopped (wf : Wf ph w) : let w' := (List.range maxPending).foldl stopPending w
    Wf ph w' ∧ w'.links = w.links ∧ ∀ s, (w'.pending s).inUse = false := by
  have turns := List.foldl_turns stopPending
    (fun rest v => Wf ph v ∧ v.links = w.links ∧ ∀ s, s ∉ rest → (v.pending s).inUse = false) ?_ (List.range maxPending) w
    ⟨wf, rfl, fun s outside => ?_⟩
  · exact ⟨turns.1, turns.2.1, fun s => turns.2.2 s (by simp)⟩
  · rintro s rest v ⟨kept, links, free⟩
    obtain ⟨links', own, others⟩ := stopPending_frame v s
    refine ⟨?_, links'.trans links, fun s' outside => ?_⟩
    · unfold stopPending
      split
      next inUse => exact kept.freed inUse
      · exact kept
    · by_cases here : s' = s
      · exact here ▸ own
      · rw [others s' here]
        exact free s' (by simp [here, outside])
  · rw [wf.beyondSlots s (by simpa using outside)]

/-! ## Sockets -/

/-- The tables and the open descriptors after a shared socket is closed. -/
theorem closeShared_eq (fd : Int) (w : World) : closeShared fd w =
    { w with
      openFds := releasedFds fd w.openFds
      loop := if 0 ≤ fd then evDelFd fd w.loop else w.loop } := by
  unfold closeShared releasedFds
  split <;> rfl

/-- A shared socket is unregistered and closed, if it was open. -/
theorem withoutSocket (wf : Wf ph w) (w' : World) (h : Holder) (fd : Int) (cb : FdCb) (owns : w.own h = socketOwn fd cb)
    (own : w'.own = Function.update w.own h none) (openFds : w'.openFds = releasedFds fd w.openFds)
    (loop : w'.loop = if 0 ≤ fd then evDelFd fd w.loop else w.loop)
    (cfg : w'.cfg = w.cfg) (links : w'.links = w.links) (pending : w'.pending = w.pending)
    (obpFd : w'.obpFd = w.obpFd) (obpActive : w'.obpActive = w.obpActive) : Wf ph w' := by
  have handle : w'.handle = w.handle := by
    funext k
    cases k <;> simp [World.handle, links, pending]
  have timers : w'.loop.timers = w.loop.timers ∧ w'.loop.nextTimer = w.loop.nextTimer := by
    rw [loop]
    split <;> exact ⟨rfl, rfl⟩
  constructor
  case linkSizes => exact cfg ▸ wf.linkSizes
  case peerSizes => exact cfg ▸ wf.peerSizes
  case owned =>
    rw [own, openFds, loop]
    unfold releasedFds
    by_cases nonneg : 0 ≤ fd
    · rw [socketOwn, if_pos nonneg] at owns
      have released := wf.owned.release owns
      rw [wf.owned.del_writing owns] at released
      rw [if_pos nonneg, if_pos nonneg]
      exact released
    · rw [socketOwn, if_neg nonneg] at owns
      rw [if_neg nonneg, if_neg nonneg, ← owns, Function.update_eq_self]
      exact wf.owned
  case timers => exact ⟨timers.1 ▸ wf.timers.distinct, by rw [timers.1, timers.2]; exact wf.timers.below⟩
  case armed =>
    rw [handle, timers.2]
    exact wf.armed.congr fun id k => by simp [evLive, timers.1]
  case links => rw [cfg, links]; exact wf.links
  case beyond => rw [cfg, links]; exact wf.beyond
  case sources => rw [links]; exact wf.sources
  case slots => rw [pending]; exact wf.slots
  case beyondSlots => rw [pending]; exact wf.beyondSlots
  case sockets => rw [obpActive, obpFd]; exact wf.sockets

/-- The three sockets in turn, as `cccc_mux_stop` closes them. -/
def closeVoice (w : World) : World :=
  { closeShared w.voiceFd w with voiceFd := if 0 ≤ w.voiceFd then -1 else w.voiceFd }

def closeTrial (w : World) : World :=
  { closeShared w.trialFd w with trialFd := if 0 ≤ w.trialFd then -1 else w.trialFd }

def closeListen (w : World) : World :=
  { closeShared w.listenFd w with listenFd := if 0 ≤ w.listenFd then -1 else w.listenFd }

theorem muxStop_eq (w : World) : ccccMuxStop c w =
    closeListen (closeTrial (closeVoice ((List.range maxPending).foldl stopPending
      ((List.range w.cfg.nLink).foldl (stopLink c) w)))) := rfl

theorem closed_negative (fd : Int) : (if 0 ≤ fd then -1 else fd) < 0 := by
  split <;> omega

theorem socketOwn_closed (fd : Int) (cb : FdCb) : socketOwn (if 0 ≤ fd then -1 else fd) cb = none := by
  have negative := closed_negative fd
  rw [socketOwn, if_neg (by omega)]

theorem voiceClosed (wf : Wf ph w) : Wf ph (closeVoice w) := by
  rw [closeVoice, closeShared_eq]
  refine wf.withoutSocket _ .voice w.voiceFd .voice rfl ?_ rfl rfl rfl rfl rfl rfl rfl
  funext h
  cases h <;> simp [World.own, socketOwn_closed]

theorem trialClosed (wf : Wf ph w) : Wf ph (closeTrial w) := by
  rw [closeTrial, closeShared_eq]
  refine wf.withoutSocket _ .trial w.trialFd .trial rfl ?_ rfl rfl rfl rfl rfl rfl rfl
  funext h
  cases h <;> simp [World.own, socketOwn_closed]

theorem listenClosed (wf : Wf ph w) : Wf ph (closeListen w) := by
  rw [closeListen, closeShared_eq]
  refine wf.withoutSocket _ .listen w.listenFd .listen rfl ?_ rfl rfl rfl rfl rfl rfl rfl
  funext h
  cases h <;> simp [World.own, socketOwn_closed]

/-- No link, no slot and no socket of the CC-CC mux is left. -/
structure MuxStopped (w : World) : Prop where
  links : ∀ i, Halted w i
  slots : ∀ s, (w.pending s).inUse = false
  sockets : w.voiceFd < 0 ∧ w.trialFd < 0 ∧ w.listenFd < 0

theorem muxStopped (wf : Wf ph w) :
    Wf { ph with stale := fun _ => True } (ccccMuxStop c w) ∧ MuxStopped (ccccMuxStop c w) := by
  obtain ⟨linked, halted⟩ := wf.linksStopped c
  rw [muxStop_eq]
  generalize (List.range w.cfg.nLink).foldl (stopLink c) w = v at linked halted ⊢
  obtain ⟨slotted, links, free⟩ := linked.slotsStopped
  generalize (List.range maxPending).foldl stopPending v = v at slotted links free ⊢
  refine ⟨slotted.voiceClosed.trialClosed.listenClosed, ?_⟩
  simp only [closeListen, closeTrial, closeVoice, closeShared_eq]
  constructor
  case links =>
    intro i
    have kept := halted i
    rw [Halted, ← links] at kept
    exact kept
  case slots => exact free
  case sockets => exact ⟨closed_negative _, closed_negative _, closed_negative _⟩

/-! ## Peers -/

theorem unbindPeer_frame (peer : Nat) (w : World) :
    let w' := unbindPeer peer w
    w'.cfg = w.cfg ∧ w'.links = w.links ∧ w'.pending = w.pending ∧
      w'.voiceFd = w.voiceFd ∧ w'.trialFd = w.trialFd ∧ w'.listenFd = w.listenFd := by
  simp only [unbindPeer]
  split <;> exact ⟨rfl, rfl, rfl, rfl, rfl, rfl⟩

/-- The OpenBridge mux closes the sockets that are bound and touches nothing of the CC-CC mux. -/
theorem peersStopped (wf : Wf ph w) (stopped : MuxStopped w) :
    Wf ph (obpMuxStop w) ∧ MuxStopped (obpMuxStop w) ∧
      ∀ peer < (obpMuxStop w).cfg.nOpenbridge, (obpMuxStop w).obpActive peer = false := by
  have turns := List.foldl_turns (fun v peer => if v.obpActive peer then unbindPeer peer v else v)
    (fun rest v => (Wf ph v ∧ MuxStopped v) ∧ (∀ peer ∈ rest, peer < v.cfg.nOpenbridge) ∧
      ∀ peer < v.cfg.nOpenbridge, peer ∉ rest → v.obpActive peer = false) ?_ (List.range w.cfg.nOpenbridge) w
    ⟨⟨wf, stopped⟩, by simp, fun peer inside outside => absurd (List.mem_range.mpr inside) outside⟩
  · exact ⟨turns.1.1, turns.1.2, fun peer inside => turns.2.2 peer inside (by simp)⟩
  · rintro peer rest v ⟨⟨kept, left⟩, inside, closed⟩
    split
    next active =>
      obtain ⟨cfg, links, pending, voice, trial, listen⟩ := unbindPeer_frame peer v
      refine ⟨⟨kept.unbound (inside peer (by simp)) active, ?_⟩, fun p member => ?_, fun p known outside => ?_⟩
      · constructor
        case links =>
          intro i
          rw [Halted, links]
          exact left.links i
        case slots =>
          intro s
          rw [pending]
          exact left.slots s
        case sockets =>
          rw [voice, trial, listen]
          exact left.sockets
      · rw [cfg]
        exact inside p (by simp [member])
      · rw [unbindPeer_active]
        by_cases here : p = peer
        · simp [here]
        · rw [Function.update_of_ne here]
          exact closed p (cfg ▸ known) (by simp [here, outside])
    next inactive =>
      refine ⟨⟨kept, left⟩, fun p member => inside p (by simp [member]), fun p known outside => ?_⟩
      by_cases here : p = peer
      · simpa [here] using inactive
      · exact closed p known (by simp [here, outside])

end Wf

/-! ## The whole process -/

/-- Nothing of the process is left: only the standard descriptors are open, nothing is registered but for a stray
entry that is never ready, no timer can fire, and no link, slot or socket is in use. -/
structure Released (w : World) : Prop where
  closed : ∀ fd ∈ w.openFds, fd ∈ stdFds
  reads : ∀ e ∈ w.loop.fds, e.1 = -1
  writes : ∀ e ∈ w.loop.wfds, e.1 = -1
  disarmed : ∀ t ∈ w.loop.timers, t.active = false
  links : ∀ i, (w.links i).state = .down ∧ (w.links i).fd = -1
  slots : ∀ s, (w.pending s).inUse = false
  peers : ∀ peer < w.cfg.nOpenbridge, w.obpActive peer = false

/-- Without a holder there is nothing to hold. -/
theorem Wf.released {w : World} {ph : Phase} (wf : Wf ph w) (idle : ph.busy = none) (stopped : Wf.MuxStopped w)
    (closed : ∀ peer < w.cfg.nOpenbridge, w.obpActive peer = false) : Released w := by
  obtain ⟨voice, trial, listen⟩ := stopped.sockets
  have nobody : ∀ h, w.own h = none := by
    intro h
    cases h with
    | voice => simp [World.own, socketOwn, voice]
    | trial => simp [World.own, socketOwn, trial]
    | listen => simp [World.own, socketOwn, listen]
    | obp peer =>
      by_cases inside : peer < w.cfg.nOpenbridge
      · have unbound : w.obpFd peer < 0 := by simpa [wf.sockets peer] using closed peer inside
        simp [World.own, socketOwn, unbound]
      · simp [World.own, inside]
    | pending s => simp [World.own, pendingOwn, stopped.slots s]
    | link i => simp [World.own, linkOwn, (stopped.links i).1]
  have noHandle : ∀ k, w.handle k = none := by
    intro k
    by_contra some_
    cases k with
    | reconnect i =>
      have active := ((wf.links i).waiting.mp some_).2.2
      simp [(stopped.links i).2] at active
    | keepalive i =>
      have up := (wf.links i).kept.mp some_
      simp [(stopped.links i).1] at up
    | pendingTimeout s =>
      have inUse := (wf.slots s (by simp [idle])).timed.mp some_
      simp [stopped.slots s] at inUse
  constructor
  case closed =>
    intro fd member
    rcases wf.owned.claimed fd member with reserved | ⟨h, m, owns⟩
    · exact reserved
    · rw [nobody h] at owns
      cases owns
  case reads =>
    intro e member
    refine wf.owned.reading.strays e member ?_
    by_contra nonneg
    obtain ⟨h, view⟩ := (wf.owned.reading.entries e (not_lt.mp nonneg)).mp member
    rw [nobody h] at view
    cases view
  case writes =>
    intro e member
    refine wf.owned.writing.strays e member ?_
    by_contra nonneg
    obtain ⟨h, view⟩ := (wf.owned.writing.entries e (not_lt.mp nonneg)).mp member
    rw [nobody h] at view
    cases view
  case disarmed =>
    intro t member
    by_contra active
    have handle := wf.armed.handle_of_live ⟨t, member, rfl, rfl, by simpa using active⟩
    rw [noHandle] at handle
    cases handle
  case links => exact fun i => ⟨(stopped.links i).1, (wf.links i).closed (stopped.links i).1⟩
  case slots => exact stopped.slots
  case peers => exact closed

theorem Wf.MuxStopped.of_core {v w : World} (stopped : Wf.MuxStopped w) (same : v.core = w.core) : Wf.MuxStopped v := by
  obtain ⟨-, -, -, voice, trial, listen, links, pending, -⟩ := (core_eq_iff _ _).mp same
  constructor
  case links =>
    intro i
    rw [Wf.Halted, links]
    exact stopped.links i
  case slots =>
    intro s
    rw [pending]
    exact stopped.slots s
  case sockets =>
    rw [voice, trial, listen]
    exact stopped.sockets

namespace System

variable {s : System} {cfg : Config} {log : List Out}

theorem shutdown_released {orphans : Prop} (wf : Wf { orphans } s.world) (c : Ctx) : Released (s.shutdown c).1.world := by
  have cleared : Wf { orphans } s.cleared.world.unlogged := wf.of_core rfl
  obtain ⟨linked, stopped⟩ := cleared.muxStopped c
  have core := core_callback c (ccccMuxStop c) s.cleared
  obtain ⟨t, muxed⟩ : ∃ t, s.cleared.callback c (ccccMuxStop c) = t := ⟨_, rfl⟩
  rw [muxed] at core
  -- the peers' sockets go last, in the world the mux has left
  have unlogged : t.world.unlogged.core = (ccccMuxStop c s.cleared.world.unlogged).core := core
  obtain ⟨peered, stopped', closed⟩ := (linked.of_core unlogged.symm).peersStopped (stopped.of_core unlogged)
  have core' : (s.shutdown c).1.world.core = (obpMuxStop t.world.unlogged).core := by
    simp only [shutdown, muxed]
    exact core_callback c obpMuxStop t
  obtain ⟨cfg', -, -, -, -, -, -, -, -, obpActive⟩ := (core_eq_iff _ _).mp core'
  refine (peered.of_core core'.symm).released rfl (stopped'.of_core core') ?_
  rw [cfg', obpActive]
  exact closed

/-- The wires over a run whose reloads switch a call's link off with its peer. -/
theorem onWires_run (c : Ctx) (cfg : Config) (accepted : cfg.Accepted) (es : List (Ctx × Event))
    (released : Machine.Meets step CallsReleased (start c cfg) es) :
    let run := Machine.run step (start c cfg) es
    OnWires cfg run.1 run.2 := by
  have started : OnWires cfg (start c cfg) [] := by
    refine ⟨sound_run c cfg accepted [], congrArg Config.fixed (Wf.start_cfg c cfg), ?_, fun i p => ⟨[], rfl, ?_⟩⟩
    · intro i p _ active
      cases active
    · split
      · exact (ccTracked_idle rfl).mpr Session.tracks_nil
      · rfl
  have wires := Machine.run_invariant step (OnWires cfg) (fun s log e wires released => wires.step e released) _ [] es
    released started
  rwa [List.nil_append] at wires

/-- Every call is closed on the wire before its peer's socket is. -/
theorem OnWires.shutdown (wires : OnWires cfg s log) (c : Ctx) (i p : Nat) :
    dmrdCall.Tracks none (wireFrames i p (log ++ (s.shutdown c).2)) := by
  have moments := shutdown_moments c s
  have down : ((s.shutdown c).1.world.links i).state = .down := shutdown_down wires.sound.wf c i
  generalize s.shutdown c = after at moments down ⊢
  have framed := wires.framed.trace wires.fixed wires.sound.wf.sockets wires.sound.calls moments
  have calls := CallsUp.trace moments wires.sound.calls
  -- a link that is DOWN has no call from CC-CC
  have idle : (after.1.tr.link i).inCall .cc = false := by
    by_contra active
    have up := calls.up i (by simpa using active)
    simp [World.isUp, down] at up
  obtain ⟨handed, written, tracked⟩ := framed.tracked i p
  rw [written]
  split at tracked
  · exact ((ccTracked_idle idle).mp tracked).map (dmrdCall_outgoing (cfg.openbridgeAt p))
  · rw [tracked]
    exact Session.tracks_nil

end System

end Cc2obp
