import Cc2obp.Cccc.Descriptors

/-!
# The muxes and their descriptors

Every function of the CC-CC mux keeps the owners of the descriptors and timers,
one function of the source after the other.
-/
namespace Cc2obp

open World Lines

section Frame
variable (c : Ctx) (i : Nat) (w : World)

theorem teardown_pending : (teardownLinkConnection c i w).pending = w.pending := by
  rw [teardown_eq]
  rfl

theorem teardown_links : (teardownLinkConnection c i w).links = Function.update w.links i
    { (w.links i).torn with
      reconnectTimer := if retries w i then some w.loop.nextTimer else (w.links i).reconnectTimer } := by
  rw [teardown_eq]
  rfl

theorem dial_cfg : (ccccStartOutboundConnect c i w).cfg = w.cfg := by
  simp only [ccccStartOutboundConnect]
  split
  · rfl
  · split <;> rfl

theorem finishOutboundHandshake_cfg : (finishOutboundHandshake c i w).cfg = w.cfg := by
  simp only [finishOutboundHandshake]
  split
  · rw [teardown_cfg]
    rfl
  · rfl

theorem linkOnLine_cfg (line : List Byte) : (linkOnLine c i line w).cfg = w.cfg := by
  simp only [linkOnLine, dispatchEstablishedLine]
  split
  · split <;> split
    · rw [finishOutboundHandshake_cfg]
      rfl
    · rfl
    · rw [finishOutboundHandshake_cfg]
    · rfl
  · split <;> rfl
  · rfl

theorem reconcileLink_cfg : (reconcileLink c w i).cfg = w.cfg := by
  simp only [reconcileLink]
  split
  · split
    · rw [dial_cfg]
      rfl
    · split
      · split
        · rw [teardown_cfg]
          rfl
        · rfl
      · rfl
  · split
    · rw [teardown_cfg]
      rfl
    · rfl

end Frame

namespace Wf

variable {w : World} {ph : Phase} {s i : Nat} (c : Ctx)

/-! ## Timers of a link -/

/-- Both timers of a link are what they were. -/
theorem handle_kept (w : World) (i : Nat) : Function.update (Function.update w.handle (.reconnect i)
    (w.links i).reconnectTimer) (.keepalive i) (w.links i).keepaliveTimer = w.handle := by
  rw [show (w.links i).reconnectTimer = w.handle (.reconnect i) from rfl, Function.update_eq_self,
    show (w.links i).keepaliveTimer = w.handle (.keepalive i) from rfl, Function.update_eq_self]

/-- The keepalive timer is cancelled. -/
theorem keepalive_cancelled (wf : Wf ph w) (i : Nat) :
    Armed (Function.update (Function.update w.handle (.reconnect i) (w.links i).reconnectTimer) (.keepalive i) none)
      (evLive (evTimerCancel (w.links i).keepaliveTimer w.loop)) w.loop.nextTimer := by
  rw [show (w.links i).reconnectTimer = w.handle (.reconnect i) from rfl, Function.update_eq_self]
  exact wf.armed.disarm (.keepalive i) fun id k => evLive_timerCancel _ _ id k

/-- The keepalive timer is cancelled and a reconnect armed. -/
theorem keepalive_for_reconnect (wf : Wf ph w) (idle : (w.links i).reconnectTimer = none) (due : Rat) :
    Armed (Function.update (Function.update w.handle (.reconnect i) (some w.loop.nextTimer)) (.keepalive i) none)
      (evLive (evTimerAt due (.reconnect i) (evTimerCancel (w.links i).keepaliveTimer w.loop)))
      (w.loop.nextTimer + 1) := by
  have cancelled := wf.armed.disarm (.keepalive i) fun id k =>
    evLive_timerCancel (w.links i).keepaliveTimer w.loop id k
  have armed := cancelled.arm (k := .reconnect i) (by simpa [World.handle] using idle) fun id k =>
    (evLive_timerAt due (.reconnect i) id k).trans (by rw [evTimerCancel_nextTimer])
  rwa [Function.update_comm (by simp)] at armed

/-- A reconnect is armed. -/
theorem reconnect_armed (wf : Wf ph w) (idle : (w.links i).reconnectTimer = none) (due : Rat) :
    Armed (Function.update (Function.update w.handle (.reconnect i) (some w.loop.nextTimer)) (.keepalive i)
        (w.links i).keepaliveTimer)
      (evLive (evTimerAt due (.reconnect i) w.loop)) (w.loop.nextTimer + 1) := by
  have absent : w.handle (.reconnect i) = none := idle
  have armed := wf.armed.arm absent fun id k => evLive_timerAt due (.reconnect i) id k
  have same : (w.links i).keepaliveTimer =
      Function.update w.handle (.reconnect i) (some w.loop.nextTimer) (.keepalive i) := by simp [World.handle]
  rwa [same, Function.update_eq_self]

/-- A keepalive is armed. -/
theorem keepalive_armed (wf : Wf ph w) (idle : (w.links i).keepaliveTimer = none) (due : Rat) :
    Armed (Function.update (Function.update w.handle (.reconnect i) (w.links i).reconnectTimer) (.keepalive i)
        (some w.loop.nextTimer))
      (evLive (evTimerAt due (.keepalive i) w.loop)) (w.loop.nextTimer + 1) := by
  rw [show (w.links i).reconnectTimer = w.handle (.reconnect i) from rfl, Function.update_eq_self]
  have absent : w.handle (.keepalive i) = none := idle
  exact wf.armed.arm absent fun id k => evLive_timerAt due (.keepalive i) id k

/-! ## Links -/

/-- A connection is released and the link left DOWN, waiting for another attempt if it is to be tried. -/
theorem dropped (wf : Wf ph w) (stale : Nat → Prop) (inside : i < w.cfg.nLink)
    (held : (w.links i).state ≠ .down) (others : ∀ j, j ≠ i → ph.stale j → stale j) (due : Rat) (lk : CcLink)
    (down : lk.state = .down) (fd : lk.fd = -1) (unnamed : lk.hasSyncSource = false)
    (keepalive : lk.keepaliveTimer = none) (again : Bool)
    (dials : again = true ↔ (w.cfg.linkAt i).ccRole = .outbound ∧ lk.active = true)
    (reconnect : lk.reconnectTimer = if again then some w.loop.nextTimer else (w.links i).reconnectTimer)
    (settled : ¬stale i → lk.active = (w.cfg.linkAt i).enabled) :
    let l := releasedLoop (w.links i).fd (evTimerCancel (w.links i).keepaliveTimer w.loop)
    Wf { ph with stale } { w.setLink i lk with
      openFds := releasedFds (w.links i).fd w.openFds
      loop := if again then evTimerAt due (.reconnect i) l else l } := by
  intro l
  -- a link with a connection has no reconnect timer, so the new one is its only one
  have idle := wf.not_waiting held
  have timers : l.timers = (evTimerCancel (w.links i).keepaliveTimer w.loop).timers := by simp [l]
  have next : l.nextTimer = w.loop.nextTimer := by simp [l]
  have numbered : TimersWf l := by
    have cancelled := wf.timers.timerCancel (w.links i).keepaliveTimer
    exact ⟨timers ▸ cancelled.distinct, by rw [timers, next]; simpa using cancelled.below⟩
  have live : ∀ id k, evLive l id k ↔ evLive (evTimerCancel (w.links i).keepaliveTimer w.loop) id k := by
    simp [evLive, timers]
  refine wf.withLink stale inside lk _ _ others ?_ (by simp [unnamed]) ?_ ?_ ?_
  · constructor
    case closed => exact fun _ => fd
    case inbound => exact fun _ => .inl down
    case trying => exact fun _ held => absurd down held
    case waiting =>
      rw [reconnect, ← dials, idle]
      cases again <;> simp [down]
    case kept => simp [keepalive, down]
    case named => simp [unnamed, down]
    case orphan => exact fun up => absurd (down.symm.trans up) (by simp)
    case settled => exact fun fresh => ⟨settled fresh, fun _ => down⟩
  · -- the descriptor is nobody's any more
    have gone : linkOwn i lk = none := by simp [linkOwn, down]
    have released := wf.owned_released inside held
    have tables : l.fds = (releasedLoop (w.links i).fd w.loop).fds ∧
        l.wfds = (releasedLoop (w.links i).fd w.loop).wfds := by
      simp only [l, releasedLoop]
      split <;> simp [evDelFd, evDelFdWrite]
    rw [gone]
    cases again
    · simp only [Bool.false_eq_true, if_false, tables.1, tables.2]
      exact released
    · simp only [if_true, evTimerAt, tables.1, tables.2]
      exact released
  · cases again
    · exact numbered
    · exact numbered.timerAt due _
  · rw [keepalive, reconnect]
    cases again
    · simp only [Bool.false_eq_true, if_false, next]
      exact (wf.keepalive_cancelled i).congr live
    · simp only [if_true]
      have armed := wf.keepalive_for_reconnect idle due
      rw [show (evTimerAt due (TimerCb.reconnect i) l).nextTimer = w.loop.nextTimer + 1 by
        simp [evTimerAt, next]]
      refine armed.congr fun id k => ?_
      rw [evLive_timerAt, evLive_timerAt, live, next, evTimerCancel_nextTimer]

theorem torn_fd (wf : Wf ph w) (inside : i < w.cfg.nLink) (held : (w.links i).state ≠ .down) :
    (w.links i).torn.fd = -1 := by
  simp only [CcLink.torn]
  split
  · rfl
  next negative => exact (wf.orphan_of_closed inside held (by omega)).2

theorem teardown (wf : Wf ph w) (inside : i < w.cfg.nLink) (held : (w.links i).state ≠ .down) :
    Wf ph (teardownLinkConnection c i w) := by
  rw [teardown_eq]
  have down := wf.dropped ph.stale inside held (fun _ _ here => here) (c.now + reconnectDelayS)
    { (w.links i).torn with
      reconnectTimer := if retries w i then some w.loop.nextTimer else (w.links i).reconnectTimer }
    rfl (wf.torn_fd inside held) rfl rfl (decide (retries w i)) (decide_eq_true_iff.trans Iff.rfl) (by simp)
    (fun fresh => ((wf.links i).settled fresh).1)
  simp only [decide_eq_true_eq] at down
  exact down.of_core rfl

/-- An outbound link that is DOWN is dialled. Its last reconnect timer, if it had one, has been dropped. -/
theorem dial (wf : Wf ph w) (stale : Nat → Prop) (inside : i < w.cfg.nLink)
    (others : ∀ j, j ≠ i → ph.stale j → stale j) (outbound : (w.cfg.linkAt i).ccRole = .outbound)
    (down : (w.links i).state = .down) (loop : EvLoop FdCb TimerCb) (fds : loop.fds = w.loop.fds)
    (wfds : loop.wfds = w.loop.wfds) (timers : TimersWf loop)
    (armed : Armed (Function.update w.handle (.reconnect i) none) (evLive loop) loop.nextTimer)
    (settled : ¬stale i → (w.cfg.linkAt i).enabled = true) :
    Wf { ph with stale } (ccccStartOutboundConnect c i
      { w.setLink i { w.links i with active := true, reconnectTimer := none } with loop }) := by
  have unkept := wf.not_kept (i := i) (by simp [down])
  have absent : w.own (.link i) = none := by simp [own_link w inside, linkOwn, down]
  obtain ⟨closed, nonneg⟩ := lowestFree_fresh w.openFds
  have member : Holder.link i ∈ holders := mem_holders_link (Nat.lt_of_lt_of_le inside wf.linkSizes)
  have same : (w.links i).keepaliveTimer = Function.update w.handle (.reconnect i) none (.keepalive i) := by
    simp [World.handle]
  simp only [ccccStartOutboundConnect]
  split
  · -- connected or on the way: the descriptor is the link's to write
    have connecting := wf.withLink stale inside
      { w.links i with
        active := true, reconnectTimer := none, rxbuf := [], hslines := [], hasSyncSource := false
        fd := lowestFree w.openFds, state := .connecting }
      (lowestFree w.openFds :: w.openFds) (evAddFdWrite (lowestFree w.openFds) (.connect i) loop) others
      ⟨by simp, by simp [outbound], by simp, by simp, by simp [unkept], by simp, by simp, fun fresh => by
        simp [settled fresh]⟩ (by simp)
      (by
        have owned := wf.owned.acquire_write (FdCb.connect i) absent member closed nonneg
        rw [← fds, ← wfds] at owned
        exact owned)
      ⟨timers.distinct, timers.below⟩ (by
        dsimp only
        rw [same, Function.update_eq_self]
        exact armed)
    refine connecting.of_core ?_
    simp [openFd, World.setLink, World.onLoop, World.core, evAddFdWrite]
  · -- no descriptor; another try is due
    have waiting := wf.withLink stale inside
      { w.links i with
        active := true, reconnectTimer := some loop.nextTimer, rxbuf := [], hslines := [], hasSyncSource := false
        fd := -1 }
      w.openFds (evTimerAt (c.now + reconnectDelayS) (.reconnect i) loop) others
      ⟨by simp, by simp [down], by simp, by simp [down, outbound], by simp [unkept, down], by simp [down],
        by simp [down], fun fresh => by simp [settled fresh, down]⟩ (by simp)
      (by
        have gone : linkOwn i { w.links i with
            active := true, reconnectTimer := some loop.nextTimer, rxbuf := [], hslines := []
            hasSyncSource := false, fd := -1 } = w.own (.link i) := by simp [linkOwn, down, absent]
        rw [gone, Function.update_eq_self]
        simpa only [evTimerAt, fds, wfds] using wf.owned)
      (timers.timerAt _ _) (by
        have again := armed.arm (k := .reconnect i) (by simp) fun id k =>
          evLive_timerAt (c.now + reconnectDelayS) (.reconnect i) id k
        rw [Function.update_idem] at again
        have same : (w.links i).keepaliveTimer =
            Function.update w.handle (.reconnect i) (some loop.nextTimer) (.keepalive i) := by simp [World.handle]
        dsimp only
        rw [same, Function.update_eq_self]
        exact again)
    refine waiting.of_core ?_
    simp [World.setLink, World.onLoop, World.core, scheduleReconnect, timerAfter]

theorem reconnectCb (wf : Wf ph w) {id : Nat} (fired : (w.links i).reconnectTimer = some id) :
    Wf ph (reconnectCb c i (w.onLoop (evTimerCancel (some id)))) := by
  obtain ⟨down, outbound, active⟩ := (wf.links i).waiting.mp (by simp [fired])
  have inside := wf.inside_of_ne (i := i) (by
    intro blank
    simp [blank] at fired)
  have dropped := wf.armed.disarm (.reconnect i)
    fun id' k => (evLive_timerCancel (some id) w.loop id' k).trans (by simp [World.handle, fired])
  have dialled := wf.dial c ph.stale inside (fun _ _ here => here) outbound down
    (evTimerCancel (some id) w.loop) rfl rfl (wf.timers.timerCancel _)
    (by rw [evTimerCancel_nextTimer]; exact dropped)
    (fun fresh => ((wf.links i).settled fresh).1.symm.trans active)
  have record : ({ w.links i with reconnectTimer := none } : CcLink) =
      { w.links i with active := true, reconnectTimer := none } := by rw [← active]
  have goes : Cc2obp.reconnectCb c i (w.onLoop (evTimerCancel (some id))) = ccccStartOutboundConnect c i
      { w.setLink i { w.links i with active := true, reconnectTimer := none } with
        loop := evTimerCancel (some id) w.loop } := by
    simp only [Cc2obp.reconnectCb, World.onLoop, record]
    simp [World.setLink]
  rw [goes]
  exact dialled

theorem connectWritable (wf : Wf ph w) {fd : Int} (inside : i < w.cfg.nLink)
    (owns : w.own (.link i) = some (fd, .write (.connect i))) (connected : Bool) :
    Wf ph (onConnectWritable c i fd connected w) := by
  obtain ⟨connecting, rfl⟩ : (w.links i).state = .connecting ∧ (w.links i).fd = fd := by
    rw [own_link w inside, linkOwn] at owns
    cases state : (w.links i).state <;> simp [state] at owns ⊢
    exact owns
  have held : (w.links i).state ≠ .down := by simp [connecting]
  have idle := wf.not_waiting held
  have unkept := wf.not_kept (i := i) (by simp [connecting])
  -- only an active outbound link connects
  have outbound : (w.cfg.linkAt i).ccRole = .outbound := by
    cases role : (w.cfg.linkAt i).ccRole with
    | outbound => rfl
    | inbound => rcases (wf.links i).inbound role with state | state <;> simp [connecting] at state
  have active := (wf.links i).trying outbound held
  have settled := (wf.links i).settled
  simp only [onConnectWritable]
  cases connected with
  | false =>
    simp only [Bool.not_false, if_true, active]
    have numbered : TimersWf (evDelFdWrite (w.links i).fd w.loop) := ⟨wf.timers.distinct, wf.timers.below⟩
    have failed := wf.withLink ph.stale inside
      { w.links i with fd := -1, state := .down, reconnectTimer := some w.loop.nextTimer }
      (w.openFds.filter (· ≠ (w.links i).fd))
      (evTimerAt (c.now + reconnectDelayS) (.reconnect i) (evDelFdWrite (w.links i).fd w.loop))
      (fun _ _ here => here) ?_ ?_ ?_ (numbered.timerAt _ _) (wf.reconnect_armed idle _)
    · refine failed.of_core ?_
      simp [World.core, World.setLink, World.onLoop, closeFd, scheduleReconnect, timerAfter, evDelFdWrite, active]
    · have unnamed : (w.links i).hasSyncSource = false := by
        simpa [connecting] using mt (wf.links i).named.mp
      exact ⟨by simp, by simp, by simp, by simp [outbound, active], by simp [unkept], by simp [unnamed], by simp,
        fun fresh => by simpa [active] using (settled fresh).1⟩
    · intro has
      have named := (wf.links i).named.mp has
      simp [connecting] at named
    · have released := wf.owned.release owns
      rw [wf.owned.del_reading owns] at released
      exact released
  | true =>
    simp only [Bool.not_true, Bool.false_eq_true, if_false]
    split
    · exact wf
    next s minted =>
      have fresh := List.find?_some minted
      have handshaking := wf.withLink ph.stale inside
        { w.links i with state := .handshaking, syncSource := s, hasSyncSource := true } w.openFds
        (evAddFd (w.links i).fd (.link i) (evDelFdWrite (w.links i).fd w.loop)) (fun _ _ here => here)
        ⟨by simp, by simp [outbound], by simp [active], by simp [idle], by simp [unkept], by simp, by simp,
          fun fresh => by simpa [active, connecting] using settled fresh⟩ ?_ (wf.owned.promote owns)
        ⟨wf.timers.distinct, wf.timers.below⟩ (by rw [handle_kept]; exact wf.armed)
      · exact handshaking.emit _
      · intro _ j _ has same
        have inside' := wf.inside_of_ne (i := j) (by
          intro blank
          simp [blank] at has)
        have free : findLinkBySsrc w s = none := by simpa [findLinkBySsrc, World.onLoop] using fresh
        simp only [findLinkBySsrc, List.find?_eq_none, List.mem_range] at free
        exact free j inside' (by simp [has, same])

/-- An UP record gets its keepalive timer. -/
theorem upped (wf : Wf ph w) (inside : i < w.cfg.nLink) (handshaking : (w.links i).state = .handshaking) :
    Wf ph ((armKeepalive c i (w.setLink i { w.links i with hslines := [], state := .up })).emit
      (.call (.linkUp i))) := by
  have held : (w.links i).state ≠ .down := by simp [handshaking]
  have idle := wf.not_waiting held
  have unkept := wf.not_kept (i := i) (by simp [handshaking])
  have named := (wf.links i).named.mpr (.inl handshaking)
  have owns : w.own (.link i) = some ((w.links i).fd, .read (.link i)) := by
    simp [own_link w inside, linkOwn, handshaking]
  have nonneg := (wf.owned.isOpen _ _ _ owns).1
  have up := wf.withLink ph.stale inside
    { w.links i with
      hslines := [], state := .up, lastKeepaliveRecv := c.now, keepaliveTimer := some w.loop.nextTimer }
    w.openFds (evTimerAt (c.now + w.cfg.ccKeepaliveInterval) (.keepalive i) w.loop) (fun _ _ here => here)
    ⟨by simp, by simp, fun outbound _ => (wf.links i).trying outbound held, by simp [idle], by simp,
      by simp [named], fun _ negative => absurd nonneg (not_le.mpr negative), fun fresh => by
        simpa [handshaking] using (wf.links i).settled fresh⟩ ?_ ?_ (wf.timers.timerAt _ _)
    (wf.keepalive_armed unkept _)
  · refine up.of_core ?_
    simp [World.core, World.setLink, World.onLoop, World.emit, Cc2obp.armKeepalive, timerAfter]
  · intro _ j other has same
    exact other (wf.sources j i has named same)
  · have same : linkOwn i { w.links i with
        hslines := [], state := .up, lastKeepaliveRecv := c.now, keepaliveTimer := some w.loop.nextTimer } =
        w.own (.link i) := by simp [linkOwn, owns, nonneg]
    rw [same, Function.update_eq_self]
    exact wf.owned

theorem handshakeFinished (wf : Wf ph w) (inside : i < w.cfg.nLink)
    (handshaking : (w.links i).state = .handshaking) : Wf ph (finishOutboundHandshake c i w) := by
  simp only [finishOutboundHandshake]
  split
  · have read : Wf ph (w.setLink i { w.links i with hslines := [] }) := wf.setLink_soft inside _ rfl
    exact read.teardown c inside (by simp [World.setLink, handshaking])
  · have up := wf.upped c inside handshaking
    simpa [World.setLink] using up

theorem onLine (wf : Wf ph w) (inside : i < w.cfg.nLink) (line : List Byte) : Wf ph (linkOnLine c i line w) := by
  simp only [linkOnLine]
  split
  next handshaking =>
    have collected : Wf ph (w.setLink i { w.links i with hslines := (w.links i).hslines ++ [line.take 255] }) :=
      wf.setLink_soft inside _ rfl
    split <;> split
    · exact collected.handshakeFinished c inside (by simp [World.setLink, handshaking])
    · exact collected
    · exact wf.handshakeFinished c inside handshaking
    · exact wf
  · simp only [dispatchEstablishedLine]
    split
    · exact wf.emit _
    · exact wf
  · exact wf

theorem linkFed (wf : Wf ph w) (inside : i < w.cfg.nLink) (bytes : List Byte) :
    Wf ph (feedBytes (linkBuffer i) rxbufCap (linkOnLine c i) bytes w) := by
  have fed := feedBytes_invariant (linkBuffer i) rxbufCap (linkOnLine c i)
    (fun v => Wf ph v ∧ i < v.cfg.nLink) ?_ bytes w ⟨wf, inside⟩
  · exact fed.1
  · rintro v b ⟨kept, known⟩
    have buffered : ∀ u : World, Wf ph u → i < u.cfg.nLink → ∀ rx, Wf ph ((linkBuffer i).put rx u) :=
      fun u here inside rx => here.setLink_soft inside _ rfl
    simp only [feedByte]
    split
    · have read := (buffered v kept known (push rxbufCap ((linkBuffer i).get v) b)).onLine c known
      have cfg : ∀ line, (linkOnLine c i line ((linkBuffer i).put (push rxbufCap ((linkBuffer i).get v) b) v)).cfg =
          v.cfg := fun line => linkOnLine_cfg c i _ line
      exact ⟨buffered _ (read _) (by rw [cfg]; exact known) _, by
        simp only [linkBuffer, World.setLink] at cfg ⊢
        rw [cfg]
        exact known⟩
    · exact ⟨buffered v kept known _, known⟩

theorem linkReadable (wf : Wf ph w) (inside : i < w.cfg.nLink) (held : (w.links i).state ≠ .down)
    (r : RecvResult) : Wf ph (onLinkTcpReadable c i r w) := by
  cases r with
  | data bytes => exact wf.linkFed c inside bytes
  | wouldBlock => exact wf
  | closed => exact wf.teardown c inside held
  | error => exact wf.teardown c inside held

/-- The keepalive of a link, as its timer sends it. -/
theorem keepaliveCb_eq {id : Nat} (up : (w.links i).state = .up) (fired : (w.links i).keepaliveTimer = some id) :
    keepaliveCb c i (w.onLoop (evTimerCancel (some id))) =
      if linkTimedOut c i w then teardownLinkConnection c i (w.emit (keepaliveOut i w))
      else { w.setLink i { w.links i with keepaliveTimer := some w.loop.nextTimer } with
        loop := evTimerAt (c.now + w.cfg.ccKeepaliveInterval) (.keepalive i) (evTimerCancel (some id) w.loop)
        out := w.out ++ [keepaliveOut i w] } := by
  by_cases silent : linkTimedOut c i w
  · have late := silent
    unfold linkTimedOut at late
    rw [if_pos silent, ← teardown_unkept]
    simp [Cc2obp.keepaliveCb, World.setLink, up, udpSendToLink, World.emit, late, keepaliveOut, World.onLoop, fired]
  · have recent := silent
    unfold linkTimedOut at recent
    simp [silent, Cc2obp.keepaliveCb, World.setLink, up, udpSendToLink, World.emit, recent, keepaliveOut,
      timerAfter, World.onLoop]

theorem keepaliveCb (wf : Wf ph w) {id : Nat} (fired : (w.links i).keepaliveTimer = some id) :
    Wf ph (keepaliveCb c i (w.onLoop (evTimerCancel (some id)))) := by
  have up := (wf.links i).kept.mp (by simp [fired])
  have inside := wf.inside_of_ne (i := i) (by
    intro blank
    simp [blank] at fired)
  rw [keepaliveCb_eq c up fired]
  split
  · exact (wf.emit _).teardown c inside (by simp [World.emit, up])
  · have dropped := wf.armed.disarm (.keepalive i)
      fun id' k => (evLive_timerCancel (some id) w.loop id' k).trans (by simp [World.handle, fired])
    have armed := dropped.arm (k := .keepalive i) (by simp) fun id' k =>
      (evLive_timerAt (c.now + w.cfg.ccKeepaliveInterval) (.keepalive i) id' k).trans
        (by rw [evTimerCancel_nextTimer])
    rw [Function.update_idem] at armed
    obtain ⟨closed, inbound, trying, waiting, kept, named, orphan, settled⟩ := wf.links i
    have again := wf.withLink ph.stale inside
      { w.links i with keepaliveTimer := some w.loop.nextTimer } w.openFds
      (evTimerAt (c.now + w.cfg.ccKeepaliveInterval) (.keepalive i) (evTimerCancel (some id) w.loop))
      (fun _ _ here => here) ⟨closed, inbound, trying, waiting, by simp [up], named, orphan, settled⟩ ?_ ?_
      ((wf.timers.timerCancel _).timerAt _ _) ?_
    · exact again.of_core rfl
    · intro has j other has' same
      exact other (wf.sources j i has' has same)
    · have owns : linkOwn i { w.links i with keepaliveTimer := some w.loop.nextTimer } = w.own (.link i) := by
        simp [own_link w inside, linkOwn]
      rw [owns, Function.update_eq_self]
      simpa [evTimerAt] using wf.owned
    · rw [show (w.links i).reconnectTimer = w.handle (.reconnect i) from rfl, Function.update_eq_self]
      simpa [evTimerAt] using armed

theorem voiceReadable (wf : Wf ph w) (datagram srcIp : List Byte) (srcPort : Int) :
    Wf ph (onVoiceReadable c datagram srcIp srcPort w) := by
  simp only [onVoiceReadable]
  split
  · exact wf
  split
  · split
    · exact wf
    next j found =>
      have inside : j < w.cfg.nLink := by
        simp only [datagramLink] at found
        split at found
        · cases found
        next known =>
          split at found
          · cases found
          · cases found
            simpa using List.mem_of_find?_eq_some known
      exact (wf.setLink_soft inside { w.links j with lastKeepaliveRecv := c.now } rfl).emit _
  · split
    · split
      · exact wf
      · exact wf.emit _
    · exact wf

/-! ## Pending connections -/

theorem pending_owns (inside : s < maxPending) (inUse : (w.pending s).inUse = true) :
    w.own (.pending s) = some ((w.pending s).fd, .read (.pending s)) := by
  simp [own_pending w inside, pendingOwn, inUse]

/-- A slot whose record is not blank is one of the array's. -/
theorem slot_inside (wf : Wf ph w) (used : w.pending s ≠ {}) : s < maxPending := by
  by_contra outside
  exact used (wf.beyondSlots s (not_lt.mp outside))

theorem slot_inside_of_inUse (wf : Wf ph w) (inUse : (w.pending s).inUse = true) : s < maxPending := by
  refine wf.slot_inside fun blank => ?_
  simp [blank] at inUse

/-- The slot's timeout is cancelled. -/
theorem timeout_cancelled (wf : Wf ph w) (s : Nat) :
    Armed (Function.update w.handle (.pendingTimeout s) none)
      (evLive (evTimerCancel (w.pending s).timeoutTimer w.loop)) w.loop.nextTimer :=
  wf.armed.disarm (.pendingTimeout s) fun id k => evLive_timerCancel _ _ id k

/-- A slot's record after its timeout is cancelled. -/
theorem stopTimeout (wf : Wf ph w) (inside : s < maxPending) (p : PendingConn)
    (inUse : p.inUse = (w.pending s).inUse) (fd : p.fd = (w.pending s).fd) (stopped : p.timeoutTimer = none)
    (busy : ph.busy = some s) :
    Wf ph ((w.onLoop (evTimerCancel (w.pending s).timeoutTimer)).setPending s p) := by
  refine wf.withPending inside p w.openFds (evTimerCancel (w.pending s).timeoutTimer w.loop)
    (fun idle => absurd busy.symm idle) ?_ (wf.timers.timerCancel _) ?_
  · have same : pendingOwn s p = w.own (.pending s) := by
      simp [own_pending w inside, pendingOwn, inUse, fd]
    rw [same, Function.update_eq_self, evTimerCancel_fds, evTimerCancel_wfds]
    exact wf.owned
  · rw [stopped, evTimerCancel_nextTimer]
    exact wf.timeout_cancelled s

theorem freed (wf : Wf ph w) (inUse : (w.pending s).inUse = true) : Wf ph (freePending s true w) := by
  have inside := wf.slot_inside_of_inUse inUse
  have owns := pending_owns inside inUse
  have nonneg := (wf.owned.isOpen _ _ _ owns).1
  have closed : freePending s true w =
      { w.setPending s { w.pending s with timeoutTimer := none, inUse := false, fd := -1 } with
        openFds := w.openFds.filter (· ≠ (w.pending s).fd)
        loop := evDelFd (w.pending s).fd (evTimerCancel (w.pending s).timeoutTimer w.loop) } := by
    simp [freePending, nonneg, World.setPending, World.onLoop, closeFd]
  have numbered := wf.timers.timerCancel (w.pending s).timeoutTimer
  rw [closed]
  refine wf.withPending inside _ _ _ (fun _ => ⟨by simp, by simp⟩) ?_ ⟨numbered.distinct, numbered.below⟩ ?_
  · have released := wf.owned.release owns
    rw [wf.owned.del_writing owns] at released
    simpa [evDelFd, pendingOwn] using released
  · have cancelled := wf.timeout_cancelled s
    rw [← evTimerCancel_nextTimer (w.pending s).timeoutTimer w.loop] at cancelled
    exact cancelled

theorem timedOut (wf : Wf ph w) {id : Nat} (idle : ph.busy = none)
    (fired : (w.pending s).timeoutTimer = some id) :
    Wf ph (pendingTimeoutCb s (w.onLoop (evTimerCancel (some id)))) := by
  have inUse : (w.pending s).inUse = true := (wf.slots s (by simp [idle])).timed.mp (by simp [fired])
  have same : pendingTimeoutCb s (w.onLoop (evTimerCancel (some id))) = freePending s true w := by
    by_cases held : 0 ≤ (w.pending s).fd <;>
      simp [pendingTimeoutCb, freePending, fired, held, World.setPending, World.onLoop, closeFd]
  rw [same]
  exact wf.freed inUse

theorem accepted (wf : Wf ph w) (idle : ph.busy = none) (srcIp : List Byte) : Wf ph (acceptOne c w srcIp) := by
  obtain ⟨closed, nonneg⟩ := lowestFree_fresh w.openFds
  simp only [acceptOne]
  split
  next full =>
    -- without a free slot the descriptor is closed again
    have same : (w.openFd.2).closeFd w.openFd.1 = w := by
      have others : (lowestFree w.openFds :: w.openFds).filter (· ≠ lowestFree w.openFds) = w.openFds := by
        rw [List.filter_cons_of_neg (by simp), List.filter_eq_self]
        intro fd held
        simp only [decide_eq_true_eq]
        rintro rfl
        exact closed held
      exact congrArg (fun fds => ({ w with openFds := fds } : World)) others
    rw [same]
    exact wf
  next s free =>
    have inside : s < maxPending := by
      have inRange := List.mem_of_find?_eq_some free
      simpa using inRange
    have unused : (w.pending s).inUse = false := by
      have found := List.find?_some free
      simpa [openFd] using found
    -- a free slot has no timer that could be lost
    have untimed : w.handle (.pendingTimeout s) = none := by
      by_contra timed
      have used := (wf.slots s (by simp [idle])).timed.mp timed
      simp [unused] at used
    have absent : w.own (.pending s) = none := by simp [own_pending w inside, pendingOwn, unused]
    refine wf.withPending inside
      { inUse := true, fd := lowestFree w.openFds, srcIp, timeoutTimer := some w.loop.nextTimer }
      (lowestFree w.openFds :: w.openFds)
      (evTimerAt (c.now + pendingTimeoutS) (.pendingTimeout s)
        (evAddFd (lowestFree w.openFds) (.pending s) w.loop))
      (fun _ => ⟨fun _ => by simp [ccccQuestionNfields], by simp⟩) ?_ ?_ ?_
    · exact wf.owned.acquire_read absent (mem_holders_pending inside) closed nonneg
    · have numbered : TimersWf (evAddFd (lowestFree w.openFds) (.pending s) w.loop) :=
        ⟨wf.timers.distinct, wf.timers.below⟩
      exact numbered.timerAt _ _
    · exact wf.armed.arm untimed fun id k => evLive_timerAt (c.now + pendingTimeoutS) (.pendingTimeout s) id k

theorem listenReadable (wf : Wf ph w) (idle : ph.busy = none) (srcIps : List (List Byte)) :
    Wf ph (onListenReadable c srcIps w) := by
  unfold onListenReadable
  induction srcIps generalizing w with
  | nil => exact wf
  | cons srcIp rest ih => exact ih (wf.accepted c idle srcIp)

/-! ## Handing over -/

/-- The record of a link that takes a connection over. -/
def takenRecord (c : Ctx) (p : PendingConn) (timer : Nat) (lk : CcLink) : CcLink :=
  { lk with
    fd := p.fd, rxbuf := [], hslines := [], syncSource := questionSsrc p.qlines, hasSyncSource := true
    state := .up, lastKeepaliveRecv := c.now, keepaliveTimer := some timer }

/-- The record of the slot it takes it from. -/
def handedRecord (p : PendingConn) : PendingConn := { p with inUse := false, fd := -1, timeoutTimer := none }

/-- The link's old connection, if it has one, goes first. -/
def vacated (c : Ctx) (i : Nat) (w : World) : World :=
  if (w.links i).state ≠ .down then teardownLinkConnection c i w else w

/-- What a link without a connection does when it takes a slot's over. -/
def handedOver (c : Ctx) (s i : Nat) (due : Rat) (w : World) : World :=
  { (w.setLink i (takenRecord c (w.pending s) w.loop.nextTimer (w.links i))).setPending s
      (handedRecord (w.pending s)) with
    loop := evTimerAt due (.keepalive i) (evAddFd (w.pending s).fd (.link i) w.loop) }

theorem vacated_cfg (w : World) : (vacated c i w).cfg = w.cfg := by
  unfold vacated
  split
  · exact teardown_cfg c i w
  · rfl

theorem vacated_pending (w : World) : (vacated c i w).pending = w.pending := by
  unfold vacated
  split
  · exact teardown_pending c i w
  · rfl

theorem takeOver_core (stopped : (w.pending s).timeoutTimer = none) : (takeOver c s i w).core =
    (handedOver c s i (c.now + w.cfg.ccKeepaliveInterval) (vacated c i w)).core := by
  simp only [takeOver]
  rw [show (if (w.links i).state ≠ .down then teardownLinkConnection c i w else w) = vacated c i w from rfl]
  simp [World.core, World.emit, freePending, World.setPending, World.onLoop, Cc2obp.armKeepalive, timerAfter,
    tcpSend, World.setLink, stopped, takenRecord, handedRecord, handedOver, evAddFd, vacated_cfg, vacated_pending]

/-- A slot's connection: its own, or none if it has been handed over already. -/
def Connected (orphans : Prop) (p : PendingConn) : Prop :=
  p.inUse = true ∨ p.inUse = false ∧ p.fd = -1 ∧ orphans

/-- The tables after a link without a connection has taken a slot's over. -/
theorem owned_handOver (wf : Wf ph w) (inside : s < maxPending) (connected : Connected ph.orphans (w.pending s))
    (known : i < w.cfg.nLink) (down : (w.links i).state = .down) :
    Owned maxFds stdFds holders (Function.update (Function.update w.own (.pending s) none) (.link i)
        (if 0 ≤ (w.pending s).fd then some ((w.pending s).fd, .read (.link i)) else none))
      w.openFds (FdTable.add maxFds w.loop.fds (w.pending s).fd (.link i)) w.loop.wfds := by
  have absent : w.own (.link i) = none := by simp [own_link w known, linkOwn, down]
  rcases connected with inUse | ⟨free, closed, -⟩
  · have owns := pending_owns inside inUse
    rw [if_pos (wf.owned.isOpen _ _ _ owns).1]
    exact wf.owned.hand_over owns absent (mem_holders_link (Nat.lt_of_lt_of_le known wf.linkSizes))
  · have nobody : w.own (.pending s) = none := by simp [own_pending w inside, pendingOwn, free]
    have kept : Function.update w.own (.pending s) none = w.own := by
      rw [← nobody, Function.update_eq_self]
    rw [closed, if_neg (by decide), kept, ← absent, Function.update_eq_self]
    exact wf.owned.stray

theorem own_handed (inside : s < maxPending) (known : i < w.cfg.nLink) (due : Rat) :
    (handedOver c s i due w).own = Function.update (Function.update w.own (.pending s) none) (.link i)
      (if 0 ≤ (w.pending s).fd then some ((w.pending s).fd, .read (.link i)) else none) := by
  have own := own_setPending (w.setLink i (takenRecord c (w.pending s) w.loop.nextTimer (w.links i))) inside
    (handedRecord (w.pending s))
  rw [own_setLink w known, Function.update_comm (by simp)] at own
  exact own

theorem handle_handed (stopped : (w.pending s).timeoutTimer = none) (due : Rat) :
    (handedOver c s i due w).handle = Function.update (Function.update w.handle (.reconnect i)
      (w.links i).reconnectTimer) (.keepalive i) (some w.loop.nextTimer) := by
  have handles := handle_setPending (w.setLink i (takenRecord c (w.pending s) w.loop.nextTimer (w.links i))) s
    (handedRecord (w.pending s))
  have untimed : (handedRecord (w.pending s)).timeoutTimer =
      (w.setLink i (takenRecord c (w.pending s) w.loop.nextTimer (w.links i))).handle (.pendingTimeout s) := by
    simp [handedRecord, World.handle, World.setLink, stopped]
  rw [untimed, Function.update_eq_self, handle_setLink] at handles
  exact handles

theorem handOver (wf : Wf ph w) (busy : ph.busy = some s) (inside : s < maxPending)
    (stopped : (w.pending s).timeoutTimer = none) (connected : Connected ph.orphans (w.pending s))
    (known : i < w.cfg.nLink) (inbound : (w.cfg.linkAt i).ccRole = .inbound)
    (enabled : (w.cfg.linkAt i).enabled = true) (down : (w.links i).state = .down)
    (source : ∀ j, j ≠ i → (w.links j).hasSyncSource = true →
      (w.links j).syncSource ≠ questionSsrc (w.pending s).qlines) (due : Rat) :
    Wf { ph with busy := none } (handedOver c s i due w) := by
  -- an inbound link is never waiting for another try
  have idle : (w.links i).reconnectTimer = none := by
    by_contra waits
    have outbound := ((wf.links i).waiting.mp waits).2.1
    simp [inbound] at outbound
  have unkept := wf.not_kept (i := i) (by simp [down])
  constructor
  case linkSizes => exact wf.linkSizes
  case peerSizes => exact wf.peerSizes
  case owned =>
    rw [own_handed c inside known]
    exact wf.owned_handOver inside connected known down
  case timers =>
    have numbered : TimersWf (evAddFd (w.pending s).fd (.link i) w.loop) := ⟨wf.timers.distinct, wf.timers.below⟩
    exact numbered.timerAt _ _
  case armed =>
    rw [handle_handed c stopped]
    exact wf.keepalive_armed unkept due
  case links =>
    intro j
    by_cases here : j = i
    · subst here
      simp only [handedOver, World.setPending, World.setLink, Function.update_self, takenRecord]
      constructor
      case closed => simp
      case inbound => exact fun _ => .inr rfl
      case trying => simp [inbound]
      case waiting => simp [idle]
      case kept => simp
      case named => simp
      case orphan =>
        -- only a slot without a descriptor hands none over
        rintro - negative
        rcases connected with inUse | ⟨-, closed, orphans⟩
        · exact absurd (wf.owned.isOpen _ _ _ (pending_owns inside inUse)).1 (not_le.mpr negative)
        · exact ⟨orphans, inbound, closed⟩
      case settled => exact fun fresh => ⟨((wf.links j).settled fresh).1, by simp [enabled]⟩
    · simpa [handedOver, World.setPending, World.setLink, here] using wf.links j
  case beyond =>
    intro j outside
    have apart : j ≠ i := by
      rintro rfl
      exact absurd known (not_lt.mpr outside)
    simpa [handedOver, World.setPending, World.setLink, apart] using wf.beyond j outside
  case sources =>
    intro j k hasJ hasK same
    -- the Question was not accepted over another holder of its sync source
    by_cases hereJ : j = i <;> by_cases hereK : k = i <;>
      simp only [handedOver, World.setPending, World.setLink, hereJ, hereK, Function.update_self, ne_eq, not_false_eq_true,
        Function.update_of_ne, takenRecord] at hasJ hasK same ⊢
    · exact absurd same.symm (source k hereK hasK)
    · exact absurd same (source j hereJ hasJ)
    · exact wf.sources j k hasJ hasK same
  case slots =>
    intro j _
    by_cases here : j = s
    · subst here
      simpa [handedOver, World.setPending, World.setLink] using
        SlotWf.mk (by simp [handedRecord]) (by simp [handedRecord])
    · simpa [handedOver, World.setPending, World.setLink, here] using wf.slots j (by rw [busy]; simpa using here)
  case beyondSlots =>
    intro j outside
    have apart : j ≠ s := by
      rintro rfl
      exact absurd inside (not_lt.mpr outside)
    simpa [handedOver, World.setPending, World.setLink, apart] using wf.beyondSlots j outside
  case sockets => exact wf.sockets

/-- A Question is accepted for the link it matches. -/
theorem accepted_match {p : PendingConn} (accepted : acceptQuestion w p = some i) :
    matchInbound w.cfg p.srcIp (questionLid p.qlines) = some i := by
  unfold acceptQuestion at accepted
  split at accepted
  · cases accepted
  next matched here =>
    split at accepted
    · split at accepted
      · cases accepted
      · rw [here, accepted]
    · rw [here, accepted]

/-- The link a Question is accepted for. -/
theorem accepted_inbound {p : PendingConn} (accepted : acceptQuestion w p = some i) :
    i < w.cfg.nLink ∧ (w.cfg.linkAt i).ccRole = .inbound ∧ (w.cfg.linkAt i).enabled = true := by
  obtain ⟨inside, passes, -⟩ := List.findIdx?_eq_some_iff_getElem.mp (accepted_match accepted)
  simp only [Bool.and_eq_true, beq_iff_eq] at passes
  exact ⟨inside, by simpa [Config.linkAt, inside] using passes.1.1⟩

/-- No other link has the sync source of a Question that is accepted. -/
theorem accepted_source (wf : Wf ph w) {p : PendingConn} (accepted : acceptQuestion w p = some i) :
    ∀ j, j ≠ i → (w.links j).hasSyncSource = true → (w.links j).syncSource ≠ questionSsrc p.qlines := by
  intro j other has same
  have inside := wf.inside_of_ne (i := j) (by
    intro blank
    simp [blank] at has)
  unfold acceptQuestion at accepted
  split at accepted
  · cases accepted
  · split at accepted
    next holder found =>
      split at accepted
      · cases accepted
      next mine =>
        have mine' : holder = i := by
          rw [not_not] at mine
          exact mine.trans (Option.some.inj accepted)
        have holds := List.find?_some found
        simp only [Bool.and_eq_true, beq_iff_eq] at holds
        rw [mine'] at holds
        exact other (wf.sources j i has holds.1 (same.trans holds.2.symm))
    next free =>
      simp only [findLinkBySsrc, List.find?_eq_none, List.mem_range] at free
      exact free j inside (by simp [has, same])

theorem takenOver (wf : Wf ph w) (busy : ph.busy = some s) (inside : s < maxPending)
    (stopped : (w.pending s).timeoutTimer = none) (connected : Connected ph.orphans (w.pending s))
    (accepted : acceptQuestion w (w.pending s) = some i) :
    Wf { ph with busy := none } (takeOver c s i w) := by
  obtain ⟨known, inbound, enabled⟩ := accepted_inbound accepted
  have source := wf.accepted_source accepted
  have empty : Wf ph (vacated c i w) ∧ ((vacated c i w).links i).state = .down ∧
      ∀ j, j ≠ i → (vacated c i w).links j = w.links j := by
    unfold vacated
    split
    next held =>
      refine ⟨wf.teardown c known held, teardown_state c i w, fun j other => ?_⟩
      rw [teardown_links, Function.update_of_ne other]
    next down => exact ⟨wf, by simpa using down, fun _ _ => rfl⟩
  obtain ⟨kept, down, others⟩ := empty
  have handed := kept.handOver c busy inside (by rw [vacated_pending]; exact stopped)
    (by rw [vacated_pending]; exact connected) (by rw [vacated_cfg]; exact known)
    (by rw [vacated_cfg]; exact inbound) (by rw [vacated_cfg]; exact enabled) down
    (fun j other => by rw [others j other, vacated_pending]; exact source j other)
    (c.now + w.cfg.ccKeepaliveInterval)
  exact handed.of_core (takeOver_core c stopped).symm

/-! ## Questions -/

theorem answering (wf : Wf ph w) (idle : ph.busy = none) (s : Nat) : Wf { ph with busy := some s } w :=
  wf.weaken id (.inl idle) fun _ here => here

theorem answered (wf : Wf { ph with busy := some s } w) (shape : SlotWf (w.pending s)) :
    Wf ph w := by
  refine { wf with slots := fun j _ => ?_ }
  by_cases here : j = s
  · rw [here]
    exact shape
  · exact wf.slots j (by simpa using here)

/-- A slot whose Question has been answered. -/
structure Finished (w : World) (s : Nat) : Prop where
  full : (w.pending s).qlines.length = ccccQuestionNfields
  free : (w.pending s).inUse = false
  closed : (w.pending s).fd = -1
  stopped : (w.pending s).timeoutTimer = none

theorem Finished.shape (done : Finished w s) : SlotWf (w.pending s) :=
  ⟨by simp [done.free], by simp [done.free, done.stopped]⟩

/-- Every further line is taken for the end of the Question. -/
theorem Finished.onLine (done : Finished w s) (line : List Byte) :
    pendingOnLine c s line w = handleQuestionComplete c s w := by
  simp [pendingOnLine, done.full]

theorem takeOver_pending (stopped : (w.pending s).timeoutTimer = none) :
    (takeOver c s i w).pending s = handedRecord (w.pending s) := by
  have same := congrArg (fun v : World => v.pending s) (takeOver_core c (i := i) stopped)
  simpa [World.core, handedOver, vacated_pending] using same

/-- A Question is answered, for the first time or again. -/
theorem questionComplete (wf : Wf { ph with busy := some s } w) (inside : s < maxPending)
    (connected : Connected ph.orphans (w.pending s)) (full : (w.pending s).qlines.length = ccccQuestionNfields) :
    Wf ph (handleQuestionComplete c s w) ∧ Finished (handleQuestionComplete c s w) s := by
  cases accepted : acceptQuestion w (w.pending s) with
  | none =>
    rw [handleQuestionComplete_refused c s w accepted]
    have done : Finished (freePending s true w) s := by
      constructor <;> simp [freePending, full]
    refine ⟨?_, done⟩
    rcases connected with inUse | ⟨free, closed, -⟩
    · exact (wf.freed inUse).answered done.shape
    · have closing : freePending s true w = (w.onLoop (evTimerCancel (w.pending s).timeoutTimer)).setPending s
          { w.pending s with timeoutTimer := none, inUse := false, fd := -1 } := by
        simp [freePending, closed, World.setPending, World.onLoop]
      rw [closing] at done ⊢
      exact (wf.stopTimeout inside _ (by simp [free]) (by simp [closed]) rfl rfl).answered done.shape
  | some i =>
    rw [handleQuestionComplete_accepted c s w accepted]
    have read := wf.stopTimeout inside { w.pending s with timeoutTimer := none } rfl rfl rfl rfl
    have taken := read.takenOver c rfl inside (by simp) (by rw [setPending_self]; exact connected)
      ((acceptQuestion_congr rfl rfl (by simp) (by simp)).trans accepted)
    refine ⟨taken.weaken id (.inl rfl) fun _ here => here, ?_⟩
    constructor <;> rw [takeOver_pending c (by simp)] <;> simp [handedRecord, full]

/-- The bytes behind an answered Question, if Questions may be answered again. -/
theorem answeredAgain (wf : Wf ph w) (idle : ph.busy = none) (orphans : ph.orphans) (inside : s < maxPending)
    (done : Finished w s) (bytes : List Byte) :
    Wf ph (feedBytes (pendingBuffer s) rxbufCap (pendingOnLine c s) bytes w) := by
  have fed := feedBytes_invariant (pendingBuffer s) rxbufCap (pendingOnLine c s)
    (fun v => Wf ph v ∧ Finished v s) ?_ bytes w ⟨wf, done⟩
  · exact fed.1
  · rintro v b ⟨kept, done⟩
    -- the slot's buffer decides nothing
    have buffered : ∀ u : World, Wf ph u ∧ Finished u s → ∀ rx,
        Wf ph ((pendingBuffer s).put rx u) ∧ Finished ((pendingBuffer s).put rx u) s := by
      rintro u ⟨kept, done⟩ rx
      refine ⟨kept.setPending_soft inside _ rfl rfl rfl fun _ used => ?_, ?_⟩
      · simp [done.free] at used
      · constructor <;> simp only [pendingBuffer_put, setPending_self]
        exacts [done.full, done.free, done.closed, done.stopped]
    simp only [feedByte]
    split
    · obtain ⟨kept, done⟩ := buffered v ⟨kept, done⟩ (push rxbufCap ((pendingBuffer s).get v) b)
      have again := (kept.answering idle s).questionComplete c inside
        (.inr ⟨done.free, done.closed, orphans⟩) done.full
      rw [done.onLine]
      exact buffered _ again []
    · exact buffered v ⟨kept, done⟩ _

/-- A chunk on a pending connection. Unless orphans may be left behind it holds no pipelined newline. -/
theorem pendingReadable (wf : Wf ph w) (idle : ph.busy = none) (inUse : (w.pending s).inUse = true)
    (r : RecvResult) (single : ¬ph.orphans → ∀ bytes, r = .data bytes → pipelined w s bytes = false) :
    Wf ph (onPendingReadable c s r w) := by
  have inside := wf.slot_inside_of_inUse inUse
  have shape := wf.slots s (by simp [idle])
  have short := shape.asking inUse
  cases r with
  | wouldBlock => exact wf
  | closed => exact wf.freed inUse
  | error => exact wf.freed inUse
  | data bytes =>
    simp only [onPendingReadable]
    by_cases orphans : ph.orphans
    · -- a Question may be answered again: the invariant goes with every byte of the rest
      have lines := readQuestion_short (w.pending s).rxbuf (w.pending s).qlines bytes short
      rw [feedBytes_pending c s w bytes short]
      split
      next rx qlines reading =>
        rw [reading] at lines
        exact wf.setPending_soft inside _ rfl rfl rfl fun _ _ => lines
      next rx qlines rest reading =>
        rw [reading] at lines
        have read : Wf { ph with busy := some s } (w.setPending s { w.pending s with rxbuf := rx, qlines := qlines }) :=
          (wf.answering idle s).setPending_soft inside _ rfl rfl rfl fun here => absurd rfl here
        obtain ⟨kept, done⟩ := read.questionComplete c inside (.inl (by simpa using inUse)) (by simpa using lines)
        refine Wf.answeredAgain c ?_ idle orphans inside ?_ rest
        · refine kept.setPending_soft inside _ rfl rfl rfl fun _ used => ?_
          simp [done.free] at used
        · constructor <;> simp only [pendingBuffer_put, setPending_self]
          exacts [done.full, done.free, done.closed, done.stopped]
    · -- the chunk ends with the Question, so there are three outcomes
      have taken := feedBytes_pending_step c s w bytes short (single orphans bytes rfl)
      generalize feedBytes (pendingBuffer s) rxbufCap (pendingOnLine c s) bytes w = after at taken ⊢
      have buffered : ∀ v, Wf ph v → ∀ rx, Wf ph ((pendingBuffer s).put rx v) :=
        fun v kept rx => kept.setPending_soft inside _ rfl rfl rfl fun free => (kept.slots s free).asking
      cases taken with
      | collect rx qlines more => exact wf.setPending_soft inside _ rfl rfl rfl fun _ _ => more
      | refuse rx rx' qlines refused =>
        have read : Wf { ph with busy := some s } (w.setPending s { w.pending s with rxbuf := rx, qlines := qlines }) :=
          (wf.answering idle s).setPending_soft inside _ rfl rfl rfl fun here => absurd rfl here
        exact buffered _ ((read.freed (by simpa using inUse)).answered
          ⟨by simp [freePending], by simp [freePending]⟩) rx'
      | accept rx rx' qlines matched accepted =>
        have read : Wf { ph with busy := some s } (questionRead s rx qlines w) :=
          (wf.answering idle s).stopTimeout inside _ rfl rfl rfl rfl
        have taken := read.takenOver c rfl inside (by simp [questionRead]) (.inl (by simpa [questionRead] using inUse))
          ((acceptQuestion_congr rfl rfl (by simp [questionRead]) (by simp [questionRead])).trans accepted)
        exact buffered _ (taken.weaken id (.inl rfl) fun _ here => here) rx'

end Wf

end Cc2obp
