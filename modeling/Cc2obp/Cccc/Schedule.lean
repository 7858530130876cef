import Cc2obp.Cccc.Live
import Cc2obp.Eventloop.Reap
import Cc2obp.Lib.Component
import Cc2obp.Openbridge.ObpLink

/-!
# The timers of both muxes

What each function of the two muxes does to the timers of the event loop. None looks
at the list; a function cancels by the handles in its records and arms timers that are
due later than now, so long as the keepalive interval is positive.
-/
namespace Cc2obp

open World

def World.putTimers (w : World) (timers : List (EvTimer TimerCb)) : World := { w with loop := { w.loop with timers } }

theorem World.putTimers_self (w : World) : w.putTimers w.loop.timers = w := rfl

theorem World.timers_putTimers (w : World) (timers : List (EvTimer TimerCb)) : (w.putTimers timers).loop.timers = timers := rfl

theorem World.putTimers_putTimers (w : World) (timers timers' : List (EvTimer TimerCb)) :
    (w.putTimers timers).putTimers timers' = w.putTimers timers' := rfl

/-- The event loop's timers. -/
def World.timers : Component World (List (EvTimer TimerCb)) where
  get w := w.loop.timers
  put := World.putTimers
  put_get := World.putTimers_self
  get_put := World.timers_putTimers
  put_put := World.putTimers_putTimers

/-- How long a timer is armed for, the interval between keepalives being given. -/
def timerDelay (k : Rat) : TimerCb → Rat
  | .reconnect _ => reconnectDelayS
  | .keepalive _ => k
  | .pendingTimeout _ => pendingTimeoutS

/-- A function cancels timers and arms timers for their delays. -/
abbrev World.Arms (k : Rat) (c : Ctx) (f : World → World) (w : World) : Prop :=
  World.timers.Does TimerOp.apply (TimerOp.After (timerDelay k) c.now) f w

/-- The interval between keepalives, which is positive. -/
def Config.Beats (cfg : Config) (k : Rat) : Prop := cfg.ccKeepaliveInterval = k ∧ 0 < k

namespace World.Arms

variable {k : Rat} {c : Ctx} {w : World}

/-! ## Single calls -/

theorem timerCancel (handle : Option Nat) : Arms k c (fun w => w.onLoop (evTimerCancel handle)) w := by
  refine .one (.cancel handle) trivial fun timers => ?_
  cases handle <;> rfl

/-- A timer and the handle its owner keeps. -/
theorem timerAfter (delay : Rat) (cb : TimerCb) (own : timerDelay k cb = delay) (positive : 0 < delay) (keep : Nat → World → World)
    (blind : ∀ id w timers, keep id (World.timers.put w timers) = World.timers.put (keep id w) timers) :
    Arms k c (fun w => keep (w.timerAfter c delay cb).1 (w.timerAfter c delay cb).2) w := by
  have after : c.now + delay = c.now + timerDelay k cb ∧ 0 < timerDelay k cb := ⟨by rw [own], own ▸ positive⟩
  refine .one (.arm w.loop.nextTimer (c.now + delay) cb) after fun timers => ?_
  have armed : ((World.timers.put w timers).timerAfter c delay cb).2 =
      World.timers.put (w.timerAfter c delay cb).2 (⟨w.loop.nextTimer, c.now + delay, cb, true⟩ :: timers) := rfl
  have id : ((World.timers.put w timers).timerAfter c delay cb).1 = w.loop.nextTimer := rfl
  rw [armed, id, blind]
  rfl

theorem delFd (fd : Int) : Arms k c (fun w => w.onLoop (evDelFd fd)) w := .blind fun _ => rfl

theorem delFdWrite (fd : Int) : Arms k c (fun w => w.onLoop (evDelFdWrite fd)) w := .blind fun _ => rfl

theorem closeFd (fd : Int) : Arms k c (fun w => w.closeFd fd) w := .blind fun _ => rfl

/-! ## Links -/

theorem reconnectLater (i : Nat) : Arms k c (scheduleReconnect c i) w := by
  have positive : 0 < reconnectDelayS := by decide +kernel
  exact (timerAfter reconnectDelayS (.reconnect i) rfl positive
    (fun id w => w.setLink i { w.links i with reconnectTimer := some id }) fun _ _ _ => rfl).congr fun _ => rfl

theorem releaseFd (fd : Int) : Arms k c (releaseFd fd) w := by
  refine .ite (fun _ => Iff.rfl) (fun _ => ?_) fun _ => .blind fun _ => rfl
  exact ((delFd fd).comp (delFdWrite fd)).comp (closeFd fd)

theorem teardown (i : Nat) : Arms k c (teardownLinkConnection c i) w := by
  -- the record is the one from before the connection is released
  let lk := w.links i
  have torn : ∀ v, Arms k c (fun v => v.setLink i lk.torn) v := fun v => .blind fun _ => rfl
  have told : ∀ v, Arms k c (fun v => if lk.state = .up then v.emit (.call (.linkDown i)) else v) v :=
    fun v => .ite (fun _ => Iff.rfl) (fun _ => .blind fun _ => rfl) fun _ => .blind fun _ => rfl
  have again : ∀ v : World, Arms k c (fun v =>
      if (v.cfg.linkAt i).ccRole = .outbound ∧ lk.active = true then scheduleReconnect c i v else v) v :=
    fun v => .ite (fun _ => Iff.rfl) (fun _ => reconnectLater i) fun _ => .blind fun _ => rfl
  exact (((((timerCancel lk.keepaliveTimer).comp (releaseFd lk.fd)).comp (torn _)).comp (told _)).comp (again _)).congr
    fun _ => rfl

/-- The next keepalive. -/
theorem beat (beats : w.cfg.Beats k) (i : Nat) (keep : Nat → CcLink → CcLink) :
    Arms k c (fun w => (w.timerAfter c w.cfg.ccKeepaliveInterval (.keepalive i)).2.setLink i
      (keep w.loop.nextTimer (w.links i))) w := by
  obtain ⟨interval, positive⟩ := beats
  exact (timerAfter w.cfg.ccKeepaliveInterval (.keepalive i) interval.symm (interval ▸ positive)
    (fun id w => w.setLink i (keep id (w.links i))) fun _ _ _ => rfl).congr fun _ => rfl

theorem armKeepalive (beats : w.cfg.Beats k) (i : Nat) : Arms k c (armKeepalive c i) w :=
  (beat beats i fun id lk => { lk with lastKeepaliveRecv := c.now, keepaliveTimer := some id }).congr fun _ => rfl

theorem keepalive (beats : w.cfg.Beats k) (i : Nat) : Arms k c (keepaliveCb c i) w := by
  have cleared : Arms k c (fun w => w.setLink i { w.links i with keepaliveTimer := none }) w := .blind fun _ => rfl
  have sent : ∀ v : World, Arms k c (fun v => udpSendToLink v i (.keepalive i) (buildKeepalive (v.links i).syncSource)) v :=
    fun v => .blind fun _ => rfl
  have judged : ∀ v : World, v.cfg.Beats k → Arms k c (fun v =>
      if c.now - (v.links i).lastKeepaliveRecv > v.cfg.ccLinkTimeout then teardownLinkConnection c i v
      else (v.timerAfter c v.cfg.ccKeepaliveInterval (.keepalive i)).2.setLink i
        { v.links i with keepaliveTimer := some v.loop.nextTimer }) v :=
    fun v here => .ite (fun _ => Iff.rfl) (fun _ => teardown i) fun _ => beat here i fun id lk => { lk with keepaliveTimer := some id }
  have whole : ∀ v : World, v.cfg.Beats k → Arms k c (fun v => if (v.links i).state ≠ .up then v else _) v :=
    fun v here => .ite (fun _ => Iff.rfl) (fun _ => .blind fun _ => rfl) fun _ => (sent v).comp (judged _ here)
  exact (cleared.comp (whole _ beats)).congr fun _ => rfl

theorem finishHandshake (beats : w.cfg.Beats k) (i : Nat) : Arms k c (finishOutboundHandshake c i) w := by
  -- the answer is read before it is cleared
  let lk := w.links i
  have cleared : Arms k c (fun w => w.setLink i { lk with hslines := [] }) w := .blind fun _ => rfl
  have up : ∀ v : World, Arms k c (fun v => v.setLink i { v.links i with state := .up }) v := fun v => .blind fun _ => rfl
  have told : ∀ v : World, Arms k c (fun v => v.emit (.call (.linkUp i))) v := fun v => .blind fun _ => rfl
  have judged : ∀ v : World, v.cfg.Beats k → Arms k c (fun v =>
      if lk.hslines.getD 0 [] ≠ ccccCodecAmbe ∨ CString.atoi (lk.hslines.getD 1 []) ≠ ccccMsPerFrame then
        teardownLinkConnection c i v
      else (Cc2obp.armKeepalive c i (v.setLink i { v.links i with state := .up })).emit (.call (.linkUp i))) v :=
    fun v here => .ite (fun _ => Iff.rfl) (fun _ => teardown i) fun _ =>
      ((up v).comp (armKeepalive (w := v.setLink i { v.links i with state := .up }) here i)).comp (told _)
  exact (cleared.comp (judged _ beats)).congr fun _ => rfl

theorem establishedLine (i : Nat) (line : List Byte) : Arms k c (dispatchEstablishedLine i line) w := by
  refine .blind fun timers => ?_
  unfold dispatchEstablishedLine
  cases signalOf i line <;> rfl

theorem linkLine (beats : w.cfg.Beats k) (i : Nat) (line : List Byte) : Arms k c (linkOnLine c i line) w := by
  cases state : (w.links i).state with
  | handshaking =>
    let kept (v : World) : World :=
      if (v.links i).hslines.length < ccccAnswerNfields then
        v.setLink i { v.links i with hslines := (v.links i).hslines ++ [line.take 255] }
      else v
    have line_ : Arms k c kept w := .ite (fun _ => Iff.rfl) (fun _ => .blind fun _ => rfl) fun _ => .blind fun _ => rfl
    have same : (kept w).cfg = w.cfg := by
      dsimp only [kept]
      split <;> rfl
    have finished : ∀ v : World, v.cfg.Beats k → Arms k c (fun v =>
        if (v.links i).hslines.length = ccccAnswerNfields then finishOutboundHandshake c i v else v) v :=
      fun v here => .ite (fun _ => Iff.rfl) (fun _ => finishHandshake here i) fun _ => .blind fun _ => rfl
    refine (line_.comp (finished (kept w) (same ▸ beats))).congr fun timers => ?_
    have here : ((World.timers.put w timers).links i).state = .handshaking := state
    simp only [linkOnLine, here, kept]
  | up =>
    refine (establishedLine i line).congr fun timers => ?_
    have here : ((World.timers.put w timers).links i).state = .up := state
    simp only [linkOnLine, here]
  | down =>
    refine .blind fun timers => ?_
    have here : ((World.timers.put w timers).links i).state = .down := state
    simp only [linkOnLine, here, state]
  | connecting =>
    refine .blind fun timers => ?_
    have here : ((World.timers.put w timers).links i).state = .connecting := state
    simp only [linkOnLine, here, state]

/-- A chunk whose lines do so, with a condition that they preserve. -/
theorem feedBytes (buf : Lines.Buffer World) (cb : List Byte → World → World) (inv : World → Prop)
    (got : ∀ w timers, buf.get (World.timers.put w timers) = buf.get w)
    (put : ∀ rx w timers, buf.put rx (World.timers.put w timers) = World.timers.put (buf.put rx w) timers)
    (stays : ∀ rx w, inv w → inv (buf.put rx w)) (lines : ∀ line w, inv w → inv (cb line w) ∧ Arms k c (cb line) w)
    (bytes : List Byte) (start : inv w) : Arms k c (Lines.feedBytes buf rxbufCap cb bytes) w := by
  refine .foldl (Lines.feedByte buf rxbufCap cb) inv (fun w b here => ?_) bytes w start
  have pushed : Arms k c (fun w => buf.put (Lines.push rxbufCap (buf.get w) b) w) w := .blind fun timers => by rw [got, put]
  have kept := stays (Lines.push rxbufCap (buf.get w) b) w here
  by_cases newline : b = 0x0A
  · obtain ⟨next, arms⟩ := lines (Lines.lineOf (buf.get (buf.put (Lines.push rxbufCap (buf.get w) b) w))) _ kept
    have emptied : ∀ v, Arms k c (buf.put []) v := fun v => .blind fun timers => put [] v timers
    refine ⟨?_, (((pushed.comp arms).comp (emptied _)).congr fun timers => ?_)⟩
    · simp only [Lines.feedByte, newline, if_true]
      rw [newline] at next
      exact stays [] _ next
    · simp only [Lines.feedByte, newline, if_true, got, put]
  · refine ⟨?_, pushed.congr fun timers => ?_⟩
    · simpa only [Lines.feedByte, newline, if_false] using kept
    · simp only [Lines.feedByte, newline, if_false]

theorem linkReadable (beats : w.cfg.Beats k) (i : Nat) (r : RecvResult) : Arms k c (onLinkTcpReadable c i r) w := by
  cases r with
  | data bytes =>
    refine feedBytes (linkBuffer i) (linkOnLine c i) (fun v => v.cfg.Beats k) (fun _ _ => rfl) (fun _ _ _ => rfl)
      (fun _ _ here => here) (fun line v here => ⟨?_, linkLine here i line⟩) bytes beats
    rw [linkOnLine_cfg]
    exact here
  | wouldBlock => exact .blind fun _ => rfl
  | closed => exact teardown i
  | error => exact teardown i

theorem connectWritable (i : Nat) (fd : Int) (connected : Bool) : Arms k c (onConnectWritable c i fd connected) w := by
  let lk := w.links i
  have dropped : Arms k c (fun w => w.onLoop (evDelFdWrite fd)) w := delFdWrite fd
  cases connected with
  | false =>
    have failed : ∀ v : World, Arms k c (fun v => (v.closeFd fd).setLink i { lk with fd := -1, state := .down }) v :=
      fun v => .blind fun _ => rfl
    have again : ∀ v : World, Arms k c (fun v => if lk.active = true then scheduleReconnect c i v else v) v :=
      fun v => .ite (fun _ => Iff.rfl) (fun _ => reconnectLater i) fun _ => .blind fun _ => rfl
    exact ((dropped.comp (failed _)).comp (again _)).congr fun _ => rfl
  | true =>
    -- the sync source is drawn without a look at the timers
    refine .blind fun timers => ?_
    have same : mintSyncSource ((World.timers.put w timers).onLoop (evDelFdWrite fd)) c.draws =
        mintSyncSource (w.onLoop (evDelFdWrite fd)) c.draws := rfl
    simp only [onConnectWritable, same]
    cases mintSyncSource (w.onLoop (evDelFdWrite fd)) c.draws <;> rfl

theorem dial (i : Nat) : Arms k c (ccccStartOutboundConnect c i) w := by
  let lk : CcLink := { w.links i with rxbuf := [], hslines := [], hasSyncSource := false }
  by_cases connects : c.connectOk i = true
  · refine .blind fun timers => ?_
    simp only [ccccStartOutboundConnect, connects, if_true]
    rfl
  · have failed : Arms k c (fun w => w.setLink i { lk with fd := -1 }) w := .blind fun _ => rfl
    have again : ∀ v : World, Arms k c (fun v => if lk.active = true then scheduleReconnect c i v else v) v :=
      fun v => .ite (fun _ => Iff.rfl) (fun _ => reconnectLater i) fun _ => .blind fun _ => rfl
    refine (failed.comp (again _)).congr fun timers => ?_
    simp only [ccccStartOutboundConnect, connects]
    rfl

theorem reconnect (i : Nat) : Arms k c (reconnectCb c i) w := by
  have cleared : Arms k c (fun w => w.setLink i { w.links i with reconnectTimer := none }) w := .blind fun _ => rfl
  have dialled : ∀ v : World, Arms k c (fun v => if (v.links i).active = true then ccccStartOutboundConnect c i v else v) v :=
    fun v => .ite (fun _ => Iff.rfl) (fun _ => dial i) fun _ => .blind fun _ => rfl
  exact (cleared.comp (dialled _)).congr fun _ => rfl

/-! ## Pending connections -/

theorem freePending (s : Nat) (alsoClose : Bool) : Arms k c (freePending s alsoClose) w := by
  let p := w.pending s
  have closed : ∀ v : World, Arms k c (fun v =>
      if alsoClose = true ∧ 0 ≤ p.fd then (v.onLoop (evDelFd p.fd)).closeFd p.fd else v) v :=
    fun v => .ite (fun _ => Iff.rfl) (fun _ => (delFd p.fd).comp (closeFd p.fd)) fun _ => .blind fun _ => rfl
  have freed : ∀ v : World, Arms k c (fun v => v.setPending s { p with timeoutTimer := none, inUse := false, fd := -1 }) v :=
    fun v => .blind fun _ => rfl
  exact (((timerCancel p.timeoutTimer).comp (closed _)).comp (freed _)).congr fun _ => rfl

theorem freePending_cfg (s : Nat) (alsoClose : Bool) (w : World) : (Cc2obp.freePending s alsoClose w).cfg = w.cfg := by
  simp only [Cc2obp.freePending]
  split <;> rfl

theorem pendingTimeout (s : Nat) : Arms k c (pendingTimeoutCb s) w := by
  have cleared : Arms k c (fun w => w.setPending s { w.pending s with timeoutTimer := none }) w := .blind fun _ => rfl
  exact (cleared.comp (freePending s true)).congr fun _ => rfl

theorem takeOver (beats : w.cfg.Beats k) (s i : Nat) : Arms k c (takeOver c s i) w := by
  let p := w.pending s
  have vacates : Arms k c (Wf.vacated c i) w :=
    .ite (fun _ => Iff.rfl) (fun _ => teardown i) fun _ => .blind fun _ => rfl
  have named : ∀ v : World, Arms k c (fun v => (v.setLink i { v.links i with
      fd := p.fd, rxbuf := [], hslines := [], syncSource := questionSsrc p.qlines, hasSyncSource := true,
      state := .up }).onLoop (evAddFd p.fd (.link i))) v := fun v => .blind fun _ => rfl
  have answered : ∀ v : World, Arms k c (fun v => tcpSend v i .answer
      (buildAnswer c.wallSec c.wallUsec v.cfg.ccSiteName v.cfg.ccOsVersion v.cfg.ccVersion)) v := fun v => .blind fun _ => rfl
  have beating : ∀ v : World, v.cfg.Beats k → Arms k c (Cc2obp.armKeepalive c i) v := fun v here => armKeepalive here i
  have kept : ∀ v : World, Arms k c (fun v => v.setPending s { p with fd := -1 }) v := fun v => .blind fun _ => rfl
  have told : ∀ v : World, Arms k c (fun v => v.emit (.call (.linkUp i))) v := fun v => .blind fun _ => rfl
  have beats' : (Wf.vacated c i w).cfg.Beats k := (Wf.vacated_cfg c w).symm ▸ beats
  exact ((((((vacates.comp (named _)).comp (answered _)).comp (beating _ beats')).comp (kept _)).comp
    (freePending s false)).comp (told _)).congr fun _ => rfl

theorem takeOver_cfg (s i : Nat) (w : World) : (Cc2obp.takeOver c s i w).cfg = w.cfg := by
  simp only [Cc2obp.takeOver, World.emit]
  rw [freePending_cfg]
  exact Wf.vacated_cfg c w

theorem questionComplete (beats : w.cfg.Beats k) (s : Nat) :
    (handleQuestionComplete c s w).cfg = w.cfg ∧ Arms k c (handleQuestionComplete c s) w := by
  constructor
  · simp only [handleQuestionComplete]
    split
    · exact freePending_cfg s true _
    · exact takeOver_cfg s _ _
  · have cancelled : Arms k c (fun w => w.onLoop (evTimerCancel (w.pending s).timeoutTimer)) w :=
      (timerCancel (w.pending s).timeoutTimer).congr fun _ => rfl
    have stopped : ∀ v : World, Arms k c (fun v => v.setPending s { v.pending s with timeoutTimer := none }) v :=
      fun v => .blind fun _ => rfl
    have judged : ∀ v : World, v.cfg.Beats k → Arms k c (fun v =>
        (acceptQuestion v (v.pending s)).elim (Cc2obp.freePending s true v) fun i => Cc2obp.takeOver c s i v) v := by
      intro v here
      cases accepts : acceptQuestion v (v.pending s) with
      | none =>
        refine (freePending s true).congr fun timers => ?_
        have same : acceptQuestion (World.timers.put v timers) ((World.timers.put v timers).pending s) = none := accepts
        rw [same, Option.elim_none]
      | some i =>
        refine (takeOver here s i).congr fun timers => ?_
        have same : acceptQuestion (World.timers.put v timers) ((World.timers.put v timers).pending s) = some i := accepts
        rw [same, Option.elim_some]
    refine ((cancelled.comp (stopped _)).comp (judged _ beats)).congr fun timers => ?_
    simp only [handleQuestionComplete]
    split
    next refused => rw [refused, Option.elim_none]
    next i accepts => rw [accepts, Option.elim_some]

theorem pendingLine (beats : w.cfg.Beats k) (s : Nat) (line : List Byte) :
    (pendingOnLine c s line w).cfg.Beats k ∧ Arms k c (pendingOnLine c s line) w := by
  let kept (v : World) : World :=
    if (v.pending s).qlines.length < ccccQuestionNfields then
      v.setPending s { v.pending s with qlines := (v.pending s).qlines ++ [line.take 255] }
    else v
  have same : (kept w).cfg = w.cfg := by
    dsimp only [kept]
    split <;> rfl
  have beats' : (kept w).cfg.Beats k := same ▸ beats
  obtain ⟨cfg, arms⟩ := questionComplete (c := c) beats' s
  constructor
  · show (if ((kept w).pending s).qlines.length = ccccQuestionNfields then
      handleQuestionComplete c s (kept w) else kept w).cfg.Beats k
    split
    · rwa [cfg]
    · exact beats'
  · have line_ : Arms k c kept w := .ite (fun _ => Iff.rfl) (fun _ => .blind fun _ => rfl) fun _ => .blind fun _ => rfl
    have completed : Arms k c (fun v =>
        if (v.pending s).qlines.length = ccccQuestionNfields then handleQuestionComplete c s v else v) (kept w) :=
      .ite (fun _ => Iff.rfl) (fun _ => arms) fun _ => .blind fun _ => rfl
    exact (line_.comp completed).congr fun _ => rfl

theorem pendingReadable (beats : w.cfg.Beats k) (s : Nat) (r : RecvResult) : Arms k c (onPendingReadable c s r) w := by
  cases r with
  | data bytes =>
    exact feedBytes (pendingBuffer s) (pendingOnLine c s) (fun v => v.cfg.Beats k) (fun _ _ => rfl) (fun _ _ _ => rfl)
      (fun _ _ here => here) (fun line v here => pendingLine here s line) bytes beats
  | wouldBlock => exact .blind fun _ => rfl
  | closed => exact freePending s true
  | error => exact freePending s true

theorem acceptOne (srcIp : List Byte) : Arms k c (fun w => acceptOne c w srcIp) w := by
  cases slot : freeSlot w with
  | none =>
    refine .blind fun timers => ?_
    have full : freeSlot (World.timers.put w timers).openFd.2 = none := slot
    have full' : freeSlot w.openFd.2 = none := slot
    simp only [Cc2obp.acceptOne, full, full']
    rfl
  | some s =>
    have positive : 0 < pendingTimeoutS := by decide +kernel
    have opened : Arms k c (fun w => w.openFd.2.onLoop (evAddFd w.openFd.1 (.pending s))) w := .blind fun _ => rfl
    have armed : ∀ v : World, Arms k c (fun v => (v.timerAfter c pendingTimeoutS (.pendingTimeout s)).2.setPending s
        { inUse := true, fd := w.openFd.1, srcIp, timeoutTimer := some (v.timerAfter c pendingTimeoutS (.pendingTimeout s)).1 }) v :=
      fun v => timerAfter pendingTimeoutS (.pendingTimeout s) rfl positive
        (fun id v => v.setPending s { inUse := true, fd := w.openFd.1, srcIp, timeoutTimer := some id }) fun _ _ _ => rfl
    refine (opened.comp (armed _)).congr fun timers => ?_
    have free : freeSlot (World.timers.put w timers).openFd.2 = some s := slot
    simp only [Cc2obp.acceptOne, free]
    rfl

theorem listenReadable (conns : List (List Byte)) : Arms k c (onListenReadable c conns) w :=
  .foldl (Cc2obp.acceptOne c) (fun _ => True) (fun _ srcIp _ => ⟨trivial, acceptOne srcIp⟩) conns w trivial

/-! ## Datagrams -/

theorem voiceReadable (datagram srcIp : List Byte) (srcPort : Int) : Arms k c (onVoiceReadable c datagram srcIp srcPort) w := by
  refine .blind fun timers => ?_
  have same : datagramLink (World.timers.put w timers) (datagram.take 256) srcIp = datagramLink w (datagram.take 256) srcIp := rfl
  simp only [onVoiceReadable, same]
  split
  · rfl
  · split
    · split <;> rfl
    · split
      · split <;> rfl
      · rfl

theorem trialReadable (datagram srcIp : List Byte) (srcPort : Int) : Arms k c (onTrialReadable datagram srcIp srcPort) w :=
  .ite (fun _ => Iff.rfl) (fun _ => .blind fun _ => rfl) fun _ => .blind fun _ => rfl

theorem obpReadable (peer : Nat) (datagram srcIp : List Byte) (srcPort : Int) :
    Arms k c (onObpReadable peer datagram srcIp srcPort) w := by
  refine .blind fun timers => ?_
  have same : (World.timers.put w timers).cfg = w.cfg := rfl
  simp only [onObpReadable, same]
  split <;> rfl

/-! ## Reconciles -/

theorem bindPeer (peer : Nat) : Arms k c (bindPeer c peer) w := by
  refine .blind fun timers => ?_
  simp only [Cc2obp.bindPeer]
  split <;> rfl

theorem unbindPeer (peer : Nat) : Arms k c (unbindPeer peer) w := by
  refine .blind fun timers => ?_
  have same : (World.timers.put w timers).obpFd = w.obpFd := rfl
  simp only [Cc2obp.unbindPeer, same]
  split <;> rfl

theorem peersReconcile : Arms k c (obpMuxReconcile c) w := by
  have turn : ∀ (w : World) (peer : Nat), Arms k c (fun w => reconcilePeer c w peer) w := fun w peer =>
    .ite (fun _ => Iff.rfl) (fun _ => bindPeer peer) fun _ =>
      .ite (fun _ => Iff.rfl) (fun _ => unbindPeer peer) fun _ => .blind fun _ => rfl
  exact (Component.Does.foldl (reconcilePeer c) (fun _ => True) (fun w peer _ => ⟨trivial, turn w peer⟩)
    (List.range w.cfg.nOpenbridge) w trivial).congr fun _ => rfl

/-- A connection that is torn down if there is one, by a record read before. -/
theorem retire (i : Nat) (held : Prop) [Decidable held] :
    Arms k c (fun v => if held then teardownLinkConnection c i v else v) w :=
  .ite (fun _ => Iff.rfl) (fun _ => teardown i) fun _ => .blind fun _ => rfl

theorem reconcileLink (i : Nat) : Arms k c (fun w => reconcileLink c w i) w := by
  let lk := w.links i
  let lcfg := w.cfg.linkAt i
  cases role : lcfg.ccRole with
  | outbound =>
    have dials : Arms k c (fun v => ccccStartOutboundConnect c i (v.setLink i { lk with active := true })) w := by
      have switched : Arms k c (fun v => v.setLink i { lk with active := true }) w := .blind fun _ => rfl
      exact switched.comp (dial i)
    have drops : Arms k c (fun v => if lk.state ≠ .down then
        teardownLinkConnection c i ((v.onLoop (evTimerCancel lk.reconnectTimer)).setLink i
          { lk with active := false, reconnectTimer := none })
        else (v.onLoop (evTimerCancel lk.reconnectTimer)).setLink i { lk with active := false, reconnectTimer := none }) w := by
      have switched : ∀ v : World, Arms k c (fun v => v.setLink i { lk with active := false, reconnectTimer := none }) v :=
        fun v => .blind fun _ => rfl
      exact ((timerCancel lk.reconnectTimer).comp (switched _)).comp (retire i (lk.state ≠ .down))
    have turn : Arms k c (fun v => if lcfg.enabled = true ∧ (!lk.active) = true then _
        else if (!lcfg.enabled) = true ∧ lk.active = true then _ else v) w :=
      .ite (fun _ => Iff.rfl) (fun _ => dials) fun _ =>
        .ite (fun _ => Iff.rfl) (fun _ => drops) fun _ => .blind fun _ => rfl
    refine turn.congr fun timers => ?_
    have same : ((World.timers.put w timers).cfg.linkAt i).ccRole = .outbound := role
    simp only [Cc2obp.reconcileLink, same]
    rfl
  | inbound =>
    have switched : Arms k c (fun v => v.setLink i { lk with active := lcfg.enabled }) w := .blind fun _ => rfl
    refine (switched.comp (retire i ((!lcfg.enabled) = true ∧ lk.state ≠ .down))).congr fun timers => ?_
    have same : ((World.timers.put w timers).cfg.linkAt i).ccRole = .inbound := role
    simp only [Cc2obp.reconcileLink, same]
    rfl

theorem linksReconcile : Arms k c (ccccMuxReconcile c) w :=
  (Component.Does.foldl (Cc2obp.reconcileLink c) (fun _ => True) (fun _ i _ => ⟨trivial, reconcileLink i⟩)
    (List.range w.cfg.nLink) w trivial).congr fun _ => rfl

/-! ## Starts -/

theorem peersStart : Arms k c (obpMuxStart c) w := by
  have turn : ∀ (v : World) (peer : Nat), Arms k c (fun v => if (v.cfg.openbridgeAt peer).enabled = true then
      Cc2obp.bindPeer c peer v else v) v :=
    fun v peer => .ite (fun _ => Iff.rfl) (fun _ => bindPeer peer) fun _ => .blind fun _ => rfl
  exact (Component.Does.foldl (fun v peer => if (v.cfg.openbridgeAt peer).enabled = true then Cc2obp.bindPeer c peer v else v)
    (fun _ => True) (fun v peer _ => ⟨trivial, turn v peer⟩) (List.range w.cfg.nOpenbridge) w trivial).congr fun _ => rfl

theorem linksStart : Arms k c (ccccMuxStart c) w := by
  have voice : Arms k c (fun v => { v.openFd.2 with voiceFd := v.openFd.1 }.onLoop (evAddFd v.openFd.1 .voice)) w := .blind fun _ => rfl
  have trial : ∀ v : World, Arms k c (fun v => { v.openFd.2 with trialFd := v.openFd.1 }.onLoop (evAddFd v.openFd.1 .trial)) v :=
    fun v => .blind fun _ => rfl
  have listen : ∀ v : World, Arms k c (fun v => { v.openFd.2 with listenFd := v.openFd.1 }.onLoop (evAddFd v.openFd.1 .listen)) v :=
    fun v => .blind fun _ => rfl
  have turn : ∀ (v : World) (i : Nat), Arms k c (fun v =>
      if (v.cfg.linkAt i).ccRole = .outbound ∧ (v.cfg.linkAt i).enabled = true then
        ccccStartOutboundConnect c i (v.setLink i { v.links i with active := (v.cfg.linkAt i).enabled })
      else v.setLink i { v.links i with active := (v.cfg.linkAt i).enabled }) v := by
    intro v i
    have switched : Arms k c (fun v => v.setLink i { v.links i with active := (v.cfg.linkAt i).enabled }) v := .blind fun _ => rfl
    exact .ite (fun _ => Iff.rfl) (fun _ => switched.comp (dial i)) fun _ => switched
  have turns : ∀ v : World, Arms k c (fun v => (List.range v.cfg.nLink).foldl (fun v i =>
      if (v.cfg.linkAt i).ccRole = .outbound ∧ (v.cfg.linkAt i).enabled = true then
        ccccStartOutboundConnect c i (v.setLink i { v.links i with active := (v.cfg.linkAt i).enabled })
      else v.setLink i { v.links i with active := (v.cfg.linkAt i).enabled }) v) v := fun v =>
    (Component.Does.foldl _ (fun _ => True) (fun v i _ => ⟨trivial, turn v i⟩) (List.range v.cfg.nLink) v trivial).congr
      fun _ => rfl
  exact (((voice.comp (trial _)).comp (listen _)).comp (turns _)).congr fun _ => rfl

theorem started : Arms k c (fun w => ccccMuxStart c (obpMuxStart c w)) w := peersStart.comp linksStart

end World.Arms

end Cc2obp
