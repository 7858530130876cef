import Cc2obp.Cccc.Effects
import Cc2obp.Lib.Trace

/-!
# What the CC-CC mux puts into the log

The mux calls the translator when a link comes UP or goes down, for the control
lines of UP links and for voice packets; beside that it sends Questions, Answers,
keepalives and echoes. The calls tell which links are UP at every moment.
-/
namespace Cc2obp

open World Lines

/-- Which links are UP. -/
def World.isUp (w : World) (i : Nat) : Bool := decide ((w.links i).state = .up)

/-- What the mux sends on its own account. -/
def Out.plain : Out → Prop
  | .call _ => False
  | .tcp _ _ .question _ => True
  | .tcp _ _ .answer _ => True
  | .tcp .. => False
  | .udp _ (.keepalive _) .. => True
  | .udp _ (.reflect _) .. => True
  | .udp _ .trial .. => True
  | .udp .. => False

/-- The call into the translator that is recorded. -/
def Out.trCall : Out → Option TrCall
  | .call made => some made
  | _ => none

theorem trCall_calls (calls : List TrCall) : (calls.map Out.call).filterMap Out.trCall = calls := by
  rw [List.filterMap_map]
  exact List.filterMap_some

inductive MuxMove : (Nat → Bool) → List Out → (Nat → Bool) → Prop
  | send {up} (o : Out) (plain : o.plain) : MuxMove up [o] up
  | linkUp {up} (i : Nat) (idle : up i = false) :
      MuxMove up [.call (.linkUp i)] (Function.update up i true)
  | linkDown {up} (i : Nat) (was : up i = true) :
      MuxMove up [.call (.linkDown i)] (Function.update up i false)
  | bon {up} (i : Nat) (radio peer : BitVec 32) (srcLid tgid : Int) (callType : Byte) (on : up i = true) :
      MuxMove up [.call (.bon i radio peer srcLid tgid callType)] up
  | boff {up} (i : Nat) (lost total : Int) (on : up i = true) : MuxMove up [.call (.boff i lost total)] up
  | voice {up} (i : Nat) (seq : BitVec 16) (timestamp : BitVec 32) (marker : Bool) (ambe21 : Bytes 21) :
      MuxMove up [.call (.voice i seq timestamp marker ambe21)] up

/-- One world comes from another by the mux's work. -/
structure Works (w w' : World) : Prop where
  cfg : w'.cfg = w.cfg
  obpFd : w'.obpFd = w.obpFd
  obpActive : w'.obpActive = w.obpActive
  log : ∃ os, w'.out = w.out ++ os ∧ Trace MuxMove w.isUp os w'.isUp

theorem isUp_setLink (w : World) (i : Nat) (lk : CcLink) :
    (w.setLink i lk).isUp = Function.update w.isUp i (decide (lk.state = .up)) := by
  funext j
  by_cases here : j = i
  · subst here
    simp [World.isUp, World.setLink]
  · simp [World.isUp, World.setLink, here]

/-- A record changes and its link stays UP or stays not UP. -/
theorem isUp_setLink_same {w : World} {i : Nat} {lk : CcLink}
    (same : lk.state = .up ↔ (w.links i).state = .up) : (w.setLink i lk).isUp = w.isUp := by
  rw [isUp_setLink]
  have agrees : decide (lk.state = .up) = w.isUp i := by simp [World.isUp, same]
  rw [agrees, Function.update_eq_self]

namespace Works

variable {w w' w'' : World}

theorem refl (w : World) : Works w w := ⟨rfl, rfl, rfl, [], by simp, .nil _⟩

theorem trans (first : Works w w') (second : Works w' w'') : Works w w'' := by
  obtain ⟨os, out, moves⟩ := first.log
  obtain ⟨os', out', moves'⟩ := second.log
  refine ⟨second.cfg.trans first.cfg, second.obpFd.trans first.obpFd,
    second.obpActive.trans first.obpActive, os ++ os', ?_, moves.trans moves'⟩
  rw [out', out, List.append_assoc]

/-- Nothing is logged and no link changes between UP and not UP. -/
theorem quiet (cfg : w'.cfg = w.cfg) (obpFd : w'.obpFd = w.obpFd) (obpActive : w'.obpActive = w.obpActive)
    (out : w'.out = w.out) (isUp : w'.isUp = w.isUp) : Works w w' :=
  ⟨cfg, obpFd, obpActive, [], by simp [out], by rw [isUp]; exact .nil _⟩

/-- One item is logged. -/
theorem logged {o : Out} (cfg : w'.cfg = w.cfg) (obpFd : w'.obpFd = w.obpFd)
    (obpActive : w'.obpActive = w.obpActive) (out : w'.out = w.out ++ [o])
    (move : MuxMove w.isUp [o] w'.isUp) : Works w w' :=
  ⟨cfg, obpFd, obpActive, [o], out, .single move⟩

theorem onLoop (w : World) (f : EvLoop FdCb TimerCb → EvLoop FdCb TimerCb) : Works w (w.onLoop f) :=
  quiet rfl rfl rfl rfl rfl

theorem setPending (w : World) (s : Nat) (p : PendingConn) : Works w (w.setPending s p) :=
  quiet rfl rfl rfl rfl rfl

theorem closeFd (w : World) (fd : Int) : Works w (w.closeFd fd) := quiet rfl rfl rfl rfl rfl

theorem setLink {i : Nat} {lk : CcLink} (same : lk.state = .up ↔ (w.links i).state = .up) :
    Works w (w.setLink i lk) :=
  quiet rfl rfl rfl rfl (isUp_setLink_same same)

theorem send {o : Out} (w : World) (plain : o.plain) : Works w (w.emit o) :=
  logged rfl rfl rfl rfl (.send o plain)

variable (c : Ctx) (i : Nat)

/-! ## Outbound links -/

theorem scheduleReconnect (w : World) : Works w (scheduleReconnect c i w) := by
  unfold Cc2obp.scheduleReconnect timerAfter
  exact (onLoop w _).trans (setLink Iff.rfl)

/-- A teardown takes an UP link down, with a call, and leaves another link as it is. -/
theorem teardown (w : World) : Works w (teardownLinkConnection c i w) := by
  rw [teardown_eq]
  have up' : ∀ lk : CcLink, lk.state = .down →
      ({ w.setLink i lk with } : World).isUp = Function.update w.isUp i false := by
    intro lk down
    rw [isUp_setLink]
    simp [down]
  by_cases up : (w.links i).state = .up
  · refine logged rfl rfl rfl (by simp [up]; rfl) ?_
    have record := up' { (w.links i).torn with
      reconnectTimer := if retries w i then some w.loop.nextTimer else (w.links i).reconnectTimer } rfl
    have move : MuxMove w.isUp [.call (.linkDown i)] (Function.update w.isUp i false) :=
      .linkDown i (by simp [World.isUp, up])
    rw [← record] at move
    exact move
  · refine quiet rfl rfl rfl (by simp [up]) ?_
    have record := up' { (w.links i).torn with
      reconnectTimer := if retries w i then some w.loop.nextTimer else (w.links i).reconnectTimer } rfl
    have idle : w.isUp i = false := by simp [World.isUp, up]
    rw [← idle, Function.update_eq_self] at record
    exact record

theorem startOutboundConnect (notUp : (w.links i).state ≠ .up) : Works w (ccccStartOutboundConnect c i w) := by
  simp only [ccccStartOutboundConnect]
  split
  · refine Works.trans ?_ (onLoop _ _)
    refine quiet rfl rfl rfl rfl ?_
    exact isUp_setLink_same (by simp [World.openFd, notUp])
  · have failed : Works w (w.setLink i { w.links i with rxbuf := [], hslines := [], hasSyncSource := false, fd := -1 }) :=
      setLink Iff.rfl
    split
    · exact failed.trans (scheduleReconnect c i _)
    · exact failed

theorem reconnectCb (notUp : (w.links i).state ≠ .up) : Works w (reconnectCb c i w) := by
  unfold Cc2obp.reconnectCb
  have idle : Works w (w.setLink i { w.links i with reconnectTimer := none }) := setLink Iff.rfl
  dsimp only
  split
  · exact idle.trans (startOutboundConnect c i (by simpa [World.setLink] using notUp))
  · exact idle

theorem connectWritable (fd : Int) (connected : Bool) (notUp : (w.links i).state ≠ .up) :
    Works w (onConnectWritable c i fd connected w) := by
  have dropped : Works w (w.onLoop (evDelFdWrite fd)) := onLoop w _
  simp only [onConnectWritable]
  split
  · have failed : Works w (((w.onLoop (evDelFdWrite fd)).closeFd fd).setLink i
        { w.links i with fd := -1, state := .down }) :=
      (dropped.trans (closeFd _ fd)).trans (setLink (by simpa [World.onLoop, World.closeFd] using notUp))
    split
    · exact failed.trans (scheduleReconnect c i _)
    · exact failed
  · split
    · exact refl w
    next s _ =>
      have named : Works w ((w.onLoop (evDelFdWrite fd)).setLink i
          { w.links i with state := .handshaking, syncSource := s, hasSyncSource := true }) :=
        dropped.trans (setLink (by simpa [World.onLoop] using notUp))
      exact (named.trans (onLoop _ _)).trans (send _ trivial)

/-- The handshake ends with the link UP or torn down. -/
theorem finishOutboundHandshake (notUp : (w.links i).state ≠ .up) : Works w (finishOutboundHandshake c i w) := by
  simp only [Cc2obp.finishOutboundHandshake]
  split
  · have cleared : Works w (w.setLink i { w.links i with hslines := [] }) := setLink Iff.rfl
    exact cleared.trans (teardown c i _)
  · refine logged rfl rfl rfl rfl ?_
    have idle : w.isUp i = false := by simp [World.isUp, notUp]
    convert MuxMove.linkUp i idle using 1
    funext j
    by_cases here : j = i
    · subst here
      simp [World.isUp, World.emit, armKeepalive, timerAfter, World.onLoop, World.setLink]
    · simp [World.isUp, World.emit, armKeepalive, timerAfter, World.onLoop, World.setLink, here]

theorem linkOnLine (line : List Byte) : Works w (linkOnLine c i line w) := by
  simp only [Cc2obp.linkOnLine]
  split
  next state =>
    generalize gathered : (if (w.links i).hslines.length < ccccAnswerNfields then
        w.setLink i { w.links i with hslines := (w.links i).hslines ++ [line.take 255] } else w) = v
    have kept : Works w v ∧ (v.links i).state ≠ .up := by
      rw [← gathered]
      split
      · exact ⟨setLink Iff.rfl, by simp [World.setLink, state]⟩
      · exact ⟨refl w, by simp [state]⟩
    split
    · exact kept.1.trans (finishOutboundHandshake c i kept.2)
    · exact kept.1
  next state =>
    have on : w.isUp i = true := by simp [World.isUp, state]
    unfold dispatchEstablishedLine
    split
    next call signal =>
      refine logged rfl rfl rfl rfl ?_
      unfold signalOf at signal
      split at signal
      · obtain ⟨f, -, rfl⟩ := Option.map_eq_some_iff.mp signal
        exact .bon i _ _ _ _ _ on
      · split at signal
        · obtain ⟨f, -, rfl⟩ := Option.map_eq_some_iff.mp signal
          exact .boff i _ _ on
        · cases signal
    · exact refl w
  · exact refl w

theorem linkReadable (r : RecvResult) (w : World) : Works w (onLinkTcpReadable c i r w) := by
  cases r with
  | data bytes =>
    refine feedBytes_invariant (linkBuffer i) rxbufCap _ (Works w) (fun v b before => ?_) bytes w (refl w)
    have pushed : Works w ((linkBuffer i).put (push rxbufCap ((linkBuffer i).get v) b) v) :=
      before.trans (setLink Iff.rfl)
    simp only [feedByte]
    split
    · exact (pushed.trans (linkOnLine c i _)).trans (setLink Iff.rfl)
    · exact pushed
  | wouldBlock => exact refl w
  | closed => exact teardown c i w
  | error => exact teardown c i w

theorem keepaliveCb (w : World) : Works w (keepaliveCb c i w) := by
  have idle : Works w (w.setLink i { w.links i with keepaliveTimer := none }) := setLink Iff.rfl
  simp only [Cc2obp.keepaliveCb]
  split
  · exact idle
  · have sent := idle.trans (send _ (o := keepaliveOut i (w.setLink i { w.links i with keepaliveTimer := none }))
      trivial)
    split
    · exact sent.trans (teardown c i _)
    · exact (sent.trans (onLoop _ _)).trans (setLink Iff.rfl)

/-! ## Inbound connections -/

variable (s : Nat)

theorem freePending (alsoClose : Bool) (w : World) : Works w (freePending s alsoClose w) := by
  have cancelled : Works w (w.onLoop (evTimerCancel (w.pending s).timeoutTimer)) := onLoop w _
  simp only [Cc2obp.freePending]
  split
  · exact ((cancelled.trans (onLoop _ _)).trans (closeFd _ _)).trans (setPending _ _ _)
  · exact cancelled.trans (setPending _ _ _)

theorem pendingTimeoutCb (w : World) : Works w (pendingTimeoutCb s w) :=
  (setPending w _ _).trans (freePending s true _)

/-- The link that is taken over goes down if it was not, is answered, and comes UP. -/
theorem takeOver (w : World) : Works w (takeOver c s i w) := by
  simp only [Cc2obp.takeOver]
  generalize emptied : (if (w.links i).state ≠ .down then teardownLinkConnection c i w else w) = v
  have vacated : Works w v ∧ (v.links i).state = .down := by
    rw [← emptied]
    split
    · exact ⟨teardown c i w, teardown_state c i w⟩
    next down => exact ⟨refl w, by simpa using down⟩
  obtain ⟨kept, down⟩ := vacated
  refine kept.trans ?_
  let answered := v.emit (.tcp i (w.pending s).fd .answer
    (buildAnswer c.wallSec c.wallUsec v.cfg.ccSiteName v.cfg.ccOsVersion v.cfg.ccVersion))
  have sent : Works v answered := send v trivial
  refine sent.trans (logged ?_ ?_ ?_ ?_ (o := .call (.linkUp i)) ?_)
  · simp [answered, Cc2obp.freePending, World.emit, World.onLoop, World.setPending, armKeepalive, timerAfter, tcpSend,
      World.setLink]
  · simp [answered, Cc2obp.freePending, World.emit, World.onLoop, World.setPending, armKeepalive, timerAfter, tcpSend,
      World.setLink]
  · simp [answered, Cc2obp.freePending, World.emit, World.onLoop, World.setPending, armKeepalive, timerAfter, tcpSend,
      World.setLink]
  · simp [answered, Cc2obp.freePending, World.emit, World.onLoop, World.setPending, armKeepalive, timerAfter, tcpSend,
      World.setLink]
  · have idle : answered.isUp i = false := by simp [answered, World.isUp, World.emit, down]
    have up := MuxMove.linkUp i idle
    convert up using 1
    funext j
    by_cases here : j = i
    · subst here
      simp [World.isUp, Cc2obp.freePending, World.emit, World.onLoop, World.setPending, armKeepalive, timerAfter,
        tcpSend, World.setLink]
    · simp [answered, World.isUp, Cc2obp.freePending, World.emit, World.onLoop, World.setPending, armKeepalive,
        timerAfter, tcpSend, World.setLink, here]

theorem handleQuestionComplete (w : World) : Works w (handleQuestionComplete c s w) := by
  have stopped : Works w ((w.onLoop (evTimerCancel (w.pending s).timeoutTimer)).setPending s
      { w.pending s with timeoutTimer := none }) := (onLoop w _).trans (setPending _ _ _)
  simp only [Cc2obp.handleQuestionComplete]
  split
  · exact stopped.trans (freePending s true _)
  next matched _ => exact stopped.trans (takeOver c matched s _)

theorem pendingOnLine (line : List Byte) : Works w (pendingOnLine c s line w) := by
  simp only [Cc2obp.pendingOnLine]
  generalize gathered : (if (w.pending s).qlines.length < ccccQuestionNfields then
      w.setPending s { w.pending s with qlines := (w.pending s).qlines ++ [line.take 255] } else w) = v
  have kept : Works w v := by
    rw [← gathered]
    split
    · exact setPending w _ _
    · exact refl w
  split
  · exact kept.trans (handleQuestionComplete c s _)
  · exact kept

theorem pendingReadable (r : RecvResult) (w : World) : Works w (onPendingReadable c s r w) := by
  cases r with
  | data bytes =>
    refine feedBytes_invariant (pendingBuffer s) rxbufCap _ (Works w) (fun v b before => ?_) bytes w (refl w)
    have pushed : Works w ((pendingBuffer s).put (push rxbufCap ((pendingBuffer s).get v) b) v) :=
      before.trans (setPending _ _ _)
    simp only [feedByte]
    split
    · exact (pushed.trans (pendingOnLine c s _)).trans (setPending _ _ _)
    · exact pushed
  | wouldBlock => exact refl w
  | closed => exact freePending s true w
  | error => exact freePending s true w

theorem listenReadable (conns : List (List Byte)) (w : World) : Works w (onListenReadable c conns w) := by
  unfold onListenReadable
  induction conns generalizing w with
  | nil => exact refl w
  | cons srcIp rest ih =>
    have accepted : Works w (acceptOne c w srcIp) := by
      simp only [acceptOne]
      split <;> exact quiet rfl rfl rfl rfl rfl
    exact accepted.trans (ih _)

/-! ## Shared sockets -/

theorem voiceReadable (datagram srcIp : List Byte) (srcPort : Int) (w : World) :
    Works w (onVoiceReadable c datagram srcIp srcPort w) := by
  simp only [onVoiceReadable]
  split
  · exact refl w
  split
  · split
    · exact refl w
    next idx _ =>
      have heard : Works w (w.setLink idx { w.links idx with lastKeepaliveRecv := c.now }) := setLink Iff.rfl
      exact heard.trans (send _ trivial)
  · split
    · split
      · exact refl w
      next idx _ => exact logged rfl rfl rfl rfl (.voice idx _ _ _ _)
    · exact refl w

theorem trialReadable (datagram srcIp : List Byte) (srcPort : Int) (w : World) :
    Works w (onTrialReadable datagram srcIp srcPort w) := by
  simp only [onTrialReadable]
  split
  · exact refl w
  · exact send w trivial

/-! ## Reload -/

/-- An outbound link that is dialled is not UP. -/
theorem reconcileLink (trying : (w.cfg.linkAt i).ccRole = .outbound → (w.links i).active = false →
    (w.links i).state ≠ .up) : Works w (reconcileLink c w i) := by
  simp only [Cc2obp.reconcileLink]
  split
  next role =>
    split
    next dials =>
      have notUp := trying role (by simpa using dials.2)
      have active : Works w (w.setLink i { w.links i with active := true }) := setLink Iff.rfl
      exact active.trans (startOutboundConnect c i (by simpa [World.setLink] using notUp))
    · split
      · have off : Works w ((w.onLoop (evTimerCancel (w.links i).reconnectTimer)).setLink i
            { w.links i with active := false, reconnectTimer := none }) :=
          (onLoop w _).trans (setLink Iff.rfl)
        split
        · exact off.trans (teardown c i _)
        · exact off
      · exact refl w
  next role =>
    have switched : Works w (w.setLink i { w.links i with active := (w.cfg.linkAt i).enabled }) :=
      setLink Iff.rfl
    split
    · exact switched.trans (teardown c i _)
    · exact switched

end Works

end Cc2obp
