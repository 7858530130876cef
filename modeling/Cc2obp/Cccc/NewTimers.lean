import Cc2obp.Cccc.Effects
import Cc2obp.Openbridge.ObpLink
import Cc2obp.Lib.Run

/-!
# New timers

A callback leaves the timers it finds and gives new ones new numbers. It arms a keepalive
timer for a link only with the report that the link is UP. The one callback that does
otherwise is that timer's own, which arms the next if the link has been heard of.
-/
namespace Cc2obp

open World Lines

/-- A timer in the second world is one of the first, or it is new; its link has been reported UP if it is a keepalive's. -/
def NewTimers (w w' : World) : Prop :=
  ∃ os, w'.out = w.out ++ os ∧ w.loop.nextTimer ≤ w'.loop.nextTimer ∧ ∀ t ∈ w'.loop.timers, t.active = true →
    t ∈ w.loop.timers ∨ w.loop.nextTimer ≤ t.id ∧ ∀ i, t.cb = .keepalive i → .call (.linkUp i) ∈ os

namespace NewTimers

variable {c : Ctx} {w w' w'' : World}

theorem trans (first : NewTimers w w') (second : NewTimers w' w'') : NewTimers w w'' := by
  obtain ⟨os, out, more, kept⟩ := first
  obtain ⟨os', out', more', kept'⟩ := second
  refine ⟨os ++ os', by rw [out', out, List.append_assoc], more.trans more', fun t member active => ?_⟩
  rcases kept' t member active with old | ⟨fresh, up⟩
  · rcases kept t old active with older | ⟨fresh, up⟩
    · exact .inl older
    · exact .inr ⟨fresh, fun i beat => List.mem_append_left os' (up i beat)⟩
  · exact .inr ⟨more.trans fresh, fun i beat => List.mem_append_right os (up i beat)⟩

/-- What leaves the timers alone. -/
theorem quiet {l : List Out} (out : w'.out = w.out ++ l) (timers : w'.loop.timers = w.loop.timers)
    (next : w'.loop.nextTimer = w.loop.nextTimer) : NewTimers w w' :=
  ⟨l, out, next.ge, fun _ member _ => .inl (timers ▸ member)⟩

theorem refl (w : World) : NewTimers w w := quiet (l := []) (by simp) rfl rfl

theorem setLink (w : World) (i : Nat) (lk : CcLink) : NewTimers w (w.setLink i lk) :=
  quiet (l := []) (by simp [World.setLink]) rfl rfl

theorem setPending (w : World) (s : Nat) (p : PendingConn) : NewTimers w (w.setPending s p) :=
  quiet (l := []) (by simp [World.setPending]) rfl rfl

theorem closeFd (w : World) (fd : Int) : NewTimers w (w.closeFd fd) := quiet (l := []) (by simp [World.closeFd]) rfl rfl

theorem openFd (w : World) : NewTimers w w.openFd.2 := quiet (l := []) (by simp [World.openFd]) rfl rfl

theorem emit (w : World) (o : Out) : NewTimers w (w.emit o) := quiet rfl rfl rfl

/-- A change of the tables. -/
theorem tables (w : World) {f : EvLoop FdCb TimerCb → EvLoop FdCb TimerCb} (timers : (f w.loop).timers = w.loop.timers)
    (next : (f w.loop).nextTimer = w.loop.nextTimer) : NewTimers w (w.onLoop f) :=
  quiet (l := []) (by simp [World.onLoop]) timers next

/-- A cancelled timer is active no more. -/
theorem cancel (w : World) (handle : Option Nat) : NewTimers w (w.onLoop (evTimerCancel handle)) := by
  refine ⟨[], by simp [World.onLoop], by simp [World.onLoop], fun t member active => .inl ?_⟩
  cases handle with
  | none => exact member
  | some id =>
    obtain ⟨t', old, rfl⟩ := List.mem_map.mp member
    unfold evDeactivate at active ⊢
    split at active
    · cases active
    next other => rwa [if_neg other]

/-- A timer of another kind. -/
theorem timerAfter (w : World) (delay : Rat) {cb : TimerCb} (other : ∀ i, cb ≠ .keepalive i) :
    NewTimers w (w.timerAfter c delay cb).2 := by
  refine ⟨[], by simp [World.timerAfter, World.onLoop], Nat.le_succ _, fun t member active => ?_⟩
  rcases List.mem_cons.mp member with rfl | old
  · exact .inr ⟨le_refl _, fun i beat => absurd beat (other i)⟩
  · exact .inl old

/-- A link is watched from now on, and reported UP at the end. -/
theorem opened {i : Nat} (rest : NewTimers (armKeepalive c i w) w') : NewTimers w (w'.emit (.call (.linkUp i))) := by
  obtain ⟨os, out, more, kept⟩ := rest
  have before : (armKeepalive c i w).out = w.out := rfl
  have next : (armKeepalive c i w).loop.nextTimer = w.loop.nextTimer + 1 := rfl
  refine ⟨os ++ [.call (.linkUp i)], by simp [World.emit, out, before], (Nat.le_succ _).trans more, fun t member active => ?_⟩
  rcases kept t member active with old | ⟨fresh, up⟩
  · rcases List.mem_cons.mp old with rfl | older
    · refine .inr ⟨le_refl _, fun j beat => ?_⟩
      obtain rfl := TimerCb.keepalive.inj beat
      simp
    · exact .inl older
  · exact .inr ⟨(Nat.le_succ _).trans fresh, fun j beat => List.mem_append_left _ (up j beat)⟩

/-! ## Outbound links -/

section Links
variable (c) (i : Nat)

theorem scheduleReconnect (w : World) : NewTimers w (scheduleReconnect c i w) :=
  (timerAfter w reconnectDelayS (by simp)).trans (setLink _ _ _)

theorem releaseFd (fd : Int) (w : World) : NewTimers w (releaseFd fd w) := by
  unfold Cc2obp.releaseFd
  split
  · exact ((tables w rfl rfl).trans (tables _ rfl rfl)).trans (closeFd _ fd)
  · exact refl w

theorem teardown (w : World) : NewTimers w (teardownLinkConnection c i w) := by
  unfold teardownLinkConnection
  have torn := ((cancel w (w.links i).keepaliveTimer).trans (releaseFd (w.links i).fd _)).trans (setLink _ i (w.links i).torn)
  dsimp only
  generalize World.setLink _ i (w.links i).torn = v at torn
  -- the report that it is down, and the next attempt
  have told : NewTimers w (if (w.links i).state = .up then v.emit (.call (.linkDown i)) else v) := by
    split
    · exact torn.trans (emit v _)
    · exact torn
  generalize (if (w.links i).state = .up then v.emit (.call (.linkDown i)) else v) = u at told
  split
  · exact told.trans (scheduleReconnect c i u)
  · exact told

theorem startOutboundConnect (w : World) : NewTimers w (ccccStartOutboundConnect c i w) := by
  simp only [ccccStartOutboundConnect]
  split
  · exact ((openFd w).trans (setLink _ i _)).trans (tables _ rfl rfl)
  · split
    · exact (setLink w i _).trans (scheduleReconnect c i _)
    · exact setLink w i _

theorem reconnectCb (w : World) : NewTimers w (reconnectCb c i w) := by
  unfold Cc2obp.reconnectCb
  dsimp only
  split
  · exact (setLink w i _).trans (startOutboundConnect c i _)
  · exact setLink w i _

theorem connectWritable (fd : Int) (connected : Bool) (w : World) : NewTimers w (onConnectWritable c i fd connected w) := by
  simp only [onConnectWritable]
  have dropped : NewTimers w (w.onLoop (evDelFdWrite fd)) := tables w rfl rfl
  split
  · have failed := (dropped.trans (closeFd _ fd)).trans (setLink _ i { w.links i with fd := -1, state := .down })
    split
    · exact failed.trans (scheduleReconnect c i _)
    · exact failed
  · split
    · exact refl w
    · exact ((dropped.trans (setLink _ i _)).trans (tables _ rfl rfl)).trans (emit _ _)

theorem finishOutboundHandshake (w : World) : NewTimers w (finishOutboundHandshake c i w) := by
  simp only [Cc2obp.finishOutboundHandshake]
  split
  · exact (setLink w i _).trans (teardown c i _)
  · exact ((setLink w i _).trans (setLink _ i _)).trans (opened (refl _))

theorem linkOnLine (line : List Byte) (w : World) : NewTimers w (linkOnLine c i line w) := by
  simp only [Cc2obp.linkOnLine]
  split
  · generalize gathered : (if (w.links i).hslines.length < ccccAnswerNfields then
        w.setLink i { w.links i with hslines := (w.links i).hslines ++ [line.take 255] } else w) = v
    have kept : NewTimers w v := by
      rw [← gathered]
      split
      · exact setLink w i _
      · exact refl w
    split
    · exact kept.trans (finishOutboundHandshake c i v)
    · exact kept
  · unfold dispatchEstablishedLine
    split
    · exact emit w _
    · exact refl w
  · exact refl w

theorem linkReadable (r : RecvResult) (w : World) : NewTimers w (onLinkTcpReadable c i r w) := by
  cases r with
  | data bytes =>
    refine feedBytes_invariant (linkBuffer i) rxbufCap _ (NewTimers w) (fun v b before => ?_) bytes w (refl w)
    have pushed : NewTimers w ((linkBuffer i).put (push rxbufCap ((linkBuffer i).get v) b) v) := before.trans (setLink v i _)
    simp only [feedByte]
    split
    · exact (pushed.trans (linkOnLine c i _ _)).trans (setLink _ i _)
    · exact pushed
  | wouldBlock => exact refl w
  | closed => exact teardown c i w
  | error => exact teardown c i w

end Links

/-! ## Inbound connections -/

section Slots
variable (c) (s : Nat)

theorem freePending (alsoClose : Bool) (w : World) : NewTimers w (freePending s alsoClose w) := by
  have cancelled := cancel w (w.pending s).timeoutTimer
  simp only [Cc2obp.freePending]
  split
  · exact ((cancelled.trans (tables _ rfl rfl)).trans (closeFd _ _)).trans (setPending _ s _)
  · exact cancelled.trans (setPending _ s _)

theorem takeOver (i : Nat) (w : World) : NewTimers w (takeOver c s i w) := by
  simp only [Cc2obp.takeOver]
  generalize emptied : (if (w.links i).state ≠ .down then teardownLinkConnection c i w else w) = v
  have vacated : NewTimers w v := by
    rw [← emptied]
    split
    · exact teardown c i w
    · exact refl w
  generalize { v.links i with
    fd := (w.pending s).fd, rxbuf := [], hslines := [], syncSource := questionSsrc (w.pending s).qlines,
    hasSyncSource := true, state := .up } = lk
  have registered : ∀ fd, NewTimers w ((v.setLink i lk).onLoop (evAddFd fd (.link i))) := fun fd =>
    (vacated.trans (setLink v i lk)).trans (tables _ rfl rfl)
  have answered : ∀ fd bytes, NewTimers w (tcpSend ((v.setLink i lk).onLoop (evAddFd fd (.link i))) i .answer bytes) :=
    fun fd bytes => (registered fd).trans (emit _ _)
  exact (answered _ _).trans (opened ((setPending _ s _).trans (freePending s false _)))

theorem handleQuestionComplete (w : World) : NewTimers w (handleQuestionComplete c s w) := by
  have stopped : NewTimers w ((w.onLoop (evTimerCancel (w.pending s).timeoutTimer)).setPending s
      { w.pending s with timeoutTimer := none }) := (cancel w _).trans (setPending _ s _)
  simp only [Cc2obp.handleQuestionComplete]
  split
  · exact stopped.trans (freePending s true _)
  next matched _ => exact stopped.trans (takeOver c s matched _)

theorem pendingOnLine (line : List Byte) (w : World) : NewTimers w (pendingOnLine c s line w) := by
  simp only [Cc2obp.pendingOnLine]
  generalize gathered : (if (w.pending s).qlines.length < ccccQuestionNfields then
      w.setPending s { w.pending s with qlines := (w.pending s).qlines ++ [line.take 255] } else w) = v
  have kept : NewTimers w v := by
    rw [← gathered]
    split
    · exact setPending w s _
    · exact refl w
  split
  · exact kept.trans (handleQuestionComplete c s v)
  · exact kept

theorem pendingReadable (r : RecvResult) (w : World) : NewTimers w (onPendingReadable c s r w) := by
  cases r with
  | data bytes =>
    refine feedBytes_invariant (pendingBuffer s) rxbufCap _ (NewTimers w) (fun v b before => ?_) bytes w (refl w)
    have pushed : NewTimers w ((pendingBuffer s).put (push rxbufCap ((pendingBuffer s).get v) b) v) := before.trans (setPending v s _)
    simp only [feedByte]
    split
    · exact (pushed.trans (pendingOnLine c s _ _)).trans (setPending _ s _)
    · exact pushed
  | wouldBlock => exact refl w
  | closed => exact freePending s true w
  | error => exact freePending s true w

theorem acceptOne (w : World) (srcIp : List Byte) : NewTimers w (acceptOne c w srcIp) := by
  simp only [Cc2obp.acceptOne]
  split
  · exact (openFd w).trans (closeFd _ _)
  next slot _ =>
    exact (((openFd w).trans (tables _ (f := evAddFd w.openFd.1 (.pending slot)) rfl rfl)).trans
      (timerAfter _ pendingTimeoutS (by simp))).trans (setPending _ slot _)

theorem listenReadable (conns : List (List Byte)) (w : World) : NewTimers w (onListenReadable c conns w) := by
  unfold onListenReadable
  induction conns generalizing w with
  | nil => exact refl w
  | cons srcIp rest ih => exact (acceptOne c w srcIp).trans (ih _)

theorem pendingTimeoutCb (w : World) : NewTimers w (pendingTimeoutCb s w) := (setPending w s _).trans (freePending s true _)

end Slots

/-! ## Datagrams -/

theorem voiceReadable (datagram srcIp : List Byte) (srcPort : Int) (w : World) :
    NewTimers w (onVoiceReadable c datagram srcIp srcPort w) := by
  simp only [onVoiceReadable]
  split
  · exact refl w
  · split
    · split
      · exact refl w
      · exact (setLink w _ _).trans (emit _ _)
    · split
      · split
        · exact refl w
        · exact emit w _
      · exact refl w

theorem trialReadable (datagram srcIp : List Byte) (srcPort : Int) (w : World) :
    NewTimers w (onTrialReadable datagram srcIp srcPort w) := by
  simp only [onTrialReadable]
  split
  · exact refl w
  · exact emit w _

theorem obpReadable (peer : Nat) (datagram srcIp : List Byte) (srcPort : Int) (w : World) :
    NewTimers w (onObpReadable peer datagram srcIp srcPort w) := by
  unfold onObpReadable
  split
  · exact emit w _
  · exact refl w

/-! ## Reload -/

variable (c)

theorem reconcileLink (w : World) (i : Nat) : NewTimers w (reconcileLink c w i) := by
  simp only [Cc2obp.reconcileLink]
  split
  · split
    · exact (setLink w i _).trans (startOutboundConnect c i _)
    · split
      · have off := (cancel w (w.links i).reconnectTimer).trans
          (setLink _ i { w.links i with active := false, reconnectTimer := none })
        split
        · exact off.trans (teardown c i _)
        · exact off
      · exact refl w
  · have switched := setLink w i { w.links i with active := (w.cfg.linkAt i).enabled }
    split
    · exact switched.trans (teardown c i _)
    · exact switched

theorem reconcile (w : World) : NewTimers w (ccccMuxReconcile c w) :=
  List.foldl_turns (Cc2obp.reconcileLink c) (fun _ v => NewTimers w v) (fun i _ v before => before.trans (reconcileLink c v i))
    _ _ (refl w)

end NewTimers

/-- The timer of a link that has been heard of may be renewed as well. -/
def Renewed (c : Ctx) (w w' : World) : Prop :=
  ∃ os, w'.out = w.out ++ os ∧ w.loop.nextTimer ≤ w'.loop.nextTimer ∧ ∀ t ∈ w'.loop.timers, t.active = true →
    t ∈ w.loop.timers ∨ w.loop.nextTimer ≤ t.id ∧ ∀ i, t.cb = .keepalive i → .call (.linkUp i) ∈ os ∨ ¬linkTimedOut c i w

theorem NewTimers.renewed {c : Ctx} {w w' : World} (new : NewTimers w w') : Renewed c w w' := by
  obtain ⟨os, out, more, kept⟩ := new
  exact ⟨os, out, more, fun t member active => (kept t member active).imp_right fun new => ⟨new.1, fun i beat => .inl (new.2 i beat)⟩⟩

theorem keepaliveCb_renewed (c : Ctx) (i : Nat) (w : World) : Renewed c w (keepaliveCb c i w) := by
  have idle : NewTimers w (w.setLink i { w.links i with keepaliveTimer := none }) := .setLink w i _
  by_cases up : (w.links i).state = .up
  · have sent : ∀ o, NewTimers w ((w.setLink i { w.links i with keepaliveTimer := none }).emit o) := fun o => idle.trans (.emit _ o)
    by_cases silent : linkTimedOut c i w
    · have torn := (sent (keepaliveOut i w)).trans (.teardown c i _)
      have late := silent
      unfold linkTimedOut at late
      have here : keepaliveCb c i w = teardownLinkConnection c i
          ((w.setLink i { w.links i with keepaliveTimer := none }).emit (keepaliveOut i w)) := by
        simp [keepaliveCb, World.setLink, up, udpSendToLink, World.emit, late, keepaliveOut]
      rw [here]
      exact torn.renewed
    · -- the one timer that is new is the link's own
      have recent := silent
      unfold linkTimedOut at recent
      have loop : (keepaliveCb c i w).loop = evTimerAt (c.now + w.cfg.ccKeepaliveInterval) (.keepalive i) w.loop := by
        simp [keepaliveCb, World.setLink, up, udpSendToLink, World.emit, recent, World.timerAfter, World.onLoop]
      refine ⟨_, keepaliveCb_out c i w up, by rw [loop]; exact Nat.le_succ _, fun t member active => ?_⟩
      rw [loop] at member
      rcases List.mem_cons.mp member with rfl | old
      · refine .inr ⟨le_refl _, fun j beat => ?_⟩
        obtain rfl := TimerCb.keepalive.inj beat
        exact .inr silent
      · exact .inl old
  · rw [keepaliveCb_down c i w up]
    exact idle.renewed

/-! ## OpenBridge sockets -/

theorem reconcilePeers_timers (c : Ctx) (w : World) : (obpMuxReconcile c w).loop.timers = w.loop.timers ∧
    (obpMuxReconcile c w).loop.nextTimer = w.loop.nextTimer := by
  refine List.foldl_turns (reconcilePeer c) (fun _ v => v.loop.timers = w.loop.timers ∧ v.loop.nextTimer = w.loop.nextTimer)
    (fun peer rest v kept => ?_) _ w ⟨rfl, rfl⟩
  rw [← kept.1, ← kept.2]
  simp only [reconcilePeer]
  split
  · unfold bindPeer
    split <;> exact ⟨rfl, rfl⟩
  · split
    · unfold unbindPeer
      dsimp only
      split <;> exact ⟨rfl, rfl⟩
    · exact ⟨rfl, rfl⟩

end Cc2obp
