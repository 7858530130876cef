import Cc2obp.Cccc.CcccLink
import Cc2obp.Lib.Registrations
import Cc2obp.Openbridge.ObpLink

/-!
# The registrations of both muxes

What each function of the two muxes adds to the tables of the event loop. None
looks at what is registered; a function that adds anything adds a descriptor it
has just opened, or the descriptor of the pending connection it hands over, which
is -1 when the connection was handed over before.
-/
open FdTable TwoTables

namespace Cc2obp

open World

/-- The event loop's two tables. -/
def World.tables : TwoTables World FdCb where
  fds w := w.loop.fds
  wfds w := w.loop.wfds
  put w r w' := { w with loop := { w.loop with fds := r, wfds := w' } }
  put_self _ := rfl
  fds_put _ _ _ := rfl
  wfds_put _ _ _ := rfl

/-- The calls a function makes for a world add these descriptors only. -/
abbrev World.Adds (names : List Int) (f : World → World) (w : World) : Prop := World.tables.Adds maxFds names f w

namespace World.Adds

variable {c : Ctx} {w : World} {names : List Int}

/-! ## Single calls -/

theorem timerCancel (handle : Option Nat) : Adds names (fun w => w.onLoop (evTimerCancel handle)) w := by
  refine .blind fun r w' => ?_
  cases handle <;> rfl

theorem addFd (fd : Int) (cb : FdCb) (member : fd ∈ names) : Adds names (fun w => w.onLoop (evAddFd fd cb)) w :=
  ⟨[.add fd cb], [], fun _ _ => rfl, by simp [Names, member], by simp [Names]⟩

theorem addFdWrite (fd : Int) (cb : FdCb) (member : fd ∈ names) :
    Adds names (fun w => w.onLoop (evAddFdWrite fd cb)) w :=
  ⟨[], [.add fd cb], fun _ _ => rfl, by simp [Names], by simp [Names, member]⟩

theorem delFd (fd : Int) : Adds names (fun w => w.onLoop (evDelFd fd)) w :=
  ⟨[.del fd], [], fun _ _ => rfl, by simp [Names], by simp [Names]⟩

theorem delFdWrite (fd : Int) : Adds names (fun w => w.onLoop (evDelFdWrite fd)) w :=
  ⟨[], [.del fd], fun _ _ => rfl, by simp [Names], by simp [Names]⟩

theorem closeFd (fd : Int) : Adds names (fun w => w.closeFd fd) w := .blind fun _ _ => rfl

/-! ## Links -/

theorem releaseFd (fd : Int) : Adds names (releaseFd fd) w := by
  refine .ite (fun _ _ => Iff.rfl) (fun _ => ?_) fun _ => .blind fun _ _ => rfl
  exact ((delFd fd).comp (delFdWrite fd)).comp (closeFd fd)

theorem teardown (i : Nat) : Adds names (teardownLinkConnection c i) w := by
  -- the record is the one from before the connection is released
  let lk := w.links i
  have torn : ∀ v, Adds names (fun v => v.setLink i lk.torn) v := fun v => .blind fun _ _ => rfl
  have told : ∀ v, Adds names (fun v => if lk.state = .up then v.emit (.call (.linkDown i)) else v) v :=
    fun v => .choice (fun _ _ => Iff.rfl) (fun _ _ => rfl) fun _ _ => rfl
  have again : ∀ v : World, Adds names (fun v =>
      if (v.cfg.linkAt i).ccRole = .outbound ∧ lk.active = true then scheduleReconnect c i v else v) v :=
    fun v => .choice (fun _ _ => Iff.rfl) (fun _ _ => rfl) fun _ _ => rfl
  exact (((((timerCancel lk.keepaliveTimer).comp (releaseFd lk.fd)).comp (torn _)).comp (told _)).comp (again _)).congr
    fun _ _ => rfl

theorem keepalive (i : Nat) : Adds names (keepaliveCb c i) w := by
  have cleared : Adds names (fun w => w.setLink i { w.links i with keepaliveTimer := none }) w := .blind fun _ _ => rfl
  have sent : ∀ v : World, Adds names (fun v => udpSendToLink v i (.keepalive i) (buildKeepalive (v.links i).syncSource)) v :=
    fun v => .blind fun _ _ => rfl
  have judged : ∀ v : World, Adds names (fun v =>
      if c.now - (v.links i).lastKeepaliveRecv > v.cfg.ccLinkTimeout then teardownLinkConnection c i v
      else (v.timerAfter c v.cfg.ccKeepaliveInterval (.keepalive i)).2.setLink i
        { v.links i with keepaliveTimer := some v.loop.nextTimer }) v :=
    fun v => .ite (fun _ _ => Iff.rfl) (fun _ => teardown i) fun _ => .blind fun _ _ => rfl
  have whole : ∀ v : World, Adds names (fun v => if (v.links i).state ≠ .up then v else _) v :=
    fun v => .ite (fun _ _ => Iff.rfl) (fun _ => .blind fun _ _ => rfl) fun _ => (sent _).comp (judged _)
  exact (cleared.comp (whole _)).congr fun _ _ => rfl

theorem finishHandshake (i : Nat) : Adds names (finishOutboundHandshake c i) w := by
  -- the answer is read before it is cleared
  let lk := w.links i
  have cleared : Adds names (fun w => w.setLink i { lk with hslines := [] }) w := .blind fun _ _ => rfl
  have judged : ∀ v : World, Adds names (fun v =>
      if lk.hslines.getD 0 [] ≠ ccccCodecAmbe ∨ CString.atoi (lk.hslines.getD 1 []) ≠ ccccMsPerFrame then
        teardownLinkConnection c i v
      else (armKeepalive c i (v.setLink i { v.links i with state := .up })).emit (.call (.linkUp i))) v :=
    fun v => .ite (fun _ _ => Iff.rfl) (fun _ => teardown i) fun _ => .blind fun _ _ => rfl
  exact (cleared.comp (judged _)).congr fun _ _ => rfl

theorem establishedLine (i : Nat) (line : List Byte) : Adds names (dispatchEstablishedLine i line) w := by
  refine .blind fun r w' => ?_
  unfold dispatchEstablishedLine
  cases signalOf i line <;> rfl

theorem linkLine (i : Nat) (line : List Byte) : Adds names (linkOnLine c i line) w := by
  cases state : (w.links i).state with
  | handshaking =>
    have kept : Adds names (fun v =>
        if (v.links i).hslines.length < ccccAnswerNfields then
          v.setLink i { v.links i with hslines := (v.links i).hslines ++ [line.take 255] }
        else v) w := .choice (fun _ _ => Iff.rfl) (fun _ _ => rfl) fun _ _ => rfl
    have finished : ∀ v, Adds names (fun v =>
        if (v.links i).hslines.length = ccccAnswerNfields then finishOutboundHandshake c i v else v) v :=
      fun v => .ite (fun _ _ => Iff.rfl) (fun _ => finishHandshake i) fun _ => .blind fun _ _ => rfl
    refine (kept.comp (finished _)).congr fun r w' => ?_
    have same : ((World.tables.put w r w').links i).state = .handshaking := state
    simp only [linkOnLine, same]
  | up =>
    refine (establishedLine i line).congr fun r w' => ?_
    have same : ((World.tables.put w r w').links i).state = .up := state
    simp only [linkOnLine, same]
  | down =>
    refine .blind fun r w' => ?_
    have same : ((World.tables.put w r w').links i).state = .down := state
    simp only [linkOnLine, same, state]
  | connecting =>
    refine .blind fun r w' => ?_
    have same : ((World.tables.put w r w').links i).state = .connecting := state
    simp only [linkOnLine, same, state]

/-- A chunk whose lines add nothing else, with a condition that they preserve. -/
theorem feedBytes (buf : Lines.Buffer World) (cb : List Byte → World → World) (inv : World → Prop)
    (got : ∀ w r w', buf.get (World.tables.put w r w') = buf.get w)
    (put : ∀ rx w r w', buf.put rx (World.tables.put w r w') = World.tables.put (buf.put rx w) r w')
    (stays : ∀ rx w, inv w → inv (buf.put rx w)) (lines : ∀ line w, inv w → inv (cb line w) ∧ Adds names (cb line) w)
    (bytes : List Byte) (start : inv w) : Adds names (Lines.feedBytes buf rxbufCap cb bytes) w := by
  refine .foldl (Lines.feedByte buf rxbufCap cb) inv (fun w b here => ?_) bytes w start
  have pushed : Adds names (fun w => buf.put (Lines.push rxbufCap (buf.get w) b) w) w :=
    .blind fun r w' => by rw [got, put]
  have kept := stays (Lines.push rxbufCap (buf.get w) b) w here
  by_cases newline : b = 0x0A
  · obtain ⟨next, adds⟩ := lines (Lines.lineOf (buf.get (buf.put (Lines.push rxbufCap (buf.get w) b) w))) _ kept
    have emptied : ∀ v, Adds names (buf.put []) v := fun v => .blind fun r w' => put [] v r w'
    refine ⟨?_, (((pushed.comp adds).comp (emptied _)).congr fun r w' => ?_)⟩
    · simp only [Lines.feedByte, newline, if_true]
      rw [newline] at next
      exact stays [] _ next
    · simp only [Lines.feedByte, newline, if_true, got, put]
  · refine ⟨?_, pushed.congr fun r w' => ?_⟩
    · simpa only [Lines.feedByte, newline, if_false] using kept
    · simp only [Lines.feedByte, newline, if_false]

theorem linkReadable (i : Nat) (r : RecvResult) : Adds names (onLinkTcpReadable c i r) w := by
  cases r with
  | data bytes =>
    exact feedBytes (linkBuffer i) (linkOnLine c i) (fun _ => True) (fun _ _ _ => rfl) (fun _ _ _ _ => rfl)
      (fun _ _ _ => trivial) (fun line _ _ => ⟨trivial, linkLine i line⟩) bytes trivial
  | wouldBlock => exact .blind fun _ _ => rfl
  | closed => exact teardown i
  | error => exact teardown i

theorem connectWritable (i : Nat) (fd : Int) (connected : Bool) (member : fd ∈ names) :
    Adds names (onConnectWritable c i fd connected) w := by
  let lk := w.links i
  have dropped : Adds names (fun w => w.onLoop (evDelFdWrite fd)) w := delFdWrite fd
  cases connected with
  | false =>
    have failed : ∀ v : World, Adds names (fun v => (v.closeFd fd).setLink i { lk with fd := -1, state := .down }) v :=
      fun v => .blind fun _ _ => rfl
    have again : ∀ v : World, Adds names (fun v => if lk.active = true then scheduleReconnect c i v else v) v :=
      fun v => .choice (fun _ _ => Iff.rfl) (fun _ _ => rfl) fun _ _ => rfl
    exact ((dropped.comp (failed _)).comp (again _)).congr fun _ _ => rfl
  | true =>
    cases minted : mintSyncSource w c.draws with
    | none =>
      refine .blind fun r w' => ?_
      have same : mintSyncSource ((World.tables.put w r w').onLoop (evDelFdWrite fd)) c.draws = none := minted
      have here : mintSyncSource (w.onLoop (evDelFdWrite fd)) c.draws = none := minted
      simp only [onConnectWritable, same, here]
      rfl
    | some ssrc =>
      have marked : ∀ v : World, Adds names (fun v =>
          v.setLink i { lk with state := .handshaking, syncSource := ssrc, hasSyncSource := true }) v :=
        fun v => .blind fun _ _ => rfl
      have asked : ∀ v : World, Adds names (fun v => tcpSend v i .question (buildQuestion ssrc (v.cfg.linkAt i).ccLid
          (v.cfg.linkAt i).ccChannelName v.cfg.ccSiteName v.cfg.ccMacAddress v.cfg.ccCodeRevision v.cfg.ccOsVersion)) v :=
        fun v => .blind fun _ _ => rfl
      refine (((dropped.comp (marked _)).comp (addFd fd (.link i) member)).comp (asked _)).congr fun r w' => ?_
      have same : mintSyncSource ((World.tables.put w r w').onLoop (evDelFdWrite fd)) c.draws = some ssrc := minted
      simp only [onConnectWritable, same]
      rfl

theorem dial (i : Nat) (member : lowestFree w.openFds ∈ names) : Adds names (ccccStartOutboundConnect c i) w := by
  let lk : CcLink := { w.links i with rxbuf := [], hslines := [], hasSyncSource := false }
  by_cases connects : c.connectOk i = true
  · let fd := lowestFree w.openFds
    have connecting : Adds names (fun w => w.openFd.2.setLink i { lk with fd, state := .connecting }) w :=
      .blind fun _ _ => rfl
    refine (connecting.comp (addFdWrite fd (.connect i) member)).congr fun r w' => ?_
    simp only [ccccStartOutboundConnect, connects, if_true]
    rfl
  · have failed : Adds names (fun w => w.setLink i { lk with fd := -1 }) w := .blind fun _ _ => rfl
    have again : ∀ v : World, Adds names (fun v => if lk.active = true then scheduleReconnect c i v else v) v :=
      fun v => .choice (fun _ _ => Iff.rfl) (fun _ _ => rfl) fun _ _ => rfl
    refine (failed.comp (again _)).congr fun r w' => ?_
    simp only [ccccStartOutboundConnect, connects]
    rfl

theorem reconnect (i : Nat) (member : lowestFree w.openFds ∈ names) : Adds names (reconnectCb c i) w := by
  have cleared : Adds names (fun w => w.setLink i { w.links i with reconnectTimer := none }) w := .blind fun _ _ => rfl
  have dialled : ∀ v : World, lowestFree v.openFds ∈ names →
      Adds names (fun v => if (v.links i).active = true then ccccStartOutboundConnect c i v else v) v :=
    fun v here => .ite (fun _ _ => Iff.rfl) (fun _ => dial i here) fun _ => .blind fun _ _ => rfl
  exact (cleared.comp (dialled _ member)).congr fun _ _ => rfl

/-! ## Pending connections -/

theorem freePending (s : Nat) (alsoClose : Bool) : Adds names (freePending s alsoClose) w := by
  let p := w.pending s
  have closed : ∀ v : World, Adds names (fun v =>
      if alsoClose = true ∧ 0 ≤ p.fd then (v.onLoop (evDelFd p.fd)).closeFd p.fd else v) v :=
    fun v => .ite (fun _ _ => Iff.rfl) (fun _ => (delFd p.fd).comp (closeFd p.fd)) fun _ => .blind fun _ _ => rfl
  have freed : ∀ v : World, Adds names (fun v => v.setPending s { p with timeoutTimer := none, inUse := false, fd := -1 }) v :=
    fun v => .blind fun _ _ => rfl
  exact (((timerCancel p.timeoutTimer).comp (closed _)).comp (freed _)).congr fun _ _ => rfl

theorem pendingTimeout (s : Nat) : Adds names (pendingTimeoutCb s) w := by
  have cleared : Adds names (fun w => w.setPending s { w.pending s with timeoutTimer := none }) w := .blind fun _ _ => rfl
  exact (cleared.comp (freePending s true)).congr fun _ _ => rfl

theorem takeOver (s i : Nat) (member : (w.pending s).fd ∈ names) : Adds names (takeOver c s i) w := by
  let p := w.pending s
  have vacated : Adds names (fun v => if (v.links i).state ≠ .down then teardownLinkConnection c i v else v) w :=
    .ite (fun _ _ => Iff.rfl) (fun _ => teardown i) fun _ => .blind fun _ _ => rfl
  have named : ∀ v : World, Adds names (fun v => v.setLink i { v.links i with
      fd := p.fd, rxbuf := [], hslines := [], syncSource := questionSsrc p.qlines, hasSyncSource := true, state := .up }) v :=
    fun v => .blind fun _ _ => rfl
  have answered : ∀ v : World, Adds names (fun v => (armKeepalive c i (tcpSend v i .answer
      (buildAnswer c.wallSec c.wallUsec v.cfg.ccSiteName v.cfg.ccOsVersion v.cfg.ccVersion))).setPending s { p with fd := -1 }) v :=
    fun v => .blind fun _ _ => rfl
  have told : ∀ v : World, Adds names (fun v => v.emit (.call (.linkUp i))) v := fun v => .blind fun _ _ => rfl
  exact (((((vacated.comp (named _)).comp (addFd p.fd (.link i) member)).comp (answered _)).comp
    (freePending s false)).comp (told _)).congr fun _ _ => rfl

theorem questionComplete (s : Nat) (member : (w.pending s).fd ∈ names) : Adds names (handleQuestionComplete c s) w := by
  have cancelled : Adds names (fun w => w.onLoop (evTimerCancel (w.pending s).timeoutTimer)) w :=
    (timerCancel (w.pending s).timeoutTimer).congr fun _ _ => rfl
  have stopped : ∀ v : World, Adds names (fun v => v.setPending s { v.pending s with timeoutTimer := none }) v :=
    fun v => .blind fun _ _ => rfl
  have judged : ∀ v : World, (v.pending s).fd ∈ names → Adds names (fun v =>
      (acceptQuestion v (v.pending s)).elim (Cc2obp.freePending s true v) fun i => Cc2obp.takeOver c s i v) v := by
    intro v here
    cases accepts : acceptQuestion v (v.pending s) with
    | none =>
      refine (freePending s true).congr fun r w' => ?_
      have same : acceptQuestion (World.tables.put v r w') ((World.tables.put v r w').pending s) = none := accepts
      rw [same, Option.elim_none]
    | some i =>
      refine (takeOver (c := c) s i here).congr fun r w' => ?_
      have same : acceptQuestion (World.tables.put v r w') ((World.tables.put v r w').pending s) = some i := accepts
      rw [same, Option.elim_some]
  refine ((cancelled.comp (stopped _)).comp (judged _ ?_)).congr fun r w' => ?_
  · simpa [World.setPending, World.onLoop] using member
  · simp only [handleQuestionComplete]
    split
    next refused => rw [refused, Option.elim_none]
    next i accepts => rw [accepts, Option.elim_some]

/-- The descriptor a slot's connection has, until it is handed over. -/
def HasOrHad (fd : Int) (s : Nat) (w : World) : Prop := (w.pending s).fd = fd ∨ (w.pending s).fd = -1

theorem freePending_fd (s : Nat) (alsoClose : Bool) (w : World) : ((Cc2obp.freePending s alsoClose w).pending s).fd = -1 := by
  simp [Cc2obp.freePending, World.setPending]

theorem questionComplete_fd (s : Nat) (w : World) : ((handleQuestionComplete c s w).pending s).fd = -1 := by
  simp only [handleQuestionComplete]
  split
  · exact freePending_fd s true _
  · simp only [Cc2obp.takeOver, World.emit]
    exact freePending_fd s false _

theorem pendingLine (fd : Int) (s : Nat) (line : List Byte) (had : HasOrHad fd s w) :
    HasOrHad fd s (pendingOnLine c s line w) ∧ Adds [fd, -1] (pendingOnLine c s line) w := by
  have here : (w.pending s).fd ∈ [fd, -1] := by
    rcases had with has | gone
    · simp [has]
    · simp [gone]
  let kept (v : World) : World :=
    if (v.pending s).qlines.length < ccccQuestionNfields then
      v.setPending s { v.pending s with qlines := (v.pending s).qlines ++ [line.take 255] }
    else v
  have same : ((kept w).pending s).fd = (w.pending s).fd := by
    dsimp only [kept]
    split
    · simp [World.setPending]
    · rfl
  constructor
  · show HasOrHad fd s (if ((kept w).pending s).qlines.length = ccccQuestionNfields then
      handleQuestionComplete c s (kept w) else kept w)
    split
    · exact .inr (questionComplete_fd s _)
    · rwa [HasOrHad, same]
  · have line_ : Adds [fd, -1] kept w := .choice (fun _ _ => Iff.rfl) (fun _ _ => rfl) fun _ _ => rfl
    have completed : Adds [fd, -1] (fun v =>
        if (v.pending s).qlines.length = ccccQuestionNfields then handleQuestionComplete c s v else v) (kept w) :=
      .ite (fun _ _ => Iff.rfl) (fun _ => questionComplete s (by rwa [same])) fun _ => .blind fun _ _ => rfl
    exact (line_.comp completed).congr fun _ _ => rfl

theorem pendingReadable (s : Nat) (r : RecvResult) : Adds [(w.pending s).fd, -1] (onPendingReadable c s r) w := by
  cases r with
  | data bytes =>
    refine feedBytes (pendingBuffer s) (pendingOnLine c s) (HasOrHad (w.pending s).fd s) (fun _ _ _ => rfl)
      (fun _ _ _ _ => rfl) (fun rx v had => ?_) (fun line v had => pendingLine _ s line had) bytes (.inl rfl)
    have same : (((pendingBuffer s).put rx v).pending s).fd = (v.pending s).fd := by simp [pendingBuffer, World.setPending]
    rwa [HasOrHad, same]
  | wouldBlock => exact .blind fun _ _ => rfl
  | closed => exact freePending s true
  | error => exact freePending s true

theorem acceptOne (srcIp : List Byte) : Adds [lowestFree w.openFds] (fun w => acceptOne c w srcIp) w := by
  let fd := lowestFree w.openFds
  have opened : Adds [fd] (fun w => w.openFd.2) w := .blind fun _ _ => rfl
  cases slot : freeSlot w with
  | none =>
    refine (opened.comp (closeFd fd)).congr fun r w' => ?_
    have full : freeSlot (World.tables.put w r w').openFd.2 = none := slot
    simp only [Cc2obp.acceptOne, full]
    rfl
  | some s =>
    have armed : ∀ v : World, Adds [fd] (fun v => (v.timerAfter c pendingTimeoutS (.pendingTimeout s)).2.setPending s
        { inUse := true, fd, srcIp, timeoutTimer := some (v.timerAfter c pendingTimeoutS (.pendingTimeout s)).1 }) v :=
      fun v => .blind fun _ _ => rfl
    refine ((opened.comp (addFd fd (.pending s) (by simp))).comp (armed _)).congr fun r w' => ?_
    have free : freeSlot (World.tables.put w r w').openFd.2 = some s := slot
    simp only [Cc2obp.acceptOne, free]
    rfl

/-! ## Datagrams -/

theorem voiceReadable (datagram srcIp : List Byte) (srcPort : Int) :
    Adds names (onVoiceReadable c datagram srcIp srcPort) w := by
  refine .blind fun r w' => ?_
  have same : datagramLink (World.tables.put w r w') (datagram.take 256) srcIp = datagramLink w (datagram.take 256) srcIp := rfl
  simp only [onVoiceReadable, same]
  split
  · rfl
  · split
    · split <;> rfl
    · split
      · split <;> rfl
      · rfl

theorem trialReadable (datagram srcIp : List Byte) (srcPort : Int) :
    Adds names (onTrialReadable datagram srcIp srcPort) w :=
  .choice (fun _ _ => Iff.rfl) (fun _ _ => rfl) fun _ _ => rfl

theorem obpReadable (peer : Nat) (datagram srcIp : List Byte) (srcPort : Int) :
    Adds names (onObpReadable peer datagram srcIp srcPort) w := by
  refine .blind fun r w' => ?_
  have same : (World.tables.put w r w').cfg = w.cfg := rfl
  simp only [onObpReadable, same]
  split <;> rfl

/-! ## Peers -/

theorem bindPeer (peer : Nat) : Adds [lowestFree w.openFds] (bindPeer c peer) w := by
  let fd := lowestFree w.openFds
  have bound : Adds [fd] (fun w => { w.openFd.2 with
      obpFd := Function.update w.obpFd peer fd, obpActive := Function.update w.obpActive peer true }) w :=
    .blind fun _ _ => rfl
  by_cases binds : c.bindOk peer = true
  · refine (bound.comp (addFd fd (.obp peer) (by simp))).congr fun r w' => ?_
    simp only [Cc2obp.bindPeer, binds, if_true]
    rfl
  · refine .blind fun r w' => ?_
    simp only [Cc2obp.bindPeer, binds]
    rfl

theorem unbindPeer (peer : Nat) : Adds names (unbindPeer peer) w := by
  let fd := w.obpFd peer
  have forgot : ∀ v : World, Adds names (fun v => { v with obpFd := Function.update v.obpFd peer (-1) }) v :=
    fun v => .blind fun _ _ => rfl
  have off : ∀ v : World, Adds names (fun v => { v with obpActive := Function.update v.obpActive peer false }) v :=
    fun v => .blind fun _ _ => rfl
  have closed : Adds names (fun v =>
      if 0 ≤ fd then { (v.onLoop (evDelFd fd)).closeFd fd with
        obpFd := Function.update ((v.onLoop (evDelFd fd)).closeFd fd).obpFd peer (-1) } else v) w :=
    .ite (fun _ _ => Iff.rfl) (fun _ => ((delFd fd).comp (closeFd fd)).comp (forgot _)) fun _ => .blind fun _ _ => rfl
  exact (closed.comp (off _)).congr fun _ _ => rfl

theorem reconcilePeer (peer : Nat) : Adds [lowestFree w.openFds] (fun w => reconcilePeer c w peer) w :=
  .ite (fun _ _ => Iff.rfl) (fun _ => bindPeer peer) fun _ =>
    .ite (fun _ _ => Iff.rfl) (fun _ => unbindPeer peer) fun _ => .blind fun _ _ => rfl

/-! ## Turns of the links -/

/-- A connection that is torn down if there is one, by a record read before. -/
theorem retire (i : Nat) (held : Prop) [Decidable held] :
    Adds names (fun v => if held then teardownLinkConnection c i v else v) w :=
  .ite (fun _ _ => Iff.rfl) (fun _ => teardown i) fun _ => .blind fun _ _ => rfl

theorem reconcileLink (i : Nat) : Adds [lowestFree w.openFds] (fun w => reconcileLink c w i) w := by
  let lk := w.links i
  let lcfg := w.cfg.linkAt i
  cases role : lcfg.ccRole with
  | outbound =>
    have dials : Adds [lowestFree w.openFds] (fun v => ccccStartOutboundConnect c i (v.setLink i { lk with active := true })) w := by
      have switched : Adds [lowestFree w.openFds] (fun v => v.setLink i { lk with active := true }) w := .blind fun _ _ => rfl
      exact switched.comp (dial i (List.mem_singleton_self _))
    have drops : Adds [lowestFree w.openFds] (fun v => if lk.state ≠ .down then
        teardownLinkConnection c i ((v.onLoop (evTimerCancel lk.reconnectTimer)).setLink i
          { lk with active := false, reconnectTimer := none })
        else (v.onLoop (evTimerCancel lk.reconnectTimer)).setLink i { lk with active := false, reconnectTimer := none }) w := by
      have switched : ∀ v : World, Adds [lowestFree w.openFds]
          (fun v => v.setLink i { lk with active := false, reconnectTimer := none }) v := fun v => .blind fun _ _ => rfl
      exact ((timerCancel lk.reconnectTimer).comp (switched _)).comp (retire i (lk.state ≠ .down))
    have turn : Adds [lowestFree w.openFds] (fun v => if lcfg.enabled = true ∧ (!lk.active) = true then _
        else if (!lcfg.enabled) = true ∧ lk.active = true then _ else v) w :=
      .ite (fun _ _ => Iff.rfl) (fun _ => dials) fun _ =>
        .ite (fun _ _ => Iff.rfl) (fun _ => drops) fun _ => .blind fun _ _ => rfl
    refine turn.congr fun r w' => ?_
    have same : ((World.tables.put w r w').cfg.linkAt i).ccRole = .outbound := role
    simp only [Cc2obp.reconcileLink, same]
    rfl
  | inbound =>
    have switched : Adds [lowestFree w.openFds] (fun v => v.setLink i { lk with active := lcfg.enabled }) w :=
      .blind fun _ _ => rfl
    refine (switched.comp (retire (c := c) i ((!lcfg.enabled) = true ∧ lk.state ≠ .down))).congr fun r w' => ?_
    have same : ((World.tables.put w r w').cfg.linkAt i).ccRole = .inbound := role
    simp only [Cc2obp.reconcileLink, same]
    rfl

/-! ## Start and stop -/

theorem each {α : Type} (turn : World → α → World) (step : ∀ w a, ∃ fd, Adds [fd] (fun w => turn w a) w) (l : List α)
    (w : World) : ∃ names : List Int, names.length = l.length ∧ Adds names (fun w => l.foldl turn w) w :=
  TwoTables.Adds.foldl_each turn step l w

theorem obpStart : ∃ names : List Int, names.length = w.cfg.nOpenbridge ∧ Adds names (obpMuxStart c) w := by
  obtain ⟨names, length, adds⟩ := each
    (fun w peer => if (w.cfg.openbridgeAt peer).enabled then Cc2obp.bindPeer c peer w else w)
    (fun w peer => ⟨lowestFree w.openFds, .ite (fun _ _ => Iff.rfl) (fun _ => bindPeer peer) fun _ => .blind fun _ _ => rfl⟩)
    (List.range w.cfg.nOpenbridge) w
  exact ⟨names, length.trans List.length_range, adds.congr fun _ _ => rfl⟩

/-- One of the shared sockets. -/
theorem shared (cb : FdCb) (keep : Int → World → World)
    (blind : ∀ fd w r w', keep fd (World.tables.put w r w') = World.tables.put (keep fd w) r w') :
    Adds [lowestFree w.openFds] (fun w => (keep w.openFd.1 w.openFd.2).onLoop (evAddFd w.openFd.1 cb)) w := by
  let fd := lowestFree w.openFds
  have opened : Adds [fd] (fun w => w.openFd.2) w := .blind fun _ _ => rfl
  have kept : ∀ v : World, Adds [fd] (keep fd) v := fun v => .blind (blind fd v)
  exact ((opened.comp (kept _)).comp (addFd fd cb (List.mem_singleton_self fd))).congr fun _ _ => rfl

/-- One link's turn at the start. -/
theorem startLink (i : Nat) : Adds [lowestFree w.openFds] (fun w =>
    let lcfg := w.cfg.linkAt i
    let w := w.setLink i { w.links i with active := lcfg.enabled }
    if lcfg.ccRole = .outbound ∧ lcfg.enabled then ccccStartOutboundConnect c i w else w) w := by
  let lcfg := w.cfg.linkAt i
  have switched : Adds [lowestFree w.openFds] (fun w => w.setLink i { w.links i with active := lcfg.enabled }) w :=
    .blind fun _ _ => rfl
  have dialled : Adds [lowestFree w.openFds] (fun v =>
      if lcfg.ccRole = .outbound ∧ lcfg.enabled then ccccStartOutboundConnect c i v else v)
      (w.setLink i { w.links i with active := lcfg.enabled }) :=
    .ite (fun _ _ => Iff.rfl) (fun _ => dial i (List.mem_singleton_self _)) fun _ => .blind fun _ _ => rfl
  exact (switched.comp dialled).congr fun _ _ => rfl

theorem ccccStart : ∃ names : List Int, names.length = 3 + w.cfg.nLink ∧ Adds names (ccccMuxStart c) w := by
  let voiced (w : World) : World := { w.openFd.2 with voiceFd := w.openFd.1 }.onLoop (evAddFd w.openFd.1 .voice)
  let trialled (w : World) : World := { w.openFd.2 with trialFd := w.openFd.1 }.onLoop (evAddFd w.openFd.1 .trial)
  let listened (w : World) : World := { w.openFd.2 with listenFd := w.openFd.1 }.onLoop (evAddFd w.openFd.1 .listen)
  have voice : Adds [lowestFree w.openFds] voiced w :=
    shared .voice (fun fd w => { w with voiceFd := fd }) fun _ _ _ _ => rfl
  have trial : ∀ v, Adds [lowestFree v.openFds] trialled v :=
    fun v => shared .trial (fun fd w => { w with trialFd := fd }) fun _ _ _ _ => rfl
  have listen : ∀ v, Adds [lowestFree v.openFds] listened v :=
    fun v => shared .listen (fun fd w => { w with listenFd := fd }) fun _ _ _ _ => rfl
  obtain ⟨names, length, dialled⟩ := each _
    (fun w i => ⟨_, startLink (c := c) i⟩) (List.range w.cfg.nLink) (listened (trialled (voiced w)))
  refine ⟨lowestFree w.openFds :: lowestFree (voiced w).openFds :: lowestFree (trialled (voiced w)).openFds :: names, ?_, ?_⟩
  · rw [List.length_cons, List.length_cons, List.length_cons, length, List.length_range]
    omega
  · exact ((((voice.mono (by simp)).comp ((trial _).mono (by simp))).comp ((listen _).mono (by simp))).comp
      (dialled.mono fun fd member => by simp [member])).congr fun _ _ => rfl

theorem stopLink (i : Nat) : Adds names (fun w => stopLink c w i) w := by
  let lk := w.links i
  have switched : ∀ v : World, Adds names (fun v => v.setLink i { lk with active := false, reconnectTimer := none }) v :=
    fun v => .blind fun _ _ => rfl
  exact (((timerCancel lk.reconnectTimer).comp (switched _)).comp (retire (c := c) i (lk.state ≠ .down))).congr fun _ _ => rfl

theorem stopPending (s : Nat) : Adds names (fun w => stopPending w s) w :=
  .ite (fun _ _ => Iff.rfl) (fun _ => freePending s true) fun _ => .blind fun _ _ => rfl

theorem closeShared (fd : Int) : Adds names (closeShared fd) w :=
  .ite (fun _ _ => Iff.rfl) (fun _ => (delFd fd).comp (closeFd fd)) fun _ => .blind fun _ _ => rfl

theorem ccccStop : Adds names (ccccMuxStop c) w := by
  have links : Adds names (fun v => (List.range v.cfg.nLink).foldl (Cc2obp.stopLink c) v) w :=
    (Adds.foldl (Cc2obp.stopLink c) (fun _ => True) (fun _ i _ => ⟨trivial, stopLink i⟩) (List.range w.cfg.nLink) w
      trivial).congr fun _ _ => rfl
  have slots : ∀ v, Adds names (fun v => (List.range maxPending).foldl Cc2obp.stopPending v) v :=
    fun v => .foldl Cc2obp.stopPending (fun _ => True) (fun _ s _ => ⟨trivial, stopPending s⟩) _ v trivial
  have voice : ∀ v : World, Adds names (fun v =>
      { Cc2obp.closeShared v.voiceFd v with voiceFd := if 0 ≤ v.voiceFd then -1 else v.voiceFd }) v := fun v =>
    ((closeShared v.voiceFd).comp (g := fun u => { u with voiceFd := if 0 ≤ v.voiceFd then -1 else v.voiceFd })
      (.blind fun _ _ => rfl)).congr fun _ _ => rfl
  have trial : ∀ v : World, Adds names (fun v =>
      { Cc2obp.closeShared v.trialFd v with trialFd := if 0 ≤ v.trialFd then -1 else v.trialFd }) v := fun v =>
    ((closeShared v.trialFd).comp (g := fun u => { u with trialFd := if 0 ≤ v.trialFd then -1 else v.trialFd })
      (.blind fun _ _ => rfl)).congr fun _ _ => rfl
  have listen : ∀ v : World, Adds names (fun v =>
      { Cc2obp.closeShared v.listenFd v with listenFd := if 0 ≤ v.listenFd then -1 else v.listenFd }) v := fun v =>
    ((closeShared v.listenFd).comp (g := fun u => { u with listenFd := if 0 ≤ v.listenFd then -1 else v.listenFd })
      (.blind fun _ _ => rfl)).congr fun _ _ => rfl
  exact ((((links.comp (slots _)).comp (voice _)).comp (trial _)).comp (listen _)).congr fun _ _ => rfl

theorem obpStop : Adds names obpMuxStop w := by
  have peers : Adds names (fun w => (List.range w.cfg.nOpenbridge).foldl
      (fun w i => if w.obpActive i then Cc2obp.unbindPeer i w else w) w) w :=
    (Adds.foldl (fun w i => if w.obpActive i then Cc2obp.unbindPeer i w else w) (fun _ => True)
      (fun _ i _ => ⟨trivial, .ite (fun _ _ => Iff.rfl) (fun _ => unbindPeer i) fun _ => .blind fun _ _ => rfl⟩)
      (List.range w.cfg.nOpenbridge) w trivial).congr fun _ _ => rfl
  exact peers

end World.Adds

end Cc2obp
