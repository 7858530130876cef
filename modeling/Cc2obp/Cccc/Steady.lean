import Cc2obp.Cccc.Traffic
import Cc2obp.Lib.Run

/-!
# Links that stay as they are

A callback brings a link UP with a call into the translator, or leaves it on the
connection it has had and as long unheard as it was. Two callbacks do more: one
sends a Question on an outbound connection, one hears a keepalive.
-/
namespace Cc2obp

open World Lines

/-- A record that is UP only if it was, on the connection it had, and waits for an Answer only if it did. -/
structure Carries (lk lk' : CcLink) : Prop where
  waiting : lk'.state = .handshaking → lk.state = .handshaking
  up : lk'.state = .up → lk.state = .up
  source : lk'.state = .up → lk'.syncSource = lk.syncSource
  heard : lk'.state = .up → lk'.lastKeepaliveRecv = lk.lastKeepaliveRecv

/-- An UP record, and the one before: the link has been reported UP and counts as heard, or it has not and is on
the connection it had. -/
inductive UpSince (now : Rat) (i : Nat) (os : List Out) (lk lk' : CcLink) : Prop
  | opened (called : .call (.linkUp i) ∈ os) (heard : lk'.lastKeepaliveRecv = now)
  | carried (silent : .call (.linkUp i) ∉ os) (up : lk.state = .up) (source : lk'.syncSource = lk.syncSource)
      (heard : lk'.lastKeepaliveRecv = lk.lastKeepaliveRecv)

/-- One world comes from another in a callback that asks no remote and hears none. -/
structure Steady (c : Ctx) (w w' : World) : Prop where
  voiceFd : w'.voiceFd = w.voiceFd
  waiting : ∀ i, (w'.links i).state = .handshaking → (w.links i).state = .handshaking
  ups : ∃ os, w'.out = w.out ++ os ∧ ∀ i, (w'.links i).state = .up → UpSince c.now i os (w.links i) (w'.links i)

theorem Carries.refl (lk : CcLink) : Carries lk lk := ⟨id, id, fun _ => rfl, fun _ => rfl⟩

/-- A record that is neither UP nor waiting for an Answer. -/
theorem Carries.ended {lk lk' : CcLink} (notUp : lk'.state ≠ .up) (notWaiting : lk'.state ≠ .handshaking) :
    Carries lk lk' :=
  ⟨fun waits => absurd waits notWaiting, fun up => absurd up notUp, fun up => absurd up notUp, fun up => absurd up notUp⟩

namespace Steady

variable {c : Ctx} {w w' w'' : World}

theorem trans (first : Steady c w w') (second : Steady c w' w'') : Steady c w w'' := by
  obtain ⟨os, out, ups⟩ := first.ups
  obtain ⟨os', out', ups'⟩ := second.ups
  refine ⟨second.voiceFd.trans first.voiceFd, fun i waits => first.waiting i (second.waiting i waits), os ++ os', ?_, ?_⟩
  · rw [out', out, List.append_assoc]
  · intro i up
    cases ups' i up with
    | opened called heard => exact .opened (List.mem_append_right os called) heard
    | carried silent up source heard =>
      cases ups i up with
      | opened called heard' => exact .opened (List.mem_append_left os' called) (heard.trans heard')
      | carried silent' up' source' heard' =>
        refine .carried (fun called => ?_) up' (source.trans source') (heard.trans heard')
        rcases List.mem_append.mp called with early | late
        · exact silent' early
        · exact silent late

/-- No link is reported UP, and every record carries on. -/
theorem carried {l : List Out} (voiceFd : w'.voiceFd = w.voiceFd) (out : w'.out = w.out ++ l)
    (silent : ∀ i, .call (.linkUp i) ∉ l) (links : ∀ i, Carries (w.links i) (w'.links i)) : Steady c w w' :=
  ⟨voiceFd, fun i => (links i).waiting, l, out,
    fun i up => .carried (silent i) ((links i).up up) ((links i).source up) ((links i).heard up)⟩

theorem quiet (voiceFd : w'.voiceFd = w.voiceFd) (out : w'.out = w.out) (links : w'.links = w.links) : Steady c w w' :=
  carried voiceFd (l := []) (by simp [out]) (by simp) fun i => by
    rw [links]
    exact .refl _

/-- One link comes UP and is reported. -/
theorem opened {l : List Out} {i : Nat} (voiceFd : w'.voiceFd = w.voiceFd) (out : w'.out = w.out ++ l)
    (called : .call (.linkUp i) ∈ l) (others : ∀ j, j ≠ i → .call (.linkUp j) ∉ l)
    (links : ∀ j, j ≠ i → w'.links j = w.links j) (up : (w'.links i).state = .up)
    (heard : (w'.links i).lastKeepaliveRecv = c.now) : Steady c w w' := by
  refine ⟨voiceFd, fun j waits => ?_, l, out, fun j isUp => ?_⟩
  · by_cases here : j = i
    · subst here
      rw [up] at waits
      cases waits
    · rwa [links j here] at waits
  · by_cases here : j = i
    · subst here
      exact .opened called heard
    · rw [links j here] at isUp ⊢
      exact .carried (others j here) isUp rfl rfl

theorem refl (w : World) : Steady c w w := quiet rfl rfl rfl

theorem onLoop (w : World) (f : EvLoop FdCb TimerCb → EvLoop FdCb TimerCb) : Steady c w (w.onLoop f) := quiet rfl rfl rfl

theorem setPending (w : World) (s : Nat) (p : PendingConn) : Steady c w (w.setPending s p) := quiet rfl rfl rfl

theorem closeFd (w : World) (fd : Int) : Steady c w (w.closeFd fd) := quiet rfl rfl rfl

theorem openFd (w : World) : Steady c w w.openFd.2 := quiet rfl rfl rfl

theorem setLink {i : Nat} {lk : CcLink} (carries : Carries (w.links i) lk) : Steady c w (w.setLink i lk) := by
  refine carried rfl (l := []) (by simp [World.setLink]) (by simp) fun j => ?_
  by_cases here : j = i
  · subst here
    simpa [World.setLink] using carries
  · simpa [World.setLink, here] using Carries.refl (w.links j)

/-- A record changes beside what is carried on. -/
theorem setSoft {i : Nat} {lk : CcLink} (state : lk.state = (w.links i).state)
    (source : lk.syncSource = (w.links i).syncSource) (heard : lk.lastKeepaliveRecv = (w.links i).lastKeepaliveRecv) :
    Steady c w (w.setLink i lk) :=
  setLink ⟨fun waits => state.symm.trans waits, fun up => state.symm.trans up, fun _ => source, fun _ => heard⟩

theorem emit (w : World) {o : Out} (silent : ∀ i, o ≠ .call (.linkUp i)) : Steady c w (w.emit o) :=
  carried rfl (l := [o]) rfl (fun i called => silent i (List.mem_singleton.mp called).symm) fun _ => .refl _

/-! ## Outbound links -/

section Links
variable (c) (i : Nat)

theorem scheduleReconnect (w : World) : Steady c w (scheduleReconnect c i w) := by
  unfold Cc2obp.scheduleReconnect timerAfter
  exact (onLoop w _).trans (setSoft rfl rfl rfl)

theorem teardown (w : World) : Steady c w (teardownLinkConnection c i w) := by
  rw [teardown_eq]
  refine carried rfl (l := if (w.links i).state = .up then [.call (.linkDown i)] else []) rfl ?_ fun j => ?_
  · intro j
    split <;> simp
  · by_cases here : j = i
    · subst here
      simp only [World.setLink, Function.update_self]
      exact .ended (by simp [CcLink.torn]) (by simp [CcLink.torn])
    · simpa [World.setLink, here] using Carries.refl (w.links j)

theorem startOutboundConnect (w : World) : Steady c w (ccccStartOutboundConnect c i w) := by
  simp only [ccccStartOutboundConnect]
  split
  · exact ((openFd w).trans (setLink (.ended (by simp) (by simp)))).trans (onLoop _ _)
  · have failed : Steady c w (w.setLink i { w.links i with rxbuf := [], hslines := [], hasSyncSource := false, fd := -1 }) :=
      setSoft rfl rfl rfl
    split
    · exact failed.trans (scheduleReconnect c i _)
    · exact failed

theorem reconnectCb (w : World) : Steady c w (reconnectCb c i w) := by
  unfold Cc2obp.reconnectCb
  have idle : Steady c w (w.setLink i { w.links i with reconnectTimer := none }) := setSoft rfl rfl rfl
  dsimp only
  split
  · exact idle.trans (startOutboundConnect c i _)
  · exact idle

/-- A connection that fails. -/
theorem connectFailed (fd : Int) (w : World) : Steady c w (onConnectWritable c i fd false w) := by
  simp only [onConnectWritable, Bool.not_false, if_true]
  have failed : Steady c w (((w.onLoop (evDelFdWrite fd)).closeFd fd).setLink i
      { w.links i with fd := -1, state := .down }) :=
    ((onLoop w _).trans (closeFd _ fd)).trans (setLink (.ended (by simp) (by simp)))
  split
  · exact failed.trans (scheduleReconnect c i _)
  · exact failed

/-- The handshake ends with the link UP or torn down. -/
theorem finishOutboundHandshake (w : World) : Steady c w (finishOutboundHandshake c i w) := by
  simp only [Cc2obp.finishOutboundHandshake]
  split
  · have cleared : Steady c w (w.setLink i { w.links i with hslines := [] }) := setSoft rfl rfl rfl
    exact cleared.trans (teardown c i _)
  · refine opened (i := i) (l := [.call (.linkUp i)]) ?_ ?_ ?_ (fun j other => ?_) (fun j other => ?_) ?_ ?_
    case refine_4 => simpa using other
    case refine_5 => simp [World.emit, armKeepalive, timerAfter, World.onLoop, World.setLink, other]
    all_goals simp [World.emit, armKeepalive, timerAfter, World.onLoop, World.setLink]

theorem signalOf_notUp {line : List Byte} {call : TrCall} (signal : signalOf i line = some call) (j : Nat) :
    call ≠ .linkUp j := by
  rintro rfl
  unfold signalOf at signal
  split at signal
  · obtain ⟨f, -, other⟩ := Option.map_eq_some_iff.mp signal
    cases other
  · split at signal
    · obtain ⟨f, -, other⟩ := Option.map_eq_some_iff.mp signal
      cases other
    · cases signal

theorem linkOnLine (line : List Byte) (w : World) : Steady c w (linkOnLine c i line w) := by
  simp only [Cc2obp.linkOnLine]
  split
  · generalize gathered : (if (w.links i).hslines.length < ccccAnswerNfields then
        w.setLink i { w.links i with hslines := (w.links i).hslines ++ [line.take 255] } else w) = v
    have kept : Steady c w v := by
      rw [← gathered]
      split
      · exact setSoft rfl rfl rfl
      · exact refl w
    split
    · exact kept.trans (finishOutboundHandshake c i v)
    · exact kept
  · unfold dispatchEstablishedLine
    split
    next call signal => exact emit w fun j same => signalOf_notUp i signal j (Out.call.inj same)
    · exact refl w
  · exact refl w

theorem linkReadable (r : RecvResult) (w : World) : Steady c w (onLinkTcpReadable c i r w) := by
  cases r with
  | data bytes =>
    refine feedBytes_invariant (linkBuffer i) rxbufCap _ (Steady c w) (fun v b before => ?_) bytes w (refl w)
    have pushed : Steady c w ((linkBuffer i).put (push rxbufCap ((linkBuffer i).get v) b) v) :=
      before.trans (setSoft rfl rfl rfl)
    simp only [feedByte]
    split
    · exact (pushed.trans (linkOnLine c i _ _)).trans (setSoft rfl rfl rfl)
    · exact pushed
  | wouldBlock => exact refl w
  | closed => exact teardown c i w
  | error => exact teardown c i w

theorem keepaliveCb (w : World) : Steady c w (keepaliveCb c i w) := by
  have idle : Steady c w (w.setLink i { w.links i with keepaliveTimer := none }) := setSoft rfl rfl rfl
  simp only [Cc2obp.keepaliveCb]
  split
  · exact idle
  · have sent := idle.trans (emit _ (o := keepaliveOut i (w.setLink i { w.links i with keepaliveTimer := none }))
      (by simp [keepaliveOut]))
    split
    · exact sent.trans (teardown c i _)
    · exact (sent.trans (onLoop _ _)).trans (setSoft rfl rfl rfl)

end Links

/-! ## Inbound connections -/

section Slots
variable (c) (s : Nat)

theorem freePending (alsoClose : Bool) (w : World) : Steady c w (freePending s alsoClose w) := by
  have cancelled : Steady c w (w.onLoop (evTimerCancel (w.pending s).timeoutTimer)) := onLoop w _
  simp only [Cc2obp.freePending]
  split
  · exact ((cancelled.trans (onLoop _ _)).trans (closeFd _ _)).trans (setPending _ _ _)
  · exact cancelled.trans (setPending _ _ _)

theorem takeOver (i : Nat) (w : World) : Steady c w (takeOver c s i w) := by
  simp only [Cc2obp.takeOver]
  generalize emptied : (if (w.links i).state ≠ .down then teardownLinkConnection c i w else w) = v
  have vacated : Steady c w v := by
    rw [← emptied]
    split
    · exact teardown c i w
    · exact refl w
  refine vacated.trans (opened (i := i) (l := [.tcp i (w.pending s).fd .answer
    (buildAnswer c.wallSec c.wallUsec v.cfg.ccSiteName v.cfg.ccOsVersion v.cfg.ccVersion), .call (.linkUp i)]) ?_ ?_ ?_ ?_ ?_ ?_ ?_)
  case refine_3 => simp
  case refine_4 => intro j other; simpa using other
  case refine_5 =>
    intro j other
    simp [Cc2obp.freePending, World.emit, World.onLoop, World.setPending, armKeepalive, timerAfter, tcpSend,
      World.setLink, other]
  all_goals simp [Cc2obp.freePending, World.emit, World.onLoop, World.setPending, armKeepalive, timerAfter, tcpSend,
    World.setLink]

theorem handleQuestionComplete (w : World) : Steady c w (handleQuestionComplete c s w) := by
  have stopped : Steady c w ((w.onLoop (evTimerCancel (w.pending s).timeoutTimer)).setPending s
      { w.pending s with timeoutTimer := none }) := (onLoop w _).trans (setPending _ _ _)
  simp only [Cc2obp.handleQuestionComplete]
  split
  · exact stopped.trans (freePending c s true _)
  next matched _ => exact stopped.trans (takeOver c s matched _)

theorem pendingOnLine (line : List Byte) (w : World) : Steady c w (pendingOnLine c s line w) := by
  simp only [Cc2obp.pendingOnLine]
  generalize gathered : (if (w.pending s).qlines.length < ccccQuestionNfields then
      w.setPending s { w.pending s with qlines := (w.pending s).qlines ++ [line.take 255] } else w) = v
  have kept : Steady c w v := by
    rw [← gathered]
    split
    · exact setPending w _ _
    · exact refl w
  split
  · exact kept.trans (handleQuestionComplete c s v)
  · exact kept

theorem pendingReadable (r : RecvResult) (w : World) : Steady c w (onPendingReadable c s r w) := by
  cases r with
  | data bytes =>
    refine feedBytes_invariant (pendingBuffer s) rxbufCap _ (Steady c w) (fun v b before => ?_) bytes w (refl w)
    have pushed : Steady c w ((pendingBuffer s).put (push rxbufCap ((pendingBuffer s).get v) b) v) :=
      before.trans (setPending _ _ _)
    simp only [feedByte]
    split
    · exact (pushed.trans (pendingOnLine c s _ _)).trans (setPending _ _ _)
    · exact pushed
  | wouldBlock => exact refl w
  | closed => exact freePending c s true w
  | error => exact freePending c s true w

theorem listenReadable (conns : List (List Byte)) (w : World) : Steady c w (onListenReadable c conns w) := by
  unfold onListenReadable
  induction conns generalizing w with
  | nil => exact refl w
  | cons srcIp rest ih =>
    have accepted : Steady c w (acceptOne c w srcIp) := by
      simp only [acceptOne]
      split <;> exact quiet rfl rfl rfl
    exact accepted.trans (ih _)

theorem pendingTimeoutCb (w : World) : Steady c w (pendingTimeoutCb s w) :=
  (setPending w _ _).trans (freePending c s true _)

end Slots

/-! ## Reload -/

variable (c)

theorem reconcileLink (w : World) (i : Nat) : Steady c w (reconcileLink c w i) := by
  simp only [Cc2obp.reconcileLink]
  split
  · split
    · have active : Steady c w (w.setLink i { w.links i with active := true }) := setSoft rfl rfl rfl
      exact active.trans (startOutboundConnect c i _)
    · split
      · have off : Steady c w ((w.onLoop (evTimerCancel (w.links i).reconnectTimer)).setLink i
            { w.links i with active := false, reconnectTimer := none }) := (onLoop w _).trans (setSoft rfl rfl rfl)
        split
        · exact off.trans (teardown c i _)
        · exact off
      · exact refl w
  · have switched : Steady c w (w.setLink i { w.links i with active := (w.cfg.linkAt i).enabled }) := setSoft rfl rfl rfl
    split
    · exact switched.trans (teardown c i _)
    · exact switched

theorem reconcile (w : World) : Steady c w (ccccMuxReconcile c w) :=
  List.foldl_turns (Cc2obp.reconcileLink c) (fun _ v => Steady c w v) (fun i _ v before => before.trans (reconcileLink c v i))
    _ _ (refl w)

end Steady

/-! ## What is not steady -/

/-- A connection that succeeds has its link ask its remote, as soon as a sync source is found for it. -/
theorem connected_links (c : Ctx) (i : Nat) (fd : Int) (w : World) :
    let w' := onConnectWritable c i fd true w
    (∀ j, j ≠ i → w'.links j = w.links j) ∧
      if (mintSyncSource w c.draws).isSome then (w'.links i).state = .handshaking else w'.links i = w.links i := by
  have minting : mintSyncSource (w.onLoop (evDelFdWrite fd)) c.draws = mintSyncSource w c.draws := rfl
  simp only [onConnectWritable, Bool.not_true, Bool.false_eq_true, if_false, minting]
  cases mintSyncSource w c.draws with
  | none => exact ⟨fun _ _ => rfl, rfl⟩
  | some ssrc =>
    refine ⟨fun j other => ?_, ?_⟩
    · simp [tcpSend, World.emit, World.onLoop, World.setLink, other]
    · simp [tcpSend, World.emit, World.onLoop, World.setLink]

theorem connected_out (c : Ctx) (i : Nat) (fd : Int) (w : World) :
    let w' := onConnectWritable c i fd true w
    w'.voiceFd = w.voiceFd ∧ ∃ os, w'.out = w.out ++ os ∧ ∀ j, .call (.linkUp j) ∉ os := by
  simp only [onConnectWritable, Bool.not_true, Bool.false_eq_true, if_false]
  split
  · exact ⟨rfl, [], by simp, by simp⟩
  · exact ⟨rfl, [_], rfl, by simp⟩

/-- It brings no link UP. -/
theorem connected_ups (c : Ctx) (i : Nat) (fd : Int) (w : World) :
    let w' := onConnectWritable c i fd true w
    ∃ os, w'.out = w.out ++ os ∧ ∀ j, (w'.links j).state = .up → UpSince c.now j os (w.links j) (w'.links j) := by
  intro w'
  obtain ⟨others, own⟩ := connected_links c i fd w
  obtain ⟨-, os, out, silent⟩ := connected_out c i fd w
  refine ⟨os, out, fun j up => ?_⟩
  have same : w'.links j = w.links j := by
    by_cases here : j = i
    · subst here
      split at own
      · have waits : (w'.links j).state = .handshaking := own
        rw [up] at waits
        cases waits
      · exact own
    · exact others j here
  rw [same] at up ⊢
  exact .carried (silent j) up rfl rfl

/-- A datagram that is a keepalive with a sync source, from an address. -/
structure KeepaliveFrom (ssrc : BitVec 32) (ip : List Byte) (datagram srcIp : List Byte) : Prop where
  length : (datagram.take 256).length = ccccKeepaliveLen
  kind : (datagram.take 256).getD 1 0 &&& 0x7F = ccccRtpPtKeepalive
  source : rdAt32 (datagram.take 256) 8 = ssrc
  sender : srcIp = ip

theorem datagramLink_known {w : World} {buf srcIp : List Byte} {i : Nat}
    (known : findLinkBySsrc w (w.links i).syncSource = some i) (source : rdAt32 buf 8 = (w.links i).syncSource)
    (sender : srcIp = (w.cfg.linkAt i).ccRemoteIp) : datagramLink w buf srcIp = some i := by
  simp [datagramLink, source, known, sender]

theorem datagramLink_holder {w : World} {buf srcIp : List Byte} {i : Nat} (found : datagramLink w buf srcIp = some i) :
    rdAt32 buf 8 = (w.links i).syncSource ∧ srcIp = (w.cfg.linkAt i).ccRemoteIp := by
  unfold datagramLink at found
  split at found
  · cases found
  next holder here =>
    split at found
    · cases found
    next sender =>
      obtain rfl : holder = i := Option.some.inj found
      have holds := List.find?_some here
      simp only [Bool.and_eq_true, beq_iff_eq] at holds
      exact ⟨holds.2.symm, not_not.mp sender⟩

/-- Whether a datagram at the voice socket is the keepalive of a link, which then counts as heard. -/
theorem voice_heard (c : Ctx) (datagram srcIp : List Byte) (srcPort : Int) (w : World) {i : Nat}
    (known : findLinkBySsrc w (w.links i).syncSource = some i) :
    let heard := ((onVoiceReadable c datagram srcIp srcPort w).links i).lastKeepaliveRecv
    let keepalive := KeepaliveFrom (w.links i).syncSource (w.cfg.linkAt i).ccRemoteIp datagram srcIp
    (keepalive → heard = c.now) ∧ (¬keepalive → heard = (w.links i).lastKeepaliveRecv) := by
  intro heard keepalive
  constructor
  · intro is
    have long : ¬(datagram.take 256).length < 2 := by
      rw [is.length]
      decide
    have here := datagramLink_known known is.source is.sender
    simp only [heard, onVoiceReadable]
    rw [if_neg long, if_pos ⟨is.length, is.kind⟩, here]
    simp [World.emit, World.setLink]
  · intro other
    simp only [heard, onVoiceReadable]
    split
    · rfl
    split
    next isKeepalive =>
      split
      · rfl
      next idx found =>
        -- it is another link's
        have apart : i ≠ idx := by
          rintro rfl
          obtain ⟨source, sender⟩ := datagramLink_holder found
          exact other ⟨isKeepalive.1, isKeepalive.2, source, sender⟩
        simp [World.emit, World.setLink, apart]
    · split
      · split <;> rfl
      · rfl

theorem voice_out (c : Ctx) (datagram srcIp : List Byte) (srcPort : Int) (w : World) :
    let w' := onVoiceReadable c datagram srcIp srcPort w
    w'.voiceFd = w.voiceFd ∧ ∃ os, w'.out = w.out ++ os ∧ ∀ j, .call (.linkUp j) ∉ os := by
  simp only [onVoiceReadable]
  split
  · exact ⟨rfl, [], by simp, by simp⟩
  split
  · split
    · exact ⟨rfl, [], by simp, by simp⟩
    · exact ⟨rfl, [_], rfl, by simp⟩
  · split
    · split
      · exact ⟨rfl, [], by simp, by simp⟩
      · exact ⟨rfl, [_], rfl, by simp⟩
    · exact ⟨rfl, [], by simp, by simp⟩

end Cc2obp
