import Cc2obp.Cccc.Live

/-!
# Work for one link

The bytes of a control connection, and those of a connection whose Question is
complete, change one link's record and one slot and put out what is this link's.
Bytes before the end of the Question change the slot alone.
-/
namespace Cc2obp

open World Lines

/-! ## Whose an item is -/

/-- The link a call is about; a DMRD frame is not about one before it is routed. -/
def TrCall.link : TrCall → Option Nat
  | .linkUp link => some link
  | .linkDown link => some link
  | .bon link .. => some link
  | .boff link .. => some link
  | .voice link .. => some link
  | .dmrd .. => none

def UdpMsg.link : UdpMsg → Option Nat
  | .keepalive link => some link
  | .reflect link => some link
  | .voice link .. => some link
  | .dmrd link _ => some link
  | .trial => none

/-- The link an item is written or called for. -/
def Out.link : Out → Option Nat
  | .call c => c.link
  | .tcp link .. => some link
  | .udp _ msg .. => msg.link

/-- One world comes from another by work for the link `m`, or for none, on the slot `s`. -/
structure WorksFor (m : Option Nat) (s : Nat) (w w' : World) : Prop where
  cfg : w'.cfg = w.cfg
  voiceFd : w'.voiceFd = w.voiceFd
  trialFd : w'.trialFd = w.trialFd
  listenFd : w'.listenFd = w.listenFd
  obpFd : w'.obpFd = w.obpFd
  userCtr : w'.userCtr = w.userCtr
  links : ∀ k, m ≠ some k → w'.links k = w.links k
  slots : ∀ t, t ≠ s → w'.pending t = w.pending t
  outs : ∃ os, w'.out = w.out ++ os ∧ ∀ o ∈ os, ∃ i, m = some i ∧ o.link = some i

namespace WorksFor

variable {m : Option Nat} {s : Nat} {w w' w'' : World}

theorem refl (w : World) : WorksFor m s w w :=
  ⟨rfl, rfl, rfl, rfl, rfl, rfl, fun _ _ => rfl, fun _ _ => rfl, [], by simp, by simp⟩

theorem trans (first : WorksFor m s w w') (second : WorksFor m s w' w'') : WorksFor m s w w'' := by
  obtain ⟨os, out, mine⟩ := first.outs
  obtain ⟨os', out', mine'⟩ := second.outs
  constructor
  case cfg => exact second.cfg.trans first.cfg
  case voiceFd => exact second.voiceFd.trans first.voiceFd
  case trialFd => exact second.trialFd.trans first.trialFd
  case listenFd => exact second.listenFd.trans first.listenFd
  case obpFd => exact second.obpFd.trans first.obpFd
  case userCtr => exact second.userCtr.trans first.userCtr
  case links => exact fun k other => (second.links k other).trans (first.links k other)
  case slots => exact fun t other => (second.slots t other).trans (first.slots t other)
  case outs =>
    refine ⟨os ++ os', by rw [out', out, List.append_assoc], fun o member => ?_⟩
    rcases List.mem_append.mp member with early | late
    · exact mine o early
    · exact mine' o late

theorem onLoop (w : World) (f : EvLoop FdCb TimerCb → EvLoop FdCb TimerCb) : WorksFor m s w (w.onLoop f) :=
  ⟨rfl, rfl, rfl, rfl, rfl, rfl, fun _ _ => rfl, fun _ _ => rfl, [], by simp [World.onLoop], by simp⟩

theorem closeFd (w : World) (fd : Int) : WorksFor m s w (w.closeFd fd) :=
  ⟨rfl, rfl, rfl, rfl, rfl, rfl, fun _ _ => rfl, fun _ _ => rfl, [], by simp [World.closeFd], by simp⟩

theorem setPending (w : World) (p : PendingConn) : WorksFor m s w (w.setPending s p) :=
  ⟨rfl, rfl, rfl, rfl, rfl, rfl, fun _ _ => rfl, fun t other => by simp [World.setPending, other], [],
    by simp [World.setPending], by simp⟩

theorem setLink (w : World) (i : Nat) (lk : CcLink) : WorksFor (some i) s w (w.setLink i lk) :=
  ⟨rfl, rfl, rfl, rfl, rfl, rfl, fun k other => Function.update_of_ne (fun same => other (by rw [same])) _ _,
    fun _ _ => rfl, [], by simp [World.setLink], by simp⟩

theorem emit (w : World) {i : Nat} {o : Out} (mine : o.link = some i) : WorksFor (some i) s w (w.emit o) :=
  ⟨rfl, rfl, rfl, rfl, rfl, rfl, fun _ _ => rfl, fun _ _ => rfl, [o], rfl, by simpa using mine⟩

/-- Nothing but the slot's and the link's descriptor changes hands. -/
theorem own (works : WorksFor m s w w') {h : Holder} (notSlot : h ≠ .pending s) (notLink : ∀ i, m = some i → h ≠ .link i) :
    w'.own h = w.own h := by
  cases h with
  | voice => simp [World.own, works.voiceFd]
  | trial => simp [World.own, works.trialFd]
  | listen => simp [World.own, works.listenFd]
  | obp peer => simp [World.own, works.obpFd, works.cfg]
  | pending t => simp [World.own, works.slots t fun same => notSlot (by rw [same])]
  | link k => simp [World.own, works.cfg, works.links k fun same => notLink k same rfl]

/-! ## Control connections -/

section Connections
variable (c : Ctx) (i : Nat)

theorem tcpSend (msg : TcpMsg) (bytes : List Byte) (w : World) : WorksFor (some i) s w (tcpSend w i msg bytes) :=
  emit w rfl

theorem teardown (w : World) : WorksFor (some i) s w (teardownLinkConnection c i w) := by
  rw [teardown_eq]
  refine ⟨rfl, rfl, rfl, rfl, rfl, rfl, fun k other => ?_, fun _ _ => rfl, _, rfl, fun o member => ?_⟩
  · exact Function.update_of_ne (fun same => other (by rw [same])) _ _
  · split at member
    · obtain rfl := List.mem_singleton.mp member
      exact ⟨i, rfl, rfl⟩
    · cases member

theorem armKeepalive (w : World) : WorksFor (some i) s w (armKeepalive c i w) := by
  unfold Cc2obp.armKeepalive timerAfter
  exact (onLoop w _).trans (setLink _ i _)

theorem finishOutboundHandshake (w : World) : WorksFor (some i) s w (finishOutboundHandshake c i w) := by
  simp only [Cc2obp.finishOutboundHandshake]
  have cleared : WorksFor (some i) s w (w.setLink i { w.links i with hslines := [] }) := setLink w i _
  split
  · exact cleared.trans (teardown c i _)
  · exact ((cleared.trans (setLink _ i _)).trans (armKeepalive c i _)).trans (emit _ rfl)

/-- A line's signal is the link's own. -/
theorem signalOf_link {line : List Byte} {call : TrCall} (signal : signalOf i line = some call) :
    call.link = some i := by
  unfold signalOf at signal
  split at signal
  · obtain ⟨f, -, rfl⟩ := Option.map_eq_some_iff.mp signal
    rfl
  · split at signal
    · obtain ⟨f, -, rfl⟩ := Option.map_eq_some_iff.mp signal
      rfl
    · cases signal

theorem linkOnLine (line : List Byte) (w : World) : WorksFor (some i) s w (linkOnLine c i line w) := by
  simp only [Cc2obp.linkOnLine]
  split
  · generalize gathered : (if (w.links i).hslines.length < ccccAnswerNfields then
        w.setLink i { w.links i with hslines := (w.links i).hslines ++ [line.take 255] } else w) = v
    have kept : WorksFor (some i) s w v := by
      rw [← gathered]
      split
      · exact setLink w i _
      · exact refl w
    split
    · exact kept.trans (finishOutboundHandshake c i _)
    · exact kept
  · unfold dispatchEstablishedLine
    split
    next call signal => exact emit w (signalOf_link i signal)
    · exact refl w
  · exact refl w

theorem linkFed (bytes : List Byte) (w : World) :
    WorksFor (some i) s w (feedBytes (linkBuffer i) rxbufCap (Cc2obp.linkOnLine c i) bytes w) := by
  refine feedBytes_invariant (linkBuffer i) rxbufCap _ (WorksFor (some i) s w) (fun v b before => ?_) bytes w (refl w)
  have pushed : WorksFor (some i) s w ((linkBuffer i).put (push rxbufCap ((linkBuffer i).get v) b) v) :=
    before.trans (setLink v i _)
  simp only [feedByte]
  split
  · exact (pushed.trans (linkOnLine c i _ _)).trans (setLink _ i _)
  · exact pushed

end Connections

/-! ## Pending connections -/

section Pending
variable (c : Ctx)

theorem freePending (alsoClose : Bool) (w : World) : WorksFor m s w (freePending s alsoClose w) := by
  have cancelled : WorksFor m s w (w.onLoop (evTimerCancel (w.pending s).timeoutTimer)) := onLoop w _
  simp only [Cc2obp.freePending]
  split
  · exact ((cancelled.trans (onLoop _ _)).trans (closeFd _ _)).trans (setPending _ _)
  · exact cancelled.trans (setPending _ _)

theorem takeOver (i : Nat) (w : World) : WorksFor (some i) s w (takeOver c s i w) := by
  simp only [Cc2obp.takeOver]
  generalize emptied : (if (w.links i).state ≠ .down then teardownLinkConnection c i w else w) = v
  have vacated : WorksFor (some i) s w v := by
    rw [← emptied]
    split
    · exact teardown c i w
    · exact refl w
  apply vacated.trans
  apply (setLink v i _).trans
  apply (onLoop _ _).trans
  apply (tcpSend i _ _ _).trans
  apply (armKeepalive c i _).trans
  apply (setPending _ _).trans
  apply (freePending false _).trans
  exact emit _ rfl

/-- A complete Question is work for the link it is accepted for. -/
theorem handleQuestionComplete (w : World) (accepted : ∀ i, acceptQuestion w (w.pending s) = some i → m = some i) :
    WorksFor m s w (handleQuestionComplete c s w) := by
  have stopped : ∀ w : World, WorksFor m s w ((w.onLoop (evTimerCancel (w.pending s).timeoutTimer)).setPending s
      { w.pending s with timeoutTimer := none }) := fun w => (onLoop w _).trans (setPending _ _)
  cases question : acceptQuestion w (w.pending s) with
  | none =>
    rw [handleQuestionComplete_refused c s w question]
    exact freePending true w
  | some i =>
    obtain rfl := accepted i question
    rw [handleQuestionComplete_accepted c s w question]
    exact (stopped w).trans (takeOver c i _)

/-- A Question is accepted for the same link again, if at all. -/
theorem accepts_again (works : WorksFor m s w w') (accepted : acceptQuestion w (w.pending s) = m)
    (srcIp : (w'.pending s).srcIp = (w.pending s).srcIp) (qlines : (w'.pending s).qlines = (w.pending s).qlines) :
    ∀ i, acceptQuestion w' (w'.pending s) = some i → m = some i := by
  intro i again
  cases m with
  | none =>
    -- refused, it finds all links as they were
    have links : w'.links = w.links := funext fun k => works.links k (by simp)
    rw [acceptQuestion_congr works.cfg links srcIp qlines, accepted] at again
    cases again
  | some j =>
    have first := Wf.accepted_match accepted
    have second := Wf.accepted_match again
    rw [works.cfg, srcIp, qlines, first] at second
    exact second

end Pending

end WorksFor

/-! ## The bytes of a pending connection -/

/-- The link the Question is accepted for that ends in the bytes. -/
def acceptedFor (w : World) (s : Nat) (bytes : List Byte) : Option Nat :=
  match readQuestion (w.pending s).rxbuf (w.pending s).qlines bytes with
  | .collecting _ _ => none
  | .complete _ qlines _ => acceptQuestion w { w.pending s with qlines := qlines }

/-- The link a Question names, by where it comes from and its LID. -/
structure MatchesQuestion (cfg : Config) (srcIp : List Byte) (qlines : List (List Byte)) (i : Nat) : Prop where
  inside : i < cfg.nLink
  inbound : (cfg.linkAt i).ccRole = .inbound
  enabled : (cfg.linkAt i).enabled = true
  remote : (cfg.linkAt i).ccRemoteIp = srcIp
  lid : (cfg.linkAt i).ccLid = questionLid qlines

theorem matches_of_matchInbound {cfg : Config} {srcIp : List Byte} {qlines : List (List Byte)} {i : Nat}
    (matched : matchInbound cfg srcIp (questionLid qlines) = some i) : MatchesQuestion cfg srcIp qlines i := by
  obtain ⟨inside, passes, -⟩ := List.findIdx?_eq_some_iff_getElem.mp matched
  simp only [Bool.and_eq_true, beq_iff_eq] at passes
  obtain ⟨⟨⟨inbound, enabled⟩, remote⟩, lid⟩ := passes
  have here : cfg.linkAt i = cfg.link.get ⟨i, inside⟩ := by simp [Config.linkAt, inside]
  constructor
  case inside => exact inside
  case inbound => rw [here]; exact inbound
  case enabled => rw [here]; exact enabled
  case remote => rw [here]; exact remote
  case lid => rw [here]; exact lid

/-- A Question without a match, or with another link's sync source, is refused. -/
theorem refused_of_collision {w : World} {p : PendingConn}
    (refused : matchInbound w.cfg p.srcIp (questionLid p.qlines) = none ∨
      ∃ i j, matchInbound w.cfg p.srcIp (questionLid p.qlines) = some i ∧
        findLinkBySsrc w (questionSsrc p.qlines) = some j ∧ j ≠ i) : acceptQuestion w p = none := by
  unfold acceptQuestion
  rcases refused with unmatched | ⟨i, j, matched, collider, other⟩
  · rw [unmatched]
  · simp only [matched, collider, if_pos other]

section Fed
variable (c : Ctx) (s : Nat)

/-- Accepted or refused, the slot is free afterwards. -/
theorem handleQuestionComplete_slot (w : World) : (handleQuestionComplete c s w).pending s =
    { w.pending s with inUse := false, fd := -1, timeoutTimer := none } := by
  cases question : acceptQuestion w (w.pending s) with
  | none =>
    rw [handleQuestionComplete_refused c s w question]
    simp [freePending]
  | some i =>
    rw [handleQuestionComplete_accepted c s w question, Wf.takeOver_pending c (by simp)]
    simp [Wf.handedRecord]

/-- A slot whose Question, of these lines, is complete and was for the link `m`. -/
structure Asked (m : Option Nat) (w : World) (qlines : List (List Byte)) (v : World) : Prop where
  works : WorksFor m s w v
  free : (v.pending s).inUse = false
  srcIp : (v.pending s).srcIp = (w.pending s).srcIp
  lines : (v.pending s).qlines = qlines

variable {s} {m : Option Nat} {w v : World} {qlines : List (List Byte)}

theorem Asked.buffered (asked : Asked s m w qlines v) (rx : List Byte) :
    Asked s m w qlines ((pendingBuffer s).put rx v) := by
  refine ⟨asked.works.trans (.setPending v _), ?_, ?_, ?_⟩ <;> simp only [pendingBuffer_put, setPending_self]
  exacts [asked.free, asked.srcIp, asked.lines]

/-- The Question is answered, for the first time or again. -/
theorem Asked.answered (works : WorksFor m s w v) (srcIp : (v.pending s).srcIp = (w.pending s).srcIp)
    (lines : (v.pending s).qlines = qlines)
    (accepted : acceptQuestion w { w.pending s with qlines := qlines } = m) :
    Asked s m w qlines (handleQuestionComplete c s v) := by
  have read : WorksFor m s (w.setPending s { w.pending s with qlines := qlines }) v := by
    refine { works with slots := fun t other => ?_ }
    rw [works.slots t other]
    simp [World.setPending, other]
  have accepted' : acceptQuestion (w.setPending s { w.pending s with qlines := qlines })
      ((w.setPending s { w.pending s with qlines := qlines }).pending s) = m := by
    rw [setPending_self]
    exact (acceptQuestion_congr rfl rfl rfl rfl).trans accepted
  have again := read.accepts_again accepted' (by rw [setPending_self]; exact srcIp) (by rw [setPending_self]; exact lines)
  refine ⟨works.trans (.handleQuestionComplete c v again), ?_, ?_, ?_⟩ <;> rw [handleQuestionComplete_slot]
  exacts [srcIp, lines]

/-- A line behind the Question is taken for its end. -/
theorem Asked.fed (asked : Asked s m w qlines v) (full : qlines.length = ccccQuestionNfields)
    (accepted : acceptQuestion w { w.pending s with qlines := qlines } = m) (bytes : List Byte) :
    Asked s m w qlines (feedBytes (pendingBuffer s) rxbufCap (pendingOnLine c s) bytes v) := by
  refine feedBytes_invariant _ _ _ (Asked s m w qlines) (fun u b before => ?_) bytes v asked
  have pushed := before.buffered (push rxbufCap ((pendingBuffer s).get u) b)
  simp only [feedByte]
  split
  · have short : ¬(((pendingBuffer s).put (push rxbufCap ((pendingBuffer s).get u) b) u).pending s).qlines.length <
        ccccQuestionNfields := by
      rw [pushed.lines]
      omega
    apply Asked.buffered
    simp only [pendingOnLine, if_neg short]
    rw [if_pos (by rw [pushed.lines]; exact full)]
    exact .answered c pushed.works pushed.srcIp pushed.lines accepted
  · exact pushed

/-- A chunk on a pending connection is work for the link its Question is accepted for, if it ends in the
chunk; the slot is free from then on. -/
theorem pendingFed (bytes : List Byte) (short : (w.pending s).qlines.length < ccccQuestionNfields) :
    let after := feedBytes (pendingBuffer s) rxbufCap (pendingOnLine c s) bytes w
    match readQuestion (w.pending s).rxbuf (w.pending s).qlines bytes with
    | .collecting rx qlines => after = w.setPending s { w.pending s with rxbuf := rx, qlines := qlines }
    | .complete _ qlines _ => Asked s (acceptedFor w s bytes) w qlines after := by
  have lines := readQuestion_short (w.pending s).rxbuf (w.pending s).qlines bytes short
  intro after
  have fed : after = _ := feedBytes_pending c s w bytes short
  unfold acceptedFor
  cases reading : readQuestion (w.pending s).rxbuf (w.pending s).qlines bytes with
  | collecting rx qlines =>
    rw [reading] at fed
    exact fed
  | complete rx qlines rest =>
    rw [reading] at fed lines
    rw [fed]
    apply Asked.fed c _ lines rfl
    apply Asked.buffered
    exact .answered c (.setPending w _) (by simp) (by simp) rfl

end Fed

end Cc2obp
