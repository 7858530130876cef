import Cc2obp.Translate.Local

/-!
# What an event does to a link

Every event does one of ten things to the record and the calls of a link. Each
constructor names the event that causes it and the guards it passed; the
invariants of whole runs are case analyses over these.
-/
namespace Cc2obp

/-- A group frame that reaches the handlers of a link. -/
def Admitted (env : Env) (i peer : Nat) (body : DmrdBody) : Prop :=
  outOfScope body.flags = false ∧ routeObp env.cfg peer body.dst = some i ∧
    (env.cfg.linkAt i).enabled = true ∧ obpGateOpen env i = true

def idleTooLong (env : Env) (call : CallState) : Prop :=
  env.now - call.lastActivity > callIdleTimeoutS

/-- A cc-origin call after one more voice burst. -/
def CallState.ccBurst (call : CallState) (now : Rat) : CallState :=
  { call with lastActivity := now, obpSeqPos := call.obpSeqPos + 1 }

/-- An obp-origin call after one more voice burst. -/
def CallState.obpBurst (call : CallState) (now : Rat) : CallState :=
  { call with
    lastActivity := now, ccSentFirst := true, ccSeq := slotIndex call.callStartTime now }

/-- The voice payload of a cc-origin burst. -/
def CallState.ccPayload (call : CallState) (ambe21 : Bytes 21) : Bytes 33 :=
  buildVoiceBurst (ccccAmbeUnpack21 ambe21) (buildEmbed call (call.obpSeqPos % 6))

/-- The packet count a B-off reports. -/
def CallState.total (call : CallState) : Int := if call.ccSentFirst then call.ccSeq + 1 else 0

/-- What ends a cc-origin call of link `i`. -/
inductive CcEnding (env : Env) (i : Nat) (call : CallState) : TrEvent → Prop where
  | boff (lost total : Int) : CcEnding env i call (.ccccBoff i lost total)
  | linkDown : CcEnding env i call (.ccccLinkDown i)
  | idle (late : idleTooLong env call) : CcEnding env i call .tick

/-- What ends an obp-origin call of link `i` with a B-off. -/
inductive ObpEnding (env : Env) (i : Nat) (call : CallState) : TrEvent → Prop where
  | voiceTerm (peer : Nat) (body : DmrdBody) (admitted : Admitted env i peer body)
      (notHead : isHead body.flags = false) (term : isTerm body.flags = true)
      (own : body.stream = call.streamId) : ObpEnding env i call (.obpDmrdReceived peer body)
  | idle (late : idleTooLong env call) : ObpEnding env i call .tick

/-- The B-on of a frame. -/
def bonOf (lcfg : LinkConfig) (i : Nat) (body : DmrdBody) : TrOut :=
  .ccccSendBon i body.src body.netid lcfg.ccLid lcfg.tgid ccccCallTypeGroup

inductive LinkStep (env : Env) (i : Nat) : TrEvent → LinkRuntime → List TrOut → LinkRuntime → Prop
  /-- Nothing but the drop flag changes. -/
  | quiet {ev lr} (dropped : Bool) : LinkStep env i ev lr [] ⟨lr.hasCall, lr.call, dropped⟩
  | ccStart {lr peer} (dropped : Bool) (radioId peerId : BitVec 32) (srcLid tgid : Int)
      (callType : Byte) (rand : Bytes 4)
      (resolved : (env.cfg.linkAt i).openbridgeIdx = some peer)
      (gate : obpGateOpen env i = true) (idleCc : lr.inCall .cc = false)
      (idleObp : lr.inCall .obp = false) :
      LinkStep env i (.ccccBon i radioId peerId srcLid tgid callType rand) lr
        [.obpSendDmrd i peer (fillDmrd (env.cfg.linkAt i)
          (ccCall env.now (env.cfg.linkAt i).tgid radioId peerId rand) 0 vheadFlags
          (buildHeadTermPayload (buildLc (env.cfg.linkAt i).tgid radioId) false))]
        ⟨true, ccCall env.now (env.cfg.linkAt i).tgid radioId peerId rand, dropped⟩
  | ccBurst {lr peer} (dropped : Bool) (seq : BitVec 16) (timestamp : BitVec 32) (marker : Bool)
      (ambe21 : Bytes 21) (resolved : (env.cfg.linkAt i).openbridgeIdx = some peer)
      (crossConnect : (env.cfg.linkAt i).crossConnectActive = true)
      (active : lr.inCall .cc = true) :
      LinkStep env i (.ccccVoice i seq timestamp marker ambe21) lr
        [.obpSendDmrd i peer (fillDmrd (env.cfg.linkAt i) lr.call 0
          (burstFlags (lr.call.obpSeqPos % 6)) (lr.call.ccPayload ambe21))]
        ⟨lr.hasCall, lr.call.ccBurst env.now, dropped⟩
  | ccEnd {ev lr peer} (dropped : Bool) (resolved : (env.cfg.linkAt i).openbridgeIdx = some peer)
      (active : lr.inCall .cc = true) (ending : CcEnding env i lr.call ev) :
      LinkStep env i ev lr
        [.obpSendDmrd i peer (fillDmrd (env.cfg.linkAt i) lr.call 0 vtermFlags
          (buildHeadTermPayload lr.call.lc true))]
        ⟨false, lr.call, dropped⟩
  | obpStart {lr} (dropped : Bool) (peer : Nat) (body : DmrdBody) (admitted : Admitted env i peer body)
      (head : isHead body.flags = true) (idleCc : lr.inCall .cc = false)
      (idleObp : lr.inCall .obp = false) :
      LinkStep env i (.obpDmrdReceived peer body) lr [bonOf (env.cfg.linkAt i) i body]
        ⟨true, obpCall env.now body.netid body.src body.stream, dropped⟩
  | obpOrphan {lr} (dropped : Bool) (peer : Nat) (body : DmrdBody)
      (admitted : Admitted env i peer body) (head : isHead body.flags = true)
      (active : lr.inCall .obp = true) (other : body.stream ≠ lr.call.streamId) :
      LinkStep env i (.obpDmrdReceived peer body) lr
        [.ccccSendBoff i 0 lr.call.total 0, bonOf (env.cfg.linkAt i) i body]
        ⟨true, obpCall env.now body.netid body.src body.stream, dropped⟩
  | obpBurst {lr} (dropped : Bool) (peer : Nat) (body : DmrdBody)
      (admitted : Admitted env i peer body)
      (notHead : isHead body.flags = false) (notTerm : isTerm body.flags = false)
      (active : lr.inCall .obp = true) (own : body.stream = lr.call.streamId) :
      LinkStep env i (.obpDmrdReceived peer body) lr
        [.ccccSendVoice i (BitVec.ofInt 16 (slotIndex lr.call.callStartTime env.now))
          (ccccRtpTsStep * u32 (slotIndex lr.call.callStartTime env.now)) (!lr.call.ccSentFirst)
          (ccccAmbePack21 (extractAmbe body.payload))]
        ⟨lr.hasCall, lr.call.obpBurst env.now, dropped⟩
  | obpEnd {ev lr} (dropped : Bool) (active : lr.inCall .obp = true)
      (ending : ObpEnding env i lr.call ev) :
      LinkStep env i ev lr [.ccccSendBoff i 0 lr.call.total 0] ⟨false, lr.call, dropped⟩
  /-- The link went down without a cc-origin call. -/
  | cleared {lr} (dropped : Bool) (idleCc : lr.inCall .cc = false) :
      LinkStep env i (.ccccLinkDown i) lr [] ⟨false, lr.call, dropped⟩

theorem LinkStep.same {env : Env} {i : Nat} {ev : TrEvent} {lr : LinkRuntime} :
    LinkStep env i ev lr [] lr := by
  have step : LinkStep env i ev lr [] ⟨lr.hasCall, lr.call, lr.cxDropLogged⟩ := .quiet _
  exact step

/-- The drop flag of the record before plays no part in a step. -/
theorem LinkStep.of_dropped {env : Env} {i : Nat} {ev : TrEvent} {lr lr' : LinkRuntime}
    {out : List TrOut} {dropped : Bool}
    (step : LinkStep env i ev ⟨lr.hasCall, lr.call, dropped⟩ out lr') : LinkStep env i ev lr out lr' := by
  cases step with
  | quiet d => exact .quiet d
  | ccStart d _ _ _ _ _ _ resolved gate idleCc idleObp => exact .ccStart d _ _ _ _ _ _ resolved gate idleCc idleObp
  | ccBurst d _ _ _ _ resolved crossConnect active => exact .ccBurst d _ _ _ _ resolved crossConnect active
  | ccEnd d resolved active ending => exact .ccEnd d resolved active ending
  | obpStart d _ _ admitted head idleCc idleObp => exact .obpStart d _ _ admitted head idleCc idleObp
  | obpOrphan d _ _ admitted head active other => exact .obpOrphan d _ _ admitted head active other
  | obpBurst d _ _ admitted notHead notTerm active own =>
    exact .obpBurst d _ _ admitted notHead notTerm active own
  | obpEnd d active ending => exact .obpEnd d active ending
  | cleared d idleCc => exact .cleared d idleCc

section Handlers
variable (env : Env) (i : Nat) (tr : Translator)

theorem sendDmrd_link (flags : Byte) (payload33 : Bytes 33) (k : Nat) :
    (sendDmrd env i flags payload33 tr).1.link k = tr.link k := by
  cases resolved : (env.cfg.linkAt i).openbridgeIdx with
  | none => rw [sendDmrd_none env i flags payload33 resolved]
  | some peer => rw [sendDmrd_some env i flags payload33 resolved]

theorem sendDmrd_out (flags : Byte) (payload33 : Bytes 33) {peer : Nat}
    (resolved : (env.cfg.linkAt i).openbridgeIdx = some peer) :
    linkOut i (sendDmrd env i flags payload33 tr).2 =
      [.obpSendDmrd i peer (fillDmrd (env.cfg.linkAt i) (tr.link i).call 0 flags payload33)] := by
  simp [sendDmrd_some env i flags payload33 resolved, linkOut, TrOut.link, TrOut.eraseSeq, fillDmrd]

theorem gate_resolved (gate : obpGateOpen env i = true) :
    ∃ peer, (env.cfg.linkAt i).openbridgeIdx = some peer := by
  simp only [obpGateOpen, Bool.and_eq_true, Option.any_eq_true] at gate
  obtain ⟨-, peer, resolved, -⟩ := gate
  exact ⟨peer, resolved⟩

/-- The gate was open at the B-on: every cc-origin call has a resolved peer. -/
def Resolved (cfg : Config) (tr : Translator) : Prop :=
  ∀ i, (tr.link i).inCall .cc = true → (cfg.linkAt i).openbridgeIdx ≠ none

variable {env} {i} {tr}

theorem endCcOriginCall_step {ev : TrEvent} (resolved : Resolved env.cfg tr)
    (ending : (tr.link i).inCall .cc = true → CcEnding env i (tr.link i).call ev) :
    LinkStep env i ev (tr.link i) (linkOut i (endCcOriginCall env i tr).2)
      ((endCcOriginCall env i tr).1.link i) := by
  unfold endCcOriginCall
  split
  next active =>
    obtain ⟨peer, known⟩ := Option.ne_none_iff_exists'.mp (resolved i active)
    simp only [clearCall, setLink_self, sendObpVoiceTerm, sendDmrd_link,
      sendDmrd_out env i tr _ _ known]
    exact LinkStep.ccEnd _ known active (ending active)
  next => exact LinkStep.same

theorem endObpOriginCall_active (active : (tr.link i).inCall .obp = true) :
    endObpOriginCall i tr = (clearCall i tr, [.ccccSendBoff i 0 (tr.link i).call.total 0]) := by
  simp [endObpOriginCall, active, CallState.total]

theorem endObpOriginCall_step {ev : TrEvent}
    (ending : (tr.link i).inCall .obp = true → ObpEnding env i (tr.link i).call ev) :
    LinkStep env i ev (tr.link i) (linkOut i (endObpOriginCall i tr).2)
      ((endObpOriginCall i tr).1.link i) := by
  cases active : (tr.link i).inCall .obp with
  | true =>
    rw [endObpOriginCall_active active]
    simp only [linkOut_boff, linkOut_nil, clearCall, setLink_self]
    exact LinkStep.obpEnd _ active (ending active)
  | false =>
    simp only [endObpOriginCall, active]
    exact LinkStep.same

theorem handleObpVoiceHead_step {peer : Nat} {body : DmrdBody} (admitted : Admitted env i peer body)
    (head : isHead body.flags = true) :
    LinkStep env i (.obpDmrdReceived peer body) (tr.link i)
      (linkOut i (handleObpVoiceHead env i body.netid body.src body.stream tr).2)
      ((handleObpVoiceHead env i body.netid body.src body.stream tr).1.link i) := by
  cases active : (tr.link i).inCall .obp with
  | true =>
    simp only [handleObpVoiceHead, active, if_true]
    split
    next => exact LinkStep.same
    next other =>
      rw [endObpOriginCall_active active]
      simp only [startObpOriginCall, setLink_self, List.cons_append, List.nil_append, clearCall,
        linkOut_boff, linkOut_bon, linkOut_nil]
      exact LinkStep.obpOrphan _ peer body admitted head active other
  | false =>
    simp only [handleObpVoiceHead, active, Bool.false_eq_true, if_false]
    split
    next => exact LinkStep.same
    next idleCc =>
      simp only [startObpOriginCall, setLink_self, linkOut_bon, linkOut_nil]
      exact LinkStep.obpStart _ peer body admitted head (by simpa using idleCc) active

theorem handleObpVoiceTerm_step {peer : Nat} {body : DmrdBody} (admitted : Admitted env i peer body)
    (notHead : isHead body.flags = false) (term : isTerm body.flags = true) :
    LinkStep env i (.obpDmrdReceived peer body) (tr.link i)
      (linkOut i (handleObpVoiceTerm i body.stream tr).2)
      ((handleObpVoiceTerm i body.stream tr).1.link i) := by
  simp only [handleObpVoiceTerm]
  split
  next active =>
    split
    next own => exact endObpOriginCall_step fun _ => .voiceTerm peer body admitted notHead term own
    next => exact LinkStep.same
  next => exact LinkStep.same

theorem handleObpVoiceBurst_step {peer : Nat} {body : DmrdBody}
    (admitted : Admitted env i peer body) (notHead : isHead body.flags = false)
    (notTerm : isTerm body.flags = false) :
    LinkStep env i (.obpDmrdReceived peer body) (tr.link i)
      (linkOut i (handleObpVoiceBurst env i body.payload body.stream tr).2)
      ((handleObpVoiceBurst env i body.payload body.stream tr).1.link i) := by
  simp only [handleObpVoiceBurst]
  split
  next active =>
    split
    next own =>
      simp only [setLink_self, linkOut_voice, linkOut_nil]
      exact LinkStep.obpBurst _ peer body admitted notHead notTerm active own
    next => exact LinkStep.same
  next => exact LinkStep.same

theorem LinkStep.of_newAttempt {ev : TrEvent} {out : List TrOut} {lr' : LinkRuntime}
    (step : LinkStep env i ev ((newAttempt i tr).link i) out lr') :
    LinkStep env i ev (tr.link i) out lr' := by
  rw [newAttempt, setLink_self] at step
  exact step.of_dropped

theorem obpFrameOnLink_step {peer : Nat} {body : DmrdBody}
    (scope : outOfScope body.flags = false) (routed : routeObp env.cfg peer body.dst = some i)
    (enabled : (env.cfg.linkAt i).enabled = true) :
    LinkStep env i (.obpDmrdReceived peer body) (tr.link i)
      (linkOut i (obpFrameOnLink env i body tr).2) ((obpFrameOnLink env i body tr).1.link i) := by
  cases gate : obpGateOpen env i with
  | false =>
    cases head : isHead body.flags <;>
      simp only [obpFrameOnLink, gate, head, Bool.not_false, if_true, logDrop, setLink_self,
        Bool.false_eq_true, if_false]
    · exact LinkStep.quiet _
    · exact LinkStep.of_newAttempt (LinkStep.quiet _)
  | true =>
    have admitted : Admitted env i peer body := ⟨scope, routed, enabled, gate⟩
    cases head : isHead body.flags with
    | true =>
      simp only [obpFrameOnLink, gate, head, Bool.not_true, Bool.false_eq_true, if_false, if_true]
      exact LinkStep.of_newAttempt (handleObpVoiceHead_step admitted head)
    | false =>
      simp only [obpFrameOnLink, gate, head, Bool.not_true, Bool.false_eq_true, if_false]
      cases term : isTerm body.flags with
      | true => exact handleObpVoiceTerm_step admitted head term
      | false => exact handleObpVoiceBurst_step admitted head term

theorem translatorCcccBon_step (radioId peerId : BitVec 32) (srcLid tgid : Int) (callType : Byte)
    (rand : Bytes 4) :
    LinkStep env i (.ccccBon i radioId peerId srcLid tgid callType rand) (tr.link i)
      (linkOut i (translatorCcccBon env i radioId peerId srcLid tgid callType rand tr).2)
      ((translatorCcccBon env i radioId peerId srcLid tgid callType rand tr).1.link i) := by
  simp only [translatorCcccBon]
  split
  · exact LinkStep.same
  refine LinkStep.of_newAttempt ?_
  split
  · simp only [logDrop, setLink_self]
    exact LinkStep.quiet _
  next closed =>
    have gate : obpGateOpen env i = true := by simpa using closed
    split
    · exact LinkStep.same
    next idleCc =>
      split
      · exact LinkStep.same
      next idleObp =>
        obtain ⟨peer, resolved⟩ := gate_resolved env i gate
        simp only [startCcOriginCall, sendObpVoiceHead, sendDmrd_link, setLink_self,
          sendDmrd_out env i _ _ _ resolved]
        exact LinkStep.ccStart _ _ _ _ _ _ _ resolved gate (by simpa using idleCc)
          (by simpa using idleObp)

theorem translatorCcccVoice_step (resolved : Resolved env.cfg tr) (seq : BitVec 16)
    (timestamp : BitVec 32) (marker : Bool) (ambe21 : Bytes 21) :
    LinkStep env i (.ccccVoice i seq timestamp marker ambe21) (tr.link i)
      (linkOut i (translatorCcccVoice env i seq timestamp marker ambe21 tr).2)
      ((translatorCcccVoice env i seq timestamp marker ambe21 tr).1.link i) := by
  simp only [translatorCcccVoice]
  split
  · exact LinkStep.same
  next idle =>
    have active : (tr.link i).inCall .cc = true := by simpa using idle
    split
    · exact LinkStep.same
    next crossed =>
      obtain ⟨peer, known⟩ := Option.ne_none_iff_exists'.mp (resolved i active)
      simp only [sendDmrd_link, setLink_self, sendDmrd_out env i _ _ _ known]
      exact LinkStep.ccBurst _ _ _ _ ambe21 known (by simpa using crossed) active

theorem translatorCcccLinkDown_step (resolved : Resolved env.cfg tr) :
    LinkStep env i (.ccccLinkDown i) (tr.link i) (linkOut i (translatorCcccLinkDown env i tr).2)
      ((translatorCcccLinkDown env i tr).1.link i) := by
  simp only [translatorCcccLinkDown]
  split
  next active =>
    obtain ⟨peer, known⟩ := Option.ne_none_iff_exists'.mp (resolved i active)
    simp only [sendObpVoiceTerm, sendDmrd_link, setLink_self, sendDmrd_out env i _ _ _ known]
    exact LinkStep.ccEnd _ known active .linkDown
  next idle =>
    simp only [setLink_self, linkOut_nil]
    exact LinkStep.cleared _ (by simpa using idle)

theorem tickLink_step (resolved : Resolved env.cfg tr) :
    LinkStep env i .tick (tr.link i) (linkOut i (tickLink env i tr).2)
      ((tickLink env i tr).1.link i) := by
  simp only [tickLink]
  split
  next due =>
    have late : idleTooLong env (tr.link i).call := by
      simp only [Bool.and_eq_true, decide_eq_true_eq] at due
      exact due.2
    split
    · exact endObpOriginCall_step fun _ => .idle late
    · exact endCcOriginCall_step resolved fun _ => .idle late
  next => exact LinkStep.same

/-- Every event does one of the ten things to every link. -/
theorem translatorStep_link (env : Env) (ev : TrEvent) (resolved : Resolved env.cfg tr) (k : Nat) :
    LinkStep env k ev (tr.link k) (linkOut k (translatorStep env ev tr).2)
      ((translatorStep env ev tr).1.link k) := by
  by_cases tick : ev = .tick
  · subst tick
    -- the tick comes to every link once
    have turn := tickLoop_view env k _ (List.nodup_range (n := env.cfg.nLink)) (tr, [])
    simp only [translatorStep, translatorTick_eq]
    split at turn
    · rw [turn.1, turn.2]
      exact tickLink_step resolved
    · rw [turn.1, turn.2]
      exact LinkStep.same
  · cases addressed : addressee env.cfg ev with
    | none =>
      rw [translatorStep_unrouted env ev tr addressed tick]
      exact LinkStep.same
    | some i =>
      have own := translatorStep_local env ev i addressed
      -- an event is about one link, the others are left alone
      by_cases foreign : k = i
      · subst foreign
        cases ev with
        | ccccBon link radioId peerId srcLid tgid callType rand =>
          cases addressed
          exact translatorCcccBon_step radioId peerId srcLid tgid callType rand
        | ccccVoice link seq timestamp marker ambe21 =>
          cases addressed
          exact translatorCcccVoice_step resolved seq timestamp marker ambe21
        | ccccBoff link lost total =>
          cases addressed
          exact endCcOriginCall_step resolved fun _ => .boff lost total
        | ccccLinkUp link =>
          cases addressed
          exact LinkStep.of_newAttempt LinkStep.same
        | ccccLinkDown link =>
          cases addressed
          exact translatorCcccLinkDown_step resolved
        | obpDmrdReceived peer body =>
          have routed : routeObp env.cfg peer body.dst = some k := addressed
          simp only [translatorStep, translatorObpDmrdReceived, routed]
          split
          · exact LinkStep.same
          next scope =>
            split
            · exact LinkStep.same
            next enabled =>
              exact obpFrameOnLink_step (by simpa using scope) routed (by simpa using enabled)
        | tick => exact absurd rfl tick
      · rw [own.other tr k foreign, own.linkOut_other tr k foreign]
        exact LinkStep.same

end Handlers

/-- A step keeps cc-origin calls on links with a resolved peer. -/
theorem LinkStep.resolved {env : Env} {i : Nat} {ev : TrEvent} {lr lr' : LinkRuntime}
    {out : List TrOut} (step : LinkStep env i ev lr out lr')
    (before : lr.inCall .cc = true → (env.cfg.linkAt i).openbridgeIdx ≠ none)
    (after : lr'.inCall .cc = true) : (env.cfg.linkAt i).openbridgeIdx ≠ none := by
  cases step with
  | quiet => exact before after
  | ccStart _ _ _ _ _ _ _ known => simp [known]
  | ccBurst _ _ _ _ _ known => simp [known]
  | ccEnd => simp [LinkRuntime.inCall] at after
  | obpStart => simp [LinkRuntime.inCall, obpCall] at after
  | obpOrphan => simp [LinkRuntime.inCall, obpCall] at after
  | obpBurst => exact before after
  | obpEnd => simp [LinkRuntime.inCall] at after
  | cleared => simp [LinkRuntime.inCall] at after

theorem translatorStep_resolved (env : Env) (ev : TrEvent) (tr : Translator)
    (resolved : Resolved env.cfg tr) : Resolved env.cfg (translatorStep env ev tr).1 :=
  fun k => (translatorStep_link env ev resolved k).resolved (resolved k)

/-! ## Admitted frames -/

section Admitted
variable {env : Env} {i peer : Nat} {body : DmrdBody}

theorem Admitted.frame (admitted : Admitted env i peer body) (tr : Translator) :
    translatorStep env (.obpDmrdReceived peer body) tr = obpFrameOnLink env i body tr := by
  obtain ⟨scope, routed, enabled, -⟩ := admitted
  simp [translatorStep, translatorObpDmrdReceived, scope, routed, enabled]

theorem Admitted.head (admitted : Admitted env i peer body) (head : isHead body.flags = true)
    (tr : Translator) : translatorStep env (.obpDmrdReceived peer body) tr =
      handleObpVoiceHead env i body.netid body.src body.stream (newAttempt i tr) := by
  simp [admitted.frame, obpFrameOnLink, admitted.2.2.2, head]

theorem Admitted.term (admitted : Admitted env i peer body) (notHead : isHead body.flags = false)
    (term : isTerm body.flags = true) (tr : Translator) :
    translatorStep env (.obpDmrdReceived peer body) tr = handleObpVoiceTerm i body.stream tr := by
  simp [admitted.frame, obpFrameOnLink, admitted.2.2.2, notHead, term]

theorem Admitted.burst (admitted : Admitted env i peer body) (notHead : isHead body.flags = false)
    (notTerm : isTerm body.flags = false) (tr : Translator) :
    translatorStep env (.obpDmrdReceived peer body) tr =
      handleObpVoiceBurst env i body.payload body.stream tr := by
  simp [admitted.frame, obpFrameOnLink, admitted.2.2.2, notHead, notTerm]

end Admitted

end Cc2obp
