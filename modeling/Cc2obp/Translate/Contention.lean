import Cc2obp.Translate.Calls

/-!
# Who may touch an active call

An active call belongs to one direction, and an obp-origin call to one stream.
Events of the other direction and frames of other streams pass it by.
-/
namespace Cc2obp

/-- The event leaves the call of the link as it is and makes no call for the link. -/
structure Passes (env : Env) (i : Nat) (tr : Translator) (ev : TrEvent) : Prop where
  hasCall : ((translatorStep env ev tr).1.link i).hasCall = (tr.link i).hasCall
  call : ((translatorStep env ev tr).1.link i).call = (tr.link i).call
  silent : ∀ o ∈ (translatorStep env ev tr).2, o.link ≠ i

theorem linkOut_eq_nil {i : Nat} {out : List TrOut} : linkOut i out = [] ↔ ∀ o ∈ out, o.link ≠ i := by
  simp [linkOut, List.filter_eq_nil_iff]

/-- Every state of a run that changes toggles only has cc-origin calls on resolved links. -/
theorem reachable_resolved (cfg : Config) (es : List (Env × TrEvent))
    (toggles : ∀ e ∈ es, e.1.cfg.fixed = cfg.fixed) : Resolved cfg (Machine.run envStep {} es).1 := by
  have met := Machine.meets_of_forall envStep (fun _ e => e.1.cfg.fixed = cfg.fixed) {} es
    fun _ e member => toggles e member
  apply Machine.run_state_invariant envStep (Resolved cfg) _ {} es met
  · intro i active
    cases active
  · intro tr e before fixed
    have resolved := (resolved_of_fixed fixed tr).mpr before
    exact (resolved_of_fixed fixed _).mp (translatorStep_resolved e.1 e.2 tr resolved)

section Passing
variable {env : Env} {i : Nat} {tr : Translator} {ev : TrEvent}

/-- A step of the link that does nothing but set the drop flag. -/
def Idles (lr : LinkRuntime) (out : List TrOut) (lr' : LinkRuntime) : Prop :=
  lr'.hasCall = lr.hasCall ∧ lr'.call = lr.call ∧ out = []

theorem Idles.passes (resolved : Resolved env.cfg tr)
    (idles : ∀ out lr', LinkStep env i ev (tr.link i) out lr' → Idles (tr.link i) out lr') : Passes env i tr ev := by
  obtain ⟨hasCall, call, silent⟩ := idles _ _ (translatorStep_link env ev resolved i)
  exact ⟨hasCall, call, linkOut_eq_nil.mp silent⟩

variable {lr lr' : LinkRuntime} {out : List TrOut}

/-- No frame gets at a cc-origin call. -/
theorem LinkStep.frame_idles {peer : Nat} {body : DmrdBody} (step : LinkStep env i (.obpDmrdReceived peer body) lr out lr')
    (active : lr.inCall .cc = true) : Idles lr out lr' := by
  have notObp : ¬lr.inCall .obp = true := fun obp => by
    rw [LinkRuntime.inCall_cc_of_obp obp] at active
    cases active
  cases step with
  | quiet => exact ⟨rfl, rfl, rfl⟩
  | ccEnd _ _ _ ending => cases ending
  | obpStart _ _ _ _ _ idleCc => simp [active] at idleCc
  | obpOrphan _ _ _ _ _ obp => exact absurd obp notObp
  | obpBurst _ _ _ _ _ _ obp => exact absurd obp notObp
  | obpEnd _ obp => exact absurd obp notObp

/-- The events of the CC-CC side that carry a call. -/
inductive FromCccc : TrEvent → Prop where
  | bon (link : Nat) (radioId peerId : BitVec 32) (srcLid tgid : Int) (callType : Byte) (rand : Bytes 4) :
      FromCccc (.ccccBon link radioId peerId srcLid tgid callType rand)
  | voice (link : Nat) (seq : BitVec 16) (timestamp : BitVec 32) (marker : Bool) (ambe21 : Bytes 21) :
      FromCccc (.ccccVoice link seq timestamp marker ambe21)
  | boff (link : Nat) (lost total : Int) : FromCccc (.ccccBoff link lost total)

/-- No B-on, voice packet or B-off gets at an obp-origin call. -/
theorem LinkStep.cccc_idles (step : LinkStep env i ev lr out lr') (side : FromCccc ev)
    (active : lr.inCall .obp = true) : Idles lr out lr' := by
  have notCc := LinkRuntime.inCall_cc_of_obp active
  cases step with
  | quiet => exact ⟨rfl, rfl, rfl⟩
  | ccStart _ _ _ _ _ _ _ _ _ _ idleObp => simp [active] at idleObp
  | ccBurst _ _ _ _ _ _ _ cc => simp [notCc] at cc
  | ccEnd _ _ cc => simp [notCc] at cc
  | obpEnd _ _ ending => cases ending <;> cases side
  | _ => cases side

/-- A frame of another stream that is no VOICE_HEAD passes an obp-origin call by. -/
theorem LinkStep.stray_idles {peer : Nat} {body : DmrdBody} (step : LinkStep env i (.obpDmrdReceived peer body) lr out lr')
    (active : lr.inCall .obp = true) (other : body.stream ≠ lr.call.streamId) (notHead : isHead body.flags = false) :
    Idles lr out lr' := by
  cases step with
  | quiet => exact ⟨rfl, rfl, rfl⟩
  | ccEnd _ _ cc => simp [LinkRuntime.inCall_cc_of_obp active] at cc
  | obpStart _ _ _ _ head => simp [notHead] at head
  | obpOrphan _ _ _ _ head => simp [notHead] at head
  | obpBurst _ _ _ _ _ _ _ own => exact absurd own other
  | obpEnd _ _ ending =>
    cases ending with
    | voiceTerm _ _ _ _ _ own => exact absurd own other

/-- So does a VOICE_HEAD of the call's own stream. -/
theorem LinkStep.again_idles {peer : Nat} {body : DmrdBody} (step : LinkStep env i (.obpDmrdReceived peer body) lr out lr')
    (active : lr.inCall .obp = true) (own : body.stream = lr.call.streamId) (head : isHead body.flags = true) :
    Idles lr out lr' := by
  cases step with
  | quiet => exact ⟨rfl, rfl, rfl⟩
  | ccEnd _ _ cc => simp [LinkRuntime.inCall_cc_of_obp active] at cc
  | obpStart _ _ _ _ _ _ idleObp => simp [active] at idleObp
  | obpOrphan _ _ _ _ _ _ other => exact absurd own other
  | obpBurst _ _ _ _ notHead => simp [head] at notHead
  | obpEnd _ _ ending =>
    cases ending with
    | voiceTerm _ _ _ notHead => simp [head] at notHead

end Passing

/-- A VOICE_HEAD of the running stream leaves the whole translator alone but for the drop flag. -/
theorem repeated_head {env : Env} {i peer : Nat} {tr : Translator} {body : DmrdBody}
    (routed : routeObp env.cfg peer body.dst = some i) (active : (tr.link i).inCall .obp = true)
    (own : body.stream = (tr.link i).call.streamId) (head : isHead body.flags = true) :
    ∃ dropped, translatorStep env (.obpDmrdReceived peer body) tr =
      (tr.setLink i { tr.link i with cxDropLogged := dropped }, []) := by
  have same : tr = tr.setLink i { tr.link i with cxDropLogged := (tr.link i).cxDropLogged } := by
    simp [Translator.setLink]
  simp only [translatorStep, translatorObpDmrdReceived, routed]
  split
  · exact ⟨_, congrArg (·, []) same⟩
  split
  · exact ⟨_, congrArg (·, []) same⟩
  simp only [obpFrameOnLink, head, if_true]
  split
  · exact ⟨true, by simp [logDrop, newAttempt, Translator.setLink]⟩
  · have active' : ((newAttempt i tr).link i).inCall .obp = true := by
      rw [newAttempt, setLink_self]
      exact active
    have own' : body.stream = ((newAttempt i tr).link i).call.streamId := by
      rw [newAttempt, setLink_self]
      exact own
    refine ⟨false, ?_⟩
    simp only [handleObpVoiceHead, active', own', if_true]
    rfl

/-- In every reachable state: an active cc-origin call is passed by all frames, an active obp-origin
call by all CC-CC events, by frames of other streams that are no VOICE_HEAD and by a VOICE_HEAD of
its own stream, which changes nothing anywhere but the flag that logs a drop once. -/
theorem active_calls_isolated (cfg : Config) (es : List (Env × TrEvent))
    (toggles : ∀ e ∈ es, e.1.cfg.fixed = cfg.fixed) (env : Env) (fixed : env.cfg.fixed = cfg.fixed) (i : Nat) :
    let tr := (Machine.run envStep {} es).1
    ((tr.link i).inCall .cc = true → ∀ peer body, Passes env i tr (.obpDmrdReceived peer body)) ∧
    ((tr.link i).inCall .obp = true →
      (∀ ev, FromCccc ev → Passes env i tr ev) ∧
      (∀ peer (body : DmrdBody), body.stream ≠ (tr.link i).call.streamId → isHead body.flags = false →
        Passes env i tr (.obpDmrdReceived peer body)) ∧
      ∀ peer (body : DmrdBody), body.stream = (tr.link i).call.streamId → isHead body.flags = true →
        Passes env i tr (.obpDmrdReceived peer body) ∧
          (routeObp env.cfg peer body.dst = some i → ∃ dropped, translatorStep env (.obpDmrdReceived peer body) tr =
            (tr.setLink i { tr.link i with cxDropLogged := dropped }, []))) := by
  intro tr
  have resolved : Resolved env.cfg tr := (resolved_of_fixed fixed tr).mpr (reachable_resolved cfg es toggles)
  constructor
  · intro active peer body
    exact Idles.passes resolved fun _ _ step => step.frame_idles active
  · intro active
    refine ⟨?_, ?_, ?_⟩
    · intro ev side
      exact Idles.passes resolved fun _ _ step => step.cccc_idles side active
    · intro peer body other notHead
      exact Idles.passes resolved fun _ _ step => step.stray_idles active other notHead
    · intro peer body own head
      refine ⟨Idles.passes resolved fun _ _ step => step.again_idles active own head, ?_⟩
      intro routed
      exact repeated_head routed active own head

/-- A link with an active cc-origin call. -/
def onAir : Env := { cfg := oneLink true, obpPeerIsEnabled := fun _ => true, now := 0 }

theorem active_calls_isolated_onAir :
    let tr := (Machine.run envStep {} [(onAir, .ccccBon 0 7 8 1 9 0x47 #v[1, 2, 3, 4])]).1
    (tr.link 0).inCall .cc = true ∧ ∀ peer body, Passes onAir 0 tr (.obpDmrdReceived peer body) :=
  ⟨rfl, (active_calls_isolated (oneLink true) _ (by simp [onAir]) onAir rfl 0).1 rfl⟩

end Cc2obp
