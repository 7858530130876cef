import Cc2obp.Cccc.CallSignals
import Cc2obp.System
import Cc2obp.Translate.Tandem

/-!
# Calls across a CC-CC link

What a translator announces over CC-CC for the frames of its OpenBridge peer, and
what the translator at the other end of the link makes of the announcements. The
B-ons and B-offs alternate, and the far end's calls follow them; voice packets
may fall anywhere between.
-/
namespace Cc2obp

/-- A head that starts a call: no call from CC-CC is in its way, and it is no duplicate. -/
def startsCall (lr : LinkRuntime) (body : DmrdBody) : Bool :=
  isHead body.flags && !lr.inCall .cc && !(lr.inCall .obp && decide (body.stream = lr.call.streamId))

/-- What is neither head nor terminator is taken for a voice burst. -/
def isBurst (body : DmrdBody) : Bool := !isHead body.flags && !isTerm body.flags

/-- The caller a head names. -/
def headSrc (body : DmrdBody) : Option (BitVec 32) := if isHead body.flags then some body.src else none

/-- The radio a B-on names. -/
def TrCall.caller : TrCall → Option (BitVec 32)
  | .bon _ radio .. => some radio
  | _ => none

/-- B-ons and B-offs for a link, in turns; the two flags tell whether a call is open before and after. -/
inductive Alternates (j : Nat) : Bool → List TrCall → Bool → Prop
  | nil (open_ : Bool) : Alternates j open_ [] open_
  | bon {calls : List TrCall} {open_ : Bool} (radio peer : BitVec 32) (srcLid tgid : Int) (callType : Byte)
      (rest : Alternates j true calls open_) :
      Alternates j false (.bon j radio peer srcLid tgid callType :: calls) open_
  | boff {calls : List TrCall} {open_ : Bool} (lost total : Int) (rest : Alternates j false calls open_) :
      Alternates j true (.boff j lost total :: calls) open_

section Alternates
variable {j : Nat} {first middle last : Bool} {calls calls' : List TrCall}

theorem Alternates.append (early : Alternates j first calls middle) (late : Alternates j middle calls' last) :
    Alternates j first (calls ++ calls') last := by
  induction early with
  | nil => exact late
  | bon radio peer srcLid tgid callType _ ih => exact .bon radio peer srcLid tgid callType (ih late)
  | boff lost total _ ih => exact .boff lost total (ih late)

theorem Alternates.split (whole : Alternates j first (calls ++ calls') last) :
    ∃ middle, Alternates j first calls middle ∧ Alternates j middle calls' last := by
  induction calls generalizing first with
  | nil => exact ⟨first, .nil first, whole⟩
  | cons call calls ih =>
    cases whole with
    | bon radio peer srcLid tgid callType rest =>
      obtain ⟨middle, early, late⟩ := ih rest
      exact ⟨middle, .bon radio peer srcLid tgid callType early, late⟩
    | boff lost total rest =>
      obtain ⟨middle, early, late⟩ := ih rest
      exact ⟨middle, .boff lost total early, late⟩

end Alternates

/-! ## The near end -/

/-- The slot of the last burst is an `int`. -/
def SlotFits (lr : LinkRuntime) : Prop := lr.inCall .obp = true → InCInt lr.call.ccSeq

/-- What a frame makes of a link that has no call from CC-CC: signals, or a voice packet. -/
inductive Announces (lcfg : LinkConfig) (i : Nat) (body : DmrdBody) : Bool → Bool → List Signal → List TrOut → Bool → Prop
  | nothing (open_ : Bool) : Announces lcfg i body false open_ [] [] open_
  | starts : Announces lcfg i body true false [.bon body.src body.netid lcfg.ccLid lcfg.tgid ccccCallTypeGroup] [] true
  | orphans (total : Int) (fits : InCInt (total - 1)) : Announces lcfg i body true true
      [.boff 0 total 0, .bon body.src body.netid lcfg.ccLid lcfg.tgid ccccCallTypeGroup] [] true
  | voice (burst : isBurst body = true) (seq : BitVec 16) (timestamp : BitVec 32) (marker : Bool) :
      Announces lcfg i body false true []
        [.ccccSendVoice i seq timestamp marker (ccccAmbePack21 (extractAmbe body.payload))] true
  | ends (total : Int) (fits : InCInt (total - 1)) : Announces lcfg i body false true [.boff 0 total 0] [] false

section Near
variable {env : Env} {i j peer : Nat} {tr : Translator} {body : DmrdBody} {lcfg : LinkConfig}
  {starts open_ open' : Bool} {signals : List Signal} {voices : List TrOut}

theorem inCInt_slotIndex (start now : Rat) : InCInt (slotIndex start now) := by
  unfold InCInt slotIndex toInt32
  simp only
  split_ifs <;> omega

theorem CallState.total_fits {call : CallState} (fits : InCInt call.ccSeq) : InCInt (call.total - 1) := by
  unfold InCInt CallState.total at *
  split <;> omega

theorem Admitted.announces (admitted : Admitted env i peer body) (idleCc : (tr.link i).inCall .cc = false)
    (fits : SlotFits (tr.link i)) :
    let next := translatorStep env (.obpDmrdReceived peer body) tr
    (next.1.link i).inCall .cc = false ∧ SlotFits (next.1.link i) ∧
      ∃ signals voices, next.2 = signals.map (Signal.out i) ++ voices ∧
        Announces (env.cfg.linkAt i) i body (startsCall (tr.link i) body) ((tr.link i).inCall .obp) signals voices
          ((next.1.link i).inCall .obp) := by
  have attempt : ∀ origin, ((newAttempt i tr).link i).inCall origin = (tr.link i).inCall origin := by
    intro origin
    simp [newAttempt, LinkRuntime.inCall]
  have record : ((newAttempt i tr).link i).call = (tr.link i).call := by simp [newAttempt]
  have fresh : ∀ lr : LinkRuntime, ∀ now, SlotFits { lr with call := obpCall now body.netid body.src body.stream, hasCall := true } := by
    intro lr now _
    simp [InCInt, obpCall]
  cases head : isHead body.flags with
  | true =>
    rw [admitted.head head, handleObpVoiceHead]
    simp only [attempt, record, idleCc]
    cases active : (tr.link i).inCall .obp with
    | false =>
      -- the link is idle
      have starts : startsCall (tr.link i) body = true := by simp [startsCall, head, idleCc, active]
      simp only [Bool.false_eq_true, if_false, startObpOriginCall, setLink_self, starts]
      exact ⟨rfl, fresh _ _, [.bon body.src body.netid (env.cfg.linkAt i).ccLid (env.cfg.linkAt i).tgid ccccCallTypeGroup], [],
        rfl, .starts⟩
    | true =>
      by_cases own : body.stream = (tr.link i).call.streamId
      · have again : startsCall (tr.link i) body = false := by simp [startsCall, active, own]
        simp only [own, if_true, again, attempt, active, idleCc]
        refine ⟨trivial, fun _ => ?_, [], [], rfl, .nothing true⟩
        rw [record]
        exact fits active
      · -- the running call is closed before the new one is announced
        have active' : ((newAttempt i tr).link i).inCall .obp = true := (attempt .obp).trans active
        have starts : startsCall (tr.link i) body = true := by simp [startsCall, head, idleCc, own]
        have total : ((newAttempt i tr).link i).call.total = (tr.link i).call.total := by rw [record]
        simp only [own, if_true, if_false, endObpOriginCall_active active', starts, startObpOriginCall, setLink_self]
        refine ⟨rfl, fresh _ _, [.boff 0 ((newAttempt i tr).link i).call.total 0, .bon body.src body.netid
          (env.cfg.linkAt i).ccLid (env.cfg.linkAt i).tgid ccccCallTypeGroup], [], rfl, ?_⟩
        rw [total]
        exact .orphans _ (CallState.total_fits (fits active))
  | false =>
    have noStart : startsCall (tr.link i) body = false := by simp [startsCall, head]
    rw [noStart]
    cases term : isTerm body.flags with
    | true =>
      rw [admitted.term head term, handleObpVoiceTerm]
      cases active : (tr.link i).inCall .obp with
      | false =>
        simp only [Bool.false_eq_true, if_false, idleCc, active]
        exact ⟨trivial, fits, [], [], rfl, .nothing false⟩
      | true =>
        by_cases own : body.stream = (tr.link i).call.streamId
        · simp only [own, if_true, endObpOriginCall_active active, clearCall, setLink_self]
          refine ⟨rfl, fun active' => ?_, [.boff 0 (tr.link i).call.total 0], [], rfl,
            .ends _ (CallState.total_fits (fits active))⟩
          cases active'
        · simp only [own, if_true, if_false, idleCc, active]
          exact ⟨trivial, fits, [], [], rfl, .nothing true⟩
    | false =>
      rw [admitted.burst head term, handleObpVoiceBurst]
      have burst : isBurst body = true := by simp [isBurst, head, term]
      cases active : (tr.link i).inCall .obp with
      | false =>
        simp only [Bool.false_eq_true, if_false, idleCc, active]
        exact ⟨trivial, fits, [], [], rfl, .nothing false⟩
      | true =>
        by_cases own : body.stream = (tr.link i).call.streamId
        · have origins : (tr.link i).inCall .cc = false ∧ (tr.link i).inCall .obp = true := ⟨idleCc, active⟩
          simp only [LinkRuntime.inCall] at origins
          simp only [own, if_true, setLink_self]
          refine ⟨origins.1, fun _ => inCInt_slotIndex _ _, [], _, rfl, ?_⟩
          simp only [LinkRuntime.inCall, origins.2]
          exact .voice burst _ _ _
        · simp only [own, if_true, if_false, idleCc, active]
          exact ⟨trivial, fits, [], [], rfl, .nothing true⟩

/-- The call the other end reads off a signal; of a B-off it matters only that it is one. -/
def Signal.Reads (j : Nat) (signal : Signal) (call : TrCall) : Prop :=
  match signal with
  | .bon .. => call = signal.call j
  | .boff .. => ∃ lost total, call = .boff j lost total

/-- The signals are in turns, and the B-on is for the call the frame starts. -/
theorem Announces.alternates (said : Announces lcfg i body starts open_ signals voices open') {calls : List TrCall}
    (read : List.Forall₂ (Signal.Reads j) signals calls) :
    Alternates j open_ calls open' ∧ calls.filterMap TrCall.caller = if starts then [body.src] else [] := by
  cases said with
  | nothing =>
    cases read
    exact ⟨.nil _, rfl⟩
  | voice =>
    cases read
    exact ⟨.nil _, rfl⟩
  | starts =>
    obtain _ | ⟨rfl, ⟨⟩⟩ := read
    exact ⟨.bon _ _ _ _ _ (.nil true), rfl⟩
  | ends =>
    obtain _ | ⟨⟨lost, total, rfl⟩, ⟨⟩⟩ := read
    exact ⟨.boff _ _ (.nil false), rfl⟩
  | orphans =>
    obtain _ | ⟨⟨lost, total, rfl⟩, _ | ⟨rfl, ⟨⟩⟩⟩ := read
    exact ⟨.boff _ _ (.bon _ _ _ _ _ (.nil true)), rfl⟩

end Near

/-! ## The far end -/

/-- A link whose gate is open to its peer. -/
structure OpenTo (env : Env) (j peer : Nat) : Prop where
  enabled : (env.cfg.linkAt j).enabled = true
  gate : obpGateOpen env j = true
  resolved : (env.cfg.linkAt j).openbridgeIdx = some peer

/-- A link with no call, or with one from CC-CC. -/
structure FromCc (lr : LinkRuntime) (open_ : Bool) : Prop where
  call : lr.inCall .cc = open_
  only : lr.inCall .obp = false

section Far
variable {env : Env} {j peer : Nat} {tr : Translator} {open_ open' : Bool}

theorem FromCc.active (from_ : FromCc (tr.link j) true) : InCcCall (tr.link j).call (tr.link j) :=
  ⟨from_.call, (tr.link j).call.lastActivity, (tr.link j).call.obpSeqPos, rfl⟩

theorem fromCc_of_active {lr : LinkRuntime} (active : lr.inCall .cc = true) : FromCc lr true := by
  refine ⟨active, ?_⟩
  simp only [LinkRuntime.inCall, Bool.and_eq_true, beq_iff_eq] at active
  simp [LinkRuntime.inCall, active.2]

theorem fromCc_of_idle {lr : LinkRuntime} (idle : lr.hasCall = false) : FromCc lr false := by
  constructor <;> simp [LinkRuntime.inCall, idle]

/-- A B-on that finds no call open starts one with its radio, a B-off closes the call. -/
theorem OpenTo.signal (opens : OpenTo env j peer) (from_ : FromCc (tr.link j) open_) {call : TrCall}
    (turn : Alternates j open_ [call] open') (caller : ∀ radio ∈ call.caller, radio.toNat < 2 ^ 24) (rand : Bytes 4) :
    let next := translatorStep env (call.event rand) tr
    FromCc (next.1.link j) open' ∧ ∃ body, next.2 = [.obpSendDmrd j peer body] ∧ isBurst body = false ∧
      headSrc body = call.caller := by
  cases turn with
  | bon radio peerId srcLid tgid callType rest =>
    cases rest
    have starts : StartsCall env j tr := ⟨opens.enabled, opens.gate, from_.call, from_.only⟩
    obtain ⟨record, sent⟩ := starts.sends opens.resolved radio peerId srcLid tgid callType rand
    refine ⟨?_, _, sent, ?_, ?_⟩
    · rw [TrCall.event, record]
      exact fromCc_of_active rfl
    · simp only [isBurst, fillDmrd, flags_dmrdBody]
      decide
    · have short : radio &&& 0xFFFFFF#32 = radio := (and_low24_eq_iff radio).mpr (caller radio rfl)
      have head : isHead vheadFlags = true := by decide
      simp only [headSrc, fillDmrd, flags_dmrdBody, head, if_true, src_dmrdBody, ccCall, short]
      rfl
  | boff lost total rest =>
    cases rest
    obtain ⟨idle, body, sent, seq, rfl⟩ := from_.active.boff opens.resolved lost total
    refine ⟨fromCc_of_idle idle, _, sent, ?_, ?_⟩
    · simp only [isBurst, fillDmrd, flags_dmrdBody]
      decide
    · have term : isHead vtermFlags = false := by decide
      simp only [headSrc, fillDmrd, flags_dmrdBody, term]
      rfl

/-- A voice packet is a burst with its audio if a call is open, and nothing otherwise. -/
theorem OpenTo.voice (opens : OpenTo env j peer) (from_ : FromCc (tr.link j) open_) (seq : BitVec 16)
    (timestamp : BitVec 32) (marker : Bool) (ambe21 : Bytes 21) :
    let next := translatorStep env (.ccccVoice j seq timestamp marker ambe21) tr
    FromCc (next.1.link j) open_ ∧ (next.2 = [] ∨ ∃ body, next.2 = [.obpSendDmrd j peer body] ∧ headSrc body = none ∧
      extractAmbe body.payload = ccccAmbeUnpack21 ambe21) := by
  cases open_ with
  | false =>
    have silent : translatorStep env (.ccccVoice j seq timestamp marker ambe21) tr = (tr, []) := by
      simp [translatorStep, translatorCcccVoice, from_.call]
    rw [silent]
    exact ⟨from_, .inl rfl⟩
  | true =>
    have crossConnect : (env.cfg.linkAt j).crossConnectActive = true := by
      have gate := opens.gate
      simp only [obpGateOpen, Bool.and_eq_true] at gate
      exact gate.1
    obtain ⟨still, body, sent, pos, number, rfl⟩ :=
      from_.active.voice opens.resolved crossConnect seq timestamp marker ambe21
    refine ⟨fromCc_of_active still.1, .inr ⟨_, sent, ?_, ?_⟩⟩
    · obtain ⟨-, notHead, -⟩ := burstFlags_read pos
      simp only [headSrc, fillDmrd, flags_dmrdBody, notHead]
      rfl
    · rw [fillDmrd, payload_dmrdBody, extractAmbe_buildVoiceBurst]

end Far

end Cc2obp
