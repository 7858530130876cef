import Cc2obp.Lib.Channel
import Cc2obp.System.Writes

/-!
# Streams of an OpenBridge peer on a link

To the frames of one link and the ticks, the link's call record is a channel that
streams take turns on. A B-on opens the stream that arrives, a B-off closes the
stream on record.
-/
namespace Cc2obp

open Channel

/-- Who has the link according to its record. -/
def holderOf (lr : LinkRuntime) : Channel.Holder (Bytes 4) :=
  if lr.inCall .obp then .stream lr.call.streamId lr.call.lastActivity
  else if lr.inCall .cc then .foreign lr.call.lastActivity
  else .free

inductive Delivery where
  | frame (body : DmrdBody)
  | tick

def Delivery.event (peer : Nat) : Delivery → TrEvent
  | .frame body => .obpDmrdReceived peer body
  | .tick => .tick

/-- What a delivery says about its stream. -/
def Delivery.input : Delivery → Input (Bytes 4)
  | .frame body =>
    if isHead body.flags then .announce body.stream
    else if isTerm body.flags then .release body.stream
    else .item body.stream
  | .tick => .check

/-- The stream a message is about, from the records before and after the step that writes it. -/
def noticeOf (before after : LinkRuntime) : TrOut → Option (Notice (Bytes 4))
  | .ccccSendBon .. => some (.opened after.call.streamId)
  | .ccccSendBoff .. => some (.closed before.call.streamId)
  | _ => none

/-- The notices among the calls for a link's CC-CC side. -/
def noticesOf (i : Nat) (before after : LinkRuntime) (out : List TrOut) : List (Notice (Bytes 4)) :=
  (ccOut i out).filterMap (noticeOf before after)

theorem holderOf_obp {lr : LinkRuntime} (active : lr.inCall .obp = true) :
    holderOf lr = .stream lr.call.streamId lr.call.lastActivity := by
  simp [holderOf, active]

theorem holderOf_cc {lr : LinkRuntime} (active : lr.inCall .cc = true) :
    holderOf lr = .foreign lr.call.lastActivity := by
  simp only [LinkRuntime.inCall, Bool.and_eq_true, beq_iff_eq] at active
  simp [holderOf, LinkRuntime.inCall, active]

theorem holderOf_idle {lr : LinkRuntime} (noObp : lr.inCall .obp = false)
    (noCc : lr.inCall .cc = false) : holderOf lr = .free := by
  simp [holderOf, noObp, noCc]

@[simp] theorem holderOf_ended (lr : LinkRuntime) : holderOf { lr with hasCall := false } = .free := by
  simp [holderOf, LinkRuntime.inCall]

section Frames
variable {env : Env} {i peer : Nat} {body : DmrdBody} (tr : Translator)

/-- The step of a link's record that an event makes is the channel's step. -/
def FollowsChannel (env : Env) (i peer : Nat) (d : Delivery) (tr : Translator) : Prop :=
  let after := translatorStep env (d.event peer) tr
  let next := Channel.step callIdleTimeoutS (holderOf (tr.link i)) (env.now, d.input)
  holderOf (after.1.link i) = next.1 ∧
    noticesOf i (tr.link i) (after.1.link i) after.2 = next.2

theorem head_follows (admitted : Admitted env i peer body) (head : isHead body.flags = true) :
    FollowsChannel env i peer (.frame body) tr := by
  have input : Delivery.input (.frame body) = .announce body.stream := by simp [Delivery.input, head]
  have record : ((newAttempt i tr).link i).inCall = (tr.link i).inCall := by
    funext origin
    simp [newAttempt, LinkRuntime.inCall]
  simp only [FollowsChannel, Delivery.event, admitted.head head, input, handleObpVoiceHead, record]
  cases obp : (tr.link i).inCall .obp with
  | true =>
    rw [holderOf_obp obp]
    by_cases own : body.stream = (tr.link i).call.streamId
    · have active : ((newAttempt i tr).link i).inCall .obp = true := record ▸ obp
      simp [newAttempt, own, Channel.step, noticesOf, holderOf, LinkRuntime.inCall] at active ⊢
      simp [active]
    · have active : ((newAttempt i tr).link i).inCall .obp = true := record ▸ obp
      rw [endObpOriginCall_active active]
      simp [newAttempt, own, Channel.step, noticesOf, startObpOriginCall, clearCall, ccOut_cons,
        TrOut.link, TrOut.isCc, noticeOf, holderOf, LinkRuntime.inCall, obpCall]
  | false =>
    cases cc : (tr.link i).inCall .cc with
    | true =>
      rw [holderOf_cc cc]
      have active : ((newAttempt i tr).link i).inCall .cc = true := record ▸ cc
      simp [Channel.step, noticesOf, holderOf_cc active]
      simp [newAttempt]
    | false =>
      rw [holderOf_idle obp cc]
      simp [Channel.step, noticesOf, startObpOriginCall, ccOut_cons, TrOut.link, TrOut.isCc, noticeOf,
        holderOf, LinkRuntime.inCall, obpCall]

theorem term_follows (admitted : Admitted env i peer body) (notHead : isHead body.flags = false)
    (term : isTerm body.flags = true) : FollowsChannel env i peer (.frame body) tr := by
  have input : Delivery.input (.frame body) = .release body.stream := by
    simp [Delivery.input, notHead, term]
  simp only [FollowsChannel, Delivery.event, admitted.term notHead term, input, handleObpVoiceTerm]
  cases obp : (tr.link i).inCall .obp with
  | true =>
    by_cases own : body.stream = (tr.link i).call.streamId
    · simp [holderOf_obp obp, own, endObpOriginCall_active obp, Channel.step, noticesOf, clearCall,
        ccOut_cons, TrOut.link, TrOut.isCc, noticeOf, holderOf_ended]
    · simp [holderOf_obp obp, own, Channel.step, noticesOf]
  | false =>
    cases cc : (tr.link i).inCall .cc with
    | true => simp [holderOf_cc cc, Channel.step, noticesOf]
    | false => simp [holderOf_idle obp cc, Channel.step, noticesOf]

theorem burst_follows (admitted : Admitted env i peer body) (notHead : isHead body.flags = false)
    (notTerm : isTerm body.flags = false) : FollowsChannel env i peer (.frame body) tr := by
  have input : Delivery.input (.frame body) = .item body.stream := by
    simp [Delivery.input, notHead, notTerm]
  simp only [FollowsChannel, Delivery.event, admitted.burst notHead notTerm, input,
    handleObpVoiceBurst]
  cases obp : (tr.link i).inCall .obp with
  | true =>
    by_cases own : body.stream = (tr.link i).call.streamId
    · have active : (tr.link i).hasCall = true ∧ (tr.link i).call.origin = .obp := by
        simpa [LinkRuntime.inCall] using obp
      simp [holderOf_obp obp, own, Channel.step, noticesOf, ccOut_cons, TrOut.link, noticeOf]
      simp [holderOf, LinkRuntime.inCall, active]
    · simp [holderOf_obp obp, own, Channel.step, noticesOf]
  | false =>
    cases cc : (tr.link i).inCall .cc with
    | true => simp [holderOf_cc cc, Channel.step, noticesOf]
    | false => simp [holderOf_idle obp cc, Channel.step, noticesOf]

theorem frame_follows (admitted : Admitted env i peer body) :
    FollowsChannel env i peer (.frame body) tr := by
  cases head : isHead body.flags with
  | true => exact head_follows tr admitted head
  | false =>
    cases term : isTerm body.flags with
    | true => exact term_follows tr admitted head term
    | false => exact burst_follows tr admitted head term

end Frames

theorem ccOut_endCcOriginCall (env : Env) (i : Nat) (tr : Translator) :
    ccOut i (endCcOriginCall env i tr).2 = [] := by
  unfold endCcOriginCall
  split
  · cases resolved : (env.cfg.linkAt i).openbridgeIdx with
    | none => simp [sendObpVoiceTerm, sendDmrd_none env i _ _ resolved]
    | some peer => simp [sendObpVoiceTerm, sendDmrd_some env i _ _ resolved, ccOut_cons, TrOut.isCc]
  · rfl

theorem tick_follows (env : Env) (i peer : Nat) (known : i < env.cfg.nLink) (tr : Translator) :
    FollowsChannel env i peer .tick tr := by
  have turn := tickLoop_view env i _ (List.nodup_range (n := env.cfg.nLink)) (tr, [])
  simp only [List.mem_range, known, if_true, linkOut_nil, List.nil_append] at turn
  obtain ⟨record, calls⟩ := turn
  simp only [FollowsChannel, Delivery.event, Delivery.input, translatorStep, translatorTick_eq,
    noticesOf, ccOut, record, calls, tickLink]
  cases obp : (tr.link i).inCall .obp with
  | true =>
    have active : (tr.link i).hasCall = true ∧ (tr.link i).call.origin = .obp := by
      simpa [LinkRuntime.inCall] using obp
    by_cases idle : env.now - (tr.link i).call.lastActivity > callIdleTimeoutS
    · simp [holderOf_obp obp, active, idle, endObpOriginCall_active obp, Channel.step, clearCall,
        List.filter_cons, TrOut.isCc, noticeOf, holderOf_ended]
    · simp [holderOf_obp obp, idle, Channel.step]
  | false =>
    cases cc : (tr.link i).inCall .cc with
    | true =>
      have active : (tr.link i).hasCall = true ∧ (tr.link i).call.origin = .cc := by
        simpa [LinkRuntime.inCall] using cc
      by_cases idle : env.now - (tr.link i).call.lastActivity > callIdleTimeoutS
      · have silent := ccOut_endCcOriginCall env i tr
        rw [ccOut] at silent
        simp [holderOf_cc cc, active, idle, Channel.step, silent]
        simp [endCcOriginCall, cc, clearCall, holderOf_ended]
      · simp [holderOf_cc cc, idle, Channel.step]
    | false =>
      -- a record of neither origin has no call to end
      have unchanged : (if (tr.link i).hasCall && decide (env.now - (tr.link i).call.lastActivity > callIdleTimeoutS) then
          if (tr.link i).call.origin = .obp then endObpOriginCall i tr else endCcOriginCall env i tr
          else (tr, [])) = (tr, []) := by
        simp [endObpOriginCall, endCcOriginCall, obp, cc]
      rw [unchanged]
      simp [holderOf_idle obp cc, Channel.step]

/-! ## On an UP link -/

/-- A delivery at its time, answered by what the messages to the link say. -/
def deliverStep (i peer : Nat) (s : System) (e : Rat × Delivery) :
    System × List (Notice (Bytes 4)) :=
  let after := s.cleared.translate { now := e.1 } (e.2.event peer)
  (after, (sentTo i after.world.out).filterMap (noticeOf (s.tr.link i) (after.tr.link i)))

/-- A group frame for the link while its gate is open, or a tick. -/
def Deliverable (w : World) (i peer : Nat) : Delivery → Prop
  | .frame body => Admitted (w.env 0) i peer body
  | .tick => True

theorem deliverStep_follows {s : System} {i peer : Nat} {e : Rat × Delivery}
    (known : i < s.world.cfg.nLink) (up : (s.world.links i).state = .up)
    (deliverable : Deliverable s.world i peer e.2) :
    let next := Channel.step callIdleTimeoutS (holderOf (s.tr.link i)) (e.1, e.2.input)
    holderOf ((deliverStep i peer s e).1.tr.link i) = next.1 ∧ (deliverStep i peer s e).2 = next.2 := by
  have follows : FollowsChannel (s.world.env e.1) i peer e.2 s.tr := by
    cases kind : e.2 with
    | frame body =>
      rw [kind] at deliverable
      exact frame_follows s.tr deliverable
    | tick => exact tick_follows _ i peer known s.tr
  obtain ⟨holder, notices⟩ := follows
  refine ⟨holder, ?_⟩
  have links : (s.cleared.world.links i).state = .up := up
  simp only [deliverStep, System.sentTo_translate, links, if_true]
  exact notices

/-- The notices of a run are the channel's. -/
theorem deliver_notices (i peer : Nat) (es : List (Rat × Delivery)) (s : System)
    (known : i < s.world.cfg.nLink) (up : (s.world.links i).state = .up)
    (deliverable : ∀ e ∈ es, Deliverable s.world i peer e.2) :
    (Machine.run (deliverStep i peer) s es).2 =
      Channel.notices callIdleTimeoutS (holderOf (s.tr.link i)) (es.map fun e => (e.1, e.2.input)) := by
  induction es generalizing s with
  | nil => rfl
  | cons e es ih =>
    obtain ⟨holder, notices⟩ := deliverStep_follows known up (deliverable e (by simp))
    have core : (deliverStep i peer s e).1.world.core = s.world.core := System.core_translate _ _ _
    have deliverable' : ∀ e' ∈ es, Deliverable (deliverStep i peer s e).1.world i peer e'.2 := by
      intro e' member
      have before := deliverable e' (by simp [member])
      cases kind : e'.2 with
      | frame body =>
        rw [kind] at before
        rw [Deliverable, env_of_core core]
        exact before
      | tick => trivial
    have rest := ih (deliverStep i peer s e).1 (by rw [cfg_of_core core]; exact known)
      (by rw [links_of_core core]; exact up) deliverable'
    rw [Machine.run_cons, notices, rest, holder]
    simp

/-- The stream of a call that runs already is not announced in the list. -/
def FreshStreams (lr : LinkRuntime) (es : List (Rat × Delivery)) : Prop :=
  lr.inCall .obp = true → ∀ e ∈ es, e.2.input ≠ .announce lr.call.streamId

/-- Each stream gets at most one B-on and at most one B-off exactly when every repeated VOICE_HEAD
that no cc-origin call holds off arrives while its stream's call is undisturbed. -/
theorem streams_once_iff (i peer : Nat) (s : System) (es : List (Rat × Delivery))
    (known : i < s.world.cfg.nLink) (up : (s.world.links i).state = .up)
    (deliverable : ∀ e ∈ es, Deliverable s.world i peer e.2)
    (fresh : FreshStreams (s.tr.link i) es) :
    (∀ stream, (Machine.run (deliverStep i peer) s es).2.count (.opened stream) ≤ 1 ∧
      (Machine.run (deliverStep i peer) s es).2.count (.closed stream) ≤ 1) ↔
    RepeatsUndisturbed callIdleTimeoutS
      (heard callIdleTimeoutS (holderOf (s.tr.link i)) (es.map fun e => (e.1, e.2.input))) := by
  rw [deliver_notices i peer es s known up deliverable]
  refine once_iff _ _ _ fun stream has e member announced => ?_
  obtain ⟨e', member', rfl⟩ := List.mem_map.mp member
  cases obp : (s.tr.link i).inCall .obp with
  | true =>
    rw [holderOf_obp obp] at has
    have own : (s.tr.link i).call.streamId = stream := has
    exact fresh obp e' member' (by rw [own]; exact announced)
  | false =>
    cases cc : (s.tr.link i).inCall .cc with
    | true => simp [holderOf_cc cc, Holder.has] at has
    | false => simp [holderOf_idle obp cc, Holder.has] at has

theorem input_streamFrame (flags : Byte) : Delivery.input (.frame (streamFrame flags)) =
    if isHead flags then .announce #v[1, 2, 3, 4]
    else if isTerm flags then .release #v[1, 2, 3, 4]
    else .item #v[1, 2, 3, 4] := by
  simp [Delivery.input, streamFrame]

/-- A call of one stream, and its VOICE_HEAD once more at the given time. -/
def headAgain (t : Rat) (between : List (Rat × Delivery)) : List (Rat × Delivery) :=
  (0, .frame (streamFrame 0x21)) :: between ++ [(t, .frame (streamFrame 0x21))]

/-- VOICE_HEAD, a burst, VOICE_TERM, and the VOICE_HEAD once more. -/
def lateHead : List (Rat × Delivery) :=
  headAgain (3 / 10) [(1 / 10, .frame (streamFrame 0x10)), (2 / 10, .frame (streamFrame 0x22))]

theorem lateHead_deliverable : ∀ e ∈ lateHead, Deliverable linkUp.world 0 0 e.2 := by
  intro e member
  simp only [lateHead, headAgain, List.cons_append, List.nil_append, List.mem_cons,
    List.not_mem_nil, or_false] at member
  rcases member with rfl | rfl | rfl | rfl <;> exact admitted_streamFrame _ (by decide) 0

theorem streams_once_iff_late_head :
    (∀ stream, (Machine.run (deliverStep 0 0) linkUp lateHead).2.count (.opened stream) ≤ 1 ∧
      (Machine.run (deliverStep 0 0) linkUp lateHead).2.count (.closed stream) ≤ 1) ↔
    RepeatsUndisturbed callIdleTimeoutS
      (heard callIdleTimeoutS (holderOf (linkUp.tr.link 0)) (lateHead.map fun e => (e.1, e.2.input))) :=
  streams_once_iff 0 0 linkUp lateHead (by decide) rfl lateHead_deliverable
    fun active => by cases active

/-- The late VOICE_HEAD opens the finished stream a second time. -/
theorem streams_once_late_head :
    (0 < linkUp.world.cfg.nLink ∧ (linkUp.world.links 0).state = .up ∧
      (∀ e ∈ lateHead, Deliverable linkUp.world 0 0 e.2) ∧ FreshStreams (linkUp.tr.link 0) lateHead) ∧
    ¬∀ stream, (Machine.run (deliverStep 0 0) linkUp lateHead).2.count (.opened stream) ≤ 1 ∧
      (Machine.run (deliverStep 0 0) linkUp lateHead).2.count (.closed stream) ≤ 1 := by
  refine ⟨⟨by decide, rfl, lateHead_deliverable, fun active => by cases active⟩, fun once => ?_⟩
  have total := (once #v[1, 2, 3, 4]).1
  rw [deliver_notices 0 0 lateHead linkUp (by decide) rfl lateHead_deliverable] at total
  have inputs : lateHead.map (fun e => (e.1, e.2.input)) =
      [(0, .announce #v[1, 2, 3, 4]), (1 / 10, .item #v[1, 2, 3, 4]),
        (2 / 10, .release #v[1, 2, 3, 4]), (3 / 10, .announce #v[1, 2, 3, 4])] := by
    simp only [lateHead, headAgain, List.cons_append, List.nil_append, List.map_cons, List.map_nil,
      input_streamFrame]
    rfl
  rw [inputs] at total
  simp [holderOf, LinkRuntime.inCall, linkUp, Channel.step] at total

end Cc2obp
