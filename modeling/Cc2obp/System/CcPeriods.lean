import Cc2obp.Lib.Periods
import Cc2obp.System.CcCalls
import Cc2obp.System.VoiceNumbers

/-!
# Calls toward CC-CC

What is written to a link while its connection stays UP is a sequence of calls:
a B-on, voice with the marker on the first packet, a B-off. It is one as long as
the link does not come UP with an obp-origin call on its record, whose B-on was
dropped, and has a descriptor to write to.
-/
namespace Cc2obp

open World

/-- A message of a call; of a voice packet the marker bit of its RTP header. -/
inductive CcMessage where
  | bon
  | voice (marker : Bool)
  | boff
deriving DecidableEq

/-- A B-on, voice with the marker on the first packet and on no other, a B-off. -/
def ccccCall : Session CcMessage where
  opens o := o = .bon
  item _ k x := x = .voice (decide (k = 0))
  closes _ x := x = .boff

/-- What a write puts on a link's connection; a control line needs a descriptor. -/
def Out.written (i : Nat) : Out → Option CcMessage
  | .tcp link fd (.bon ..) _ => if link = i ∧ 0 ≤ fd then some .bon else none
  | .tcp link fd (.boff ..) _ => if link = i ∧ 0 ≤ fd then some .boff else none
  | .udp _ (.voice link ..) bytes _ _ => if link = i then some (.voice (bytes.getD 1 0 &&& ccccRtpMarkerBit != 0)) else none
  | _ => none

def writtenTo (i : Nat) (log : List Out) : List CcMessage := log.filterMap (Out.written i)

/-- A link's connection comes UP or goes down. -/
def Out.linkMark (i : Nat) : Out → Option Bool
  | .call (.linkUp j) => if j = i then some true else none
  | .call (.linkDown j) => if j = i then some false else none
  | _ => none

/-- The message a call of the translator is for. -/
def TrOut.ccMessage : TrOut → Option CcMessage
  | .ccccSendBon .. => some .bon
  | .ccccSendVoice _ _ _ marker _ => some (.voice marker)
  | .ccccSendBoff .. => some .boff
  | .obpSendDmrd .. => none

theorem writtenTo_append (i : Nat) (log log' : List Out) :
    writtenTo i (log ++ log') = writtenTo i log ++ writtenTo i log' :=
  List.filterMap_append

/-! ## What the translator's calls write -/

theorem marker_buildVoice (seq : BitVec 16) (timestamp ssrc : BitVec 32) (marker : Bool) (ambe21 : Bytes 21) :
    ((buildVoice seq timestamp ssrc marker ambe21).getD 1 0 &&& ccccRtpMarkerBit != 0) = marker := by
  have second : (buildVoice seq timestamp ssrc marker ambe21).getD 1 0 =
      ccccRtpPtVoice ||| (if marker then ccccRtpMarkerBit else 0) := rfl
  rw [second]
  cases marker <;> decide

section Messages
variable {i : Nat} {w : World} (held : (w.links i).state = .up → 0 ≤ (w.links i).fd)
include held

theorem writtenTo_perform (o : TrOut) : writtenTo i (w.unlogged.perform o).out =
    if o.link = i ∧ (w.links i).state = .up then [o].filterMap TrOut.ccMessage else [] := by
  cases o with
  | obpSendDmrd link peer body =>
    simp only [World.perform, obpSendDmrd]
    split <;> simp [World.emit, writtenTo, List.filterMap_cons, Out.written, TrOut.ccMessage]
  | ccccSendBon link radio peer srcLid tgid callType =>
    simp only [World.perform, ccccSendBon]
    by_cases here : link = i
    · subst here
      split <;> simp_all [TrOut.link, tcpSend, World.emit, writtenTo, Out.written, TrOut.ccMessage]
    · split <;> simp [TrOut.link, tcpSend, World.emit, writtenTo, Out.written, here]
  | ccccSendBoff link lost total rssi =>
    simp only [World.perform, ccccSendBoff]
    by_cases here : link = i
    · subst here
      split <;> simp_all [TrOut.link, tcpSend, World.emit, writtenTo, Out.written, TrOut.ccMessage]
    · split <;> simp [TrOut.link, tcpSend, World.emit, writtenTo, Out.written, here]
  | ccccSendVoice link seq timestamp marker ambe21 =>
    simp only [World.perform, ccccSendVoice]
    by_cases here : link = i
    · subst here
      have marker_ := marker_buildVoice seq timestamp (w.links link).syncSource marker ambe21
      split <;> simp_all [TrOut.link, udpSendToLink, World.emit, writtenTo, Out.written, TrOut.ccMessage]
    · split <;> simp [TrOut.link, udpSendToLink, World.emit, writtenTo, Out.written, here]

/-- An UP link with a descriptor is written everything it is called for, a link that is not UP nothing. -/
theorem writtenTo_messages (outs : List TrOut) : writtenTo i (w.messages outs) =
    if (w.links i).state = .up then (linkOut i outs).filterMap TrOut.ccMessage else [] := by
  induction outs generalizing w with
  | nil => simp [World.messages, writtenTo]
  | cons o rest ih =>
    have links : (w.unlogged.perform o).links = w.links := links_of_core (core_perform _ o)
    have later := ih (w := w.unlogged.perform o) (by rw [links]; exact held)
    rw [World.messages, List.foldl_cons, performAll_out, writtenTo_append, writtenTo_perform held, later, links]
    by_cases mine : o.link = i
    · rw [linkOut_cons_self i o rest mine]
      cases o <;> split <;> simp_all [List.filterMap_cons, TrOut.ccMessage, TrOut.eraseSeq]
    · have skipped : linkOut i (o :: rest) = linkOut i rest := by simp [linkOut, mine]
      rw [skipped, if_neg fun here => mine here.1, List.nil_append]

end Messages

/-! ## The record and the period -/

/-- What a link's record says about what was written in the period under way. -/
def ObpTracked (lr : LinkRuntime) (msgs : List CcMessage) : Prop :=
  if lr.inCall .obp then
    ∃ n, ccccCall.Tracks (some (.bon, n)) msgs ∧ lr.call.ccSentFirst = decide (0 < n)
  else ccccCall.Tracks none msgs

section Tracked
variable {lr lr' : LinkRuntime} {msgs : List CcMessage}

theorem obpTracked_active (active : lr.inCall .obp = true) : ObpTracked lr msgs ↔
    ∃ n, ccccCall.Tracks (some (.bon, n)) msgs ∧ lr.call.ccSentFirst = decide (0 < n) := by
  simp [ObpTracked, active]

theorem obpTracked_idle (idle : lr.inCall .obp = false) : ObpTracked lr msgs ↔ ccccCall.Tracks none msgs := by
  simp [ObpTracked, idle]

theorem ObpTracked.bracketed (tracked : ObpTracked lr msgs) : ccccCall.Bracketed msgs := by
  unfold ObpTracked at tracked
  split at tracked
  · obtain ⟨n, within, -⟩ := tracked
    exact within.bracketed
  · exact tracked.bracketed

theorem LinkRuntime.inCall_obp_of_cc (active : lr.inCall .cc = true) : lr.inCall .obp = false := by
  simp only [LinkRuntime.inCall, Bool.and_eq_true, beq_iff_eq] at active
  simp [LinkRuntime.inCall, active.2]

/-- A call of an UP link: what is written follows the record. -/
theorem LinkStep.obpTracked {env : Env} {i : Nat} {ev : TrEvent} {out : List TrOut} (step : LinkStep env i ev lr out lr')
    (before : ObpTracked lr msgs) (notDown : ev ≠ .ccccLinkDown i) :
    ObpTracked lr' (msgs ++ out.filterMap TrOut.ccMessage) := by
  -- a frame for the peer is nothing to the link
  have frame : ∀ peer body, [TrOut.obpSendDmrd i peer body].filterMap TrOut.ccMessage = [] := fun _ _ => rfl
  cases step with
  | quiet dropped =>
    rw [List.filterMap_nil, List.append_nil]
    exact before
  | ccStart dropped radioId peerId srcLid tgid callType rand resolved gate idleCc idleObp =>
    have idle : LinkRuntime.inCall ⟨true, ccCall env.now (env.cfg.linkAt i).tgid radioId peerId rand, dropped⟩ .obp = false := rfl
    rw [frame, List.append_nil]
    exact (obpTracked_idle idle).mpr ((obpTracked_idle idleObp).mp before)
  | ccBurst dropped seq timestamp marker ambe21 resolved crossConnect active =>
    have idle := LinkRuntime.inCall_obp_of_cc active
    have idle' : LinkRuntime.inCall ⟨lr.hasCall, lr.call.ccBurst env.now, dropped⟩ .obp = false := idle
    rw [frame, List.append_nil]
    exact (obpTracked_idle idle').mpr ((obpTracked_idle idle).mp before)
  | ccEnd dropped resolved active ending =>
    have idle := LinkRuntime.inCall_obp_of_cc active
    have idle' : LinkRuntime.inCall ⟨false, lr.call, dropped⟩ .obp = false := rfl
    rw [frame, List.append_nil]
    exact (obpTracked_idle idle').mpr ((obpTracked_idle idle).mp before)
  | obpStart dropped peer body admitted head idleCc idleObp =>
    have between := (obpTracked_idle idleObp).mp before
    exact (obpTracked_active rfl).mpr ⟨0, between.open rfl, rfl⟩
  | obpOrphan dropped peer body admitted head active other =>
    obtain ⟨n, within, -⟩ := (obpTracked_active active).mp before
    have closed := within.close (c := .boff) rfl
    have opened := closed.open (o := .bon) rfl
    refine (obpTracked_active rfl).mpr ⟨0, ?_, rfl⟩
    simpa [TrOut.ccMessage, bonOf] using opened
  | obpBurst dropped peer body admitted notHead notTerm active own =>
    obtain ⟨n, within, first⟩ := (obpTracked_active active).mp before
    have active' : LinkRuntime.inCall ⟨lr.hasCall, lr.call.obpBurst env.now, dropped⟩ .obp = true := active
    refine (obpTracked_active active').mpr ⟨n + 1, within.item ?_, by simp [CallState.obpBurst]⟩
    -- the marker is for the packet before which none was sent
    show CcMessage.voice (!lr.call.ccSentFirst) = .voice (decide (n = 0))
    rw [first]
    cases n <;> simp
  | obpEnd dropped active ending =>
    obtain ⟨n, within, -⟩ := (obpTracked_active active).mp before
    exact (obpTracked_idle rfl).mpr (within.close rfl)
  | cleared dropped idleCc => exact absurd rfl notDown

end Tracked

/-! ## Periods along a run -/

/-- Frames toward OpenBridge are nothing to a link. -/
theorem written_messages {i : Nat} {w : World} {outs : List TrOut} (frames : ∀ o ∈ outs, o.isCc = false) :
    writtenTo i (w.messages outs) = [] := by
  refine List.filterMap_eq_nil_iff.mpr fun o member => ?_
  obtain ⟨t, sent, writes⟩ := mem_messages w member
  have frame := frames t sent
  cases writes with
  | dmrd => rfl
  | _ => cases frame

theorem linkMark_messages {i : Nat} {w : World} (outs : List TrOut) :
    ∀ o ∈ w.messages outs, Out.linkMark i o = none := by
  intro o member
  obtain ⟨t, -, writes⟩ := mem_messages w member
  cases writes <;> rfl

section History
variable {i : Nat} {up up' : Bool} {log mid : List Out}

theorem upAfter_of_quiet {o : Out} (quiet : Out.linkMark i o = none) : o.upAfter i up = some up := by
  cases o with
  | call call => cases call <;> first | rfl | simp_all [Out.linkMark, Out.upAfter]
  | _ => rfl

theorem upThrough_of_quiet (quiet : ∀ o ∈ log, Out.linkMark i o = none) : upThrough i up log = some up := by
  induction log with
  | nil => rfl
  | cons o rest ih =>
    rw [upThrough_cons, upAfter_of_quiet (quiet o (by simp))]
    exact ih fun o member => quiet o (by simp [member])

/-- A link whose period is under way is UP. -/
theorem up_of_current (history : upThrough i up log = some up') (current : CurrentPeriod (Out.linkMark i) log mid) :
    up' = true := by
  obtain ⟨pre, o, rfl, begins, inside⟩ := current
  rw [upThrough_append, Option.bind_eq_some_iff] at history
  obtain ⟨between, -, history⟩ := history
  rw [upThrough_cons, Option.bind_eq_some_iff] at history
  obtain ⟨after, comesUp, history⟩ := history
  rw [upThrough_of_quiet inside] at history
  obtain rfl : after = up' := Option.some.inj history
  cases o with
  | call call =>
    cases call with
    | linkUp j =>
      have here : j = i := by simpa [Out.linkMark] using begins
      simp only [Out.upAfter, here, if_true] at comesUp
      split at comesUp
      · cases comesUp
      · exact (Option.some.inj comesUp).symm
    | _ => simp [Out.linkMark] at begins
  | _ => cases begins

end History

/-- What a run keeps of a link's periods. -/
structure Periods (i : Nat) (g : Stage) (log : List Out) : Prop where
  history : upThrough i false log = some (g.up i)
  current : ∀ mid, CurrentPeriod (Out.linkMark i) log mid → ObpTracked (g.tr.link i) (writtenTo i mid)
  closed : ∀ mid, ClosedPeriod (Out.linkMark i) log mid → ccccCall.Bracketed (writtenTo i mid)

namespace Periods

variable {i : Nat} {g g' : Stage} {log out : List Out}

/-- The period goes on. -/
theorem append_quiet (periods : Periods i g log) (quiet : ∀ o ∈ out, Out.linkMark i o = none)
    (same : g'.up i = g.up i) (tracked : g.up i = true → ∀ msgs, ObpTracked (g.tr.link i) msgs →
      ObpTracked (g'.tr.link i) (msgs ++ writtenTo i out)) : Periods i g' (log ++ out) := by
  obtain ⟨history, current, closed⟩ := periods
  constructor
  case history => rw [upThrough_append, history, Option.bind_some, upThrough_of_quiet quiet, same]
  case current =>
    intro mid under
    obtain ⟨mid', rfl, before⟩ := under.of_append quiet
    rw [writtenTo_append]
    exact tracked (up_of_current history before) _ (current mid' before)
  case closed => exact fun mid ended => closed mid (ended.of_append quiet)

/-- A mark closes the period under way. -/
theorem append_mark (periods : Periods i g log) {o : Out} (marks : Out.linkMark i o ≠ none)
    (history : upThrough i false (log ++ [o]) = some (g'.up i))
    (idle : Out.linkMark i o = some true → (g'.tr.link i).inCall .obp = false) : Periods i g' (log ++ [o]) := by
  constructor
  case history => exact history
  case current =>
    intro mid under
    obtain ⟨rfl, begins⟩ := under.of_mark marks
    exact (obpTracked_idle (idle begins)).mpr Session.tracks_nil
  case closed =>
    intro mid ended
    rcases ended.of_concat with before | ⟨under, -⟩
    · exact periods.closed mid before
    · exact (periods.current mid under).bracketed

end Periods

/-- No call of the mux starts an obp-origin call. -/
theorem LinkStep.obp_before {env : Env} {i : Nat} {ev : TrEvent} {lr lr' : LinkRuntime} {out : List TrOut}
    (step : LinkStep env i ev lr out lr') (ofMux : ev.ofMux) (after : lr'.inCall .obp = true) : lr.inCall .obp = true := by
  cases step with
  | quiet => exact after
  | obpBurst _ _ _ _ _ _ active => exact active
  | ccBurst => exact after
  | obpStart | obpOrphan => exact ofMux.elim
  | ccStart | ccEnd | obpEnd | cleared => cases after

/-- A link that is not UP with an obp-origin call on record was so before. -/
theorem Moment.obp_down {c : Ctx} {w : World} {g g' : Stage} {out : List Out} {i : Nat}
    (moment : Moment c w TrEvent.ofMux g out g') (resolved : Resolved w.cfg g.tr) (down : g'.up i = false)
    (active : (g'.tr.link i).inCall .obp = true) : g.up i = false ∧ (g.tr.link i).inCall .obp = true := by
  cases moment with
  | send o plain => exact ⟨down, active⟩
  | frame peer body arrived => exact arrived.elim
  | tick now => exact now.elim
  | @call up up' tr call rand move fits =>
    have before := (translatorStep_link (w.env c.now) (call.event rand) resolved i).obp_before fits active
    refine ⟨?_, before⟩
    cases move with
    | send o plain => exact absurd plain id
    | linkUp j idle =>
      by_cases here : i = j
      · simp [here] at down
      · simpa [here] using down
    | linkDown j was =>
      by_cases here : i = j
      · -- the link-down call has cleared the record
        subst here
        have cleared := linkDown_hasCall (w.env c.now) i tr
        simp only [TrCall.event, translatorStep, LinkRuntime.inCall, cleared] at active
        cases active
      · simpa [here] using down
    | _ => exact down

namespace Periods

variable {i : Nat} {g g' : Stage} {log out : List Out}

/-- A moment of the mux: a link that comes UP must not have an obp-origin call on record. -/
theorem moment (periods : Periods i g log) {c : Ctx} {w : World} (resolved : Resolved w.cfg g.tr)
    (moment : Moment c w TrEvent.ofMux g out g')
    (fresh : ∀ rest, out = .call (.linkUp i) :: rest → (g.tr.link i).inCall .obp = false) : Periods i g' (log ++ out) := by
  have whole := upThrough_moment moment i
  cases moment with
  | send o plain =>
    refine periods.append_quiet (fun o' member => ?_) rfl fun _ msgs before => ?_
    · rw [List.mem_singleton.mp member]
      cases o with
      | call => exact absurd plain id
      | _ => rfl
    · have silent : Out.written i o = none := by
        cases o with
        | call => exact absurd plain id
        | tcp link fd msg bytes => cases msg <;> first | rfl | exact absurd plain id
        | udp fd msg bytes ip port => cases msg <;> first | rfl | exact absurd plain id
      rw [show writtenTo i [o] = [] from List.filterMap_cons_none silent, List.append_nil]
      exact before
  | frame peer body arrived => exact arrived.elim
  | tick now => exact now.elim
  | @call up up' tr call rand move fits =>
    have step := translatorStep_link (w.env c.now) (call.event rand) resolved i
    have silent := written_messages (i := i) (w := w) (muxMove_frames move (w.env c.now) rand tr)
    have quiet := linkMark_messages (i := i) (w := w) (translatorStep (w.env c.now) (call.event rand) tr).2
    -- the frames that come behind the call belong to whatever is under way
    have behind : ∀ tr', Periods i ⟨up', tr'⟩ (log ++ [.call call]) → Periods i ⟨up', tr'⟩
        (log ++ .call call :: w.messages (translatorStep (w.env c.now) (call.event rand) tr).2) := by
      intro tr' periods
      have on : Periods i ⟨up', tr'⟩ (_ ++ _) := periods.append_quiet quiet rfl fun _ msgs before => by
        rw [silent, List.append_nil]
        exact before
      rwa [List.append_assoc] at on
    refine behind _ ?_
    have turn : upThrough i (up i) [.call call] = some (up' i) := by
      rw [upThrough_cons] at whole
      cases comes : Out.upAfter i (up i) (.call call) with
      | none => simp [comes] at whole
      | some u =>
        rw [comes, Option.bind_some, upThrough_of_quiet quiet] at whole
        rw [upThrough_cons, comes, Option.bind_some]
        exact whole
    cases marked : Out.linkMark i (.call call) with
    | none =>
      have same : up' i = up i := by
        rw [upThrough_of_quiet (by simpa using marked)] at turn
        exact (Option.some.inj turn).symm
      refine periods.append_quiet (by simpa using marked) same fun _ msgs before => ?_
      have tracked := step.obpTracked before fun down => by
        cases call <;> simp [TrCall.event, Out.linkMark] at down marked
        exact marked down
      have frames : (linkOut i (translatorStep (w.env c.now) (call.event rand) tr).2).filterMap TrOut.ccMessage = [] := by
        refine List.filterMap_eq_nil_iff.mpr fun o member => ?_
        obtain ⟨o', inside, rfl⟩ := List.mem_map.mp member
        have frame := muxMove_frames move (w.env c.now) rand tr o' (List.mem_filter.mp inside).1
        cases o' <;> first | rfl | cases frame
      rw [frames, List.append_nil] at tracked
      rw [show writtenTo i [Out.call call] = [] from rfl, List.append_nil]
      exact tracked
    | some kind =>
      refine periods.append_mark (by simp [marked]) ?_ fun begins => ?_
      · rw [upThrough_append, periods.history, Option.bind_some]
        exact turn
      · have here : call = .linkUp i := by
          cases call <;> simp [Out.linkMark] at begins
          rw [begins]
        by_contra active
        have before := step.obp_before fits (by simpa using active)
        rw [fresh _ (by rw [here])] at before
        cases before

/-- A whole chain of the mux's moments. -/
theorem trace {c : Ctx} {w : World} (moments : Trace (Moment c w TrEvent.ofMux) g out g') (periods : Periods i g log)
    (resolved : Resolved w.cfg g.tr)
    (fresh : g.up i = false → (g.tr.link i).inCall .obp = true → .call (.linkUp i) ∉ out) : Periods i g' (log ++ out) := by
  induction moments generalizing log with
  | nil => rwa [List.append_nil]
  | @cons g g₁ g₂ first rest moment later ih =>
    have fresh' : ∀ rest', first = .call (.linkUp i) :: rest' → (g.tr.link i).inCall .obp = false := by
      rintro rest' rfl
      by_contra active
      have down : g.up i = false := by
        have turn := upThrough_moment moment i
        rw [upThrough_cons, Option.bind_eq_some_iff] at turn
        obtain ⟨u, comesUp, -⟩ := turn
        simp only [Out.upAfter, if_true] at comesUp
        split at comesUp
        · cases comesUp
        next off => simpa using off
      exact fresh down (by simpa using active) (by simp)
    rw [← List.append_assoc]
    refine ih (periods.moment resolved moment fresh') ?_ fun down active member => ?_
    · cases moment with
      | send => exact resolved
      | call call rand move fits => exact translatorStep_resolved (w.env c.now) _ _ resolved
      | frame peer body arrived => exact arrived.elim
      | tick now => exact now.elim
    · obtain ⟨down', active'⟩ := moment.obp_down resolved down active
      exact fresh down' active' (by simp [member])

/-- A frame or a tick: what it makes the translator write follows the link's record. -/
theorem called {w : World} {tr : Translator} (periods : Periods i ⟨w.isUp, tr⟩ log)
    (held : (w.links i).state = .up → 0 ≤ (w.links i).fd) (resolved : Resolved w.cfg tr) (now : Rat) (ev : TrEvent)
    (notDown : ev ≠ .ccccLinkDown i) : Periods i ⟨w.isUp, (translatorStep (w.env now) ev tr).1⟩
      (log ++ w.messages (translatorStep (w.env now) ev tr).2) := by
  refine periods.append_quiet (linkMark_messages _) rfl fun up msgs before => ?_
  have state : (w.links i).state = .up := by simpa [World.isUp] using up
  rw [writtenTo_messages held, if_pos state]
  exact (translatorStep_link _ ev resolved i).obpTracked before notDown

end Periods

theorem linkUp_not_mem_of_downs {c : Ctx} {w : World} {g g' : Stage} {out : List Out}
    (moments : Trace (Moment c w TrEvent.isDown) g out g') (i : Nat) : .call (.linkUp i) ∉ out := by
  induction moments with
  | nil => simp
  | cons moment rest ih =>
    rw [List.mem_append, not_or]
    refine ⟨fun member => ?_, ih⟩
    cases moment with
    | send o plain =>
      rw [← List.mem_singleton.mp member] at plain
      exact plain
    | call call rand move fits =>
      rcases List.mem_cons.mp member with here | later
      · obtain ⟨j, down⟩ := fits
        cases here
        cases down
      · simpa [Out.linkMark] using linkMark_messages (i := i) _ _ later
    | frame peer body arrived =>
      obtain ⟨j, down⟩ := arrived
      cases down
    | tick now =>
      obtain ⟨j, down⟩ := now
      cases down

namespace System

variable {s : System} {log : List Out}

/-- Every UP link has a descriptor, and no link comes UP in the event with an obp-origin call on record. -/
structure CallsCarried (s : System) (e : Ctx × Event) : Prop where
  held : ∀ i, (s.world.links i).state = .up → 0 ≤ (s.world.links i).fd
  fresh : ∀ i, s.world.isUp i = false → (s.tr.link i).inCall .obp = true → .call (.linkUp i) ∉ (s.step e).2

theorem Sound.periods (sound : Sound s) (e : Ctx × Event) (carried : CallsCarried s e) {i : Nat}
    (periods : Periods i ⟨s.world.isUp, s.tr⟩ log) :
    Periods i ⟨(s.step e).1.world.isUp, (s.step e).1.tr⟩ (log ++ (s.step e).2) := by
  obtain ⟨c, e⟩ := e
  have resolved : Resolved s.world.cfg s.tr := sound.calls.resolved
  cases step_kind sound.wf c e with
  | frame peer body delivers logged isUp tr =>
    have arrived : Periods i ⟨s.world.isUp, s.tr⟩ (log ++ [.call (.dmrd peer body)]) :=
      periods.append_quiet (by simp [Out.linkMark]) rfl fun _ msgs before => by
        rw [show writtenTo i [Out.call (.dmrd peer body)] = [] from rfl, List.append_nil]
        exact before
    have called := arrived.called (carried.held i) resolved c.now (.obpDmrdReceived peer body) (by simp)
    rw [logged, isUp, tr, List.append_cons]
    exact called
  | mux moments => exact periods.trace moments resolved fun down active => carried.fresh i down active
  | tick fresh here more logged moments =>
    subst here
    have called := periods.called (carried.held i) resolved c.now .tick (by simp)
    rw [logged, ← List.append_assoc]
    have resolved' : Resolved ((Event.tick fresh).reloads s.world).cfg (translatorStep (s.world.env c.now) .tick s.tr).1 :=
      (resolved_of_fixed (reloads_fixed (.tick fresh) s.world) _).mpr (translatorStep_resolved (s.world.env c.now) .tick s.tr resolved)
    have byMux : Trace (Moment c ((Event.tick fresh).reloads s.world) TrEvent.ofMux) _ more _ :=
      moments.mono fun _ _ _ moment => moment.mono fun ev down => by
        obtain ⟨j, rfl⟩ := down
        trivial
    exact Periods.trace byMux called resolved' fun _ _ => linkUp_not_mem_of_downs moments i

end System

/-- In every run in which no link comes UP with an obp-origin call on record, and every UP link has a descriptor,
what is written to a link in each period it is UP is a sequence of calls. -/
theorem cc_periods_bracketed (c : Ctx) (cfg : Config) (accepted : cfg.Accepted) (es : List (Ctx × System.Event))
    (carried : Machine.Meets System.step System.CallsCarried (System.start c cfg) es) :
    let run := Machine.run System.step (System.start c cfg) es
    ∀ i, upThrough i false run.2 = some (run.1.world.isUp i) ∧
      ∀ mid, CurrentPeriod (Out.linkMark i) run.2 mid ∨ ClosedPeriod (Out.linkMark i) run.2 mid →
        ccccCall.Bracketed (writtenTo i mid) := by
  intro run i
  have started : (System.start c cfg).Sound ∧ Periods i ⟨(System.start c cfg).world.isUp, (System.start c cfg).tr⟩ [] := by
    refine ⟨System.sound_run c cfg accepted [], ?_, ?_, ?_⟩
    · have idle : (System.start c cfg).world.isUp i = false := decide_eq_false (Wf.start_notUp c cfg i)
      exact congrArg some idle.symm
    · rintro mid ⟨pre, o, split, -⟩
      simp at split
    · rintro mid ⟨pre, o, y, post, split, -⟩
      simp at split
  have kept := Machine.run_invariant System.step
    (fun s log => s.Sound ∧ Periods i ⟨s.world.isUp, s.tr⟩ log)
    (fun s log e inv carried => ⟨inv.1.step e.1 e.2, inv.1.periods e carried inv.2⟩) _ [] es carried started
  rw [List.nil_append] at kept
  obtain ⟨-, history, current, closed⟩ := kept
  refine ⟨history, fun mid period => ?_⟩
  rcases period with under | ended
  · exact (current mid under).bracketed
  · exact closed mid ended

/-! ## A link that comes UP late -/

/-- The frame as the peer of `bridgedCfg` sends it. -/
def fromPeer (body : DmrdBody) : System.Event :=
  .readable 3 (.datagram (signDmrd (bridgedCfg.openbridgeAt 0) body) (ascii "10.0.0.1") 62032)

/-- The link's other end connects and asks. -/
def comesUp : List (Ctx × System.Event) :=
  [({ now := 1 }, .readable 6 (.accepted [ascii "10.0.0.2"])),
    ({ now := 2 }, .readable 7 (.recv (.data shortQuestion)))]

theorem step_fromPeer {s : System} (cfg : s.world.cfg = bridgedCfg)
    (found : FdTable.lookup s.world.loop.fds 3 = some (.obp 0)) (c : Ctx) (flags : Byte) (slot : flags &&& obpfSlot2 = 0) :
    s.step (c, fromPeer (streamFrame flags)) = s.frameStep c 0 (streamFrame flags) := by
  refine System.step_frame c (by decide) found ?_
  rw [cfg]
  exact acceptDmrd_signDmrd (bridgedCfg.openbridgeAt 0) (bridgedCfg.openbridgeAt 0) (streamFrame flags)
    (magic_dmrdBody _ _ _ _ _ _ _) (by rw [streamFrame, flags_dmrdBody]; exact slot) rfl

/-- A VOICE_HEAD arrives, the link comes UP, and the stream's first burst arrives. -/
def headBeforeUp : List (Ctx × System.Event) :=
  ({ now := 0 }, fromPeer (streamFrame 0x21)) :: comesUp ++ [({ now := 3 }, fromPeer (streamFrame 0x10))]

/-- The states on the way, frames as the translator gets them. -/
def headArrived : System × List Out := (System.start { now := 0 } bridgedCfg).frameStep { now := 0 } 0 (streamFrame 0x21)

def upLate : System × List Out := Machine.run System.step headArrived.1 comesUp

def burstArrived : System × List Out := upLate.1.frameStep { now := 3 } 0 (streamFrame 0x10)

/-- The link is UP with the call on record that started before. -/
theorem upLate_state : upLate.1.world.cfg = bridgedCfg ∧
    FdTable.lookup upLate.1.world.loop.fds 3 = some (.obp 0) ∧ upLate.1.world.obpActive 0 = true ∧
    (upLate.1.world.links 0).state = .up ∧ (upLate.1.world.links 0).fd = 7 ∧
    (upLate.1.tr.link 0).inCall .obp = true ∧ (upLate.1.tr.link 0).call.ccSentFirst = false ∧
    (upLate.1.tr.link 0).call.streamId = #v[1, 2, 3, 4] ∧ upLate.2.length = 2 ∧
    upLate.2[1]? = some (.call (.linkUp 0)) := by
  decide +kernel

theorem run_headBeforeUp : Machine.run System.step (System.start { now := 0 } bridgedCfg) headBeforeUp =
    (burstArrived.1, headArrived.2 ++ (upLate.2 ++ burstArrived.2)) := by
  obtain ⟨cfg, found, -⟩ := upLate_state
  refine Machine.run_around (step_fromPeer (Wf.start_cfg _ _) ?_ _ _ (by decide)) rfl (step_fromPeer cfg found _ _ (by decide))
  decide +kernel

/-- The burst is the call's, and goes out as its first voice packet. -/
theorem burstArrived_log : (∀ o ∈ burstArrived.2, Out.linkMark 0 o = none) ∧
    writtenTo 0 burstArrived.2 = [.voice true] := by
  obtain ⟨cfg, -, enabled, up, fd, active, first, stream, -⟩ := upLate_state
  have own : OwnBurst upLate.1 0 0 (streamFrame 0x10) := by
    have env : (upLate.1.world.env 0).cfg = bridgedCfg := cfg
    refine ⟨⟨by decide +kernel, ?_, ?_, ?_⟩, by decide +kernel, by decide +kernel, active, ?_⟩
    · rw [env]
      decide +kernel
    · rw [env]
      decide
    · have peer : (bridgedCfg.linkAt 0).openbridgeIdx = some 0 := rfl
      have crossed : (bridgedCfg.linkAt 0).crossConnectActive = true := rfl
      have known : 0 < bridgedCfg.nOpenbridge := by decide
      simp [obpGateOpen, World.env, obpPeerIsEnabled, cfg, peer, crossed, known, enabled]
    · rw [stream, streamFrame, stream_dmrdBody]
  have log : burstArrived.2 = .call (.dmrd 0 (streamFrame 0x10)) :: upLate.1.world.messages
      (translatorStep (upLate.1.world.env 3) (.obpDmrdReceived 0 (streamFrame 0x10)) upLate.1.tr).2 :=
    System.frameStep_out _ _ _ _
  have held : (upLate.1.world.links 0).state = .up → 0 ≤ (upLate.1.world.links 0).fd := fun _ => by rw [fd]; decide
  refine ⟨fun o member => ?_, ?_⟩
  · rw [log] at member
    rcases List.mem_cons.mp member with rfl | later
    · rfl
    · exact linkMark_messages _ o later
  · have sent := writtenTo_messages held [.ccccSendVoice 0 (voiceNumbers (upLate.1.tr.link 0).call.callStartTime 3).1
      (voiceNumbers (upLate.1.tr.link 0).call.callStartTime 3).2 (!(upLate.1.tr.link 0).call.ccSentFirst)
      (ccccAmbePack21 (extractAmbe (streamFrame 0x10).payload))]
    rw [if_pos up, first] at sent
    rw [log, translatorStep_ownBurst own, first]
    exact sent

/-- What comes behind a link-up call that ends an event. -/
theorem currentPeriod_behind {i : Nat} {before event later : List Out} (two : event.length = 2)
    (comes : event[1]? = some (.call (.linkUp i))) (quiet : ∀ o ∈ later, Out.linkMark i o = none) :
    CurrentPeriod (Out.linkMark i) (before ++ (event ++ later)) later := by
  obtain ⟨answer, up, rfl⟩ := List.length_eq_two.mp two
  obtain rfl : up = .call (.linkUp i) := by simpa using comes
  exact ⟨before ++ [answer], .call (.linkUp i), by simp, by simp [Out.linkMark], quiet⟩

/-- The B-on of a call that started before the link came UP is lost, the voice behind it is written. -/
theorem cc_voice_without_bon : ¬∀ (c : Ctx) (cfg : Config), cfg.Accepted → ∀ es : List (Ctx × System.Event),
    let run := Machine.run System.step (System.start c cfg) es
    ∀ i mid, CurrentPeriod (Out.linkMark i) run.2 mid ∨ ClosedPeriod (Out.linkMark i) run.2 mid →
      ccccCall.Bracketed (writtenTo i mid) := by
  intro bracketed
  obtain ⟨-, -, -, -, -, -, -, -, two, comes⟩ := upLate_state
  obtain ⟨quiet, written⟩ := burstArrived_log
  have log : (Machine.run System.step (System.start { now := 0 } bridgedCfg) headBeforeUp).2 =
      headArrived.2 ++ (upLate.2 ++ burstArrived.2) := congrArg Prod.snd run_headBeforeUp
  have period : CurrentPeriod (Out.linkMark 0)
      (Machine.run System.step (System.start { now := 0 } bridgedCfg) headBeforeUp).2 burstArrived.2 := by
    rw [log]
    exact currentPeriod_behind two comes quiet
  have whole := bracketed { now := 0 } bridgedCfg (by decide) headBeforeUp 0 burstArrived.2 (.inl period)
  rw [written] at whole
  cases whole.opens_head

/-- The connection that is accepted makes no call. -/
theorem accepted_tr : ((System.start { now := 0 } bridgedCfg).step
    ({ now := 1 }, .readable 6 (.accepted [ascii "10.0.0.2"]))).1.tr = {} := by
  have silent : (World.readable { now := 1 } 6 (.accepted [ascii "10.0.0.2"])
      (System.start { now := 0 } bridgedCfg).cleared.world.unlogged).out = [] := by decide +kernel
  have reacts : (System.start { now := 0 } bridgedCfg).cleared.react { now := 1 } (.readable 6 (.accepted [ascii "10.0.0.2"])) =
      System.callback { now := 1 } (World.readable { now := 1 } 6 (.accepted [ascii "10.0.0.2"]))
        (System.start { now := 0 } bridgedCfg).cleared := rfl
  have cleared : ∀ s : System, s.cleared.tr = s.tr := fun _ => rfl
  rw [System.step_state, reacts, System.callback_silent _ silent, cleared]
  rfl

/-- The link comes UP with nothing on record. -/
theorem comesUp_carried : Machine.Meets System.step System.CallsCarried (System.start { now := 0 } bridgedCfg) comesUp := by
  have idle : ∀ s : System, s.tr = {} → ∀ i, (s.tr.link i).inCall .obp = true → False := by
    intro s none i active
    rw [none] at active
    cases active
  have wf : Wf { orphans := False } ((System.start { now := 0 } bridgedCfg).step
      ({ now := 1 }, .readable 6 (.accepted [ascii "10.0.0.2"]))).1.world :=
    System.wf_run { now := 0 } bridgedCfg (by decide) False
      [({ now := 1 }, .readable 6 (.accepted [ascii "10.0.0.2"]))] fun _ => ⟨trivial, trivial⟩
  refine ⟨⟨fun i up => ?_, fun i _ active => ?_⟩, ⟨fun i up => ?_, fun i _ active => ?_⟩, trivial⟩
  · exact absurd up (Wf.start_notUp _ _ i)
  · exact (idle _ rfl i active).elim
  · by_contra negative
    exact ((wf.links i).orphan up (not_le.mp negative)).1
  · exact (idle _ accepted_tr i active).elim

theorem cc_periods_bracketed_comesUp :
    let run := Machine.run System.step (System.start { now := 0 } bridgedCfg) comesUp
    ∀ i, upThrough i false run.2 = some (run.1.world.isUp i) ∧
      ∀ mid, CurrentPeriod (Out.linkMark i) run.2 mid ∨ ClosedPeriod (Out.linkMark i) run.2 mid →
        ccccCall.Bracketed (writtenTo i mid) :=
  cc_periods_bracketed { now := 0 } bridgedCfg (by decide) comesUp comesUp_carried

end Cc2obp
