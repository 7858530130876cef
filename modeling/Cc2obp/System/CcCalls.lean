import Cc2obp.System.Moments
import Cc2obp.Translate.Calls

/-!
# Calls from CC-CC

A call that came from CC-CC is on record only while its link is UP. The link-down
call of the mux, made exactly when an UP link stops being UP, takes it off the
record and announces its end to the peer.
-/
namespace Cc2obp

open World

/-! ## What a link's record owes to the events -/

/-- A cc-origin call was there before, or a B-on of its link starts it. -/
theorem LinkStep.cc_after {env : Env} {i : Nat} {ev : TrEvent} {lr lr' : LinkRuntime} {out : List TrOut}
    (step : LinkStep env i ev lr out lr') (after : lr'.inCall .cc = true) :
    lr.inCall .cc = true ∨ ∃ radioId peerId srcLid tgid callType rand,
      ev = .ccccBon i radioId peerId srcLid tgid callType rand := by
  cases step with
  | quiet => exact .inl after
  | ccStart => exact .inr ⟨_, _, _, _, _, _, rfl⟩
  | ccBurst _ _ _ _ _ _ _ active => exact .inl active
  | ccEnd => cases after
  | obpStart => cases after
  | obpOrphan => cases after
  | obpBurst => exact .inl after
  | obpEnd => cases after
  | cleared => cases after

theorem linkDown_hasCall (env : Env) (i : Nat) (tr : Translator) :
    ((translatorCcccLinkDown env i tr).1.link i).hasCall = false := by
  simp only [translatorCcccLinkDown]
  split <;> simp

/-- Without a cc-origin call nothing is sent when the link goes down. -/
theorem linkDown_idle (env : Env) (i : Nat) (tr : Translator) (idle : (tr.link i).inCall .cc = false) :
    (translatorCcccLinkDown env i tr).2 = [] := by
  simp [translatorCcccLinkDown, idle]

/-- A cc-origin call ends with one VOICE_TERM of its stream. -/
theorem linkDown_active (env : Env) {i : Nat} {tr : Translator} {peer : Nat}
    (resolved : (env.cfg.linkAt i).openbridgeIdx = some peer) (active : (tr.link i).inCall .cc = true) :
    (translatorCcccLinkDown env i tr).2 = [.obpSendDmrd i peer (fillDmrd (env.cfg.linkAt i) (tr.link i).call
      (BitVec.ofNat 8 (tr.obpSeqCtr peer)) vtermFlags (buildHeadTermPayload (tr.link i).call.lc true))] := by
  simp [translatorCcccLinkDown, active, sendObpVoiceTerm, sendDmrd_some env i _ _ resolved]

/-- What every moment of a run keeps: resolved peers, and cc-origin calls on UP links only. -/
structure CallsUp (cfg : Config) (g : Stage) : Prop where
  resolved : Resolved cfg g.tr
  up : ∀ i, (g.tr.link i).inCall .cc = true → g.up i = true

theorem CallsUp.moment {c : Ctx} {w : World} {ok : TrEvent → Prop} {g g' : Stage} {out : List Out}
    (inv : CallsUp w.cfg g) (moment : Moment c w ok g out g') : CallsUp w.cfg g' := by
  obtain ⟨resolved, up⟩ := inv
  -- an event that leaves every link as it is and is no B-on starts no call
  have quiet : ∀ ev : TrEvent, (∀ i radioId peerId srcLid tgid callType rand,
      ev ≠ .ccccBon i radioId peerId srcLid tgid callType rand) →
      ∀ i, ((translatorStep (w.env c.now) ev g.tr).1.link i).inCall .cc = true → g.up i = true := by
    intro ev noBon i after
    rcases (translatorStep_link (w.env c.now) ev resolved i).cc_after after with before | ⟨_, _, _, _, _, _, bon⟩
    · exact up i before
    · exact absurd bon (noBon i _ _ _ _ _ _)
  cases moment with
  | send o plain => exact ⟨resolved, up⟩
  | frame peer body => exact ⟨translatorStep_resolved (w.env c.now) _ _ resolved, quiet _ (by simp)⟩
  | tick => exact ⟨translatorStep_resolved (w.env c.now) _ _ resolved, quiet _ (by simp)⟩
  | @call before upNow tr call rand move _ =>
    refine ⟨translatorStep_resolved (w.env c.now) _ _ resolved, fun j after => ?_⟩
    cases move with
    | send o plain => exact absurd plain id
    | linkUp i idle =>
      by_cases here : j = i
      · simp [here]
      · simpa [here] using quiet _ (by simp [TrCall.event]) j after
    | linkDown i was =>
      by_cases here : j = i
      · subst here
        have cleared := linkDown_hasCall (w.env c.now) j tr
        simp only [TrCall.event, translatorStep, LinkRuntime.inCall, cleared] at after
        cases after
      · simpa [here] using quiet _ (by simp [TrCall.event]) j after
    | bon i radio peer srcLid tgid callType on =>
      rcases (translatorStep_link (w.env c.now) _ resolved j).cc_after after with
        before | ⟨_, _, _, _, _, _, bon⟩
      · exact up j before
      · simp only [TrCall.event, TrEvent.ccccBon.injEq] at bon
        exact bon.1 ▸ on
    | boff i lost total on => exact quiet _ (by simp [TrCall.event]) j after
    | voice i seq timestamp marker ambe21 => exact quiet _ (by simp [TrCall.event]) j after

theorem CallsUp.trace {c : Ctx} {w : World} {ok : TrEvent → Prop} {g g' : Stage} {out : List Out}
    (moments : Trace (Moment c w ok) g out g') (inv : CallsUp w.cfg g) : CallsUp w.cfg g' :=
  moments.invariant (fun g _ => CallsUp w.cfg g) (fun _ _ _ _ kept moment => kept.moment moment) [] inv

/-! ## Whether a link is UP, read off the log -/

/-- Whether a link is UP after an item; link-up and link-down calls must alternate. -/
def Out.upAfter (i : Nat) (up : Bool) : Out → Option Bool
  | .call (.linkUp j) => if j = i then if up then none else some true else some up
  | .call (.linkDown j) => if j = i then if up then some false else none else some up
  | _ => some up

/-- Whether a link is UP after all items of a log. -/
def upThrough (i : Nat) (up : Bool) (log : List Out) : Option Bool := log.foldlM (Out.upAfter i) up

theorem upThrough_append (i : Nat) (up : Bool) (log log' : List Out) :
    upThrough i up (log ++ log') = (upThrough i up log).bind fun up' => upThrough i up' log' :=
  List.foldlM_append

theorem upThrough_cons (i : Nat) (up : Bool) (o : Out) (log : List Out) :
    upThrough i up (o :: log) = (o.upAfter i up).bind fun up' => upThrough i up' log := rfl

/-- What the translator makes the modules write tells nothing about a link. -/
theorem upThrough_messages (i : Nat) (up : Bool) (w : World) (outs : List TrOut) :
    upThrough i up (w.messages outs) = some up := by
  have silent : ∀ o ∈ w.messages outs, o.upAfter i up = some up := by
    intro o member
    obtain ⟨t, -, writes⟩ := mem_messages w member
    cases writes <;> rfl
  revert silent
  generalize w.messages outs = log
  intro silent
  induction log with
  | nil => rfl
  | cons o rest ih =>
    rw [upThrough_cons, silent o (by simp)]
    exact ih fun o member => silent o (by simp [member])

theorem upThrough_plain (i : Nat) (up : Bool) {o : Out} (plain : o.plain) : o.upAfter i up = some up := by
  cases o with
  | call => exact absurd plain id
  | _ => rfl

theorem upThrough_moment {c : Ctx} {w : World} {ok : TrEvent → Prop} {g g' : Stage} {out : List Out}
    (moment : Moment c w ok g out g') (i : Nat) : upThrough i (g.up i) out = some (g'.up i) := by
  cases moment with
  | send o plain => simp [upThrough_plain i _ plain, upThrough]
  | frame => exact upThrough_messages i _ w _
  | tick => exact upThrough_messages i _ w _
  | @call up up' tr call rand move _ =>
    rw [upThrough_cons]
    have turn : Out.upAfter i (up i) (.call call) = some (up' i) := by
      cases move with
      | send o plain => exact absurd plain id
      | linkUp j idle =>
        by_cases here : j = i
        · subst here
          simp [Out.upAfter, idle]
        · simp [Out.upAfter, here, Ne.symm here]
      | linkDown j was =>
        by_cases here : j = i
        · subst here
          simp [Out.upAfter, was]
        · simp [Out.upAfter, here, Ne.symm here]
      | _ => rfl
    rw [turn]
    exact upThrough_messages i _ w _

/-- The calls of an event account for every link that comes UP or goes down. -/
theorem upThrough_trace {c : Ctx} {w : World} {ok : TrEvent → Prop} {g g' : Stage} {out : List Out}
    (moments : Trace (Moment c w ok) g out g') (i : Nat) : upThrough i (g.up i) out = some (g'.up i) := by
  induction moments with
  | nil => rfl
  | cons first rest ih =>
    rw [upThrough_append, upThrough_moment first i]
    exact ih

/-! ## The calls of an event -/

namespace System

variable {s : System}

/-- A call on record has been handed to the translator, in a state all of whose peers are resolved. -/
theorem mem_callsIn (c : Ctx) {cfg : Config} (items : List (Out × Nat)) (s : System) (same : s.world.cfg = cfg)
    (resolved : Resolved cfg s.tr) {x : System × TrCall × System} (member : x ∈ callsIn c items s) :
    Resolved x.1.world.cfg x.1.tr ∧ ∃ rand, x.2.2 = x.1.translate c (x.2.1.event rand) := by
  induction items generalizing s with
  | nil => cases member
  | cons item rest ih =>
    obtain ⟨o, k⟩ := item
    have kept : (s.replay c (o, k)).world.cfg = cfg := by
      rw [cfg_of_core (core_replay c s (o, k)), same]
    have resolved' : Resolved cfg (s.replay c (o, k)).tr := by
      cases o with
      | call call =>
        have env : ((s.world.emit (.call call)).env c.now).cfg = cfg := same
        rw [← env] at resolved ⊢
        exact translatorStep_resolved _ _ _ resolved
      | _ => exact resolved
    cases o with
    | call call =>
      rcases List.mem_cons.mp member with rfl | later
      · refine ⟨?_, c.rand k, rfl⟩
        show Resolved s.world.cfg s.tr
        rw [same]
        exact resolved
      · exact ih _ kept resolved' later
    | tcp => exact ih _ kept resolved' member
    | udp => exact ih _ kept resolved' member

/-- A link that goes down has no call left. Of a cc-origin call exactly one VOICE_TERM is handed over, and
it leaves if the peer has a socket; otherwise nothing is sent. -/
def LinkDownEnds (x : System × TrCall × System) (now : Rat) : Prop :=
  ∀ i, x.2.1 = .linkDown i →
    (x.2.2.tr.link i).hasCall = false ∧
    ((x.1.tr.link i).inCall .cc = false → x.2.2.world.out = x.1.world.out) ∧
    ((x.1.tr.link i).inCall .cc = true → ∃ peer body,
      (x.1.world.cfg.linkAt i).openbridgeIdx = some peer ∧
      (translatorStep (x.1.world.env now) (.ccccLinkDown i) x.1.tr).2 = [.obpSendDmrd i peer body] ∧
      body.flags = vtermFlags ∧ body.stream = (x.1.tr.link i).call.streamId ∧
      x.2.2.world.out = x.1.world.out ++ x.1.world.datagram (.obpSendDmrd i peer body))

theorem linkDownEnds_of_mem (c : Ctx) {cfg : Config} (items : List (Out × Nat)) (s : System)
    (same : s.world.cfg = cfg) (resolved : Resolved cfg s.tr) :
    ∀ x ∈ callsIn c items s, LinkDownEnds x c.now := by
  intro x member i down
  obtain ⟨known, rand, returned⟩ := mem_callsIn c items s same resolved member
  rw [down] at returned
  have tr : x.2.2.tr = (translatorCcccLinkDown (x.1.world.env c.now) i x.1.tr).1 := by rw [returned]; rfl
  have out : x.2.2.world.out = x.1.world.out ++
      x.1.world.messages (translatorCcccLinkDown (x.1.world.env c.now) i x.1.tr).2 := by
    rw [returned, translate_out]
    rfl
  refine ⟨by rw [tr]; exact linkDown_hasCall _ i _, fun idle => ?_, fun active => ?_⟩
  · rw [out, linkDown_idle _ i _ idle]
    simp [World.messages]
  · obtain ⟨peer, resolved⟩ := Option.ne_none_iff_exists'.mp (known i active)
    have sent := linkDown_active (x.1.world.env c.now) resolved active
    refine ⟨peer, _, resolved, sent, by simp [fillDmrd], by simp [fillDmrd], ?_⟩
    rw [out, sent, messages_frames _ _ (by simp [TrOut.isCc])]
    simp

/-! ## Every reachable state -/

/-- What a run keeps of the composed system. -/
structure Sound (s : System) : Prop where
  wf : Wf { orphans := True } s.world
  calls : CallsUp s.world.cfg ⟨s.world.isUp, s.tr⟩

theorem callsUp_of_fixed {a b : Config} (same : a.fixed = b.fixed) {g : Stage} (calls : CallsUp a g) : CallsUp b g :=
  ⟨(resolved_of_fixed same g.tr).mp calls.resolved, calls.up⟩

theorem Sound.step (sound : Sound s) (c : Ctx) (e : Event) : Sound (s.step (c, e)).1 := by
  obtain ⟨mid, before, after, -, first, second⟩ := step_moments sound.wf c e
  refine ⟨wf_step sound.wf (c, e) (by simp), ?_⟩
  rw [step_cfg sound.wf c e]
  exact .trace second (callsUp_of_fixed (reloads_fixed e s.world).symm (.trace first sound.calls))

theorem sound_run (c : Ctx) (cfg : Config) (accepted : cfg.Accepted) (es : List (Ctx × Event)) :
    Sound (Machine.run System.step (System.start c cfg) es).1 := by
  have started : Sound (System.start c cfg) := by
    refine ⟨System.wf_run c cfg accepted True [] (by simp), ⟨fun i active => ?_, fun i active => ?_⟩⟩
    · cases active
    · cases active
  exact Machine.run_state_invariant System.step Sound (fun s e sound (_ : True) => sound.step e.1 e.2) _ es
    (Machine.meets_of_forall _ _ _ _ fun _ _ _ => trivial) started

/-- Every call of an event that takes a link down ends the link's call. -/
theorem Sound.linkDowns (sound : Sound s) (e : Ctx × Event) : ∀ x ∈ s.calls e, LinkDownEnds x e.1.now := by
  obtain ⟨c, e⟩ := e
  have unlogged : Wf { orphans := True } s.cleared.world.unlogged := wf_unlogged (wf_unlogged sound.wf)
  -- the calls of a callback that leaves the configuration alone
  have ofWorks : ∀ f : World → World, (f s.cleared.world.unlogged).cfg = s.world.cfg →
      ∀ x ∈ s.cleared.callbackCalls c f, LinkDownEnds x c.now := fun f cfg =>
    linkDownEnds_of_mem c _ _ cfg sound.calls.resolved
  cases e with
  | readable fd input =>
    refine ofWorks _ ?_
    rcases readable_works c (w := s.cleared.world.unlogged) fd input with works | ⟨peer, body, -, called⟩
    · exact works.cfg
    · rw [called]
      rfl
  | writable fd connected => exact ofWorks _ (writable_works c unlogged fd connected).cfg
  | timer id => exact ofWorks _ (fire_works c unlogged id).cfg
  | tick fresh =>
    cases fresh with
    | none =>
      intro x member
      cases member
    | some fresh =>
      show ∀ x ∈ callbackCalls c (ccccMuxReconcile c) { s.cleared.translate c .tick with
        world := (s.cleared.translate c .tick).world.reload fresh }, LinkDownEnds x c.now
      -- the reconcile runs after the tick, on the reloaded configuration
      have resolved : Resolved s.world.cfg (s.cleared.translate c .tick).tr :=
        translatorStep_resolved (s.cleared.world.env c.now) .tick s.tr sound.calls.resolved
      obtain ⟨core, -, -⟩ := tick_moment c s none
      generalize s.cleared.translate c .tick = ticked at core resolved
      have cfg : ticked.world.cfg = s.world.cfg := ((core_eq_iff _ _).mp core).1
      have ready : Wf { orphans := True, stale := fun _ => True } (ticked.world.reload fresh).unlogged := by
        have kept : Wf { orphans := True } ticked.world := sound.wf.of_core core.symm
        exact wf_unlogged (s := { ticked with world := ticked.world.reload fresh }) (kept.reloaded fresh)
      refine linkDownEnds_of_mem c _ _ (reconcile_works c ready).cfg ?_
      refine (resolved_of_fixed ?_ _).mpr resolved
      rw [← cfg]
      exact fixed_configReloadToggles fresh ticked.world.cfg

theorem Sound.shutdownDowns (sound : Sound s) (c : Ctx) : ∀ x ∈ s.shutdownCalls c, LinkDownEnds x c.now :=
  linkDownEnds_of_mem c _ _ (stop_works c s.cleared.world.unlogged).cfg sound.calls.resolved

end System

/-! ## The calls of an event are those of its log -/

theorem trCall_writes {w : World} {t : TrOut} {o : Out} (writes : Writes w t o) : o.trCall = none := by
  cases writes <;> rfl

theorem trCall_messages (w : World) (outs : List TrOut) : (w.messages outs).filterMap Out.trCall = [] :=
  filterMap_messages w (fun _ _ _ => trCall_writes) outs

namespace System

variable {s : System}

theorem trCall_translate (c : Ctx) (ev : TrEvent) (s : System) :
    (s.translate c ev).world.out.filterMap Out.trCall = s.world.out.filterMap Out.trCall := by
  rw [translate_out, List.filterMap_append, trCall_messages, List.append_nil]

theorem trCall_callsIn (c : Ctx) (items : List (Out × Nat)) (s : System) :
    (items.foldl (replay c) s).world.out.filterMap Out.trCall =
      s.world.out.filterMap Out.trCall ++ (callsIn c items s).map fun x => x.2.1 := by
  induction items generalizing s with
  | nil => simp [callsIn]
  | cons item rest ih =>
    obtain ⟨o, k⟩ := item
    rw [List.foldl_cons, ih]
    cases o with
    | call call =>
      have called : (s.replay c (.call call, k)).world.out.filterMap Out.trCall =
          s.world.out.filterMap Out.trCall ++ [call] := by
        rw [show s.replay c (.call call, k) = System.translate c (call.event (c.rand k))
          { s with world := s.world.emit (.call call) } from rfl, trCall_translate]
        simp [World.emit, Out.trCall]
      simp [called, callsIn]
    | tcp link fd msg bytes => simp [replay, callsIn, World.emit, Out.trCall]
    | udp fd msg bytes ip port => simp [replay, callsIn, World.emit, Out.trCall]

theorem trCall_callback (c : Ctx) (f : World → World) (s : System) :
    (s.callback c f).world.out.filterMap Out.trCall =
      s.world.out.filterMap Out.trCall ++ (s.callbackCalls c f).map fun x => x.2.1 :=
  trCall_callsIn c _ _

theorem trCall_step (s : System) (e : Ctx × Event) :
    (s.step e).2.filterMap Out.trCall = (s.calls e).map fun x => x.2.1 := by
  obtain ⟨c, e⟩ := e
  rw [step_out]
  cases e with
  | readable fd input => exact trCall_callback c _ s.cleared
  | writable fd connected => exact trCall_callback c _ s.cleared
  | timer id => exact trCall_callback c _ s.cleared
  | tick fresh =>
    have ticked := trCall_translate c .tick s.cleared
    cases fresh with
    | none => exact ticked
    | some fresh =>
      simp only [react, tickCb, doReload]
      obtain ⟨out, -, -, -⟩ := callback_sockets c
        (s := System.callback c (ccccMuxReconcile c) { s.cleared.translate c .tick with
          world := (s.cleared.translate c .tick).world.reload fresh })
        (SocketsOnly.reconcile c _)
      rw [out, trCall_callback]
      have before : ((s.cleared.translate c .tick).world.reload fresh).out.filterMap Out.trCall = [] := ticked
      rw [before]
      rfl

/-- The calls of an event account for every link that comes UP or goes down in it. -/
theorem upThrough_step {orphans : Prop} (wf : Wf { orphans } s.world) (e : Ctx × Event) (i : Nat) :
    upThrough i (s.world.isUp i) (s.step e).2 = some ((s.step e).1.world.isUp i) := by
  obtain ⟨c, e⟩ := e
  obtain ⟨mid, before, after, logged, first, second⟩ := step_moments wf c e
  rw [logged, upThrough_append, upThrough_trace first i]
  exact upThrough_trace second i

theorem upThrough_shutdown (c : Ctx) (s : System) (i : Nat) :
    upThrough i (s.world.isUp i) (s.shutdown c).2 = some ((s.shutdown c).1.world.isUp i) := by
  have moments := shutdown_moments c s
  generalize s.shutdown c = stopped at moments ⊢
  exact upThrough_trace moments i

theorem trCall_shutdown (c : Ctx) (s : System) :
    (s.shutdown c).2.filterMap Out.trCall = (s.shutdownCalls c).map fun x => x.2.1 := by
  simp only [shutdown]
  obtain ⟨out, -, -, -⟩ := callback_sockets c (s := s.cleared.callback c (ccccMuxStop c)) (SocketsOnly.stop _)
  rw [out, trCall_callback]
  rfl

/-! ## Shutdown -/

theorem stopLink_other (c : Ctx) (w : World) {i j : Nat} (other : j ≠ i) :
    (stopLink c w i).links j = w.links j ∧ ((stopLink c w i).links i).state = .down := by
  simp only [stopLink]
  split
  · refine ⟨?_, teardown_state c i _⟩
    rw [teardown_links]
    simp [other, World.setLink, World.onLoop]
  next down => simpa [other, World.setLink, World.onLoop] using down

/-- The mux's shutdown leaves every link DOWN. -/
theorem stop_down (c : Ctx) (w : World) (beyond : ∀ i, w.cfg.nLink ≤ i → w.links i = {}) :
    ∀ i, ((ccccMuxStop c w).links i).state = .down := by
  have stopped := List.foldl_turns (stopLink c) (fun rest v => ∀ i, i ∉ rest → (v.links i).state = .down) ?_
    (List.range w.cfg.nLink) w ?_
  · have slots := List.foldl_turns stopPending
      (fun _ v => v.links = ((List.range w.cfg.nLink).foldl (stopLink c) w).links) (fun s rest v same => by
        rw [← same, stopPending]
        split
        · simp only [freePending]
          split <;> rfl
        · rfl) (List.range maxPending) _ rfl
    intro i
    simp only [ccccMuxStop, closeShared_links, slots]
    exact stopped i (by simp)
  · intro i rest v before j outside
    by_cases here : j = i
    · subst here
      exact (stopLink_other c v (Nat.succ_ne_self j)).2
    · rw [(stopLink_other c v here).1]
      exact before j (by simp [here, outside])
  · intro i outside
    simp [beyond i (by simpa using outside)]

theorem shutdown_down {ph : Phase} (wf : Wf ph s.world) (c : Ctx) (i : Nat) :
    ((s.shutdown c).1.world.links i).state = .down := by
  have stopped : (s.cleared.callback c (ccccMuxStop c)).world.links =
      (ccccMuxStop c s.cleared.world.unlogged).links := links_of_core (core_callback c _ _)
  have kept : ((s.cleared.callback c (ccccMuxStop c)).callback c obpMuxStop).world.links =
      (s.cleared.callback c (ccccMuxStop c)).world.links := by
    rw [links_of_core (core_callback c _ _), (SocketsOnly.stop _).links]
    rfl
  have cleared : ∀ s' : System, s'.cleared.world.links = s'.world.links := fun _ => rfl
  simp only [shutdown]
  rw [cleared, kept, stopped]
  have beyond : ∀ i, s.cleared.world.unlogged.cfg.nLink ≤ i → s.cleared.world.unlogged.links i = {} := wf.beyond
  exact stop_down c s.cleared.world.unlogged beyond i

end System

/-- A transition, by its log, its calls and the states around it: it calls the translator exactly when a
link comes UP or goes down, and each link-down call ends the link's call. -/
structure System.EndsCalls (s s' : System) (log : List Out) (calls : List (System × TrCall × System))
    (now : Rat) : Prop where
  history : ∀ i, upThrough i (s.world.isUp i) log = some (s'.world.isUp i)
  logged : log.filterMap Out.trCall = calls.map fun x => x.2.1
  ended : ∀ x ∈ calls, System.LinkDownEnds x now

/-- In every state a run reaches a cc-origin call is on an UP link; every event and the shutdown end the
calls of the links they take down, and the shutdown leaves no cc-origin call. -/
theorem cc_calls_on_up_links (c : Ctx) (cfg : Config) (accepted : cfg.Accepted)
    (es : List (Ctx × System.Event)) :
    let s := (Machine.run System.step (System.start c cfg) es).1
    (∀ i, (s.tr.link i).inCall .cc = true → (s.world.links i).state = .up) ∧
      (∀ e, System.EndsCalls s (s.step e).1 (s.step e).2 (s.calls e) e.1.now) ∧
      ∀ c', System.EndsCalls s (s.shutdown c').1 (s.shutdown c').2 (s.shutdownCalls c') c'.now ∧
        ∀ i, ((s.shutdown c').1.world.links i).state = .down ∧
          ((s.shutdown c').1.tr.link i).inCall .cc = false := by
  intro s
  have sound : s.Sound := System.sound_run c cfg accepted es
  refine ⟨fun i active => by simpa [World.isUp] using sound.calls.up i active,
    fun e => ⟨System.upThrough_step sound.wf e, System.trCall_step s e, sound.linkDowns e⟩,
    fun c' => ⟨⟨System.upThrough_shutdown c' s, System.trCall_shutdown c' s, sound.shutdownDowns c'⟩, fun i => ?_⟩⟩
  have down : ((s.shutdown c').1.world.links i).state = .down := System.shutdown_down sound.wf c' i
  refine ⟨down, ?_⟩
  have after := CallsUp.trace (System.shutdown_moments c' s) sound.calls
  by_contra active
  have up := after.up i (by simpa using active)
  simp [World.isUp, down] at up

/-- One inbound link that has been connected. -/
theorem cc_calls_on_up_links_inbound :
    let s := (Machine.run System.step (System.start { now := 0 } inboundCfg) (connectAndSend shortQuestion)).1
    (∀ i, (s.tr.link i).inCall .cc = true → (s.world.links i).state = .up) ∧
      (∀ e, System.EndsCalls s (s.step e).1 (s.step e).2 (s.calls e) e.1.now) ∧
      ∀ c', System.EndsCalls s (s.shutdown c').1 (s.shutdown c').2 (s.shutdownCalls c') c'.now ∧
        ∀ i, ((s.shutdown c').1.world.links i).state = .down ∧
          ((s.shutdown c').1.tr.link i).inCall .cc = false :=
  cc_calls_on_up_links { now := 0 } inboundCfg (by decide) (connectAndSend shortQuestion)

end Cc2obp
