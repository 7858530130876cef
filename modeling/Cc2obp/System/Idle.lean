import Cc2obp.System.Reload

/-!
# Idle calls

How long ago the calls on record were last active. Events only make calls more recent, and
a tick leaves none that has been idle for longer than the timeout.
-/
namespace Cc2obp

/-! ## Calls on record -/

/-- A call on record is that of a configured link, by one of the two sides, and was active no earlier than `since`. -/
structure ActiveSince (cfg : Config) (since : Rat) (i : Nat) (lr : LinkRuntime) : Prop where
  inside : i < cfg.nLink
  side : lr.call.origin ≠ .none
  recent : since ≤ lr.call.lastActivity

/-- Every call on record has been active since then. -/
def CallsSince (cfg : Config) (since : Rat) (tr : Translator) : Prop :=
  ∀ i, (tr.link i).hasCall = true → ActiveSince cfg since i (tr.link i)

section Steps
variable {env : Env} {i : Nat} {ev : TrEvent} {lr lr' : LinkRuntime} {out : List TrOut} {since : Rat} {tr : Translator}

theorem inside_of_gate (gate : obpGateOpen env i = true) : i < env.cfg.nLink := by
  by_contra outside
  have blank := Config.linkAt_beyond (not_lt.mp outside)
  simp [obpGateOpen, blank] at gate

theorem inside_of_enabled (enabled : (env.cfg.linkAt i).enabled = true) : i < env.cfg.nLink := by
  by_contra outside
  rw [Config.linkAt_beyond (not_lt.mp outside)] at enabled
  cases enabled

theorem hasCall_of_inCall {origin : CallOrigin} (active : lr.inCall origin = true) : lr.hasCall = true := by
  simp only [LinkRuntime.inCall, Bool.and_eq_true] at active
  exact active.1

/-- A link's step leaves a call that was active before, or is active now. -/
theorem LinkStep.activeSince (step : LinkStep env i ev lr out lr') (now : since ≤ env.now)
    (before : lr.hasCall = true → ActiveSince env.cfg since i lr) (after : lr'.hasCall = true) :
    ActiveSince env.cfg since i lr' := by
  cases step with
  | quiet =>
    obtain ⟨inside, side, recent⟩ := before after
    exact ⟨inside, side, recent⟩
  | ccStart _ radioId peerId srcLid tgid callType rand resolved gate => exact ⟨inside_of_gate gate, by simp [ccCall], now⟩
  | ccBurst _ _ _ _ _ _ _ active =>
    obtain ⟨inside, side, -⟩ := before (hasCall_of_inCall active)
    exact ⟨inside, side, now⟩
  | ccEnd => cases after
  | obpStart _ peer body admitted => exact ⟨inside_of_enabled admitted.2.2.1, by simp [obpCall], now⟩
  | obpOrphan _ peer body admitted => exact ⟨inside_of_enabled admitted.2.2.1, by simp [obpCall], now⟩
  | obpBurst _ _ _ _ _ _ active =>
    obtain ⟨inside, side, -⟩ := before (hasCall_of_inCall active)
    exact ⟨inside, side, now⟩
  | obpEnd => cases after
  | cleared => cases after

theorem CallsSince.step (fresh : CallsSince env.cfg since tr) (resolved : Resolved env.cfg tr) (now : since ≤ env.now) (ev : TrEvent) :
    CallsSince env.cfg since (translatorStep env ev tr).1 :=
  fun i => (translatorStep_link env ev resolved i).activeSince now (fresh i)

/-- A link's turn in the tick ends its call if that has been idle for too long. -/
theorem tickLink_recent (side : (tr.link i).hasCall = true → (tr.link i).call.origin ≠ .none)
    (after : ((tickLink env i tr).1.link i).hasCall = true) :
    (tickLink env i tr).1.link i = tr.link i ∧ env.now - callIdleTimeoutS ≤ (tr.link i).call.lastActivity := by
  unfold tickLink at after ⊢
  dsimp only at after ⊢
  split at after
  next late =>
    -- it would have been ended
    exfalso
    simp only [Bool.and_eq_true, decide_eq_true_eq] at late
    split at after
    next obp =>
      have active : (tr.link i).inCall .obp = true := by simp [LinkRuntime.inCall, late.1, obp]
      rw [endObpOriginCall_active active] at after
      simp [clearCall, setLink_self] at after
    next notObp =>
      have cc : (tr.link i).call.origin = .cc := by
        cases origin : (tr.link i).call.origin with
        | none => exact absurd origin (side late.1)
        | cc => rfl
        | obp => exact absurd origin notObp
      have active : (tr.link i).inCall .cc = true := by simp [LinkRuntime.inCall, late.1, cc]
      simp [endCcOriginCall, active, clearCall, setLink_self] at after
  next soon =>
    rw [if_neg soon]
    simp only [Bool.and_eq_true, decide_eq_true_eq, not_and, not_lt] at soon
    exact ⟨rfl, sub_le_comm.mp (soon after)⟩

/-- After the tick every call on record has been active within the timeout. -/
theorem CallsSince.tick (fresh : CallsSince env.cfg since tr) :
    CallsSince env.cfg (env.now - callIdleTimeoutS) (translatorStep env .tick tr).1 := by
  intro i after
  have turn := tickLoop_view env i (List.range env.cfg.nLink) List.nodup_range (tr, [])
  have same : (translatorStep env .tick tr).1 = ((List.range env.cfg.nLink).foldl (tickStep env) (tr, [])).1 := by
    rw [← translatorTick_eq]
    rfl
  rw [same] at after ⊢
  by_cases inside : i < env.cfg.nLink
  · simp only [List.mem_range, inside, if_true] at turn
    rw [turn.1] at after ⊢
    obtain ⟨kept, recent⟩ := tickLink_recent (fun has => (fresh i has).side) after
    rw [kept] at after ⊢
    exact ⟨inside, (fresh i after).side, recent⟩
  · simp only [List.mem_range, inside, if_false] at turn
    rw [turn.1] at after
    exact absurd (fresh i after).inside inside

end Steps

/-! ## Events of the system -/

theorem CallsSince.of_fixed {a b : Config} (same : a.fixed = b.fixed) {since : Rat} {tr : Translator} (fresh : CallsSince a since tr) :
    CallsSince b since tr := by
  have sizes : a.nLink = b.nLink := by
    have lengths := congrArg Config.nLink same
    simpa [Config.nLink, Config.fixed] using lengths
  exact fun i has => ⟨sizes ▸ (fresh i has).inside, (fresh i has).side, (fresh i has).recent⟩

theorem CallsSince.moment {c : Ctx} {w : World} {ok : TrEvent → Prop} {g g' : Stage} {out : List Out} {since : Rat}
    (fresh : CallsSince w.cfg since g.tr) (inv : CallsUp w.cfg g) (now : since ≤ c.now) (moment : Moment c w ok g out g') :
    CallsSince w.cfg since g'.tr := by
  have fresh' : CallsSince (w.env c.now).cfg since g.tr := fresh
  cases moment with
  | send => exact fresh
  | call call rand => exact fresh'.step inv.resolved now (call.event rand)
  | frame peer body => exact fresh'.step inv.resolved now (.obpDmrdReceived peer body)
  | tick => exact fresh'.step inv.resolved now .tick

theorem CallsSince.trace {c : Ctx} {w : World} {ok : TrEvent → Prop} {g g' : Stage} {out : List Out} {since : Rat}
    (fresh : CallsSince w.cfg since g.tr) (inv : CallsUp w.cfg g) (now : since ≤ c.now) (moments : Trace (Moment c w ok) g out g') :
    CallsSince w.cfg since g'.tr := by
  have whole := moments.invariant (fun g _ => CallsUp w.cfg g ∧ CallsSince w.cfg since g.tr)
    (fun _ _ _ _ kept moment => ⟨kept.1.moment moment, kept.2.moment kept.1 now moment⟩) [] ⟨inv, fresh⟩
  exact whole.2

namespace System

variable {s : System} {since : Rat}

theorem Sound.fresh_step (sound : Sound s) (fresh : CallsSince s.world.cfg since s.tr) (c : Ctx) (now : since ≤ c.now) (e : Event) :
    CallsSince (s.step (c, e)).1.world.cfg since (s.step (c, e)).1.tr := by
  obtain ⟨mid, before, after, -, first, second⟩ := step_moments sound.wf c e
  have same : (e.reloads s.world).cfg.fixed = s.world.cfg.fixed := reloads_fixed e s.world
  rw [step_cfg sound.wf c e]
  exact ((fresh.trace sound.calls now first).of_fixed same.symm).trace
    (callsUp_of_fixed same.symm (.trace first sound.calls)) now second

/-- The tick ends the calls that have been idle for too long, and a reload after it ends more. -/
theorem Sound.fresh_tick (sound : Sound s) (fresh : CallsSince s.world.cfg since s.tr) (c : Ctx) (file : Option Config) :
    CallsSince (s.step (c, .tick file)).1.world.cfg (c.now - callIdleTimeoutS) (s.step (c, .tick file)).1.tr := by
  have positive : 0 ≤ callIdleTimeoutS := by decide +kernel
  have soundly := sound.ticked c
  have cfg : (s.cleared.translate c .tick).world.cfg = s.world.cfg := ((core_eq_iff _ _).mp (tick_moment c s file).1).1
  have ended : CallsSince (s.cleared.translate c .tick).world.cfg (c.now - callIdleTimeoutS) (s.cleared.translate c .tick).tr := by
    have fresh' : CallsSince (s.world.env c.now).cfg since s.tr := fresh
    rw [cfg]
    exact fresh'.tick
  rw [step_state]
  simp only [react, tickCb]
  generalize s.cleared.translate c .tick = ticked at soundly ended
  cases file with
  | none => exact ended
  | some file =>
    have same : (ticked.world.reload file).cfg.fixed = ticked.world.cfg.fixed := fixed_configReloadToggles file ticked.world.cfg
    obtain ⟨log, -, moments⟩ := reload_moments soundly.wf c file (w := ticked.world.reload file) ⟨rfl, rfl, rfl⟩
    have kept := (ended.of_fixed same.symm).trace (callsUp_of_fixed same.symm soundly.calls) (sub_le_self _ positive) moments
    have cleared : ∀ t : System, t.cleared.world.cfg = t.world.cfg ∧ t.cleared.tr = t.tr := fun _ => ⟨rfl, rfl⟩
    have after := reload_cfg soundly.wf c file
    simp only [cleared, after]
    exact kept

end System

end Cc2obp
