import Cc2obp.Main.Ticks

/-!
# A prompt process

The process may be held up: `poll()` may return late, the clock may be read late, and a
pass takes its time. As long as each of these stays within a bound, every timer fires
within a few times the bound of when it is due.
-/
namespace Cc2obp

/-- How long a timer is armed for. -/
def ProgramTimer.delay (k : Rat) : ProgramTimer → Rat
  | .tick => tickInterval
  | .mux _ cb => timerDelay k cb

/-- What has a timer: a link between two attempts, an UP link and a slot in use. -/
def World.Timed (w : World) : TimerCb → Prop
  | .reconnect i => (w.links i).state = .down ∧ (w.cfg.linkAt i).ccRole = .outbound ∧ (w.links i).active = true
  | .keepalive i => (w.links i).state = .up
  | .pendingTimeout s => (w.pending s).inUse = true

theorem Wf.timed_iff {w : World} {ph : Phase} (wf : Wf ph w) (idle : ph.busy = none) (cb : TimerCb) :
    w.Timed cb ↔ ∃ t ∈ w.loop.timers, t.active = true ∧ t.cb = cb := by
  have handles : w.Timed cb ↔ w.handle cb ≠ none := by
    cases cb with
    | reconnect i => exact (wf.links i).waiting.symm
    | keepalive i => exact (wf.links i).kept.symm
    | pendingTimeout s => exact (wf.slots s (by simp [idle])).timed.symm
  rw [handles]
  constructor
  · intro held
    obtain ⟨id, handle⟩ := Option.ne_none_iff_exists'.mp held
    obtain ⟨t, member, -, same, active⟩ := (wf.armed.agree id cb).mpr handle
    exact ⟨t, member, active, same⟩
  · rintro ⟨t, member, active, same⟩
    have handle := (wf.armed.agree t.id cb).mp ⟨t, member, rfl, same, active⟩
    simp [handle]

namespace Program

variable {p : Program} {s : System} {δ k : Rat}

/-- `poll()` returns within `δ` of its timeout, a signal ends it only as long as it waits, the clock is read within
`δ` of the end of a pass, and a pass takes no longer than `δ` once `poll()` has returned. -/
def PromptAt (δ : Rat) (p : Program) : Input → Place → Prop
  | .polled now _, .polling asked => 0 ≤ p.timeoutMs asked → now ≤ asked + p.timeoutMs asked / 1000 + δ
  | .interrupted now, .polling asked => 0 ≤ p.timeoutMs asked → 0 < p.timeoutMs asked ∧ now ≤ asked + p.timeoutMs asked / 1000
  | .proceed c .., .looping => c.now ≤ p.clock + δ
  | .proceed c .., .firing now _ => c.now ≤ now + δ
  | .proceed c .., .serving now _ => c.now ≤ now + δ
  | _, _ => True

def Prompt (δ : Rat) (p : Program) (i : Input) : Prop := p.Later i ∧ PromptAt δ p i p.place

instance (δ : Rat) (p : Program) (i : Input) : Decidable (Prompt δ p i) :=
  have : ∀ i place, Decidable (PromptAt δ p i place)
    | .polled _ _, .polling asked => inferInstanceAs (Decidable (0 ≤ p.timeoutMs asked → _ ≤ _))
    | .interrupted _, .polling asked => inferInstanceAs (Decidable (0 ≤ p.timeoutMs asked → _ ∧ _))
    | .proceed .., .looping | .proceed .., .firing .. | .proceed .., .serving .. => inferInstanceAs (Decidable (_ ≤ _))
    | .sighup, _ | .sigterm, _ | .failed, _ | .proceed .., .polling _ | .proceed .., .stopped => isTrue trivial
    | .polled .., .looping | .polled .., .firing .. | .polled .., .serving .. | .polled .., .stopped => isTrue trivial
    | .interrupted _, .looping | .interrupted _, .firing .. | .interrupted _, .serving .. | .interrupted _, .stopped => isTrue trivial
  inferInstanceAs (Decidable (p.Later i ∧ PromptAt δ p i p.place))

/-! ## The clock in a pass -/

/-- Where the clock is in a pass. -/
def Passing (δ : Rat) (p : Program) : Prop :=
  match p.place with
  | .polling asked => p.clock = asked
  | .firing now _ | .serving now _ => now ≤ p.clock ∧ p.clock ≤ now + δ
  | .looping | .stopped => True

theorem Passing.step (passing : Passing δ p) (nonneg : 0 ≤ δ) (i : Input) (prompt : p.Prompt δ i) : Passing δ (p.step i).1 := by
  have moves := step_moves p i
  obtain ⟨later, prompt⟩ := prompt
  generalize (p.step i).1 = p' at moves
  generalize p.eventOf i = es at moves
  cases moves with
  | stays place clock =>
    unfold Passing at passing ⊢
    rwa [place, clock]
  | asks here place clock => simpa only [Passing, place] using clock
  | wakes here place clock =>
    simp only [Passing, place, clock]
    exact ⟨le_refl _, le_add_of_nonneg_right nonneg⟩
  | fires here place clock | ticks here armed due goesOn place clock | fired here early place clock | serves here place clock =>
    -- the pass goes on, by the time it began with
    simp only [Passing, PromptAt, here] at passing prompt
    simp only [Passing, place, clock]
    exact ⟨passing.1.trans later, prompt⟩
  | interrupted here place | failed here place | stops here armed due place | served here place => simp only [Passing, place]

/-! ## Timers -/

/-- How late the loop can be for a timer where it is. -/
def Within (δ : Rat) (p : Program) (due : Rat) : Prop :=
  match p.place with
  | .looping => p.clock ≤ due + δ
  | .polling asked => asked ≤ due + 2 * δ
  | .firing now _ => now ≤ due + 3 * δ
  | .serving now _ => now < due
  | .stopped => True

theorem Within.clock_le {due : Rat} (within : Within δ p due) (passing : Passing δ p) (nonneg : 0 ≤ δ) (running : p.place ≠ .stopped) :
    p.clock ≤ due + 4 * δ := by
  unfold Within at within
  unfold Passing at passing
  cases place : p.place with
  | looping =>
    simp only [place] at within
    linarith
  | polling asked =>
    simp only [place] at within passing
    linarith
  | firing now entries =>
    simp only [place] at within passing
    linarith [passing.2]
  | serving now entries =>
    simp only [place] at within passing
    linarith [passing.2]
  | stopped => exact absurd place running

/-- The loop is not late for what is due yet. -/
theorem within_of_later {due : Rat} (passing : Passing δ p) (nonneg : 0 ≤ δ) (later : p.clock < due) : Within δ p due := by
  unfold Passing at passing
  unfold Within
  cases place : p.place with
  | looping =>
    simp only
    linarith
  | polling asked =>
    simp only [place] at passing ⊢
    linarith
  | firing now entries =>
    simp only [place] at passing ⊢
    linarith [passing.1]
  | serving now entries =>
    simp only [place] at passing ⊢
    linarith [passing.1]
  | stopped => trivial

/-- An input leaves the loop in time for a timer it does not touch. -/
theorem Within.step {t : EvTimer ProgramTimer} (member : t ∈ p.timers) (active : t.active = true) (within : Within δ p t.due)
    (passing : Passing δ p) (ticking : Ticking p) (nonneg : 0 ≤ δ) (i : Input) (prompt : p.Prompt δ i) :
    Within δ (p.step i).1 t.due := by
  have moves := step_moves p i
  obtain ⟨later, prompt⟩ := prompt
  generalize (p.step i).1 = p' at moves
  generalize p.eventOf i = es at moves
  cases moves with
  | stays place clock =>
    unfold Within at within ⊢
    rwa [place, clock]
  | asks here place clock =>
    simp only [Within, PromptAt, here] at within prompt
    simp only [Within, place]
    linarith
  | @wakes asked now ready here place clock =>
    simp only [Within, PromptAt, here] at within prompt
    obtain ⟨waits, -, until_⟩ := ticking.timeout here
    have woken := prompt waits
    simp only [Within, place]
    by_cases positive : 0 < p.timeoutMs asked
    · have before : asked + p.timeoutMs asked / 1000 ≤ t.due := until_ t member active positive
      linarith
    · -- something is due already, and `poll()` does not wait
      have zero : p.timeoutMs asked = 0 := le_antisymm (not_lt.mp positive) waits
      rw [zero, Int.cast_zero, zero_div, add_zero] at woken
      linarith
  | @interrupted asked now here place clock =>
    simp only [PromptAt, here] at prompt
    obtain ⟨waits, -, until_⟩ := ticking.timeout here
    obtain ⟨positive, woken⟩ := prompt waits
    have before : asked + p.timeoutMs asked / 1000 ≤ t.due := until_ t member active positive
    simp only [Within, place, clock]
    linarith
  | fires here place | ticks here armed due goesOn place =>
    simp only [Within, here] at within
    simpa only [Within, place] using within
  | fired here early place =>
    simp only [Within, place]
    exact early t member active
  | serves here place =>
    simp only [Within, here] at within
    simpa only [Within, place] using within
  | served here place clock =>
    simp only [Within, Passing, here] at within passing
    simp only [Within, place, clock]
    linarith [passing.2]
  | failed here place | stops here armed due place => simp only [Within, place]

/-- The loop is in time for every timer, and none is armed for longer than its delay. -/
structure Punctual (δ k : Rat) (p : Program) : Prop where
  passing : Passing δ p
  within : ∀ t ∈ p.timers, t.active = true → Within δ p t.due
  ahead : ∀ t ∈ p.timers, t.active = true → t.due ≤ p.clock + t.cb.delay k

theorem Punctual.step (punctual : Punctual δ k p) (shadows : Shadows s p) (beats : s.world.cfg.Beats k) (ticking : Ticking p)
    (nonneg : 0 ≤ δ) (i : Input) (prompt : p.Prompt δ i) : Punctual δ k (p.step i).1 := by
  obtain ⟨passing, within, ahead⟩ := punctual
  have passing' := passing.step nonneg i prompt
  have clock := clock_step i prompt.1
  -- a timer of the muxes is an old one, or it is armed for its delay
  have mux : ∀ t ∈ (p.step i).1.sys.world.loop.timers, t.active = true →
      Within δ (p.step i).1 t.due ∧ t.due ≤ (p.step i).1.clock + timerDelay k t.cb := by
    refine active_step shadows beats i prompt.1 (fun now id cb shown _ positive => ⟨?_, ?_⟩) fun t member active => ?_
    · exact within_of_later passing' nonneg (by rw [← shown]; exact lt_add_of_pos_right _ positive)
    · rw [shown]
    · have inside : { t with cb := ProgramTimer.mux t.id t.cb } ∈ p.timers := mem_timers.mpr (.inl ⟨t, member, rfl⟩)
      have soon : t.due ≤ p.clock + timerDelay k t.cb := ahead _ inside active
      exact ⟨Within.step inside active (within _ inside active) passing ticking nonneg i prompt,
        soon.trans (add_le_add_left clock _)⟩
  -- and so is the tick
  have tick : ∀ tick, (p.step i).1.tick = some tick →
      Within δ (p.step i).1 tick.due ∧ tick.due ≤ (p.step i).1.clock + tickInterval := by
    intro tick armed
    rcases (step_moves p i).tick armed with was | fresh
    · have inside : ⟨tick.mark, tick.due, .tick, true⟩ ∈ p.timers := mem_timers.mpr (.inr ⟨tick, was, rfl⟩)
      have soon : tick.due ≤ p.clock + tickInterval := ahead _ inside rfl
      exact ⟨Within.step inside rfl (within _ inside rfl) passing ticking nonneg i prompt, soon.trans (add_le_add_left clock _)⟩
    · have second : 0 < tickInterval := by decide +kernel
      rw [fresh]
      exact ⟨within_of_later passing' nonneg (lt_add_of_pos_right _ second), le_refl _⟩
  have all : ∀ t ∈ (p.step i).1.timers, t.active = true →
      Within δ (p.step i).1 t.due ∧ t.due ≤ (p.step i).1.clock + t.cb.delay k := by
    intro t member active
    rcases mem_timers.mp member with ⟨t', inside, rfl⟩ | ⟨tick', armed, rfl⟩
    · exact mux t' inside active
    · exact tick tick' armed
  exact ⟨passing', fun t member active => (all t member active).1, fun t member active => (all t member active).2⟩

/-! ## Runs -/

/-- A state of a prompt run, and the system's under it. -/
structure Keeping (δ k : Rat) (s : System) (p : Program) : Prop where
  shadows : Shadows s p
  beats : s.world.cfg.Beats k
  ticking : Ticking p
  punctual : Punctual δ k p

theorem Keeping.step (keeping : Keeping δ k s p) (nonneg : 0 ≤ δ) (i : Input) (prompt : p.Prompt δ i) :
    Keeping δ k (Machine.run System.step s (p.eventOf i)).1 (p.step i).1 := by
  obtain ⟨shadows, beats, ticking, punctual⟩ := keeping
  constructor
  case shadows => exact (shadows.step i prompt.1).2
  case beats =>
    rcases eventOf_cases i prompt.1 with none | ⟨e, one, -⟩
    · rw [none]
      exact beats
    · rw [one, run_one]
      exact beats_of_fixed beats (System.step_fixed shadows.wf e.1 e.2)
  case ticking => exact ticking.step shadows i prompt.1
  case punctual => exact punctual.step shadows beats ticking nonneg i prompt

theorem Keeping.run (keeping : Keeping δ k s p) (nonneg : 0 ≤ δ) (is : List Input)
    (prompt : Machine.Meets Program.step (Prompt δ) p is) : ∃ s', Keeping δ k s' (Machine.run Program.step p is).1 :=
  Machine.run_state_invariant Program.step (fun p => ∃ s, Keeping δ k s p)
    (fun _ i ⟨_, keeping⟩ prompt => ⟨_, keeping.step nonneg i prompt⟩) p is prompt ⟨s, keeping⟩

theorem keeping_ofConfig (path : List Byte) {cfg : Config} (rules : cfg.Rules) (c : Ctx) (began : 0 ≤ c.now) (nonneg : 0 ≤ δ) :
    Keeping δ cfg.ccKeepaliveInterval (System.start c cfg) (ofConfig path cfg c) := by
  have second : 0 < tickInterval := by decide +kernel
  have shadows := shadows_ofConfig path rules c
  -- what the muxes arm when they start
  have armed : ∀ t ∈ (System.start c cfg).world.loop.timers, t.active = true →
      c.now < t.due ∧ t.due ≤ c.now + timerDelay cfg.ccKeepaliveInterval t.cb := by
    have arms : World.Arms cfg.ccKeepaliveInterval c (fun w => ccccMuxStart c (obpMuxStart c w)) { cfg } := World.Arms.started
    exact arms.keeps (fun ts => ∀ t ∈ ts, t.active = true → c.now < t.due ∧ t.due ≤ c.now + timerDelay cfg.ccKeepaliveInterval t.cb)
      (fun _ _ after kept => TimerOp.keeps_active after (fun _ _ positive => ⟨lt_add_of_pos_right _ positive, le_refl _⟩) kept)
      fun _ member => by cases member
  have all : ∀ t ∈ (ofConfig path cfg c).timers, t.active = true →
      c.now < t.due ∧ t.due ≤ c.now + t.cb.delay cfg.ccKeepaliveInterval := by
    intro t member active
    rcases mem_timers.mp member with ⟨t', inside, rfl⟩ | ⟨tick, here, rfl⟩
    · exact armed t' inside active
    · obtain rfl : ⟨c.now + tickInterval, _⟩ = tick := Option.some.inj here
      exact ⟨lt_add_of_pos_right _ second, le_refl _⟩
  have same : (System.start c cfg).world.cfg = cfg := Wf.start_cfg c cfg
  refine ⟨shadows, ?_, ticking_ofConfig path began, ?_⟩
  · rw [same]
    exact ⟨rfl, zero_lt_one.trans_le rules.interval.1⟩
  · exact ⟨trivial, fun t member active => within_of_later (by exact trivial) nonneg (all t member active).1,
      fun t member active => (all t member active).2⟩

theorem keeping_run {path : List Byte} {file : Option (List Byte)} {c : Ctx} (started : start path file c = .ok p)
    (began : 0 ≤ c.now) (nonneg : 0 ≤ δ) (is : List Input) (prompt : Machine.Meets Program.step (Prompt δ) p is) :
    ∃ s, Keeping δ p.sys.world.cfg.ccKeepaliveInterval s (Machine.run Program.step p is).1 := by
  obtain ⟨cfg, -, rules, rfl⟩ := start_eq_ok started
  have same : (ofConfig path cfg c).sys.world.cfg = cfg := Wf.start_cfg c cfg
  rw [same]
  exact (keeping_ofConfig path rules c began nonneg).run nonneg is prompt

/-- The muxes' timers that can fire are the system's. -/
theorem mem_timers_alike (alike : System.AlikeTo s p.sys) {t : EvTimer TimerCb} (active : t.active = true) :
    t ∈ p.sys.world.loop.timers ↔ t ∈ s.world.loop.timers := by
  obtain ⟨ts, same, alike⟩ := alike
  have timers : p.sys.world.loop.timers = ts := by
    rw [same]
    rfl
  have filtered : t ∈ s.world.loop.timers.filter EvTimer.active ↔ t ∈ ts.filter EvTimer.active := by rw [alike]
  rw [timers]
  simpa [active] using filtered.symm

theorem exists_mux_timer (alike : System.AlikeTo s p.sys) (cb : TimerCb) :
    (∃ t ∈ p.timers, t.active = true ∧ t.cb = .mux t.id cb) ↔ ∃ t ∈ s.world.loop.timers, t.active = true ∧ t.cb = cb := by
  constructor
  · rintro ⟨t, member, active, called⟩
    rcases mem_timers.mp member with ⟨t', inside, rfl⟩ | ⟨tick, -, rfl⟩
    · exact ⟨t', (mem_timers_alike alike active).mp inside, active, (ProgramTimer.mux.inj called).2⟩
    · cases called
  · rintro ⟨t, member, active, rfl⟩
    exact ⟨_, mem_timers.mpr (.inl ⟨t, (mem_timers_alike alike active).mpr member, rfl⟩), active, rfl⟩

/-- A timer of the system is in time. -/
theorem Keeping.timer (keeping : Keeping δ k s p) {t : EvTimer TimerCb} (member : t ∈ s.world.loop.timers)
    (active : t.active = true) : Within δ p t.due ∧ t.due ≤ p.clock + timerDelay k t.cb := by
  have inside : { t with cb := ProgramTimer.mux t.id t.cb } ∈ p.timers :=
    mem_timers.mpr (.inl ⟨t, (mem_timers_alike keeping.shadows.alike active).mpr member, rfl⟩)
  exact ⟨keeping.punctual.within _ inside active, keeping.punctual.ahead _ inside active⟩

end Program

/-- If nothing holds the process up for more than `δ`, no timer is overdue by more than `4 δ` and none is armed for longer
than its delay. Each link between two attempts, each UP link and each slot in use has its timer, and no other does. -/
theorem timers_on_time (δ : Rat) (small : 0 ≤ δ) (path : List Byte) (file : Option (List Byte)) (c : Ctx) (nonneg : 0 ≤ c.now)
    (p : Program) (started : Program.start path file c = .ok p) (is : List Program.Input)
    (prompt : Machine.Meets Program.step (Program.Prompt δ) p is) (running : (Machine.run Program.step p is).1.running = true) :
    let p' := (Machine.run Program.step p is).1
    (∀ t ∈ p'.timers, t.active = true →
      p'.clock ≤ t.due + 4 * δ ∧ t.due ≤ p'.clock + t.cb.delay p.sys.world.cfg.ccKeepaliveInterval) ∧
      ∀ cb, p'.sys.world.Timed cb ↔ ∃ t ∈ p'.timers, t.active = true ∧ t.cb = .mux t.id cb := by
  intro p'
  obtain ⟨s, shadows, -, -, punctual⟩ := Program.keeping_run started nonneg small is prompt
  constructor
  · intro t member active
    exact ⟨(punctual.within t member active).clock_le punctual.passing small (Program.place_of_running running), punctual.ahead t member active⟩
  · intro cb
    have timed : p'.sys.world.Timed cb ↔ s.world.Timed cb := by
      obtain ⟨ts, same, -⟩ := shadows.alike
      rw [same]
      cases cb <;> rfl
    rw [timed, Program.exists_mux_timer shadows.alike, shadows.wf.timed_iff rfl]

theorem timers_on_time_accepted :
    let p' := (Machine.run Program.step (Program.ofConfig [] bridgeFileConfig { now := 0 }) acceptThenHup).1
    (∀ t ∈ p'.timers, t.active = true → p'.clock ≤ t.due + 4 * (1 / 10) ∧ t.due ≤ p'.clock +
      t.cb.delay (Program.ofConfig [] bridgeFileConfig { now := 0 }).sys.world.cfg.ccKeepaliveInterval) ∧
      ∀ cb, p'.sys.world.Timed cb ↔ ∃ t ∈ p'.timers, t.active = true ∧ t.cb = .mux t.id cb :=
  timers_on_time (1 / 10) (by decide +kernel) [] (some bridgeFile) { now := 0 } (le_refl _) _ start_bridgeFile acceptThenHup
    (by decide +kernel) (by decide +kernel)

end Cc2obp
