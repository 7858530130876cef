import Cc2obp.Main.Passes

/-!
# The tick

The tick is armed as long as the loop runs, so `poll()` never waits longer than a second.
If the process is never held up for more than some time, the ticks come a second apart up
to a few times as much.
-/
namespace Cc2obp

/-! ## Dues -/

/-- What holds of the active timers and of timers armed for their delays goes on to hold of the active ones. -/
theorem System.step_active {s : System} {k : Rat} (beats : s.world.cfg.Beats k) (e : Ctx × Event) {good : EvTimer TimerCb → Prop}
    (armed : ∀ id cb, 0 < timerDelay k cb → good ⟨id, e.1.now + timerDelay k cb, cb, true⟩)
    (kept : ∀ t ∈ s.world.loop.timers, t.active = true → good t) : ∀ t ∈ (s.step e).1.world.loop.timers, t.active = true → good t := by
  have beats' : s.cleared.world.cfg.Beats k := beats
  obtain ⟨f, reacts, arms⟩ := react_arms beats' e.1 e.2
  have after := arms.keeps (fun ts => ∀ t ∈ ts, t.active = true → good t)
    (fun _ _ after kept => TimerOp.keeps_active after armed kept) kept
  rw [← reacts] at after
  exact after

namespace Program

variable {p : Program} {s : System}

/-! ## One input -/

/-- The event of an input, if it has one, comes no earlier than the last. -/
theorem eventOf_cases (i : Input) (later : p.Later i) : p.eventOf i = [] ∨ ∃ e, p.eventOf i = [e] ∧ p.clock ≤ e.1.now := by
  cases i with
  | proceed c file input connected =>
    cases place : p.place with
    | firing now entries =>
      rw [eventOf_firing place, fireEvent]
      cases p.soonest now with
      | none => exact .inl rfl
      | some timer =>
        cases timer with
        | tick => exact .inr ⟨_, rfl, later⟩
        | mux id cb => exact .inr ⟨_, rfl, later⟩
    | serving now entries =>
      cases entries with
      | nil => exact .inl (by simp only [eventOf, place])
      | cons e rest =>
        simp only [eventOf, place]
        split
        · exact .inr ⟨_, rfl, later⟩
        · exact .inl rfl
    | _ => exact .inl (by simp only [eventOf, place])
  | _ => exact .inl (by simp only [eventOf])

/-- What holds of the muxes' active timers and of timers armed no earlier than now goes on to hold of them. -/
theorem active_step (shadows : Shadows s p) {k : Rat} (beats : s.world.cfg.Beats k) (i : Input) (later : p.Later i)
    {good : EvTimer TimerCb → Prop}
    (armed : ∀ now id cb, now = (p.step i).1.clock → p.clock ≤ now → 0 < timerDelay k cb →
      good ⟨id, now + timerDelay k cb, cb, true⟩)
    (kept : ∀ t ∈ p.sys.world.loop.timers, t.active = true → good t) :
    ∀ t ∈ (p.step i).1.sys.world.loop.timers, t.active = true → good t := by
  obtain ⟨-, ahead⟩ := shadows.step i later
  obtain ⟨ts, same, alike⟩ := shadows.alike
  obtain ⟨ts', same', alike'⟩ := ahead.alike
  have before : ∀ t ∈ s.world.loop.timers, t.active = true → good t := by
    rw [same] at kept
    exact Alike.active alike.symm kept
  have after : ∀ t ∈ (Machine.run System.step s (p.eventOf i)).1.world.loop.timers, t.active = true → good t := by
    rcases eventOf_cases i later with none | ⟨e, one, now⟩
    · rw [none]
      exact before
    · have shown : (p.step i).1.clock = e.1.now := clock_of_event (by simp [one])
      rw [one, run_one]
      exact System.step_active beats e (fun id cb positive => armed e.1.now id cb shown.symm now positive) before
  rw [same']
  exact Alike.active alike' after

theorem clock_step (i : Input) (later : p.Later i) : p.clock ≤ (p.step i).1.clock := by
  have moves := step_moves p i
  generalize (p.step i).1 = p' at moves
  generalize p.eventOf i = es at moves
  cases moves with
  | stays place clock => exact clock.ge
  | failed here place clock => exact clock.ge
  | served here place clock => exact clock.ge
  | asks here place clock => exact later.trans clock.ge
  | wakes here place clock => exact later.trans clock.ge
  | interrupted here place clock => exact later.trans clock.ge
  | fires here place clock => exact later.trans clock.ge
  | ticks here armed due goesOn place clock => exact later.trans clock.ge
  | stops here armed due place clock => exact later.trans clock.ge
  | fired here early place clock => exact later.trans clock.ge
  | serves here place clock => exact later.trans clock.ge

/-- The tick is armed, for a second from now at the latest, and no timer for a time before the clock began. -/
structure Ticking (p : Program) : Prop where
  clock : 0 ≤ p.clock
  dues : DuesNonneg p.sys.world.loop.timers
  armed : p.place ≠ .stopped → ∃ tick, p.tick = some tick ∧ 0 ≤ tick.due ∧ tick.due ≤ p.clock + tickInterval
  asked : ∀ asked, p.place = .polling asked → asked = p.clock

theorem Ticking.step (shadows : Shadows s p) (ticking : Ticking p) (i : Input) (later : p.Later i) : Ticking (p.step i).1 := by
  have ahead := clock_step i later
  obtain ⟨k, beats⟩ := shadows.beats
  have dues : DuesNonneg (p.step i).1.sys.world.loop.timers := active_step shadows beats i later
    (fun now id cb _ passed positive => add_nonneg (ticking.clock.trans passed) positive.le) ticking.dues
  have moves := step_moves p i
  generalize (p.step i).1 = p' at ahead dues moves
  generalize p.eventOf i = es at moves
  have clock' : 0 ≤ p'.clock := ticking.clock.trans ahead
  -- an armed tick stays armed, and its time comes nearer
  have kept : p'.tick = p.tick → p.place ≠ .stopped →
      ∃ tick, p'.tick = some tick ∧ 0 ≤ tick.due ∧ tick.due ≤ p'.clock + tickInterval := by
    intro same running
    obtain ⟨tick, armed, nonneg, soon⟩ := ticking.armed running
    exact ⟨tick, same.trans armed, nonneg, soon.trans (add_le_add_left ahead _)⟩
  constructor
  case clock => exact clock'
  case dues => exact dues
  case armed =>
    intro running
    cases moves with
    | stays place clock tick =>
      rw [place] at running
      exact kept tick running
    | ticks here armed due goesOn place clock rearmed =>
      have positive : 0 ≤ tickInterval := by decide +kernel
      rw [← clock] at rearmed
      exact ⟨_, rearmed, add_nonneg clock' positive, le_refl _⟩
    | stops here armed due place => exact absurd place running
    | failed here place => exact absurd place running
    | asks here place clock same | wakes here place clock same | interrupted here place clock same | fires here place clock same
    | fired here early place clock same | serves here place clock same | served here place clock same =>
      exact kept same.tick (by simp [here])
  case asked =>
    intro asked there
    cases moves with
    | stays place clock =>
      rw [place] at there
      rw [clock]
      exact ticking.asked asked there
    | asks here place clock =>
      rw [place] at there
      cases there
      exact clock.symm
    | ticks here armed due goesOn place | stops here armed due place | failed here place | wakes here place
    | interrupted here place | fires here place | fired here early place | serves here place | served here place =>
      rw [place] at there
      cases there

theorem ticking_ofConfig (path : List Byte) {cfg : Config} {c : Ctx} (nonneg : 0 ≤ c.now) : Ticking (ofConfig path cfg c) := by
  have positive : 0 ≤ tickInterval := by decide +kernel
  constructor
  case clock => exact nonneg
  case dues =>
    have arms : World.Arms 0 c (fun w => ccccMuxStart c (obpMuxStart c w)) { cfg } := World.Arms.started
    exact arms.keeps DuesNonneg (fun _ _ after dues => TimerOp.keeps_active after (fun _ _ positive => add_nonneg nonneg positive.le) dues)
      fun _ member => by cases member
  case armed => exact fun _ => ⟨_, rfl, add_nonneg nonneg positive, le_refl _⟩
  case asked =>
    intro asked here
    cases here

theorem ticking_run {path : List Byte} {file : Option (List Byte)} {c : Ctx} (started : start path file c = .ok p)
    (nonneg : 0 ≤ c.now) (is : List Input) (later : Machine.Meets step Later p is) :
    (∃ s, Shadows s (Machine.run step p is).1) ∧ Ticking (Machine.run step p is).1 := by
  obtain ⟨cfg, -, rules, rfl⟩ := start_eq_ok started
  refine Machine.run_state_invariant step (fun p => (∃ s, Shadows s p) ∧ Ticking p) ?_ _ is later
    ⟨⟨_, shadows_ofConfig path rules c⟩, ticking_ofConfig path nonneg⟩
  rintro p i ⟨⟨s, shadows⟩, ticking⟩ ahead
  exact ⟨⟨_, (shadows.step i ahead).2⟩, ticking.step shadows i ahead⟩

/-! ## The timeout -/

theorem dues_timers (ticking : Ticking p) (running : p.place ≠ .stopped) : DuesNonneg p.timers := by
  intro t member active
  rcases mem_timers.mp member with ⟨t', inside, rfl⟩ | ⟨tick, armed, rfl⟩
  · exact ticking.dues t' inside active
  · obtain ⟨tick', armed', nonneg, -⟩ := ticking.armed running
    obtain rfl := Option.some.inj (armed.symm.trans armed')
    exact nonneg

/-- The tick bounds the wait. -/
theorem Ticking.timeout (ticking : Ticking p) {asked : Rat} (here : p.place = .polling asked) :
    0 ≤ p.timeoutMs asked ∧ p.timeoutMs asked ≤ 1000 ∧
      ∀ t ∈ p.timers, t.active = true → 0 < p.timeoutMs asked → asked + p.timeoutMs asked / 1000 ≤ t.due := by
  have running : p.place ≠ .stopped := by simp [here]
  have dues := dues_timers ticking running
  obtain ⟨tick, armed, -, soon⟩ := ticking.armed running
  have member : (⟨tick.mark, tick.due, .tick, true⟩ : EvTimer ProgramTimer) ∈ p.timers := mem_timers.mpr (.inr ⟨tick, armed, rfl⟩)
  obtain ⟨nonneg, before⟩ := evTimeoutMs_le dues member rfl asked
  refine ⟨nonneg, ?_, fun t inside active => (evTimeoutMs_le dues inside active asked).2⟩
  by_cases waits : 0 < p.timeoutMs asked
  · have until_ := (before waits).trans soon
    rw [← ticking.asked asked here, add_le_add_iff_left] at until_
    have second : (evTimeoutMs asked p.timers : Rat) ≤ 1000 := by
      rw [tickInterval] at until_
      linarith
    exact_mod_cast second
  · exact (not_lt.mp waits).trans (by decide)

end Program

/-- In every run `poll()` is called with a timeout of a second at the most, that ends before any timer is due. -/
theorem poll_waits_for_tick (path : List Byte) (file : Option (List Byte)) (c : Ctx) (nonneg : 0 ≤ c.now) (p : Program)
    (started : Program.start path file c = .ok p) (is : List Program.Input)
    (later : Machine.Meets Program.step Program.Later p is) (asked : Rat)
    (polls : (Machine.run Program.step p is).1.place = .polling asked) :
    0 ≤ (Machine.run Program.step p is).1.timeoutMs asked ∧ (Machine.run Program.step p is).1.timeoutMs asked ≤ 1000 ∧
      ∀ t ∈ (Machine.run Program.step p is).1.timers, t.active = true → 0 < (Machine.run Program.step p is).1.timeoutMs asked →
        asked + (Machine.run Program.step p is).1.timeoutMs asked / 1000 ≤ t.due :=
  (Program.ticking_run started nonneg is later).2.timeout polls

theorem poll_waits_for_tick_first :
    0 ≤ (Machine.run Program.step (Program.ofConfig [] bridgeFileConfig { now := 0 }) [turn 0]).1.timeoutMs 0 ∧
      (Machine.run Program.step (Program.ofConfig [] bridgeFileConfig { now := 0 }) [turn 0]).1.timeoutMs 0 ≤ 1000 ∧
        ∀ t ∈ (Machine.run Program.step (Program.ofConfig [] bridgeFileConfig { now := 0 }) [turn 0]).1.timers, t.active = true →
          0 < (Machine.run Program.step (Program.ofConfig [] bridgeFileConfig { now := 0 }) [turn 0]).1.timeoutMs 0 →
            0 + (Machine.run Program.step (Program.ofConfig [] bridgeFileConfig { now := 0 }) [turn 0]).1.timeoutMs 0 / 1000 ≤ t.due :=
  poll_waits_for_tick [] (some bridgeFile) { now := 0 } (le_refl _) _ start_bridgeFile [turn 0] (by decide +kernel) 0 rfl

end Cc2obp
