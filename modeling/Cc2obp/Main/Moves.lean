import Cc2obp.Main

/-!
# What an input does

Where the loop is after an input, what it has made of the tick and the flags, and which
event the input was to the composed system.
-/
namespace Cc2obp

namespace Program

variable {p : Program}

/-! ## Timers -/

theorem mem_timers {t : EvTimer ProgramTimer} : t ∈ p.timers ↔
    (∃ t' ∈ p.sys.world.loop.timers, t = { t' with cb := .mux t'.id t'.cb }) ∨
    ∃ tick, p.tick = some tick ∧ t = ⟨tick.mark, tick.due, .tick, true⟩ := by
  have mux : (t ∈ p.sys.world.loop.timers.map fun t => { t with cb := ProgramTimer.mux t.id t.cb }) ↔
      ∃ t' ∈ p.sys.world.loop.timers, t = { t' with cb := .mux t'.id t'.cb } := by
    simp only [List.mem_map, eq_comm]
  unfold timers
  cases p.tick with
  | none => simpa using mux
  | some tick =>
    -- before the tick or behind it, the muxes' timers are all there
    dsimp only
    rw [List.mem_append, List.mem_cons, or_left_comm, ← List.mem_append, List.takeWhile_append_dropWhile, mux, or_comm]
    simp

/-- A timer of the muxes that fires is one that is due. -/
theorem due_of_soonest {now : Rat} {id : Nat} {cb : TimerCb} (soonest : p.soonest now = some (.mux id cb)) :
    ∃ t ∈ p.sys.world.loop.due now, t.id = id ∧ t.cb = cb := by
  obtain ⟨t, first, called⟩ := Option.map_eq_some_iff.mp soonest
  obtain ⟨inside, active, due⟩ := mem_due.mp (evSoonest_some first).1
  rcases mem_timers.mp inside with ⟨t', member, rfl⟩ | ⟨tick, -, rfl⟩
  · obtain ⟨rfl, rfl⟩ := ProgramTimer.mux.inj called
    exact ⟨t', mem_due.mpr ⟨member, active, due⟩, rfl, rfl⟩
  · cases called

theorem tick_due {now : Rat} (soonest : p.soonest now = some .tick) : ∃ tick, p.tick = some tick ∧ tick.due ≤ now := by
  obtain ⟨t, first, called⟩ := Option.map_eq_some_iff.mp soonest
  obtain ⟨inside, -, due⟩ := mem_due.mp (evSoonest_some first).1
  rcases mem_timers.mp inside with ⟨t', -, rfl⟩ | ⟨tick, armed, rfl⟩
  · cases called
  · exact ⟨tick, armed, due⟩

/-- With nothing to fire, no timer is due. -/
theorem early_of_idle {now : Rat} (idle : p.soonest now = none) : ∀ t ∈ p.timers, t.active = true → now < t.due := by
  intro t member active
  have none_ : evSoonest now ({ timers := p.timers } : EvLoop FdCb ProgramTimer) = none := Option.map_eq_none_iff.mp idle
  by_contra early
  have due : t ∈ EvLoop.due now ({ timers := p.timers } : EvLoop FdCb ProgramTimer) :=
    mem_due.mpr ⟨member, active, not_lt.mp early⟩
  rw [evSoonest_none none_] at due
  cases due

theorem place_of_running (running : p.running = true) : p.place ≠ .stopped := by
  intro stopped
  rw [Program.running, stopped] at running
  cases running

/-! ## Moves -/

/-- The tick and the flags are left alone. -/
structure SameFlags (p p' : Program) : Prop where
  tick : p'.tick = p.tick
  reload : p'.reloadRequested = p.reloadRequested
  shutdown : p'.shutdownRequested = p.shutdownRequested

/-- Everything an input can do to the loop. -/
inductive Moves (p p' : Program) : Input → List (Ctx × System.Event) → Prop
  /-- A signal, or an input that does not belong here. -/
  | stays {i : Input} (place : p'.place = p.place) (clock : p'.clock = p.clock) (tick : p'.tick = p.tick)
      (reload : p.reloadRequested = true → p'.reloadRequested = true)
      (shutdown : p.shutdownRequested = true → p'.shutdownRequested = true) : Moves p p' i []
  | asks {c file input connected} (here : p.place = .looping) (place : p'.place = .polling c.now) (clock : p'.clock = c.now)
      (same : SameFlags p p') : Moves p p' (.proceed c file input connected) []
  | wakes {asked now ready} (here : p.place = .polling asked) (place : p'.place = .firing now (p.entries ready))
      (clock : p'.clock = now) (same : SameFlags p p') : Moves p p' (.polled now ready) []
  | interrupted {asked now} (here : p.place = .polling asked) (place : p'.place = .looping) (clock : p'.clock = now)
      (same : SameFlags p p') : Moves p p' (.interrupted now) []
  | failed {asked} (here : p.place = .polling asked) (place : p'.place = .stopped) (clock : p'.clock = p.clock)
      (same : SameFlags p p') : Moves p p' .failed []
  | fires {now entries c file input connected id} (here : p.place = .firing now entries)
      (place : p'.place = .firing now entries) (clock : p'.clock = c.now) (same : SameFlags p p') :
      Moves p p' (.proceed c file input connected) [(c, .timer id)]
  | ticks {now entries c file input connected tick mark} (here : p.place = .firing now entries)
      (armed : p.tick = some tick) (due : tick.due ≤ now) (goesOn : p.shutdownRequested = false)
      (place : p'.place = .firing now entries) (clock : p'.clock = c.now)
      (rearmed : p'.tick = some ⟨c.now + tickInterval, mark⟩) (reload : p'.reloadRequested = false) :
      Moves p p' (.proceed c file input connected) [(c, .tick (p.fresh file))]
  | stops {now entries c file input connected tick} (here : p.place = .firing now entries)
      (armed : p.tick = some tick) (due : tick.due ≤ now) (place : p'.place = .stopped) (clock : p'.clock = c.now)
      (taken : p'.tick = none) : Moves p p' (.proceed c file input connected) [(c, .tick (p.fresh file))]
  | fired {now entries c file input connected} (here : p.place = .firing now entries)
      (early : ∀ t ∈ p.timers, t.active = true → now < t.due) (place : p'.place = .serving now entries)
      (clock : p'.clock = c.now) (same : SameFlags p p') : Moves p p' (.proceed c file input connected) []
  | serves {now e rest c file input connected es} (here : p.place = .serving now (e :: rest))
      (place : p'.place = .serving now rest) (clock : p'.clock = c.now) (same : SameFlags p p')
      (ticks : ∀ x ∈ es, x.1 = c ∧ ∀ fresh, x.2 ≠ .tick fresh) : Moves p p' (.proceed c file input connected) es
  | served {now c file input connected} (here : p.place = .serving now []) (place : p'.place = .looping)
      (clock : p'.clock = p.clock) (same : SameFlags p p') : Moves p p' (.proceed c file input connected) []

theorem serveRound_frame (e : PollFd FdCb × Bool) (c : Ctx) (input : FdInput) (connected : Bool) (p : Program) :
    (p.serveRound e c input connected).1.place = p.place ∧ (p.serveRound e c input connected).1.clock = p.clock ∧
      SameFlags p (p.serveRound e c input connected).1 := by
  unfold serveRound
  split
  · split <;> exact ⟨rfl, rfl, rfl, rfl, rfl⟩
  · exact ⟨rfl, rfl, rfl, rfl, rfl⟩

theorem eventOf_firing {now : Rat} {entries : List (PollFd FdCb × Bool)} (here : p.place = .firing now entries) (c : Ctx)
    (file : Option (List Byte)) (input : FdInput) (connected : Bool) :
    p.eventOf (.proceed c file input connected) = p.fireEvent now c file := by
  simp only [eventOf, here]

/-- A round by a program that has seen the clock. -/
theorem moves_fireRound {now : Rat} {entries : List (PollFd FdCb × Bool)} (here : p.place = .firing now entries) (c : Ctx)
    (file : Option (List Byte)) (input : FdInput) (connected : Bool) {q : Program} (place : q.place = .firing now entries)
    (clock : q.clock = c.now) (same : SameFlags p q) (soonest : q.soonest now = p.soonest now) :
    Moves p (fireRound now entries c file q).1 (.proceed c file input connected)
      (p.eventOf (.proceed c file input connected)) := by
  rw [eventOf_firing here]
  unfold fireRound fireEvent
  rw [soonest]
  cases found : p.soonest now with
  | none => exact .fired here (early_of_idle found) rfl clock ⟨same.tick, same.reload, same.shutdown⟩
  | some timer =>
    cases timer with
    | tick =>
      obtain ⟨tick, armed, due⟩ := tick_due found
      simp only [tickCb]
      split
      · exact .stops here armed due rfl clock rfl
      next goesOn =>
        have running : p.shutdownRequested = false := same.shutdown ▸ Bool.eq_false_iff.mpr goesOn
        exact .ticks here armed due running place clock rfl rfl
    | mux id cb => exact .fires here place clock ⟨same.tick, same.reload, same.shutdown⟩

theorem step_moves (p : Program) (i : Input) : Moves p (p.step i).1 i (p.eventOf i) := by
  have still : Moves p p i [] := .stays rfl rfl rfl id id
  cases i with
  | sighup => exact .stays rfl rfl rfl (fun _ => rfl) id
  | sigterm => exact .stays rfl rfl rfl id fun _ => rfl
  | polled now ready =>
    cases here : p.place with
    | polling asked =>
      simp only [step, eventOf, here]
      exact .wakes here rfl rfl ⟨rfl, rfl, rfl⟩
    | _ =>
      simp only [step, eventOf, here]
      exact still
  | interrupted now =>
    cases here : p.place with
    | polling asked =>
      simp only [step, eventOf, here]
      exact .interrupted here rfl rfl ⟨rfl, rfl, rfl⟩
    | _ =>
      simp only [step, eventOf, here]
      exact still
  | failed =>
    cases here : p.place with
    | polling asked =>
      simp only [step, eventOf, here]
      exact .failed here rfl rfl ⟨rfl, rfl, rfl⟩
    | _ =>
      simp only [step, eventOf, here]
      exact still
  | proceed c file input connected =>
    cases here : p.place with
    | looping =>
      simp only [step, eventOf, here]
      exact .asks here rfl rfl ⟨rfl, rfl, rfl⟩
    | polling asked =>
      simp only [step, eventOf, here]
      exact still
    | stopped =>
      simp only [step, eventOf, here]
      exact still
    | firing now entries =>
      have round := moves_fireRound here c file input connected (q := { p with clock := c.now }) here rfl ⟨rfl, rfl, rfl⟩ rfl
      simp only [step, here]
      rw [← here]
      exact round
    | serving now entries =>
      cases entries with
      | nil =>
        simp only [step, eventOf, here]
        exact .served here rfl rfl ⟨rfl, rfl, rfl⟩
      | cons e rest =>
        obtain ⟨place, clock, same⟩ := serveRound_frame e c input connected { p with clock := c.now, place := .serving now rest }
        simp only [step, eventOf, here]
        refine .serves here place clock ⟨same.tick, same.reload, same.shutdown⟩ fun x member => ?_
        split at member
        · obtain rfl := List.mem_singleton.mp member
          refine ⟨rfl, fun fresh => ?_⟩
          dsimp only
          split <;> simp
        · cases member

/-- The tick that is armed after an input was armed before, or is armed by it for a second from then. -/
theorem Moves.tick {p p' : Program} {i : Input} {es : List (Ctx × System.Event)} (moves : Moves p p' i es)
    {tick : TickTimer} (armed : p'.tick = some tick) : p.tick = some tick ∨ tick.due = p'.clock + tickInterval := by
  cases moves with
  | stays place clock same => exact .inl (same.symm.trans armed)
  | ticks here was due goesOn place clock rearmed =>
    obtain rfl := Option.some.inj (rearmed.symm.trans armed)
    exact .inr (by rw [clock])
  | stops here was due place clock taken =>
    rw [taken] at armed
    cases armed
  | asks here place clock same | wakes here place clock same | interrupted here place clock same | failed here place clock same
  | fires here place clock same | fired here early place clock same | serves here place clock same | served here place clock same =>
    exact .inl (same.tick.symm.trans armed)

/-- The clock shows the time of the event, if there is one. -/
theorem clock_of_event {i : Input} {e : Ctx × System.Event} (event : e ∈ p.eventOf i) : (p.step i).1.clock = e.1.now := by
  have moves := step_moves p i
  generalize (p.step i).1 = p' at moves
  generalize p.eventOf i = es at moves event
  cases moves with
  | fires here place clock =>
    obtain rfl := List.mem_singleton.mp event
    exact clock
  | ticks here armed due goesOn place clock =>
    obtain rfl := List.mem_singleton.mp event
    exact clock
  | stops here armed due place clock =>
    obtain rfl := List.mem_singleton.mp event
    exact clock
  | serves here place clock same single =>
    rw [(single e event).1]
    exact clock
  | stays | asks | wakes | interrupted | failed | fired | served => cases event

end Program

end Cc2obp
