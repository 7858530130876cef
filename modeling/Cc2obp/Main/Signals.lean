import Cc2obp.Main.Prompt
import Mathlib.Data.List.Chain

/-!
# Ticks and signals

In a prompt process the ticks are a second apart, and what a signal asks for is done at
the next of them.
-/
namespace Cc2obp

namespace Program

variable {p : Program} {s : System} {δ k : Rat}

/-! ## One input -/

/-- What an input does to an armed tick: it stays armed, or it has fired in time. -/
inductive Paced (δ : Rat) (p p' : Program) (tick : TickTimer) (i : Input) (es : List (Ctx × System.Event)) : Prop
  | waits (armed : p'.tick = some tick) (none : ∀ e ∈ es, ∀ fresh, e.2 ≠ .tick fresh)
      (reload : p.reloadRequested = true → p'.reloadRequested = true)
      (shutdown : p.shutdownRequested = true → p'.shutdownRequested = true)
  | ticked {c file input connected} (here : i = .proceed c file input connected) (one : es = [(c, .tick (p.fresh file))])
      (due : tick.due ≤ c.now) (prompt : c.now ≤ tick.due + 4 * δ)
      (next : p'.place = .stopped ∨ p.shutdownRequested = false ∧
        ∃ next, p'.tick = some next ∧ next.due = c.now + tickInterval)

theorem paced_step (keeping : Keeping δ k s p) {tick : TickTimer} (armed : p.tick = some tick) (i : Input)
    (prompt : p.Prompt δ i) : Paced δ p (p.step i).1 tick i (p.eventOf i) := by
  have moves := step_moves p i
  obtain ⟨later, prompt⟩ := prompt
  have passing := keeping.punctual.passing
  have member : (⟨tick.mark, tick.due, .tick, true⟩ : EvTimer ProgramTimer) ∈ p.timers := mem_timers.mpr (.inr ⟨tick, armed, rfl⟩)
  have within := keeping.punctual.within _ member rfl
  generalize (p.step i).1 = p' at moves
  generalize p.eventOf i = es at moves
  -- an input that leaves the tick and the flags alone
  have same : SameFlags p p' → (∀ e ∈ es, ∀ fresh, e.2 ≠ .tick fresh) → Paced δ p p' tick i es := fun same none =>
    .waits (same.tick.trans armed) none (fun here => same.reload.trans here) fun here => same.shutdown.trans here
  cases moves with
  | stays place clock tick' reload shutdown => exact .waits (tick'.trans armed) (by simp) reload shutdown
  | @stops now entries c file input connected tick' here armed' due place =>
    obtain rfl := Option.some.inj (armed.symm.trans armed')
    simp only [Within, Passing, PromptAt, here] at within passing prompt
    exact .ticked rfl rfl (due.trans (passing.1.trans later)) (by linarith) (.inl place)
  | @ticks now entries c file input connected tick' mark here armed' due goesOn place clock rearmed =>
    obtain rfl := Option.some.inj (armed.symm.trans armed')
    simp only [Within, Passing, PromptAt, here] at within passing prompt
    exact .ticked rfl rfl (due.trans (passing.1.trans later)) (by linarith) (.inr ⟨goesOn, _, rearmed, rfl⟩)
  | serves here place clock flags none => exact same flags fun e member => (none e member).2
  | fires here place clock flags => exact same flags (by simp)
  | asks here place clock flags | wakes here place clock flags | interrupted here place clock flags
  | failed here place clock flags | fired here early place clock flags | served here place clock flags =>
    exact same flags (by simp)

/-- Past the loop nothing happens any more. -/
theorem step_stopped (stopped : p.place = .stopped) (i : Input) : (p.step i).1.place = .stopped ∧ p.eventOf i = [] := by
  have moves := step_moves p i
  generalize (p.step i).1 = p' at moves
  generalize p.eventOf i = es at moves
  cases moves with
  | stays place => exact ⟨place.trans stopped, rfl⟩
  | failed here place => exact ⟨place, rfl⟩
  | asks here | wakes here | interrupted here | fires here | ticks here | stops here | fired here | serves here | served here =>
    rw [stopped] at here
    cases here

theorem run_stopped (stopped : p.place = .stopped) (is : List Input) : (Machine.run Program.step p is).1.place = .stopped := by
  induction is generalizing p with
  | nil => exact stopped
  | cons i is ih => exact ih (step_stopped stopped i).1

/-! ## Runs -/

/-- The times of the ticks among events. -/
def tickTimes (es : List (Ctx × System.Event)) : List Rat :=
  es.filterMap fun e => match e.2 with
    | .tick _ => some e.1.now
    | _ => none

theorem tickTimes_none {es : List (Ctx × System.Event)} (none : ∀ e ∈ es, ∀ fresh, e.2 ≠ .tick fresh) : tickTimes es = [] := by
  rw [tickTimes, List.filterMap_eq_nil_iff]
  rintro ⟨c, e⟩ member
  cases e with
  | tick fresh => exact absurd rfl (none _ member fresh)
  | _ => rfl

/-- A second apart, or up to that much later. -/
def Spaced (δ : Rat) (a b : Rat) : Prop := a + tickInterval ≤ b ∧ b ≤ a + tickInterval + 4 * δ

/-- The ticks so far, and the next. -/
structure OnTime (start : Rat) (p : Program) (es : List (Ctx × System.Event)) (δ : Rat) : Prop where
  spaced : (start :: tickTimes es).IsChain (Spaced δ)
  next : p.place = .stopped ∨ ∃ tick, p.tick = some tick ∧ tick.due = (tickTimes es).getLastD start + tickInterval

theorem OnTime.step {start : Rat} {es : List (Ctx × System.Event)} (onTime : OnTime start p es δ) (keeping : Keeping δ k s p)
    (i : Input) (prompt : p.Prompt δ i) : OnTime start (p.step i).1 (es ++ p.eventOf i) δ := by
  obtain ⟨spaced, next⟩ := onTime
  rcases next with stopped | ⟨tick, armed, due⟩
  · obtain ⟨stays, none⟩ := step_stopped stopped i
    rw [none, List.append_nil]
    exact ⟨spaced, .inl stays⟩
  · have paced := paced_step keeping armed i prompt
    generalize (p.step i).1 = p' at paced
    generalize p.eventOf i = new at paced
    have times : tickTimes (es ++ new) = tickTimes es ++ tickTimes new := List.filterMap_append ..
    cases paced with
    | waits armed' none =>
      rw [tickTimes_none none, List.append_nil] at times
      exact ⟨times ▸ spaced, .inr ⟨tick, armed', times ▸ due⟩⟩
    | @ticked c file input connected here one late prompt' after =>
      have single : tickTimes new = [c.now] := by rw [one]; rfl
      rw [single] at times
      have last : (tickTimes (es ++ new)).getLastD start = c.now := by rw [times]; simp
      constructor
      case spaced =>
        rw [times, ← List.cons_append, List.isChain_append]
        refine ⟨spaced, List.isChain_singleton _, fun a isLast b first => ?_⟩
        obtain rfl : c.now = b := by simpa using first
        have before : (tickTimes es).getLastD start = a := by
          rw [List.getLast?_cons] at isLast
          simpa using isLast
        rw [before] at due
        exact ⟨due ▸ late, due ▸ prompt'⟩
      case next =>
        rcases after with stopped | ⟨-, tick', armed', due'⟩
        · exact .inl stopped
        · exact .inr ⟨tick', armed', by rw [last, due']⟩

theorem OnTime.run {start : Rat} {es : List (Ctx × System.Event)} (onTime : OnTime start p es δ) (keeping : Keeping δ k s p)
    (nonneg : 0 ≤ δ) (is : List Input) (prompt : Machine.Meets Program.step (Prompt δ) p is) :
    OnTime start (Machine.run Program.step p is).1 (es ++ p.events is) δ := by
  induction is generalizing s p es with
  | nil => simpa [events] using onTime
  | cons i is ih =>
    rw [events_cons, ← List.append_assoc]
    exact ih (onTime.step keeping i prompt.1) (keeping.step nonneg i prompt.1) prompt.2

/-- In every prompt run the ticks have come on time. -/
theorem onTime_run {path : List Byte} {file : Option (List Byte)} {c : Ctx} (started : start path file c = .ok p)
    (began : 0 ≤ c.now) (nonneg : 0 ≤ δ) (is : List Input) (prompt : Machine.Meets Program.step (Prompt δ) p is) :
    OnTime c.now (Machine.run Program.step p is).1 (p.events is) δ := by
  obtain ⟨cfg, -, rules, rfl⟩ := start_eq_ok started
  have first : OnTime c.now (ofConfig path cfg c) [] δ := ⟨List.isChain_singleton _, .inr ⟨_, rfl, rfl⟩⟩
  simpa using first.run (keeping_ofConfig path rules c began nonneg) nonneg is prompt

/-- The tick that is armed has been waited for no longer than it may. -/
theorem Keeping.clock_le (keeping : Keeping δ k s p) (nonneg : 0 ≤ δ) (running : p.place ≠ .stopped) {tick : TickTimer}
    (armed : p.tick = some tick) : p.clock ≤ tick.due + 4 * δ :=
  (keeping.punctual.within _ (mem_timers.mpr (.inr ⟨tick, armed, rfl⟩)) rfl).clock_le keeping.punctual.passing nonneg running

/-- The clock has not passed the next tick by much. -/
theorem OnTime.clock_le {start : Rat} {es : List (Ctx × System.Event)} (onTime : OnTime start p es δ) (keeping : Keeping δ k s p)
    (nonneg : 0 ≤ δ) (running : p.place ≠ .stopped) : p.clock ≤ (tickTimes es).getLastD start + tickInterval + 4 * δ := by
  obtain ⟨tick, armed, due⟩ := onTime.next.resolve_left running
  rw [← due]
  exact keeping.clock_le nonneg running armed

end Program

/-- If nothing holds the process up for more than `δ`, the ticks are a second apart or up to `4 δ` more, from the start
on, and the loop is never further behind than that. -/
theorem ticks_keep_time (δ : Rat) (small : 0 ≤ δ) (path : List Byte) (file : Option (List Byte)) (c : Ctx) (nonneg : 0 ≤ c.now)
    (p : Program) (started : Program.start path file c = .ok p) (is : List Program.Input)
    (prompt : Machine.Meets Program.step (Program.Prompt δ) p is) :
    (c.now :: Program.tickTimes (p.events is)).IsChain (Program.Spaced δ) ∧
      ((Machine.run Program.step p is).1.running = true →
        (Machine.run Program.step p is).1.clock ≤ (Program.tickTimes (p.events is)).getLastD c.now + tickInterval + 4 * δ) := by
  have onTime := Program.onTime_run started nonneg small is prompt
  obtain ⟨s, keeping⟩ := Program.keeping_run started nonneg small is prompt
  exact ⟨onTime.spaced, fun running => onTime.clock_le keeping small (Program.place_of_running running)⟩

theorem prompt_reload : Machine.Meets Program.step (Program.Prompt (1 / 10)) (Program.ofConfig [] bridgeFileConfig { now := 0 })
    (acceptThenHup ++ reloadThenTick) := by decide +kernel

theorem ticks_keep_time_reload :
    (0 :: Program.tickTimes (Program.events (Program.ofConfig [] bridgeFileConfig { now := 0 }) (acceptThenHup ++ reloadThenTick))).IsChain
        (Program.Spaced (1 / 10)) ∧
      ((Machine.run Program.step (Program.ofConfig [] bridgeFileConfig { now := 0 }) (acceptThenHup ++ reloadThenTick)).1.running = true →
        (Machine.run Program.step (Program.ofConfig [] bridgeFileConfig { now := 0 }) (acceptThenHup ++ reloadThenTick)).1.clock ≤
          (Program.tickTimes (Program.events (Program.ofConfig [] bridgeFileConfig { now := 0 })
            (acceptThenHup ++ reloadThenTick))).getLastD 0 + tickInterval + 4 * (1 / 10)) :=
  ticks_keep_time (1 / 10) (by decide +kernel) [] (some bridgeFile) { now := 0 } (le_refl _) _ start_bridgeFile
    (acceptThenHup ++ reloadThenTick) prompt_reload

namespace Program

variable {p : Program} {s : System} {δ k : Rat}

/-! ## Signals -/

/-- The tick is due in time for what has been asked. -/
def Awaits (by_ : Rat) (p : Program) : Prop := ∃ tick, p.tick = some tick ∧ tick.due ≤ by_

/-- A program that is to shut down stops at its next tick. -/
theorem shutdown_run {by_ : Rat} (awaits : Awaits by_ p) (keeping : Keeping δ k s p) (nonneg : 0 ≤ δ)
    (asked : p.shutdownRequested = true) (is : List Input) (prompt : Machine.Meets Program.step (Prompt δ) p is)
    (running : (Machine.run Program.step p is).1.place ≠ .stopped) :
    (Machine.run Program.step p is).1.clock ≤ by_ + 4 * δ := by
  induction is generalizing s p with
  | nil =>
    obtain ⟨tick, armed, due⟩ := awaits
    exact (keeping.clock_le nonneg running armed).trans (add_le_add_left due _)
  | cons i is ih =>
    obtain ⟨tick, armed, due⟩ := awaits
    have paced := paced_step keeping armed i prompt.1
    have stays : (p.step i).1.place ≠ .stopped := fun stopped => running (run_stopped stopped is)
    cases paced with
    | waits armed' none reload shutdown =>
      exact ih ⟨tick, armed', due⟩ (keeping.step nonneg i prompt.1) (shutdown asked) prompt.2 running
    | ticked here one due' prompt' next =>
      rcases next with stopped | ⟨goesOn, -⟩
      · exact absurd stopped stays
      · rw [asked] at goesOn
        cases goesOn

theorem path_step (p : Program) (i : Input) : (p.step i).1.path = p.path := by
  cases i <;> cases place : p.place <;> simp only [Program.step, place] <;> try rfl
  case proceed.firing c file input connected now entries =>
    unfold Program.fireRound tickCb
    split
    · rfl
    · dsimp only
      split <;> rfl
    · rfl
  case proceed.serving c file input connected now entries =>
    cases entries with
    | nil => rfl
    | cons e rest =>
      simp only [Program.serveRound]
      split
      · split <;> rfl
      · rfl

/-- The tick of a run that reads the file. -/
def Reloads (p : Program) (is : List Input) : Prop :=
  ∃ early c file input connected late, is = early ++ .proceed c file input connected :: late ∧
    (Machine.run Program.step p early).1.eventOf (.proceed c file input connected) =
      [(c, .tick (configLoadFile p.path file).toOption)]

/-- A program that is to reload does at its next tick. -/
theorem reload_run {by_ : Rat} (awaits : Awaits by_ p) (keeping : Keeping δ k s p) (nonneg : 0 ≤ δ)
    (asked : p.reloadRequested = true) (is : List Input) (prompt : Machine.Meets Program.step (Prompt δ) p is)
    (running : (Machine.run Program.step p is).1.place ≠ .stopped) (late : by_ + 4 * δ < (Machine.run Program.step p is).1.clock) :
    Reloads p is := by
  induction is generalizing s p with
  | nil =>
    obtain ⟨tick, armed, due⟩ := awaits
    have clock := (keeping.clock_le nonneg running armed).trans (add_le_add_left due _)
    exact absurd late (not_lt.mpr clock)
  | cons i is ih =>
    obtain ⟨tick, armed, due⟩ := awaits
    have paced := paced_step keeping armed i prompt.1
    cases paced with
    | waits armed' none reload shutdown =>
      obtain ⟨early, c, file, input, connected, rest, split, reads⟩ :=
        ih ⟨tick, armed', due⟩ (keeping.step nonneg i prompt.1) (reload asked) prompt.2 running late
      rw [path_step] at reads
      exact ⟨i :: early, c, file, input, connected, rest, by rw [split, List.cons_append], reads⟩
    | @ticked c file input connected here one =>
      have fresh : p.fresh file = (configLoadFile p.path file).toOption := if_pos asked
      rw [fresh, here] at one
      exact ⟨[], c, file, input, connected, is, by rw [here]; rfl, one⟩

end Program

/-- If nothing holds the process up for more than `δ`, then a second and `4 δ` after a signal at the latest a program
that was to shut down has stopped, and one that was to reload has read the file or stopped. -/
theorem signals_served (δ : Rat) (small : 0 ≤ δ) (path : List Byte) (file : Option (List Byte)) (c : Ctx) (nonneg : 0 ≤ c.now)
    (p : Program) (started : Program.start path file c = .ok p) (is more : List Program.Input)
    (prompt : Machine.Meets Program.step (Program.Prompt δ) p (is ++ more))
    (late : (Machine.run Program.step p is).1.clock + tickInterval + 4 * δ < (Machine.run Program.step p (is ++ more)).1.clock)
    (running : (Machine.run Program.step p (is ++ more)).1.running = true) :
    (Machine.run Program.step p is).1.shutdownRequested = false ∧
      ((Machine.run Program.step p is).1.reloadRequested = true → (Machine.run Program.step p is).1.Reloads more) := by
  obtain ⟨past, ahead⟩ := (Machine.meets_append Program.step (Program.Prompt δ) p is more).mp prompt
  obtain ⟨s, keeping⟩ := Program.keeping_run started nonneg small is past
  have goesOn := Program.place_of_running running
  rw [Machine.run_append] at late goesOn
  -- the tick is armed for a second from now at the latest
  have busy : (Machine.run Program.step p is).1.place ≠ .stopped := fun stopped => goesOn (Program.run_stopped stopped more)
  obtain ⟨tick, armed, -, soon⟩ := keeping.ticking.armed busy
  have awaits : Program.Awaits ((Machine.run Program.step p is).1.clock + tickInterval) (Machine.run Program.step p is).1 :=
    ⟨tick, armed, soon⟩
  constructor
  · by_contra asked
    have stopped := Program.shutdown_run awaits keeping small (Bool.eq_true_of_not_eq_false asked) more ahead goesOn
    exact absurd late (not_lt.mpr stopped)
  · exact fun asked => Program.reload_run awaits keeping small asked more ahead goesOn late

theorem signals_served_reload :
    (Machine.run Program.step (Program.ofConfig [] bridgeFileConfig { now := 0 }) acceptThenHup).1.shutdownRequested = false ∧
      ((Machine.run Program.step (Program.ofConfig [] bridgeFileConfig { now := 0 }) acceptThenHup).1.reloadRequested = true →
        (Machine.run Program.step (Program.ofConfig [] bridgeFileConfig { now := 0 }) acceptThenHup).1.Reloads reloadThenTick) :=
  signals_served (1 / 10) (by decide +kernel) [] (some bridgeFile) { now := 0 } (le_refl _) _ start_bridgeFile acceptThenHup
    reloadThenTick prompt_reload (by decide +kernel) (by decide +kernel)

end Cc2obp
