import Cc2obp.Lib.Progress
import Cc2obp.Main.Refinement

/-!
# Passes of the loop

A pass of `ev_run` comes to an end: every round of its loops takes something from what is
left to do, and nothing that is left can grow. What there is to do is bounded by the links
and slots, each of which has one timer at most, and by the tables.
-/
namespace Cc2obp

/-! ## Timers -/

/-- The holder a timer is for. -/
def TimerCb.holder : TimerCb → Holder
  | .reconnect i => .link i
  | .keepalive i => .link i
  | .pendingTimeout s => .pending s

/-- The holders that have timers. -/
def timerHolders (w : World) : List Holder :=
  (List.range w.cfg.nLink).map Holder.link ++ (List.range maxPending).map Holder.pending

theorem length_timerHolders (w : World) : (timerHolders w).length = w.cfg.nLink + maxPending := by
  simp [timerHolders]

namespace Wf

variable {w : World} {ph : Phase}

theorem holder_of_live (wf : Wf ph w) {id : Nat} {cb : TimerCb} (live : evLive w.loop id cb) : cb.holder ∈ timerHolders w := by
  have handle : w.handle cb = some id := wf.armed.handle_of_live live
  have inside : ∀ i, w.links i ≠ {} → Holder.link i ∈ timerHolders w := by
    intro i used
    have below : i < w.cfg.nLink := by
      by_contra beyond
      exact used (wf.beyond i (not_lt.mp beyond))
    exact List.mem_append_left _ (List.mem_map.mpr ⟨i, List.mem_range.mpr below, rfl⟩)
  cases cb with
  | reconnect i => exact inside i fun blank => by simp [World.handle, blank] at handle
  | keepalive i => exact inside i fun blank => by simp [World.handle, blank] at handle
  | pendingTimeout s =>
    have below : s < maxPending := by
      by_contra beyond
      simp [World.handle, wf.beyondSlots s (not_lt.mp beyond)] at handle
    exact List.mem_append_right _ (List.mem_map.mpr ⟨s, List.mem_range.mpr below, rfl⟩)

/-- A link waits to connect again while it is down and is kept alive while it is UP, so it has one timer. -/
theorem live_unique (wf : Wf ph w) {id id' : Nat} {cb cb' : TimerCb} (live : evLive w.loop id cb) (live' : evLive w.loop id' cb')
    (same : cb.holder = cb'.holder) : id = id' := by
  have handle : w.handle cb = some id := wf.armed.handle_of_live live
  have handle' : w.handle cb' = some id' := wf.armed.handle_of_live live'
  have apart : ∀ i, ¬((w.links i).reconnectTimer ≠ none ∧ (w.links i).keepaliveTimer ≠ none) := by
    rintro i ⟨waits, kept⟩
    have down := ((wf.links i).waiting.mp waits).1
    have up := (wf.links i).kept.mp kept
    rw [down] at up
    cases up
  cases cb <;> cases cb' <;> simp only [TimerCb.holder, Holder.link.injEq, Holder.pending.injEq, reduceCtorEq] at same
  case reconnect.keepalive i j =>
    subst same
    simp only [World.handle] at handle handle'
    exact absurd ⟨by simp [handle], by simp [handle']⟩ (apart i)
  case keepalive.reconnect i j =>
    subst same
    simp only [World.handle] at handle handle'
    exact absurd ⟨by simp [handle'], by simp [handle]⟩ (apart i)
  all_goals
    subst same
    exact Option.some.inj (handle.symm.trans handle')

theorem due_length (wf : Wf ph w) (now : Rat) : (w.loop.due now).length ≤ w.cfg.nLink + maxPending := by
  have live : ∀ t ∈ w.loop.due now, evLive w.loop t.id t.cb := by
    intro t member
    obtain ⟨inside, active, -⟩ := mem_due.mp member
    exact ⟨t, inside, rfl, rfl, active⟩
  have distinct : ((w.loop.due now).map EvTimer.id).Nodup := wf.timers.distinct.sublist (List.filter_sublist.map EvTimer.id)
  have holders : ((w.loop.due now).map fun t => t.cb.holder).Nodup := by
    refine (List.nodup_map_iff_inj_on distinct.of_map).mpr fun t member t' member' same => ?_
    exact List.inj_on_of_nodup_map distinct member member' (wf.live_unique (live t member) (live t' member') same)
  have inside : (w.loop.due now).map (fun t => t.cb.holder) ⊆ timerHolders w := by
    intro h member
    obtain ⟨t, due, rfl⟩ := List.mem_map.mp member
    exact wf.holder_of_live (live t due)
  have short := (List.subperm_of_subset holders inside).length_le
  rwa [List.length_map, length_timerHolders] at short

end Wf

namespace System

variable {s : System}

/-- Nothing an event does makes a timer due. -/
theorem due_le_of_arms {k : Rat} {c : Ctx} {f : System → System} (arms : Arms k c f s) {now : Rat} (passed : now ≤ c.now) :
    ((f s).world.loop.due now).length ≤ (s.world.loop.due now).length :=
  arms.keeps (fun ts => (ts.filter fun t => t.active && decide (t.due ≤ now)).length ≤ (s.world.loop.due now).length)
    (fun _ _ after bounded => (TimerOp.due_length_le after passed _).trans bounded) (le_refl _)

end System

namespace Program

variable {p : Program} {s : System}

/-! ## What is left of a pass -/

/-- How many timers are due. -/
def dueCount (now : Rat) (p : Program) : Nat :=
  (p.sys.world.loop.due now).length + if p.tick.any fun tick => decide (tick.due ≤ now) then 1 else 0

/-- How many rounds a pass may still take before `poll()`. -/
def left (p : Program) : Nat :=
  match p.place with
  | .looping => 1
  | .polling _ => 0
  | .firing now entries => p.dueCount now + entries.length + 3
  | .serving _ entries => entries.length + 2
  | .stopped => 0

/-- At `poll()`, or past the loop. -/
def Waits (p : Program) : Prop := (∃ asked, p.place = .polling asked) ∨ p.place = .stopped

/-! ## Rounds -/

/-- A timer of the muxes that fires is due no more. -/
theorem due_fired {k : Rat} (beats : p.sys.world.cfg.Beats k) {now : Rat} {id : Nat} {cb : TimerCb}
    (soonest : p.soonest now = some (.mux id cb)) {c : Ctx} (passed : now ≤ c.now) :
    ((p.sys.record (System.callback c fun w => World.timerCb c cb (w.onLoop (evTimerCancel (some id))))).1.world.loop.due
      now).length < (p.sys.world.loop.due now).length := by
  obtain ⟨t, due, rfl, rfl⟩ := due_of_soonest soonest
  -- it is taken out first, and then its callback runs
  let taken : System := { p.sys.cleared with world := p.sys.cleared.world.onLoop (evTimerCancel (some t.id)) }
  have fewer : (taken.world.loop.due now).length < (p.sys.world.loop.due now).length := by
    have here : taken.world.loop.due now = (p.sys.world.loop.due now).filter fun u => u.id != t.id :=
      due_timerCancel now t.id p.sys.world.loop
    rw [here]
    exact List.length_filter_lt_length_iff_exists.mpr ⟨t, due, by simp⟩
  have beats' : taken.world.unlogged.cfg.Beats k := beats
  have arms : System.Arms k c (System.callback c (World.timerCb c t.cb)) taken :=
    System.arms_callback (System.arms_timerCb beats' c t.cb)
  exact (System.due_le_of_arms arms passed).trans_lt fewer

theorem due_ticked {now : Rat} {c : Ctx} (passed : now ≤ c.now) (fresh : Option Config) (s : System) :
    ((s.record (System.tickCb c fresh)).1.world.loop.due now).length ≤ (s.world.loop.due now).length :=
  System.due_le_of_arms (k := 0) (s := s.cleared) (System.arms_tickCb c fresh) passed

theorem due_reaped (now : Rat) (p : Program) : p.reaped.sys.world.loop.due now = p.sys.world.loop.due now :=
  (due_alike (alike_reap _) now).symm

theorem left_fireRound {k : Rat} (beats : p.sys.world.cfg.Beats k) {now : Rat} {entries : List (PollFd FdCb × Bool)}
    (place : p.place = .firing now entries) {c : Ctx} (passed : now ≤ c.now) (file : Option (List Byte)) :
    (p.fireRound now entries c file).1.left < p.left := by
  have before : p.left = p.dueCount now + entries.length + 3 := by
    simp only [left, place]
  rw [before]
  unfold Program.fireRound
  cases soonest : p.soonest now with
  | none =>
    simp only [left]
    omega
  | some timer =>
    cases timer with
    | tick =>
      obtain ⟨tick, armed, due⟩ := tick_due soonest
      have fewer := due_ticked passed (p.fresh file) p.sys
      have later : ¬c.now + tickInterval ≤ now := not_le.mpr (passed.trans_lt (lt_add_of_pos_right _ (by decide +kernel)))
      simp only [tickCb]
      split
      · simp [left]
      · simp only [left, place, dueCount, armed, Option.any_some, due, later, decide_true, decide_false, if_true]
        simp only [Bool.false_eq_true, if_false]
        omega
    | mux id cb =>
      have fewer := due_fired beats soonest passed
      simp only [left, place, dueCount]
      omega

/-! ## One input -/

def Input.proceeds : Input → Bool
  | .proceed .. => true
  | _ => false

theorem cfg_of_alike (alike : System.AlikeTo s p.sys) : p.sys.world.cfg = s.world.cfg := by
  obtain ⟨ts, same, -⟩ := alike
  rw [same]
  rfl

theorem left_step (shadows : Shadows s p) (i : Input) (later : p.Later i) (busy : p.left ≠ 0) :
    if i.proceeds then (p.step i).1.left < p.left else (p.step i).1.left ≤ p.left := by
  cases i with
  | sighup => exact le_refl _
  | sigterm => exact le_refl _
  | polled now ready =>
    cases place : p.place with
    | polling asked => simp [left, place] at busy
    | _ => simp [Program.step, place, Input.proceeds]
  | interrupted now =>
    cases place : p.place with
    | polling asked => simp [left, place] at busy
    | _ => simp [Program.step, place, Input.proceeds]
  | failed =>
    cases place : p.place with
    | polling asked => simp [left, place] at busy
    | _ => simp [Program.step, place, Input.proceeds]
  | proceed c file input connected =>
    simp only [Input.proceeds, if_true]
    cases place : p.place with
    | looping => simp [Program.step, left, place]
    | polling asked => simp [left, place] at busy
    | stopped => simp [left, place] at busy
    | firing now entries =>
      have passed : now ≤ c.now := (shadows.passed now entries place).trans later
      obtain ⟨k, beats'⟩ := shadows.beats
      have beats : p.sys.world.cfg.Beats k := (cfg_of_alike shadows.alike).symm ▸ beats'
      have round := left_fireRound (p := { p with clock := c.now }) beats place passed file
      simp only [Program.step, place]
      rw [← place]
      exact round
    | serving now entries =>
      cases entries with
      | nil => simp [Program.step, left, place]
      | cons e rest =>
        have kept := (serveRound_frame e c input connected { p with clock := c.now, place := .serving now rest }).1
        simp only [Program.step, place, left] at kept ⊢
        rw [kept]
        simp

/-- The array that is worked on was built of the tables. -/
def Roomy (p : Program) : Prop :=
  ∀ now entries, p.place = .firing now entries ∨ p.place = .serving now entries → entries.length ≤ 2 * maxFds

theorem length_entries (shadows : Shadows s p) (ready : Nat → Bool) : (p.entries ready).length ≤ 2 * maxFds := by
  obtain ⟨ts, same, -⟩ := shadows.alike
  have tables : p.sys.world.loop.fds = s.world.loop.fds ∧ p.sys.world.loop.wfds = s.world.loop.wfds := by
    rw [same]
    exact ⟨rfl, rfl⟩
  obtain ⟨reading, writing⟩ := shadows.wf.short
  simp only [entries, readyFds, pollFds, List.length_map, List.length_zipIdx, List.length_append, tables]
  omega

theorem Roomy.step (shadows : Shadows s p) (roomy : Roomy p) (i : Input) : Roomy (p.step i).1 := by
  have moves := step_moves p i
  generalize (p.step i).1 = p' at moves
  generalize p.eventOf i = es at moves
  intro now' entries' there
  cases moves with
  | stays place =>
    rw [place] at there
    exact roomy now' entries' there
  | wakes here place =>
    rw [place] at there
    rcases there with there | there <;> cases there
    exact length_entries shadows _
  | fires here place =>
    rw [place, ← here] at there
    exact roomy now' entries' there
  | ticks here armed due goesOn place =>
    rw [place, ← here] at there
    exact roomy now' entries' there
  | fired here early place =>
    rw [place] at there
    rcases there with there | there <;> cases there
    exact roomy now' entries' (.inl here)
  | serves here place =>
    rw [place] at there
    rcases there with there | there <;> cases there
    exact (Nat.le_succ _).trans (roomy now' _ (.inr here))
  | asks here place | interrupted here place | failed here place | stops here armed due place | served here place =>
    rw [place] at there
    rcases there with there | there <;> cases there

/-- How much a pass can have to do. -/
theorem left_le (shadows : Shadows s p) (roomy : Roomy p) :
    p.left ≤ p.sys.world.cfg.nLink + maxPending + 2 * maxFds + 4 := by
  obtain ⟨ts, same, alike⟩ := id shadows.alike
  have timers : ∀ now, (p.sys.world.loop.due now).length ≤ p.sys.world.cfg.nLink + maxPending := by
    intro now
    have due : s.world.loop.due now = p.sys.world.loop.due now := by
      rw [same]
      exact due_alike alike now
    rw [← due, cfg_of_alike shadows.alike]
    exact shadows.wf.due_length now
  unfold left
  split
  · omega
  · omega
  next now entries place =>
    have few := roomy now entries (.inl place)
    have due := timers now
    simp only [dueCount]
    split <;> omega
  next now entries place =>
    have few := roomy now entries (.inr place)
    omega
  · omega

/-! ## Runs -/

/-- What a state of a run is known to be. -/
structure Reached (p : Program) : Prop where
  shadows : ∃ s, Shadows s p
  roomy : Roomy p

theorem Reached.step (reached : Reached p) (i : Input) (later : p.Later i) : Reached (p.step i).1 := by
  obtain ⟨⟨s, shadows⟩, roomy⟩ := reached
  exact ⟨⟨_, (shadows.step i later).2⟩, roomy.step shadows i⟩

theorem reached_run {path : List Byte} {file : Option (List Byte)} {c : Ctx} (started : start path file c = .ok p)
    (is : List Input) (later : Machine.Meets step Later p is) : Reached (Machine.run step p is).1 := by
  obtain ⟨cfg, -, rules, rfl⟩ := start_eq_ok started
  refine Machine.run_state_invariant step Reached (fun p i reached => reached.step i) _ is later ⟨⟨_, shadows_ofConfig path rules c⟩, ?_⟩
  intro now entries here
  rcases here with here | here <;> cases here

end Program

/-- In every run, whatever the timers and callbacks do and whatever signals come, so many more calls of the loop bring
it to `poll()` or to its end. -/
theorem passes_end (path : List Byte) (file : Option (List Byte)) (c : Ctx) (p : Program)
    (started : Program.start path file c = .ok p) (is more : List Program.Input)
    (later : Machine.Meets Program.step Program.Later p (is ++ more))
    (enough : (Machine.run Program.step p is).1.sys.world.cfg.nLink + maxPending + 2 * maxFds + 4 ≤
      more.countP Program.Input.proceeds) :
    ∃ early late, more = early ++ late ∧ (Machine.run Program.step p (is ++ early)).1.Waits := by
  obtain ⟨past, ahead⟩ := (Machine.meets_append Program.step Program.Later p is more).mp later
  have reached := Program.reached_run started is past
  obtain ⟨s, shadows⟩ := id reached.shadows
  obtain ⟨early, late, split, waits⟩ := Machine.run_reaches Program.step Program.Reached Program.Waits Program.left
    Program.Input.proceeds (fun p i reached => reached.step i)
    (fun p _ idle => by
      unfold Program.left at idle
      split at idle
      · cases idle
      next asked place => exact .inl ⟨asked, place⟩
      · simp at idle
      · simp at idle
      next place => exact .inr place)
    (fun p i reached later busy => by
      obtain ⟨s, shadows⟩ := reached.shadows
      exact Program.left_step shadows i later busy)
    _ more ahead reached ((Program.left_le shadows reached.roomy).trans enough)
  refine ⟨early, late, split, ?_⟩
  rw [Machine.run_append]
  exact waits

theorem passes_end_idle : ∃ early late, List.replicate 549 (turn 2) = early ++ late ∧
    (Machine.run Program.step (Program.ofConfig [] bridgeFileConfig { now := 0 }) (acceptThenHup ++ reloadThenTick ++ early)).1.Waits :=
  passes_end [] (some bridgeFile) { now := 0 } _ start_bridgeFile (acceptThenHup ++ reloadThenTick) (List.replicate 549 (turn 2))
    (by decide +kernel) (by decide +kernel)

end Cc2obp
