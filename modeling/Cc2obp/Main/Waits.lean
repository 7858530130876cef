import Cc2obp.Main.Prompt
import Cc2obp.System.Renewals

/-!
# Waits of a prompt process

A handle always stands for the same timer. So whatever waits for one, a slot for its
Question or a link for its next attempt, has it fire or gives it up in time.
-/
namespace Cc2obp

namespace Program

variable {p : Program} {s : System} {δ k : Rat}

/-- The number is this timer's for good. -/
structure Pinned (t : EvTimer TimerCb) (s : System) : Prop where
  used : t.id < s.world.loop.nextTimer
  only : ∀ t' ∈ s.world.loop.timers, t'.active = true → t'.id = t.id → t' = t

theorem Pinned.step {t : EvTimer TimerCb} (pinned : Pinned t s) (e : Ctx × System.Event) : Pinned t (s.step e).1 := by
  have renews := System.step_renews (s := s) e.1 e.2
  refine ⟨pinned.used.trans_le renews.more, fun t' member active same => ?_⟩
  rcases renews.timers t' member active with old | ⟨fresh, -⟩
  · exact pinned.only t' old active same
  · -- a new timer has a number that was not given out before
    rw [same] at fresh
    exact absurd pinned.used (not_lt.mpr fresh)

theorem Keeping.run_pinned {t : EvTimer TimerCb} (keeping : Keeping δ k s p) (nonneg : 0 ≤ δ) (pinned : Pinned t s)
    (is : List Input) (prompt : Machine.Meets Program.step (Prompt δ) p is) :
    ∃ s', Keeping δ k s' (Machine.run Program.step p is).1 ∧ Pinned t s' := by
  refine Machine.run_state_invariant Program.step (fun p => ∃ s, Keeping δ k s p ∧ Pinned t s) ?_ p is prompt ⟨s, keeping, pinned⟩
  rintro p i ⟨s, keeping, pinned⟩ prompt
  refine ⟨_, keeping.step nonneg i prompt, ?_⟩
  rcases eventOf_cases i prompt.1 with none | ⟨e, one, -⟩
  · rw [none]
    exact pinned
  · rw [one, run_one]
    exact pinned.step e

theorem handle_alike (alike : System.AlikeTo s p.sys) : p.sys.world.handle = s.world.handle := by
  obtain ⟨ts, same, -⟩ := alike
  rw [same]
  funext cb
  cases cb <;> rfl

end Program

/-- If nothing holds the process up for more than `δ`, no handle is kept for longer than its timer's delay and `4 δ`: no
slot waits longer for the rest of its Question, no link longer for its next attempt or its next keepalive. -/
theorem waits_end (δ : Rat) (small : 0 ≤ δ) (path : List Byte) (file : Option (List Byte)) (c : Ctx) (nonneg : 0 ≤ c.now)
    (p : Program) (started : Program.start path file c = .ok p) (is more : List Program.Input)
    (prompt : Machine.Meets Program.step (Program.Prompt δ) p (is ++ more))
    (running : (Machine.run Program.step p (is ++ more)).1.running = true) (cb : TimerCb) (id : Nat)
    (armed : (Machine.run Program.step p is).1.sys.world.handle cb = some id)
    (kept : (Machine.run Program.step p (is ++ more)).1.sys.world.handle cb = some id) :
    (Machine.run Program.step p (is ++ more)).1.clock ≤
      (Machine.run Program.step p is).1.clock + timerDelay p.sys.world.cfg.ccKeepaliveInterval cb + 4 * δ := by
  obtain ⟨past, ahead⟩ := (Machine.meets_append Program.step (Program.Prompt δ) p is more).mp prompt
  obtain ⟨s, keeping⟩ := Program.keeping_run started nonneg small is past
  have wf := keeping.shadows.wf
  -- the timer that is waited for
  rw [Program.handle_alike keeping.shadows.alike] at armed
  obtain ⟨t, member, rfl, called, active⟩ := (wf.armed.agree id cb).mpr armed
  have due := (keeping.timer member active).2
  have pinned : Program.Pinned t s := ⟨wf.timers.below t member, fun t' inside _ same =>
    List.inj_on_of_nodup_map wf.timers.distinct inside member same⟩
  obtain ⟨s', keeping', pinned'⟩ := keeping.run_pinned small pinned more ahead
  rw [Machine.run_append] at running kept ⊢
  -- it is still the one that is waited for
  rw [Program.handle_alike keeping'.shadows.alike] at kept
  obtain ⟨t', member', same, -, active'⟩ := (keeping'.shadows.wf.armed.agree t.id cb).mpr kept
  have late := (keeping'.timer member' active').1.clock_le keeping'.punctual.passing small (Program.place_of_running running)
  rw [pinned'.only t' member' active' same] at late
  rw [called] at due
  exact late.trans (add_le_add_left due _)

/-- A pass in which nothing happens. -/
def idlePass (asked now : Rat) : List Program.Input :=
  .proceed { now := asked } none (.recv .wouldBlock) false :: .polled now (fun _ => false) ::
    List.replicate 6 (.proceed { now } none (.recv .wouldBlock) false)

theorem waits_end_silent :
    (Machine.run Program.step (Program.ofConfig [] bridgeFileConfig { now := 0 }) (acceptThenHup ++ idlePass (1 / 2) 1)).1.clock ≤
      (Machine.run Program.step (Program.ofConfig [] bridgeFileConfig { now := 0 }) acceptThenHup).1.clock +
        timerDelay (Program.ofConfig [] bridgeFileConfig { now := 0 }).sys.world.cfg.ccKeepaliveInterval (.pendingTimeout 0) +
          4 * (1 / 10) :=
  waits_end (1 / 10) (by decide +kernel) [] (some bridgeFile) { now := 0 } (le_refl _) _ start_bridgeFile acceptThenHup
    (idlePass (1 / 2) 1) (by decide +kernel) (by decide +kernel) (.pendingTimeout 0) 0 (by decide +kernel) (by decide +kernel)

end Cc2obp
