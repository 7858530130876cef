import Cc2obp.Eventloop.Timers
import Mathlib.Data.Rat.Floor
import Mathlib.Tactic.Linarith

/-!
# The timeout of `poll()`

`ev_run` looks for the soonest active timer and waits no longer than until it is due. A
negative time stands for none; no timer is due at one, the clock being monotonic from
nought.
-/
namespace Cc2obp

variable {τ : Type}

/-- The soonest so far after one more timer. -/
def evNextStep (next : Rat) (t : EvTimer τ) : Rat := if t.active ∧ (next < 0 ∨ t.due < next) then t.due else next

/-- When the soonest active timer is due; negative when there is none. -/
def evNext (timers : List (EvTimer τ)) : Rat := timers.foldl evNextStep (-1)

/-- How long `poll()` may wait, in milliseconds; a negative timeout is none. -/
def evTimeoutMs (now : Rat) (timers : List (EvTimer τ)) : Int :=
  if evNext timers < 0 then -1
  else if (evNext timers - now) * 1000 ≤ 0 then 0
  else ((evNext timers - now) * 1000).floor

/-- The active timers are due at times the clock can show. -/
def DuesNonneg (timers : List (EvTimer τ)) : Prop := ∀ t ∈ timers, t.active = true → 0 ≤ t.due

variable {timers : List (EvTimer τ)}

theorem foldl_evNextStep (dues : DuesNonneg timers) (next : Rat) :
    (0 ≤ next → 0 ≤ timers.foldl evNextStep next ∧ timers.foldl evNextStep next ≤ next) ∧
      ∀ t ∈ timers, t.active = true → 0 ≤ timers.foldl evNextStep next ∧ timers.foldl evNextStep next ≤ t.due := by
  induction timers generalizing next with
  | nil => exact ⟨fun nonneg => ⟨nonneg, le_refl _⟩, by simp⟩
  | cons t timers ih =>
    have dues' : DuesNonneg timers := fun t' member => dues t' (List.mem_cons_of_mem t member)
    obtain ⟨kept, found⟩ := ih dues' (evNextStep next t)
    rw [List.foldl_cons]
    -- the new candidate is no later than the old one, nor than this timer
    have candidate : 0 ≤ next → 0 ≤ evNextStep next t ∧ evNextStep next t ≤ next := by
      intro nonneg
      unfold evNextStep
      split
      next taken => exact ⟨dues t List.mem_cons_self taken.1, (taken.2.resolve_left (not_lt.mpr nonneg)).le⟩
      · exact ⟨nonneg, le_refl _⟩
    have scanned : t.active = true → 0 ≤ evNextStep next t ∧ evNextStep next t ≤ t.due := by
      intro active
      unfold evNextStep
      split
      · exact ⟨dues t List.mem_cons_self active, le_refl _⟩
      next later =>
        obtain ⟨nonneg, sooner⟩ := not_or.mp (not_and.mp later active)
        exact ⟨not_lt.mp nonneg, not_lt.mp sooner⟩
    constructor
    · intro nonneg
      obtain ⟨nonneg', before⟩ := candidate nonneg
      exact ⟨(kept nonneg').1, (kept nonneg').2.trans before⟩
    · intro t' member active
      rcases List.mem_cons.mp member with rfl | member
      · obtain ⟨nonneg', before⟩ := scanned active
        exact ⟨(kept nonneg').1, (kept nonneg').2.trans before⟩
      · exact found t' member active

theorem evNext_le (dues : DuesNonneg timers) {t : EvTimer τ} (member : t ∈ timers) (active : t.active = true) :
    0 ≤ evNext timers ∧ evNext timers ≤ t.due := (foldl_evNextStep dues (-1)).2 t member active

/-- With a timer armed `poll()` waits a bounded time, and past no timer. -/
theorem evTimeoutMs_le (dues : DuesNonneg timers) {t : EvTimer τ} (member : t ∈ timers) (active : t.active = true) (now : Rat) :
    0 ≤ evTimeoutMs now timers ∧ (0 < evTimeoutMs now timers → now + evTimeoutMs now timers / 1000 ≤ t.due) := by
  obtain ⟨nonneg, before⟩ := evNext_le dues member active
  unfold evTimeoutMs
  rw [if_neg (not_lt.mpr nonneg)]
  split
  · exact ⟨le_refl _, fun waits => absurd waits (lt_irrefl _)⟩
  next ahead =>
    have positive : 0 < (evNext timers - now) * 1000 := not_le.mp ahead
    have whole : (((evNext timers - now) * 1000).floor : Rat) ≤ (evNext timers - now) * 1000 := Int.floor_le _
    refine ⟨Int.floor_nonneg.mpr positive.le, fun _ => ?_⟩
    linarith

end Cc2obp
