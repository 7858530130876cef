import Cc2obp.Lib.FdTable
import Mathlib.Data.Rat.Defs

/-!
# The event loop's tables

Read and write registrations and the timers. A timer handle is a number that is
never used again; cancelled and fired timers stay in the list, inactive, until
they are reaped.
-/
namespace Cc2obp

def maxFds : Nat := 256

structure EvTimer (τ : Type) where
  id : Nat
  due : Rat
  cb : τ
  active : Bool

/-- `κ` names the descriptor callbacks with their user data, `τ` those of timers. -/
structure EvLoop (κ τ : Type) where
  fds : FdTable κ := []
  wfds : FdTable κ := []
  /-- Newest first. -/
  timers : List (EvTimer τ) := []
  nextTimer : Nat := 0

variable {κ τ : Type}

def evAddFd (fd : Int) (cb : κ) (l : EvLoop κ τ) : EvLoop κ τ :=
  { l with fds := FdTable.add maxFds l.fds fd cb }

def evDelFd (fd : Int) (l : EvLoop κ τ) : EvLoop κ τ := { l with fds := FdTable.del l.fds fd }

def evAddFdWrite (fd : Int) (cb : κ) (l : EvLoop κ τ) : EvLoop κ τ :=
  { l with wfds := FdTable.add maxFds l.wfds fd cb }

def evDelFdWrite (fd : Int) (l : EvLoop κ τ) : EvLoop κ τ := { l with wfds := FdTable.del l.wfds fd }

/-- The handle of the timer `evTimerAt` makes. -/
def evTimerAt (due : Rat) (cb : τ) (l : EvLoop κ τ) : EvLoop κ τ :=
  { l with timers := ⟨l.nextTimer, due, cb, true⟩ :: l.timers, nextTimer := l.nextTimer + 1 }

def evDeactivate (id : Nat) (t : EvTimer τ) : EvTimer τ :=
  if t.id = id then { t with active := false } else t

/-- Cancel a timer by its handle; a null handle cancels nothing. -/
def evTimerCancel (handle : Option Nat) (l : EvLoop κ τ) : EvLoop κ τ :=
  match handle with
  | some id => { l with timers := l.timers.map (evDeactivate id) }
  | none => l

@[simp] theorem evTimerCancel_none (l : EvLoop κ τ) : evTimerCancel none l = l := rfl

@[simp] theorem evTimerCancel_fds (handle : Option Nat) (l : EvLoop κ τ) :
    (evTimerCancel handle l).fds = l.fds := by
  cases handle <;> rfl

@[simp] theorem evTimerCancel_wfds (handle : Option Nat) (l : EvLoop κ τ) :
    (evTimerCancel handle l).wfds = l.wfds := by
  cases handle <;> rfl

@[simp] theorem evTimerCancel_nextTimer (handle : Option Nat) (l : EvLoop κ τ) :
    (evTimerCancel handle l).nextTimer = l.nextTimer := by
  cases handle <;> rfl

/-- The callback of an active timer that is due. -/
def evDue (id : Nat) (now : Rat) (l : EvLoop κ τ) : Option τ :=
  (l.timers.find? fun t => t.id == id && t.active && decide (t.due ≤ now)).map EvTimer.cb

/-! ## Timers that can still fire -/

def evLive (l : EvLoop κ τ) (id : Nat) (cb : τ) : Prop :=
  ∃ t ∈ l.timers, t.id = id ∧ t.cb = cb ∧ t.active = true

/-- How many timers can still fire with a callback. -/
def evArmed [DecidableEq τ] (l : EvLoop κ τ) (cb : τ) : Nat :=
  (l.timers.filter fun t => t.active && t.cb == cb).length

/-- Every timer has a number of its own that has been given out. -/
structure TimersWf (l : EvLoop κ τ) : Prop where
  distinct : (l.timers.map EvTimer.id).Nodup
  below : ∀ t ∈ l.timers, t.id < l.nextTimer

section Timers
variable {l : EvLoop κ τ}

theorem evLive_timerAt (due : Rat) (cb : τ) (id : Nat) (cb' : τ) :
    evLive (evTimerAt due cb l) id cb' ↔ evLive l id cb' ∨ id = l.nextTimer ∧ cb' = cb := by
  simp only [evLive, evTimerAt, List.mem_cons, exists_eq_or_imp]
  grind

theorem evLive_timerCancel (handle : Option Nat) (l : EvLoop κ τ) (id : Nat) (cb : τ) :
    evLive (evTimerCancel handle l) id cb ↔ evLive l id cb ∧ some id ≠ handle := by
  cases handle with
  | none => simp [evTimerCancel]
  | some cancelled =>
    simp only [evLive, evTimerCancel, List.mem_map, evDeactivate]
    constructor
    · rintro ⟨_, ⟨t, member, rfl⟩, here⟩
      split at here
      · simp at here
      next other => exact ⟨⟨t, member, here⟩, by rw [← here.1]; simpa using other⟩
    · rintro ⟨⟨t, member, here⟩, other⟩
      have kept : t.id ≠ cancelled := by
        rw [here.1]
        simpa using other
      exact ⟨t, ⟨t, member, by simp [kept]⟩, here⟩

theorem evLive_of_due {id : Nat} {now : Rat} {cb : τ} (due : evDue id now l = some cb) : evLive l id cb := by
  obtain ⟨t, found, rfl⟩ := Option.map_eq_some_iff.mp due
  have passes := List.find?_some found
  simp only [Bool.and_eq_true, beq_iff_eq] at passes
  exact ⟨t, List.mem_of_find?_eq_some found, passes.1.1, rfl, passes.1.2⟩

/-- Two timers with one callback have two numbers. -/
theorem evArmed_le_one [DecidableEq τ] (wf : TimersWf l) (cb : τ)
    (one : ∀ id id', evLive l id cb → evLive l id' cb → id = id') : evArmed l cb ≤ 1 := by
  have kept : ∀ t ∈ l.timers.filter (fun t => t.active && t.cb == cb), evLive l t.id cb := by
    intro t member
    simp only [List.mem_filter, Bool.and_eq_true, beq_iff_eq] at member
    exact ⟨t, member.1, rfl, member.2.2, member.2.1⟩
  have distinct : ((l.timers.filter fun t => t.active && t.cb == cb).map EvTimer.id).Nodup :=
    wf.distinct.sublist (List.filter_sublist.map EvTimer.id)
  unfold evArmed
  revert kept distinct
  generalize l.timers.filter (fun t => t.active && t.cb == cb) = timers
  intro kept distinct
  match timers with
  | [] => simp
  | [_] => simp
  | t :: t' :: rest =>
    have same := one t.id t'.id (kept t (by simp)) (kept t' (by simp))
    simp [same] at distinct

theorem evArmed_pos [DecidableEq τ] {cb : τ} : 0 < evArmed l cb ↔ ∃ id, evLive l id cb := by
  rw [evArmed, List.length_pos_iff_exists_mem]
  constructor
  · rintro ⟨t, member⟩
    simp only [List.mem_filter, Bool.and_eq_true, beq_iff_eq] at member
    exact ⟨t.id, t, member.1, rfl, member.2.2, member.2.1⟩
  · rintro ⟨id, t, member, -, same, active⟩
    exact ⟨t, by simp [member, same, active]⟩

theorem TimersWf.timerAt (wf : TimersWf l) (due : Rat) (cb : τ) : TimersWf (evTimerAt due cb l) := by
  refine ⟨List.nodup_cons.mpr ⟨?_, wf.distinct⟩, fun t member => ?_⟩
  · intro taken
    obtain ⟨t, member, same⟩ := List.mem_map.mp taken
    exact absurd (wf.below t member) (by simp [same])
  · rcases List.mem_cons.mp member with rfl | old
    · exact Nat.lt_succ_self _
    · exact Nat.lt_succ_of_lt (wf.below t old)

theorem TimersWf.timerCancel (wf : TimersWf l) (handle : Option Nat) : TimersWf (evTimerCancel handle l) := by
  cases handle with
  | none => exact wf
  | some id =>
    have numbers : ∀ t : EvTimer τ, (evDeactivate id t).id = t.id := by
      intro t
      unfold evDeactivate
      split <;> rfl
    refine ⟨?_, fun t member => ?_⟩
    · simpa [evTimerCancel, Function.comp_def, numbers] using wf.distinct
    · obtain ⟨t, old, rfl⟩ := List.mem_map.mp member
      rw [numbers]
      exact wf.below t old

end Timers

end Cc2obp
