import Cc2obp.Eventloop.Timers

/-!
# Timers that can no longer fire

Nothing the loop or a callback does depends on the inactive timers that wait to be
reaped: lists with the same active timers have the same ones after every operation,
the same one is due under a handle, and the same one fires next.
-/
namespace Cc2obp

variable {τ : Type}

/-- What a callback does to the list of timers; a new timer gets the number it was given. -/
inductive TimerOp (τ : Type) where
  | arm (id : Nat) (due : Rat) (cb : τ)
  | cancel (handle : Option Nat)

def TimerOp.apply (timers : List (EvTimer τ)) : TimerOp τ → List (EvTimer τ)
  | .arm id due cb => ⟨id, due, cb, true⟩ :: timers
  | .cancel (some id) => timers.map (evDeactivate id)
  | .cancel none => timers

/-- Whatever it arms is due after the delay of its callback. -/
def TimerOp.After (delay : τ → Rat) (now : Rat) : TimerOp τ → Prop
  | .arm _ due cb => due = now + delay cb ∧ 0 < delay cb
  | .cancel _ => True

/-- The same timers can still fire, in the same order. -/
def Alike (a b : List (EvTimer τ)) : Prop := a.filter EvTimer.active = b.filter EvTimer.active

section Alike
variable {a b : List (EvTimer τ)}

theorem alike_refl (a : List (EvTimer τ)) : Alike a a := rfl

theorem alike_reap (a : List (EvTimer τ)) : Alike a (a.filter EvTimer.active) := by
  simp [Alike, List.filter_filter]

theorem filter_deactivate (id : Nat) (a : List (EvTimer τ)) :
    (a.map (evDeactivate id)).filter EvTimer.active = (a.filter EvTimer.active).filter fun t => t.id != id := by
  induction a with
  | nil => rfl
  | cons t a ih =>
    rw [List.map_cons, List.filter_cons, List.filter_cons, ih]
    by_cases here : t.id = id
    · cases active : t.active <;> simp [evDeactivate, here]
    · cases active : t.active <;> simp [evDeactivate, here, active]

theorem Alike.apply (alike : Alike a b) (op : TimerOp τ) : Alike (op.apply a) (op.apply b) := by
  cases op with
  | arm id due cb => simpa [Alike, TimerOp.apply] using alike
  | cancel handle =>
    cases handle with
    | none => exact alike
    | some id =>
      rw [Alike] at alike
      simp only [Alike, TimerOp.apply, filter_deactivate, alike]

/-- What is armed later adds nothing to what is due. -/
theorem TimerOp.due_length_le {op : TimerOp τ} {delay : τ → Rat} {now now' : Rat} (after : op.After delay now') (passed : now ≤ now')
    (a : List (EvTimer τ)) :
    ((op.apply a).filter fun t => t.active && decide (t.due ≤ now)).length ≤
      (a.filter fun t => t.active && decide (t.due ≤ now)).length := by
  cases op with
  | arm id due cb =>
    obtain ⟨rfl, positive⟩ := after
    have early : ¬now' + delay cb ≤ now := not_le.mpr (passed.trans_lt (lt_add_of_pos_right now' positive))
    simp [TimerOp.apply, early]
  | cancel handle =>
    cases handle with
    | none => exact le_refl _
    | some id =>
      simp only [TimerOp.apply, ← List.countP_eq_length_filter, List.countP_map]
      refine List.countP_mono_left fun t _ due => ?_
      simp only [Function.comp_apply, evDeactivate] at due
      split at due
      · simp at due
      · exact due

/-- What holds of the active timers, and of whatever is armed, goes on to hold of the active ones. -/
theorem TimerOp.keeps_active {op : TimerOp τ} {delay : τ → Rat} {now : Rat} (after : op.After delay now) {good : EvTimer τ → Prop}
    (armed : ∀ id cb, 0 < delay cb → good ⟨id, now + delay cb, cb, true⟩) {a : List (EvTimer τ)}
    (kept : ∀ t ∈ a, t.active = true → good t) : ∀ t ∈ op.apply a, t.active = true → good t := by
  cases op with
  | arm id due cb =>
    obtain ⟨rfl, positive⟩ := after
    intro t member active
    rcases List.mem_cons.mp member with rfl | old
    · exact armed id cb positive
    · exact kept t old active
  | cancel handle =>
    cases handle with
    | none => exact kept
    | some id =>
      intro t member active
      obtain ⟨t', old, rfl⟩ := List.mem_map.mp member
      unfold evDeactivate at active ⊢
      split at active
      · cases active
      next other =>
        rw [if_neg other]
        exact kept t' old active

theorem Alike.active (alike : Alike a b) {good : EvTimer τ → Prop} (kept : ∀ t ∈ a, t.active = true → good t) :
    ∀ t ∈ b, t.active = true → good t := by
  intro t member active
  have here : t ∈ b.filter EvTimer.active := List.mem_filter.mpr ⟨member, active⟩
  rw [← alike] at here
  exact kept t (List.mem_of_mem_filter here) active

end Alike

/-! ## What the loop reads -/

section Loops
variable {κ : Type} {l l' : EvLoop κ τ}

theorem due_alike (alike : Alike l.timers l'.timers) (now : Rat) : l.due now = l'.due now := by
  have split : ∀ timers : List (EvTimer τ), timers.filter (fun t => t.active && decide (t.due ≤ now)) =
      (timers.filter EvTimer.active).filter fun t => decide (t.due ≤ now) := by
    intro timers
    rw [List.filter_filter]
    exact List.filter_congr fun t _ => Bool.and_comm _ _
  simp only [EvLoop.due]
  rw [split, split, alike]

theorem evSoonest_alike (alike : Alike l.timers l'.timers) (now : Rat) : evSoonest now l = evSoonest now l' := by
  rw [evSoonest_eq, evSoonest_eq, due_alike alike]

theorem evDue_alike (alike : Alike l.timers l'.timers) (id : Nat) (now : Rat) : evDue id now l = evDue id now l' := by
  have split : ∀ timers : List (EvTimer τ), timers.find? (fun t => t.id == id && t.active && decide (t.due ≤ now)) =
      (timers.filter EvTimer.active).find? fun t => t.id == id && decide (t.due ≤ now) := by
    intro timers
    rw [List.find?_filter]
    congr 1
    funext t
    cases t.active <;> simp only [Bool.and_true, Bool.and_false, Bool.false_and, Bool.false_eq_true, false_and, true_and,
      decide_false, Bool.decide_eq_true]
  simp only [evDue]
  rw [split, split, alike]

/-- The timer that is taken from the list is the one its number leads to. -/
theorem evDue_of_mem (wf : TimersWf l) {now : Rat} {t : EvTimer τ} (member : t ∈ l.due now) :
    evDue t.id now l = some t.cb := by
  obtain ⟨inside, active, due⟩ := mem_due.mp member
  have found : (l.timers.find? fun u => u.id == t.id && u.active && decide (u.due ≤ now)) = some t := by
    obtain ⟨u, first⟩ : ∃ u, (l.timers.find? fun u => u.id == t.id && u.active && decide (u.due ≤ now)) = some u := by
      rw [← Option.isSome_iff_exists, List.find?_isSome]
      exact ⟨t, inside, by simp [active, due]⟩
    have passes := List.find?_some first
    simp only [Bool.and_eq_true, beq_iff_eq] at passes
    rw [first, List.inj_on_of_nodup_map wf.distinct (List.mem_of_find?_eq_some first) inside passes.1.1]
  rw [evDue, found]
  rfl

end Loops

end Cc2obp
