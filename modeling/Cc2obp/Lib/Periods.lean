import Mathlib.Data.List.Induction

/-!
# Periods of a log

Some items of a log mark that a period begins, some that none is under way. A
period is what comes between such a beginning and the next mark of either kind;
the last period may still be running. Periods are followed item by item as the
log grows.
-/

variable {ω : Type*} {mark : ω → Option Bool} {log mid : List ω} {x : ω}

/-- The items since the last mark, which was a beginning. -/
def CurrentPeriod (mark : ω → Option Bool) (log mid : List ω) : Prop :=
  ∃ pre o, log = pre ++ o :: mid ∧ mark o = some true ∧ ∀ y ∈ mid, mark y = none

/-- The items between a beginning and the next mark. -/
def ClosedPeriod (mark : ω → Option Bool) (log mid : List ω) : Prop :=
  ∃ pre o y post, log = pre ++ o :: (mid ++ y :: post) ∧ mark o = some true ∧ (∀ y ∈ mid, mark y = none) ∧
    mark y ≠ none

/-- The last item is the beginning or the last of what comes after it. -/
theorem last_of_split {pre : List ω} {o : ω} (split : log ++ [x] = pre ++ o :: mid) :
    mid = [] ∧ x = o ∧ log = pre ∨ ∃ mid', mid = mid' ++ [x] ∧ log = pre ++ o :: mid' := by
  rcases List.eq_nil_or_concat mid with rfl | ⟨mid', y, rfl⟩
  · obtain ⟨front, last⟩ := List.append_inj' split rfl
    exact .inl ⟨rfl, by simpa using last, front⟩
  · rw [List.concat_eq_append, ← List.cons_append, ← List.append_assoc] at split
    obtain ⟨front, last⟩ := List.append_inj' split rfl
    simp only [List.cons.injEq, and_true] at last
    exact .inr ⟨mid', by simp [last], front⟩

namespace CurrentPeriod

/-- An item that marks nothing belongs to the period. -/
theorem of_concat (current : CurrentPeriod mark (log ++ [x]) mid) (quiet : mark x = none) :
    ∃ mid', mid = mid' ++ [x] ∧ CurrentPeriod mark log mid' := by
  obtain ⟨pre, o, split, begins, inside⟩ := current
  rcases last_of_split split with ⟨-, rfl, -⟩ | ⟨mid', rfl, earlier⟩
  · rw [quiet] at begins
    cases begins
  · exact ⟨mid', rfl, pre, o, earlier, begins, fun y member => inside y (by simp [member])⟩

/-- Behind a mark there is nothing yet, and behind one that ends a period there is no period. -/
theorem of_mark (current : CurrentPeriod mark (log ++ [x]) mid) (marks : mark x ≠ none) :
    mid = [] ∧ mark x = some true := by
  obtain ⟨pre, o, split, begins, inside⟩ := current
  rcases last_of_split split with ⟨empty, rfl, -⟩ | ⟨mid', rfl, -⟩
  · exact ⟨empty, begins⟩
  · exact absurd (inside x (by simp)) marks

theorem of_append {out : List ω} (current : CurrentPeriod mark (log ++ out) mid) (quiet : ∀ y ∈ out, mark y = none) :
    ∃ mid', mid = mid' ++ out ∧ CurrentPeriod mark log mid' := by
  induction out using List.reverseRecOn generalizing mid with
  | nil => exact ⟨mid, by simp, by simpa using current⟩
  | append_singleton out y ih =>
    rw [← List.append_assoc] at current
    obtain ⟨mid', rfl, earlier⟩ := current.of_concat (quiet y (by simp))
    obtain ⟨mid'', rfl, first⟩ := ih earlier fun z member => quiet z (by simp [member])
    exact ⟨mid'', by simp, first⟩

end CurrentPeriod

namespace ClosedPeriod

/-- A mark closes the period under way; the others are closed before. -/
theorem of_concat (closed : ClosedPeriod mark (log ++ [x]) mid) :
    ClosedPeriod mark log mid ∨ CurrentPeriod mark log mid ∧ mark x ≠ none := by
  obtain ⟨pre, o, y, post, split, begins, inside, marks⟩ := closed
  rw [← List.cons_append, ← List.append_assoc] at split
  rcases last_of_split split with ⟨-, rfl, earlier⟩ | ⟨post', rfl, earlier⟩
  · exact .inr ⟨⟨pre, o, earlier, begins, inside⟩, marks⟩
  · exact .inl ⟨pre, o, y, post', by simp [earlier], begins, inside, marks⟩

theorem of_append {out : List ω} (closed : ClosedPeriod mark (log ++ out) mid) (quiet : ∀ y ∈ out, mark y = none) :
    ClosedPeriod mark log mid := by
  induction out using List.reverseRecOn with
  | nil => simpa using closed
  | append_singleton out y ih =>
    rw [← List.append_assoc] at closed
    rcases closed.of_concat with earlier | ⟨-, marks⟩
    · exact ih earlier fun z member => quiet z (by simp [member])
    · exact absurd (quiet y (by simp)) marks

end ClosedPeriod
