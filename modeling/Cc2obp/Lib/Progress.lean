import Cc2obp.Lib.Run

/-!
# Progress by a rank

A machine gets to a goal if some of its events lower a rank as long as it is not there
and no other event raises it, once as many of them have come.
-/
namespace Machine

variable {σ ε ω : Type*} (step : σ → ε → σ × List ω)

instance decidableMeets (ok : σ → ε → Prop) [here : ∀ s e, Decidable (ok s e)] (s : σ) (es : List ε) :
    Decidable (Meets step ok s es) :=
  match es with
  | [] => isTrue trivial
  | e :: es => @instDecidableAnd _ _ (here s e) (decidableMeets ok (step s e).1 es)

/-- A run that meets a condition meets every weaker one. -/
theorem meets_mono {ok ok' : σ → ε → Prop} (weaker : ∀ s e, ok s e → ok' s e) {s : σ} (es : List ε) (met : Meets step ok s es) :
    Meets step ok' s es := by
  induction es generalizing s with
  | nil => trivial
  | cons e es ih => exact ⟨weaker s e met.1, ih met.2⟩

theorem run_reaches {ok : σ → ε → Prop} (inv goal : σ → Prop) (rank : σ → Nat) (lowers : ε → Bool)
    (preserved : ∀ s e, inv s → ok s e → inv (step s e).1) (bottom : ∀ s, inv s → rank s = 0 → goal s)
    (turn : ∀ s e, inv s → ok s e → rank s ≠ 0 →
      if lowers e then rank (step s e).1 < rank s else rank (step s e).1 ≤ rank s)
    (s : σ) (es : List ε) (met : Meets step ok s es) (start : inv s) (enough : rank s ≤ es.countP lowers) :
    ∃ early late, es = early ++ late ∧ goal (run step s early).1 := by
  by_cases there : rank s = 0
  · exact ⟨[], es, rfl, bottom s start there⟩
  induction es generalizing s with
  | nil => exact absurd (Nat.le_zero.mp enough) there
  | cons e es ih =>
    have next := turn s e start met.1 there
    have ahead := preserved s e start met.1
    -- each event that counts has paid for one step of the rank
    have paid : rank (step s e).1 ≤ es.countP lowers := by
      rw [List.countP_cons] at enough
      split at next <;> simp_all <;> omega
    by_cases arrived : rank (step s e).1 = 0
    · exact ⟨[e], es, rfl, bottom _ ahead arrived⟩
    · obtain ⟨early, late, split, reached⟩ := ih (step s e).1 met.2 ahead paid arrived
      exact ⟨e :: early, late, by rw [split, List.cons_append], reached⟩

end Machine
