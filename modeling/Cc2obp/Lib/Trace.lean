import Mathlib.Data.List.Basic

/-!
# Traces of a relation with outputs

A relation says which moves a state allows, what each puts out and where it
leads. A trace is a chain of moves with their outputs in a row. Invariants relate
the state to everything that was put out so far.
-/

variable {σ ω : Type*}

inductive Trace (move : σ → List ω → σ → Prop) : σ → List ω → σ → Prop
  | nil (s : σ) : Trace move s [] s
  | cons {s s₁ s₂ : σ} {out out' : List ω} (first : move s out s₁) (rest : Trace move s₁ out' s₂) :
      Trace move s (out ++ out') s₂

namespace Trace

variable {move : σ → List ω → σ → Prop} {s s₁ s₂ : σ} {out out' : List ω}

theorem single (only : move s out s₁) : Trace move s out s₁ := by
  have one := Trace.cons only (.nil s₁)
  rwa [List.append_nil] at one

theorem trans (first : Trace move s out s₁) (second : Trace move s₁ out' s₂) :
    Trace move s (out ++ out') s₂ := by
  induction first with
  | nil => exact second
  | cons step rest ih =>
    rw [List.append_assoc]
    exact .cons step (ih second)

/-- What every move preserves, of the state and the outputs so far, a trace preserves. -/
theorem invariant (inv : σ → List ω → Prop)
    (preserved : ∀ s before out s₁, inv s before → move s out s₁ → inv s₁ (before ++ out))
    (trace : Trace move s out s₁) (before : List ω) (start : inv s before) : inv s₁ (before ++ out) := by
  induction trace generalizing before with
  | nil => simpa using start
  | cons step rest ih =>
    rw [← List.append_assoc]
    exact ih _ (preserved _ before _ _ start step)

/-- A trace of one relation is one of another if the moves are. -/
theorem mono {move' : σ → List ω → σ → Prop} (weaker : ∀ s out s₁, move s out s₁ → move' s out s₁)
    (trace : Trace move s out s₁) : Trace move' s out s₁ := by
  induction trace with
  | nil s => exact .nil s
  | cons step rest ih => exact .cons (weaker _ _ _ step) ih

end Trace
