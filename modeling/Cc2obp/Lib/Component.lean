import Mathlib.Data.List.Basic

/-!
# A component under operations

A function on a state performs operations on one component of it if it does to
the component, whatever that holds, what the operations do, and nothing else
depends on it. Two states that differ in the component only then stay so, and
what the operations keep of a pair of components the function keeps.
-/

/-- Where a component is in a state. -/
structure Component (σ β : Type*) where
  get : σ → β
  put : σ → β → σ
  put_get : ∀ s, put s (get s) = s
  get_put : ∀ s b, get (put s b) = b
  put_put : ∀ s b b', put (put s b) b' = put s b'

namespace Component

variable {σ α β ω : Type*} (C : Component σ β) (apply : β → ω → β)

/-- A function does to the component what the operations do, and all else regardless of it. -/
def Performs (f : σ → σ) (s : σ) (ops : List ω) : Prop := ∀ b, f (C.put s b) = C.put (f s) (ops.foldl apply b)

/-- It performs operations that meet a condition. -/
def Does (ok : ω → Prop) (f : σ → σ) (s : σ) : Prop := ∃ ops, C.Performs apply f s ops ∧ ∀ op ∈ ops, ok op

variable {C apply} {f g : σ → σ} {s : σ} {ops : List ω} {ok : ω → Prop}

theorem Performs.get (performs : C.Performs apply f s ops) : C.get (f s) = ops.foldl apply (C.get s) := by
  have here := congrArg C.get (performs (C.get s))
  rwa [C.put_get, C.get_put] at here

theorem Does.comp (first : C.Does apply ok f s) (rest : C.Does apply ok g (f s)) : C.Does apply ok (fun s => g (f s)) s := by
  obtain ⟨ops, performs, meets⟩ := first
  obtain ⟨ops', performs', meets'⟩ := rest
  refine ⟨ops ++ ops', fun b => ?_, fun op member => ?_⟩
  · simp only [performs b, performs' _, List.foldl_append]
  · rcases List.mem_append.mp member with early | late
    · exact meets op early
    · exact meets' op late

/-- A function that does not look at the component performs nothing. -/
theorem Does.blind (blind : ∀ b, f (C.put s b) = C.put (f s) b) : C.Does apply ok f s := ⟨[], blind, by simp⟩

/-- One operation. -/
theorem Does.one (op : ω) (meets : ok op) (performs : ∀ b, f (C.put s b) = C.put (f s) (apply b op)) :
    C.Does apply ok f s :=
  ⟨[op], performs, List.forall_mem_singleton.mpr meets⟩

/-- Functions that do the same whatever the component is. -/
theorem Does.congr (does : C.Does apply ok g s) (same : ∀ b, f (C.put s b) = g (C.put s b)) : C.Does apply ok f s := by
  obtain ⟨ops, performs, meets⟩ := does
  have here := same (C.get s)
  rw [C.put_get] at here
  refine ⟨ops, fun b => ?_, meets⟩
  rw [same, here]
  exact performs b

/-- A choice that does not depend on the component. -/
theorem Does.ite {p : σ → Prop} [DecidablePred p] (blind : ∀ b, p (C.put s b) ↔ p s) (yes : p s → C.Does apply ok f s)
    (no : ¬p s → C.Does apply ok g s) : C.Does apply ok (fun s => if p s then f s else g s) s := by
  by_cases here : p s
  · exact (yes here).congr fun b => if_pos ((blind b).mpr here)
  · exact (no here).congr fun b => if_neg (mt (blind b).mp here)

/-- A turn of each element, with a condition that the turns preserve. -/
theorem Does.foldl (turn : σ → α → σ) (inv : σ → Prop)
    (step : ∀ s a, inv s → inv (turn s a) ∧ C.Does apply ok (fun s => turn s a) s) (l : List α) (s : σ) (start : inv s) :
    C.Does apply ok (fun s => l.foldl turn s) s := by
  induction l generalizing s with
  | nil => exact .blind fun _ => rfl
  | cons a l ih =>
    obtain ⟨next, does⟩ := step s a start
    exact does.comp (ih _ next)

/-- What the operations keep of two components is kept of two states that differ in it only. -/
theorem Does.related (does : C.Does apply ok f s) {R : β → β → Prop}
    (kept : ∀ b b' op, ok op → R b b' → R (apply b op) (apply b' op)) {b : β} (related : R (C.get s) b) :
    ∃ b', f (C.put s b) = C.put (f s) b' ∧ R (C.get (f s)) b' := by
  obtain ⟨ops, performs, meets⟩ := does
  refine ⟨ops.foldl apply b, performs b, ?_⟩
  rw [performs.get]
  generalize C.get s = a at related
  clear performs
  induction ops generalizing a b with
  | nil => exact related
  | cons op ops ih =>
    exact ih (fun op' member => meets op' (List.mem_cons_of_mem op member)) _ (kept _ _ _ (meets op List.mem_cons_self) related)

/-- What the operations keep of a component the function keeps. -/
theorem Does.keeps (does : C.Does apply ok f s) (inv : β → Prop) (kept : ∀ b op, ok op → inv b → inv (apply b op))
    (start : inv (C.get s)) : inv (C.get (f s)) := by
  obtain ⟨ops, performs, meets⟩ := does
  rw [performs.get]
  generalize C.get s = b at start
  clear performs
  induction ops generalizing b with
  | nil => exact start
  | cons op ops ih =>
    exact ih (fun op' member => meets op' (List.mem_cons_of_mem op member)) _ (kept _ _ (meets op List.mem_cons_self) start)

end Component
