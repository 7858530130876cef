import Mathlib.Data.List.Basic

/-!
# Runs of a machine with outputs

A machine answers every event with a new state and a list of outputs. A run
threads the state and concatenates the outputs. Invariants relate the state to
everything that was put out so far; a view of the state that only some events
touch evolves as in the run of those events alone.
-/
namespace Machine

variable {σ ε ω ν ο : Type*}

/-- The final state and all outputs of a list of events. -/
def run (step : σ → ε → σ × List ω) : σ → List ε → σ × List ω
  | s, [] => (s, [])
  | s, e :: es =>
    let next := step s e
    let rest := run step next.1 es
    (rest.1, next.2 ++ rest.2)

/-- Every event of the run meets a condition on the state it arrives in. -/
def Meets (step : σ → ε → σ × List ω) (ok : σ → ε → Prop) : σ → List ε → Prop
  | _, [] => True
  | s, e :: es => ok s e ∧ Meets step ok (step s e).1 es

variable (step : σ → ε → σ × List ω)

@[simp] theorem run_nil (s : σ) : run step s [] = (s, []) := rfl

@[simp] theorem run_cons (s : σ) (e : ε) (es : List ε) :
    run step s (e :: es) =
      ((run step (step s e).1 es).1, (step s e).2 ++ (run step (step s e).1 es).2) := rfl

theorem run_append (s : σ) (es fs : List ε) :
    run step s (es ++ fs) =
      ((run step (run step s es).1 fs).1, (run step s es).2 ++ (run step (run step s es).1 fs).2) := by
  induction es generalizing s with
  | nil => simp
  | cons e es ih => simp [ih]

/-- A run whose first and last events are known. -/
theorem run_around {step : σ → ε → σ × List ω} {s : σ} {e e' : ε} {es : List ε} {x y z : σ × List ω}
    (first : step s e = x) (middle : run step x.1 es = y) (last : step y.1 e' = z) :
    run step s (e :: es ++ [e']) = (z.1, x.2 ++ (y.2 ++ z.2)) := by
  rw [List.cons_append, run_cons, first, run_append, middle, run_cons, last, run_nil, List.append_nil]

theorem meets_append (ok : σ → ε → Prop) (s : σ) (es fs : List ε) :
    Meets step ok s (es ++ fs) ↔ Meets step ok s es ∧ Meets step ok (run step s es).1 fs := by
  induction es generalizing s with
  | nil => simp [Meets]
  | cons e es ih => simp [Meets, ih, and_assoc]

theorem meets_of_forall (ok : σ → ε → Prop) (s : σ) (es : List ε) (all : ∀ s, ∀ e ∈ es, ok s e) :
    Meets step ok s es := by
  induction es generalizing s with
  | nil => trivial
  | cons e es ih =>
    exact ⟨all s e (by simp), ih _ fun s' e' member => all s' e' (by simp [member])⟩

/-- What every admitted step preserves, of the state and the outputs so far, a run preserves. -/
theorem run_invariant {ok : σ → ε → Prop} (inv : σ → List ω → Prop)
    (preserved : ∀ s trace e, inv s trace → ok s e → inv (step s e).1 (trace ++ (step s e).2))
    (s : σ) (trace : List ω) (es : List ε) (met : Meets step ok s es) (start : inv s trace) :
    inv (run step s es).1 (trace ++ (run step s es).2) := by
  induction es generalizing s trace with
  | nil => simpa using start
  | cons e es ih =>
    obtain ⟨here, rest⟩ := met
    have next := ih (step s e).1 (trace ++ (step s e).2) rest (preserved s trace e start here)
    simpa [List.append_assoc] using next

/-- The same for an invariant of the state alone. -/
theorem run_state_invariant {ok : σ → ε → Prop} (inv : σ → Prop)
    (preserved : ∀ s e, inv s → ok s e → inv (step s e).1)
    (s : σ) (es : List ε) (met : Meets step ok s es) (start : inv s) : inv (run step s es).1 :=
  run_invariant step (fun s _ => inv s) (fun s _ e holds here => preserved s e holds here) s [] es met
    start

/-- All outputs of a run are good if and only if every step meets the condition for its own to be. -/
theorem run_outputs_iff {good : ω → Prop} {ok : σ → ε → Prop} (inv : σ → Prop) (s : σ) (es : List ε) (start : inv s)
    (preserved : ∀ s, ∀ e ∈ es, inv s → inv (step s e).1)
    (turn : ∀ s, ∀ e ∈ es, inv s → ((∀ o ∈ (step s e).2, good o) ↔ ok s e)) :
    (∀ o ∈ (run step s es).2, good o) ↔ Meets step ok s es := by
  induction es generalizing s with
  | nil => simp [Meets]
  | cons e es ih =>
    have rest := ih (step s e).1 (preserved s e (by simp) start) (fun s e member => preserved s e (by simp [member]))
      fun s e member => turn s e (by simp [member])
    simp only [run_cons, List.mem_append, or_imp, forall_and, Meets, rest, turn s e (by simp) start]

/-- All states a run passes through are good if and only if every step meets the condition for the next to be. -/
theorem run_states_iff (good : σ → Prop) {ok : σ → ε → Prop} (inv : σ → Prop)
    (preserved : ∀ s e, inv s → inv (step s e).1)
    (turn : ∀ s e, inv s → good s → (good (step s e).1 ↔ ok s e)) (s : σ) (es : List ε) (start : inv s) (first : good s) :
    (∀ early late, es = early ++ late → good (run step s early).1) ↔ Meets step ok s es := by
  induction es generalizing s with
  | nil =>
    refine iff_of_true (fun early late split => ?_) trivial
    rw [(List.append_eq_nil_iff.mp split.symm).1]
    exact first
  | cons e es ih =>
    constructor
    · intro all
      have next : good (step s e).1 := all [e] es rfl
      exact ⟨(turn s e start first).mp next, (ih _ (preserved s e start) next).mp fun early late split =>
        all (e :: early) late (by rw [split, List.cons_append])⟩
    · rintro ⟨here, met⟩ early late split
      cases early with
      | nil => exact first
      | cons e' early =>
        obtain ⟨rfl, rest⟩ := List.cons_eq_cons.mp split
        have next := (turn s e start first).mpr here
        exact (ih _ (preserved s e start) next).mpr met early late rest

/-! ## Events passed over -/

/-- Marked events of a list are insertions; what is left of the others. -/
def kept (marked : List (Bool × ε)) : List ε := (marked.filter fun m => !m.1).map Prod.snd

@[simp] theorem kept_cons (m : Bool × ε) (marked : List (Bool × ε)) :
    kept (m :: marked) = if m.1 then kept marked else m.2 :: kept marked := by
  cases inserted : m.1 <;> simp [kept, inserted]

/-- Every marked event is one that `passes` admits in the state it arrives in. -/
def Inserts (step : σ → ε → σ × List ω) (passes : σ → ε → Prop) : σ → List (Bool × ε) → Prop :=
  Meets (fun s m => step s m.2) fun s m => m.1 = true → passes s m.2

/-- A normal form of the state that no step looks behind. -/
theorem run_normal {step : σ → ε → σ × List ω} {normal : σ → σ} (idem : ∀ s, normal (normal s) = normal s)
    (blind : ∀ s e, step (normal s) e = step s e) (s : σ) (es : List ε) :
    normal (run step (normal s) es).1 = normal (run step s es).1 ∧ (run step (normal s) es).2 = (run step s es).2 := by
  cases es with
  | nil => simp [idem]
  | cons e es => simp [blind]

/-- Insertions the machine passes over change neither the state it ends in nor what it puts out. -/
theorem run_inserts {step : σ → ε → σ × List ω} {passes : σ → ε → Prop} {normal : σ → σ}
    (idem : ∀ s, normal (normal s) = normal s) (blind : ∀ s e, step (normal s) e = step s e)
    (passed : ∀ s e, passes s e → step s e = (normal s, [])) (s : σ) (marked : List (Bool × ε))
    (inserts : Inserts step passes s marked) :
    normal (run step s (marked.map Prod.snd)).1 = normal (run step s (kept marked)).1 ∧
      (run step s (marked.map Prod.snd)).2 = (run step s (kept marked)).2 := by
  induction marked generalizing s with
  | nil => exact ⟨rfl, rfl⟩
  | cons m marked ih =>
    obtain ⟨here, rest⟩ := inserts
    obtain ⟨states, outs⟩ := ih (step s m.2).1 rest
    cases inserted : m.1
    · simp [inserted, states, outs]
    · have skip := passed s m.2 (here inserted)
      rw [skip] at states outs
      obtain ⟨states', outs'⟩ := run_normal idem blind s (kept marked)
      simp [inserted, skip, states, outs, states', outs']

/-! ## Views -/

/-- A view of the state and of the outputs that only the events of `mine` touch, and that they
touch in a way depending on the view alone. -/
structure IsView (view : σ → ν) (obs : ω → Option ο) (mine : ε → Prop) : Prop where
  /-- Other events leave the view alone and put out nothing of it. -/
  other : ∀ s e, ¬mine e → view (step s e).1 = view s ∧ (step s e).2.filterMap obs = []
  /-- Two states with the same view answer one event alike. -/
  same : ∀ s t e, view s = view t → view (step s e).1 = view (step t e).1 ∧
    (step s e).2.filterMap obs = (step t e).2.filterMap obs

/-- What a view sees of a run is what it sees of the run of its own events. -/
theorem IsView.run_filter {step : σ → ε → σ × List ω} {view : σ → ν} {obs : ω → Option ο}
    {mine : ε → Prop} [DecidablePred mine] (isView : IsView step view obs mine)
    (s t : σ) (agree : view s = view t) (es : List ε) :
    view (run step s es).1 = view (run step t (es.filter mine)).1 ∧
      (run step s es).2.filterMap obs = (run step t (es.filter mine)).2.filterMap obs := by
  induction es generalizing s t with
  | nil => simpa using agree
  | cons e es ih =>
    by_cases own : mine e
    · obtain ⟨views, outs⟩ := isView.same s t e agree
      obtain ⟨views', outs'⟩ := ih (step s e).1 (step t e).1 views
      simp [own, views', outs, outs']
    · obtain ⟨views, outs⟩ := isView.other s e own
      obtain ⟨views', outs'⟩ := ih (step s e).1 t (views.trans agree)
      simp [own, views', outs, outs']

end Machine

/-- Turns in a row: what holds with a list of turns still to come holds after the last one with none. -/
theorem List.foldl_turns {α β : Type*} (f : β → α → β) (inv : List α → β → Prop)
    (turn : ∀ a rest b, inv (a :: rest) b → inv rest (f b a)) (l : List α) (b : β) (start : inv l b) :
    inv [] (l.foldl f b) := by
  induction l generalizing b with
  | nil => exact start
  | cons a rest ih => exact ih (f b a) (turn a rest b start)

/-- Turns in a row of which only one concerns a view: the view is what that one turn makes of it. -/
theorem List.foldl_own {α β ν : Type*} (f : β → α → β) (view : β → ν) (inv : β → Prop) (a : α)
    (kept : ∀ b a', inv b → inv (f b a')) (other : ∀ b a', inv b → a' ≠ a → view (f b a') = view b)
    (l : List α) (distinct : l.Nodup) (member : a ∈ l) (b : β) (start : inv b) :
    ∃ b', inv b' ∧ view b' = view b ∧ view (l.foldl f b) = view (f b' a) := by
  have past : ∀ (l : List α) (b : β), inv b → a ∉ l → view (l.foldl f b) = view b := by
    intro l
    induction l with
    | nil => exact fun b _ _ => rfl
    | cons first rest ih =>
      intro b here absent
      rw [List.foldl_cons, ih _ (kept b first here) fun later => absent (by simp [later])]
      exact other b first here fun same => absent (by simp [same])
  induction l generalizing b with
  | nil => cases member
  | cons first rest ih =>
    obtain ⟨absent, distinct⟩ := List.nodup_cons.mp distinct
    by_cases here : first = a
    · subst here
      exact ⟨b, start, rfl, past rest _ (kept b first start) absent⟩
    · have later : a ∈ rest := by simpa [Ne.symm here] using member
      obtain ⟨b', holds, same, last⟩ := ih distinct later (f b first) (kept b first start)
      exact ⟨b', holds, same.trans (other b first start here), last⟩
