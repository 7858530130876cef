import Cc2obp.Lib.Run
import Mathlib.Data.List.Count
import Mathlib.Algebra.Order.Field.Rat

/-!
# A channel that streams take turns on

Streams announce themselves, keep the channel with their items and release it;
another stream's announcement takes it over, silence frees it. A delivery may
repeat and reorder what the streams sent, so the question is when a stream gets
the channel twice.
-/
namespace Channel

variable {α : Type*} [DecidableEq α]

/-- What arrives; announcements, items and releases belong to a stream. -/
inductive Input (α : Type*) where
  | announce (x : α)
  | item (x : α)
  | release (x : α)
  | check

/-- Who has the channel, active since when: no one, a foreign user, a stream. -/
inductive Holder (α : Type*) where
  | free
  | foreign (last : Rat)
  | stream (x : α) (last : Rat)

inductive Notice (α : Type*) where
  | opened (x : α)
  | closed (x : α)
deriving DecidableEq

/-- An arrival answered by notices; silence longer than `limit` frees the channel at a check. -/
def step (limit : Rat) (h : Holder α) (e : Rat × Input α) : Holder α × List (Notice α) :=
  match h, e.2 with
  | .free, .announce x => (.stream x e.1, [.opened x])
  | .stream y last, .announce x =>
    if x = y then (.stream y last, []) else (.stream x e.1, [.closed y, .opened x])
  | .stream y last, .item x => (.stream y (if x = y then e.1 else last), [])
  | .stream y last, .release x => if x = y then (.free, [.closed y]) else (.stream y last, [])
  | .stream y last, .check =>
    if e.1 - last > limit then (.free, [.closed y]) else (.stream y last, [])
  | .foreign last, .check => if e.1 - last > limit then (.free, []) else (.foreign last, [])
  | h, _ => (h, [])

def Announces (x : α) (e : Rat × Input α) : Prop := e.2 = .announce x

/-- A stream active at `last` is undisturbed by the arrivals: its release is not among them, nor
another stream's announcement, nor a check more than `limit` after its latest item. -/
def Undisturbed (limit : Rat) (x : α) : Rat → List (Rat × Input α) → Prop
  | _, [] => True
  | last, (t, .item y) :: es => Undisturbed limit x (if y = x then t else last) es
  | last, (_, .announce y) :: es => y = x ∧ Undisturbed limit x last es
  | last, (_, .release y) :: es => y ≠ x ∧ Undisturbed limit x last es
  | last, (t, .check) :: es => t - last ≤ limit ∧ Undisturbed limit x last es

/-- Every repeated announcement of a stream finds it undisturbed since its first one. -/
def RepeatsUndisturbed (limit : Rat) (es : List (Rat × Input α)) : Prop :=
  ∀ (x : α) (before between after : List (Rat × Input α)) (t t' : Rat),
    es = before ++ (t, .announce x) :: (between ++ (t', .announce x) :: after) →
    (∀ e ∈ before, ¬Announces x e) → Undisturbed limit x t between

/-- The arrivals from when a foreign user has given the channel up. -/
def sinceForeign (limit : Rat) (last : Rat) : List (Rat × Input α) → List (Rat × Input α)
  | [] => []
  | (t, .check) :: es => if t - last > limit then es else sinceForeign limit last es
  | _ :: es => sinceForeign limit last es

/-- The arrivals that streams can answer to. -/
def heard (limit : Rat) : Holder α → List (Rat × Input α) → List (Rat × Input α)
  | .foreign last, es => sinceForeign limit last es
  | _, es => es

/-- The stream that has the channel. -/
def Holder.has (x : α) : Holder α → Prop
  | .stream y _ => y = x
  | _ => False

def Holder.isForeign : Holder α → Prop
  | .foreign _ => True
  | _ => False

section
variable (limit : Rat)

/-- The notices of a run. -/
def notices (h : Holder α) (es : List (Rat × Input α)) : List (Notice α) :=
  (Machine.run (step limit) h es).2

@[simp] theorem notices_nil (h : Holder α) : notices limit h [] = [] := rfl

@[simp] theorem notices_cons (h : Holder α) (e : Rat × Input α) (es : List (Rat × Input α)) :
    notices limit h (e :: es) = (step limit h e).2 ++ notices limit (step limit h e).1 es := by
  simp [notices]

/-- Nothing is answered to the streams before the foreign user is gone. -/
theorem notices_foreign (last : Rat) (es : List (Rat × Input α)) :
    notices limit (.foreign last) es = notices limit .free (sinceForeign limit last es) := by
  induction es with
  | nil => rfl
  | cons e es ih =>
    obtain ⟨t, input⟩ := e
    cases input with
    | check =>
      simp only [notices_cons, step, sinceForeign]
      split <;> simp [ih]
    | _ => simpa [step, sinceForeign] using ih

theorem step_not_foreign {h : Holder α} (own : ¬h.isForeign) (e : Rat × Input α) :
    ¬(step limit h e).1.isForeign := by
  obtain ⟨t, input⟩ := e
  cases h with
  | foreign last => exact absurd trivial own
  | free => cases input <;> simp [step, Holder.isForeign]
  | stream y last =>
    cases input <;> simp only [step] <;> split <;> simp [Holder.isForeign]

/-- One arrival and a stream without the channel: only its announcement gives it the channel, with
a notice, and it is never the one that is closed. -/
theorem step_without {h : Holder α} {x : α} (own : ¬h.isForeign) (without : ¬h.has x)
    (e : Rat × Input α) :
    (Announces x e → (step limit h e).1 = .stream x e.1 ∧
      (step limit h e).2.count (.opened x) = 1 ∧ (step limit h e).2.count (.closed x) = 0) ∧
    (¬Announces x e → ¬(step limit h e).1.has x ∧
      (step limit h e).2.count (.opened x) = 0 ∧ (step limit h e).2.count (.closed x) = 0) := by
  obtain ⟨t, input⟩ := e
  cases h with
  | foreign last => exact absurd trivial own
  | free =>
    cases input <;> simp [step, Announces, Holder.has]
    grind
  | stream y last =>
    have other : ¬y = x := without
    cases input <;> simp only [step, Announces] <;> split <;> simp_all [Holder.has]

/-- One arrival and the stream that has the channel: either it keeps it in silence, or it is
disturbed and closed. -/
theorem step_with (x : α) (last : Rat) (e : Rat × Input α) :
    (Undisturbed limit x last [e] ∧ (step limit (.stream x last) e).2 = [] ∧
      ∃ last', (step limit (.stream x last) e).1 = .stream x last' ∧
        ∀ es, Undisturbed limit x last (e :: es) ↔ Undisturbed limit x last' es) ∨
    (¬Undisturbed limit x last [e] ∧ ¬Announces x e ∧ ¬(step limit (.stream x last) e).1.has x ∧
      (step limit (.stream x last) e).2.count (.closed x) = 1 ∧
      (step limit (.stream x last) e).2.count (.opened x) = 0) := by
  obtain ⟨t, input⟩ := e
  cases input with
  | item y =>
    left
    exact ⟨trivial, rfl, _, rfl, fun es => Iff.rfl⟩
  | announce y =>
    by_cases same : y = x
    · left
      simp [step, Undisturbed, same]
    · right
      simp [step, Undisturbed, Announces, Holder.has, same]
  | release y =>
    by_cases same : y = x
    · right
      simp [step, Undisturbed, Announces, Holder.has, same]
    · left
      simp [step, Undisturbed, same]
  | check =>
    by_cases late : t - last > limit
    · right
      have far : ¬t - last ≤ limit := not_le.mpr late
      exact ⟨fun undisturbed => far undisturbed.1, by simp [step, Announces, Holder.has, late]⟩
    · left
      have near : t - last ≤ limit := not_lt.mp late
      simp [step, Undisturbed, late, near]

/-! ## Runs -/

theorem notices_append (h : Holder α) (es fs : List (Rat × Input α)) :
    notices limit h (es ++ fs) =
      notices limit h es ++ notices limit (Machine.run (step limit) h es).1 fs := by
  simp [notices, Machine.run_append]

/-- While a stream does not announce itself it gets no notice. -/
theorem run_without {x : α} (es : List (Rat × Input α)) {h : Holder α} (own : ¬h.isForeign)
    (without : ¬h.has x) (none : ∀ e ∈ es, ¬Announces x e) :
    ¬(Machine.run (step limit) h es).1.isForeign ∧ ¬(Machine.run (step limit) h es).1.has x ∧
      (notices limit h es).count (.opened x) = 0 ∧ (notices limit h es).count (.closed x) = 0 := by
  induction es generalizing h with
  | nil => exact ⟨own, without, rfl, rfl⟩
  | cons e es ih =>
    obtain ⟨still, opened, closed⟩ := (step_without limit own without e).2 (none e (by simp))
    have rest := ih (step_not_foreign limit own e) still fun e' member => none e' (by simp [member])
    simpa [opened, closed] using rest

/-- An announcement of a stream without the channel opens it. -/
theorem opened_without {x : α} (es : List (Rat × Input α)) {h : Holder α} (own : ¬h.isForeign)
    (without : ¬h.has x) (announced : ∃ e ∈ es, Announces x e) :
    1 ≤ (notices limit h es).count (.opened x) := by
  induction es generalizing h with
  | nil => simp at announced
  | cons e es ih =>
    rw [notices_cons, List.count_append]
    by_cases here : Announces x e
    · have opened := ((step_without limit own without e).1 here).2.1
      omega
    · have still := ((step_without limit own without e).2 here).1
      have later : ∃ e' ∈ es, Announces x e' := by
        obtain ⟨e', member, found⟩ := announced
        rcases List.mem_cons.mp member with rfl | member
        · exact absurd found here
        · exact ⟨e', member, found⟩
      have rest := ih (step_not_foreign limit own e) still later
      omega

/-- A disturbed stream that announces itself again is opened again. -/
theorem opened_disturbed {x : α} (between : List (Rat × Input α)) (last : Rat)
    (disturbed : ¬Undisturbed limit x last between) (again : List (Rat × Input α))
    (announced : ∃ e ∈ again, Announces x e) :
    1 ≤ (notices limit (.stream x last) (between ++ again)).count (.opened x) := by
  induction between generalizing last with
  | nil => exact absurd trivial disturbed
  | cons e es ih =>
    rw [List.cons_append, notices_cons, List.count_append]
    rcases step_with limit x last e with ⟨-, silent, last', next, same⟩ | ⟨-, -, gone, -, -⟩
    · rw [silent, next]
      have rest := ih last' (fun fine => disturbed ((same es).mpr fine))
      simpa using rest
    · obtain ⟨e', member, found⟩ := announced
      have own := step_not_foreign limit (h := .stream x last) (by simp [Holder.isForeign]) e
      have rest := opened_without limit (es ++ again) own gone
        ⟨e', List.mem_append_right es member, found⟩
      omega

/-- A stream that is undisturbed at each of its announcements is closed at most once. -/
theorem closed_once {x : α} (es : List (Rat × Input α)) (last : Rat)
    (fine : ∀ (between after : List (Rat × Input α)) (t : Rat),
      es = between ++ (t, .announce x) :: after → Undisturbed limit x last between) :
    (notices limit (.stream x last) es).count (.opened x) = 0 ∧
      (notices limit (.stream x last) es).count (.closed x) ≤ 1 := by
  induction es generalizing last with
  | nil => simp
  | cons e es ih =>
    rw [notices_cons, List.count_append, List.count_append]
    rcases step_with limit x last e with ⟨-, silent, last', next, same⟩ | ⟨bad, notHere, gone, closed, opened⟩
    · rw [silent, next]
      have rest := ih last' fun between after t split =>
        (same between).mp (fine (e :: between) after t (by rw [split, List.cons_append]))
      simpa using rest
    · have own := step_not_foreign limit (h := .stream x last) (by simp [Holder.isForeign]) e
      have none : ∀ e' ∈ es, ¬Announces x e' := by
        intro e' member found
        obtain ⟨between, after, rfl⟩ := List.append_of_mem member
        obtain ⟨t, input⟩ := e'
        have whole := fine (e :: between) after t (by rw [show input = .announce x from found]; rfl)
        refine bad ?_
        obtain ⟨u, heard⟩ := e
        cases heard with
        | item y => trivial
        | announce y => exact ⟨whole.1, trivial⟩
        | release y => exact ⟨whole.1, trivial⟩
        | check => exact ⟨whole.1, trivial⟩
      obtain ⟨-, -, none_opened, none_closed⟩ := run_without limit es own gone none
      omega

omit [DecidableEq α] in
/-- The first announcement of a stream. -/
theorem first_announcement {x : α} {es : List (Rat × Input α)} (announced : ∃ e ∈ es, Announces x e) :
    ∃ before t after, es = before ++ (t, .announce x) :: after ∧ ∀ e ∈ before, ¬Announces x e := by
  induction es with
  | nil => simp at announced
  | cons e es ih =>
    by_cases here : Announces x e
    · exact ⟨[], e.1, es, by rw [← show e.2 = .announce x from here]; rfl, by simp⟩
    · have later : ∃ e' ∈ es, Announces x e' := by
        obtain ⟨e', member, found⟩ := announced
        rcases List.mem_cons.mp member with rfl | member
        · exact absurd found here
        · exact ⟨e', member, found⟩
      obtain ⟨before, t, after, rfl, first⟩ := ih later
      exact ⟨e :: before, t, after, rfl, by simpa [here] using first⟩

theorem once_iff_of_own {h : Holder α} (own : ¬h.isForeign) (es : List (Rat × Input α))
    (fresh : ∀ x, h.has x → ∀ e ∈ es, ¬Announces x e) :
    (∀ x, (notices limit h es).count (.opened x) ≤ 1 ∧
      (notices limit h es).count (.closed x) ≤ 1) ↔ RepeatsUndisturbed limit es := by
  constructor
  · rintro once x before between after t t' rfl first
    -- the first announcement opens the stream, and so does one after a disturbance
    by_contra disturbed
    have without : ¬h.has x := fun has => fresh x has (t, .announce x) (by simp) rfl
    obtain ⟨own', without', -, -⟩ := run_without limit before own without first
    obtain ⟨here, opened, -⟩ := (step_without limit own' without' (t, .announce x)).1 rfl
    have again := opened_disturbed limit between t disturbed ((t', .announce x) :: after)
      ⟨(t', .announce x), by simp, rfl⟩
    have total := (once x).1
    rw [notices_append, notices_cons, here, List.count_append, List.count_append, opened] at total
    simp only at total
    omega
  · intro repeats x
    -- a stream that is announced has its life from the first announcement on
    by_cases announced : ∃ e ∈ es, Announces x e
    · have without : ¬h.has x := by
        obtain ⟨e, member, found⟩ := announced
        exact fun has => fresh x has e member found
      obtain ⟨before, t, after, rfl, first⟩ := first_announcement announced
      obtain ⟨own', without', opened₀, closed₀⟩ := run_without limit before own without first
      obtain ⟨here, opened₁, closed₁⟩ := (step_without limit own' without' (t, .announce x)).1 rfl
      obtain ⟨opened₂, closed₂⟩ := closed_once limit after t fun between after' t' split =>
        repeats x before between after' t t' (by rw [split]) first
      rw [notices_append, notices_cons, here]
      simp only [List.count_append, opened₀, closed₀, opened₁, closed₁, opened₂]
      omega
    · have none : ∀ e ∈ es, ¬Announces x e := fun e member found => announced ⟨e, member, found⟩
      -- one that is not announced is at most closed, by whoever had the channel
      cases h with
      | foreign last => exact absurd trivial own
      | free =>
        obtain ⟨-, -, opened, closed⟩ := run_without limit es own (x := x) (by simp [Holder.has]) none
        omega
      | stream y last =>
        by_cases same : y = x
        · subst same
          obtain ⟨opened, closed⟩ := closed_once limit (x := y) es last fun between after t split =>
            absurd rfl (none (t, .announce y) (by simp [split]))
          omega
        · obtain ⟨-, -, opened, closed⟩ := run_without limit es own (x := x) same none
          omega

/-- Over any arrivals, every stream is opened at most once and closed at most once exactly when
every repeated announcement that is heard finds its stream undisturbed. -/
theorem once_iff (h : Holder α) (es : List (Rat × Input α))
    (fresh : ∀ x, h.has x → ∀ e ∈ es, ¬Announces x e) :
    (∀ x, (notices limit h es).count (.opened x) ≤ 1 ∧
      (notices limit h es).count (.closed x) ≤ 1) ↔ RepeatsUndisturbed limit (heard limit h es) := by
  cases h with
  | foreign last =>
    rw [notices_foreign]
    exact once_iff_of_own limit (by simp [Holder.isForeign]) _ (by simp [Holder.has])
  | free => exact once_iff_of_own limit (by simp [Holder.isForeign]) es fresh
  | stream y last => exact once_iff_of_own limit (by simp [Holder.isForeign]) es fresh

end

end Channel
