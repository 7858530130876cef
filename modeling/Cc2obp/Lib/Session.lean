import Mathlib.Data.List.Basic

/-!
# Bracketed sessions

A list of messages is bracketed when it is a sequence of sessions: one opening
message, numbered items, one closing message, only the last session possibly
still open. A sender that knows where it stands extends the list by one of three
rules.
-/

/-- The shape of a session: what opens it, what its `k`-th item may be, what closes it. -/
structure Session (α : Type*) where
  opens : α → Prop
  item : α → Nat → α → Prop
  closes : α → α → Prop

namespace Session

variable {α : Type*} (b : Session α)

/-- An opening message and its items. -/
def Running (l : List α) : Prop :=
  ∃ (o : α) (items : List α), l = o :: items ∧ b.opens o ∧ ∀ k x, items[k]? = some x → b.item o k x

/-- A whole session. -/
def Complete (l : List α) : Prop :=
  ∃ (run : List α) (c o : α) (items : List α), l = run ++ [c] ∧ run = o :: items ∧ b.opens o ∧
    (∀ k x, items[k]? = some x → b.item o k x) ∧ b.closes o c

/-- Whole sessions, and at most one running session at the end. -/
def Bracketed (l : List α) : Prop :=
  ∃ (done : List (List α)) (last : List α), (∀ s ∈ done, b.Complete s) ∧ (last = [] ∨ b.Running last) ∧ l = done.flatten ++ last

/-- Where a list stands: between sessions, or in the session of `o` after `n` items. -/
def Tracks : Option (α × Nat) → List α → Prop
  | none, l => ∃ done : List (List α), (∀ s ∈ done, b.Complete s) ∧ l = done.flatten
  | some (o, n), l => ∃ (done : List (List α)) (items : List α), (∀ s ∈ done, b.Complete s) ∧ b.opens o ∧
      (∀ k x, items[k]? = some x → b.item o k x) ∧ items.length = n ∧ l = done.flatten ++ o :: items

variable {b}

theorem tracks_nil : b.Tracks none [] := ⟨[], by simp, by simp⟩

theorem Tracks.open {l : List α} (between : b.Tracks none l) {o : α} (opening : b.opens o) :
    b.Tracks (some (o, 0)) (l ++ [o]) := by
  obtain ⟨done, complete, rfl⟩ := between
  exact ⟨done, [], complete, opening, by simp, rfl, rfl⟩

theorem Tracks.item {l : List α} {o : α} {n : Nat} (within : b.Tracks (some (o, n)) l) {x : α}
    (next : b.item o n x) : b.Tracks (some (o, n + 1)) (l ++ [x]) := by
  obtain ⟨done, items, complete, opening, numbered, count, rfl⟩ := within
  refine ⟨done, items ++ [x], complete, opening, ?_, by simp [count], by simp⟩
  intro k y found
  by_cases old : k < items.length
  · exact numbered k y (by simpa [List.getElem?_append_left old] using found)
  · have last : k = items.length := by
      have bound := (List.getElem?_eq_some_iff.mp found).1
      simp at bound
      omega
    subst last
    have same : x = y := by simpa using found
    rw [← same, count]
    exact next

theorem Tracks.close {l : List α} {o : α} {n : Nat} (within : b.Tracks (some (o, n)) l) {c : α}
    (closing : b.closes o c) : b.Tracks none (l ++ [c]) := by
  obtain ⟨done, items, complete, opening, numbered, count, rfl⟩ := within
  refine ⟨done ++ [o :: items ++ [c]], ?_, by simp⟩
  intro s member
  rcases List.mem_append.mp member with old | new
  · exact complete s old
  · rw [List.mem_singleton.mp new]
    exact ⟨o :: items, c, o, items, rfl, rfl, opening, numbered, closing⟩

theorem Tracks.bracketed {l : List α} {at_ : Option (α × Nat)} (stands : b.Tracks at_ l) :
    b.Bracketed l := by
  cases at_ with
  | none =>
    obtain ⟨done, complete, rfl⟩ := stands
    exact ⟨done, [], complete, .inl rfl, by simp⟩
  | some within =>
    obtain ⟨done, items, complete, opening, numbered, -, rfl⟩ := stands
    exact ⟨done, within.1 :: items, complete, .inr ⟨_, items, rfl, opening, numbered⟩, rfl⟩

/-- A map of messages that keeps the three rules of a shape. -/
structure Maps {β : Type*} (b : Session α) (b' : Session β) (f : α → β) : Prop where
  opens : ∀ o, b.opens o → b'.opens (f o)
  item : ∀ o k x, b.item o k x → b'.item (f o) k (f x)
  closes : ∀ o c, b.closes o c → b'.closes (f o) (f c)

section Maps
variable {β : Type*} {b' : Session β} {f : α → β}

theorem Maps.items (maps : b.Maps b' f) {o : α} {items : List α} (numbered : ∀ k x, items[k]? = some x → b.item o k x) :
    ∀ k y, (items.map f)[k]? = some y → b'.item (f o) k y := by
  intro k y found
  rw [List.getElem?_map, Option.map_eq_some_iff] at found
  obtain ⟨x, here, rfl⟩ := found
  exact maps.item o k x (numbered k x here)

theorem Complete.map {s : List α} (complete : b.Complete s) (maps : b.Maps b' f) : b'.Complete (s.map f) := by
  obtain ⟨run, c, o, items, rfl, rfl, opening, numbered, closing⟩ := complete
  exact ⟨f o :: items.map f, f c, f o, items.map f, by simp, rfl, maps.opens o opening, maps.items numbered,
    maps.closes o c closing⟩

/-- It takes whole sessions to whole sessions. -/
theorem Tracks.map {l : List α} (between : b.Tracks none l) (maps : b.Maps b' f) : b'.Tracks none (l.map f) := by
  obtain ⟨done, complete, rfl⟩ := between
  refine ⟨done.map (List.map f), fun s member => ?_, by simp [List.map_flatten]⟩
  obtain ⟨s, inside, rfl⟩ := List.mem_map.mp member
  exact (complete s inside).map maps

end Maps

/-- What keeps the three rules of a shape takes bracketed lists to bracketed lists. -/
theorem Bracketed.map {l : List α} (bracketed : b.Bracketed l) {β : Type*} {b' : Session β} (f : α → β)
    (opens : ∀ o, b.opens o → b'.opens (f o)) (item : ∀ o k x, b.item o k x → b'.item (f o) k (f x))
    (closes : ∀ o c, b.closes o c → b'.closes (f o) (f c)) : b'.Bracketed (l.map f) := by
  have maps : b.Maps b' f := ⟨opens, item, closes⟩
  obtain ⟨done, last, complete, running, rfl⟩ := bracketed
  refine ⟨done.map (List.map f), last.map f, ?_, ?_, by simp [List.map_flatten]⟩
  · intro s member
    obtain ⟨s, inside, rfl⟩ := List.mem_map.mp member
    exact (complete s inside).map maps
  · rcases running with rfl | ⟨o, items, rfl, opening, numbered⟩
    · exact .inl rfl
    · exact .inr ⟨f o, items.map f, rfl, opens o opening, maps.items numbered⟩

/-- A bracketed list starts with an opening message. -/
theorem Bracketed.opens_head {x : α} {l : List α} (bracketed : b.Bracketed (x :: l)) : b.opens x := by
  obtain ⟨done, last, complete, running, split⟩ := bracketed
  cases done with
  | nil =>
    rcases running with rfl | ⟨o, items, rfl, opening, -⟩
    · simp at split
    · simp only [List.flatten_nil, List.nil_append, List.cons.injEq] at split
      exact split.1 ▸ opening
  | cons first rest =>
    obtain ⟨run, c, o, items, rfl, rfl, opening, -, -⟩ := complete first (by simp)
    simp only [List.flatten_cons, List.cons_append, List.cons.injEq] at split
    exact split.1 ▸ opening

end Session
