import Mathlib.Logic.Function.Basic
import Mathlib.Order.Basic

/-!
# Handles of armed timers

Every client keeps at most one handle. A timer that can still fire is live under
the handle of the client it is for, and every handle is that of a live timer, so
no timer is lost and none is armed twice. Handles are numbers that are given out
once.
-/

variable {K : Type*}

structure Armed (handle : K → Option Nat) (live : Nat → K → Prop) (next : Nat) : Prop where
  below : ∀ k id, handle k = some id → id < next
  agree : ∀ id k, live id k ↔ handle k = some id
  one : ∀ k k' id, handle k = some id → handle k' = some id → k = k'

namespace Armed

variable {handle : K → Option Nat} {live live' : Nat → K → Prop} {next : Nat} {k : K} {id : Nat}

theorem nil : Armed (fun _ : K => none) (fun _ _ => False) next :=
  ⟨by simp, by simp, by simp⟩

theorem congr (armed : Armed handle live next) (same : ∀ id k, live' id k ↔ live id k) :
    Armed handle live' next :=
  ⟨armed.below, fun id k => (same id k).trans (armed.agree id k), armed.one⟩

/-- A client whose timer is live has its handle. -/
theorem handle_of_live (armed : Armed handle live next) (alive : live id k) : handle k = some id :=
  (armed.agree id k).mp alive

variable [DecidableEq K]

/-- A client drops its handle and its timer can no longer fire: cancelled, or fired just now. -/
theorem disarm (armed : Armed handle live next) (k : K)
    (rest : ∀ id k', live' id k' ↔ live id k' ∧ some id ≠ handle k) :
    Armed (Function.update handle k none) live' next := by
  have keeps : ∀ k' id, Function.update handle k none k' = some id → k' ≠ k ∧ handle k' = some id := by
    intro k' id has
    by_cases same : k' = k
    · simp [same] at has
    · exact ⟨same, by simpa [same] using has⟩
  refine ⟨fun k' id has => armed.below k' id (keeps k' id has).2, fun id k' => ?_, fun k₁ k₂ id has₁ has₂ => ?_⟩
  · rw [rest, armed.agree]
    constructor
    · rintro ⟨has, other⟩
      have apart : k' ≠ k := by
        rintro rfl
        exact other has.symm
      simpa [apart] using has
    · intro has
      obtain ⟨apart, has⟩ := keeps k' id has
      exact ⟨has, fun same => apart (armed.one k' k id has same.symm)⟩
  · exact armed.one k₁ k₂ id (keeps k₁ id has₁).2 (keeps k₂ id has₂).2

/-- A client without a timer arms one under the next number. -/
theorem arm (armed : Armed handle live next) (idle : handle k = none)
    (more : ∀ id k', live' id k' ↔ live id k' ∨ id = next ∧ k' = k) :
    Armed (Function.update handle k (some next)) live' (next + 1) := by
  have cases_ : ∀ k' id, Function.update handle k (some next) k' = some id →
      k' = k ∧ id = next ∨ k' ≠ k ∧ handle k' = some id := by
    intro k' id has
    by_cases same : k' = k
    · exact .inl ⟨same, by simpa [same, eq_comm] using has⟩
    · exact .inr ⟨same, by simpa [same] using has⟩
  refine ⟨fun k' id has => ?_, fun id k' => ?_, fun k₁ k₂ id has₁ has₂ => ?_⟩
  · rcases cases_ k' id has with ⟨-, rfl⟩ | ⟨-, old⟩
    · exact Nat.lt_succ_self id
    · exact Nat.lt_succ_of_lt (armed.below k' id old)
  · rw [more, armed.agree]
    constructor
    · rintro (old | ⟨rfl, rfl⟩)
      · have apart : k' ≠ k := by
          rintro rfl
          simp [idle] at old
        simpa [apart] using old
      · simp
    · intro has
      rcases cases_ k' id has with ⟨same, number⟩ | ⟨-, old⟩
      · exact .inr ⟨number, same⟩
      · exact .inl old
  · rcases cases_ k₁ id has₁ with ⟨same₁, rfl⟩ | ⟨-, old₁⟩ <;>
      rcases cases_ k₂ id has₂ with ⟨same₂, number₂⟩ | ⟨-, old₂⟩
    · rw [same₁, same₂]
    · exact absurd (armed.below k₂ id old₂) (Nat.lt_irrefl id)
    · exact absurd (armed.below k₁ id old₁) (by rw [number₂]; exact Nat.lt_irrefl next)
    · exact armed.one k₁ k₂ id old₁ old₂

end Armed
