import Cc2obp.Lib.Text
import Mathlib.Tactic.Ring

/-!
# Decimal numbers written in full

The integer a text denotes, of any length. `strtoll` reads the same texts and gives
the integer as far as 64 bits hold it; of a text that has been cut it gives the
integer of what is left, which is another one unless both are zero.
-/
namespace CString

/-- The integer of an optional sign and at least one digit, with nothing behind them. -/
def exactInt (s : List (BitVec 8)) : Option Int :=
  let (negative, digits) := scanSign (s.dropWhile isSpace)
  if digits ≠ [] ∧ digits.all (fun c => (digitVal 10 c).isSome) = true then
    some (if negative then -(digitsValue 10 0 digits : Int) else digitsValue 10 0 digits)
  else none

/-- As far as a `long long` goes. -/
def clamp64 (v : Int) : Int := max (-(2 ^ 63)) (min v (2 ^ 63 - 1))

section
variable {s front tail : List (BitVec 8)} {v a : Int}

theorem digitsValue_acc (base acc : Nat) (s : List (BitVec 8)) :
    digitsValue base acc s = acc * base ^ s.length + digitsValue base 0 s := by
  induction s generalizing acc with
  | nil => simp [digitsValue]
  | cons c s ih =>
    have step : ∀ acc, digitsValue base acc (c :: s) = digitsValue base (acc * base + (digitVal base c).getD 0) s :=
      fun _ => rfl
    rw [step, step, ih, ih (0 * base + _), List.length_cons, Nat.pow_succ]
    ring

theorem digitsValue_append (base : Nat) (s t : List (BitVec 8)) :
    digitsValue base 0 (s ++ t) = digitsValue base 0 s * base ^ t.length + digitsValue base 0 t := by
  have parts : digitsValue base 0 (s ++ t) = digitsValue base (digitsValue base 0 s) t := List.foldl_append
  rw [parts, digitsValue_acc]

theorem isDigits_iff_all : IsDigits 10 s ↔ s.all (fun c => (digitVal 10 c).isSome) = true := by
  rw [IsDigits, List.all_eq_true]

/-- A scan that reaches the end has read digits only. -/
theorem isDigits_of_scanDigits {base acc : Nat} (ends : (scanDigits base acc s).2 = []) : IsDigits base s := by
  induction s generalizing acc with
  | nil => simp [IsDigits]
  | cons c s ih =>
    rw [scanDigits] at ends
    cases digit : digitVal base c with
    | none => simp [digit] at ends
    | some d =>
      simp only [digit] at ends
      intro c' member
      rcases List.mem_cons.mp member with rfl | later
      · simp [digit]
      · exact ih ends c' later

theorem scanDigits_digits (digits : IsDigits 10 s) : scanDigits 10 0 s = (digitsValue 10 0 s, []) := by
  have run : scanDigits 10 0 (s ++ []) = (digitsValue 10 0 s, []) := scanDigits_run digits (by simp [Stops])
  rwa [List.append_nil] at run

/-- A text that denotes an integer is read to its end, as far as 64 bits hold it. -/
theorem strtoll_of_exactInt (exact : exactInt s = some v) : strtoll s = (clamp64 v, []) := by
  obtain ⟨negative, digits, split⟩ : ∃ negative digits, scanSign (s.dropWhile isSpace) = (negative, digits) := ⟨_, _, rfl⟩
  simp only [exactInt, split] at exact
  split at exact
  next written =>
    have run : IsDigits 10 digits := isDigits_iff_all.mpr written.2
    have positive := List.length_pos_iff.mpr written.1
    simp only [strtoll, split, scanDigits_digits run]
    rw [if_neg (by simp only [List.length_nil]; omega), ← Option.some.inj exact]
    unfold clamp64
    cases negative with
    | true =>
      simp only [if_true, Prod.mk.injEq, and_true]
      omega
    | false =>
      simp only [Bool.false_eq_true, if_false, Prod.mk.injEq, and_true]
      omega
  · cases exact

/-- `strtoll` takes a whole text exactly when it denotes an integer, which it gives clamped. -/
theorem strtoll_whole_iff (some_byte : s ≠ []) :
    (strtoll s).2 = [] ↔ ∃ v, exactInt s = some v ∧ (strtoll s).1 = clamp64 v := by
  obtain ⟨negative, digits, split⟩ : ∃ negative digits, scanSign (s.dropWhile isSpace) = (negative, digits) := ⟨_, _, rfl⟩
  constructor
  · intro ends
    have denotes : ∃ v, exactInt s = some v := by
      simp only [strtoll, split] at ends
      split at ends
      · exact absurd ends some_byte
      next more =>
        have run := isDigits_of_scanDigits ends
        have filled : digits ≠ [] := by
          rintro rfl
          exact more (by simp [scanDigits])
        simp only [exactInt, split]
        rw [if_pos ⟨filled, isDigits_iff_all.mp run⟩]
        exact ⟨_, rfl⟩
    obtain ⟨v, exact⟩ := denotes
    exact ⟨v, exact, by rw [strtoll_of_exactInt exact]⟩
  · rintro ⟨v, exact, -⟩
    rw [strtoll_of_exactInt exact]

/-- The sign and the blanks before a number stay where they are when something is appended. -/
theorem scanSign_of_exactInt (exact : exactInt front = some a) : ∃ negative digits,
    scanSign (front.dropWhile isSpace) = (negative, digits) ∧ digits ≠ [] ∧
      ∀ tail, scanSign ((front ++ tail).dropWhile isSpace) = (negative, digits ++ tail) := by
  obtain ⟨negative, digits, split⟩ : ∃ negative digits, scanSign (front.dropWhile isSpace) = (negative, digits) :=
    ⟨_, _, rfl⟩
  simp only [exactInt, split] at exact
  split at exact
  next written =>
    obtain ⟨filled, -⟩ := written
    refine ⟨negative, digits, split, filled, fun tail => ?_⟩
    have some_front : front.dropWhile isSpace ≠ [] := by
      intro empty
      rw [empty, scanSign] at split
      exact filled (Prod.mk.inj split).2.symm
    have drop : (front ++ tail).dropWhile isSpace = front.dropWhile isSpace ++ tail := by
      rw [List.dropWhile_append, if_neg (by simpa using some_front)]
    obtain ⟨c, rest, shape⟩ := List.exists_cons_of_ne_nil some_front
    rw [drop]
    rw [shape] at split ⊢
    rw [List.cons_append, scanSign]
    rw [scanSign] at split
    by_cases minus : c = 0x2D
    · rw [if_pos minus] at split ⊢
      obtain ⟨rfl, rfl⟩ := Prod.mk.inj split
      rfl
    · rw [if_neg minus] at split ⊢
      by_cases plus : c = 0x2B
      · rw [if_pos plus] at split ⊢
        obtain ⟨rfl, rfl⟩ := Prod.mk.inj split
        rfl
      · rw [if_neg plus] at split ⊢
        obtain ⟨rfl, rfl⟩ := Prod.mk.inj split
        rfl
  · cases exact

/-- Behind a number only digits make another one. -/
theorem isDigits_of_exactInt_append (shorter : exactInt front = some a) (longer : exactInt (front ++ tail) = some v) :
    IsDigits 10 tail := by
  obtain ⟨negative, digits, -, -, grown⟩ := scanSign_of_exactInt shorter
  simp only [exactInt, grown tail] at longer
  split at longer
  next written =>
    have run := isDigits_iff_all.mpr written.2
    exact fun c member => run c (List.mem_append_right digits member)
  · cases longer

/-- More digits behind a number make it at least ten times as large, or change it from or to zero. -/
theorem exactInt_append (more : tail ≠ []) (shorter : exactInt front = some a)
    (longer : exactInt (front ++ tail) = some v) : (0 < a → 10 * a ≤ v) ∧ (v = 0 → a = 0) := by
  obtain ⟨negative, digits, split, -, grown⟩ := scanSign_of_exactInt shorter
  simp only [exactInt, split] at shorter
  simp only [exactInt, grown tail] at longer
  split at shorter
  · split at longer
    · have value := digitsValue_append 10 digits tail
      have power : 10 ≤ 10 ^ tail.length := by
        have positive := List.length_pos_iff.mpr more
        calc 10 = 10 ^ 1 := rfl
          _ ≤ 10 ^ tail.length := Nat.pow_le_pow_right (by decide) positive
      have tenfold : digitsValue 10 0 digits * 10 ≤ digitsValue 10 0 (digits ++ tail) := by
        have first := Nat.mul_le_mul_left (digitsValue 10 0 digits) power
        omega
      cases negative with
      | true =>
        simp only [if_true, Option.some.injEq] at shorter longer
        omega
      | false =>
        simp only [Bool.false_eq_true, if_false, Option.some.injEq] at shorter longer
        omega
    · cases longer
  · cases shorter

/-- A printed number denotes itself. -/
theorem exactInt_fmtInt (x : Int) : exactInt (fmtInt x) = some x := by
  have digits : IsDigits 10 (fmtNat 10 x.natAbs) := isDigits_fmtNat (by decide) (by decide) _
  have filled : fmtNat 10 x.natAbs ≠ [] := fmtNat_ne_nil (by decide) _
  have value : digitsValue 10 0 (fmtNat 10 x.natAbs) = x.natAbs := digitsValue_fmtNat (by decide) (by decide) _
  have written : fmtNat 10 x.natAbs ≠ [] ∧ (fmtNat 10 x.natAbs).all (fun c => (digitVal 10 c).isSome) = true :=
    ⟨filled, isDigits_iff_all.mp digits⟩
  unfold fmtInt
  split
  next negative =>
    have sign : scanSign ((0x2D :: fmtNat 10 x.natAbs).dropWhile isSpace) = (true, fmtNat 10 x.natAbs) := by
      simp [isSpace, scanSign]
    simp only [exactInt, sign]
    rw [if_pos written, value]
    simp only [if_true, Option.some.injEq]
    omega
  next positive =>
    have sign : scanSign ((fmtNat 10 x.natAbs).dropWhile isSpace) = (false, fmtNat 10 x.natAbs) := by
      have front : scanSign ((fmtNat 10 x.natAbs ++ []).dropWhile isSpace) = (false, fmtNat 10 x.natAbs ++ []) :=
        scanSign_digits (by decide) digits filled
      rwa [List.append_nil] at front
    simp only [exactInt, sign]
    rw [if_pos written, value]
    simp only [Bool.false_eq_true, if_false, Option.some.injEq]
    omega

end

end CString
