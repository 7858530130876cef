import Cc2obp.Lib.CString
import Mathlib.Data.List.TakeWhile

/-!
# Reading back what was written

Numbers print as runs of digits, and a scan over such a run gives the number
again. Words, signs and the first occurrence of a marker are found behind text
that cannot be taken for them.
-/
namespace CString

/-! ## Runs of digits -/

section Digits
variable {base : Nat}

def IsDigits (base : Nat) (s : List (BitVec 8)) : Prop := ∀ c ∈ s, (digitVal base c).isSome = true

/-- The number a run of digits continues `acc` to. -/
def digitsValue (base acc : Nat) (s : List (BitVec 8)) : Nat :=
  s.foldl (fun acc c => acc * base + (digitVal base c).getD 0) acc

theorem IsDigits.append {s t : List (BitVec 8)} (hs : IsDigits base s) (ht : IsDigits base t) :
    IsDigits base (s ++ t) := by
  intro c member
  rcases List.mem_append.mp member with first | second
  · exact hs c first
  · exact ht c second

theorem scanDigits_append {s : List (BitVec 8)} (digits : IsDigits base s) (acc : Nat) (rest : List (BitVec 8)) :
    scanDigits base acc (s ++ rest) = scanDigits base (digitsValue base acc s) rest := by
  induction s generalizing acc with
  | nil => rfl
  | cons c s ih =>
    obtain ⟨v, digit⟩ := Option.isSome_iff_exists.mp (digits c (by simp))
    simp only [List.cons_append, scanDigits, digit]
    rw [ih fun c' member => digits c' (by simp [member])]
    simp [digitsValue, digit]

/-- A scan stops at the end, or before what is no digit. -/
def Stops (base : Nat) (rest : List (BitVec 8)) : Prop := ∀ c ∈ rest.head?, digitVal base c = none

theorem scanDigits_of_stops {rest : List (BitVec 8)} (stops : Stops base rest) (acc : Nat) :
    scanDigits base acc rest = (acc, rest) := by
  cases rest with
  | nil => rfl
  | cons c rest => simp [scanDigits, stops c (by simp)]

theorem scanDigits_run {s rest : List (BitVec 8)} (digits : IsDigits base s) (stops : Stops base rest) :
    scanDigits base 0 (s ++ rest) = (digitsValue base 0 s, rest) := by
  rw [scanDigits_append digits, scanDigits_of_stops stops]

/-! ## Printed numbers -/

theorem digitVal_digitByte : ∀ base ≤ 16, ∀ v < base, digitVal base (digitByte v) = some v := by
  decide +kernel

theorem digitsOnto_eq (base fuel n : Nat) (acc : List (BitVec 8)) :
    digitsOnto base fuel n acc = digitsOnto base fuel n [] ++ acc := by
  induction fuel generalizing n acc with
  | zero => rfl
  | succ fuel ih =>
    simp only [digitsOnto]
    split
    · rfl
    · rw [ih _ (_ :: acc), ih _ [_]]
      simp

/-- More fuel than the number prints no further digit. -/
theorem digitsOnto_fuel {fuel fuel' n : Nat} (wide : 2 ≤ base) (enough : n < fuel) (enough' : n < fuel')
    (acc : List (BitVec 8)) : digitsOnto base fuel n acc = digitsOnto base fuel' n acc := by
  induction fuel generalizing fuel' n acc with
  | zero => omega
  | succ fuel ih =>
    obtain ⟨fuel', rfl⟩ : ∃ k, fuel' = k + 1 := ⟨fuel' - 1, by omega⟩
    simp only [digitsOnto]
    split
    · rfl
    next more =>
      have positive : 0 < n := by
        by_contra zero
        simp [show n = 0 by omega] at more
      have smaller : n / base < n := Nat.div_lt_self positive wide
      exact ih (by omega) (by omega) _

/-- A number prints as the digits of its quotient and then its last one. -/
theorem fmtNat_step (wide : 2 ≤ base) (n : Nat) :
    fmtNat base n = (if n < base then [] else fmtNat base (n / base)) ++ [digitByte (n % base)] := by
  have first : fmtNat base n = if n / base = 0 then [digitByte (n % base)]
      else digitsOnto base n (n / base) [digitByte (n % base)] := rfl
  rw [first]
  split
  next done =>
    have small : n < base := by
      rcases (Nat.div_eq_zero_iff).mp done with zero | small
      · omega
      · exact small
    simp [small]
  next more =>
    have large : ¬n < base := fun small => more (Nat.div_eq_of_lt small)
    have positive : 0 < n := by omega
    have smaller : n / base < n := Nat.div_lt_self positive wide
    rw [if_neg large, digitsOnto_eq, digitsOnto_fuel wide smaller (Nat.lt_succ_self _), fmtNat]

theorem fmtNat_ne_nil (wide : 2 ≤ base) (n : Nat) : fmtNat base n ≠ [] := by
  rw [fmtNat_step wide]
  simp

/-- Induction over the digits of a number. -/
theorem digits_induction {p : Nat → Prop} (wide : 2 ≤ base) (last : ∀ n < base, p n)
    (more : ∀ n, base ≤ n → p (n / base) → p n) (n : Nat) : p n := by
  induction n using Nat.strongRecOn with
  | ind n ih =>
    by_cases small : n < base
    · exact last n small
    · exact more n (by omega) (ih _ (Nat.div_lt_self (by omega) wide))

theorem isDigits_fmtNat (wide : 2 ≤ base) (narrow : base ≤ 16) (n : Nat) : IsDigits base (fmtNat base n) := by
  have last : ∀ n, IsDigits base [digitByte (n % base)] := by
    intro n c member
    rw [List.mem_singleton.mp member, digitVal_digitByte base narrow _ (Nat.mod_lt _ (by omega))]
    rfl
  apply digits_induction wide (p := fun n => IsDigits base (fmtNat base n))
  · intro n small
    rw [fmtNat_step wide, if_pos small]
    exact last n
  · intro n large ih
    rw [fmtNat_step wide, if_neg (by omega)]
    exact ih.append (last n)

theorem digitsValue_fmtNat (wide : 2 ≤ base) (narrow : base ≤ 16) (n : Nat) :
    digitsValue base 0 (fmtNat base n) = n := by
  have last : ∀ n, digitVal base (digitByte (n % base)) = some (n % base) := fun n =>
    digitVal_digitByte base narrow _ (Nat.mod_lt _ (by omega))
  apply digits_induction wide (p := fun n => digitsValue base 0 (fmtNat base n) = n)
  · intro n small
    rw [fmtNat_step wide, if_pos small]
    have digit := last n
    rw [Nat.mod_eq_of_lt small] at digit
    simp [digitsValue, Nat.mod_eq_of_lt small, digit]
  · intro n large ih
    rw [fmtNat_step wide, if_neg (by omega)]
    simp only [digitsValue, List.foldl_append] at ih ⊢
    simp only [ih, List.foldl_cons, List.foldl_nil, last n, Option.getD_some]
    exact Nat.div_add_mod' n base

theorem length_fmtNat_le (wide : 2 ≤ base) {k n : Nat} (some_digit : 1 ≤ k) (fits : n < base ^ k) :
    (fmtNat base n).length ≤ k := by
  induction k generalizing n with
  | zero => omega
  | succ k ih =>
    rw [fmtNat_step wide]
    split
    · simp
    next large =>
      have below : n / base < base ^ k := Nat.div_lt_of_lt_mul (by rwa [Nat.pow_succ, Nat.mul_comm] at fits)
      have more : 1 ≤ k := by
        by_contra none
        have quotient : 0 < n / base := Nat.div_pos (by omega) (by omega)
        simp [show k = 0 by omega] at below
        omega
      have rest := ih more below
      simp only [List.length_append, List.length_singleton]
      omega

/-- Zeros in front leave the number as it is. -/
theorem digitsValue_zeros (k : Nat) (s : List (BitVec 8)) :
    digitsValue 10 0 (List.replicate k 0x30 ++ s) = digitsValue 10 0 s := by
  induction k with
  | zero => rfl
  | succ k ih => exact ih

theorem isDigits_zeros (k : Nat) : IsDigits 10 (List.replicate k 0x30) := by
  intro c member
  rw [List.eq_of_mem_replicate member]
  rfl

theorem IsDigits.all {s : List (BitVec 8)} (digits : IsDigits 10 s) {p : BitVec 8 → Bool}
    (holds : ∀ c, (digitVal 10 c).isSome = true → p c = true) : s.all p = true :=
  List.all_eq_true.mpr fun c member => holds c (digits c member)

/-! ## Conversions -/

theorem digit_range : ∀ {c : BitVec 8}, (digitVal 16 c).isSome = true → 0x30 ≤ c ∧ c ≤ 0x66 := by
  decide +kernel

theorem isDigits_widen (narrow : base ≤ 16) {s : List (BitVec 8)} (digits : IsDigits base s) : IsDigits 16 s := by
  intro c member
  obtain ⟨v, digit⟩ := Option.isSome_iff_exists.mp (digits c member)
  obtain ⟨raw, small⟩ := Option.filter_eq_some_iff.mp digit
  have wider : digitVal 16 c = some v := by
    apply Option.filter_eq_some_iff.mpr
    refine ⟨raw, ?_⟩
    have below : v < base := by simpa using small
    simp
    omega
  simp [wider]

/-- No blank and no sign is in front of a run of digits. -/
theorem scanSign_digits (narrow : base ≤ 16) {s rest : List (BitVec 8)} (digits : IsDigits base s) (some_digit : s ≠ []) :
    scanSign ((s ++ rest).dropWhile isSpace) = (false, s ++ rest) := by
  obtain ⟨c, s, rfl⟩ := List.exists_cons_of_ne_nil some_digit
  obtain ⟨low, -⟩ := digit_range (isDigits_widen narrow digits c (by simp))
  have notSpace : isSpace c = false := by
    simp only [isSpace, Bool.or_eq_false_iff, beq_eq_false_iff_ne, Bool.and_eq_false_iff, decide_eq_false_iff_not]
    exact ⟨by bv_omega, .inr (by bv_omega)⟩
  have notMinus : c ≠ 0x2D := by bv_omega
  have notPlus : c ≠ 0x2B := by bv_omega
  rw [List.cons_append, List.dropWhile_cons_of_neg (by simp [notSpace]), scanSign, if_neg notMinus, if_neg notPlus]

theorem longToInt_of_range {negative : Bool} {v : Nat} (low : negative = true → v ≤ 2 ^ 31)
    (high : negative = false → v < 2 ^ 31) : longToInt negative v = if negative then -(v : Int) else v := by
  cases negative with
  | false =>
    have small := high rfl
    simp only [longToInt, Bool.false_eq_true, if_false]
    rw [min_eq_left (by omega), BitVec.toInt_ofInt]
    exact Int.bmod_eq_of_le (by omega) (by omega)
  | true =>
    have small := low rfl
    simp only [longToInt, ↓reduceIte]
    rw [max_eq_left (by omega), BitVec.toInt_ofInt]
    exact Int.bmod_eq_of_le (by omega) (by omega)

theorem atoi_digits {s rest : List (BitVec 8)} (digits : IsDigits 10 s) (some_digit : s ≠ []) (stops : Stops 10 rest)
    (fits : digitsValue 10 0 s < 2 ^ 31) : atoi (s ++ rest) = digitsValue 10 0 s := by
  simp only [atoi, scanSign_digits (by decide) digits some_digit, scanDigits_run digits stops]
  rw [longToInt_of_range (by simp) fun _ => fits]
  rfl

theorem skipHexMark_digits {s : List (BitVec 8)} (digits : IsDigits 16 s) : skipHexMark s = s := by
  match s with
  | [] => rfl
  | [_] => rfl
  | a :: b :: s =>
    have digit := digits b (by simp)
    have notMark : ¬(b = 0x78 ∨ b = 0x58) := by
      rintro (rfl | rfl)
      · cases digit
      · cases digit
    rw [skipHexMark, if_neg fun mark => notMark mark.2]

theorem strtoul32_digits (narrow : base ≤ 16) {s : List (BitVec 8)} (digits : IsDigits base s) (some_digit : s ≠ [])
    (fits : digitsValue base 0 s < 2 ^ 32) : strtoul32 base s = BitVec.ofNat 32 (digitsValue base 0 s) := by
  have front : scanSign ((s ++ []).dropWhile isSpace) = (false, s ++ []) := scanSign_digits narrow digits some_digit
  have run : scanDigits base 0 (s ++ []) = (digitsValue base 0 s, []) := scanDigits_run digits (by simp [Stops])
  rw [List.append_nil] at front run
  have kept : (if base = 16 then skipHexMark s else s) = s := by
    rw [skipHexMark_digits (isDigits_widen narrow digits), ite_self]
  simp only [strtoul32, front, kept, run]
  rw [if_neg (by omega)]
  simp

end Digits

/-- A printed number reads back as itself. -/
theorem strtoul32_fmtNat (base : Nat) (wide : 2 ≤ base) (narrow : base ≤ 16) (x : BitVec 32) :
    strtoul32 base (fmtNat base x.toNat) = x := by
  have value := digitsValue_fmtNat wide narrow x.toNat
  rw [strtoul32_digits narrow (isDigits_fmtNat wide narrow _) (fmtNat_ne_nil wide _) (by rw [value]; exact x.isLt), value]
  simp

/-- A printed integer is scanned to its end. -/
theorem scanInt_fmtInt_longToInt (x : Int) {rest : List (BitVec 8)} (stops : Stops 10 rest) :
    scanInt (fmtInt x ++ rest) = some (longToInt (decide (x < 0)) x.natAbs, rest) := by
  have digits : IsDigits 10 (fmtNat 10 x.natAbs) := isDigits_fmtNat (by decide) (by decide) _
  have some_digit : fmtNat 10 x.natAbs ≠ [] := fmtNat_ne_nil (by decide) _
  have value : digitsValue 10 0 (fmtNat 10 x.natAbs) = x.natAbs := digitsValue_fmtNat (by decide) (by decide) _
  have front : scanSign ((fmtNat 10 x.natAbs ++ rest).dropWhile isSpace) = (false, fmtNat 10 x.natAbs ++ rest) :=
    scanSign_digits (by decide) digits some_digit
  have run := scanDigits_run digits stops
  rw [value] at run
  have shorter : ¬rest.length = (fmtNat 10 x.natAbs ++ rest).length := by
    have positive := List.length_pos_iff.mpr some_digit
    rw [List.length_append]
    omega
  unfold fmtInt
  split
  next negative =>
    have sign : scanSign ((0x2D :: fmtNat 10 x.natAbs ++ rest).dropWhile isSpace) =
        (true, fmtNat 10 x.natAbs ++ rest) := by
      simp [isSpace, scanSign]
    simp only [scanInt, sign, run, shorter, if_false, negative, decide_true]
  next positive => simp only [scanInt, front, run, shorter, if_false, positive, decide_false]

/-- In the range of an `int` it is what was printed. -/
theorem scanInt_fmtInt {x : Int} (low : -(2 ^ 31) ≤ x) (high : x < 2 ^ 31) {rest : List (BitVec 8)}
    (stops : Stops 10 rest) : scanInt (fmtInt x ++ rest) = some (x, rest) := by
  rw [scanInt_fmtInt_longToInt x stops]
  by_cases negative : x < 0
  · rw [longToInt_of_range (fun _ => by omega) (by simp [negative])]
    simp only [negative, decide_true, if_true, Option.some.injEq, Prod.mk.injEq, and_true]
    omega
  · rw [longToInt_of_range (by simp [negative]) fun _ => by omega]
    simp only [negative, decide_false, Bool.false_eq_true, if_false, Option.some.injEq, Prod.mk.injEq, and_true]
    omega

/-! ## Padded numbers -/

section Padded
variable {width : Nat} {x : Int}

theorem fmtPadded_of_nonneg (positive : 0 ≤ x) :
    fmtPadded width x = List.replicate (width - (fmtNat 10 x.natAbs).length) 0x30 ++ fmtNat 10 x.natAbs := by
  have notBelow : ¬x < 0 := by omega
  simp [fmtPadded, notBelow]

theorem isDigits_fmtPadded (positive : 0 ≤ x) : IsDigits 10 (fmtPadded width x) := by
  rw [fmtPadded_of_nonneg positive]
  exact (isDigits_zeros _).append (isDigits_fmtNat (by decide) (by decide) _)

theorem digitsValue_fmtPadded (positive : 0 ≤ x) : digitsValue 10 0 (fmtPadded width x) = x.natAbs := by
  rw [fmtPadded_of_nonneg positive, digitsValue_zeros, digitsValue_fmtNat (by decide) (by decide)]

theorem fmtPadded_ne_nil (positive : 0 ≤ x) : fmtPadded width x ≠ [] := by
  rw [fmtPadded_of_nonneg positive]
  have some_digit : fmtNat 10 x.natAbs ≠ [] := fmtNat_ne_nil (by decide) _
  simp [some_digit]

/-- A number of few digits is padded to the width exactly. -/
theorem length_fmtPadded (positive : 0 ≤ x) (wide : 1 ≤ width) (fits : x.natAbs < 10 ^ width) :
    (fmtPadded width x).length = width := by
  have short : (fmtNat 10 x.natAbs).length ≤ width := length_fmtNat_le (by decide) wide fits
  rw [fmtPadded_of_nonneg positive, List.length_append, List.length_replicate]
  omega

theorem length_fmtPadded_le {k : Nat} (positive : 0 ≤ x) (room : width ≤ k) (some_digit : 1 ≤ k) (fits : x.natAbs < 10 ^ k) :
    (fmtPadded width x).length ≤ k := by
  have short : (fmtNat 10 x.natAbs).length ≤ k := length_fmtNat_le (by decide) some_digit fits
  rw [fmtPadded_of_nonneg positive, List.length_append, List.length_replicate]
  omega

end Padded

/-! ## Markers and words -/

section Markers
variable {c : BitVec 8} {needle : List (BitVec 8)}

/-- A marker is not in text without its first byte. -/
theorem strstr_skip {front : List (BitVec 8)} (absent : c ∉ front) (s : List (BitVec 8)) :
    strstr (c :: needle) (front ++ s) = strstr (c :: needle) s := by
  induction front with
  | nil => rfl
  | cons a front ih =>
    have other : c ≠ a := fun same => absent (by simp [same])
    simp only [List.cons_append, strstr, List.isPrefixOf, beq_eq_false_iff_ne.mpr other, Bool.false_and]
    simpa using ih fun later => absent (by simp [later])

theorem strstr_here (rest : List (BitVec 8)) :
    strstr (c :: needle) (c :: needle ++ rest) = some (c :: needle ++ rest) := by
  simp [strstr]

theorem strstr_eq_none {s : List (BitVec 8)} (absent : c ∉ s) : strstr (c :: needle) s = none := by
  have skipped : strstr (c :: needle) (s ++ []) = strstr (c :: needle) [] := strstr_skip absent []
  rw [List.append_nil] at skipped
  rw [skipped]
  rfl

/-- The first byte alone is no marker. -/
theorem strstr_cons_of_ne {a : BitVec 8} {s : List (BitVec 8)} (other : ∀ b ∈ s.head?, a ≠ b) :
    strstr (c :: a :: needle) (c :: s) = strstr (c :: a :: needle) s := by
  conv_lhs => rw [strstr]
  cases s with
  | nil => simp [List.isPrefixOf]
  | cons b s =>
    have differ : (a == b) = false := beq_eq_false_iff_ne.mpr (other b (by simp))
    simp [List.isPrefixOf, differ]

theorem length_le_of_strstr {s rest : List (BitVec 8)} (found : strstr needle s = some rest) :
    needle.length ≤ rest.length ∧ rest.length ≤ s.length := by
  induction s with
  | nil =>
    rw [strstr] at found
    split at found
    next empty =>
      cases found
      simp [empty]
    · cases found
  | cons c s ih =>
    rw [strstr] at found
    split at found
    next here =>
      cases found
      exact ⟨(List.isPrefixOf_iff_prefix.mp here).length_le, le_rfl⟩
    · obtain ⟨fits, within⟩ := ih found
      exact ⟨fits, by simp only [List.length_cons]; omega⟩

/-- Text behind does not move the first occurrence. -/
theorem strstr_append {s rest : List (BitVec 8)} (found : strstr needle s = some rest) (t : List (BitVec 8)) :
    strstr needle (s ++ t) = some (rest ++ t) := by
  induction s with
  | nil =>
    rw [strstr] at found
    split at found
    next empty =>
      cases found
      subst empty
      cases t <;> simp [strstr]
    · cases found
  | cons c s ih =>
    have fits := length_le_of_strstr found
    rw [strstr] at found
    rw [List.cons_append, strstr]
    split at found
    next here =>
      cases found
      have longer : needle.isPrefixOf (c :: (s ++ t)) = true := by
        rw [List.isPrefixOf_iff_prefix] at here ⊢
        exact here.trans (List.prefix_append (c :: s) t)
      rw [if_pos longer]
      rfl
    next elsewhere =>
      have still : ¬needle.isPrefixOf (c :: (s ++ t)) = true := by
        rw [List.isPrefixOf_iff_prefix] at elsewhere ⊢
        intro longer
        exact elsewhere (List.prefix_of_prefix_length_le longer (List.prefix_append (c :: s) t) (by omega))
      rw [if_neg still]
      exact ih found

end Markers

/-- A word of fitting length is read up to the blank behind it. -/
theorem scanWord_word {width : Nat} {blanks word rest : List (BitVec 8)} (lead : ∀ c ∈ blanks, isSpace c = true)
    (inside : ∀ c ∈ word, isSpace c = false) (some_byte : word ≠ []) (fits : word.length ≤ width)
    (ends : ∀ c ∈ rest.head?, isSpace c = true) :
    scanWord width (blanks ++ (word ++ rest)) = some (word, rest) := by
  have front : (blanks ++ (word ++ rest)).dropWhile isSpace = word ++ rest := by
    obtain ⟨c, word, rfl⟩ := List.exists_cons_of_ne_nil some_byte
    rw [List.dropWhile_append_of_pos lead, List.cons_append, List.dropWhile_cons_of_neg (by simp [inside c])]
  have taken : (word ++ rest).takeWhile (fun c => !isSpace c) = word := by
    rw [List.takeWhile_append_of_pos (by simpa using inside)]
    cases rest with
    | nil => simp
    | cons c rest => simp [ends c (by simp)]
  simp [scanWord, front, taken, List.take_of_length_le fits, some_byte]

end CString
