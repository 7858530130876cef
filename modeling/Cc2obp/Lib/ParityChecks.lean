import Mathlib.Data.Vector.Basic

/-!
# Systematic parity-check codes

A check bit is the sum modulo 2 of the data bits its taps select. In a product of
two such codes the checks on checks are the same in either direction, so the check
rows are code words of the row code and the check columns of the column code.
-/
namespace ParityChecks

variable {m n p : Nat}

/-- The sum modulo 2 of the selected bits. -/
def xorSum (taps : List (Fin n)) (d : Vector Bool n) : Bool :=
  taps.foldr (fun i sum => getElem d i.val i.isLt ^^ sum) false

@[simp] theorem xorSum_nil (d : Vector Bool n) : xorSum [] d = false := rfl

@[simp] theorem xorSum_cons (i : Fin n) (taps : List (Fin n)) (d : Vector Bool n) :
    xorSum (i :: taps) d = (getElem d i.val i.isLt ^^ xorSum taps d) := rfl

/-- The check bits of a data word. -/
def checks (taps : Vector (List (Fin n)) p) (d : Vector Bool n) : Vector Bool p := taps.map fun t => xorSum t d

theorem getElem_checks (taps : Vector (List (Fin n)) p) (d : Vector Bool n) (j : Nat) (h : j < p) :
    (checks taps d)[j] = xorSum taps[j] d := by
  simp [checks]

theorem xorSum_zero (taps : List (Fin n)) : xorSum taps (Vector.ofFn fun _ => false) = false := by
  induction taps with
  | nil => rfl
  | cons i rest ih => simp [ih]

theorem xorSum_xor (taps : List (Fin n)) (f g : Fin n → Bool) :
    xorSum taps (Vector.ofFn fun i => f i ^^ g i) = (xorSum taps (Vector.ofFn f) ^^ xorSum taps (Vector.ofFn g)) := by
  induction taps with
  | nil => rfl
  | cons i rest ih =>
    simp only [xorSum_cons, ih, Vector.getElem_ofFn]
    simp only [Bool.xor_assoc, Bool.xor_left_comm]

/-- Checking down the columns and then along the check row is checking along the rows and then down
the check column. -/
theorem xorSum_comm (rowTaps : List (Fin n)) (colTaps : List (Fin m)) (cell : Fin m → Fin n → Bool) :
    xorSum rowTaps (Vector.ofFn fun c => xorSum colTaps (Vector.ofFn fun r => cell r c)) =
      xorSum colTaps (Vector.ofFn fun r => xorSum rowTaps (Vector.ofFn fun c => cell r c)) := by
  induction colTaps with
  | nil => exact xorSum_zero rowTaps
  | cons r rest ih =>
    simp only [xorSum_cons, xorSum_xor, ih, Vector.getElem_ofFn]

end ParityChecks
