import Mathlib.Algebra.Polynomial.Eval.Degree
import Mathlib.InformationTheory.Hamming
import Mathlib.LinearAlgebra.Vandermonde

/-!
# Reed-Solomon words

Words read as polynomials, the first symbol as the highest coefficient. Words that
vanish at `d` successive powers of an element whose powers below the length are
different are at a distance of more than `d`.
-/
namespace ReedSolomon

open Polynomial

variable {K : Type*} [Field K]

/-- A word as a polynomial. -/
noncomputable def wordPoly {n : Nat} (w : Fin n → K) : K[X] := ∑ i, C (w i) * X ^ (n - 1 - i.val)

theorem eval_wordPoly {n : Nat} (w : Fin n → K) (x : K) :
    (wordPoly w).eval x = ∑ i, w i * x ^ (n - 1 - i.val) := by
  simp [wordPoly, eval_finsetSum]

/-- Horner's rule over a list of symbols. -/
def horner (x : K) (w : List K) : K := w.foldl (fun acc c => acc * x + c) 0

@[simp] theorem horner_append_singleton (x : K) (w : List K) (c : K) :
    horner x (w ++ [c]) = horner x w * x + c := by
  simp [horner]

theorem eval_wordPoly_eq_horner (x : K) {n : Nat} (w : Fin n → K) :
    (wordPoly w).eval x = horner x (List.ofFn w) := by
  induction n with
  | zero => simp [eval_wordPoly, horner]
  | succ n ih =>
    have front := ih fun i => w i.castSucc
    rw [eval_wordPoly] at front ⊢
    rw [List.ofFn_succ_last, horner_append_singleton, ← front, Fin.sum_univ_castSucc, Finset.sum_mul]
    congr 1
    · refine Finset.sum_congr rfl fun i _ => ?_
      have power : n + 1 - 1 - i.castSucc.val = n - 1 - i.val + 1 := by
        have := i.isLt
        simp
        omega
      rw [power, pow_succ, mul_assoc]
    · simp

/-- An error pattern of at most `d` symbols with `d` zero syndromes is no error. -/
theorem eq_zero_of_syndromes [DecidableEq K] {n d : Nat} {x : Fin n → K} (distinct : Function.Injective x) (nonzero : ∀ i, x i ≠ 0)
    {e : Fin n → K} (few : (Finset.univ.filter fun i => e i ≠ 0).card ≤ d)
    (syndromes : ∀ j < d, ∑ i, e i * x i ^ (j + 1) = 0) : e = 0 := by
  let support := Finset.univ.filter fun i => e i ≠ 0
  let at_ : Fin support.card → Fin n := fun k => (support.equivFin.symm k).val
  have injective : Function.Injective fun k => x (at_ k) :=
    distinct.comp (Subtype.val_injective.comp support.equivFin.symm.injective)
  -- the errors weighted with their positions, a kernel vector of a Vandermonde matrix
  have weighted : (fun k => e (at_ k) * x (at_ k)) = 0 := by
    refine Matrix.eq_zero_of_forall_pow_sum_mul_pow_eq_zero injective fun j => ?_
    have syndrome := syndromes j.val (lt_of_lt_of_le j.isLt few)
    rw [← Finset.sum_filter_add_sum_filter_not Finset.univ fun i => e i ≠ 0] at syndrome
    have rest : ∑ i ∈ Finset.univ.filter (fun i => ¬e i ≠ 0), e i * x i ^ (j.val + 1) = 0 := by
      refine Finset.sum_eq_zero fun i member => ?_
      simp only [Finset.mem_filter, not_not] at member
      rw [member.2, zero_mul]
    rw [rest, add_zero] at syndrome
    rw [← syndrome, ← Finset.sum_coe_sort support, ← Equiv.sum_comp support.equivFin.symm]
    refine Finset.sum_congr rfl fun k _ => ?_
    rw [pow_succ', mul_assoc]
  funext i
  by_contra error
  have member : i ∈ support := by simpa [support] using error
  have here := congrFun weighted (support.equivFin ⟨i, member⟩)
  simp only [at_, Equiv.symm_apply_apply, Pi.zero_apply, mul_eq_zero] at here
  exact here.elim error (nonzero i)

/-- Two words with the same `d` syndromes differ in more than `d` symbols or in none. -/
theorem lt_hammingDist [DecidableEq K] {n d : Nat} (b : K) (powers : Function.Injective fun i : Fin n => b ^ i.val)
    (unit : b ≠ 0) {w w' : Fin n → K} (differ : w ≠ w')
    (same : ∀ j < d, (wordPoly w).eval (b ^ (j + 1)) = (wordPoly w').eval (b ^ (j + 1))) : d < hammingDist w w' := by
  by_contra few
  have distinct : Function.Injective fun i : Fin n => b ^ (n - 1 - i.val) := by
    intro i i' equal
    have back := @powers ⟨n - 1 - i.val, by omega⟩ ⟨n - 1 - i'.val, by omega⟩ equal
    simp only [Fin.mk.injEq] at back
    exact Fin.ext (by omega)
  have none : (fun i => w i - w' i) = 0 := by
    refine eq_zero_of_syndromes (d := d) distinct (fun i => pow_ne_zero _ unit) ?_ fun j hj => ?_
    · simpa [hammingDist, sub_ne_zero] using few
    · have syndromes := same j hj
      rw [eval_wordPoly, eval_wordPoly, ← sub_eq_zero, ← Finset.sum_sub_distrib] at syndromes
      rw [← syndromes]
      refine Finset.sum_congr rfl fun i _ => ?_
      rw [sub_mul, ← pow_mul, ← pow_mul, Nat.mul_comm]
  exact differ (funext fun i => sub_eq_zero.mp (congrFun none i))

end ReedSolomon
