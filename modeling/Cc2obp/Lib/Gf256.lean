import Mathlib.Algebra.BigOperators.Group.Finset.Basic
import Mathlib.Algebra.Field.Basic
import Mathlib.Data.Fintype.Basic
import Mathlib.GroupTheory.OrderOfElement

/-!
# The field of 256 elements

Bytes as polynomials over the field of two elements modulo `x⁸ + x⁴ + x³ + x² + 1`,
the bit of weight `2 ^ i` the coefficient of `xⁱ`. The laws of the product follow
from its linearity and from those of the powers of `x` below the eighth.
-/

@[ext] structure Gf256 where
  bits : BitVec 8
deriving DecidableEq

namespace Gf256

instance : Zero Gf256 := ⟨⟨0#8⟩⟩
instance : One Gf256 := ⟨⟨1#8⟩⟩
instance : Add Gf256 := ⟨fun a b => ⟨a.bits ^^^ b.bits⟩⟩
instance : Neg Gf256 := ⟨id⟩

@[simp] theorem bits_zero : (0 : Gf256).bits = 0#8 := rfl
@[simp] theorem bits_one : (1 : Gf256).bits = 1#8 := rfl
@[simp] theorem bits_add (a b : Gf256) : (a + b).bits = a.bits ^^^ b.bits := rfl
@[simp] theorem bits_neg (a : Gf256) : (-a).bits = a.bits := rfl

instance : AddCommGroup Gf256 where
  add_assoc a b c := by ext1; simp [BitVec.xor_assoc]
  zero_add a := by ext1; simp
  add_zero a := by ext1; simp
  add_comm a b := by ext1; simp [BitVec.xor_comm]
  neg_add_cancel a := by ext1; simp
  nsmul := nsmulRec
  zsmul := zsmulRec

/-- `x` times an element: a shift, reduced by `x⁸ = x⁴ + x³ + x² + 1`. -/
def timesX (a : Gf256) : Gf256 := ⟨(a.bits <<< 1) ^^^ (if a.bits.msb then 0x1D#8 else 0#8)⟩

theorem timesX_add (a b : Gf256) : timesX (a + b) = timesX a + timesX b := by
  have mask : ∀ p q : Bool, (if p ^^ q then 0x1D#8 else 0#8) =
      (if p then 0x1D#8 else 0#8) ^^^ (if q then 0x1D#8 else 0#8) := by
    decide
  ext1
  simp only [timesX, bits_add, BitVec.shiftLeft_xor_distrib, BitVec.msb_xor, mask]
  ac_rfl

theorem timesX_zero : timesX 0 = 0 := by decide

/-- One round of Horner's rule over the bits of `b`. -/
def mulRound (a b acc : Gf256) (i : Nat) : Gf256 := timesX acc + if b.bits.getLsbD i then a else 0

def mul (a b : Gf256) : Gf256 := [7, 6, 5, 4, 3, 2, 1, 0].foldl (mulRound a b) 0

instance : Mul Gf256 := ⟨mul⟩

theorem mul_def (a b : Gf256) : a * b = [7, 6, 5, 4, 3, 2, 1, 0].foldl (mulRound a b) 0 := rfl

theorem foldl_mulRound_left (a b c acc acc' : Gf256) (rounds : List Nat) :
    rounds.foldl (mulRound a (b + c)) (acc + acc') =
      rounds.foldl (mulRound a b) acc + rounds.foldl (mulRound a c) acc' := by
  induction rounds generalizing acc acc' with
  | nil => rfl
  | cons i rest ih =>
    have double : a + a = 0 := by
      ext1
      simp
    have split : (if (b + c).bits.getLsbD i then a else 0) =
        (if b.bits.getLsbD i then a else 0) + if c.bits.getLsbD i then a else 0 := by
      rw [bits_add, BitVec.getLsbD_xor]
      cases b.bits.getLsbD i <;> cases c.bits.getLsbD i <;> simp [double]
    rw [List.foldl_cons, List.foldl_cons, List.foldl_cons, ← ih]
    congr 1
    rw [mulRound, mulRound, mulRound, split, timesX_add, add_add_add_comm]

theorem foldl_mulRound_right (a b c acc acc' : Gf256) (rounds : List Nat) :
    rounds.foldl (mulRound (a + b) c) (acc + acc') =
      rounds.foldl (mulRound a c) acc + rounds.foldl (mulRound b c) acc' := by
  induction rounds generalizing acc acc' with
  | nil => rfl
  | cons i rest ih =>
    have split : (if c.bits.getLsbD i then a + b else 0) =
        (if c.bits.getLsbD i then a else 0) + if c.bits.getLsbD i then b else 0 := by
      cases c.bits.getLsbD i <;> simp
    rw [List.foldl_cons, List.foldl_cons, List.foldl_cons, ← ih]
    congr 1
    rw [mulRound, mulRound, mulRound, split, timesX_add, add_add_add_comm]

theorem left_distrib (a b c : Gf256) : a * (b + c) = a * b + a * c := by
  have sums := foldl_mulRound_left a b c 0 0 [7, 6, 5, 4, 3, 2, 1, 0]
  rwa [add_zero] at sums

theorem right_distrib (a b c : Gf256) : (a + b) * c = a * c + b * c := by
  have sums := foldl_mulRound_right a b c 0 0 [7, 6, 5, 4, 3, 2, 1, 0]
  rwa [add_zero] at sums

/-- The powers of `x` below the eighth. -/
def basis (i : Fin 8) : Gf256 := ⟨1#8 <<< i.val⟩

theorem eq_sum_basis : ∀ b : BitVec 8, (⟨b⟩ : Gf256) = ∑ i : Fin 8, if b.getLsbD i then basis i else 0 := by
  decide +kernel

/-- What holds of the powers of `x` and of sums holds of every element. -/
theorem basis_induction {P : Gf256 → Prop} (zero : P 0) (add : ∀ a b, P a → P b → P (a + b)) (power : ∀ i, P (basis i))
    (a : Gf256) : P a := by
  have whole := eq_sum_basis a.bits
  have sums : ∀ s : Finset (Fin 8), P (∑ i ∈ s, if a.bits.getLsbD i then basis i else 0) := by
    intro s
    induction s using Finset.induction_on with
    | empty => exact zero
    | insert i s fresh ih =>
      rw [Finset.sum_insert fresh]
      refine add _ _ ?_ ih
      split
      · exact power i
      · exact zero
  rw [show a = ⟨a.bits⟩ from rfl, whole]
  exact sums Finset.univ

theorem zero_mul (a : Gf256) : 0 * a = 0 := by
  have twice := right_distrib 0 0 a
  rw [add_zero] at twice
  exact left_eq_add.mp twice

theorem mul_zero (a : Gf256) : a * 0 = 0 := by
  have twice := left_distrib a 0 0
  rw [add_zero] at twice
  exact left_eq_add.mp twice

theorem basis_mul_comm : ∀ i j, basis i * basis j = basis j * basis i := by decide +kernel

theorem mul_comm (a b : Gf256) : a * b = b * a := by
  induction a using basis_induction with
  | zero => rw [zero_mul, mul_zero]
  | add a a' ih ih' => rw [right_distrib, left_distrib, ih, ih']
  | power i =>
    induction b using basis_induction with
    | zero => rw [zero_mul, mul_zero]
    | add b b' ih ih' => rw [right_distrib, left_distrib, ih, ih']
    | power j => exact basis_mul_comm i j

theorem mul_one (a : Gf256) : a * 1 = a := by
  induction a using basis_induction with
  | zero => exact zero_mul 1
  | add a a' ih ih' => rw [right_distrib, ih, ih']
  | power i => revert i; decide +kernel

theorem basis_mul_timesX : ∀ i j, basis i * timesX (basis j) = timesX (basis i * basis j) := by decide +kernel

theorem mul_timesX (a b : Gf256) : a * timesX b = timesX (a * b) := by
  induction b using basis_induction with
  | zero => rw [timesX_zero, mul_zero, timesX_zero]
  | add b b' ih ih' => rw [timesX_add, left_distrib, ih, ih', left_distrib, timesX_add]
  | power j =>
    induction a using basis_induction with
    | zero => rw [zero_mul, zero_mul, timesX_zero]
    | add a a' ih ih' => rw [right_distrib, ih, ih', right_distrib, timesX_add]
    | power i => exact basis_mul_timesX i j

theorem mul_iterate_timesX (k : Nat) (a b : Gf256) : a * timesX^[k] b = timesX^[k] (a * b) := by
  induction k generalizing b with
  | zero => rfl
  | succ k ih => rw [Function.iterate_succ_apply, ih, mul_timesX, Function.iterate_succ_apply]

theorem basis_eq : ∀ i, basis i = timesX^[i.val] 1 := by decide +kernel

theorem mul_assoc (a b c : Gf256) : a * b * c = a * (b * c) := by
  induction c using basis_induction with
  | zero => simp only [mul_zero]
  | add c c' ih ih' => simp only [left_distrib, ih, ih']
  | power k => rw [basis_eq, mul_iterate_timesX, mul_iterate_timesX, mul_iterate_timesX, mul_one, mul_one]

instance : CommRing Gf256 where
  left_distrib := left_distrib
  right_distrib := right_distrib
  zero_mul := zero_mul
  mul_zero := mul_zero
  mul_assoc := mul_assoc
  one_mul a := (mul_comm 1 a).trans (mul_one a)
  mul_one := mul_one
  neg_add_cancel := neg_add_cancel
  zsmul := zsmulRec
  mul_comm := mul_comm

/-! ## The root of the modulus -/

/-- The element `x`. -/
def alpha : Gf256 := ⟨2#8⟩

theorem mul_alpha (a : Gf256) : a * alpha = timesX a := by
  induction a using basis_induction with
  | zero => rfl
  | add a b ih ih' => rw [right_distrib, ih, ih', timesX_add]
  | power i => revert i; decide +kernel

theorem alpha_root : alpha ^ 8 + alpha ^ 4 + alpha ^ 3 + alpha ^ 2 + 1 = 0 := by decide +kernel

theorem orderOf_alpha : orderOf alpha = 255 := by
  have power15 : alpha ^ 15 = ⟨0x26#8⟩ := by decide +kernel
  have power17 : alpha ^ 17 = ⟨0x98#8⟩ := by decide +kernel
  have power85 : alpha ^ 85 ≠ 1 := by
    rw [show 85 = 17 * 5 from rfl, pow_mul, power17]
    decide +kernel
  have power51 : alpha ^ 51 ≠ 1 := by
    rw [show 51 = 17 * 3 from rfl, pow_mul, power17]
    decide +kernel
  refine orderOf_eq_of_pow_and_pow_div_prime (by decide) ?_ fun p prime divides => ?_
  · rw [show 255 = 15 * 17 from rfl, pow_mul, power15]
    decide +kernel
  · rw [show 255 = 3 * (5 * 17) from rfl, prime.dvd_mul, prime.dvd_mul,
      Nat.prime_dvd_prime_iff_eq prime (by decide), Nat.prime_dvd_prime_iff_eq prime (by decide),
      Nat.prime_dvd_prime_iff_eq prime (by decide)] at divides
    rcases divides with rfl | rfl | rfl
    · exact power85
    · exact power51
    · rw [show 255 / 17 = 15 from rfl, power15]
      decide

instance : Fintype Gf256 :=
  Fintype.ofEquiv (Fin 256) ⟨fun i => ⟨BitVec.ofFin i⟩, fun a => a.bits.toFin, fun _ => rfl, fun _ => rfl⟩

theorem card_eq : Fintype.card Gf256 = 256 := by
  rw [Fintype.ofEquiv_card, Fintype.card_fin]

theorem pow_alpha_pow (k : Nat) : (alpha ^ k) ^ 255 = 1 := by
  rw [← pow_mul, Nat.mul_comm, pow_mul, ← orderOf_alpha, pow_orderOf_eq_one, one_pow]

theorem pow_alpha_ne_zero (k : Nat) : alpha ^ k ≠ 0 := by
  intro zero
  have one := pow_alpha_pow k
  rw [zero, zero_pow (by decide)] at one
  exact absurd one (by decide)

/-- The powers of `x` are all there is besides zero. -/
theorem eq_pow_alpha (a : Gf256) (nonzero : a ≠ 0) : ∃ k < 255, alpha ^ k = a := by
  let powers := (Finset.range 255).image fun k => alpha ^ k
  have distinct : Set.InjOn (fun k => alpha ^ k) (Finset.range 255 : Finset Nat) := by
    intro k hk k' hk' same
    simp only [Finset.coe_range, Set.mem_Iio] at hk hk'
    exact pow_injOn_Iio_orderOf (by simpa [orderOf_alpha] using hk) (by simpa [orderOf_alpha] using hk') same
  have count : powers.card = 255 := by
    rw [Finset.card_image_of_injOn distinct, Finset.card_range]
  have inside : powers ⊆ Finset.univ.erase 0 := by
    intro b member
    obtain ⟨k, -, rfl⟩ := Finset.mem_image.mp member
    exact Finset.mem_erase.mpr ⟨pow_alpha_ne_zero k, Finset.mem_univ _⟩
  have all : powers = Finset.univ.erase 0 := by
    refine Finset.eq_of_subset_of_card_le inside ?_
    rw [count, Finset.card_erase_of_mem (Finset.mem_univ 0), Finset.card_univ, card_eq]
  have member : a ∈ powers := all ▸ Finset.mem_erase.mpr ⟨nonzero, Finset.mem_univ a⟩
  simpa [powers] using member

instance : Field Gf256 where
  inv a := a ^ 254
  exists_pair_ne := ⟨0, 1, by decide⟩
  mul_inv_cancel a nonzero := by
    obtain ⟨k, -, rfl⟩ := eq_pow_alpha a nonzero
    rw [← pow_succ', pow_alpha_pow]
  inv_zero := zero_pow (by decide)
  nnqsmul := _
  nnqsmul_def := fun _ _ => rfl
  qsmul := _
  qsmul_def := fun _ _ => rfl

end Gf256
