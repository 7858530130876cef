import Cc2obp.Dmr.Rs129
import Cc2obp.Lib.Gf256
import Cc2obp.Lib.ReedSolomon

/-!
# The Reed-Solomon bytes of an LC

The two tables multiply in the field of 256 elements; the feedback registers hold
the message times `x³` modulo the generator, whose roots are the first three
powers of `alpha`.
-/
namespace Cc2obp

open Gf256 ReedSolomon

/-! ## The tables -/

theorem expTable_chain : (expTable.take 510).IsChain fun a b => (⟨b⟩ : Gf256) = timesX ⟨a⟩ := by decide +kernel

theorem expTable_eq (k : Nat) (h : k < 510) : (⟨expTable.getD k 0⟩ : Gf256) = alpha ^ k := by
  have length : (expTable.take 510).length = 510 := by decide +kernel
  have entry : ∀ j, j < 510 → (expTable.take 510)[j]? = expTable[j]? := fun j hj => List.getElem?_take_of_lt hj
  induction k with
  | zero => rfl
  | succ k ih =>
    have next := List.isChain_iff_getElem.mp expTable_chain k (by omega)
    rw [pow_succ, mul_alpha, ← ih (by omega), List.getD_eq_getElem?_getD, List.getD_eq_getElem?_getD, ← entry _ h,
      ← entry k (by omega), List.getElem?_eq_getElem (by omega), List.getElem?_eq_getElem (by omega)]
    exact next

theorem expTable_logTable : ∀ e ∈ logTable.zipIdx, e.2 ≠ 0 →
    expTable.getD e.1.toNat 0 = BitVec.ofNat 8 e.2 ∧ e.1.toNat < 255 := by
  decide +kernel

/-- The logarithm of a byte is below 255 and leads back to it. -/
theorem logTable_entry (b : Byte) (nonzero : b ≠ 0) : expTable.getD (logTable.getD b.toNat 0).toNat 0 = b ∧
    (logTable.getD b.toNat 0).toNat < 255 := by
  have length : logTable.length = 256 := by decide +kernel
  have inside : b.toNat < logTable.length := by rw [length]; exact b.isLt
  have index : b.toNat ≠ 0 := fun zero => nonzero (BitVec.eq_of_toNat_eq zero)
  have entry := expTable_logTable (logTable[b.toNat], b.toNat)
    (List.mem_zipIdx_iff_getElem?.mpr (List.getElem?_eq_getElem inside)) index
  have read : logTable.getD b.toNat 0 = logTable[b.toNat] := by
    rw [List.getD_eq_getElem?_getD, List.getElem?_eq_getElem inside, Option.getD_some]
  rw [BitVec.ofNat_toNat, BitVec.setWidth_eq] at entry
  rw [read]
  exact entry

theorem pow_logTable (b : Byte) (nonzero : b ≠ 0) : alpha ^ (logTable.getD b.toNat 0).toNat = ⟨b⟩ := by
  obtain ⟨entry, small⟩ := logTable_entry b nonzero
  rw [← expTable_eq _ (by omega), entry]

theorem logMult_eq (a b : Byte) : (⟨logMult a b⟩ : Gf256) = ⟨a⟩ * ⟨b⟩ := by
  unfold logMult
  split
  next zero =>
    rcases zero with rfl | rfl
    · exact (zero_mul _).symm
    · exact (mul_zero _).symm
  next nonzero =>
    obtain ⟨ha, hb⟩ := not_or.mp nonzero
    have sa := (logTable_entry a ha).2
    have sb := (logTable_entry b hb).2
    rw [expTable_eq _ (by omega), pow_add, pow_logTable a ha, pow_logTable b hb]

/-! ## The registers -/

/-- The registers as a polynomial, at `x`. -/
def registers (x : Gf256) (parity : Bytes 3) : Gf256 := ∑ j : Fin 3, ⟨parity.get j⟩ * x ^ j.val

/-- The generator vanishes at `x`. -/
def GeneratorRoot (x : Gf256) : Prop := x ^ 3 = ∑ j : Fin 3, ⟨rs129Poly.get j⟩ * x ^ j.val

theorem generatorRoot_alpha : ∀ j : Fin 3, GeneratorRoot (alpha ^ (j.val + 1)) := by
  unfold GeneratorRoot
  decide +kernel

theorem mk_xor (a b : Byte) : (⟨a ^^^ b⟩ : Gf256) = ⟨a⟩ + ⟨b⟩ := rfl

theorem registers_feed {x : Gf256} (root : GeneratorRoot x) (parity : Bytes 3) (msg : Byte) :
    registers x (rs129Feed parity msg) = registers x parity * x + ⟨msg⟩ * x ^ 3 := by
  have two : (⟨(rs129Feed parity msg)[2]⟩ : Gf256) = ⟨parity[1]⟩ + ⟨rs129Poly[2]⟩ * (⟨msg⟩ + ⟨parity[2]⟩) := by
    rw [← mk_xor, ← logMult_eq]
    rfl
  have one : (⟨(rs129Feed parity msg)[1]⟩ : Gf256) = ⟨parity[0]⟩ + ⟨rs129Poly[1]⟩ * (⟨msg⟩ + ⟨parity[2]⟩) := by
    rw [← mk_xor, ← logMult_eq]
    rfl
  have zero : (⟨(rs129Feed parity msg)[0]⟩ : Gf256) = ⟨rs129Poly[0]⟩ * (⟨msg⟩ + ⟨parity[2]⟩) := by
    rw [← mk_xor, ← logMult_eq]
    rfl
  -- what leaves the last register comes back as a multiple of the generator
  have terms : ∀ p : Bytes 3, registers x p = ⟨p[0]⟩ * x ^ 0 + ⟨p[1]⟩ * x ^ 1 + ⟨p[2]⟩ * x ^ 2 :=
    fun _ => Fin.sum_univ_three _
  have generator : x ^ 3 = ⟨rs129Poly[0]⟩ * x ^ 0 + ⟨rs129Poly[1]⟩ * x ^ 1 + ⟨rs129Poly[2]⟩ * x ^ 2 := root.trans (terms rs129Poly)
  have fed : (⟨msg⟩ + ⟨parity[2]⟩ : Gf256) * x ^ 3 =
      (⟨msg⟩ + ⟨parity[2]⟩) * (⟨rs129Poly[2]⟩ * x ^ 2 + ⟨rs129Poly[1]⟩ * x + ⟨rs129Poly[0]⟩) := by
    rw [generator]
    ring
  calc registers x (rs129Feed parity msg)
      = (⟨msg⟩ + ⟨parity[2]⟩) * (⟨rs129Poly[2]⟩ * x ^ 2 + ⟨rs129Poly[1]⟩ * x + ⟨rs129Poly[0]⟩) +
          (⟨parity[1]⟩ * x ^ 2 + ⟨parity[0]⟩ * x) := by
        rw [terms, two, one, zero]
        ring
    _ = registers x parity * x + ⟨msg⟩ * x ^ 3 := by
        rw [← fed, terms]
        ring

theorem registers_message {x : Gf256} (root : GeneratorRoot x) (msg : List Byte) :
    registers x (msg.foldl rs129Feed #v[0, 0, 0]) = horner x (msg.map Gf256.mk) * x ^ 3 := by
  induction msg using List.reverseRecOn with
  | nil =>
    have zero : registers x #v[0, 0, 0] = ∑ j : Fin 3, 0 * x ^ j.val := Finset.sum_congr rfl fun j _ => by
      fin_cases j <;> rfl
    rw [List.foldl_nil, zero]
    simp [horner]
  | append_singleton msg b ih =>
    rw [List.foldl_append, List.foldl_cons, List.foldl_nil, registers_feed root, ih, List.map_append, List.map_singleton,
      horner_append_singleton]
    ring

/-! ## The code -/

/-- A word of bytes as symbols of the field. -/
def symbols (word : Bytes 12) : Fin 12 → Gf256 := fun i => ⟨word[i]⟩

theorem wordPoly_rs129 (msg : Bytes 9) {x : Gf256} (root : GeneratorRoot x) :
    (wordPoly (symbols (cat msg (dmrRs129Encode msg)))).eval x = 0 := by
  let parity := msg.toList.foldl rs129Feed #v[0, 0, 0]
  have fold : msg.foldl rs129Feed #v[0, 0, 0] = parity := by
    simp [parity]
  have word : List.ofFn (symbols (cat msg (dmrRs129Encode msg))) =
      msg.toList.map Gf256.mk ++ [⟨parity[2]⟩] ++ [⟨parity[1]⟩] ++ [⟨parity[0]⟩] := by
    rw [← fold]
    refine List.ext_getElem (by simp) fun k h h' => ?_
    have inside : k < 12 := by simpa using h
    rw [List.getElem_ofFn]
    obtain message | rfl | rfl | rfl : k < 9 ∨ k = 9 ∨ k = 10 ∨ k = 11 := by omega
    · simp [symbols, message]
    all_goals
      simp [symbols, dmrRs129Encode, getElem_cat]
  rw [eval_wordPoly_eq_horner, word, horner_append_singleton, horner_append_singleton, horner_append_singleton]
  have message := registers_message root msg.toList
  have double : ∀ a : Gf256, a + a = 0 := by
    intro a
    ext1
    simp
  have terms : registers x parity = ⟨parity[0]⟩ * x ^ 0 + ⟨parity[1]⟩ * x ^ 1 + ⟨parity[2]⟩ * x ^ 2 := Fin.sum_univ_three _
  calc ((horner x (msg.toList.map Gf256.mk) * x + ⟨parity[2]⟩) * x + ⟨parity[1]⟩) * x + ⟨parity[0]⟩
      = horner x (msg.toList.map Gf256.mk) * x ^ 3 + registers x parity := by
        rw [terms]
        ring
    _ = 0 := by rw [← message, double]

theorem powers_alpha (n : Nat) (h : n ≤ 255) : Function.Injective fun i : Fin n => alpha ^ i.val := by
  intro i i' same
  have order := orderOf_alpha
  exact Fin.ext (pow_injOn_Iio_orderOf (by simp; omega) (by simp; omega) same)

/-- Two messages with their parity bytes differ in four places at least. -/
theorem hammingDist_rs129 {msg msg' : Bytes 9} (differ : msg ≠ msg') :
    4 ≤ hammingDist (symbols (cat msg (dmrRs129Encode msg))) (symbols (cat msg' (dmrRs129Encode msg'))) := by
  refine lt_hammingDist alpha (powers_alpha 12 (by omega)) (by decide) ?_ fun j hj => ?_
  · intro same
    refine differ (Vector.ext fun i h => ?_)
    have symbol := congrFun same ⟨i, by omega⟩
    simpa [symbols, h] using symbol
  · have root := generatorRoot_alpha ⟨j, hj⟩
    rw [wordPoly_rs129 msg root, wordPoly_rs129 msg' root]

/-- The mask of a byte of the word: none on the LC. -/
def lcMask (isTerm : Bool) (i : Fin 12) : Byte :=
  if i.val < 9 then 0 else if isTerm then rs129EndMask else rs129StartMask

theorem symbols_unmasked (lc : Bytes 9) (isTerm : Bool) : symbols (cat lc (dmrRs129Encode lc)) =
    fun i : Fin 12 => ⟨(cat lc (dmrRs129LcEncode lc isTerm) : Bytes 12)[i] ^^^ lcMask isTerm i⟩ := by
  funext i
  by_cases message : i.val < 9
  · simp [symbols, lcMask, message]
  · simp [symbols, lcMask, message, getElem_cat, dmrRs129LcEncode, BitVec.xor_assoc]

/-- The parity bytes complete a message to a word that vanishes at the first three powers of `alpha`, so
that the words of two LCs, header or terminator, differ in four places at least. -/
theorem rs129_distance : alpha ^ 8 + alpha ^ 4 + alpha ^ 3 + alpha ^ 2 + 1 = 0 ∧
    (∀ (msg : Bytes 9) (j : Nat), 1 ≤ j → j ≤ 3 →
      (wordPoly (symbols (cat msg (dmrRs129Encode msg)))).eval (alpha ^ j) = 0) ∧
    ∀ (lc lc' : Bytes 9) (isTerm : Bool), lc ≠ lc' →
      4 ≤ hammingDist (fun i : Fin 12 => (cat lc (dmrRs129LcEncode lc isTerm) : Bytes 12)[i])
        fun i : Fin 12 => (cat lc' (dmrRs129LcEncode lc' isTerm) : Bytes 12)[i] := by
  refine ⟨alpha_root, ?_, ?_⟩
  · intro msg j low high
    have root := generatorRoot_alpha ⟨j - 1, by omega⟩
    simp only [Nat.sub_add_cancel low] at root
    exact wordPoly_rs129 msg root
  · intro lc lc' isTerm differ
    have apart := hammingDist_rs129 differ
    rw [symbols_unmasked lc isTerm, symbols_unmasked lc' isTerm] at apart
    refine apart.trans_eq (hammingDist_comp (fun i (b : Byte) => (⟨b ^^^ lcMask isTerm i⟩ : Gf256)) fun i b b' same => ?_)
    simpa using congrArg Gf256.bits same

/-- A group call from 1234 and one from 1235 to the same group. -/
theorem rs129_distance_calls :
    let lc : Bytes 9 := #v[0, 0, 0, 0, 0, 9, 0, 4, 0xD2]
    let lc' : Bytes 9 := #v[0, 0, 0, 0, 0, 9, 0, 4, 0xD3]
    (wordPoly (symbols (cat lc (dmrRs129Encode lc)))).eval (alpha ^ 3) = 0 ∧
      4 ≤ hammingDist (fun i : Fin 12 => (cat lc (dmrRs129LcEncode lc true) : Bytes 12)[i])
        fun i : Fin 12 => (cat lc' (dmrRs129LcEncode lc' true) : Bytes 12)[i] := by
  intro lc lc'
  have differ : lc ≠ lc' := by decide
  exact ⟨rs129_distance.2.1 lc 3 (by decide) (by decide), rs129_distance.2.2 lc lc' true differ⟩

end Cc2obp
