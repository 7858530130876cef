import Cc2obp.Dmr.Basic

/-!
# AMBE 49 and 72 bit frames

The 4 by 24 matrix `ambe_fr` is one array of 96 bits, row after row: C0 and C1
carry twelve data bits each under a Golay(23,12) code, C2 and C3 are raw. C1 is
scrambled by a generator seeded with the data of C0.
-/
namespace Cc2obp

abbrev AmbeFrame := Bits 96

def ambeRW : List Nat :=
  [0, 1, 0, 1, 0, 1, 0, 1, 0, 1, 0, 1, 0, 1, 0, 1, 0, 1, 0, 1, 0, 1, 0, 2, 0, 2, 0, 2, 0, 2, 0, 2,
   0, 2, 0, 2]

def ambeRX : List Nat :=
  [23, 10, 22, 9, 21, 8, 20, 7, 19, 6, 18, 5, 17, 4, 16, 3, 15, 2, 14, 1, 13, 0, 12, 10, 11, 9, 10,
   8, 9, 7, 8, 6, 7, 5, 6, 4]

def ambeRY : List Nat :=
  [0, 2, 0, 2, 0, 2, 0, 2, 0, 3, 0, 3, 1, 3, 1, 3, 1, 3, 1, 3, 1, 3, 1, 3, 1, 3, 1, 3, 1, 3, 1, 3,
   1, 3, 1, 3]

def ambeRZ : List Nat :=
  [5, 3, 4, 2, 3, 1, 2, 0, 1, 13, 0, 12, 22, 11, 21, 10, 20, 9, 19, 8, 18, 7, 17, 6, 16, 5, 15, 4,
   14, 3, 13, 2, 12, 1, 11, 0]

/-- Where bit `k` of the interleaved frame sits in the matrix. -/
def ambeSchedule : Vector (Fin 96) 72 := Vector.ofFn fun k =>
  let i := k.val / 2
  if k.val % 2 = 0 then Fin.ofNat 96 (24 * ambeRW.getD i 0 + ambeRX.getD i 0)
  else Fin.ofNat 96 (24 * ambeRY.getD i 0 + ambeRZ.getD i 0)

/-- `pr[i]` before the final division, from the seed `pr[0]`. -/
def ambePr (seed : Nat) : Nat → Nat
  | 0 => seed
  | i + 1 => (173 * ambePr seed i + 13849) % 65536

/-- The seed of the scrambler: the twelve data bits of C0. -/
def ambeSeed (fr : AmbeFrame) : Nat :=
  16 * [23, 22, 21, 20, 19, 18, 17, 16, 15, 14, 13, 12].foldl
    (fun foo i => 2 * foo + (fr.toList.getD i false).toNat) 0

/-- Scramble C1 with the pseudo-random sequence. -/
def demodulate (fr : AmbeFrame) : AmbeFrame :=
  let seed := ambeSeed fr
  Vector.ofFn fun p =>
    if 24 ≤ p.val ∧ p.val ≤ 46 then fr[p] ^^ (ambePr seed (23 - (p - 24)) / 32768 == 1) else fr[p]

/-- `tmp = (tmp << 1) | bit` over the bits, the first one ending on top. -/
def shiftIn (bits : List Bool) : BitVec 32 :=
  bits.foldl (fun tmp b => (tmp <<< 1) ||| (if b then 1#32 else 0#32)) 0#32

/-- Twelve AMBE bits from `start`, the lowest index in the lowest bit. -/
def ambeWord (ambe : Bits 49) (start : Nat) : BitVec 32 :=
  shiftIn ([11, 10, 9, 8, 7, 6, 5, 4, 3, 2, 1, 0].map fun i => ambe.toList.getD (start + i) false)

/-- Build the matrix from 49 raw AMBE bits. -/
def framesFrom49 (ambe : Bits 49) : AmbeFrame :=
  let c0 := dmrGolay2312 (ambeWord ambe 0)
  let c0 := c0 ||| ((if dmrParity c0 then 1#32 else 0#32) <<< 23)
  let c1 := dmrGolay2312 (ambeWord ambe 12)
  Vector.ofFn fun p =>
    if p.val < 24 then c0.getLsbD (23 - p)
    else if p.val < 47 then c1.getLsbD (22 - (p - 24))
    else if h : 48 ≤ p.val ∧ p.val ≤ 58 then ambe[34 - (p.val - 48)]
    else if h : 72 ≤ p.val ∧ p.val ≤ 85 then ambe[48 - (p.val - 72)]
    else false

/-- Where the 49 raw bits sit in the matrix. -/
def ambeDataIdx : Vector (Fin 96) 49 := Vector.ofFn fun n =>
  if n.val < 12 then Fin.ofNat 96 (23 - n)
  else if n.val < 24 then Fin.ofNat 96 (24 + 22 - (n - 12))
  else if n.val < 35 then Fin.ofNat 96 (48 + 10 - (n - 24))
  else Fin.ofNat 96 (72 + 13 - (n - 35))

def eccExtract49 (fr : AmbeFrame) : Bits 49 := gather ambeDataIdx fr

def dmrAmbe49To72 (in49 : Bits 49) : Bits 72 :=
  gather ambeSchedule (demodulate (framesFrom49 in49))

def dmrAmbe72To49 (in72 : Bits 72) : Bits 49 :=
  eccExtract49 (demodulate (scatter ambeSchedule in72 (Vector.replicate 96 false)))

/-! ## Round trip -/

theorem ambeSchedule_nodup : ambeSchedule.toList.Nodup := by decide +kernel

/-- The 72 positions of the matrix that travel on the air. -/
def ambeUsed (p : Fin 96) : Bool := p < 47 || (48 ≤ p && p ≤ 58) || (72 ≤ p && p ≤ 85)

theorem ambeSchedule_covers : ∀ p : Fin 96, ambeUsed p = true → p ∈ ambeSchedule.toList := by
  decide +kernel

theorem ambeDataIdx_used : ∀ n : Fin 49, ambeUsed ambeDataIdx[n] = true := by decide +kernel

theorem ambeDataIdx_val : ∀ n : Fin 49, (ambeDataIdx[n]).val =
    if n.val < 12 then 23 - n.val else if n.val < 24 then 58 - n.val
    else if n.val < 35 then 82 - n.val else 120 - n.val := by
  decide +kernel

theorem ambeSeed_congr (fr fr' : AmbeFrame)
    (same : ∀ i, (h : i < 24) → fr'[i] = fr[i]) : ambeSeed fr' = ambeSeed fr := by
  simp [ambeSeed, same]

theorem ambeSeed_demodulate (fr : AmbeFrame) : ambeSeed (demodulate fr) = ambeSeed fr := by
  apply ambeSeed_congr
  intro i h
  simp [demodulate, show ¬24 ≤ i by omega]

/-- Scrambling twice with the same C0 is the identity, also when the unused positions differ. -/
theorem demodulate_restores (fr fr' : AmbeFrame)
    (same : ∀ p : Fin 96, ambeUsed p = true → fr'[p] = (demodulate fr)[p])
    (p : Fin 96) (used : ambeUsed p = true) : (demodulate fr')[p] = fr[p] := by
  have seed : ambeSeed fr' = ambeSeed fr := by
    rw [← ambeSeed_demodulate fr]
    apply ambeSeed_congr
    intro i h
    exact same ⟨i, by omega⟩ (by simp [ambeUsed, Fin.lt_def]; omega)
  have here := same p used
  simp only [demodulate, seed, Fin.getElem_fin, Vector.getElem_ofFn] at here ⊢
  split
  next c1 => simp [here, c1]
  next other => simpa [other] using here

theorem getLsbD_shiftIn_step (tmp : BitVec 32) (b : Bool) (i : Nat) (h : i < 32) :
    ((tmp <<< 1) ||| (if b then 1#32 else 0#32)).getLsbD i =
      if i = 0 then b else tmp.getLsbD (i - 1) := by
  cases i with
  | zero => cases b <;> simp
  | succ i => cases b <;> simp [h, BitVec.getLsbD_eq_getElem (show i < 32 by omega)]

theorem getLsbD_ambeWord (ambe : Bits 49) (start i : Nat) (hi : i < 12) :
    (ambeWord ambe start).getLsbD i = ambe.toList.getD (start + i) false := by
  simp only [ambeWord, shiftIn, List.map_cons, List.map_nil, List.foldl_cons, List.foldl_nil]
  interval_cases i <;> simp only [getLsbD_shiftIn_step, Nat.reduceLT, Nat.reduceSub, if_true,
    if_false, reduceCtorEq]

/-- The code word carries its data in the low twelve bits. -/
theorem getLsbD_dmrGolay2312 (word : BitVec 32) (i : Nat) (hi : i < 12) :
    (dmrGolay2312 word).getLsbD i = word.getLsbD i := by
  have mask : (0xFFF#32).getLsbD i = true := by
    interval_cases i <;> rfl
  simp [dmrGolay2312, hi, mask]

/-- The parity bit sits above the 23 bits of the code word. -/
theorem getLsbD_withParity (c0 : BitVec 32) (i : Nat) (hi : i < 12) :
    (c0 ||| ((if dmrParity c0 then 1#32 else 0#32) <<< 23)).getLsbD i = c0.getLsbD i := by
  simp [show i < 23 by omega]

theorem framesFrom49_at (ambe : Bits 49) (n : Fin 49) (p : Fin 96)
    (val : p.val = if n.val < 12 then 23 - n.val else if n.val < 24 then 58 - n.val
      else if n.val < 35 then 82 - n.val else 120 - n.val) :
    (framesFrom49 ambe)[p] = ambe[n] := by
  have bound := n.isLt
  simp only [framesFrom49, Fin.getElem_fin, Vector.getElem_ofFn]
  -- the four rows of the matrix, as `ambeDataIdx` walks them
  split at val
  next c0 =>
    have bit : 23 - p.val = n.val := by omega
    have row : p.val < 24 := by omega
    simp only [row, if_true, bit, getLsbD_withParity _ _ c0, getLsbD_dmrGolay2312 _ _ c0,
      getLsbD_ambeWord _ _ _ c0]
    simp
  next =>
    split at val
    next c1 =>
      have bit : 22 - (p.val - 24) = n.val - 12 := by omega
      have small : n.val - 12 < 12 := by omega
      have back : 12 + (n.val - 12) = n.val := by omega
      have rows : ¬p.val < 24 ∧ p.val < 47 := by omega
      simp only [rows.1, rows.2, if_true, if_false, bit, getLsbD_dmrGolay2312 _ _ small,
        getLsbD_ambeWord _ _ _ small, back]
      simp
    next =>
      split at val
      next c2 =>
        have bit : 34 - (p.val - 48) = n.val := by omega
        have rows : ¬p.val < 24 ∧ ¬p.val < 47 ∧ (48 ≤ p.val ∧ p.val ≤ 58) := by omega
        simp [rows, bit]
      next c3 =>
        have bit : 48 - (p.val - 72) = n.val := by omega
        have rows : ¬p.val < 24 ∧ ¬p.val < 47 ∧ ¬(48 ≤ p.val ∧ p.val ≤ 58) ∧ (72 ≤ p.val ∧ p.val ≤ 85) := by omega
        simp only [rows.1, rows.2.1, rows.2.2.1, rows.2.2.2, if_false, dif_neg, dif_pos, bit,
          not_false_eq_true, and_self]

/-- Decoding what was encoded returns the 49 bits. -/
theorem ambe72To49_49To72 (ambe : Bits 49) : dmrAmbe72To49 (dmrAmbe49To72 ambe) = ambe := by
  ext n h
  have used := ambeDataIdx_used ⟨n, h⟩
  simp only [dmrAmbe72To49, dmrAmbe49To72, eccExtract49, getElem_gather]
  have back := demodulate_restores (framesFrom49 ambe)
    (scatter ambeSchedule (gather ambeSchedule (demodulate (framesFrom49 ambe)))
      (Vector.replicate 96 false))
    (fun p hp => scatter_gather _ _ _ ambeSchedule_nodup _ _ (ambeSchedule_covers p hp))
    (ambeDataIdx[n]) used
  simpa using back.trans (framesFrom49_at ambe ⟨n, h⟩ _ (ambeDataIdx_val _))

end Cc2obp
