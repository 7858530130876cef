import Cc2obp.Dmr.Ambe
import Mathlib.Data.List.Induction

/-!
# Regenerated AMBE frames

A 72-bit frame that was decoded to 49 bits and encoded again has its data bits
and fresh check bits. It is the frame one started from exactly when C0 and the
unscrambled C1 were code words already.
-/
namespace Cc2obp

/-- The matrix of a received frame, C1 unscrambled. -/
def receivedFrame (in72 : Bits 72) : AmbeFrame :=
  demodulate (scatter ambeSchedule in72 (Vector.replicate 96 false))

/-- C0 as a word, column 23 in the lowest bit. -/
def c0Word (fr : AmbeFrame) : BitVec 32 := shiftIn (fr.toList.take 24)

/-- C1 as a word, column 22 in the lowest bit. -/
def c1Word (fr : AmbeFrame) : BitVec 32 := shiftIn ((fr.toList.drop 24).take 23)

/-- The Golay word of twelve data bits with its even parity on top. -/
def golayWithParity (word : BitVec 32) : BitVec 32 :=
  dmrGolay2312 word ||| ((if dmrParity (dmrGolay2312 word) then 1#32 else 0#32) <<< 23)

/-- C0 is the Golay word of its data bits plus parity, C1 the Golay word of its data bits. -/
def IsCodeFrame (in72 : Bits 72) : Prop :=
  c0Word (receivedFrame in72) = golayWithParity (c0Word (receivedFrame in72)) ∧
    c1Word (receivedFrame in72) = dmrGolay2312 (c1Word (receivedFrame in72))

/-! ## Words of shifted-in bits -/

theorem getLsbD_shiftIn (bits : List Bool) (i : Nat) (h : i < 32) :
    (shiftIn bits).getLsbD i = bits.reverse.getD i false := by
  induction bits using List.reverseRecOn generalizing i with
  | nil => simp [shiftIn]
  | append_singleton bits b ih =>
    rw [shiftIn, List.foldl_append, List.foldl_cons, List.foldl_nil, getLsbD_shiftIn_step _ _ _ h]
    cases i with
    | zero => simp
    | succ i =>
      rw [if_neg (Nat.succ_ne_zero i), Nat.add_sub_cancel]
      rw [show (List.foldl _ 0#32 bits).getLsbD i = _ from ih i (by omega)]
      simp

theorem getLsbD_c0Word (fr : AmbeFrame) (i : Nat) (h : i < 24) : (c0Word fr).getLsbD i = fr[23 - i] := by
  rw [c0Word, getLsbD_shiftIn _ _ (by omega)]
  simp [h]

theorem getLsbD_c1Word (fr : AmbeFrame) (i : Nat) (h : i < 23) : (c1Word fr).getLsbD i = fr[46 - i] := by
  rw [c1Word, getLsbD_shiftIn _ _ (by omega)]
  have column : 24 + (22 - i) = 46 - i := by omega
  simp [h, column]

theorem c0Word_high (fr : AmbeFrame) (i : Nat) (h : 24 ≤ i) : (c0Word fr).getLsbD i = false := by
  by_cases inside : i < 32
  · rw [c0Word, getLsbD_shiftIn _ _ inside]
    simp [h]
  · exact BitVec.getLsbD_of_ge _ _ (by omega)

theorem c1Word_high (fr : AmbeFrame) (i : Nat) (h : 23 ≤ i) : (c1Word fr).getLsbD i = false := by
  by_cases inside : i < 32
  · rw [c1Word, getLsbD_shiftIn _ _ inside]
    simp [h]
  · exact BitVec.getLsbD_of_ge _ _ (by omega)

/-! ## Golay words -/

theorem golayRound_high (cw : BitVec 32) (high : ∀ i, 12 ≤ i → cw.getLsbD i = false) (i : Nat) (h : 11 ≤ i) :
    (golayRound cw).getLsbD i = false := by
  have poly : ∀ j : Nat, 12 ≤ j → (0xAE3#32).getLsbD j = false := by
    intro j hj
    by_cases inside : j < 32
    · interval_cases j <;> rfl
    · exact BitVec.getLsbD_of_ge _ _ (by omega)
  rw [golayRound, BitVec.getLsbD_ushiftRight]
  split
  · rw [BitVec.getLsbD_xor, high _ (by omega), poly _ (by omega)]
    rfl
  · exact high _ (by omega)

theorem golayRounds_high (n : Nat) (cw : BitVec 32) (high : ∀ i, 12 ≤ i → cw.getLsbD i = false) (i : Nat) (h : 11 ≤ i) :
    (Nat.iterate golayRound (n + 1) cw).getLsbD i = false := by
  induction n generalizing cw with
  | zero => exact golayRound_high cw high i h
  | succ n ih => exact ih (golayRound cw) fun j hj => golayRound_high cw high j (by omega)

theorem dmrGolay2312_high (word : BitVec 32) (i : Nat) (h : 23 ≤ i) : (dmrGolay2312 word).getLsbD i = false := by
  have mask : ∀ j : Nat, 12 ≤ j → (0xFFF#32).getLsbD j = false := by
    intro j hj
    by_cases inside : j < 32
    · interval_cases j <;> rfl
    · exact BitVec.getLsbD_of_ge _ _ (by omega)
  have data : ∀ j, 12 ≤ j → (word &&& 0xFFF#32).getLsbD j = false := by
    intro j hj
    rw [BitVec.getLsbD_and, mask j hj, Bool.and_false]
  rw [dmrGolay2312, BitVec.getLsbD_or, data i (by omega), Bool.or_false, BitVec.getLsbD_shiftLeft,
    golayRounds_high 11 _ data _ (by omega), Bool.and_false]

theorem golayWithParity_high (word : BitVec 32) (i : Nat) (h : 24 ≤ i) : (golayWithParity word).getLsbD i = false := by
  have parity : (((if dmrParity (dmrGolay2312 word) then 1#32 else 0#32) <<< 23 : BitVec 32)).getLsbD i = false := by
    rw [BitVec.getLsbD_shiftLeft]
    split
    · simp
      omega
    · simp
  rw [golayWithParity, BitVec.getLsbD_or, dmrGolay2312_high word i (by omega), parity]
  rfl

/-- Only the twelve data bits count. -/
theorem dmrGolay2312_congr {word word' : BitVec 32} (same : ∀ i, i < 12 → word.getLsbD i = word'.getLsbD i) :
    dmrGolay2312 word = dmrGolay2312 word' := by
  have data : word &&& 0xFFF#32 = word' &&& 0xFFF#32 := by
    apply BitVec.eq_of_getLsbD_eq
    intro i h
    rw [BitVec.getLsbD_and, BitVec.getLsbD_and]
    by_cases low : i < 12
    · rw [same i low]
    · have mask : (0xFFF#32).getLsbD i = false := by
        interval_cases i <;> rfl
      rw [mask, Bool.and_false, Bool.and_false]
  rw [dmrGolay2312, dmrGolay2312, data]

/-! ## Regeneration -/

theorem ambeSchedule_used : ∀ j : Fin 72, ambeUsed ambeSchedule[j] = true := by decide +kernel

section
variable (fr : AmbeFrame)

/-- The data bits of the two words are the first and the second dozen of the 49 bits. -/
theorem ambeWord_c0 (i : Nat) (h : i < 12) : (ambeWord (eccExtract49 fr) 0).getLsbD i = (c0Word fr).getLsbD i := by
  have val := ambeDataIdx_val ⟨i, by omega⟩
  simp only [h, if_true, Fin.getElem_fin] at val
  rw [getLsbD_ambeWord _ _ _ h, getLsbD_c0Word _ _ (by omega)]
  simp [eccExtract49, gather, show i < 49 by omega, val]

theorem ambeWord_c1 (i : Nat) (h : i < 12) : (ambeWord (eccExtract49 fr) 12).getLsbD i = (c1Word fr).getLsbD i := by
  have val := ambeDataIdx_val ⟨12 + i, by omega⟩
  simp only [show ¬12 + i < 12 by omega, show 12 + i < 24 by omega, if_true, if_false, Fin.getElem_fin] at val
  rw [getLsbD_ambeWord _ _ _ h, getLsbD_c1Word _ _ (by omega)]
  simp [eccExtract49, gather, show 12 + i < 49 by omega, val, show 58 - (12 + i) = 46 - i by omega]

/-- C0 as the encoder builds it from the 49 bits. -/
theorem golayWithParity_extract : golayWithParity (ambeWord (eccExtract49 fr) 0) = golayWithParity (c0Word fr) := by
  have same : dmrGolay2312 (ambeWord (eccExtract49 fr) 0) = dmrGolay2312 (c0Word fr) :=
    dmrGolay2312_congr fun i h => ambeWord_c0 fr i h
  rw [golayWithParity, golayWithParity, same]

theorem framesFrom49_c0 (i : Nat) (inside : i < 96) (h : i < 24) :
    (framesFrom49 (eccExtract49 fr))[i] = (golayWithParity (c0Word fr)).getLsbD (23 - i) := by
  rw [← golayWithParity_extract]
  simp only [framesFrom49, Vector.getElem_ofFn, h, if_true, golayWithParity]

theorem framesFrom49_c1 (i : Nat) (inside : i < 96) (h : 24 ≤ i) (h' : i < 47) :
    (framesFrom49 (eccExtract49 fr))[i] = (dmrGolay2312 (c1Word fr)).getLsbD (46 - i) := by
  have same : dmrGolay2312 (ambeWord (eccExtract49 fr) 12) = dmrGolay2312 (c1Word fr) :=
    dmrGolay2312_congr fun j hj => ambeWord_c1 fr j hj
  simp [framesFrom49, show ¬i < 24 by omega, h', same, show 22 - (i - 24) = 46 - i by omega]

/-- The raw rows are copied. -/
theorem framesFrom49_raw (i : Nat) (h : i < 96) (raw : 48 ≤ i ∧ i ≤ 58 ∨ 72 ≤ i ∧ i ≤ 85) :
    (framesFrom49 (eccExtract49 fr))[i] = fr[i] := by
  obtain ⟨n, bound, at_⟩ : ∃ n, ∃ bound : n < 49, (ambeDataIdx[(⟨n, bound⟩ : Fin 49)]).val = i := by
    rcases raw with c2 | c3
    · refine ⟨82 - i, by omega, ?_⟩
      rw [ambeDataIdx_val]
      simp only [show ¬82 - i < 12 by omega, show ¬82 - i < 24 by omega, show 82 - i < 35 by omega, if_true, if_false]
      omega
    · refine ⟨120 - i, by omega, ?_⟩
      rw [ambeDataIdx_val]
      simp only [show ¬120 - i < 12 by omega, show ¬120 - i < 24 by omega, show ¬120 - i < 35 by omega, if_false]
      omega
  have copied := framesFrom49_at (eccExtract49 fr) ⟨n, bound⟩ _ (ambeDataIdx_val ⟨n, bound⟩)
  rw [eccExtract49] at copied ⊢
  simp only [Fin.getElem_fin, getElem_gather] at copied at_
  simpa only [at_] using copied

/-- The matrix is rebuilt on the air's positions exactly when both words are code words. -/
theorem framesFrom49_rebuilds_iff : (∀ p, ambeUsed p = true → (framesFrom49 (eccExtract49 fr)).get p = fr.get p) ↔
    c0Word fr = golayWithParity (c0Word fr) ∧ c1Word fr = dmrGolay2312 (c1Word fr) := by
  constructor
  · intro rebuilt
    constructor
    · -- bit by bit: the word stands in the frame from its highest bit down
      apply BitVec.eq_of_getLsbD_eq
      intro i _
      by_cases inside : i < 24
      · have here : (framesFrom49 (eccExtract49 fr))[23 - i] = fr[23 - i] :=
          rebuilt ⟨23 - i, by omega⟩ (by simp [ambeUsed, Fin.lt_def]; omega)
        rw [framesFrom49_c0 fr _ (by omega) (by omega), show 23 - (23 - i) = i by omega] at here
        rw [here, getLsbD_c0Word fr i inside]
      · rw [c0Word_high fr i (by omega), golayWithParity_high _ i (by omega)]
    · apply BitVec.eq_of_getLsbD_eq
      intro i _
      by_cases inside : i < 23
      · have here : (framesFrom49 (eccExtract49 fr))[46 - i] = fr[46 - i] :=
          rebuilt ⟨46 - i, by omega⟩ (by simp [ambeUsed, Fin.lt_def]; omega)
        rw [framesFrom49_c1 fr _ (by omega) (by omega) (by omega), show 46 - (46 - i) = i by omega] at here
        rw [here, getLsbD_c1Word fr i inside]
      · rw [c1Word_high fr i (by omega), dmrGolay2312_high _ i (by omega)]
  · rintro ⟨c0, c1⟩ ⟨p, bound⟩ used
    simp only [ambeUsed, Fin.lt_def, Fin.le_def, Bool.or_eq_true, Bool.and_eq_true, decide_eq_true_eq] at used
    show (framesFrom49 (eccExtract49 fr))[p] = fr[p]
    -- the two coded words, and behind them bits that are copied
    by_cases row0 : p < 24
    · rw [framesFrom49_c0 fr p bound row0, ← c0, getLsbD_c0Word fr _ (by omega)]
      simp only [show 23 - (23 - p) = p by omega]
    · by_cases row1 : p < 47
      · rw [framesFrom49_c1 fr p bound (by omega) row1, ← c1, getLsbD_c1Word fr _ (by omega)]
        simp only [show 46 - (46 - p) = p by omega]
      · exact framesFrom49_raw fr p bound (by
          rcases used with (low | c2) | c3
          · exact absurd low row1
          · exact .inl c2
          · exact .inr c3)

end

/-- A frame comes back from its 49 bits exactly when it is a code frame. -/
theorem ambe49To72_72To49_iff (in72 : Bits 72) : dmrAmbe49To72 (dmrAmbe72To49 in72) = in72 ↔ IsCodeFrame in72 := by
  rw [IsCodeFrame, ← framesFrom49_rebuilds_iff]
  have encoded : dmrAmbe49To72 (dmrAmbe72To49 in72) =
      gather ambeSchedule (demodulate (framesFrom49 (eccExtract49 (receivedFrame in72)))) := rfl
  have air : gather ambeSchedule (scatter ambeSchedule in72 (Vector.replicate 96 false)) = in72 :=
    gather_scatter _ _ _ ambeSchedule_nodup
  constructor
  · intro back p used
    -- on the air's positions the scrambled rebuilt matrix is the received one
    apply (demodulate_restores _ (scatter ambeSchedule in72 (Vector.replicate 96 false)) _ p used).symm
    intro q usedQ
    obtain ⟨j, hj, entry⟩ := List.getElem_of_mem (ambeSchedule_covers q usedQ)
    have size : j < 72 := by simpa using hj
    have position : ambeSchedule[j] = q := by simpa using entry
    have sent := congrArg (fun v : Bits 72 => v[j]) (encoded.symm.trans (back.trans air.symm))
    simp only [getElem_gather, position] at sent
    exact sent.symm
  · intro rebuilt
    rw [encoded, ← air]
    ext j h
    rw [getElem_gather, getElem_gather, air]
    have used : ambeUsed ambeSchedule[j] = true := ambeSchedule_used ⟨j, h⟩
    exact demodulate_restores (scatter ambeSchedule in72 (Vector.replicate 96 false)) _ rebuilt _ used

end Cc2obp
