import Cc2obp.Translate.Basic
import Mathlib.Tactic.Linarith
import Mathlib.Tactic.FieldSimp

/-!
# Voice slots of an obp-origin call

Sequence number and timestamp both come from the arrival time rounded to 60 ms
slots. Two bursts get different numbers exactly when a slot boundary lies
between them, few enough of them that the sixteen bits do not wrap.
-/
namespace Cc2obp

/-- The end of slot `k`: arrivals from here on round to a later slot. -/
def slotEnd (start : Rat) (k : Nat) : Rat := start + ((k : Rat) + 1 / 2) * ccccSlotMs

/-- The slots before the arrival time, before the conversion to `int`. -/
def slotCount (start t : Rat) : Int := ⌊(t - start) / ccccSlotMs + 1 / 2⌋

theorem lt_slotCount (start t : Rat) (k : Nat) : (k : Int) < slotCount start t ↔ slotEnd start k ≤ t := by
  rw [slotCount, ← Int.add_one_le_iff, Int.le_floor, slotEnd, ccccSlotMs]
  push_cast
  constructor <;> intro h <;> linarith

theorem slotCount_nonneg {start t : Rat} (after : start ≤ t) : 0 ≤ slotCount start t := by
  rw [slotCount, Int.le_floor, ccccSlotMs]
  have elapsed : 0 ≤ (t - start) / (3 / 50) := div_nonneg (by linarith) (by norm_num)
  push_cast
  linarith

theorem slotCount_mono {start t t' : Rat} (later : t ≤ t') : slotCount start t ≤ slotCount start t' := by
  apply Int.floor_le_floor
  rw [ccccSlotMs]
  linarith

/-- Arrivals less than `n` slots apart are at most `n` slots apart after rounding. -/
theorem slotCount_diff {start t t' : Rat} (n : Nat) (near : t' - t < n * ccccSlotMs) :
    slotCount start t' ≤ slotCount start t + n := by
  have bound : slotCount start t' < slotCount start t + n + 1 := by
    rw [slotCount, Int.floor_lt]
    have rounded := Int.lt_floor_add_one ((t - start) / ccccSlotMs + 1 / 2)
    have shift : (t' - start) / ccccSlotMs + 1 / 2 < (t - start) / ccccSlotMs + 1 / 2 + n := by
      rw [ccccSlotMs] at near ⊢
      linarith
    rw [slotCount]
    push_cast
    linarith
  omega

theorem slotIndex_eq {start t : Rat} (after : start ≤ t) : slotIndex start t =
    if slotCount start t ≤ 2147483647 then slotCount start t else -2147483648 := by
  have nonneg := slotCount_nonneg after
  have positive : (0 : Rat) ≤ (t - start) / ccccSlotMs + 1 / 2 := by
    have floor := Int.le_floor.mp nonneg
    simpa using floor
  have low : -2147483648 ≤ slotCount start t := by omega
  simp only [slotIndex, toInt32, positive, if_true]
  simp only [slotCount] at low ⊢
  simp only [low, true_and]
  congr

/-- Rounding keeps the order of two arrivals apart exactly when a boundary lies between them and
the later one still fits an `int`. -/
theorem slotIndex_lt_iff {start t t' : Rat} (after : start ≤ t) (later : t ≤ t') :
    slotIndex start t < slotIndex start t' ↔
      (∃ k, t < slotEnd start k ∧ slotEnd start k ≤ t') ∧ t' < slotEnd start 2147483647 := by
  have nonneg := slotCount_nonneg after
  have mono : slotCount start t ≤ slotCount start t' := slotCount_mono later
  have between : (∃ k, t < slotEnd start k ∧ slotEnd start k ≤ t') ↔
      slotCount start t < slotCount start t' := by
    constructor
    · rintro ⟨k, before, behind⟩
      have upper := (lt_slotCount start t' k).mpr behind
      have lower := (lt_slotCount start t k).not.mpr (not_le.mpr before)
      omega
    · intro apart
      obtain ⟨k, count⟩ := Int.eq_ofNat_of_zero_le nonneg
      refine ⟨k, ?_, (lt_slotCount start t' k).mp (by omega)⟩
      exact not_le.mp fun behind => by
        have upper := (lt_slotCount start t k).mpr behind
        omega
  have fits : t' < slotEnd start 2147483647 ↔ slotCount start t' ≤ 2147483647 := by
    rw [← not_le, ← lt_slotCount]
    push_cast
    omega
  rw [between, fits, slotIndex_eq after, slotIndex_eq (after.trans later)]
  split <;> split <;> omega

theorem ofInt16_eq_iff (n n' : Int) :
    BitVec.ofInt 16 n = BitVec.ofInt 16 n' ↔ n % 65536 = n' % 65536 := by
  rw [← BitVec.toNat_inj, BitVec.toNat_ofInt, BitVec.toNat_ofInt]
  norm_num
  omega

/-- Slots fewer than `2 ^ 16` apart have different timestamps. -/
theorem timestamp_ne {n n' : Int} (apart : n < n') (near : n' < n + 65536) :
    ccccRtpTsStep * u32 n ≠ ccccRtpTsStep * u32 n' := by
  intro same
  have ints : (480 * n) % 4294967296 = (480 * n') % 4294967296 := by
    have words := congrArg BitVec.toNat same
    have step : ccccRtpTsStep.toNat = 480 := rfl
    simp only [u32, BitVec.toNat_mul, BitVec.toNat_ofInt, step] at words
    norm_num at words
    omega
  omega

theorem ofInt_sub_ofInt (w : Nat) (n n' : Int) :
    BitVec.ofInt w n' - BitVec.ofInt w n = BitVec.ofInt w (n' - n) := by
  have sum : BitVec.ofInt w (n' - n) + BitVec.ofInt w n = BitVec.ofInt w n' := by
    rw [← BitVec.ofInt_add, Int.sub_add_cancel]
  rw [← sum, BitVec.add_sub_cancel]

theorem timestamp_sub (n n' : Int) :
    ccccRtpTsStep * u32 n' - ccccRtpTsStep * u32 n = ccccRtpTsStep * u32 (n' - n) := by
  rw [← BitVec.mul_sub, u32, u32, u32, ofInt_sub_ofInt]

/-- Up to 65535 slots the sixteen bits count the slots and the timestamp counts 480 for each. -/
theorem gap_toNat {d : Int} (nonneg : 0 ≤ d) (near : d < 65536) :
    (ccccRtpTsStep * u32 d).toNat = 480 * (BitVec.ofInt 16 d).toNat := by
  have step : ccccRtpTsStep.toNat = 480 := rfl
  have word : d % 4294967296 = d := Int.emod_eq_of_lt nonneg (by omega)
  have half : d % 65536 = d := Int.emod_eq_of_lt nonneg near
  simp only [u32, BitVec.toNat_mul, BitVec.toNat_ofInt, step]
  norm_num [word, half]
  omega

/-- The arrival rounds to slot `k`. -/
def InSlot (start : Rat) (k : Nat) (t : Rat) : Prop :=
  (∀ j < k, slotEnd start j ≤ t) ∧ t < slotEnd start k

theorem inSlot_iff {start t : Rat} (after : start ≤ t) (k : Nat) :
    InSlot start k t ↔ slotCount start t = k := by
  have nonneg := slotCount_nonneg after
  simp only [InSlot, ← lt_slotCount]
  rw [← not_le, ← lt_slotCount]
  constructor
  · rintro ⟨below, notAbove⟩
    by_contra differs
    have short : slotCount start t < k := by omega
    obtain ⟨j, count⟩ := Int.eq_ofNat_of_zero_le nonneg
    have reached := below j (by omega)
    omega
  · intro count
    exact ⟨fun j small => by omega, by omega⟩

/-- Sequence number and timestamp of a burst. -/
def voiceNumbers (start t : Rat) : BitVec 16 × BitVec 32 :=
  (BitVec.ofInt 16 (slotIndex start t), ccccRtpTsStep * u32 (slotIndex start t))

/-- Two arrivals, in order, get numbers of their own: the later slot is larger, and closer than
65536 slots both fields differ. -/
def NumbersApart (start t t' : Rat) : Prop :=
  slotIndex start t < slotIndex start t' ∧
    (t' - t < 65536 * ccccSlotMs →
      (voiceNumbers start t).1 ≠ (voiceNumbers start t').1 ∧
        (voiceNumbers start t).2 ≠ (voiceNumbers start t').2)

/-- The slots of arrivals in order are in order, unless the later one alone does not fit an `int`. -/
theorem slotIndex_le_iff {start t t' : Rat} (after : start ≤ t) (later : t ≤ t') :
    slotIndex start t ≤ slotIndex start t' ↔ (slotEnd start 2147483647 ≤ t' → slotEnd start 2147483647 ≤ t) := by
  have nonneg := slotCount_nonneg after
  have mono : slotCount start t ≤ slotCount start t' := slotCount_mono later
  rw [slotIndex_eq after, slotIndex_eq (after.trans later), ← lt_slotCount, ← lt_slotCount]
  push_cast
  split <;> split <;> omega

/-- A slot boundary lies between the arrivals, the later one fits an `int`, and arrivals less than
65536 slots apart do not round to slots 65536 apart. -/
def ArrivalsApart (start t t' : Rat) : Prop :=
  (∃ k, t < slotEnd start k ∧ slotEnd start k ≤ t') ∧ t' < slotEnd start 2147483647 ∧
    (t' - t < 65536 * ccccSlotMs → ¬∃ k, InSlot start k t ∧ InSlot start (k + 65536) t')

theorem numbersApart_iff {start t t' : Rat} (after : start ≤ t) (later : t ≤ t') :
    NumbersApart start t t' ↔ ArrivalsApart start t t' := by
  have nonneg := slotCount_nonneg after
  have order := slotIndex_lt_iff after later
  have fits : t' < slotEnd start 2147483647 ↔ slotCount start t' ≤ 2147483647 := by
    rw [← not_le, ← lt_slotCount]
    push_cast
    omega
  rw [NumbersApart, ArrivalsApart, order, and_assoc]
  refine and_congr_right fun between => and_congr_right fun small => ?_
  have apart := order.mpr ⟨between, small⟩
  have mono : slotCount start t ≤ slotCount start t' := slotCount_mono later
  have whole' : slotIndex start t' = slotCount start t' := by
    rw [slotIndex_eq (after.trans later), if_pos (fits.mp small)]
  have whole : slotIndex start t = slotCount start t := by
    rw [slotIndex_eq after, if_pos (mono.trans (fits.mp small))]
  refine imp_congr_right fun near => ?_
  -- within the time the numbers can have wrapped once at most
  have close : slotCount start t' ≤ slotCount start t + (65536 : Nat) := slotCount_diff 65536 near
  have exact65536 : (∃ k, InSlot start k t ∧ InSlot start (k + 65536) t') ↔
      slotCount start t' = slotCount start t + 65536 := by
    simp only [inSlot_iff after, inSlot_iff (after.trans later)]
    constructor
    · rintro ⟨k, first, second⟩
      rw [first, second]
      push_cast
      rfl
    · intro shifted
      obtain ⟨k, count⟩ := Int.eq_ofNat_of_zero_le nonneg
      exact ⟨k, count, by rw [shifted, count]; push_cast; rfl⟩
  rw [whole, whole'] at apart
  push_cast at close
  rw [exact65536, voiceNumbers, voiceNumbers, whole, whole']
  constructor
  · rintro ⟨seqs, -⟩ shifted
    exact seqs ((ofInt16_eq_iff _ _).mpr (by omega))
  · intro notShifted
    refine ⟨fun seqs => ?_, timestamp_ne apart (by omega)⟩
    have wrapped := (ofInt16_eq_iff _ _).mp seqs
    omega

end Cc2obp
