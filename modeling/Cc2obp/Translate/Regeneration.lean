import Cc2obp.Dmr.Regenerate
import Cc2obp.Translate.Steps

/-!
# Audio there and back

A burst taken to CC-CC and back keeps its three AMBE frames. Its bits on the air
are the same exactly when the frames were error-free; a second trip changes
nothing more.
-/
namespace Cc2obp

theorem burst_size : 264 = 33 * 8 := rfl

/-- Where bit `q` of the AMBE bits of a burst is: around the EMBED field. -/
def ambePos (q : Nat) : Fin 264 := Fin.ofNat 264 (if q < 108 then q else q + 48)

/-- Payload bits 0 to 107 and 156 to 263. -/
def ambeBits (payload33 : Bytes 33) : Bits 216 :=
  gather (Vector.ofFn fun q => ambePos q) (bytesToBits payload33 burst_size)

/-- One of the three 72-bit frames of a burst. -/
def airFrame (payload33 : Bytes 33) (i : Nat) : Bits 72 :=
  gather (Vector.ofFn fun k => ambePos (72 * i + k)) (bytesToBits payload33 burst_size)

/-- The burst that a relayed voice payload is sent out in, at the call's position. -/
def relayed (call : CallState) (payload33 : Bytes 33) : Bytes 33 :=
  call.ccPayload (ccccAmbePack21 (extractAmbe payload33))

/-! ## The 21-byte payload loses nothing -/

theorem ccccAmbePerm_covers : ∀ p : Fin 49, p ∈ ccccAmbePerm.toList := by decide

theorem getElem_packUnit (ambe : Bits 49) (b : Nat) (h : b < 7) : (packUnit ambe)[b] =
    if h' : b < 6 then (bitsToBytes (slice (gather ccccAmbePerm ambe) 0 48) : Bytes 6)[b]
    else if (gather ccccAmbePerm ambe)[48] then 0x80#8 else 0x00#8 := by
  rw [packUnit, getElem_cat]
  by_cases small : b < 6
  · rw [dif_pos small, dif_pos small]
  · have last : b - 6 = 0 := by omega
    rw [dif_neg small, dif_neg small]
    simp only [last]
    exact Vector.getElem_singleton _

/-- The wire bits of a unit. -/
theorem packUnit_wire (ambe : Bits 49) (j : Nat) (h : j < 49) :
    (cat (m := 48) (bytesToBits (slice (packUnit ambe) 0 6)) #v[(packUnit ambe)[6] &&& 0x80#8 != 0#8] : Bits 49)[j] =
      (gather ccccAmbePerm ambe)[j] := by
  rw [getElem_cat]
  split
  next inside =>
    have body : slice (packUnit ambe) 0 6 = (bitsToBytes (slice (gather ccccAmbePerm ambe) 0 48) : Bytes 6) := by
      refine Vector.ext fun b small => ?_
      rw [getElem_slice, getElem_packUnit, dif_pos (by omega)]
      simp only [Nat.zero_add]
    rw [body, bytesToBits_bitsToBytes _ _ _ j inside]
    simp only [getElem_slice, Nat.zero_add]
  next outside =>
    have last : j = 48 := by omega
    subst last
    rw [getElem_packUnit, dif_neg (by omega)]
    cases (gather ccccAmbePerm ambe)[48] <;> rfl

theorem unpackUnit_packUnit (ambe : Bits 49) : unpackUnit (packUnit ambe) = ambe := by
  have wire : (cat (m := 48) (bytesToBits (slice (packUnit ambe) 0 6)) #v[(packUnit ambe)[6] &&& 0x80#8 != 0#8] :
      Bits 49) = gather ccccAmbePerm ambe := Vector.ext fun j h => packUnit_wire ambe j h
  rw [unpackUnit, wire]
  refine Vector.ext fun p h => ?_
  rw [scatter_gather ccccAmbePerm ambe _ ccccAmbePerm_nodup p h (ccccAmbePerm_covers ⟨p, h⟩)]

theorem unpack21_pack21 (ambe49 : Vector (Bits 49) 3) : ccccAmbeUnpack21 (ccccAmbePack21 ambe49) = ambe49 := by
  refine Vector.ext fun i h => ?_
  have unit : (Vector.ofFn fun b : Fin 7 => (ccccAmbePack21 ambe49)[i * 7 + b.val]) = packUnit ambe49[i] := by
    refine Vector.ext fun b hb => ?_
    have which : (i * 7 + b) / 7 = i := by omega
    simp [ccccAmbePack21, which, Nat.mod_eq_of_lt hb]
  simp only [ccccAmbeUnpack21, Vector.getElem_ofFn, unit, unpackUnit_packUnit]

/-! ## Frames of a burst -/

theorem getElem_airFrame (payload33 : Bytes 33) (i k : Nat) (h : k < 72) :
    (airFrame payload33 i)[k] = (bytesToBits payload33 burst_size)[ambePos (72 * i + k)] := by
  simp [airFrame]

theorem getElem_ambeBits (payload33 : Bytes 33) (q : Nat) (h : q < 216) :
    (ambeBits payload33)[q] = (bytesToBits payload33 burst_size)[ambePos q] := by
  simp [ambeBits]

/-- The bits of a burst are the bits of its three frames. -/
theorem ambeBits_eq_iff (X Y : Bytes 33) : ambeBits Y = ambeBits X ↔ ∀ i < 3, airFrame Y i = airFrame X i := by
  constructor
  · intro same i hi
    refine Vector.ext fun k h => ?_
    have inside : 72 * i + k < 216 := by omega
    rw [getElem_airFrame _ _ _ h, getElem_airFrame _ _ _ h, ← getElem_ambeBits _ _ inside, ← getElem_ambeBits _ _ inside,
      same]
  · intro same
    refine Vector.ext fun q h => ?_
    have frame := same (q / 72) (by omega)
    have rest : q % 72 < 72 := by omega
    have place : 72 * (q / 72) + q % 72 = q := Nat.div_add_mod q 72
    have left := getElem_airFrame Y (q / 72) (q % 72) rest
    have right := getElem_airFrame X (q / 72) (q % 72) rest
    simp only [place] at left right
    rw [getElem_ambeBits _ _ h, getElem_ambeBits _ _ h, ← left, ← right, frame]

/-- Position `q` of the AMBE bits is position `p` of the payload. -/
theorem getElem_ambePos (payload33 : Bytes 33) {q p : Nat} (h : p < 264) (hq : q < 216)
    (place : q < 108 ∧ p = q ∨ 108 ≤ q ∧ p = q + 48) :
    (bytesToBits payload33 burst_size)[ambePos q] = (bytesToBits payload33 burst_size)[p] := by
  have val : (ambePos q).val = p := by
    rw [ambePos, Fin.val_ofNat]
    split <;> omega
  simp only [Fin.getElem_fin, val]

/-- What is extracted from a burst, frame by frame. -/
theorem getElem_extractAmbe (payload33 : Bytes 33) (i : Nat) (h : i < 3) :
    (extractAmbe payload33)[i] = dmrAmbe72To49 (airFrame payload33 i) := by
  interval_cases i
  · refine congrArg dmrAmbe72To49 (Vector.ext fun k hk => ?_)
    rw [getElem_airFrame _ _ _ hk, getElem_ambePos payload33 (p := k) (by omega) (by omega) (by omega)]
    simp only [getElem_slice, Nat.zero_add]
  · refine congrArg dmrAmbe72To49 (Vector.ext fun k hk => ?_)
    rw [getElem_airFrame _ _ _ hk, getElem_cat]
    split
    next first =>
      rw [getElem_ambePos payload33 (p := 72 + k) (by omega) (by omega) (by omega)]
      simp only [getElem_slice]
    next second =>
      rw [getElem_ambePos payload33 (p := 156 + (k - 36)) (by omega) (by omega) (by omega)]
      simp only [getElem_slice]
  · refine congrArg dmrAmbe72To49 (Vector.ext fun k hk => ?_)
    rw [getElem_airFrame _ _ _ hk, getElem_ambePos payload33 (p := 192 + k) (by omega) (by omega) (by omega)]
    simp only [getElem_slice]

/-- The frames of a burst that was put together from three 49-bit frames. -/
theorem airFrame_buildVoiceBurst (ambe49 : Vector (Bits 49) 3) (embed : Bits 48) (i : Nat) (h : i < 3) :
    airFrame (buildVoiceBurst ambe49 embed) i = dmrAmbe49To72 ambe49[i] := by
  interval_cases i
  · refine Vector.ext fun k hk => ?_
    rw [getElem_airFrame _ _ _ hk, getElem_ambePos _ (p := k) (by omega) (by omega) (by omega),
      buildVoiceBurst, bytesToBits_bitsToBytes _ _ _ _ (show k < 264 by omega)]
    simp only [getElem_cat, hk, show k < 192 by omega, show k < 156 by omega, show k < 108 by omega, dif_pos]
    rfl
  · refine Vector.ext fun k hk => ?_
    rw [getElem_airFrame _ _ _ hk]
    by_cases first : k < 36
    · rw [getElem_ambePos _ (p := 72 + k) (by omega) (by omega) (by omega),
        buildVoiceBurst, bytesToBits_bitsToBytes _ _ _ _ (show 72 + k < 264 by omega)]
      simp only [getElem_cat, getElem_slice, show 72 + k < 192 by omega, show 72 + k < 156 by omega,
        show 72 + k < 108 by omega, show ¬72 + k < 72 by omega, dif_pos, dif_neg, not_false_eq_true,
        show 0 + (72 + k - 72) = k by omega]
      rfl
    · rw [getElem_ambePos _ (p := 120 + k) (by omega) (by omega) (by omega),
        buildVoiceBurst, bytesToBits_bitsToBytes _ _ _ _ (show 120 + k < 264 by omega)]
      simp only [getElem_cat, getElem_slice, show 120 + k < 192 by omega, show ¬120 + k < 156 by omega, dif_pos, dif_neg,
        not_false_eq_true, show 36 + (120 + k - 156) = k by omega]
      rfl
  · refine Vector.ext fun k hk => ?_
    rw [getElem_airFrame _ _ _ hk, getElem_ambePos _ (p := 192 + k) (by omega) (by omega) (by omega),
      buildVoiceBurst, bytesToBits_bitsToBytes _ _ _ _ (show 192 + k < 264 by omega)]
    simp only [getElem_cat, show ¬192 + k < 192 by omega, dif_neg, not_false_eq_true, show 192 + k - 192 = k by omega]
    rfl

/-! ## There and back -/

/-- Taking a burst to CC-CC and back, in any call at any position: the three AMBE frames are kept, a
second trip at the same position gives the same burst, and the AMBE bits on the air are the same
exactly when each of the three frames is a code frame. -/
theorem audio_regeneration (call : CallState) (X : Bytes 33) :
    extractAmbe (relayed call X) = extractAmbe X ∧ relayed call (relayed call X) = relayed call X ∧
      (ambeBits (relayed call X) = ambeBits X ↔ ∀ i < 3, IsCodeFrame (airFrame X i)) := by
  have frame : ∀ i (h : i < 3), airFrame (relayed call X) i = dmrAmbe49To72 (dmrAmbe72To49 (airFrame X i)) := by
    intro i h
    rw [relayed, CallState.ccPayload, unpack21_pack21, airFrame_buildVoiceBurst _ _ i h, getElem_extractAmbe X i h]
  have kept : extractAmbe (relayed call X) = extractAmbe X := by
    refine Vector.ext fun i h => ?_
    rw [getElem_extractAmbe _ i h, frame i h, ambe72To49_49To72, getElem_extractAmbe X i h]
  refine ⟨kept, ?_, ?_⟩
  · rw [relayed, kept, ← relayed]
  · rw [ambeBits_eq_iff]
    apply forall₂_congr
    intro i h
    rw [frame i h, ambe49To72_72To49_iff]

end Cc2obp
