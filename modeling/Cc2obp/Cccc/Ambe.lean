import Cc2obp.Dmr.Ambe

/-!
# CC-CC voice payload

Three 49-bit AMBE frames in 21 bytes: each 7-byte unit carries one frame in the
lane order of the c-Bridge, most significant bit first, the low seven bits of
its last byte zero.
-/
namespace Cc2obp

/-- Wire bit `j` is frame bit `PERM[j]`. -/
def ccccAmbePerm : Vector (Fin 49) 49 :=
  #v[0, 18, 36, 1, 19, 37, 2, 20, 38, 3, 21, 39, 4, 22, 40, 5, 23, 41, 6, 24, 42,
     7, 25, 43, 8, 26, 44, 9, 27, 45, 10, 28, 46, 11, 29, 47, 12, 30, 48, 13, 31, 14,
     32, 15, 33, 16, 34, 17, 35]

/-- One 49-bit frame as a 7-byte unit. -/
def packUnit (ambe : Bits 49) : Bytes 7 :=
  let wire := gather ccccAmbePerm ambe
  cat (m := 6) (bitsToBytes (slice wire 0 48)) #v[if wire[48] then 0x80#8 else 0x00#8]

/-- The frame of one 7-byte unit. -/
def unpackUnit (unit : Bytes 7) : Bits 49 :=
  let wire : Bits 49 := cat (m := 48) (bytesToBits (slice unit 0 6)) #v[unit[6] &&& 0x80#8 != 0#8]
  scatter ccccAmbePerm wire (Vector.replicate 49 false)

def ccccAmbePack21 (ambe49 : Vector (Bits 49) 3) : Bytes 21 :=
  let units := ambe49.map packUnit
  Vector.ofFn fun k => units[k.val / 7][k.val % 7]

def ccccAmbeUnpack21 (in21 : Bytes 21) : Vector (Bits 49) 3 :=
  Vector.ofFn fun i => unpackUnit (Vector.ofFn fun b => in21[i.val * 7 + b.val])

/-! ## Round trips -/

theorem ccccAmbePerm_nodup : ccccAmbePerm.toList.Nodup := by decide

/-- What a relayed byte of a 7-byte unit keeps: everything but the padding of the last byte. -/
def unitMask (b : Nat) (x : Byte) : Byte := if b = 6 then x &&& 0x80#8 else x

theorem topBit (x : Byte) : (if x &&& 0x80#8 = 0#8 then 0#8 else 0x80#8) = x &&& 0x80#8 := by
  revert x
  decide

theorem packUnit_unpackUnit (unit : Bytes 7) (b : Nat) (h : b < 7) :
    (packUnit (unpackUnit unit))[b] = unitMask b unit[b] := by
  simp only [packUnit, unpackUnit, gather_scatter _ _ _ ccccAmbePerm_nodup]
  have body : slice (cat (m := 48) (bytesToBits (slice unit 0 6)) #v[unit[6] &&& 0x80#8 != 0#8] : Bits 49) 0 48
      = bytesToBits (slice unit 0 6) := by
    ext i hi
    simp [show i < 48 from hi]
  simp only [body, getElem_cat]
  split
  next inside =>
    have small : b < 6 := inside
    simp [bitsToBytes_bytesToBits, unitMask, show b ≠ 6 by omega]
  next outside =>
    have last : b = 6 := by omega
    subst last
    simp [unitMask, topBit]

/-- Relaying a payload through the three frames clears the padding bits and nothing else. -/
theorem pack21_unpack21 (in21 : Bytes 21) :
    ccccAmbePack21 (ccccAmbeUnpack21 in21) =
      Vector.ofFn fun k : Fin 21 => unitMask (k.val % 7) in21[k] := by
  ext k h
  have split : k / 7 * 7 + k % 7 = k := by omega
  simp [ccccAmbePack21, ccccAmbeUnpack21, packUnit_unpackUnit, split]

end Cc2obp
