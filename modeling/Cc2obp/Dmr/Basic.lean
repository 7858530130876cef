import Cc2obp.Lib.Bytes

/-!
# DMR constants and block codes

Sync words, EMB headers and slot types, the Hamming encoders, the Golay(23,12)
encoder of the AMBE conversion and the five-bit embedded-LC checksum.
-/
namespace Cc2obp

def bitTable (n : Nat) (table : List Nat) : Bits n := Vector.ofFn fun i => table.getD i 0 == 1

def dmrBsVoiceSync : Bits 48 := bitTable 48
  [0, 1, 1, 1, 0, 1, 0, 1, 0, 1, 0, 1, 1, 1, 1, 1, 1, 1, 0, 1, 0, 1, 1, 1, 1, 1, 0, 1, 1, 1, 1, 1,
   0, 1, 1, 1, 0, 1, 0, 1, 1, 1, 1, 1, 0, 1, 1, 1]

def dmrBsDataSync : Bits 48 := bitTable 48
  [1, 1, 0, 1, 1, 1, 1, 1, 1, 1, 1, 1, 0, 1, 0, 1, 0, 1, 1, 1, 1, 1, 0, 1, 0, 1, 1, 1, 0, 1, 0, 1,
   1, 1, 0, 1, 1, 1, 1, 1, 0, 1, 0, 1, 1, 1, 0, 1]

/-- EMB headers of bursts B to F (colour code 1). -/
def dmrEmb : Vector (Bits 16) 5 := #v[
  bitTable 16 [0, 0, 0, 1, 0, 0, 1, 1, 1, 0, 0, 1, 0, 0, 0, 1],
  bitTable 16 [0, 0, 0, 1, 0, 1, 1, 1, 0, 1, 1, 1, 0, 1, 0, 0],
  bitTable 16 [0, 0, 0, 1, 0, 1, 1, 1, 0, 1, 1, 1, 0, 1, 0, 0],
  bitTable 16 [0, 0, 0, 1, 0, 1, 0, 1, 0, 0, 0, 0, 0, 1, 1, 1],
  bitTable 16 [0, 0, 0, 1, 0, 0, 0, 1, 1, 1, 1, 0, 0, 0, 1, 0]]

def dmrSlotTypeVhead : Bits 20 := bitTable 20
  [0, 0, 0, 1, 0, 0, 0, 1, 1, 0, 1, 1, 1, 0, 0, 0, 1, 1, 0, 0]

def dmrSlotTypeVterm : Bits 20 := bitTable 20
  [0, 0, 0, 1, 0, 0, 1, 0, 1, 0, 1, 0, 0, 1, 0, 1, 1, 0, 0, 1]

/-- Group call options. -/
def dmrLcOpt : List Byte := [0x00, 0x00, 0x00]

/-! ## Hamming encoders -/

def dmrHam15113 (d : Bits 11) : Bits 4 := #v[
  d[0] ^^ d[1] ^^ d[2] ^^ d[3] ^^ d[5] ^^ d[7] ^^ d[8],
  d[1] ^^ d[2] ^^ d[3] ^^ d[4] ^^ d[6] ^^ d[8] ^^ d[9],
  d[2] ^^ d[3] ^^ d[4] ^^ d[5] ^^ d[7] ^^ d[9] ^^ d[10],
  d[0] ^^ d[1] ^^ d[2] ^^ d[4] ^^ d[6] ^^ d[7] ^^ d[10]]

def dmrHam1393 (d : Bits 9) : Bits 4 := #v[
  d[0] ^^ d[1] ^^ d[3] ^^ d[5] ^^ d[6],
  d[0] ^^ d[1] ^^ d[2] ^^ d[4] ^^ d[6] ^^ d[7],
  d[0] ^^ d[1] ^^ d[2] ^^ d[3] ^^ d[5] ^^ d[7] ^^ d[8],
  d[0] ^^ d[2] ^^ d[4] ^^ d[5] ^^ d[8]]

def dmrHam16114 (d : Bits 11) : Bits 5 := #v[
  d[0] ^^ d[1] ^^ d[2] ^^ d[3] ^^ d[5] ^^ d[7] ^^ d[8],
  d[1] ^^ d[2] ^^ d[3] ^^ d[4] ^^ d[6] ^^ d[8] ^^ d[9],
  d[2] ^^ d[3] ^^ d[4] ^^ d[5] ^^ d[7] ^^ d[9] ^^ d[10],
  d[0] ^^ d[1] ^^ d[2] ^^ d[4] ^^ d[6] ^^ d[7] ^^ d[10],
  d[0] ^^ d[2] ^^ d[5] ^^ d[6] ^^ d[8] ^^ d[9] ^^ d[10]]

/-! ## Golay(23,12) -/

/-- One round of the shift-register division by the generator `0xAE3`. -/
def golayRound (cw : BitVec 32) : BitVec 32 :=
  (if cw.getLsbD 0 then cw ^^^ 0xAE3#32 else cw) >>> 1

def dmrGolay2312 (word : BitVec 32) : BitVec 32 :=
  let data := word &&& 0xFFF#32
  (Nat.iterate golayRound 12 data <<< 12) ||| data

def dmrParity (cw : BitVec 32) : Bool :=
  let p := (cw &&& 0xFF#32) ^^^ ((cw >>> 8) &&& 0xFF#32) ^^^ ((cw >>> 16) &&& 0xFF#32)
  let p := p ^^^ (p >>> 4)
  let p := p ^^^ (p >>> 2)
  let p := p ^^^ (p >>> 1)
  p.getLsbD 0

/-! ## Checksum of the embedded LC -/

def dmrCsum5 (lc : Bytes 9) : Byte :=
  BitVec.ofNat 8 ((lc.foldl (fun accum b => accum + b.toNat) 0) % 31) &&& 0x1F#8

end Cc2obp
