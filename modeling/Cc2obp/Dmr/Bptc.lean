import Cc2obp.Dmr.Rs129

/-!
# BPTC(196,96) and the embedded LC

The matrix is built by positional insertions into a growing bit buffer, as in
the source; the column parities are then written in place.
-/
namespace Cc2obp

/-- Interleaver index. -/
def index181 : Vector (Fin 196) 196 :=
  #v[0, 181, 166, 151, 136, 121, 106, 91, 76, 61, 46, 31, 16, 1, 182, 167, 152, 137, 122, 107, 92, 77,
   62, 47, 32, 17, 2, 183, 168, 153, 138, 123, 108, 93, 78, 63, 48, 33, 18, 3, 184, 169, 154, 139,
   124, 109, 94, 79, 64, 49, 34, 19, 4, 185, 170, 155, 140, 125, 110, 95, 80, 65, 50, 35, 20, 5,
   186, 171, 156, 141, 126, 111, 96, 81, 66, 51, 36, 21, 6, 187, 172, 157, 142, 127, 112, 97, 82,
   67, 52, 37, 22, 7, 188, 173, 158, 143, 128, 113, 98, 83, 68, 53, 38, 23, 8, 189, 174, 159, 144,
   129, 114, 99, 84, 69, 54, 39, 24, 9, 190, 175, 160, 145, 130, 115, 100, 85, 70, 55, 40, 25, 10,
   191, 176, 161, 146, 131, 116, 101, 86, 71, 56, 41, 26, 11, 192, 177, 162, 147, 132, 117, 102, 87,
   72, 57, 42, 27, 12, 193, 178, 163, 148, 133, 118, 103, 88, 73, 58, 43, 28, 13, 194, 179, 164,
   149, 134, 119, 104, 89, 74, 59, 44, 29, 14, 195, 180, 165, 150, 135, 120, 105, 90, 75, 60, 45,
   30, 15]

/-- Bit-pick order of the full LC. -/
def decodeLcIdx : Vector (Fin 196) 72 :=
  #v[136, 121, 106, 91, 76, 61, 46, 31, 152, 137, 122, 107, 92, 77, 62, 47, 32, 17, 2, 123, 108, 93,
   78, 63, 48, 33, 18, 3, 184, 169, 94, 79, 64, 49, 34, 19, 4, 185, 170, 155, 140, 65, 50, 35, 20,
   5, 186, 171, 156, 141, 126, 111, 36, 21, 6, 187, 172, 157, 142, 127, 112, 97, 82, 7, 188, 173,
   158, 143, 128, 113, 98, 83]

/-- `buf[start]`, `buf[start + stride]`, ... read as a fixed-size array. -/
def bitsAt (buf : List Bool) (start n stride : Nat) : Bits n :=
  Vector.ofFn fun k => buf.getD (start + stride * k) false

/-- Insert `vals` one after the other, the first at `pos`. -/
def insertAll (buf : List Bool) (pos : Nat) (vals : List Bool) : List Bool :=
  (vals.foldl (fun (b : List Bool × Nat) v => (b.1.insertIdx b.2 v, b.2 + 1)) (buf, pos)).1

/-- Row Hamming(15,11,3) of one of the nine data rows. -/
def insertRowParity (buf : List Bool) (index : Nat) : List Bool :=
  let spos := index * 15 + 1
  insertAll buf (spos + 11) (dmrHam15113 (bitsAt buf spos 11 1)).toList

/-- Column Hamming(13,9,3), written in place. -/
def writeColParity (buf : List Bool) (col : Nat) : List Bool :=
  let csum := dmrHam1393 (bitsAt buf (col + 1) 9 15)
  let cpar := 136 + col
  (((buf.set cpar csum[0]).set (cpar + 15) csum[1]).set (cpar + 30) csum[2]).set (cpar + 45) csum[3]

def dmrBptcEncode19696 (data12 : Bytes 12) : Bits 196 :=
  let buf := (bytesToBits data12).toList
  -- R0-R3, then the nine rows, then zeros for the column parities
  let buf := (List.range 4).foldl (fun b _ => b.insertIdx 0 false) buf
  let buf := (List.range 9).foldl insertRowParity buf
  let buf := buf ++ List.replicate (196 - buf.length) false
  let buf := (List.range 15).foldl writeColParity buf
  Vector.ofFn fun i => buf.getD i false

def interleave19696 (in196 : Bits 196) : Bits 196 :=
  scatter index181 in196 (Vector.replicate 196 false)

def dmrBptcEncodeLc (lc : Bytes 9) (isTerm : Bool) : Bits 196 :=
  interleave19696 (dmrBptcEncode19696 (cat lc (dmrRs129LcEncode lc isTerm)))

def dmrBptcDecodeFullLc (in196 : Bits 196) : Bytes 9 := bitsToBytes (gather decodeLcIdx in196)

/-! ## Embedded LC -/

/-- Bit picks of the four segments; the second row of the third reads 24, as in the source. -/
def emblcIdx : Vector (Vector Nat 32) 4 := #v[
  #v[0, 16, 32, 48, 64, 80, 96, 112, 1, 17, 33, 49, 65, 81, 97, 113, 2, 18, 34, 50, 66, 82, 98, 114,
   3, 19, 35, 51, 67, 83, 99, 115],
  #v[4, 20, 36, 52, 68, 84, 100, 116, 5, 21, 37, 53, 69, 85, 101, 117, 6, 22, 38, 54, 70, 86, 102,
   118, 7, 23, 39, 55, 71, 87, 103, 119],
  #v[8, 24, 40, 56, 72, 88, 104, 120, 9, 24, 41, 57, 73, 89, 105, 121, 10, 26, 42, 58, 74, 90, 106,
   122, 11, 27, 43, 59, 75, 91, 107, 123],
  #v[12, 28, 44, 60, 76, 92, 108, 124, 13, 29, 45, 61, 77, 93, 109, 125, 14, 30, 46, 62, 78, 94, 110,
   126, 15, 31, 47, 63, 79, 95, 111, 127]]

/-- Row Hamming(16,11,4) of the block at `index`. -/
def insertEmbRow (buf : List Bool) (index : Nat) : List Bool :=
  insertAll buf (index + 11) (dmrHam16114 (bitsAt buf index 11 1)).toList

/-- Column parity over the seven rows, inserted after them. -/
def insertEmbColumn (buf : List Bool) (index : Nat) : List Bool :=
  let v := buf.getD index false ^^ buf.getD (index + 16) false ^^ buf.getD (index + 32) false
    ^^ buf.getD (index + 48) false ^^ buf.getD (index + 64) false ^^ buf.getD (index + 80) false
    ^^ buf.getD (index + 96) false
  buf.insertIdx (index + 112) v

/-- The 128-bit matrix the segments are picked from. -/
def emblcMatrix (lc : Bytes 9) : List Bool :=
  let cs := dmrCsum5 lc
  let buf := (bytesToBits lc).toList
  let buf := buf.insertIdx 32 (cs.getLsbD 4)
  let buf := buf.insertIdx 43 (cs.getLsbD 3)
  let buf := buf.insertIdx 54 (cs.getLsbD 2)
  let buf := buf.insertIdx 65 (cs.getLsbD 1)
  let buf := buf.insertIdx 76 (cs.getLsbD 0)
  let buf := [0, 16, 32, 48, 64, 80, 96].foldl insertEmbRow buf
  (List.range 16).foldl insertEmbColumn buf

def dmrEncodeEmblc (lc : Bytes 9) : Vector (Bytes 4) 4 :=
  let buf := emblcMatrix lc
  emblcIdx.map fun idx => bitsToBytes (idx.map fun i => buf.getD i false)

end Cc2obp
