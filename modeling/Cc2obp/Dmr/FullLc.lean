import Cc2obp.Dmr.Blocks
import Cc2obp.Lib.ParityChecks
import Mathlib.Data.Fintype.EquivFin

/-!
# BPTC words at a receiver

Bits 1 to 195 of a word are 13 rows of 15: nine rows of data with their check
bits and four rows of column checks. The word travels permuted.
-/
namespace Cc2obp

open ParityChecks

/-- Bits 1 to 195 as 13 rows of 15. -/
def bptcRows (word : Bits 196) : Vector (Bits 15) 13 :=
  Vector.ofFn fun r => Vector.ofFn fun c => word[1 + c.val + 15 * r.val]

/-- A column of the rows. -/
def bptcColumn (rows : Vector (Bits 15) 13) (c : Fin 15) : Bits 13 := rows.map fun row => row[c]

/-- The 99 information bits, row after row: three reserved bits and the data. -/
def bptcInfo (word : Bits 196) : Bits 99 :=
  Vector.ofFn fun k => word[1 + k.val % 11 + 15 * (k.val / 11)]

/-- A word of the product code with its data. -/
structure BptcCodeword (word : Bits 196) (data12 : Bytes 12) : Prop where
  zero : word[0] = false
  rows : ∀ r : Fin 13, (slice (bptcRows word)[r] 11 4 : Bits 4) = dmrHam15113 (slice (bptcRows word)[r] 0 11)
  columns : ∀ c : Fin 15, (slice (bptcColumn (bptcRows word) c) 9 4 : Bits 4) =
    dmrHam1393 (slice (bptcColumn (bptcRows word) c) 0 9)
  info : bptcInfo word = cat (Vector.replicate 3 false) (bytesToBits (k := 96) data12)

/-- The position a bit of the word travels at. -/
def bptcPermute (i : Fin 196) : Fin 196 := ⟨181 * i.val % 196, Nat.mod_lt _ i.pos⟩

/-- The word a receiver puts together from the bits it got. -/
def deinterleave (received : Bits 196) : Bits 196 := Vector.ofFn fun i => received[bptcPermute i]

/-! ## Hamming encoders as parity checks -/

def ham15113Taps : Vector (List (Fin 11)) 4 :=
  #v[[0, 1, 2, 3, 5, 7, 8], [1, 2, 3, 4, 6, 8, 9], [2, 3, 4, 5, 7, 9, 10], [0, 1, 2, 4, 6, 7, 10]]

def ham1393Taps : Vector (List (Fin 9)) 4 :=
  #v[[0, 1, 3, 5, 6], [0, 1, 2, 4, 6, 7], [0, 1, 2, 3, 5, 7, 8], [0, 2, 4, 5, 8]]

theorem dmrHam15113_eq (d : Bits 11) : dmrHam15113 d = checks ham15113Taps d := by
  simp [dmrHam15113, checks, ham15113Taps]

theorem dmrHam1393_eq (d : Bits 9) : dmrHam1393 d = checks ham1393Taps d := by
  simp [dmrHam1393, checks, ham1393Taps]

/-! ## The word of the encoder -/

/-- The information bits the encoder starts from. -/
def bptcData (data12 : Bytes 12) : Bits 99 := cat (Vector.replicate 3 false) (bytesToBits (k := 96) data12)

/-- The nine data rows with their check bits. -/
def dataRows (data12 : Bytes 12) : Vector (Bits 15) 9 :=
  (toRows (r := 9) (n := 11) (bptcData data12)).map (codeBlock dmrHam15113)

theorem insertReserved (data12 : Bytes 12) :
    (List.range 4).foldl (fun b _ => b.insertIdx 0 false) (bytesToBits (k := 96) data12).toList =
      [false] ++ (bptcData data12).toList := by
  have info : (bptcData data12).toList = List.replicate 3 false ++ (bytesToBits (k := 96) data12).toList := by
    refine List.ext_getElem (by simp) fun k h h' => ?_
    simp only [bptcData, Vector.getElem_toList, getElem_cat, List.getElem_append, List.length_replicate]
    split
    · rw [Vector.getElem_replicate, List.getElem_replicate]
    · rfl
  rw [info]
  rfl

theorem insertRowParities (data12 : Bytes 12) :
    (List.range 9).foldl insertRowParity ([false] ++ (bptcData data12).toList) =
      [false] ++ (dataRows data12).flatten.toList := by
  have inserted := insertChecks_rows (r := 9) (n := 11) dmrHam15113 (bptcData data12) [false] []
  have starts : List.range' [false].length 9 (11 + 4) = (List.range 9).map fun index => index * 15 + 1 := by decide
  rw [List.append_nil, List.append_nil, starts, List.foldl_map] at inserted
  exact inserted

/-- The check bits of a column of the data rows. -/
def colChecks (rows : Vector (Bits 15) 9) (c : Fin 15) : Bits 4 := dmrHam1393 (rows.map fun row => row[c])

theorem getD_set (buf : List Bool) (i j : Nat) (x : Bool) :
    (buf.set i x).getD j false = if i = j ∧ j < buf.length then x else buf.getD j false := by
  rw [List.getD_eq_getElem?_getD, List.getElem?_set]
  by_cases here : i = j
  · by_cases inside : j < buf.length <;> simp [here, inside]
  · simp [here]

theorem length_writeColParity (buf : List Bool) (col : Nat) : (writeColParity buf col).length = buf.length := by
  simp [writeColParity]

theorem writeColParity_other (buf : List Bool) (col j : Nat) (apart : ∀ p : Fin 4, j ≠ 136 + col + 15 * p.val) :
    (writeColParity buf col).getD j false = buf.getD j false := by
  have zero := apart 0
  have one := apart 1
  have two := apart 2
  have three := apart 3
  simp only [Fin.val_zero, Fin.val_one, Fin.val_two, show (3 : Fin 4).val = 3 from rfl] at zero one two three
  simp only [writeColParity, getD_set]
  rw [if_neg (by omega), if_neg (by omega), if_neg (by omega), if_neg (by omega)]

theorem writeColParity_at (buf : List Bool) (col : Nat) (inside : 136 + col + 45 < buf.length) (p : Fin 4) :
    (writeColParity buf col).getD (136 + col + 15 * p.val) false = (dmrHam1393 (bitsAt buf (col + 1) 9 15))[p] := by
  simp only [writeColParity, getD_set, List.length_set]
  match p with
  | 0 => rw [if_neg (by simp), if_neg (by simp), if_neg (by simp), if_pos (by simp; omega)]; rfl
  | 1 => rw [if_neg (by simp), if_neg (by simp), if_pos (by simp; omega)]; rfl
  | 2 => rw [if_neg (by simp), if_pos (by simp; omega)]; rfl
  | 3 => rw [if_pos (by simp; omega)]; rfl

/-- The buffer after the checks of the first `n` columns. -/
structure ColsDone (rows : Vector (Bits 15) 9) (n : Nat) (buf : List Bool) : Prop where
  size : buf.length = 196
  zero : buf.getD 0 false = false
  data : ∀ (r : Fin 9) (c : Fin 15), buf.getD (1 + c.val + 15 * r.val) false = rows[r][c]
  checks : ∀ (c : Fin 15) (p : Fin 4), c.val < n → buf.getD (136 + c.val + 15 * p.val) false = (colChecks rows c)[p]

theorem colsDone_start (rows : Vector (Bits 15) 9) :
    ColsDone rows 0 ([false] ++ rows.flatten.toList ++ List.replicate 60 false) := by
  constructor
  case size => simp
  case zero => rfl
  case data =>
    intro r c
    have inside : c.val + 15 * r.val < 9 * 15 := by omega
    have cell := getElem_flatten_row rows r.val c.val r.isLt c.isLt inside
    rw [List.getD_eq_getElem?_getD, List.getElem?_append_left (by simp; omega), Nat.add_assoc, Nat.add_comm 1]
    simp [inside, cell]
  case checks => simp

theorem ColsDone.next {rows : Vector (Bits 15) 9} {n : Nat} {buf : List Bool} (done : ColsDone rows n buf) (h : n < 15) :
    ColsDone rows (n + 1) (writeColParity buf n) := by
  have column : bitsAt buf (n + 1) 9 15 = rows.map fun row => row[n] := by
    refine Vector.ext fun r hr => ?_
    have cell := done.data ⟨r, hr⟩ ⟨n, h⟩
    simpa [bitsAt, Nat.add_comm n 1] using cell
  constructor
  case size => rw [length_writeColParity, done.size]
  case zero =>
    rw [writeColParity_other _ _ _ (by intro p; omega)]
    exact done.zero
  case data =>
    intro r c
    rw [writeColParity_other _ _ _ (by intro p; omega)]
    exact done.data r c
  case checks =>
    intro c p early
    by_cases here : c.val = n
    · subst here
      rw [writeColParity_at _ _ (by rw [done.size]; omega), column]
      rfl
    · rw [writeColParity_other _ _ _ (by intro q; omega)]
      exact done.checks c p (by omega)

theorem colsDone_writeColParities {rows : Vector (Bits 15) 9} {buf : List Bool} (start : ColsDone rows 0 buf) (n : Nat)
    (h : n ≤ 15) : ColsDone rows n ((List.range n).foldl writeColParity buf) := by
  induction n with
  | zero => exact start
  | succ n ih =>
    rw [List.range_succ, List.foldl_append]
    exact (ih (by omega)).next (by omega)

theorem dmrBptcEncode19696_buffer (data12 : Bytes 12) : ∃ buf, ColsDone (dataRows data12) 15 buf ∧
    dmrBptcEncode19696 data12 = Vector.ofFn fun i => buf.getD i false := by
  have done := colsDone_writeColParities (colsDone_start (dataRows data12)) 15 (Nat.le_refl 15)
  refine ⟨_, done, ?_⟩
  have padding : 196 - ([false] ++ (dataRows data12).flatten.toList).length = 60 := by simp
  simp only [dmrBptcEncode19696, insertReserved, insertRowParities, padding]

theorem getElem_bptcRows (word : Bits 196) (r c : Nat) (hr : r < 13) (hc : c < 15) :
    (bptcRows word)[r][c] = word[1 + c + 15 * r] := by
  simp [bptcRows]

section Word
variable (data12 : Bytes 12)

theorem bptcRows_data (r : Fin 9) (c : Fin 15) :
    (bptcRows (dmrBptcEncode19696 data12))[r.val][c.val] = (dataRows data12)[r][c] := by
  obtain ⟨buf, done, word⟩ := dmrBptcEncode19696_buffer data12
  rw [getElem_bptcRows, word, Vector.getElem_ofFn]
  exact done.data r c

theorem bptcRows_checks (p : Fin 4) (c : Fin 15) :
    (bptcRows (dmrBptcEncode19696 data12))[9 + p.val][c.val] = (colChecks (dataRows data12) c)[p] := by
  obtain ⟨buf, done, word⟩ := dmrBptcEncode19696_buffer data12
  rw [getElem_bptcRows, word, Vector.getElem_ofFn, ← done.checks c p c.isLt]
  have place : 1 + c.val + 15 * (9 + p.val) = 136 + c.val + 15 * p.val := by omega
  simp only [place]

/-- A check bit of a data row. -/
theorem dataRows_check (r : Fin 9) (q : Fin 4) :
    (dataRows data12)[r.val][11 + q.val] =
      xorSum ham15113Taps[q] (Vector.ofFn fun c : Fin 11 => (dataRows data12)[r.val][c.val]) := by
  have block : (Vector.ofFn fun c : Fin 11 => (dataRows data12)[r.val][c.val]) =
      (toRows (r := 9) (n := 11) (bptcData data12))[r.val] := by
    refine Vector.ext fun c h => ?_
    simp only [dataRows, Vector.getElem_ofFn, Vector.getElem_map, codeBlock]
    exact getElem_cat_left _ _ _ _ h
  rw [block, Fin.getElem_fin, ← getElem_checks, ← dmrHam15113_eq]
  simp only [dataRows, Vector.getElem_map, codeBlock]
  exact getElem_cat_right _ _ _ _ q.isLt

/-- A check bit of a column is a sum down the column. -/
theorem colChecks_eq (c : Fin 15) (p : Fin 4) : (colChecks (dataRows data12) c)[p] =
    xorSum ham1393Taps[p] (Vector.ofFn fun r : Fin 9 => (dataRows data12)[r.val][c.val]) := by
  have column : (dataRows data12).map (fun row => row[c]) = Vector.ofFn fun r : Fin 9 => (dataRows data12)[r.val][c.val] := by
    refine Vector.ext fun r h => ?_
    simp
  rw [colChecks, dmrHam1393_eq, column]
  exact getElem_checks _ _ _ _

/-- A row of column checks is a code word of the row code: the checks on checks agree. -/
theorem checkRow (p q : Fin 4) : (colChecks (dataRows data12) ⟨11 + q.val, by omega⟩)[p] =
    xorSum ham15113Taps[q] (Vector.ofFn fun c : Fin 11 => (colChecks (dataRows data12) ⟨c.val, by omega⟩)[p]) := by
  simp only [colChecks_eq, dataRows_check]
  exact (xorSum_comm ham15113Taps[q] ham1393Taps[p] fun r c => (dataRows data12)[r.val][c.val]).symm

/-- What the row code asks of a row of the matrix. -/
def RowChecked (row : Bits 15) : Prop := (slice row 11 4 : Bits 4) = dmrHam15113 (slice row 0 11)

theorem rowChecked_of {row : Bits 15} (cells : Fin 15 → Bool) (row_eq : ∀ c : Fin 15, row[c.val] = cells c)
    (checked : ∀ q : Fin 4, cells ⟨11 + q.val, by omega⟩ =
      xorSum ham15113Taps[q] (Vector.ofFn fun c : Fin 11 => cells ⟨c.val, by omega⟩)) : RowChecked row := by
  have start : (slice row 0 11 : Bits 11) = Vector.ofFn fun c : Fin 11 => cells ⟨c.val, by omega⟩ := by
    refine Vector.ext fun c hc => ?_
    simpa using row_eq ⟨c, by omega⟩
  refine Vector.ext fun q hq => ?_
  rw [dmrHam15113_eq, getElem_checks, getElem_slice, start]
  exact (row_eq ⟨11 + q, by omega⟩).trans (checked ⟨q, hq⟩)

theorem rowChecked_bptcRows (r : Nat) (hr : r < 13) : RowChecked (bptcRows (dmrBptcEncode19696 data12))[r] := by
  by_cases data : r < 9
  · exact rowChecked_of _ (bptcRows_data data12 ⟨r, data⟩) (dataRows_check data12 ⟨r, data⟩)
  · obtain ⟨p, rfl⟩ : ∃ p, r = 9 + p := ⟨r - 9, by omega⟩
    exact rowChecked_of _ (bptcRows_checks data12 ⟨p, by omega⟩) (checkRow data12 ⟨p, by omega⟩)

theorem columnChecked_bptcRows (c : Fin 15) :
    (slice (bptcColumn (bptcRows (dmrBptcEncode19696 data12)) c) 9 4 : Bits 4) =
      dmrHam1393 (slice (bptcColumn (bptcRows (dmrBptcEncode19696 data12)) c) 0 9) := by
  have start : (slice (bptcColumn (bptcRows (dmrBptcEncode19696 data12)) c) 0 9 : Bits 9) =
      (dataRows data12).map fun row => row[c] := by
    refine Vector.ext fun r hr => ?_
    simpa [bptcColumn] using bptcRows_data data12 ⟨r, hr⟩ c
  rw [start]
  refine Vector.ext fun p hp => ?_
  simpa [bptcColumn, colChecks] using bptcRows_checks data12 ⟨p, hp⟩ c

theorem bptcInfo_encode : bptcInfo (dmrBptcEncode19696 data12) = bptcData data12 := by
  refine Vector.ext fun k hk => ?_
  have row : k / 11 < 9 := by omega
  have column : k % 11 < 11 := Nat.mod_lt k (by omega)
  have back : k % 11 + 11 * (k / 11) = k := Nat.mod_add_div k 11
  have cell := getElem_toRows (r := 9) (n := 11) (bptcData data12) (k / 11) (k % 11) row column (by omega)
  simp only [back] at cell
  have data := bptcRows_data data12 ⟨k / 11, row⟩ ⟨k % 11, by omega⟩
  rw [getElem_bptcRows] at data
  rw [← cell, bptcInfo, Vector.getElem_ofFn]
  refine data.trans ?_
  simp only [dataRows, Fin.getElem_fin, Vector.getElem_map, codeBlock]
  exact getElem_cat_left _ _ _ _ column

end Word

theorem bptcCodeword_encode (data12 : Bytes 12) : BptcCodeword (dmrBptcEncode19696 data12) data12 where
  zero := by
    obtain ⟨buf, done, word⟩ := dmrBptcEncode19696_buffer data12
    rw [word, Vector.getElem_ofFn]
    exact done.zero
  rows r := rowChecked_bptcRows data12 r.val r.isLt
  columns := columnChecked_bptcRows data12
  info := bptcInfo_encode data12

/-! ## The permuted word -/

theorem index181_eq : ∀ i : Fin 196, index181[i] = bptcPermute i := by decide +kernel

theorem index181_nodup : index181.toList.Nodup := by decide +kernel

theorem bptcPermute_bijective : Function.Bijective bptcPermute := by
  refine Finite.injective_iff_bijective.mp fun i j same => ?_
  have positions : 181 * i.val % 196 = 181 * j.val % 196 := congrArg Fin.val same
  exact Fin.ext (by omega)

theorem deinterleave_interleave (word : Bits 196) : deinterleave (interleave19696 word) = word := by
  refine Vector.ext fun i h => ?_
  have read := congrArg (fun v : Bits 196 => v[i]) (gather_scatter index181 word (Vector.replicate 196 false) index181_nodup)
  simp only [getElem_gather] at read
  rw [deinterleave, Vector.getElem_ofFn]
  exact (congrArg (fun p : Fin 196 => (interleave19696 word)[p]) (index181_eq ⟨i, h⟩).symm).trans read

/-- Where the decoder picks the bits of the LC: behind the three reserved bits. -/
theorem decodeLcIdx_eq : ∀ k : Fin 72, (decodeLcIdx.get k).val =
    181 * (1 + (3 + k.val) % 11 + 15 * ((3 + k.val) / 11)) % 196 := by
  decide +kernel

theorem dmrBptcDecodeFullLc_eq (received : Bits 196) :
    dmrBptcDecodeFullLc received = bitsToBytes (slice (bptcInfo (deinterleave received)) 3 72) := by
  have picked : gather decodeLcIdx received = slice (bptcInfo (deinterleave received)) 3 72 := by
    refine Vector.ext fun k h => ?_
    have place : 1 + (3 + k) % 11 + 15 * ((3 + k) / 11) < 196 := by omega
    have index : decodeLcIdx[k] = bptcPermute ⟨_, place⟩ := Fin.ext (decodeLcIdx_eq ⟨k, h⟩)
    rw [getElem_gather, getElem_slice, bptcInfo, Vector.getElem_ofFn, deinterleave, Vector.getElem_ofFn]
    exact congrArg (fun p : Fin 196 => received[p]) index
  rw [dmrBptcDecodeFullLc, picked]

theorem bptcInfo_deinterleave_encodeLc (lc : Bytes 9) (isTerm : Bool) :
    bptcInfo (deinterleave (dmrBptcEncodeLc lc isTerm)) = bptcData (cat lc (dmrRs129LcEncode lc isTerm)) := by
  rw [dmrBptcEncodeLc, deinterleave_interleave, bptcInfo_encode]

/-- Part of the data of a word: whole bytes behind the reserved bits. -/
theorem slice_bptcData (data12 : Bytes 12) (off len : Nat) (fits : off + len ≤ 12) (fits' : 3 + off * 8 + len * 8 ≤ 99) :
    bitsToBytes (slice (bptcData data12) (3 + off * 8) (len * 8) fits') (by omega) = slice data12 off len fits := by
  have bits : slice (bptcData data12) (3 + off * 8) (len * 8) fits' = bytesToBits (slice data12 off len fits) := by
    refine Vector.ext fun k h => ?_
    have byte : (off * 8 + k) / 8 = off + k / 8 := by omega
    have bit : (off * 8 + k) % 8 = k % 8 := by omega
    have behind : 3 + off * 8 + k - 3 = off * 8 + k := by omega
    rw [getElem_slice, bptcData, getElem_cat, dif_neg (by omega)]
    simp only [behind, getElem_bytesToBits, getElem_slice, byte, bit]
  rw [bits]
  exact bitsToBytes_bytesToBits _ _ _

theorem dmrBptcDecodeFullLc_encodeLc (lc : Bytes 9) (isTerm : Bool) :
    dmrBptcDecodeFullLc (dmrBptcEncodeLc lc isTerm) = lc := by
  rw [dmrBptcDecodeFullLc_eq, bptcInfo_deinterleave_encodeLc]
  refine (slice_bptcData _ 0 9 (by omega) (by omega)).trans (Vector.ext fun i h => ?_)
  rw [getElem_slice]
  simp only [Nat.zero_add]
  exact getElem_cat_left _ _ _ _ h

/-- The header and terminator words are code words of the product code, reserved bits zero and data in
order, and travel by the permutation `i ↦ 181 i mod 196`. -/
theorem bptc_product_codeword :
    (∀ data12 : Bytes 12, BptcCodeword (dmrBptcEncode19696 data12) data12) ∧
      Function.Bijective bptcPermute ∧
        ∀ (lc : Bytes 9) (isTerm : Bool) (i : Fin 196), (dmrBptcEncodeLc lc isTerm)[bptcPermute i] =
          (dmrBptcEncode19696 (cat lc (dmrRs129LcEncode lc isTerm)))[i] := by
  refine ⟨bptcCodeword_encode, bptcPermute_bijective, fun lc isTerm i => ?_⟩
  have bits := congrArg (fun word : Bits 196 => word[i.val])
    (deinterleave_interleave (dmrBptcEncode19696 (cat lc (dmrRs129LcEncode lc isTerm))))
  simp only [deinterleave, Vector.getElem_ofFn] at bits
  exact bits

/-- The full LC comes back from its word, and behind it its Reed-Solomon bytes. -/
theorem full_lc_round_trip (lc : Bytes 9) (isTerm : Bool) :
    dmrBptcDecodeFullLc (dmrBptcEncodeLc lc isTerm) = lc ∧
      bitsToBytes (slice (bptcInfo (deinterleave (dmrBptcEncodeLc lc isTerm))) 75 24) = dmrRs129LcEncode lc isTerm := by
  refine ⟨dmrBptcDecodeFullLc_encodeLc lc isTerm, ?_⟩
  rw [bptcInfo_deinterleave_encodeLc]
  refine (slice_bptcData _ 9 3 (by omega) (by omega)).trans (Vector.ext fun i h => ?_)
  rw [getElem_slice]
  exact getElem_cat_right _ _ _ _ h

end Cc2obp
