import Cc2obp.Dmr.Blocks

/-!
# The embedded LC at a receiver

A receiver lays the four fragments out as the columns of an 8 by 16 matrix: seven
rows of data with their check bits and one of column parities. The pick table of
the encoder reads index 24 twice, so that row 1 repeats its column 8 in column 9.
-/
namespace Cc2obp

/-- The matrix of four fragments: fragment `k` fills columns `4k` to `4k + 3`, each from the top. -/
def embMatrix (fragments : Vector (Bits 32) 4) : Vector (Bits 16) 8 :=
  Vector.ofFn fun r => Vector.ofFn fun c =>
    fragments[c.val / 4][c.val % 4 * 8 + r.val]

/-- The 77 data bits of the matrix, row after row. -/
def embData (m : Vector (Bits 16) 8) : Bits 77 :=
  Vector.ofFn fun k => m[k.val / 11][k.val % 11]

/-- Where the checksum bits stand among the data bits, the highest first. -/
def embCsumIdx : Vector (Fin 77) 5 := #v[32, 43, 54, 65, 76]

/-- Where the LC bits stand among the data bits. -/
def embLcIdx : Vector (Fin 77) 72 := Vector.ofFn fun k =>
  Fin.ofNat 77 (if k.val < 32 then k.val else k.val + (k.val - 32) / 10 + 1)

/-- The five bits of the checksum, the highest first. -/
def csum5Bits (lc : Bytes 9) : Bits 5 := Vector.ofFn fun k => (dmrCsum5 lc).getLsbD (4 - k)

/-- A matrix that carries an LC: rows of the Hamming code, columns of even parity, the LC and its
checksum in the data bits. -/
structure EmbCarries (m : Vector (Bits 16) 8) (lc : Bytes 9) : Prop where
  rows : ∀ r : Fin 7, (slice m[r.val] 11 5 : Bits 5) = dmrHam16114 (slice m[r.val] 0 11)
  columns : ∀ c : Fin 16, m.foldl (fun parity row => parity ^^ row[c]) false = false
  lcBits : gather embLcIdx (embData m) = bytesToBits lc
  csumBits : gather embCsumIdx (embData m) = csum5Bits lc

/-! ## The matrix of the encoder -/

theorem lc_size : 72 = 9 * 8 := rfl

/-- The data bits of the encoder: the LC with the checksum inserted. -/
def emblcData (lc : Bytes 9) : List Bool :=
  let cs := dmrCsum5 lc
  ((((((bytesToBits lc lc_size).toList.insertIdx 32 (cs.getLsbD 4)).insertIdx 43 (cs.getLsbD 3)).insertIdx 54
    (cs.getLsbD 2)).insertIdx 65 (cs.getLsbD 1)).insertIdx 76 (cs.getLsbD 0))

theorem length_emblcData (lc : Bytes 9) : (emblcData lc).length = 77 := by
  simp [emblcData, List.length_insertIdx]

def emblcWord (lc : Bytes 9) : Bits 77 := Vector.ofFn fun k => (emblcData lc).getD k false

theorem toList_emblcWord (lc : Bytes 9) : (emblcWord lc).toList = emblcData lc := by
  refine List.ext_getElem (by simp [length_emblcData]) fun k h h' => ?_
  simp [emblcWord, h']

/-- An LC bit stands behind the checksum bits inserted before it. -/
theorem emblcData_lcBit (lc : Bytes 9) (k : Nat) (h : k < 72) :
    (emblcData lc)[if k < 32 then k else k + (k - 32) / 10 + 1]? = (bytesToBits lc).toList[k]? := by
  unfold emblcData
  rcases Nat.lt_or_ge k 32 with first | past
  · rw [if_pos first]
    simp (disch := omega) only [List.getElem?_insertIdx_of_lt]
  · rw [if_neg (by omega)]
    -- ten LC bits between one checksum bit and the next
    obtain ten | ten | ten | ten : (k - 32) / 10 = 0 ∨ (k - 32) / 10 = 1 ∨ (k - 32) / 10 = 2 ∨ (k - 32) / 10 = 3 := by
      omega
    all_goals
      rw [ten]
      simp (disch := omega) only [List.getElem?_insertIdx_of_lt, List.getElem?_insertIdx_of_gt,
        Nat.add_sub_cancel, Nat.add_zero, Nat.sub_sub, Nat.reduceAdd]

theorem emblcWord_lcBits (lc : Bytes 9) : gather embLcIdx (emblcWord lc) = bytesToBits lc := by
  have index : ∀ k : Fin 72, (embLcIdx[k]).val = if k.val < 32 then k.val else k.val + (k.val - 32) / 10 + 1 := by
    decide +kernel
  refine Vector.ext fun k h => ?_
  have here := index ⟨k, h⟩
  simp only [Fin.getElem_fin] at here
  simp only [getElem_gather, emblcWord, Fin.getElem_fin, Vector.getElem_ofFn, here, List.getD_eq_getElem?_getD,
    emblcData_lcBit lc k h]
  simp [h]

theorem emblcWord_csumBits (lc : Bytes 9) : gather embCsumIdx (emblcWord lc) = csum5Bits lc := by
  refine Vector.ext fun k h => ?_
  simp only [getElem_gather, emblcWord, Fin.getElem_fin, Vector.getElem_ofFn, csum5Bits, emblcData,
    List.getD_eq_getElem?_getD]
  interval_cases k
  all_goals simp [embCsumIdx, List.getElem_insertIdx, List.length_insertIdx]

/-- The seven rows with their check bits. -/
def emblcRows (lc : Bytes 9) : Vector (Bits 16) 7 :=
  (toRows (r := 7) (n := 11) (emblcWord lc)).map (codeBlock dmrHam16114)

theorem insertEmbRows (lc : Bytes 9) :
    [0, 16, 32, 48, 64, 80, 96].foldl insertEmbRow (emblcData lc) = (emblcRows lc).flatten.toList := by
  have inserted := insertChecks_rows (r := 7) (n := 11) dmrHam16114 (emblcWord lc) [] []
  rw [List.append_nil, List.append_nil, List.nil_append, List.nil_append, toList_emblcWord] at inserted
  exact inserted

/-- The parity of every column. -/
def columnParity (rows : Vector (Bits 16) 7) : Bits 16 :=
  Vector.ofFn fun c => rows.foldl (fun parity row => parity ^^ row[c]) false

theorem insertEmbColumn_behind (rows : Vector (Bits 16) 7) (added : List Bool) (c : Nat) (h : c < 16)
    (behind : added.length = c) : insertEmbColumn (rows.flatten.toList ++ added) c =
      rows.flatten.toList ++ (added ++ [(columnParity rows)[c]]) := by
  have bit : ∀ r q, (hr : r < 7) → q = c + 16 * r →
      (rows.flatten.toList ++ added).getD q false = rows[r][c] := by
    rintro r q hr rfl
    have inside : c + 16 * r < 7 * 16 := by omega
    rw [List.getD_eq_getElem?_getD, List.getElem?_append_left (by simpa using inside)]
    simp [inside, getElem_flatten_row rows r c hr h]
  have parity : (columnParity rows)[c] = (rows[0][c] ^^ rows[1][c] ^^ rows[2][c] ^^ rows[3][c] ^^ rows[4][c]
      ^^ rows[5][c] ^^ rows[6][c]) := by
    have list : rows.toList = [rows[0], rows[1], rows[2], rows[3], rows[4], rows[5], rows[6]] := by
      refine List.ext_getElem (by simp) fun i inside _ => ?_
      have inside : i < 7 := by simpa using inside
      interval_cases i <;> rfl
    rw [columnParity, Vector.getElem_ofFn, ← Vector.foldl_toList, list]
    simp
  have inserted := insertIdx_append_self (rows.flatten.toList ++ added) [] (columnParity rows)[c]
  rw [List.append_nil, List.append_assoc] at inserted
  rw [← inserted, insertEmbColumn, bit 0 c (by omega) rfl, bit 1 _ (by omega) rfl, bit 2 _ (by omega) rfl,
    bit 3 _ (by omega) rfl, bit 4 _ (by omega) rfl, bit 5 _ (by omega) rfl, bit 6 _ (by omega) rfl, parity]
  congr 1
  simp [behind]
  omega

/-- The column parities go behind the rows, one after the other. -/
theorem insertEmbColumns (rows : Vector (Bits 16) 7) (n : Nat) (h : n ≤ 16) :
    (List.range n).foldl insertEmbColumn rows.flatten.toList =
      rows.flatten.toList ++ (columnParity rows).toList.take n := by
  induction n with
  | zero => simp
  | succ n ih =>
    rw [List.range_succ, List.foldl_append, ih (by omega), List.foldl_cons, List.foldl_nil,
      insertEmbColumn_behind rows _ n (by omega) (by simp; omega), List.take_add_one]
    simp [show n < 16 by omega]

/-- The matrix the encoder builds, as eight rows. -/
def emblcCode (lc : Bytes 9) : Vector (Bits 16) 8 := (emblcRows lc).push (columnParity (emblcRows lc))

theorem emblcMatrix_eq (lc : Bytes 9) : emblcMatrix lc = (emblcCode lc).flatten.toList := by
  have built := insertEmbColumns (emblcRows lc) 16 (Nat.le_refl 16)
  rw [← insertEmbRows] at built
  have whole : (columnParity (emblcRows lc)).toList.take 16 = (columnParity (emblcRows lc)).toList := by
    simp
  have last : (emblcCode lc).flatten.toList =
      (emblcRows lc).flatten.toList ++ (columnParity (emblcRows lc)).toList := by
    simp [toList_flatten, emblcCode, Vector.toList_push]
  rw [last, ← insertEmbRows, ← whole, ← built]
  rfl

theorem emblcMatrix_getD (lc : Bytes 9) (r c : Nat) (hr : r < 8) (hc : c < 16) :
    (emblcMatrix lc).getD (c + 16 * r) false = (emblcCode lc)[r][c] := by
  have inside : c + 16 * r < 8 * 16 := by omega
  rw [emblcMatrix_eq, List.getD_eq_getElem?_getD]
  simp [inside, getElem_flatten_row (emblcCode lc) r c hr hc]

theorem embCarries_emblcCode (lc : Bytes 9) : EmbCarries (emblcCode lc) lc := by
  have data : embData (emblcCode lc) = emblcWord lc := by
    refine Vector.ext fun k h => ?_
    have row : k / 11 < 7 := by omega
    have back : k % 11 + 11 * (k / 11) = k := Nat.mod_add_div k 11
    have cell := getElem_toRows (r := 7) (n := 11) (emblcWord lc) (k / 11) (k % 11) row (Nat.mod_lt k (by omega)) (by omega)
    simp only [back] at cell
    rw [← cell]
    simp only [embData, Vector.getElem_ofFn, emblcCode, Vector.getElem_push_lt row, emblcRows, Vector.getElem_map,
      codeBlock]
    exact getElem_cat_left _ _ _ _ (Nat.mod_lt k (by omega))
  constructor
  case rows =>
    intro r
    have row := r.isLt
    simp only [emblcCode, Vector.getElem_push_lt row, emblcRows, Vector.getElem_map]
    exact (slice_codeBlock_check _ _ _).trans (congrArg dmrHam16114 (slice_codeBlock_data _ _ _).symm)
  case columns =>
    intro c
    simp [emblcCode, Vector.foldl_push, columnParity]
  case lcBits => rw [data, emblcWord_lcBits]
  case csumBits => rw [data, emblcWord_csumBits]

/-! ## The fragments -/

theorem fragment_size : 32 = 4 * 8 := rfl

/-- The bits of the four fragments. -/
def emblcFragments (lc : Bytes 9) : Vector (Bits 32) 4 :=
  (dmrEncodeEmblc lc).map fun fragment => bytesToBits fragment fragment_size

/-- The table picks every position of the matrix but one. -/
theorem emblcIdx_eq : ∀ (r : Fin 8) (c : Fin 16), (emblcIdx[c.val / 4])[c.val % 4 * 8 + r.val] =
    (if r = 1 ∧ c = 9 then 8 else c.val) + 16 * r.val := by
  decide +kernel

theorem getElem_embMatrix (lc : Bytes 9) (r c : Nat) (hr : r < 8) (hc : c < 16) :
    (embMatrix (emblcFragments lc))[r][c] = if r = 1 ∧ c = 9 then (emblcCode lc)[1][8] else (emblcCode lc)[r][c] := by
  have picked := emblcIdx_eq ⟨r, hr⟩ ⟨c, hc⟩
  simp only [Fin.ext_iff] at picked
  have bits := bytesToBits_bitsToBytes ((emblcIdx[c / 4]).map fun i => (emblcMatrix lc).getD i false) rfl rfl
    (c % 4 * 8 + r) (by omega) (by omega)
  simp only [embMatrix, Vector.getElem_ofFn, emblcFragments, dmrEncodeEmblc, Vector.getElem_map]
  rw [bits, Vector.getElem_map, picked]
  by_cases again : r = 1 ∧ c = 9
  · obtain ⟨rfl, rfl⟩ := again
    exact emblcMatrix_getD lc 1 8 (by omega) (by omega)
  · rw [if_neg again]
    exact (congrArg (fun q => (emblcMatrix lc).getD q false) (by simp [again])).trans (emblcMatrix_getD lc r c hr hc)

/-- Row 1 of the laid out matrix repeats its column 8 in column 9. -/
theorem embMatrix_emblcFragments (lc : Bytes 9) :
    embMatrix (emblcFragments lc) = (emblcCode lc).set 1 ((emblcCode lc)[1].set 9 (emblcCode lc)[1][8]) := by
  refine Vector.ext fun r hr => Vector.ext fun c hc => ?_
  rw [getElem_embMatrix lc r c hr hc]
  by_cases row : r = 1
  · subst row
    by_cases column : c = 9
    · subst column
      simp
    · simp [column, Ne.symm column]
  · simp [row, Ne.symm row]

theorem EmbCarries.row_one {m : Vector (Bits 16) 8} {lc : Bytes 9} (carries : EmbCarries m lc) :
    m[1][8] = (bytesToBits (k := 72) lc)[19] ∧ m[1][9] = (bytesToBits (k := 72) lc)[20] := by
  have first : embLcIdx[19] = 19 := by decide +kernel
  have second : embLcIdx[20] = 20 := by decide +kernel
  rw [← carries.lcBits]
  constructor
  · simp only [getElem_gather, first]
    simp [embData]
  · simp only [getElem_gather, second]
    simp [embData]

/-- The fragments carry the LC when row 1 repeats what is there anyway. -/
theorem embCarries_emblcFragments (lc : Bytes 9) : EmbCarries (embMatrix (emblcFragments lc)) lc ↔
    (bytesToBits (k := 72) lc)[19] = (bytesToBits (k := 72) lc)[20] := by
  have code := (embCarries_emblcCode lc).row_one
  constructor
  · intro carries
    obtain ⟨first, second⟩ := carries.row_one
    rw [← first, ← second, getElem_embMatrix _ 1 8 (by omega) (by omega), getElem_embMatrix _ 1 9 (by omega) (by omega)]
    rfl
  · intro same
    have repeated : (emblcCode lc)[1][8] = (emblcCode lc)[1][9] := by rw [code.1, code.2, same]
    have whole : embMatrix (emblcFragments lc) = emblcCode lc := by
      rw [embMatrix_emblcFragments, repeated]
      simp
    rw [whole]
    exact embCarries_emblcCode lc

/-- For every LC the fragments are those of a matrix that carries it, except that row 1 repeats its
column 8 in column 9; so they carry the LC exactly when its bits 19 and 20 agree. -/
theorem emblc_layout (lc : Bytes 9) :
    (∃ m, EmbCarries m lc ∧ embMatrix (emblcFragments lc) = m.set 1 (m[1].set 9 m[1][8])) ∧
      (EmbCarries (embMatrix (emblcFragments lc)) lc ↔
        (bytesToBits (k := 72) lc)[19] = (bytesToBits (k := 72) lc)[20]) :=
  ⟨⟨emblcCode lc, embCarries_emblcCode lc, embMatrix_emblcFragments lc⟩, embCarries_emblcFragments lc⟩

/-- Bit 19 of an LC set and bit 20 not. -/
theorem emblc_layout_spoiled : ¬∀ lc : Bytes 9, EmbCarries (embMatrix (emblcFragments lc)) lc := by
  intro all
  have same := (embCarries_emblcFragments #v[0, 0, 0x10, 0, 0, 0, 0, 0, 0]).mp (all _)
  simp at same

end Cc2obp
