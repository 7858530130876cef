import Cc2obp.Dmr.Bptc
import Mathlib.Logic.Equiv.Fin.Basic

/-!
# Words built by insertion

Both encoders insert the check bits of each data block after it, into a buffer
that grows under them. Behind the blocks already done, a buffer of data blocks
becomes a buffer of code blocks.
-/
namespace Cc2obp

theorem insertIdx_append_self {α : Type} (before after : List α) (x : α) :
    (before ++ after).insertIdx before.length x = before ++ x :: after := by
  induction before with
  | nil => simp
  | cons first rest ih => simp [ih]

theorem insertAll_append (before after vals : List Bool) :
    insertAll (before ++ after) before.length vals = before ++ vals ++ after := by
  induction vals generalizing before with
  | nil => simp [insertAll]
  | cons v vals ih =>
    have next := ih (before ++ [v])
    simp only [List.append_assoc, List.length_append, List.length_singleton, List.cons_append, List.nil_append] at next
    simp only [insertAll, List.foldl_cons, insertIdx_append_self] at next ⊢
    simpa using next

theorem bitsAt_append {n : Nat} (before after : List Bool) (block : Bits n) :
    bitsAt (before ++ (block.toList ++ after)) before.length n 1 = block := by
  refine Vector.ext fun k h => ?_
  have inside : k < block.toList.length := by simpa using h
  simp [bitsAt, List.getElem?_append_right (Nat.le_add_right before.length k), List.getElem?_append_left inside, h]

/-- A data block with its check bits behind it. -/
def codeBlock {n p : Nat} (check : Bits n → Bits p) (block : Bits n) : Bits (n + p) :=
  cat block (check block)

@[simp] theorem toList_codeBlock {n p : Nat} (check : Bits n → Bits p) (block : Bits n) :
    (codeBlock check block).toList = block.toList ++ (check block).toList := by
  refine List.ext_getElem (by simp) fun k h h' => ?_
  simp only [codeBlock, Vector.getElem_toList, getElem_cat, List.getElem_append, Vector.length_toList]

theorem slice_codeBlock_data {n p : Nat} (check : Bits n → Bits p) (block : Bits n) (fits : 0 + n ≤ n + p) :
    slice (codeBlock check block) 0 n fits = block := by
  refine Vector.ext fun k h => ?_
  simp [codeBlock, h]

theorem slice_codeBlock_check {n p : Nat} (check : Bits n → Bits p) (block : Bits n) (fits : n + p ≤ n + p) :
    slice (codeBlock check block) n p fits = check block := by
  refine Vector.ext fun k h => ?_
  rw [getElem_slice]
  exact getElem_cat_right _ _ _ k h

/-- The check bits of every block, inserted block after block. -/
theorem insertChecks {n p : Nat} (check : Bits n → Bits p) (blocks : List (Bits n)) (before after : List Bool) :
    (List.range' before.length blocks.length (n + p)).foldl
        (fun buf start => insertAll buf (start + n) (check (bitsAt buf start n 1)).toList)
        (before ++ (blocks.map Vector.toList).flatten ++ after) =
      before ++ (blocks.map fun block => (codeBlock check block).toList).flatten ++ after := by
  induction blocks generalizing before with
  | nil => rfl
  | cons block rest ih =>
    have inserted := insertAll_append (before ++ block.toList) ((rest.map Vector.toList).flatten ++ after)
      (check block).toList
    have next := ih (before ++ (codeBlock check block).toList)
    simp only [List.length_append, Vector.length_toList, toList_codeBlock, List.append_assoc] at inserted next
    simp only [List.length_cons, List.range'_succ, List.foldl_cons, List.map_cons, List.flatten_cons,
      List.append_assoc, bitsAt_append, inserted, toList_codeBlock]
    exact next

/-! ## Rows of a word -/

/-- A word cut into rows. -/
def toRows {α : Type} {r n : Nat} (word : Vector α (r * n)) : Vector (Vector α n) r :=
  Vector.ofFn fun i => Vector.ofFn fun j => word[finProdFinEquiv (i, j)]

theorem getElem_flatten_row {α : Type} {r n : Nat} (rows : Vector (Vector α n) r) (i j : Nat) (hi : i < r) (hj : j < n)
    (h : j + n * i < r * n) : rows.flatten[j + n * i] = rows[i][j] := by
  have row : (j + n * i) / n = i := by
    rw [Nat.add_mul_div_left _ _ (by omega), Nat.div_eq_of_lt hj, Nat.zero_add]
  have column : (j + n * i) % n = j := by
    rw [Nat.add_mul_mod_self_left, Nat.mod_eq_of_lt hj]
  rw [Vector.getElem_flatten]
  simp only [row, column]

theorem getElem_toRows {α : Type} {r n : Nat} (word : Vector α (r * n)) (i j : Nat) (hi : i < r) (hj : j < n)
    (h : j + n * i < r * n) : (toRows word)[i][j] = word[j + n * i] := by
  simp [toRows]

theorem flatten_toRows {α : Type} {r n : Nat} (word : Vector α (r * n)) : (toRows word).flatten = word := by
  refine Vector.ext fun i h => ?_
  simp [toRows, Nat.mod_add_div]

theorem toList_flatten {α : Type} {r n : Nat} (rows : Vector (Vector α n) r) :
    rows.flatten.toList = (rows.toList.map Vector.toList).flatten := by
  rcases rows with ⟨⟨l⟩, rfl⟩
  simp only [Vector.flatten_mk, List.map_toArray, Array.flatten_toArray, List.map_map, Function.comp_def]
  rfl

/-- The check bits of every row, inserted row after row. -/
theorem insertChecks_rows {n p r : Nat} (check : Bits n → Bits p) (word : Bits (r * n)) (before after : List Bool) :
    (List.range' before.length r (n + p)).foldl
        (fun buf start => insertAll buf (start + n) (check (bitsAt buf start n 1)).toList)
        (before ++ word.toList ++ after) =
      before ++ ((toRows word).map (codeBlock check)).flatten.toList ++ after := by
  have inserted := insertChecks check (toRows word).toList before after
  rw [← toList_flatten, flatten_toRows] at inserted
  rw [toList_flatten, Vector.toList_map, List.map_map]
  simpa [Function.comp_def] using inserted

end Cc2obp
