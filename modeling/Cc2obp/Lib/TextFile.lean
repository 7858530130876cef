import Cc2obp.Lib.CString
import Mathlib.Data.List.TakeWhile

/-!
# Reading a text file through a fixed buffer

`fgets` hands a file out in pieces: a line with its newline where that fits, else
as many bytes as the buffer holds. Text whose lines all fit comes out line by
line, and a long line comes out as one full piece after the other.
-/
namespace TextFile

/-- The pieces of what is left of a file, behind the bytes `got` for the piece in hand. -/
def piecesFrom (room : Nat) (got : List (BitVec 8)) : List (BitVec 8) → List (List (BitVec 8))
  | [] => if got = [] then [] else [got]
  | c :: rest =>
    if c = 0x0A ∨ got.length + 1 = room then (got ++ [c]) :: piecesFrom room [] rest
    else piecesFrom room (got ++ [c]) rest

/-- What `fgets` with a buffer of `size` bytes returns until the end of the file. -/
def fgets (size : Nat) (file : List (BitVec 8)) : List (List (BitVec 8)) := piecesFrom (size - 1) [] file

/-- A place in a file where a line starts. -/
def AtLine (before : List (BitVec 8)) : Prop := before = [] ∨ before.getLast? = some 0x0A

section Pieces
variable {room : Nat} {got line rest : List (BitVec 8)}

/-- Bytes that do not fill the buffer are kept for the piece in hand. -/
theorem piecesFrom_inLine (inLine : (0x0A : BitVec 8) ∉ line) (fits : got.length + line.length < room) :
    piecesFrom room got (line ++ rest) = piecesFrom room (got ++ line) rest := by
  induction line generalizing got with
  | nil => simp
  | cons c line ih =>
    have other : c ≠ 0x0A := fun same => inLine (by simp [same])
    have inLine' : (0x0A : BitVec 8) ∉ line := fun later => inLine (List.mem_cons_of_mem c later)
    simp only [List.length_cons] at fits
    have open_piece : ¬(c = 0x0A ∨ got.length + 1 = room) := by
      rintro (newline | full)
      · exact other newline
      · omega
    rw [List.cons_append, piecesFrom, if_neg open_piece, ih inLine' (by simp; omega)]
    simp

theorem piecesFrom_line (inLine : (0x0A : BitVec 8) ∉ line) (fits : got.length + line.length < room) :
    piecesFrom room got (line ++ 0x0A :: rest) = (got ++ line ++ [0x0A]) :: piecesFrom room [] rest := by
  rw [piecesFrom_inLine inLine fits, piecesFrom, if_pos (.inl rfl)]

theorem piecesFrom_end (inLine : (0x0A : BitVec 8) ∉ line) (fits : got.length + line.length < room) :
    piecesFrom room got line = if got ++ line = [] then [] else [got ++ line] := by
  have all : piecesFrom room got (line ++ []) = piecesFrom room (got ++ line) [] := piecesFrom_inLine inLine fits
  rw [List.append_nil] at all
  rw [all, piecesFrom]

/-- A line that fills the buffer is cut there. -/
theorem piecesFrom_full (inLine : (0x0A : BitVec 8) ∉ line) (some_byte : line ≠ [])
    (fills : got.length + line.length = room) :
    piecesFrom room got (line ++ rest) = (got ++ line) :: piecesFrom room [] rest := by
  obtain ⟨front, c, rfl⟩ : ∃ front c, line = front ++ [c] :=
    ⟨line.dropLast, line.getLast some_byte, (List.dropLast_append_getLast some_byte).symm⟩
  have inFront : (0x0A : BitVec 8) ∉ front := fun member => inLine (List.mem_append_left _ member)
  simp only [List.length_append, List.length_singleton] at fills
  rw [List.append_assoc, piecesFrom_inLine inFront (by omega), List.singleton_append, piecesFrom,
    if_pos (.inr (by simp; omega))]
  simp

/-- What comes before the start of a line is cut up on its own. -/
theorem piecesFrom_append (before : List (BitVec 8)) (ends : before.getLast? = some 0x0A) :
    piecesFrom room got (before ++ rest) = piecesFrom room got before ++ piecesFrom room [] rest := by
  induction before generalizing got with
  | nil => cases ends
  | cons c before ih =>
    cases before with
    | nil =>
      have newline : c = 0x0A := by simpa using ends
      simp [piecesFrom, newline]
    | cons d before =>
      have ends' : (d :: before).getLast? = some 0x0A := by simpa using ends
      rw [List.cons_append, piecesFrom]
      conv_rhs => rw [piecesFrom]
      split
      · rw [ih ends', List.cons_append]
      · rw [ih ends']

theorem fgets_append {size : Nat} {before : List (BitVec 8)} (start : AtLine before) (rest : List (BitVec 8)) :
    fgets size (before ++ rest) = fgets size before ++ fgets size rest := by
  rcases start with rfl | ends
  · rfl
  · exact piecesFrom_append before ends

end Pieces

/-! ## Lines that fit -/

/-- The lines of a file, without their newlines; behind the last newline an empty one. -/
def linesOf (file : List (BitVec 8)) : List (List (BitVec 8)) := file.splitOn 0x0A

/-- Lines as they stand in a file: each with its newline, the last without. -/
def withNewlines : List (List (BitVec 8)) → List (List (BitVec 8))
  | [] => []
  | [last] => if last = [] then [] else [last]
  | line :: next :: rest => (line ++ [0x0A]) :: withNewlines (next :: rest)

theorem newline_notMem_linesOf {file line : List (BitVec 8)} (member : line ∈ linesOf file) :
    (0x0A : BitVec 8) ∉ line := by
  induction file generalizing line with
  | nil =>
    have empty : line = [] := by simpa [linesOf] using member
    simp [empty]
  | cons c file ih =>
    rw [linesOf, List.splitOn_cons_eq_if_modifyHead] at member
    obtain ⟨first, rest, cut⟩ := List.exists_cons_of_ne_nil (List.splitOn_ne_nil (0x0A : BitVec 8) file)
    have later : ∀ line ∈ first :: rest, (0x0A : BitVec 8) ∉ line := fun line here => ih (by rw [linesOf, cut]; exact here)
    rw [cut] at member
    split at member
    next newline =>
      rcases List.mem_cons.mp member with rfl | here
      · simp
      · exact later line here
    next other =>
      rcases List.mem_cons.mp member with rfl | here
      · have apart : c ≠ 0x0A := by simpa using other
        intro bad
        rcases List.mem_cons.mp bad with same | there
        · exact apart same.symm
        · exact later first (by simp) there
      · exact later line (List.mem_cons_of_mem first here)

/-- A file of short lines is read line by line. -/
theorem fgets_eq_withNewlines {size : Nat} {file : List (BitVec 8)}
    (short : ∀ line ∈ linesOf file, line.length + 1 < size) : fgets size file = withNewlines (linesOf file) := by
  have inLine : ∀ line ∈ linesOf file, (0x0A : BitVec 8) ∉ line := fun line => newline_notMem_linesOf
  have whole : ([0x0A] : List (BitVec 8)).intercalate (linesOf file) = file := List.intercalate_splitOn 0x0A
  conv_lhs => rw [← whole]
  generalize linesOf file = lines at short inLine
  induction lines with
  | nil => rfl
  | cons line lines ih =>
    have fits := short line (by simp)
    cases lines with
    | nil =>
      rw [List.intercalate_singleton, fgets, piecesFrom_end (inLine line (by simp)) (by simp; omega), withNewlines]
      simp
    | cons next rest =>
      rw [List.intercalate_cons_cons, List.append_assoc, List.singleton_append, fgets,
        piecesFrom_line (inLine line (by simp)) (by simp; omega), withNewlines]
      have later := ih (fun l member => short l (List.mem_cons_of_mem line member))
        (fun l member => inLine l (List.mem_cons_of_mem line member))
      rw [← fgets, later]
      rfl

end TextFile
