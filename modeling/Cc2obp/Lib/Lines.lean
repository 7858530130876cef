import Cc2obp.Lib.CString

/-!
# Line reassembly

Bytes of a stream are pushed into a bounded buffer; every newline hands the
buffered line to a callback and empties the buffer. The buffer lives inside the
state the callback works on, reached through a pair of accessors.
-/
namespace Lines

variable {σ : Type*}

/-- Where the buffer is in the state. -/
structure Buffer (σ : Type*) where
  get : σ → List (BitVec 8)
  put : List (BitVec 8) → σ → σ

/-- A byte is kept while there is room for it and a terminator. -/
def push (cap : Nat) (rx : List (BitVec 8)) (b : BitVec 8) : List (BitVec 8) :=
  if rx.length < cap - 1 then rx ++ [b] else rx

/-- One trailing carriage return removed. -/
def stripCr (l : List (BitVec 8)) : List (BitVec 8) :=
  if l.getLast? = some 0x0D then l.dropLast else l

/-- The line in a buffer that ends with its newline, as a C string. -/
def lineOf (rx : List (BitVec 8)) : List (BitVec 8) := CString.cstr (stripCr rx.dropLast)

def feedByte (buf : Buffer σ) (cap : Nat) (cb : List (BitVec 8) → σ → σ) (s : σ) (b : BitVec 8) : σ :=
  let s := buf.put (push cap (buf.get s) b) s
  if b = 0x0A then buf.put [] (cb (lineOf (buf.get s)) s) else s

def feedBytes (buf : Buffer σ) (cap : Nat) (cb : List (BitVec 8) → σ → σ) (data : List (BitVec 8))
    (s : σ) : σ :=
  data.foldl (feedByte buf cap cb) s

section
variable (buf : Buffer σ) (cap : Nat) (cb : List (BitVec 8) → σ → σ)

@[simp] theorem feedBytes_nil (s : σ) : feedBytes buf cap cb [] s = s := rfl

/-- Where a stream is cut does not matter to its reader. -/
theorem feedBytes_append (data data' : List (BitVec 8)) (s : σ) :
    feedBytes buf cap cb (data ++ data') s = feedBytes buf cap cb data' (feedBytes buf cap cb data s) := by
  simp [feedBytes]

theorem feedBytes_cons (b : BitVec 8) (data : List (BitVec 8)) (s : σ) :
    feedBytes buf cap cb (b :: data) s = feedBytes buf cap cb data (feedByte buf cap cb s b) := rfl

/-- What each byte preserves, a chunk preserves. -/
theorem feedBytes_invariant (inv : σ → Prop)
    (preserved : ∀ s b, inv s → inv (feedByte buf cap cb s b)) (data : List (BitVec 8)) (s : σ)
    (start : inv s) : inv (feedBytes buf cap cb data s) := by
  induction data generalizing s with
  | nil => exact start
  | cons b data ih => exact ih _ (preserved s b start)

end

/-! ## The lines of a chunk -/

/-- The lines a chunk completes, and what is left in the buffer. -/
def cut (cap : Nat) : List (BitVec 8) → List (BitVec 8) → List (List (BitVec 8)) × List (BitVec 8)
  | rx, [] => ([], rx)
  | rx, b :: data =>
    let rx := push cap rx b
    if b = 0x0A then
      let rest := cut cap [] data
      (lineOf rx :: rest.1, rest.2)
    else cut cap rx data

section Cut
variable (cap : Nat)

theorem cut_append (rx data data' : List (BitVec 8)) :
    cut cap rx (data ++ data') =
      ((cut cap rx data).1 ++ (cut cap (cut cap rx data).2 data').1, (cut cap (cut cap rx data).2 data').2) := by
  induction data generalizing rx with
  | nil => rfl
  | cons b data ih =>
    simp only [List.cons_append, cut]
    split
    · simp [ih]
    · exact ih _

/-- Bytes for which there is room are all kept. -/
theorem cut_inLine {rx line : List (BitVec 8)} (inLine : (0x0A : BitVec 8) ∉ line)
    (room : rx.length + line.length < cap) : cut cap rx line = ([], rx ++ line) := by
  induction line generalizing rx with
  | nil => simp [cut]
  | cons b line ih =>
    have other : b ≠ 0x0A := fun same => inLine (by simp [same])
    simp only [List.length_cons] at room
    have kept : push cap rx b = rx ++ [b] := if_pos (by omega)
    have inLine' : (0x0A : BitVec 8) ∉ line := fun later => inLine (List.mem_cons_of_mem b later)
    rw [cut, if_neg other, kept, ih inLine' (by simp; omega)]
    simp

/-- A line that is a C string and does not end in a carriage return. -/
structure IsLine (line : List (BitVec 8)) : Prop where
  inLine : (0x0A : BitVec 8) ∉ line
  noNul : (0 : BitVec 8) ∉ line
  noCr : line.getLast? ≠ some 0x0D

theorem lineOf_line {line : List (BitVec 8)} (isLine : IsLine line) : lineOf (line ++ [0x0A]) = line := by
  have whole : ∀ c ∈ line, (c != 0) = true := by
    intro c member
    have nonzero : c ≠ 0 := fun zero => isLine.noNul (zero ▸ member)
    simpa using nonzero
  have taken : (line ++ []).takeWhile (· != 0) = line ++ ([] : List (BitVec 8)).takeWhile (· != 0) :=
    List.takeWhile_append_of_pos whole
  rw [List.append_nil] at taken
  rw [lineOf, List.dropLast_concat, stripCr, if_neg isLine.noCr, CString.cstr, taken]
  simp

/-- Text that fits comes out as the line in it. -/
theorem cut_text {line : List (BitVec 8)} (inLine : (0x0A : BitVec 8) ∉ line) (room : line.length + 1 < cap)
    (data : List (BitVec 8)) :
    cut cap [] (line ++ 0x0A :: data) = (lineOf (line ++ [0x0A]) :: (cut cap [] data).1, (cut cap [] data).2) := by
  have kept : push cap line 0x0A = line ++ [0x0A] := if_pos (by omega)
  have out := congrArg lineOf kept
  rw [cut_append, cut_inLine cap inLine (by simpa using by omega)]
  simpa [cut] using out

/-- A line that fits comes out as it was sent. -/
theorem cut_line {line : List (BitVec 8)} (isLine : IsLine line) (room : line.length + 1 < cap) (data : List (BitVec 8)) :
    cut cap [] (line ++ 0x0A :: data) = (line :: (cut cap [] data).1, (cut cap [] data).2) := by
  rw [cut_text cap isLine.inLine room, lineOf_line isLine]

theorem length_cut (rx data : List (BitVec 8)) : (cut cap rx data).1.length = data.count 0x0A := by
  induction data generalizing rx with
  | nil => rfl
  | cons b data ih =>
    rw [cut]
    by_cases ends : b = 0x0A
    · rw [if_pos ends, ends, List.count_cons_self, List.length_cons, ih]
    · rw [if_neg ends, List.count_cons_of_ne ends, ih]

end Cut

end Lines
