import Cc2obp.Config.TomlFile
import Mathlib.Data.List.DropRight

/-!
# The lines of a file

Reading a file is reading what its lines say, one after the other; the line number
only goes into an error. A newline, blanks around a line and what follows a
comment's hash make no difference to what the line says.
-/
namespace Cc2obp

open CString TextFile

/-! ## Blanks -/

def IsBlank (s : List Byte) : Prop := ∀ c ∈ s, isSpace c = true

theorem IsBlank.append {s t : List Byte} (hs : IsBlank s) (ht : IsBlank t) : IsBlank (s ++ t) := by
  intro c member
  rcases List.mem_append.mp member with first | second
  · exact hs c first
  · exact ht c second

section Trim
variable {s blanks : List Byte}

theorem trim_eq (s : List Byte) : trim s = (s.dropWhile isSpace).rdropWhile isSpace := rfl

theorem trim_of_blank (blank : IsBlank s) : trim s = [] := by
  rw [trim_eq, List.dropWhile_eq_nil_iff.mpr blank]
  rfl

/-- What `trim` takes off is blanks at both ends. -/
theorem trim_split (s : List Byte) : ∃ front back, s = front ++ trim s ++ back ∧ IsBlank front ∧ IsBlank back := by
  refine ⟨s.takeWhile isSpace, (s.dropWhile isSpace).rtakeWhile isSpace, ?_, ?_, ?_⟩
  · rw [trim_eq, List.append_assoc, List.rdropWhile_append_rtakeWhile, List.takeWhile_append_dropWhile]
  · exact fun c member => List.mem_takeWhile_imp member
  · exact fun c member => List.mem_rtakeWhile_imp member

theorem trim_eq_nil_iff : trim s = [] ↔ IsBlank s := by
  constructor
  · intro empty
    obtain ⟨front, back, split, lead, tail⟩ := trim_split s
    rw [split, empty, List.append_nil]
    exact lead.append tail
  · exact trim_of_blank

theorem trim_append_blank (blank : IsBlank blanks) (s : List Byte) : trim (s ++ blanks) = trim s := by
  have back : ∀ t : List Byte, (t ++ blanks).rdropWhile isSpace = t.rdropWhile isSpace := by
    intro t
    rw [List.rdropWhile, List.reverse_append, List.dropWhile_append_of_pos, List.rdropWhile]
    exact fun c member => blank c (List.mem_reverse.mp member)
  by_cases all : IsBlank s
  · rw [trim_of_blank all, trim_of_blank (all.append blank)]
  · have front : (s ++ blanks).dropWhile isSpace = s.dropWhile isSpace ++ blanks := by
      rw [List.dropWhile_append, if_neg]
      rw [List.isEmpty_iff, List.dropWhile_eq_nil_iff]
      exact all
    rw [trim_eq, trim_eq, front, back]

theorem trim_blank_append (blank : IsBlank blanks) (s : List Byte) : trim (blanks ++ s) = trim s := by
  rw [trim, trim, List.dropWhile_append_of_pos blank]

/-- Text without a blank at either end. -/
structure Trimmed (s : List Byte) : Prop where
  head : ∀ c ∈ s.head?, isSpace c = false
  last : ∀ c ∈ s.getLast?, isSpace c = false

theorem trim_of_trimmed (trimmed : Trimmed s) : trim s = s := by
  have front : s.dropWhile isSpace = s := by
    cases s with
    | nil => rfl
    | cons c s => simp [trimmed.head c rfl]
  have back : s.rdropWhile isSpace = s := by
    rw [List.rdropWhile_eq_self_iff]
    intro some_byte
    simp [trimmed.last _ (List.getLast?_eq_some_getLast some_byte)]
  rw [trim_eq, front, back]

theorem trimmed_trim (s : List Byte) : Trimmed (trim s) := by
  have last : ∀ c ∈ (trim s).getLast?, isSpace c = false := by
    intro c here
    have some_byte : trim s ≠ [] := by
      intro empty
      simp [empty] at here
    have notSpace := List.rdropWhile_last_not isSpace (s.dropWhile isSpace) some_byte
    rw [List.getLast?_eq_some_getLast some_byte, Option.mem_some_iff] at here
    rw [← here]
    exact Bool.eq_false_iff.mpr notSpace
  have head : ∀ c ∈ (trim s).head?, isSpace c = false := by
    intro c here
    -- the head of what is left is the head of the text without its leading blanks
    obtain ⟨back, split⟩ := List.rdropWhile_prefix isSpace (s.dropWhile isSpace)
    rw [← trim_eq] at split
    have lead : (s.dropWhile isSpace).head? = some c := by
      rw [← split, List.head?_append, here]
      rfl
    have filled : s.dropWhile isSpace ≠ [] := by
      intro empty
      simp [empty] at lead
    have notSpace := List.head_dropWhile_not isSpace filled
    rw [List.head?_eq_some_head filled, Option.some.injEq] at lead
    simpa [lead] using notSpace
  exact ⟨head, last⟩

theorem trim_trim (s : List Byte) : trim (trim s) = trim s := trim_of_trimmed (trimmed_trim s)

theorem trimcpy_eq (cap : Nat) (s : List Byte) : trimcpy cap s = (trim s).take (cap - 1) := rfl

end Trim

/-! ## Comments -/

/-- What `strip_comment` is inside of after some text. -/
def Quoting.after (q : Quoting) (s : List Byte) : Quoting := s.foldl Quoting.next q

/-- There is a hash outside of quotes. -/
def hasComment (q : Quoting) : List Byte → Bool
  | [] => false
  | c :: s => (q = .plain && c = 0x23) || hasComment (q.next c) s

section Strip
variable {q : Quoting} {s : List Byte}

theorem Quoting.after_append (q : Quoting) (s t : List Byte) : q.after (s ++ t) = (q.after s).after t :=
  List.foldl_append

theorem stripFrom_of_none (none : hasComment q s = false) : stripFrom q s = s := by
  induction s generalizing q with
  | nil => rfl
  | cons c s ih =>
    simp only [hasComment, Bool.or_eq_false_iff] at none
    obtain ⟨here, later⟩ := none
    rw [stripFrom, if_neg (by simpa using here), ih later]

/-- Behind a comment's hash nothing counts. -/
theorem stripFrom_append_of_comment (comment : hasComment q s = true) (t : List Byte) :
    stripFrom q (s ++ t) = stripFrom q s := by
  induction s generalizing q with
  | nil => cases comment
  | cons c s ih =>
    rw [List.cons_append, stripFrom, stripFrom]
    split
    · rfl
    next here =>
      have later : hasComment (q.next c) s = true := by
        simp only [hasComment, Bool.or_eq_true] at comment
        exact comment.resolve_left (by simpa using here)
      rw [ih later]

theorem stripFrom_append_of_none (none : hasComment q s = false) (t : List Byte) :
    stripFrom q (s ++ t) = s ++ stripFrom (q.after s) t := by
  induction s generalizing q with
  | nil => rfl
  | cons c s ih =>
    simp only [hasComment, Bool.or_eq_false_iff] at none
    obtain ⟨here, later⟩ := none
    rw [List.cons_append, stripFrom, if_neg (by simpa using here), ih later]
    rfl

theorem hasComment_append (q : Quoting) (s t : List Byte) :
    hasComment q (s ++ t) = (hasComment q s || hasComment (q.after s) t) := by
  induction s generalizing q with
  | nil => rfl
  | cons c s ih =>
    rw [List.cons_append, hasComment, hasComment, ih, Bool.or_assoc]
    rfl

/-- Text without quotes or hashes is passed over. -/
theorem after_of_plain (plain : ∀ c ∈ s, c ≠ 0x22 ∧ c ≠ 0x27) : Quoting.plain.after s = .plain := by
  induction s with
  | nil => rfl
  | cons c s ih =>
    obtain ⟨double, single⟩ := plain c (by simp)
    have same : Quoting.plain.next c = .plain := by
      simp only [Quoting.next]
      rw [if_neg double, if_neg single]
    rw [Quoting.after, List.foldl_cons, same]
    exact ih fun d member => plain d (List.mem_cons_of_mem c member)

theorem hasComment_of_absent (absent : (0x23 : Byte) ∉ s) : hasComment q s = false := by
  induction s generalizing q with
  | nil => rfl
  | cons c s ih =>
    have other : c ≠ 0x23 := fun same => absent (by simp [same])
    rw [hasComment, ih fun later => absent (List.mem_cons_of_mem c later), decide_eq_false other]
    simp

end Strip

/-! ## What a line says -/

/-- The text of a line that is read: its comment off, and the blanks around it. -/
def strippedLine (line : List Byte) : List Byte := trim (stripComment line)

theorem tomlLine_congr {line line' : List Byte} (same : strippedLine line = strippedLine line') : tomlLine line = tomlLine line' := by
  unfold strippedLine at same
  rw [tomlLine, tomlLine, same]

theorem tomlLine_tables {line s : List Byte} (text : strippedLine line = 0x5B :: 0x5B :: s) : tomlLine line = tablesLine s := by
  rw [strippedLine] at text
  rw [tomlLine, text]
  rfl

theorem tomlLine_section {line s : List Byte} (text : strippedLine line = 0x5B :: s) (other : ∀ d ∈ s.head?, d ≠ 0x5B) :
    tomlLine line = sectionLine s := by
  rw [strippedLine] at text
  rw [tomlLine, text]
  split
  next same => cases same
  next same => exact absurd rfl (other 0x5B (by rw [(List.cons.inj same).2]; rfl))
  next same => rw [(List.cons.inj same).2]
  next other' => exact absurd rfl (other' s)

theorem tomlLine_pairLine {line s : List Byte} {d : Byte} (text : strippedLine line = d :: s) (other : d ≠ 0x5B) :
    tomlLine line = pairLine (d :: s) := by
  rw [strippedLine] at text
  rw [tomlLine, text]
  split
  next same => cases same
  next same => exact absurd (List.cons.inj same).1 other
  next same => exact absurd (List.cons.inj same).1 other
  · rfl

theorem strippedLine_append_blank {blanks : List Byte} (blank : IsBlank blanks) (line : List Byte) :
    strippedLine (line ++ blanks) = strippedLine line := by
  unfold strippedLine stripComment
  by_cases comment : hasComment .plain line = true
  · rw [stripFrom_append_of_comment comment]
  · have none : hasComment .plain line = false := by simpa using comment
    have absent : (0x23 : Byte) ∉ blanks := by
      intro member
      have space := blank _ member
      revert space
      decide
    rw [stripFrom_append_of_none none, stripFrom_of_none (hasComment_of_absent absent), trim_append_blank blank,
      stripFrom_of_none none]

/-- What is read of a piece of the file. -/
def reading (piece : List Byte) : TomlLine := tomlLine (cstr piece)

theorem cstr_append_of_mem {s : List Byte} (nul : (0 : Byte) ∈ s) (t : List Byte) : cstr (s ++ t) = cstr s := by
  induction s with
  | nil => cases nul
  | cons c s ih =>
    rw [List.cons_append, cstr, cstr, List.takeWhile_cons, List.takeWhile_cons]
    split
    next nonzero =>
      have later : (0 : Byte) ∈ s := by
        rcases List.mem_cons.mp nul with here | later
        · simp [← here] at nonzero
        · exact later
      exact congrArg (c :: ·) (ih later)
    · rfl

theorem cstr_of_notMem {s : List Byte} (nonzero : (0 : Byte) ∉ s) : cstr s = s := by
  apply List.takeWhile_eq_self_iff.mpr
  intro c member
  have other : c ≠ 0 := fun zero => nonzero (zero ▸ member)
  simpa using other

theorem notMem_cstr (s : List Byte) : (0 : Byte) ∉ cstr s := by
  intro member
  have nonzero := List.mem_takeWhile_imp member
  simp at nonzero

/-- A newline at the end makes no difference. -/
theorem reading_newline (line : List Byte) : reading (line ++ [0x0A]) = reading line := by
  by_cases nul : (0 : Byte) ∈ line
  · rw [reading, cstr_append_of_mem nul, reading]
  · have absent : (0 : Byte) ∉ line ++ [0x0A] := by
      simpa using nul
    rw [reading, cstr_of_notMem absent, reading, cstr_of_notMem nul]
    exact tomlLine_congr (strippedLine_append_blank (by simp [IsBlank, isSpace]) line)

theorem reading_blank {line : List Byte} (blank : IsBlank line) : reading line = .blank := by
  have blanks : IsBlank (cstr line) := fun c member => blank c (List.takeWhile_subset _ member)
  have empty := strippedLine_append_blank blanks []
  rw [List.nil_append] at empty
  have text : strippedLine (cstr line) = [] := empty
  unfold strippedLine at text
  rw [reading, tomlLine, text]

/-! ## Reading line after line -/

/-- The parser after some lines. -/
def TomlParser.readAll (p : TomlParser) (lines : List TomlLine) : Except LineFault TomlParser :=
  lines.foldlM TomlParser.read p

/-- What the pieces of a file say. -/
def readings (file : List Byte) : List TomlLine := (fgets 1024 file).map reading

section Run
variable {p q : TomlParser} {line : TomlLine} {lines lines' : List TomlLine}

@[simp] theorem TomlParser.readAll_nil : p.readAll [] = .ok p := rfl

theorem TomlParser.readAll_cons_ok :
    p.readAll (line :: lines) = .ok q ↔ ∃ p', p.read line = .ok p' ∧ p'.readAll lines = .ok q := by
  rw [TomlParser.readAll, List.foldlM_cons]
  cases p.read line with
  | error fault => simp [bind, Except.bind]
  | ok p' => simp [bind, Except.bind, TomlParser.readAll]

theorem TomlParser.readAll_cons {p' : TomlParser} (step : p.read line = .ok p') :
    p.readAll (line :: lines) = p'.readAll lines := by
  rw [TomlParser.readAll, List.foldlM_cons, step]
  rfl

theorem TomlParser.readAll_append_ok :
    p.readAll (lines ++ lines') = .ok q ↔ ∃ p', p.readAll lines = .ok p' ∧ p'.readAll lines' = .ok q := by
  induction lines generalizing p with
  | nil => simp
  | cons line lines ih =>
    rw [List.cons_append, readAll_cons_ok]
    constructor
    · rintro ⟨p', first, rest⟩
      obtain ⟨p'', middle, last⟩ := ih.mp rest
      exact ⟨p'', readAll_cons_ok.mpr ⟨p', first, middle⟩, last⟩
    · rintro ⟨p'', front, last⟩
      obtain ⟨p', first, middle⟩ := readAll_cons_ok.mp front
      exact ⟨p', first, ih.mpr ⟨p'', middle, last⟩⟩

theorem TomlParser.readAll_blank : p.readAll (.blank :: lines) = p.readAll lines := by
  rw [TomlParser.readAll, List.foldlM_cons]
  rfl

/-- The loop of the parser is the run over what the lines say. -/
theorem tomlParseLines_ok_iff (lineno : Nat) (pieces : List (List Byte)) :
    tomlParseLines lineno p pieces = .ok q ↔ p.readAll (pieces.map reading) = .ok q := by
  induction pieces generalizing lineno p with
  | nil => simp [tomlParseLines]
  | cons piece pieces ih =>
    rw [tomlParseLines, List.map_cons, TomlParser.readAll_cons_ok]
    cases result : p.read (tomlLine (cstr piece)) with
    | error fault => simp [reading, result]
    | ok p' => simp [reading, result, ih]

end Run

/-- A file is accepted when reading its pieces comes to its end. -/
theorem tomlParseFile_ok_iff {path file : List Byte} {t : Toml} :
    tomlParseFile path (some file) = .ok t ↔ ∃ q, TomlParser.readAll {} (readings file) = .ok q ∧ q.toml = t := by
  simp only [readings, ← tomlParseLines_ok_iff 0]
  cases parsed : tomlParseLines 0 {} (fgets 1024 file) with
  | error error => simp [tomlParseFile, parsed, Except.map]
  | ok q => simp [tomlParseFile, parsed, Except.map]

theorem TomlParser.readAll_append (p : TomlParser) (lines lines' : List TomlLine) :
    p.readAll (lines ++ lines') = p.readAll lines >>= fun q => q.readAll lines' := List.foldlM_append

section Split
variable {p : TomlParser} {line before after : List Byte}

/-- A line that fits the buffer is read at once. -/
theorem readAll_short (inLine : (0x0A : Byte) ∉ line) (short : line.length < 1023) (lines : List TomlLine) :
    p.readAll (readings line ++ lines) = p.readAll (reading line :: lines) := by
  have pieces : fgets 1024 line = if line = [] then [] else [line] := piecesFrom_end inLine (by simpa using short)
  rw [readings, pieces]
  split
  next empty =>
    rw [empty, reading_blank (by simp [IsBlank]), TomlParser.readAll_blank]
    rfl
  · rfl

/-- A full buffer is a piece of its own. -/
theorem readings_full (inLine : (0x0A : Byte) ∉ line) (full : line.length = 1023) (rest : List Byte) :
    readings (line ++ rest) = reading line :: readings rest := by
  have some_byte : line ≠ [] := by
    rintro rfl
    simp at full
  have pieces : fgets 1024 (line ++ rest) = line :: fgets 1024 rest :=
    piecesFrom_full inLine some_byte (by simpa using full)
  rw [readings, pieces, List.map_cons, readings]

/-- The newline behind a line says nothing, also where it is a piece of its own. -/
theorem readAll_newline (inLine : (0x0A : Byte) ∉ line) :
    p.readAll (readings (line ++ 0x0A :: after)) = p.readAll (readings line ++ readings after) := by
  obtain ⟨n, long⟩ : ∃ n, line.length ≤ n := ⟨_, le_rfl⟩
  induction n generalizing p line with
  | zero =>
    have empty : line = [] := List.length_eq_zero_iff.mp (by omega)
    have pieces : fgets 1024 ([] ++ 0x0A :: after) = [0x0A] :: fgets 1024 after := piecesFrom_line (by simp) (by simp)
    subst empty
    rw [readings, pieces, List.map_cons, reading_blank (by simp [IsBlank, isSpace]),
      TomlParser.readAll_blank]
    rfl
  | succ n ih =>
    by_cases short : line.length < 1023
    · have pieces : fgets 1024 (line ++ 0x0A :: after) = (line ++ [0x0A]) :: fgets 1024 after :=
        piecesFrom_line inLine (by simpa using short)
      rw [readAll_short inLine short, readings, pieces, List.map_cons, reading_newline, readings]
    · -- the first piece is full, and the line goes on behind it
      obtain ⟨full, rest, rfl, fills⟩ : ∃ full rest, line = full ++ rest ∧ full.length = 1023 :=
        ⟨line.take 1023, line.drop 1023, (List.take_append_drop 1023 line).symm, by simp; omega⟩
      rw [List.mem_append, not_or] at inLine
      rw [List.length_append] at long
      rw [List.append_assoc, readings_full inLine.1 fills, readings_full inLine.1 fills, List.cons_append,
        TomlParser.readAll, TomlParser.readAll, List.foldlM_cons, List.foldlM_cons]
      cases p.read (reading full) with
      | error fault => rfl
      | ok p' => exact ih inLine.2 (by omega)

/-- The end of a line: the end of the file, or a newline and what is behind it. -/
def AtEnd (rest : List Byte) : Prop := rest = [] ∨ rest.head? = some 0x0A

/-- A line of a file is read between what is before and what is behind it. -/
theorem readAll_line (start : AtLine before) (inLine : (0x0A : Byte) ∉ line) {rest : List Byte} (ends : AtEnd rest) :
    p.readAll (readings (before ++ (line ++ rest))) =
      p.readAll (readings before ++ (readings line ++ readings rest.tail)) := by
  have cut : readings (before ++ (line ++ rest)) = readings before ++ readings (line ++ rest) := by
    rw [readings, fgets_append start, List.map_append, readings, readings]
  rw [cut, TomlParser.readAll_append, TomlParser.readAll_append]
  congr 1
  funext q
  rcases ends with rfl | newline
  · have nothing : readings [] = [] := rfl
    rw [List.append_nil, List.tail_nil, nothing, List.append_nil]
  · obtain ⟨after, rfl⟩ := List.head?_eq_some_iff.mp newline
    exact readAll_newline inLine

end Split

/-- In a file of short lines the lines are what is read; an empty last one says nothing. -/
theorem readAll_linesOf {p q : TomlParser} {file : List Byte} (short : ∀ line ∈ linesOf file, line.length < 1023) :
    p.readAll (readings file) = .ok q ↔ p.readAll ((linesOf file).map reading) = .ok q := by
  have pieces : fgets 1024 file = withNewlines (linesOf file) :=
    fgets_eq_withNewlines fun line member => by
      have fits := short line member
      omega
  rw [readings, pieces]
  generalize linesOf file = lines
  induction lines generalizing p with
  | nil => rfl
  | cons line lines ih =>
    cases lines with
    | nil =>
      by_cases empty : line = []
      · have nothing : reading [] = .blank := reading_blank (by simp [IsBlank])
        simp [withNewlines, empty, nothing, TomlParser.readAll_blank]
      · simp [withNewlines, empty]
    | cons next rest =>
      rw [withNewlines, List.map_cons, List.map_cons, reading_newline, TomlParser.readAll_cons_ok,
        TomlParser.readAll_cons_ok]
      simp only [ih]

end Cc2obp
