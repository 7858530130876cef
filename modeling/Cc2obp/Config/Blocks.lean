import Cc2obp.Config.Integers
import Cc2obp.Config.Tables
import Cc2obp.Config.Written

/-!
# Files of blocks

A file written as `[[openbridge]]` and `[[link]]` blocks, one key a line. It is accepted
as long as it has no more keys than the parser has entries, and then a key is looked up
in the block it was written in.
-/
namespace Cc2obp

open CString TextFile

/-! ## Blocks as they are written -/

/-- A value as it is written: a basic string of a text, digits with sign and underscores, or a keyword. -/
inductive Literal where
  | string (w : List Byte)
  | int (text : List Byte)
  | bool (b : Bool)
deriving DecidableEq

def Literal.text : Literal → List Byte
  | .string w => basicString w
  | .int text => text
  | .bool b => if b then ascii "true" else ascii "false"

def integerByte (c : Byte) : Bool := (0x30 ≤ c && c ≤ 0x39) || c == 0x5F || c == 0x2B || c == 0x2D

/-- A text without NUL and newline, or an integer of a length that every 64-bit integer has. -/
def Literal.WellFormed : Literal → Prop
  | .string w => (0 : Byte) ∉ w ∧ (0x0A : Byte) ∉ w
  | .int text => (∀ c ∈ text, integerByte c = true) ∧ (significant text).length ≤ 63 ∧ (denoted text).isSome
  | .bool _ => True

instance : DecidablePred Literal.WellFormed
  | .string w => inferInstanceAs (Decidable ((0 : Byte) ∉ w ∧ (0x0A : Byte) ∉ w))
  | .int text => inferInstanceAs (Decidable
      ((∀ c ∈ text, integerByte c = true) ∧ (significant text).length ≤ 63 ∧ (denoted text).isSome))
  | .bool _ => inferInstanceAs (Decidable True)

structure KeyLine where
  key : List Byte
  literal : Literal
  style : KeyStyle

def KeyLine.text (line : KeyLine) : List Byte := line.style.line line.key line.literal.text

inductive BlockKind where
  | openbridge
  | link
deriving DecidableEq

def BlockKind.name : BlockKind → List Byte
  | .openbridge => ascii "openbridge"
  | .link => ascii "link"

/-- A header, with the blanks before and what is behind it, and the keys under it. -/
structure Block where
  kind : BlockKind
  style : KeyStyle
  lines : List KeyLine

def Block.header (b : Block) : List Byte := b.style.indent ++ (ascii "[[" ++ b.kind.name ++ ascii "]]") ++ b.style.tail

def Block.texts (b : Block) : List (List Byte) := b.header :: b.lines.map KeyLine.text

/-- The file of some blocks. -/
def fileOf (blocks : List Block) : List Byte := (blocks.flatMap Block.texts).flatMap fun line => line ++ [0x0A]

/-- Bare keys with well-formed values, on lines that fit the buffer. -/
structure Block.WellFormed (b : Block) : Prop where
  keys : ∀ line ∈ b.lines, BareKey line.key
  values : ∀ line ∈ b.lines, line.literal.WellFormed
  short : ∀ text ∈ b.texts, text.length < 1023

/-- The value of the first line that sets a key. -/
def Block.get (b : Block) (key : List Byte) : Option Literal := (b.lines.find? fun line => line.key == key).map KeyLine.literal

/-! ## What the lines say -/

/-- What a value is read as. -/
def Literal.read : Literal → TomlValue
  | .string w => .string (readString w)
  | .int text => .int (clamp64 ((denoted text).getD 0))
  | .bool b => .bool b

section Lines
variable {text body : List Byte} {line : KeyLine} {b : Block}

/-- Behind text without quotes or hashes, what stands behind a value leaves blanks. -/
theorem stripComment_tail (style : KeyStyle) (plain : ∀ c ∈ text, c ≠ 0x22 ∧ c ≠ 0x27 ∧ c ≠ 0x23) :
    ∃ blanks, IsBlank blanks ∧ stripComment (text ++ style.tail) = text ++ blanks := by
  have none : hasComment .plain text = false := hasComment_of_absent fun member => (plain _ member).2.2 rfl
  have state := after_of_plain fun c member => ⟨(plain c member).1, (plain c member).2.1⟩
  have stripped : stripComment (text ++ style.tail) = text ++ stripFrom .plain style.tail := by
    rw [stripComment, stripFrom_append_of_none none, state]
  rcases style.ends with blank | ⟨blanks, comment, blank, tail⟩
  · have absent : (0x23 : Byte) ∉ style.tail := not_mem_blank (by decide) blank
    rw [stripFrom_of_none (hasComment_of_absent absent)] at stripped
    exact ⟨style.tail, blank, stripped⟩
  · have absent : (0x23 : Byte) ∉ blanks := not_mem_blank (by decide) blank
    have passed : Quoting.plain.after blanks = .plain := by
      apply after_of_plain
      intro c member
      have space := blank c member
      constructor
      all_goals
        rintro rfl
        revert space
        decide
    refine ⟨blanks, blank, stripped.trans ?_⟩
    rw [tail, stripFrom_append_of_none (hasComment_of_absent absent), passed, stripFrom, if_pos ⟨rfl, rfl⟩, List.append_nil]

theorem reading_header (b : Block) : reading b.header = .tables b.kind.name := by
  have shape : ∀ kind : BlockKind, (∀ c ∈ ascii "[[" ++ kind.name ++ ascii "]]", c ≠ 0x22 ∧ c ≠ 0x27 ∧ c ≠ 0x23 ∧ c ≠ 0) ∧
      isSpace 0x5B = false ∧ isSpace 0x5D = false ∧ tablesLine (kind.name ++ ascii "]]") = .tables kind.name := by
    intro kind
    cases kind <;> decide
  obtain ⟨visible, left, right, said⟩ := shape b.kind
  have blank : ∀ c ∈ b.style.indent, c ≠ 0x22 ∧ c ≠ 0x27 ∧ c ≠ 0x23 ∧ c ≠ 0 := by
    intro c member
    have space := b.style.indented c member
    refine ⟨?_, ?_, ?_, ?_⟩
    all_goals
      rintro rfl
      revert space
      decide
  have plain : ∀ c ∈ b.style.indent ++ (ascii "[[" ++ b.kind.name ++ ascii "]]"), c ≠ 0x22 ∧ c ≠ 0x27 ∧ c ≠ 0x23 ∧ c ≠ 0 := by
    intro c member
    rcases List.mem_append.mp member with indent | inside
    · exact blank c indent
    · exact visible c inside
  have trimmed : Trimmed (ascii "[[" ++ b.kind.name ++ ascii "]]") := by
    constructor
    · intro c here
      rw [List.append_assoc] at here
      rw [← Option.some.inj here]
      exact left
    · intro c here
      rw [List.getLast?_append_of_ne_nil _ (by decide)] at here
      rw [← Option.some.inj here]
      exact right
  obtain ⟨blanks, behind, stripped⟩ := stripComment_tail b.style fun c member =>
    ⟨(plain c member).1, (plain c member).2.1, (plain c member).2.2.1⟩
  have text : strippedLine b.header = 0x5B :: 0x5B :: (b.kind.name ++ ascii "]]") := by
    rw [strippedLine, Block.header, stripped, trim_append_blank behind, trim_blank_append b.style.indented,
      trim_of_trimmed trimmed]
    rfl
  have nonzero : (0 : Byte) ∉ b.header := by
    rw [Block.header, List.mem_append]
    rintro (member | member)
    · exact (plain _ member).2.2.2 rfl
    · exact b.style.nonzero member
  rw [reading, cstr_of_notMem nonzero, tomlLine_tables text, said]

/-- A key line with a value that has neither quotes nor blanks nor hashes. -/
theorem reading_plain (style : KeyStyle) {key val : List Byte} (bare : BareKey key) (filled : val ≠ [])
    (visible : ∀ c ∈ val, c ≠ 0x22 ∧ c ≠ 0x27 ∧ c ≠ 0x23 ∧ c ≠ 0 ∧ isSpace c = false) :
    reading (style.line key val) = .pair key val := by
  have plain : ∀ c ∈ val, c ≠ 0x22 ∧ c ≠ 0x27 ∧ c ≠ 0x23 := fun c member =>
    ⟨(visible c member).1, (visible c member).2.1, (visible c member).2.2.1⟩
  obtain ⟨blanks, blank, stripped⟩ := stripComment_tail style plain
  have trimmed : Trimmed val := by
    constructor
    · exact fun c here => (visible c (List.mem_of_mem_head? here)).2.2.2.2
    · exact fun c here => (visible c (List.mem_of_mem_getLast? here)).2.2.2.2
  have nonzero : (0 : Byte) ∉ val := fun member => (visible _ member).2.2.2.1 rfl
  rw [reading, cstr_of_notMem (style.nonzero_line bare nonzero)]
  apply style.tomlLine_pair bare blank trimmed filled
  rw [style.stripComment_line bare, stripped]

theorem integerByte_visible {c : Byte} (digit : integerByte c = true) :
    c ≠ 0x22 ∧ c ≠ 0x27 ∧ c ≠ 0x23 ∧ c ≠ 0 ∧ isSpace c = false ∧ c ≠ 0x5B ∧ c ≠ 0x74 ∧ c ≠ 0x66 ∧ c ≠ 0x0A := by
  revert digit
  revert c
  decide

/-- An integer is read as what it denotes, as far as 64 bits go. -/
theorem parseValue_int {text : List Byte} (wellFormed : (Literal.int text).WellFormed) (key : List Byte) :
    parseValue key text = .ok (Literal.int text).read := by
  obtain ⟨digits, short, written⟩ := wellFormed
  obtain ⟨i, denotes⟩ := Option.isSome_iff_exists.mp written
  have token : IsToken text := by
    intro d here
    obtain ⟨double, single, -, -, -, bracket, -⟩ := integerByte_visible (digits d (List.mem_of_mem_head? here))
    exact ⟨double, single, bracket⟩
  have noKeyword : ∀ word : List Byte, (∃ c ∈ word, integerByte c = false) → text ≠ word := by
    rintro word ⟨c, member, other⟩ rfl
    rw [digits c member] at other
    cases other
  have scalar : parseScalar text = some (.int (clamp64 i)) := by
    rw [parseScalar_token token, if_neg (noKeyword _ (by decide)), if_neg (noKeyword _ (by decide)),
      parseInteger_of_denoted short denotes]
    rfl
  refine (parseValue_token token key _).mpr ⟨_, scalar, ?_⟩
  rw [Literal.read, denotes]
  rfl

/-- A well-formed line is read as its key with its value. -/
theorem KeyLine.reading_text (bare : BareKey line.key) (wellFormed : line.literal.WellFormed) :
    ∃ val, reading line.text = .pair line.key val ∧ ∀ key, parseValue key val = .ok line.literal.read := by
  obtain ⟨key, literal, style⟩ := line
  cases literal with
  | string w => exact style.reading_string bare wellFormed.1
  | int text =>
    have filled : text ≠ [] := by
      rintro rfl
      exact absurd wellFormed.2.2 (by decide)
    refine ⟨text, reading_plain style bare filled fun c member => ?_, parseValue_int wellFormed⟩
    obtain ⟨double, single, hash, zero, space, -⟩ := integerByte_visible (wellFormed.1 c member)
    exact ⟨double, single, hash, zero, space⟩
  | bool b =>
    cases b with
    | true =>
      have said : reading (style.line key (ascii "true")) = .pair key (ascii "true") :=
        reading_plain style bare (by decide) (by decide)
      exact ⟨ascii "true", said, fun _ => rfl⟩
    | false =>
      have said : reading (style.line key (ascii "false")) = .pair key (ascii "false") :=
        reading_plain style bare (by decide) (by decide)
      exact ⟨ascii "false", said, fun _ => rfl⟩

theorem Literal.WellFormed.inLine {literal : Literal} (wellFormed : literal.WellFormed) : (0x0A : Byte) ∉ literal.text := by
  cases literal with
  | string w => exact newline_notMem_basicString wellFormed.2
  | int text =>
    intro member
    obtain ⟨-, -, -, -, -, -, -, -, newline⟩ := integerByte_visible (wellFormed.1 _ member)
    exact newline rfl
  | bool b => cases b <;> decide

theorem Block.WellFormed.inLine (wellFormed : b.WellFormed) : ∀ text ∈ b.texts, (0x0A : Byte) ∉ text := by
  refine List.forall_mem_cons.mpr ⟨?_, ?_⟩
  · have blanks := b.style.inLine
    have name : (0x0A : Byte) ∉ ascii "[[" ++ b.kind.name ++ ascii "]]" := by
      cases b.kind <;> decide
    rw [List.mem_append, List.mem_append, List.mem_append, not_or, not_or, not_or] at blanks
    rw [Block.header, List.mem_append, List.mem_append, not_or, not_or]
    exact ⟨⟨blanks.1.1.1, name⟩, blanks.2⟩
  · intro text member
    obtain ⟨line, here, rfl⟩ := List.mem_map.mp member
    exact line.style.inLine_line (wellFormed.keys line here) (wellFormed.values line here).inLine

/-- Short lines are read one by one. -/
theorem readings_lines {lines : List (List Byte)} (short : ∀ line ∈ lines, line.length < 1023)
    (inLine : ∀ line ∈ lines, (0x0A : Byte) ∉ line) :
    readings (lines.flatMap fun line => line ++ [0x0A]) = lines.map reading := by
  induction lines with
  | nil => rfl
  | cons line lines ih =>
    have rest := ih (fun l member => short l (List.mem_cons_of_mem line member))
      (fun l member => inLine l (List.mem_cons_of_mem line member))
    have pieces : fgets 1024 (line ++ 0x0A :: lines.flatMap fun line => line ++ [0x0A]) =
        (line ++ [0x0A]) :: fgets 1024 (lines.flatMap fun line => line ++ [0x0A]) :=
      piecesFrom_line (inLine line (by simp)) (by simpa using short line (by simp))
    rw [List.flatMap_cons, List.append_assoc, List.singleton_append, readings, pieces, List.map_cons, reading_newline,
      List.map_cons, ← rest, readings]

/-- What the lines of a block say. -/
def Block.said (b : Block) : List TomlLine := b.texts.map reading

theorem Block.said_eq (b : Block) : b.said = .tables b.kind.name :: b.lines.map fun line => reading line.text := by
  rw [Block.said, Block.texts, List.map_cons, reading_header, List.map_map]
  rfl

theorem readings_fileOf {blocks : List Block} (wellFormed : ∀ b ∈ blocks, b.WellFormed) :
    readings (fileOf blocks) = blocks.flatMap Block.said := by
  have member : ∀ text ∈ blocks.flatMap Block.texts, ∃ b ∈ blocks, text ∈ b.texts :=
    fun text here => List.mem_flatMap.mp here
  rw [fileOf, readings_lines, List.map_flatMap]
  · rfl
  · intro text here
    obtain ⟨b, inside, there⟩ := member text here
    exact (wellFormed b inside).short text there
  · intro text here
    obtain ⟨b, inside, there⟩ := member text here
    exact (wellFormed b inside).inLine text there

end Lines

/-! ## Looking up a key -/

def blocksOf (kind : BlockKind) (blocks : List Block) : List Block := blocks.filter fun b => b.kind == kind

section Lookup
variable {b : Block} {blocks : List Block} {kind : BlockKind} {lines : List TomlLine} {key : List Byte}

theorem BlockKind.name_inj {kind kind' : BlockKind} (same : kind.name = kind'.name) : kind = kind' := by
  cases kind <;> cases kind' <;> first | rfl | (revert same; decide)

/-- The keys of a block are pairs. -/
theorem Block.WellFormed.pairs (wellFormed : b.WellFormed) :
    ∀ said ∈ b.lines.map fun line => reading line.text, ∃ key val v, said = .pair key val ∧ parseValue key val = .ok v := by
  intro said member
  obtain ⟨line, here, rfl⟩ := List.mem_map.mp member
  obtain ⟨val, read, value⟩ := KeyLine.reading_text (wellFormed.keys line here) (wellFormed.values line here)
  exact ⟨line.key, val, _, read, value line.key⟩

theorem blockOf_pairs {pairs : List TomlLine} (only : ∀ said ∈ pairs, ∃ key val v, said = .pair key val ∧ parseValue key val = .ok v)
    (name : List Byte) (i : Nat) : blockOf name i (pairs ++ lines) = blockOf name i lines := by
  induction pairs with
  | nil => rfl
  | cons said pairs ih =>
    obtain ⟨⟨key, val, v, rfl, -⟩, later⟩ := List.forall_mem_cons.mp only
    have step : ∀ rest, blockOf name i (.pair key val :: rest) = blockOf name i rest := by
      intro rest
      cases i <;> simp [blockOf]
    rw [List.cons_append, step, ih later]

/-- The lines of the i-th block of a kind. -/
theorem blockOf_said (wellFormed : ∀ b ∈ blocks, b.WellFormed) {i : Nat} (inside : i < (blocksOf kind blocks).length) :
    blockOf kind.name i (blocks.flatMap Block.said) = (blocksOf kind blocks)[i].lines.map fun line => reading line.text := by
  induction blocks generalizing i with
  | nil => simp [blocksOf] at inside
  | cons b blocks ih =>
    obtain ⟨first, later⟩ := List.forall_mem_cons.mp wellFormed
    have pairs := first.pairs
    rw [List.flatMap_cons, Block.said_eq, List.cons_append]
    by_cases own : b.kind = kind
    · have same : blocksOf kind (b :: blocks) = b :: blocksOf kind blocks := by simp [blocksOf, own]
      simp only [same] at inside ⊢
      cases i with
      | zero =>
        have rest : (blocks.flatMap Block.said).takeWhile (fun line => !line.isHeader) = [] := by
          cases blocks with
          | nil => rfl
          | cons next blocks =>
            rw [List.flatMap_cons, Block.said_eq]
            rfl
        have keys : ∀ said ∈ b.lines.map fun line => reading line.text, (!said.isHeader) = true := by
          intro said member
          obtain ⟨key, val, v, rfl, -⟩ := pairs said member
          rfl
        rw [blockOf, if_pos (by rw [own]), List.getElem_cons_zero, List.takeWhile_append_of_pos keys, rest, List.append_nil]
      | succ i =>
        rw [blockOf, if_pos (by rw [own]), blockOf_pairs pairs, List.getElem_cons_succ]
        exact ih later (by simpa using inside)
    · have same : blocksOf kind (b :: blocks) = blocksOf kind blocks := by simp [blocksOf, own]
      simp only [same] at inside ⊢
      have other : b.kind.name ≠ kind.name := fun names => own (BlockKind.name_inj names)
      rw [← ih later inside]
      refine Eq.trans ?_ (blockOf_pairs pairs kind.name i)
      cases i with
      | zero => rw [blockOf, if_neg other]
      | succ i => rw [blockOf, if_neg other]

/-- A key that the buffer keeps whole is looked up as it is written. -/
theorem firstKept_lines (wellFormed : b.WellFormed) (whole : key.length < 63) :
    firstKept key (b.lines.map fun line => reading line.text) = (b.get key).map Literal.read := by
  obtain ⟨kind, style, lines⟩ := b
  have keys := wellFormed.keys
  have values := wellFormed.values
  clear wellFormed
  simp only [Block.get] at keys values ⊢
  induction lines with
  | nil => rfl
  | cons line lines ih =>
    obtain ⟨bare, keys⟩ := List.forall_mem_cons.mp keys
    obtain ⟨fine, values⟩ := List.forall_mem_cons.mp values
    obtain ⟨val, read, value⟩ := KeyLine.reading_text bare fine
    have sets : (reading line.text).cut.sets key = (line.key == key) := by
      rw [read, TomlLine.cut, TomlLine.sets]
      by_cases same : line.key = key
      · rw [same, List.take_of_length_le (by omega)]
      · have cut : line.key.take 63 ≠ key := by
          rintro rfl
          rw [List.length_take] at whole
          exact same (List.take_of_length_le (by omega)).symm
        rw [beq_eq_false_iff_ne.mpr same, beq_eq_false_iff_ne.mpr cut]
    have later := ih keys values
    simp only [firstKept] at later ⊢
    rw [List.map_cons, List.find?_cons, List.find?_cons, sets]
    cases line.key == key with
    | true =>
      rw [Option.bind_some, Option.map_some, Option.map_some, read, TomlLine.value?, value]
      rfl
    | false => exact later

theorem mem_said {said : TomlLine} (wellFormed : ∀ b ∈ blocks, b.WellFormed) (member : said ∈ blocks.flatMap Block.said) :
    (∃ b ∈ blocks, said = .tables b.kind.name) ∨ ∃ key val v, said = .pair key val ∧ parseValue key val = .ok v := by
  obtain ⟨b, inside, here⟩ := List.mem_flatMap.mp member
  rw [Block.said_eq] at here
  rcases List.mem_cons.mp here with header | pair
  · exact .inl ⟨b, inside, header⟩
  · exact .inr ((wellFormed b inside).pairs said pair)

theorem BlockKind.length_name (kind : BlockKind) : kind.name.length < 63 := by
  cases kind <;> decide

theorem apart_said (wellFormed : ∀ b ∈ blocks, b.WellFormed) {i : Nat} (index : i < 2 ^ 31) :
    Apart (blocks.flatMap Block.said) kind.name i := by
  have short := kind.length_name
  have fits : (sectionName kind.name i).length < 79 := length_sectionName_lt (by omega) index
  constructor
  case fits => omega
  case tables => exact fun n _ k same => sectionName_of_take fits same
  case sections =>
    intro n member
    rcases mem_said wellFormed member with ⟨b, -, header⟩ | ⟨key, val, v, pair, -⟩
    · cases header
    · cases pair

theorem slotted_said (wellFormed : ∀ b ∈ blocks, b.WellFormed) : Slotted (blocks.flatMap Block.said) kind.name := by
  constructor
  case fits =>
    have short := kind.length_name
    exact fun _ => by omega
  case apart =>
    intro n member cut
    rcases mem_said wellFormed member with ⟨b, -, header⟩ | ⟨key, val, v, pair, -⟩
    · cases header
      rwa [List.take_of_length_le (by have short := b.kind.length_name; omega)] at cut
    · cases pair

theorem count_said (wellFormed : ∀ b ∈ blocks, b.WellFormed) :
    (blocks.flatMap Block.said).count (.tables kind.name) = (blocksOf kind blocks).length := by
  induction blocks with
  | nil => rfl
  | cons b blocks ih =>
    obtain ⟨first, later⟩ := List.forall_mem_cons.mp wellFormed
    have noHeader : (b.lines.map fun line => reading line.text).count (.tables kind.name) = 0 := by
      rw [List.count_eq_zero]
      intro member
      obtain ⟨key, val, v, pair, -⟩ := first.pairs _ member
      cases pair
    rw [List.flatMap_cons, List.count_append, ih later, Block.said_eq, List.count_cons, noHeader, blocksOf, blocksOf,
      List.filter_cons]
    by_cases own : b.kind = kind
    · simp only [own, beq_self_eq_true, if_true, List.length_cons]
      omega
    · have other : (TomlLine.tables b.kind.name == TomlLine.tables kind.name) = false := by
        rw [beq_eq_false_iff_ne]
        intro same
        exact own (BlockKind.name_inj (TomlLine.tables.inj same))
      simp [own, other]

/-- What a file of blocks is parsed to, as the getters see it. -/
structure Parsed (t : Toml) (blocks : List Block) : Prop where
  count : ∀ kind : BlockKind, t.arrayLen kind.name = (blocksOf kind blocks).length
  keys : ∀ (kind : BlockKind) (i : Nat) (inside : i < (blocksOf kind blocks).length), i < 2 ^ 31 → ∀ key : List Byte,
    key.length < 63 → t.get (sectionName kind.name i) key = ((blocksOf kind blocks)[i].get key).map Literal.read
  glob : ∀ key, t.get (ascii "global") key = none

/-- A section that no header opens stays empty. -/
theorem get_unopened {p q : TomlParser} {sec : List Byte} (closed : p.curSection ≠ sec)
    (tables : ∀ n, .tables n ∈ lines → ∀ k, (sectionName n k).take 79 ≠ sec)
    (sections : ∀ n, .section n ∈ lines → n.take 79 ≠ sec) (run : p.readAll lines = .ok q) (key : List Byte) :
    q.toml.get sec key = p.toml.get sec key := by
  induction lines generalizing p with
  | nil =>
    cases run
    rfl
  | cons line lines ih =>
    obtain ⟨p', step, rest⟩ := TomlParser.readAll_cons_ok.mp run
    have still : p'.curSection ≠ sec := by
      obtain ⟨rfl, rfl⟩ | ⟨n, rfl, -, rfl⟩ | ⟨n, rfl, rfl⟩ | ⟨k, val, v, rfl, -, -, rfl⟩ := read_cases step
      · exact closed
      · exact tables n (by simp) _
      · exact sections n (by simp)
      · exact closed
    rw [ih still (fun n member => tables n (List.mem_cons_of_mem line member))
      (fun n member => sections n (List.mem_cons_of_mem line member)) rest, get_read_other closed step]

theorem parsed_of_readAll (wellFormed : ∀ b ∈ blocks, b.WellFormed) {q : TomlParser}
    (run : TomlParser.readAll {} (blocks.flatMap Block.said) = .ok q) : Parsed q.toml blocks := by
  have start : ∀ name, ({} : TomlParser).toml.arrayLen name = 0 := fun _ => rfl
  constructor
  case count =>
    intro kind
    rw [arrayLen_readAll (slotted_said wellFormed) run, start, Nat.zero_add, count_said wellFormed]
  case keys =>
    intro kind i inside index key whole
    have outside : ({} : TomlParser).curSection ≠ sectionName kind.name i := by
      intro same
      have hash := hash_mem_sectionName kind.name i
      rw [← same] at hash
      cases hash
    have looked := get_later (apart_said wellFormed index) (slotted_said wellFormed) (by rw [start]; omega) outside
      (fun key => rfl) run key
    rw [looked, start, Nat.sub_zero, blockOf_said wellFormed inside,
      firstKept_lines (wellFormed _ (List.mem_of_mem_filter (List.getElem_mem inside))) whole]
  case glob =>
    intro key
    refine get_unopened (by decide) ?_ ?_ run key
    · intro n member k same
      rcases mem_said wellFormed member with ⟨b, -, header⟩ | ⟨key, val, v, pair, -⟩
      · cases header
        have heads := congrArg (List.take 1) same
        revert heads
        cases b.kind <;> simp [sectionName, BlockKind.name, ascii]
      · cases pair
    · intro n member
      rcases mem_said wellFormed member with ⟨b, -, header⟩ | ⟨key, val, v, pair, -⟩
      · cases header
      · cases pair

end Lookup

/-! ## Acceptance -/

/-- The slots of a file of blocks: at most one for each kind. -/
structure Slots (atables : List (List Byte × Nat)) : Prop where
  nodup : (atables.map Prod.fst).Nodup
  names : ∀ n ∈ atables.map Prod.fst, ∃ kind : BlockKind, n = kind.name

section Accept
variable {p : TomlParser} {blocks : List Block} {lines : List TomlLine} {atables : List (List Byte × Nat)}

theorem Slots.few (slots : Slots atables) : atables.length ≤ 2 := by
  have within : atables.map Prod.fst ⊆ [BlockKind.openbridge.name, BlockKind.link.name] := by
    intro n member
    obtain ⟨kind, rfl⟩ := slots.names n member
    cases kind <;> simp
  have fits := (List.subperm_of_subset slots.nodup within).length_le
  simpa using fits

theorem map_fst_countTable (atables : List (List Byte × Nat)) (n : List Byte) :
    (countTable atables n).map Prod.fst =
      if n ∈ atables.map Prod.fst then atables.map Prod.fst else atables.map Prod.fst ++ [n.take 63] := by
  induction atables with
  | nil => simp [countTable]
  | cons a atables ih =>
    rw [countTable_cons]
    by_cases same : a.1 = n
    · simp [same]
    · have other : ¬n = a.1 := fun equal => same equal.symm
      rw [if_neg same, List.map_cons, ih, List.map_cons]
      simp only [List.mem_cons, other, false_or]
      split <;> rfl

theorem Slots.count (slots : Slots atables) (kind : BlockKind) : Slots (countTable atables kind.name) := by
  have whole : kind.name.take 63 = kind.name := List.take_of_length_le (by have short := kind.length_name; omega)
  constructor
  · rw [map_fst_countTable, whole]
    split
    · exact slots.nodup
    next fresh =>
      rw [List.nodup_append]
      refine ⟨slots.nodup, by simp, fun n old n' new => ?_⟩
      rw [List.mem_singleton.mp new]
      rintro rfl
      exact fresh old
  · intro n member
    rw [map_fst_countTable, whole] at member
    split at member
    · exact slots.names n member
    · rcases List.mem_append.mp member with old | new
      · exact slots.names n old
      · exact ⟨kind, List.mem_singleton.mp new⟩

/-- Headers of the two kinds and pairs with values are read as long as there is room for the pairs. -/
theorem readAll_accepts_iff (sound : ∀ said ∈ lines, (∃ kind : BlockKind, said = .tables kind.name) ∨
    ∃ key val v, said = .pair key val ∧ parseValue key val = .ok v) (slots : Slots p.toml.atables)
    (room : p.toml.entries.length ≤ maxEntries) :
    (∃ q, p.readAll lines = .ok q) ↔ p.toml.entries.length + (lines.map TomlLine.pairs).sum ≤ maxEntries := by
  induction lines generalizing p with
  | nil => simpa using room
  | cons said lines ih =>
    obtain ⟨first, later⟩ := List.forall_mem_cons.mp sound
    rcases first with ⟨kind, rfl⟩ | ⟨key, val, v, rfl, value⟩
    · have slot : hasTable p.toml.atables kind.name = true := by
        have few := slots.few
        rw [hasTable, Bool.or_eq_true, decide_eq_true_eq]
        exact .inr (by unfold maxAtableNames; omega)
      obtain ⟨p', step, entries, counted⟩ : ∃ p', p.read (.tables kind.name) = .ok p' ∧
          p'.toml.entries = p.toml.entries ∧ p'.toml.atables = countTable p.toml.atables kind.name := by
        rw [TomlParser.read, if_pos slot]
        exact ⟨_, rfl, rfl, rfl⟩
      rw [TomlParser.readAll_cons step, ih later (counted ▸ slots.count kind) (entries ▸ room), entries]
      simp [TomlLine.pairs]
    · by_cases more : p.toml.entries.length < maxEntries
      · obtain ⟨p', step, entries, counted⟩ : ∃ p', p.read (.pair key val) = .ok p' ∧
            p'.toml.entries.length = p.toml.entries.length + 1 ∧ p'.toml.atables = p.toml.atables := by
          simp only [TomlParser.read, if_pos more, value]
          exact ⟨_, rfl, by simp, rfl⟩
        rw [TomlParser.readAll_cons step, ih later (counted ▸ slots) (by omega), entries, List.map_cons, List.sum_cons,
          TomlLine.pairs]
        omega
      · -- the entries are used up
        have refused : ¬∃ q, p.readAll (.pair key val :: lines) = .ok q := by
          rintro ⟨q, run⟩
          obtain ⟨p', step, -⟩ := TomlParser.readAll_cons_ok.mp run
          simp [TomlParser.read, more] at step
        refine iff_of_false refused ?_
        simp only [List.map_cons, List.sum_cons, TomlLine.pairs]
        omega

theorem pairs_said (wellFormed : ∀ b ∈ blocks, b.WellFormed) :
    ((blocks.flatMap Block.said).map TomlLine.pairs).sum = (blocks.map fun b => b.lines.length).sum := by
  induction blocks with
  | nil => rfl
  | cons b blocks ih =>
    obtain ⟨first, later⟩ := List.forall_mem_cons.mp wellFormed
    have each : ∀ line ∈ b.lines, (reading line.text).pairs = 1 := by
      intro line member
      obtain ⟨key, val, v, pair, -⟩ := first.pairs _ (List.mem_map_of_mem member)
      rw [pair]
      rfl
    have keys : ((b.lines.map fun line => reading line.text).map TomlLine.pairs).sum = b.lines.length := by
      have ones : (b.lines.map (TomlLine.pairs ∘ fun line => reading line.text)) = b.lines.map fun _ => 1 :=
        List.map_congr_left each
      rw [List.map_map, ones, List.map_const', List.sum_replicate_nat, Nat.mul_one]
    rw [List.flatMap_cons, List.map_append, List.sum_append, ih later, Block.said_eq, List.map_cons, List.sum_cons, keys,
      List.map_cons, List.sum_cons]
    simp [TomlLine.pairs]

/-- A file of blocks is parsed if and only if the parser has an entry for each of its keys. -/
theorem parse_fileOf_iff (path : List Byte) (wellFormed : ∀ b ∈ blocks, b.WellFormed) :
    (∃ t, tomlParseFile path (some (fileOf blocks)) = .ok t) ↔ (blocks.map fun b => b.lines.length).sum ≤ maxEntries := by
  have sound : ∀ said ∈ blocks.flatMap Block.said, (∃ kind : BlockKind, said = .tables kind.name) ∨
      ∃ key val v, said = .pair key val ∧ parseValue key val = .ok v := by
    intro said member
    rcases mem_said wellFormed member with ⟨b, -, header⟩ | pair
    · exact .inl ⟨b.kind, header⟩
    · exact .inr pair
  have accepts := readAll_accepts_iff (p := {}) sound ⟨List.nodup_nil, by simp⟩ (Nat.zero_le _)
  rw [pairs_said wellFormed, ← readings_fileOf wellFormed] at accepts
  simp only [tomlParseFile_ok_iff]
  constructor
  · rintro ⟨t, q, run, -⟩
    have fits := accepts.mp ⟨q, run⟩
    simpa using fits
  · intro fits
    obtain ⟨q, run⟩ := accepts.mpr (by simpa using fits)
    exact ⟨q.toml, q, run, rfl⟩

theorem parsed_of_parse {path : List Byte} {t : Toml} (wellFormed : ∀ b ∈ blocks, b.WellFormed)
    (parsed : tomlParseFile path (some (fileOf blocks)) = .ok t) : Parsed t blocks := by
  obtain ⟨q, run, rfl⟩ := tomlParseFile_ok_iff.mp parsed
  rw [readings_fileOf wellFormed] at run
  exact parsed_of_readAll wellFormed run

end Accept

end Cc2obp
