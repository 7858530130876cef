import Cc2obp.Config.TomlLines

/-!
# Keys as they are written

A key line is a bare key, `=` and a value, with blanks around them and perhaps a
comment behind. A basic string escapes quotes and backslashes, which `strip_comment`
does not know: it sees the quotes of the text itself, and takes a hash behind an odd
number of them for a comment.
-/
namespace Cc2obp

open CString TextFile

/-! ## Basic strings -/

def escapeByte (c : Byte) : List Byte := if c = 0x22 ∨ c = 0x5C then [0x5C, c] else [c]

def escape (w : List Byte) : List Byte := w.flatMap escapeByte

/-- A text as a basic string. -/
def basicString (w : List Byte) : List Byte := 0x22 :: (escape w ++ [0x22])

section Escape
variable {q : Quoting} {w : List Byte}

theorem escape_cons (c : Byte) (w : List Byte) : escape (c :: w) = escapeByte c ++ escape w := List.flatMap_cons

theorem Quoting.next_backslash (q : Quoting) : q.next 0x5C = q := by
  cases q <;> decide

theorem after_escapeByte (q : Quoting) (c : Byte) : q.after (escapeByte c) = q.next c := by
  unfold escapeByte
  split
  · rw [Quoting.after, List.foldl_cons, List.foldl_cons, List.foldl_nil, Quoting.next_backslash]
  · rfl

theorem hasComment_escapeByte (q : Quoting) (c : Byte) : hasComment q (escapeByte c) = (q = .plain && c = 0x23) := by
  unfold escapeByte
  split
  next escaped =>
    have other : c ≠ 0x23 := by
      rintro rfl
      revert escaped
      decide
    rw [hasComment, hasComment, hasComment, decide_eq_false other]
    simp
  · simp [hasComment]

/-- The escapes make no difference to what `strip_comment` is inside of. -/
theorem hasComment_escape (q : Quoting) (w : List Byte) : hasComment q (escape w) = hasComment q w := by
  induction w generalizing q with
  | nil => rfl
  | cons c w ih =>
    rw [escape_cons, hasComment_append, after_escapeByte, hasComment_escapeByte, ih, hasComment]

theorem stripFrom_escape (q : Quoting) (w : List Byte) : stripFrom q (escape w) = escape (stripFrom q w) := by
  induction w generalizing q with
  | nil => rfl
  | cons c w ih =>
    rw [escape_cons, stripFrom]
    by_cases hash : q = .plain ∧ c = 0x23
    · obtain ⟨rfl, rfl⟩ := hash
      rw [if_pos ⟨rfl, rfl⟩]
      rfl
    · have none : hasComment q (escapeByte c) = false := by
        rw [hasComment_escapeByte]
        simpa using hash
      rw [if_neg hash, stripFrom_append_of_none none, after_escapeByte, ih, escape_cons]

theorem parseBasicString_plain {c : Byte} (quote : c ≠ 0x22) (backslash : c ≠ 0x5C) (room : Nat) (s : List Byte) :
    parseBasicString (room + 1) (c :: s) = c :: parseBasicString room s := by
  cases s with
  | nil => rw [parseBasicString, if_neg quote]
  | cons e s => rw [parseBasicString, if_neg quote, if_neg backslash]

/-- What was escaped is read back, as far as there is room. -/
theorem parseBasicString_escape (room : Nat) (w : List Byte) {rest : List Byte} (ends : rest = [] ∨ rest.head? = some 0x22) :
    parseBasicString room (escape w ++ rest) = w.take room := by
  induction w generalizing room with
  | nil =>
    cases room with
    | zero => rfl
    | succ room =>
      rcases ends with rfl | quote
      · rfl
      · obtain ⟨rest, rfl⟩ := List.head?_eq_some_iff.mp quote
        cases rest <;> simp [escape, parseBasicString]
  | cons c w ih =>
    cases room with
    | zero => simp [parseBasicString]
    | succ room =>
      rw [escape_cons, escapeByte, List.take_succ_cons]
      split
      next escaped =>
        have itself : unescape c = c := by
          rcases escaped with rfl | rfl <;> decide
        rw [List.append_assoc, List.cons_append, List.cons_append, List.nil_append, parseBasicString, if_neg (by decide),
          if_pos rfl, itself, ih]
      next plain =>
        obtain ⟨quote, backslash⟩ := not_or.mp plain
        rw [List.append_assoc, List.singleton_append, parseBasicString_plain quote backslash, ih]

/-- Blanks are not escaped. -/
theorem rdropWhile_escape (w : List Byte) : (escape w).rdropWhile isSpace = escape (w.rdropWhile isSpace) := by
  induction w using List.reverseRecOn with
  | nil => rfl
  | append_singleton w c ih =>
    have split : escape (w ++ [c]) = escape w ++ escapeByte c := by simp [escape]
    rw [split]
    by_cases space : isSpace c = true
    · have plain : escapeByte c = [c] := by
        rw [escapeByte, if_neg]
        rintro (rfl | rfl) <;> revert space <;> decide
      rw [plain, List.rdropWhile_concat_pos isSpace _ _ space, List.rdropWhile_concat_pos isSpace _ _ space, ih]
    · rw [List.rdropWhile_concat_neg isSpace _ _ space, split, escapeByte]
      split
      · rw [List.append_cons, List.rdropWhile_concat_neg isSpace _ _ space]
      · rw [List.rdropWhile_concat_neg isSpace _ _ space]

end Escape

theorem newline_notMem_basicString {w : List Byte} (inLine : (0x0A : Byte) ∉ w) : (0x0A : Byte) ∉ basicString w := by
  have escaped : (0x0A : Byte) ∉ escape w := by
    intro member
    obtain ⟨c, inText, here⟩ := List.mem_flatMap.mp member
    unfold escapeByte at here
    split at here
    next special =>
      simp only [List.mem_cons, List.not_mem_nil, or_false] at here
      rcases here with newline | newline
      · exact absurd newline (by decide)
      · exact inLine (newline ▸ inText)
    · exact inLine (List.mem_singleton.mp here ▸ inText)
  rw [basicString, List.mem_cons, List.mem_append, List.mem_singleton]
  rintro (newline | member | newline)
  · exact absurd newline (by decide)
  · exact escaped member
  · exact absurd newline (by decide)

/-! ## Key lines -/

def bareByte (c : Byte) : Bool :=
  (0x61 ≤ c && c ≤ 0x7A) || (0x41 ≤ c && c ≤ 0x5A) || (0x30 ≤ c && c ≤ 0x39) || c == 0x5F || c == 0x2D

structure BareKey (key : List Byte) : Prop where
  filled : key ≠ []
  bare : ∀ c ∈ key, bareByte c = true

instance (key : List Byte) : Decidable (BareKey key) :=
  decidable_of_iff (key.isEmpty = false ∧ key.all bareByte = true)
    ⟨fun both => ⟨List.isEmpty_eq_false_iff.mp both.1, List.all_eq_true.mp both.2⟩,
      fun bare => ⟨List.isEmpty_eq_false_iff.mpr bare.filled, List.all_eq_true.mpr bare.bare⟩⟩

/-- What stands behind a value: blanks, and perhaps a comment. -/
def Tail (s : List Byte) : Prop := IsBlank s ∨ ∃ blanks text, IsBlank blanks ∧ s = blanks ++ 0x23 :: text

/-- The blanks of a key line, and what is behind its value. -/
structure KeyStyle where
  indent : List Byte := []
  gap : List Byte := [0x20]
  gap' : List Byte := [0x20]
  tail : List Byte := []
  indented : IsBlank indent
  spaced : IsBlank gap
  spaced' : IsBlank gap'
  ends : Tail tail
  inLine : (0x0A : Byte) ∉ indent ++ gap ++ gap' ++ tail
  nonzero : (0 : Byte) ∉ tail

/-- A line that gives a key a value. -/
def KeyStyle.line (style : KeyStyle) (key literal : List Byte) : List Byte :=
  style.indent ++ (key ++ style.gap ++ 0x3D :: (style.gap' ++ literal)) ++ style.tail

theorem blank_nil : IsBlank [] := fun _ member => absurd member List.not_mem_nil

theorem blank_space : IsBlank [0x20] := by
  intro c member
  rw [List.mem_singleton.mp member]
  decide

theorem newline_notMem_spaces : (0x0A : Byte) ∉ ([] ++ [0x20] ++ [0x20] ++ [] : List Byte) := by decide

/-- One blank on each side of `=` and nothing else. -/
def plainStyle : KeyStyle where
  indented := blank_nil
  spaced := blank_space
  spaced' := blank_space
  ends := .inl blank_nil
  inLine := newline_notMem_spaces
  nonzero := List.not_mem_nil

section Lines
variable {key val literal blanks line : List Byte}

theorem bareByte_cases {c : Byte} (bare : bareByte c = true) :
    c ≠ 0x22 ∧ c ≠ 0x27 ∧ c ≠ 0x23 ∧ c ≠ 0x3D ∧ c ≠ 0x5B ∧ c ≠ 0 ∧ c ≠ 0x0A ∧ isSpace c = false := by
  refine ⟨?_, ?_, ?_, ?_, ?_, ?_, ?_, ?_⟩
  all_goals revert bare; revert c; decide

theorem not_mem_blank {c : Byte} (visible : isSpace c = false) {s : List Byte} (blank : IsBlank s) : c ∉ s := by
  intro member
  rw [blank c member] at visible
  cases visible

theorem BareKey.notMem (bare : BareKey key) {c : Byte} (other : bareByte c = false) : c ∉ key := by
  intro member
  rw [bare.bare c member] at other
  cases other

theorem BareKey.trimmed (bare : BareKey key) : Trimmed key := by
  constructor
  · intro c here
    exact (bareByte_cases (bare.bare c (List.mem_of_mem_head? here))).2.2.2.2.2.2.2
  · intro c here
    exact (bareByte_cases (bare.bare c (List.mem_of_mem_getLast? here))).2.2.2.2.2.2.2

/-- What is in front of the value of a key line. -/
def KeyStyle.front (style : KeyStyle) (key : List Byte) : List Byte :=
  style.indent ++ (key ++ style.gap ++ 0x3D :: style.gap')

theorem KeyStyle.line_eq (style : KeyStyle) (key literal : List Byte) :
    style.line key literal = style.front key ++ (literal ++ style.tail) := by
  simp [KeyStyle.line, KeyStyle.front]

/-- In front of the value there are no quotes and no hash. -/
theorem KeyStyle.front_plain (style : KeyStyle) (bare : BareKey key) :
    ∀ c ∈ style.front key, c ≠ 0x22 ∧ c ≠ 0x27 ∧ c ≠ 0x23 := by
  have visible : ∀ s : List Byte, IsBlank s → ∀ c ∈ s, c ≠ 0x22 ∧ c ≠ 0x27 ∧ c ≠ 0x23 := by
    intro s blank c member
    refine ⟨?_, ?_, ?_⟩
    all_goals
      rintro rfl
      exact not_mem_blank (by decide) blank member
  intro c member
  simp only [KeyStyle.front, List.mem_append, List.mem_cons] at member
  rcases member with indent | ((inKey | gap) | rfl | gap')
  · exact visible _ style.indented c indent
  · obtain ⟨double, single, hash, -⟩ := bareByte_cases (bare.bare c inKey)
    exact ⟨double, single, hash⟩
  · exact visible _ style.spaced c gap
  · decide
  · exact visible _ style.spaced' c gap'

theorem KeyStyle.stripComment_line (style : KeyStyle) (bare : BareKey key) (literal : List Byte) :
    stripComment (style.line key literal) = style.front key ++ stripComment (literal ++ style.tail) := by
  have plain := style.front_plain bare
  have none : hasComment .plain (style.front key) = false :=
    hasComment_of_absent fun member => (plain _ member).2.2 rfl
  rw [style.line_eq, stripComment, stripFrom_append_of_none none,
    after_of_plain fun c member => ⟨(plain c member).1, (plain c member).2.1⟩, stripComment]

/-- A line says the pair whose value is what is left of it behind `=`. -/
theorem KeyStyle.tomlLine_pair (style : KeyStyle) (bare : BareKey key) (blank : IsBlank blanks) (trimmed : Trimmed val)
    (filled : val ≠ []) (stripped : stripComment line = style.front key ++ (val ++ blanks)) :
    tomlLine line = .pair key val := by
  have text : trim (stripComment line) = key ++ style.gap ++ 0x3D :: (style.gap' ++ val) := by
    have whole : stripComment line = style.indent ++ (key ++ style.gap ++ 0x3D :: (style.gap' ++ val)) ++ blanks := by
      simp [stripped, KeyStyle.front]
    rw [whole, trim_append_blank blank, trim_blank_append style.indented]
    apply trim_of_trimmed
    obtain ⟨k, rest, rfl⟩ := List.exists_cons_of_ne_nil bare.filled
    constructor
    · intro c here
      exact bare.trimmed.head c (by simpa using here)
    · intro c here
      have last : (0x3D :: (style.gap' ++ val)).getLast? = val.getLast? := by
        rw [List.getLast?_cons, List.getLast?_append_of_ne_nil _ filled, List.getLast?_eq_some_getLast filled]
        rfl
      rw [List.getLast?_append_of_ne_nil _ (by simp), last] at here
      exact trimmed.last c here
  have noEquals : (0x3D : Byte) ∉ key ++ style.gap := by
    rw [List.mem_append, not_or]
    exact ⟨bare.notMem (by decide), not_mem_blank (by decide) style.spaced⟩
  have equals : beforeFirst 0x3D (key ++ style.gap ++ 0x3D :: (style.gap' ++ val)) = some (key ++ style.gap) := by
    rw [beforeFirst, if_pos (by simp), List.takeWhile_append_of_pos]
    · simp
    · intro c member
      have other : c ≠ 0x3D := fun same => noEquals (same ▸ member)
      simpa using other
  have pair : pairLine (key ++ style.gap ++ 0x3D :: (style.gap' ++ val)) = .pair key val := by
    have named : trim (key ++ style.gap) = key := by
      rw [trim_append_blank style.spaced, trim_of_trimmed bare.trimmed]
    have behind : (key ++ style.gap ++ 0x3D :: (style.gap' ++ val)).drop ((key ++ style.gap).length + 1) =
        style.gap' ++ val := by
      rw [List.drop_append]
      simp
    rw [pairLine, equals]
    simp only [named, if_neg bare.filled, behind, trim_blank_append style.spaced', trim_of_trimmed trimmed]
  rw [tomlLine, text]
  -- the key's first byte opens no header
  obtain ⟨k, rest, rfl⟩ := List.exists_cons_of_ne_nil bare.filled
  have bracket : k ≠ 0x5B := (bareByte_cases (bare.bare k (by simp))).2.2.2.2.1
  rw [List.cons_append, List.cons_append] at pair ⊢
  split
  next empty => cases empty
  next same => exact absurd (List.cons.inj same).1 bracket
  next same => exact absurd (List.cons.inj same).1 bracket
  · exact pair

theorem KeyStyle.nonzero_line (style : KeyStyle) (bare : BareKey key) (literal_nonzero : (0 : Byte) ∉ literal) :
    (0 : Byte) ∉ style.line key literal := by
  have blank : ∀ s : List Byte, IsBlank s → (0 : Byte) ∉ s := fun s => not_mem_blank (by decide)
  simp only [KeyStyle.line, List.mem_append, List.mem_cons, not_or]
  exact ⟨⟨blank _ style.indented, ⟨bare.notMem (by decide), blank _ style.spaced⟩, by decide, blank _ style.spaced',
    literal_nonzero⟩, style.nonzero⟩

theorem KeyStyle.inLine_line (style : KeyStyle) (bare : BareKey key) (literal_inLine : (0x0A : Byte) ∉ literal) :
    (0x0A : Byte) ∉ style.line key literal := by
  have blanks := style.inLine
  simp only [KeyStyle.line, List.mem_append, List.mem_cons, not_or] at blanks ⊢
  exact ⟨⟨blanks.1.1.1, ⟨bare.notMem (by decide), blanks.1.1.2⟩, by decide, blanks.1.2, literal_inLine⟩, blanks.2⟩

/-! ## What is read -/

/-- What is read of a text written as a basic string: up to the comment that is seen in it, and what fits. -/
def readString (w : List Byte) : List Byte :=
  if hasComment .basic w = true then ((stripFrom .basic w).rdropWhile isSpace).take 511 else w.take 511

/-- Blanks at the end of a text with something visible in it are behind that. -/
theorem rdropWhile_append_cons (s : List Byte) {c : Byte} (visible : isSpace c = false) (rest : List Byte) :
    (s ++ c :: rest).rdropWhile isSpace = s ++ c :: rest.rdropWhile isSpace := by
  induction rest using List.reverseRecOn with
  | nil =>
    rw [List.rdropWhile_concat_neg isSpace _ _ (by simp [visible])]
    rfl
  | append_singleton rest d ih =>
    have split : s ++ c :: (rest ++ [d]) = (s ++ c :: rest) ++ [d] := by simp
    rw [split]
    by_cases space : isSpace d = true
    · rw [List.rdropWhile_concat_pos isSpace _ _ space, List.rdropWhile_concat_pos isSpace _ _ space, ih]
    · rw [List.rdropWhile_concat_neg isSpace _ _ space, List.rdropWhile_concat_neg isSpace _ _ space, split]

/-- What is left of a basic string and what is behind it is read as its text. -/
theorem parseBasicString_stripped (w tail : List Byte) :
    parseBasicString 511 ((stripFrom .basic (escape w ++ 0x22 :: tail)).rdropWhile isSpace) = readString w := by
  unfold readString
  split
  next comment =>
    rw [stripFrom_append_of_comment (by rw [hasComment_escape, comment]), stripFrom_escape, rdropWhile_escape,
      ← parseBasicString_escape 511 _ (.inl rfl), List.append_nil]
  next none =>
    have unseen : hasComment .basic (escape w) = false := by
      rw [hasComment_escape]
      simpa using none
    rw [stripFrom_append_of_none unseen, stripFrom, if_neg (by simp), rdropWhile_append_cons _ (by decide),
      parseBasicString_escape 511 w (.inr rfl)]

/-- A key line with a basic string. -/
theorem KeyStyle.reading_string (style : KeyStyle) (bare : BareKey key) {w : List Byte} (nonzero : (0 : Byte) ∉ w) :
    ∃ val, reading (style.line key (basicString w)) = .pair key val ∧
      ∀ k, parseValue k val = .ok (.string (readString w)) := by
  obtain ⟨inside, hinside⟩ : ∃ inside, stripFrom .basic (escape w ++ 0x22 :: style.tail) = inside := ⟨_, rfl⟩
  have opened : stripComment (basicString w ++ style.tail) = 0x22 :: inside := by
    rw [← hinside, stripComment, basicString, List.cons_append, List.append_assoc, stripFrom, if_neg (by decide)]
    rfl
  have stripped : stripComment (style.line key (basicString w)) =
      style.front key ++ (0x22 :: inside.rdropWhile isSpace ++ inside.rtakeWhile isSpace) := by
    rw [style.stripComment_line bare, opened, List.cons_append, List.rdropWhile_append_rtakeWhile]
  have trimmed : Trimmed (0x22 :: inside.rdropWhile isSpace) := by
    have same := rdropWhile_append_cons [] (c := 0x22) (by decide) inside
    rw [List.nil_append, List.nil_append] at same
    constructor
    · intro c here
      rw [← Option.some.inj here]
      decide
    · intro c here
      have filled : (0x22 :: inside : List Byte).rdropWhile isSpace ≠ [] := by
        rw [same]
        exact List.cons_ne_nil _ _
      have last := List.rdropWhile_last_not isSpace (0x22 :: inside) filled
      rw [← same, List.getLast?_eq_some_getLast filled, Option.mem_some_iff] at here
      rw [← here]
      exact Bool.eq_false_iff.mpr last
  have blank : IsBlank (inside.rtakeWhile isSpace) := fun c member => List.mem_rtakeWhile_imp member
  have escaped_nonzero : (0 : Byte) ∉ basicString w := by
    have escape_nonzero : (0 : Byte) ∉ escape w := by
      intro member
      obtain ⟨c, inText, here⟩ := List.mem_flatMap.mp member
      unfold escapeByte at here
      split at here
      next escaped =>
        simp only [List.mem_cons, List.not_mem_nil, or_false] at here
        rcases here with zero | zero
        · exact absurd zero (by decide)
        · exact nonzero (zero ▸ inText)
      · exact nonzero (List.mem_singleton.mp here ▸ inText)
    rw [basicString, List.mem_cons, List.mem_append, List.mem_singleton]
    rintro (zero | member | zero)
    · exact absurd zero (by decide)
    · exact escape_nonzero member
    · exact absurd zero (by decide)
  refine ⟨0x22 :: inside.rdropWhile isSpace, ?_, fun k => ?_⟩
  · rw [reading, cstr_of_notMem (style.nonzero_line bare escaped_nonzero)]
    exact style.tomlLine_pair bare blank trimmed (by simp) stripped
  · have parsed := parseBasicString_stripped w style.tail
    rw [hinside] at parsed
    rw [← parsed]
    rfl

end Lines

end Cc2obp
