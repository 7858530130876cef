import Cc2obp.Config.Integers
import Cc2obp.Config.Tables
import Cc2obp.Config.Written

/-!
# Comments behind a line

The buffer cuts a long comment into pieces, and each is read as a line of its own.
The first goes with the end of its line, and is taken off there unless `strip_comment`
thinks it is inside quotes; then the value has to be over before its text is.
-/
namespace Cc2obp

open CString TextFile

/-! ## Values with text behind them -/

/-- `parse_basic_string` stops before the end of the text. -/
def stringOver : Nat → List Byte → Bool
  | 0, _ => true
  | _ + 1, [] => false
  | room + 1, [c] => if c = 0x22 then true else if c = 0x5C then false else stringOver room []
  | room + 1, c :: e :: p =>
    if c = 0x22 then true
    else if c = 0x5C then stringOver room p
    else stringOver room (e :: p)

/-- The value is over before the text behind it starts: a string closed or full, a token past its buffer. What
is behind an array is looked at for a bracket, so the array has to come out the same. -/
def ValueEnds (val val' : List Byte) : Prop :=
  match val with
  | 0x22 :: s => stringOver 511 s = true
  | 0x27 :: s => (0x27 : Byte) ∈ s ∨ 511 ≤ s.length
  | 0x5B :: _ => parseValue [] val' = parseValue [] val
  | _ => 63 ≤ (significant val).length

theorem parseBasicString_quote (room : Nat) (s : List Byte) : parseBasicString (room + 1) (0x22 :: s) = [] := by
  cases s with
  | nil => rw [parseBasicString, if_pos rfl]
  | cons d s => rw [parseBasicString, if_pos rfl]

theorem parseBasicString_backslash (room : Nat) (d : Byte) (s : List Byte) :
    parseBasicString (room + 1) (0x5C :: d :: s) = unescape d :: parseBasicString room s := by
  rw [parseBasicString, if_neg (by decide), if_pos rfl]

section Value
variable {c : Byte} (blank : isSpace c = true)
include blank

theorem blank_visible {d : Byte} (visible : isSpace d = false) : c ≠ d := by
  rintro rfl
  rw [blank] at visible
  cases visible

theorem parseBasicString_append_iff (room : Nat) (s e : List Byte) :
    parseBasicString room (s ++ c :: e) = parseBasicString room s ↔ stringOver room s = true := by
  have quote : c ≠ 0x22 := blank_visible blank (by decide)
  have backslash : c ≠ 0x5C := blank_visible blank (by decide)
  have grows : ∀ room, parseBasicString (room + 1) (c :: e) ≠ [] := by
    intro room
    rw [parseBasicString_plain quote backslash]
    exact List.cons_ne_nil _ _
  fun_induction stringOver room s with
  | case1 => simp [parseBasicString]
  | case2 room => simpa [parseBasicString] using grows room
  | case3 room => simp [parseBasicString]
  | case4 room =>
    -- a lone backslash stands for itself, one with a blank behind it for the blank
    have itself : unescape c = c := by
      rw [unescape, if_neg (blank_visible blank (by decide)), if_neg (blank_visible blank (by decide)),
        if_neg (blank_visible blank (by decide))]
    have lone : parseBasicString (room + 1) [0x5C] = [0x5C] := by
      rw [parseBasicString, if_neg (by decide)]
      cases room <;> rfl
    rw [List.singleton_append, parseBasicString_backslash, itself, lone]
    simpa using fun same => absurd same backslash
  | case5 room d quoted escaped ih =>
    rw [List.singleton_append, parseBasicString_plain quoted escaped, parseBasicString_plain quoted escaped,
      List.cons_inj_right]
    exact ih
  | case6 room d p =>
    rw [List.cons_append, parseBasicString_quote, parseBasicString_quote]
    simp
  | case7 room d p _ ih =>
    rw [List.cons_append, List.cons_append, parseBasicString_backslash, parseBasicString_backslash, List.cons_inj_right]
    exact ih
  | case8 room f d p quoted escaped ih =>
    rw [List.cons_append, parseBasicString_plain quoted escaped, parseBasicString_plain quoted escaped,
      List.cons_inj_right]
    exact ih

theorem literalString_append_iff (s e : List Byte) :
    ((s ++ c :: e).takeWhile (· != 0x27)).take 511 = (s.takeWhile (· != 0x27)).take 511 ↔
      (0x27 : Byte) ∈ s ∨ 511 ≤ s.length := by
  have other : c ≠ 0x27 := blank_visible blank (by decide)
  by_cases closed : (0x27 : Byte) ∈ s
  · have stops : (s.takeWhile (· != 0x27)).length ≠ s.length := by
      intro all
      have whole := (List.takeWhile_prefix (· != 0x27) (l := s)).eq_of_length all
      have kept := List.takeWhile_eq_self_iff.mp whole _ closed
      simp at kept
    rw [List.takeWhile_append, if_neg stops]
    exact iff_of_true rfl (.inl closed)
  · have whole : ∀ d ∈ s, (d != 0x27) = true := fun d member => by
      have apart : d ≠ 0x27 := fun same => closed (same ▸ member)
      simpa using apart
    have alone : s.takeWhile (· != 0x27) = s := List.takeWhile_eq_self_iff.mpr whole
    have more : (c :: e).takeWhile (· != 0x27) = c :: e.takeWhile (· != 0x27) := by
      rw [List.takeWhile_cons, if_pos (by simpa using other)]
    rw [List.takeWhile_append_of_pos whole, alone, more, or_iff_right closed]
    constructor
    · intro same
      have lengths := congrArg List.length same
      simp only [List.length_take, List.length_append, List.length_cons] at lengths
      omega
    · intro full
      rw [List.take_append_of_le_length full]

omit blank in
theorem valueEnds_token {val : List Byte} (token : IsToken val) (val' : List Byte) :
    ValueEnds val val' ↔ 63 ≤ (significant val).length := by
  unfold ValueEnds
  split
  next s => exact absurd rfl (token _ rfl).1
  next s => exact absurd rfl (token _ rfl).2.1
  next s => exact absurd rfl (token _ rfl).2.2
  · exact Iff.rfl

theorem significant_append (val e : List Byte) :
    significant (val ++ c :: e) = significant val ++ c :: significant e := by
  have kept : (c != 0x5F) = true := by simpa using blank_visible blank (by decide)
  rw [significant, List.filter_append, List.filter_cons, if_pos kept]
  rfl

/-- A number or a keyword with text behind it is none, unless the text is past the buffer. -/
theorem token_append_iff {val : List Byte} {v : TomlScalar} (token : IsToken val) (accepted : parseScalar val = some v)
    (e : List Byte) : parseScalar (val ++ c :: e) = some v ↔ 63 ≤ (significant val).length := by
  have filled : val ≠ [] := by
    rintro rfl
    cases accepted
  have token' : IsToken (val ++ c :: e) := by
    intro d here
    rw [List.head?_append_of_ne_nil _ filled] at here
    exact token d here
  have noKeyword : ∀ word : List Byte, (∀ d ∈ word, isSpace d = false) → val ++ c :: e ≠ word := by
    rintro word visible rfl
    rw [visible c (by simp)] at blank
    cases blank
  rw [parseScalar_token token', if_neg (noKeyword _ (by decide)), if_neg (noKeyword _ (by decide))]
  rw [parseScalar_token token] at accepted
  constructor
  · intro same
    obtain ⟨i, longer, rfl⟩ := Option.map_eq_some_iff.mp same
    by_contra short
    have number : parseInteger val = some i := by
      split at accepted
      · cases accepted
      · split at accepted
        · cases accepted
        · simpa using accepted
    obtain ⟨a, exact, -⟩ := exactInt_of_parseInteger number
    obtain ⟨b, exact', -⟩ := exactInt_of_parseInteger longer
    -- the blank is inside the buffer, behind the digits
    obtain ⟨room, hroom⟩ : ∃ room, 63 - (significant val).length = room + 1 := ⟨62 - (significant val).length, by omega⟩
    have seen : (significant (val ++ c :: e)).take 63 = (significant val).take 63 ++ c :: (significant e).take room := by
      rw [significant_append blank, List.take_append, hroom, List.take_succ_cons]
    rw [seen] at exact'
    have digit := isDigits_of_exactInt_append exact exact' c (by simp)
    revert digit blank
    clear * -
    revert c
    decide
  · intro full
    have same : parseInteger (val ++ c :: e) = parseInteger val := by
      have cut : (significant (val ++ c :: e)).take 63 = (significant val).take 63 := by
        rw [significant_append blank, List.take_append_of_le_length full]
      unfold significant at cut
      rw [parseInteger, parseInteger, cut]
    have long : ∀ word : List Byte, (significant word).length < 63 → val ≠ word := by
      rintro word short rfl
      omega
    rw [if_neg (long _ (by decide)), if_neg (long _ (by decide))] at accepted
    rw [same, accepted]

/-- A value is the same with text behind it if and only if it is over before. -/
theorem parseValue_append_iff {key val : List Byte} {v : TomlValue} (accepted : parseValue key val = .ok v)
    (e : List Byte) : parseValue key (val ++ c :: e) = .ok v ↔ ValueEnds val (val ++ c :: e) := by
  by_cases double : val.head? = some 0x22
  · obtain ⟨s, rfl⟩ := List.head?_eq_some_iff.mp double
    have read : ∀ s, parseValue key (0x22 :: s) = .ok (.string (parseBasicString 511 s)) := fun _ => rfl
    rw [read, Except.ok.injEq] at accepted
    rw [List.cons_append, read, ← accepted, Except.ok.injEq, TomlValue.string.injEq]
    exact parseBasicString_append_iff blank 511 s e
  by_cases single : val.head? = some 0x27
  · obtain ⟨s, rfl⟩ := List.head?_eq_some_iff.mp single
    have read : ∀ s, parseValue key (0x27 :: s) = .ok (.string ((s.takeWhile (· != 0x27)).take 511)) := fun _ => rfl
    rw [read, Except.ok.injEq] at accepted
    rw [List.cons_append, read, ← accepted, Except.ok.injEq, TomlValue.string.injEq]
    exact literalString_append_iff blank s e
  by_cases bracket : val.head? = some 0x5B
  · obtain ⟨s, rfl⟩ := List.head?_eq_some_iff.mp bracket
    have read : ∀ s, parseValue key (0x5B :: s) = parseValue [] (0x5B :: s) := fun _ => rfl
    rw [List.cons_append, read]
    rw [read] at accepted
    rw [← accepted]
    exact Iff.rfl
  have token : IsToken val := by
    intro d here
    rw [Option.mem_def] at here
    refine ⟨?_, ?_, ?_⟩
    all_goals
      rintro rfl
      contradiction
  obtain ⟨s, scalar, rfl⟩ := (parseValue_token token key v).mp accepted
  have filled : val ≠ [] := by
    rintro rfl
    cases scalar
  have token' : IsToken (val ++ c :: e) := by
    intro d here
    rw [List.head?_append_of_ne_nil _ filled] at here
    exact token d here
  rw [valueEnds_token token, ← token_append_iff blank token scalar e, parseValue_token token']
  constructor
  · rintro ⟨s', longer, same⟩
    rwa [TomlScalar.value_inj same] at longer
  · intro longer
    exact ⟨s, longer, rfl⟩

end Value

/-! ## The end of the line with the start of the comment -/

/-- A blank, a hash and a text. -/
def comment (text : List Byte) : List Byte := 0x20 :: 0x23 :: text

/-- The comment's start makes no difference to the end of the line before it: it is taken off, or is only the
blank, or is behind a value that is over. -/
def Settled (last more : List Byte) : Prop :=
  (0 : Byte) ∈ last ∨ hasComment .plain last = true ∨ Quoting.plain.after last = .plain ∨ more.length ≤ 1 ∨
    ∀ key val key' val', reading last = .pair key val → reading (last ++ more) = .pair key' val' → ValueEnds val val'

section Piece
variable {last more text w : List Byte}

/-- How a comment can start: with nothing, with its blank, or with blank and hash. -/
theorem comment_start (start : more <+: comment text) : more.length ≤ 1 ∧ IsBlank more ∨ ∃ w, more = 0x20 :: 0x23 :: w := by
  obtain ⟨rest, whole⟩ := start
  match more with
  | [] => exact .inl ⟨by simp, blank_nil⟩
  | [c] =>
    obtain rfl : c = 0x20 := (List.cons.inj whole).1
    exact .inl ⟨by simp, blank_space⟩
  | c :: d :: w =>
    obtain ⟨rfl, tail⟩ := List.cons.inj whole
    obtain rfl : d = 0x23 := (List.cons.inj tail).1
    exact .inr ⟨w, rfl⟩

/-- Outside of quotes the comment is taken off. -/
theorem strippedLine_append_plain (start : more <+: comment text)
    (outside : hasComment .plain last = true ∨ Quoting.plain.after last = .plain ∨ more.length ≤ 1) :
    strippedLine (last ++ more) = strippedLine last := by
  rcases comment_start start with ⟨-, blank⟩ | ⟨w, rfl⟩
  · exact strippedLine_append_blank blank last
  · by_cases seen : hasComment .plain last = true
    · rw [strippedLine, stripComment, stripFrom_append_of_comment seen, strippedLine, stripComment]
    · have none : hasComment .plain last = false := by simpa using seen
      have plain : Quoting.plain.after last = .plain := by
        rcases outside with there | plain | short
        · exact absurd there seen
        · exact plain
        · simp at short
      have hash : stripFrom .plain (0x20 :: 0x23 :: w) = [0x20] := by
        rw [stripFrom, if_neg (by decide), stripFrom, if_pos (by decide)]
      rw [strippedLine, stripComment, stripFrom_append_of_none none, plain, hash, trim_append_blank blank_space, strippedLine,
        stripComment, stripFrom_of_none none]

/-- Inside of quotes the text of the line goes on behind a blank, up to something visible. -/
theorem strippedLine_append_quoted (none : hasComment .plain last = false) (quoted : Quoting.plain.after last ≠ .plain) :
    ∃ c e, isSpace c = true ∧ strippedLine (last ++ 0x20 :: 0x23 :: w) = strippedLine last ++ c :: e ∧ strippedLine last ≠ [] ∧
      Trimmed (strippedLine last ++ c :: e) := by
  obtain ⟨q, hq⟩ : ∃ q, Quoting.plain.after last = q := ⟨_, rfl⟩
  rw [hq] at quoted
  have goes : stripFrom q (0x20 :: 0x23 :: w) = 0x20 :: 0x23 :: stripFrom ((q.next 0x20).next 0x23) w := by
    have still : q.next 0x20 ≠ .plain := by
      cases q with
      | plain => exact absurd rfl quoted
      | basic => decide
      | literal => decide
    rw [stripFrom, if_neg fun both => quoted both.1, stripFrom, if_neg fun both => still both.1]
  have visible : strippedLine last ≠ [] := by
    intro empty
    rw [strippedLine, stripComment, stripFrom_of_none none, trim_eq_nil_iff] at empty
    have passed := after_of_plain (s := last) fun c member => by
      constructor
      · exact blank_visible (empty c member) (by decide)
      · exact blank_visible (empty c member) (by decide)
    exact quoted (hq.symm.trans passed)
  obtain ⟨front, back, split, lead, tail⟩ := trim_split last
  have text : strippedLine last = trim last := by rw [strippedLine, stripComment, stripFrom_of_none none]
  generalize stripFrom ((q.next 0x20).next 0x23) w = behind at goes
  -- what is behind the text: its blanks, the hash, and what follows up to something visible
  obtain ⟨e, he⟩ : ∃ e, back ++ 0x20 :: 0x23 :: behind.rdropWhile isSpace = e := ⟨_, rfl⟩
  have trimmed : Trimmed (strippedLine last ++ e) := by
    constructor
    · intro c here
      rw [text, List.head?_append_of_ne_nil _ (text ▸ visible)] at here
      exact (trimmed_trim last).head c here
    · intro c here
      have ends : (strippedLine last ++ e).getLast? = (0x23 :: behind.rdropWhile isSpace).getLast? := by
        rw [← he, List.getLast?_append_of_ne_nil _ (by simp), List.getLast?_append_of_ne_nil _ (by simp),
          List.getLast?_cons_cons]
      have same := rdropWhile_append_cons [] (c := 0x23) (by decide) behind
      rw [List.nil_append, List.nil_append] at same
      have filled : (0x23 :: behind : List Byte).rdropWhile isSpace ≠ [] := by
        rw [same]
        exact List.cons_ne_nil _ _
      rw [ends, ← same, List.getLast?_eq_some_getLast filled, Option.mem_some_iff] at here
      rw [← here]
      exact Bool.eq_false_iff.mpr (List.rdropWhile_last_not isSpace _ filled)
  have longer : strippedLine (last ++ 0x20 :: 0x23 :: w) = strippedLine last ++ e := by
    have stripped : stripComment (last ++ 0x20 :: 0x23 :: w) = front ++ ((strippedLine last ++ e) ++ behind.rtakeWhile isSpace) :=
      calc stripComment (last ++ 0x20 :: 0x23 :: w)
          = last ++ 0x20 :: 0x23 :: behind := by rw [stripComment, stripFrom_append_of_none none, hq, goes]
        _ = front ++ trim last ++ back ++ 0x20 :: 0x23 :: (behind.rdropWhile isSpace ++ behind.rtakeWhile isSpace) := by
          rw [List.rdropWhile_append_rtakeWhile, ← split]
        _ = front ++ ((strippedLine last ++ e) ++ behind.rtakeWhile isSpace) := by
          rw [← he, text]
          simp
    rw [strippedLine, stripped, trim_blank_append lead, trim_append_blank fun c member => List.mem_rtakeWhile_imp member,
      trim_of_trimmed trimmed]
  obtain ⟨c, e', shape, blank⟩ : ∃ c e', e = c :: e' ∧ isSpace c = true := by
    cases back with
    | nil => exact ⟨0x20, _, he.symm, by decide⟩
    | cons b back => exact ⟨b, _, he.symm, tail b (by simp)⟩
  subst shape
  exact ⟨c, e', blank, longer, visible, trimmed⟩

/-! ### What a longer text says -/

theorem beforeFirst_append {c : Byte} {s : List Byte} (found : c ∈ s) (t : List Byte) :
    beforeFirst c (s ++ t) = beforeFirst c s := by
  have stops : (s.takeWhile (· != c)).length ≠ s.length := by
    intro all
    have whole := (List.takeWhile_prefix (· != c) (l := s)).eq_of_length all
    have kept := List.takeWhile_eq_self_iff.mp whole _ found
    simp at kept
  rw [beforeFirst, beforeFirst, if_pos found, if_pos (List.mem_append_left t found), List.takeWhile_append, if_neg stops]

theorem tablesLine_append {s n : List Byte} (tables : tablesLine s = .tables n) (t : List Byte) :
    tablesLine (s ++ t) = .tables n := by
  unfold tablesLine at tables ⊢
  cases found : strstr (ascii "]]") s with
  | none => simp [found] at tables
  | some rest =>
    have within := (length_le_of_strstr found).2
    rw [strstr_append found]
    simp only [found] at tables
    simp only [List.length_append, Nat.add_sub_add_right]
    rw [List.take_append_of_le_length (by omega)]
    exact tables

theorem sectionLine_append {s n : List Byte} (header : sectionLine s = .section n) (t : List Byte) :
    sectionLine (s ++ t) = .section n := by
  unfold sectionLine at header ⊢
  by_cases found : (0x5D : Byte) ∈ s
  · rwa [beforeFirst_append found]
  · rw [beforeFirst, if_neg found] at header
    cases header

/-- The text behind a pair goes to its value. -/
theorem pairLine_append {s key val e : List Byte} {c : Byte} (pair : pairLine s = .pair key val) (filled : val ≠ [])
    (trimmed : Trimmed s) (longer : Trimmed (s ++ c :: e)) : pairLine (s ++ c :: e) = .pair key (val ++ c :: e) := by
  unfold pairLine at pair ⊢
  by_cases found : (0x3D : Byte) ∈ s
  · rw [beforeFirst_append found]
    rw [beforeFirst, if_pos found] at pair ⊢
    simp only at pair ⊢
    split at pair
    · cases pair
    next named =>
      rw [TomlLine.pair.injEq] at pair
      obtain ⟨rfl, rfl⟩ := pair
      rw [if_neg named]
      congr 1
      have inside : (s.takeWhile (· != 0x3D)).length + 1 ≤ s.length := by
        have all := (List.takeWhile_prefix (· != 0x3D) (l := s)).length_le
        by_contra long
        have whole := (List.takeWhile_prefix (· != 0x3D) (l := s)).eq_of_length (by omega)
        have kept := List.takeWhile_eq_self_iff.mp whole _ found
        simp at kept
      rw [List.drop_append_of_le_length inside]
      generalize hbehind : s.drop ((s.takeWhile (· != 0x3D)).length + 1) = behind at filled ⊢
      -- the value ends where the text did
      obtain ⟨front, back, split, lead, tail⟩ := trim_split behind
      have ends : back = [] := by
        by_contra some_blank
        have last : s.getLast? = some (back.getLast some_blank) := by
          rw [← List.take_append_drop ((s.takeWhile (· != 0x3D)).length + 1) s, hbehind, split,
            List.getLast?_append_of_ne_nil _ (by simp [some_blank]), List.getLast?_append_of_ne_nil _ some_blank,
            List.getLast?_eq_some_getLast some_blank]
        have visible := trimmed.last _ last
        rw [tail _ (List.getLast_mem some_blank)] at visible
        cases visible
      rw [ends, List.append_nil] at split
      have whole : trim (behind ++ c :: e) = trim (trim behind ++ c :: e) := by
        conv_lhs => rw [split]
        rw [List.append_assoc, trim_blank_append lead]
      rw [whole]
      apply trim_of_trimmed
      constructor
      · intro d here
        rw [List.head?_append_of_ne_nil _ filled] at here
        exact (trimmed_trim behind).head d here
      · intro d here
        rw [List.getLast?_append_of_ne_nil _ (by simp)] at here
        exact longer.last d (by rwa [List.getLast?_append_of_ne_nil _ (by simp)])
  · rw [beforeFirst, if_neg found] at pair
    cases pair

/-- What the end of a line and the comment's start say together, when `strip_comment` is inside of quotes. -/
theorem reading_append_quoted (nonzero : (0 : Byte) ∉ last) (nonzero' : (0 : Byte) ∉ w)
    (none : hasComment .plain last = false) (quoted : Quoting.plain.after last ≠ .plain) :
    ∃ c e, isSpace c = true ∧
      ((∃ fault, reading last = .malformed fault) ∨
        ((∀ key val, reading last ≠ .pair key val) ∧ reading (last ++ 0x20 :: 0x23 :: w) = reading last) ∨
        ∃ key val, reading last = .pair key val ∧
          (val = [] ∨ reading (last ++ 0x20 :: 0x23 :: w) = .pair key (val ++ c :: e))) := by
  obtain ⟨c, e, blank, longer, visible, trimmed⟩ := strippedLine_append_quoted (w := w) none quoted
  have absent : (0 : Byte) ∉ last ++ 0x20 :: 0x23 :: w := by
    rw [List.mem_append, List.mem_cons, List.mem_cons]
    rintro (member | zero | zero | member)
    · exact nonzero member
    · exact absurd zero (by decide)
    · exact absurd zero (by decide)
    · exact nonzero' member
  refine ⟨c, e, blank, ?_⟩
  rw [reading, reading, cstr_of_notMem nonzero, cstr_of_notMem absent]
  obtain ⟨d, s, text⟩ := List.exists_cons_of_ne_nil visible
  have own : Trimmed (d :: s) := by
    rw [← text]
    exact trimmed_trim _
  rw [text] at longer trimmed
  rw [List.cons_append] at longer trimmed
  by_cases bracket : d = 0x5B
  · subst bracket
    cases s with
    | nil =>
      left
      refine ⟨.malformedSection, ?_⟩
      rw [tomlLine_section text (by simp)]
      rfl
    | cons d s =>
      by_cases double : d = 0x5B
      · subst double
        rw [tomlLine_tables text, tomlLine_tables longer]
        cases said : tablesLine s with
        | tables n => exact .inr (.inl ⟨by simp, tablesLine_append said _⟩)
        | malformed fault => exact .inl ⟨fault, rfl⟩
        | _ =>
          unfold tablesLine at said
          split at said <;> cases said
      · rw [tomlLine_section text (by simpa using double), tomlLine_section longer (by simpa using double)]
        cases said : sectionLine (d :: s) with
        | «section» n => exact .inr (.inl ⟨by simp, sectionLine_append said _⟩)
        | malformed fault => exact .inl ⟨fault, rfl⟩
        | _ =>
          unfold sectionLine at said
          split at said <;> cases said
  · rw [tomlLine_pairLine text bracket, tomlLine_pairLine longer bracket]
    cases said : pairLine (d :: s) with
    | pair key val =>
      right
      right
      refine ⟨key, val, rfl, ?_⟩
      by_cases filled : val = []
      · exact .inl filled
      · exact .inr (pairLine_append said filled own trimmed)
    | malformed fault => exact .inl ⟨fault, rfl⟩
    | _ =>
      unfold pairLine at said
      split at said
      · cases said
      · split at said <;> cases said

/-- The three ways the last piece of a line goes with the start of the comment. -/
theorem read_piece_cases {p p₁ : TomlParser} (step : p.read (reading last) = .ok p₁) (start : more <+: comment text)
    (nonzero : (0 : Byte) ∉ text) :
    (Settled last more ∧ reading (last ++ more) = reading last) ∨
    ∃ key val v c e, reading last = .pair key val ∧ p.toml.entries.length < maxEntries ∧ parseValue key val = .ok v ∧
      p₁ = { p with toml.entries := p.toml.entries ++ [⟨p.curSection, key.take 63, v⟩] } ∧ isSpace c = true ∧
      reading (last ++ more) = .pair key (val ++ c :: e) ∧ (Settled last more ↔ ValueEnds val (val ++ c :: e)) := by
  by_cases nul : (0 : Byte) ∈ last
  · left
    refine ⟨.inl nul, ?_⟩
    rw [reading, cstr_append_of_mem nul, reading]
  have nonzero' : (0 : Byte) ∉ more := by
    intro member
    have inComment := start.subset member
    simp only [comment, List.mem_cons] at inComment
    rcases inComment with zero | zero | inText
    · exact absurd zero (by decide)
    · exact absurd zero (by decide)
    · exact nonzero inText
  by_cases outside : hasComment .plain last = true ∨ Quoting.plain.after last = .plain ∨ more.length ≤ 1
  · left
    constructor
    · rcases outside with seen | plain | short
      · exact .inr (.inl seen)
      · exact .inr (.inr (.inl plain))
      · exact .inr (.inr (.inr (.inl short)))
    · have absent : (0 : Byte) ∉ last ++ more := by
        rw [List.mem_append]
        exact not_or.mpr ⟨nul, nonzero'⟩
      rw [reading, reading, cstr_of_notMem absent, cstr_of_notMem nul]
      exact tomlLine_congr (strippedLine_append_plain start outside)
  -- inside of quotes, with blank and hash behind
  obtain ⟨seen, quoted, long⟩ : hasComment .plain last = false ∧ Quoting.plain.after last ≠ .plain ∧ ¬more.length ≤ 1 := by
    simpa using outside
  rcases comment_start start with ⟨short, -⟩ | ⟨w, rfl⟩
  · exact absurd short long
  have absent : (0 : Byte) ∉ w := fun member => nonzero' (List.mem_cons_of_mem _ (List.mem_cons_of_mem _ member))
  obtain ⟨c, e, blank, ⟨fault, malformed⟩ | ⟨noPair, same⟩ | ⟨key, val, pair, rest⟩⟩ :=
    reading_append_quoted nul absent seen quoted
  · rw [malformed] at step
    cases step
  · exact .inl ⟨.inr (.inr (.inr (.inr fun key val _ _ pair => absurd pair (noPair key val)))), same⟩
  · right
    rw [pair] at step
    obtain ⟨same, -⟩ | ⟨n, same, -⟩ | ⟨n, same, -⟩ | ⟨key', val', v, same, room, value, here⟩ := read_cases step
    · cases same
    · cases same
    · cases same
    · cases same
      have filled : val ≠ [] := by
        rintro rfl
        cases value
      have longer := rest.resolve_left filled
      refine ⟨key, val, v, c, e, pair, room, value, here, blank, longer, ?_⟩
      constructor
      · rintro (zero | comment | plain | short | ends)
        · exact absurd zero nul
        · exact absurd comment (by simp [seen])
        · exact absurd plain quoted
        · exact absurd short long
        · exact ends key val _ _ pair longer
      · intro ends
        refine .inr (.inr (.inr (.inr fun _ _ _ _ pair' longer' => ?_)))
        cases pair.symm.trans pair'
        cases longer.symm.trans longer'
        exact ends

/-- The line's last piece does the same with the comment behind it if and only if that is settled. -/
theorem read_settled_iff {p p₁ : TomlParser} (step : p.read (reading last) = .ok p₁) (start : more <+: comment text)
    (nonzero : (0 : Byte) ∉ text) : p.read (reading (last ++ more)) = .ok p₁ ↔ Settled last more := by
  obtain ⟨settled, same⟩ | ⟨key, val, v, c, e, -, room, value, rfl, blank, longer, settled⟩ :=
    read_piece_cases step start nonzero
  · rw [same]
    exact iff_of_true step settled
  · rw [settled, ← parseValue_append_iff blank value, longer]
    simp only [TomlParser.read, if_pos room]
    cases parseValue key (val ++ c :: e) with
    | error fault => simp
    | ok v' => simp

/-- Whatever it does, it adds as much. -/
theorem read_piece_shape {p p₁ p₂ : TomlParser} (step : p.read (reading last) = .ok p₁) (start : more <+: comment text)
    (nonzero : (0 : Byte) ∉ text) (step' : p.read (reading (last ++ more)) = .ok p₂) :
    ∃ entries : List TomlEntry, entries.length = p₁.toml.entries.length ∧ p₂ = { p₁ with toml.entries := entries } := by
  obtain ⟨-, same⟩ | ⟨key, val, v, c, e, -, room, -, rfl, -, longer, -⟩ := read_piece_cases step start nonzero
  · rw [same, step] at step'
    exact ⟨p₁.toml.entries, rfl, (Except.ok.inj step').symm⟩
  · rw [longer] at step'
    simp only [TomlParser.read, if_pos room] at step'
    cases value : parseValue key (val ++ c :: e) with
    | error fault => simp [value] at step'
    | ok v' =>
      simp only [value, Except.ok.injEq] at step'
      exact ⟨_, by simp, step'.symm⟩

end Piece

/-! ## The rest of the comment -/

/-- A piece that leaves the entries and the counts alone. -/
def TomlLine.Quiet (line : TomlLine) : Prop := line = .blank ∨ ∃ n, line = .section n

/-- The section that is open after some lines without `[[name]]` headers. -/
def sectionAfter (cur : List Byte) : List TomlLine → List Byte
  | [] => cur
  | .section n :: lines => sectionAfter (n.take 79) lines
  | _ :: lines => sectionAfter cur lines

/-- No key before the next header, so it does not matter which section is open. -/
def NoKeyFirst (lines : List TomlLine) : Prop :=
  ∀ line ∈ lines.takeWhile fun line => !line.isHeader, ∀ key val, line ≠ .pair key val

section Rest
variable {p q p' q' : TomlParser} {lines : List TomlLine}

/-- A run that adds nothing reads quiet lines. -/
theorem quiet_of_counts (run : p.readAll lines = .ok q) (pairs : (lines.map TomlLine.pairs).sum = 0)
    (tables : (lines.map TomlLine.tableHeaders).sum = 0) : ∀ line ∈ lines, line.Quiet := by
  induction lines generalizing p with
  | nil => simp
  | cons line lines ih =>
    obtain ⟨p', step, rest⟩ := TomlParser.readAll_cons_ok.mp run
    simp only [List.map_cons, List.sum_cons, Nat.add_eq_zero_iff] at pairs tables
    refine List.forall_mem_cons.mpr ⟨?_, ih rest pairs.2 tables.2⟩
    obtain ⟨rfl, -⟩ | ⟨n, rfl, -⟩ | ⟨n, rfl, -⟩ | ⟨key, val, v, rfl, -⟩ := read_cases step
    · exact .inl rfl
    · exact absurd tables.1 (by simp [TomlLine.tableHeaders])
    · exact .inr ⟨n, rfl⟩
    · exact absurd pairs.1 (by simp [TomlLine.pairs])

theorem readAll_quiet (quiet : ∀ line ∈ lines, line.Quiet) :
    p.readAll lines = .ok { p with curSection := sectionAfter p.curSection lines } := by
  induction lines generalizing p with
  | nil => rfl
  | cons line lines ih =>
    obtain ⟨first, later⟩ := List.forall_mem_cons.mp quiet
    rcases first with rfl | ⟨n, rfl⟩
    · rw [TomlParser.readAll_blank, ih later]
      rfl
    · exact TomlParser.readAll_cons_ok.mpr ⟨_, rfl, ih later⟩

theorem noKeyFirst_blank : NoKeyFirst (.blank :: lines) ↔ NoKeyFirst lines := by
  simp [NoKeyFirst, TomlLine.isHeader]

/-- Where no key comes first, another open section comes to the same. -/
theorem readAll_noKeyFirst (free : NoKeyFirst lines) (run : p.readAll lines = .ok q) (sec : List Byte) :
    ∃ q', TomlParser.readAll { p with curSection := sec } lines = .ok q' ∧ q'.toml = q.toml := by
  induction lines generalizing p with
  | nil =>
    cases run
    exact ⟨_, rfl, rfl⟩
  | cons line lines ih =>
    obtain ⟨p', step, rest⟩ := TomlParser.readAll_cons_ok.mp run
    obtain ⟨rfl, rfl⟩ | ⟨n, rfl, room, rfl⟩ | ⟨n, rfl, rfl⟩ | ⟨key, val, v, rfl, -, -, rfl⟩ := read_cases step
    · rw [TomlParser.readAll_blank]
      exact ih (noKeyFirst_blank.mp free) rest
    · refine ⟨q, TomlParser.readAll_cons_ok.mpr ⟨_, ?_, rest⟩, rfl⟩
      simp only [TomlParser.read, room, if_true]
      rfl
    · exact ⟨q, TomlParser.readAll_cons_ok.mpr ⟨_, rfl, rest⟩, rfl⟩
    · exact absurd rfl (free (.pair key val) (by simp [TomlLine.isHeader]) key val)

/-- Where a key comes first, it tells which section is open. -/
theorem section_of_readAll {sec : List Byte} (run : p.readAll lines = .ok q)
    (run' : TomlParser.readAll { p with curSection := sec } lines = .ok q') (same : q'.toml = q.toml) :
    sec = p.curSection ∨ NoKeyFirst lines := by
  induction lines generalizing p with
  | nil => exact .inr (by simp [NoKeyFirst])
  | cons line lines ih =>
    obtain ⟨p₁, step, rest⟩ := TomlParser.readAll_cons_ok.mp run
    obtain ⟨p₂, step', rest'⟩ := TomlParser.readAll_cons_ok.mp run'
    obtain ⟨rfl, rfl⟩ | ⟨n, rfl, -, -⟩ | ⟨n, rfl, -⟩ | ⟨key, val, v, rfl, -, value, rfl⟩ := read_cases step
    · cases step'
      rcases ih rest rest' with equal | free
      · exact .inl equal
      · exact .inr (noKeyFirst_blank.mpr free)
    · exact .inr (by simp [NoKeyFirst, TomlLine.isHeader])
    · exact .inr (by simp [NoKeyFirst, TomlLine.isHeader])
    · left
      simp only [TomlParser.read, value] at step'
      split at step'
      · cases step'
        obtain ⟨added, grown, -⟩ := readAll_entries rest
        obtain ⟨added', grown', -⟩ := readAll_entries rest'
        rw [same, grown] at grown'
        simp only [List.append_assoc, List.append_cancel_left_eq, List.singleton_append, List.cons.injEq,
          TomlEntry.mk.injEq] at grown'
        exact grown'.1.1.symm
      · cases step'

end Rest

/-! ## The whole line -/

/-- The pieces of a line that fill the buffer. -/
def fullPieces (line : List Byte) : List Byte := line.take (line.length / 1023 * 1023)

/-- What is left of the line for its last piece. -/
def lastPiece (line : List Byte) : List Byte := line.drop (line.length / 1023 * 1023)

/-- The part of a comment that fits the buffer behind the line's last piece. -/
def commentStart (line text : List Byte) : List Byte := (comment text).take (1023 - (lastPiece line).length)

/-- The part that is cut into pieces of its own. -/
def commentRest (line text : List Byte) : List Byte := (comment text).drop (1023 - (lastPiece line).length)

section Line
variable {line text full : List Byte} {p p₁ q : TomlParser} {said' : TomlLine} {further lines : List TomlLine}

theorem length_lastPiece (line : List Byte) : (lastPiece line).length < 1023 := by
  rw [lastPiece, List.length_drop]
  omega

theorem readings_fulls {n : Nat} (fills : full.length = n * 1023) (inLine : (0x0A : Byte) ∉ full) (rest : List Byte) :
    readings (full ++ rest) = readings full ++ readings rest := by
  induction n generalizing full with
  | zero =>
    have empty : full = [] := List.length_eq_zero_iff.mp (by omega)
    rw [empty]
    rfl
  | succ n ih =>
    obtain ⟨piece, later, rfl, fit⟩ : ∃ piece later, full = piece ++ later ∧ piece.length = 1023 :=
      ⟨full.take 1023, full.drop 1023, (List.take_append_drop 1023 full).symm, by simp; omega⟩
    rw [List.mem_append, not_or] at inLine
    rw [List.length_append] at fills
    rw [List.append_assoc, readings_full inLine.1 fit, readings_full inLine.1 fit, ih (by omega) inLine.2, List.cons_append]

theorem readings_line (inLine : (0x0A : Byte) ∉ line) (rest : List Byte) :
    readings (line ++ rest) = readings (fullPieces line) ++ readings (lastPiece line ++ rest) := by
  have parts : line ++ rest = fullPieces line ++ (lastPiece line ++ rest) := by
    rw [fullPieces, lastPiece, ← List.append_assoc, List.take_append_drop]
  have fills : (fullPieces line).length = line.length / 1023 * 1023 := by
    rw [fullPieces, List.length_take]
    omega
  rw [parts, readings_fulls fills fun member => inLine (List.mem_of_mem_take member)]

/-- The comment's start is read with the last piece of the line, and the rest of it by itself. -/
theorem readAll_commented (inLine : (0x0A : Byte) ∉ line) (inText : (0x0A : Byte) ∉ text) :
    p.readAll (readings (lastPiece line ++ comment text) ++ lines) =
      p.readAll (reading (lastPiece line ++ commentStart line text) :: (readings (commentRest line text) ++ lines)) := by
  have room := length_lastPiece line
  have split : comment text = commentStart line text ++ commentRest line text := by
    rw [commentStart, commentRest, List.take_append_drop]
  have start : (commentStart line text).length = min (1023 - (lastPiece line).length) (comment text).length := by
    rw [commentStart, List.length_take]
  have absent : (0x0A : Byte) ∉ lastPiece line ++ commentStart line text := by
    rw [List.mem_append]
    rintro (member | member)
    · exact inLine (List.mem_of_mem_drop member)
    · have inComment := List.mem_of_mem_take member
      simp only [comment, List.mem_cons] at inComment
      rcases inComment with newline | newline | later
      · exact absurd newline (by decide)
      · exact absurd newline (by decide)
      · exact inText later
  conv_lhs => rw [split, ← List.append_assoc]
  by_cases long : 1023 - (lastPiece line).length ≤ (comment text).length
  · rw [readings_full absent (by rw [List.length_append, start]; omega), List.cons_append]
  · have nothing : commentRest line text = [] := List.drop_eq_nil_of_le (by omega)
    have said : readings ([] : List Byte) = [] := rfl
    rw [nothing, List.append_nil, readAll_short absent (by rw [List.length_append, start]; omega), said, List.nil_append]

/-- A piece that can only add as much as another did, and further pieces behind it, come to the same as the other
exactly when the piece does the same, the further ones are quiet, and the section they leave open makes no difference. -/
theorem readAll_pieces_iff (run : p₁.readAll lines = .ok q)
    (shape : ∀ p₂, p.read said' = .ok p₂ → ∃ entries : List TomlEntry,
      entries.length = p₁.toml.entries.length ∧ p₂ = { p₁ with toml.entries := entries }) :
    (∃ q', p.readAll (said' :: (further ++ lines)) = .ok q' ∧ q'.toml = q.toml) ↔
      p.read said' = .ok p₁ ∧ (∀ l ∈ further, l.Quiet) ∧
        (sectionAfter p₁.curSection further = p₁.curSection ∨ NoKeyFirst lines) := by
  constructor
  · rintro ⟨q', run', same⟩
    obtain ⟨p₂, step', behind⟩ := TomlParser.readAll_cons_ok.mp run'
    obtain ⟨p₃, middle, rest⟩ := TomlParser.readAll_append_ok.mp behind
    obtain ⟨entries, length, rfl⟩ := shape p₂ step'
    -- nothing else can be added, since in the end there is as much
    obtain ⟨pairs, tables⟩ := readAll_counts run
    obtain ⟨pairs₂, tables₂⟩ := readAll_counts middle
    obtain ⟨pairs₃, tables₃⟩ := readAll_counts rest
    rw [same] at pairs₃ tables₃
    simp only at pairs₂ tables₂
    have quiet := quiet_of_counts middle (by omega) (by omega)
    cases (readAll_quiet quiet).symm.trans middle
    obtain ⟨added, grown, -⟩ := readAll_entries run
    obtain ⟨added', grown', -⟩ := readAll_entries rest
    rw [same, grown] at grown'
    obtain rfl : p₁.toml.entries = entries := (List.append_inj grown' length.symm).1
    exact ⟨step', quiet, section_of_readAll run rest same⟩
  · rintro ⟨step', quiet, stays⟩
    have middle := readAll_quiet (p := p₁) quiet
    rcases stays with same | free
    · rw [same] at middle
      exact ⟨q, TomlParser.readAll_cons_ok.mpr ⟨p₁, step', TomlParser.readAll_append_ok.mpr ⟨p₁, middle, run⟩⟩, rfl⟩
    · obtain ⟨q', rest, equal⟩ := readAll_noKeyFirst free run (sectionAfter p₁.curSection further)
      exact ⟨q', TomlParser.readAll_cons_ok.mpr ⟨p₁, step', TomlParser.readAll_append_ok.mpr ⟨_, middle, rest⟩⟩, equal⟩

end Line

/-- The comment behind a line makes no difference: it is settled with the end of the line, its further pieces read as
nothing or as headers, and these leave the same section open or one that no key is read in. -/
structure CommentKept (before line text rest : List Byte) : Prop where
  settled : Settled (lastPiece line) (commentStart line text)
  quiet : ∀ l ∈ readings (commentRest line text), l.Quiet
  stays : ∀ p, TomlParser.readAll {} (readings (before ++ line)) = .ok p →
    sectionAfter p.curSection (readings (commentRest line text)) = p.curSection ∨ NoKeyFirst (readings rest.tail)

/-- A comment behind a line of an accepted file leaves what the file says alone exactly when no piece of it is taken
for more than a comment. -/
theorem comment_ignored_iff (path before line text rest : List Byte) (t : Toml) (start : AtLine before)
    (inLine : (0x0A : Byte) ∉ line) (ends : AtEnd rest) (inText : (0x0A : Byte) ∉ text) (nonzero : (0 : Byte) ∉ text)
    (parsed : tomlParseFile path (some (before ++ (line ++ rest))) = .ok t) :
    tomlParseFile path (some (before ++ (line ++ comment text ++ rest))) = .ok t ↔ CommentKept before line text rest := by
  obtain ⟨q, run, rfl⟩ := tomlParseFile_ok_iff.mp parsed
  have whole := readings_line inLine []
  rw [List.append_nil, List.append_nil] at whole
  have inComment : (0x0A : Byte) ∉ line ++ comment text := by
    rw [List.mem_append, comment, List.mem_cons, List.mem_cons]
    rintro (member | newline | newline | member)
    · exact inLine member
    · exact absurd newline (by decide)
    · exact absurd newline (by decide)
    · exact inText member
  -- the run up to the last piece of the line
  rw [readAll_line start inLine ends, whole, ← List.append_assoc, ← List.append_assoc, List.append_assoc] at run
  obtain ⟨p, front, behind⟩ := TomlParser.readAll_append_ok.mp run
  have inLast : (0x0A : Byte) ∉ lastPiece line := fun member => inLine (List.mem_of_mem_drop member)
  rw [readAll_short inLast (length_lastPiece line)] at behind
  obtain ⟨p₁, step, tail⟩ := TomlParser.readAll_cons_ok.mp behind
  have prefixed : commentStart line text <+: comment text := List.take_prefix _ _
  have upTo : TomlParser.readAll {} (readings (before ++ line)) = .ok p₁ := by
    have cut : TomlParser.readAll {} (readings (before ++ (line ++ []))) =
        TomlParser.readAll {} (readings before ++ (readings line ++ readings [])) := readAll_line start inLine (.inl rfl)
    rw [List.append_nil] at cut
    rw [cut, whole, ← List.append_assoc, ← List.append_assoc, List.append_assoc]
    refine TomlParser.readAll_append_ok.mpr ⟨p, front, ?_⟩
    rw [readAll_short inLast (length_lastPiece line)]
    exact TomlParser.readAll_cons_ok.mpr ⟨p₁, step, rfl⟩
  have rerun : (∃ q', TomlParser.readAll {} (readings (before ++ (line ++ comment text ++ rest))) = .ok q' ∧ q'.toml = q.toml) ↔
      ∃ q', p.readAll (reading (lastPiece line ++ commentStart line text) ::
        (readings (commentRest line text) ++ readings rest.tail)) = .ok q' ∧ q'.toml = q.toml := by
    rw [readAll_line start inComment ends, readings_line inLine, ← List.append_assoc, ← List.append_assoc, List.append_assoc]
    have behind_front : ∀ lines q', TomlParser.readAll {} (readings before ++ readings (fullPieces line) ++ lines) = .ok q' ↔
        p.readAll lines = .ok q' := by
      intro lines q'
      rw [TomlParser.readAll_append_ok, front]
      simp
    simp only [behind_front, readAll_commented inLine inText]
  rw [tomlParseFile_ok_iff, rerun, readAll_pieces_iff tail fun p₂ step' => read_piece_shape step prefixed nonzero step',
    read_settled_iff step prefixed nonzero]
  constructor
  · rintro ⟨settled, quiet, stays⟩
    refine ⟨settled, quiet, fun p' again => ?_⟩
    cases upTo.symm.trans again
    exact stays
  · rintro ⟨settled, quiet, stays⟩
    exact ⟨settled, quiet, stays p₁ upTo⟩

theorem comment_ignored_iff_key : ∃ t, tomlParseFile [] (some ([] ++ (ascii "k = 1" ++ ascii "\n"))) = .ok t ∧
    (tomlParseFile [] (some ([] ++ (ascii "k = 1" ++ comment (ascii "one") ++ ascii "\n"))) = .ok t ↔
      CommentKept [] (ascii "k = 1") (ascii "one") (ascii "\n")) := by
  have parsed : tomlParseFile [] (some ([] ++ (ascii "k = 1" ++ ascii "\n"))) = .ok ⟨[⟨[], ascii "k", .int 1⟩], []⟩ := by
    decide +kernel
  exact ⟨_, parsed, comment_ignored_iff [] [] (ascii "k = 1") (ascii "one") (ascii "\n") _ (.inl rfl) (by decide)
    (.inr (by decide)) (by decide) (by decide) parsed⟩

/-- What is past the buffer in a comment is read as a line. -/
def longComment : List Byte := List.replicate 1021 0x78 ++ ascii "k = 1"

theorem notMem_longComment {c : Byte} (other : c ≠ 0x78) (absent : c ∉ ascii "k = 1") : c ∉ longComment := by
  intro member
  rcases List.mem_append.mp member with filler | tail
  · exact other (List.eq_of_mem_replicate filler)
  · exact absent tail

/-- The end of a long comment behind a blank line sets a key. -/
theorem long_comment_sets_key : ¬∀ (path before line text rest : List Byte) (t : Toml), AtLine before → IsBlank line →
    (0x0A : Byte) ∉ line → AtEnd rest → (0x0A : Byte) ∉ text → (0 : Byte) ∉ text →
    tomlParseFile path (some (before ++ (line ++ rest))) = .ok t →
    tomlParseFile path (some (before ++ (line ++ comment text ++ rest))) = .ok t := by
  intro ignored
  have empty : tomlParseFile [] (some ([] ++ ([] ++ []))) = .ok {} := by decide
  have same := ignored [] [] [] longComment [] {} (.inl rfl) blank_nil (by simp) (.inl rfl)
    (notMem_longComment (by decide) (by decide)) (notMem_longComment (by decide) (by decide)) empty
  have set : tomlParseFile [] (some ([] ++ ([] ++ comment longComment ++ []))) = .ok ⟨[⟨[], ascii "k", .int 1⟩], []⟩ := by
    decide +kernel
  cases set.symm.trans same

end Cc2obp
