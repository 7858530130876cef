import Cc2obp.Config.TomlLines
import Cc2obp.Lib.Text

/-!
# Arrays of tables

A header counts the tables of its name and opens a section of its own, in which
everything up to the next header is kept. Once another header is read that section
is never open again, so looking a key up in it is looking for it in that block of
the file.
-/
namespace Cc2obp

open CString TextFile

/-! ## Blocks of a file -/

def TomlLine.isHeader : TomlLine → Bool
  | .tables _ => true
  | .section _ => true
  | _ => false

/-- The lines behind the i-th `[[name]]` header, up to the next header of any kind. -/
def blockOf (name : List Byte) : Nat → List TomlLine → List TomlLine
  | _, [] => []
  | 0, .tables n :: lines =>
    if n = name then lines.takeWhile (fun line => !line.isHeader) else blockOf name 0 lines
  | i + 1, .tables n :: lines => if n = name then blockOf name i lines else blockOf name (i + 1) lines
  | i, _ :: lines => blockOf name i lines

def TomlLine.sets (key : List Byte) : TomlLine → Bool
  | .pair k _ => k == key
  | _ => false

def TomlLine.value? : TomlLine → Option TomlValue
  | .pair key val => (parseValue key val).toOption
  | _ => none

/-- The value of the first line that sets a key. -/
def firstValue (key : List Byte) (lines : List TomlLine) : Option TomlValue :=
  (lines.find? (TomlLine.sets key)).bind TomlLine.value?

def TomlLine.pairs : TomlLine → Nat
  | .pair _ _ => 1
  | _ => 0

def TomlLine.tableHeaders : TomlLine → Nat
  | .tables _ => 1
  | _ => 0

/-- The line as it is kept: its key cut by the buffer. -/
def TomlLine.cut : TomlLine → TomlLine
  | .pair key val => .pair (key.take 63) val
  | line => line

/-- The first line whose key is kept as the given one. -/
def firstKept (key : List Byte) (lines : List TomlLine) : Option TomlValue :=
  (lines.find? fun line => line.cut.sets key).bind TomlLine.value?

/-- No other header opens the section of the i-th of a name, which fits its buffer. -/
structure Apart (lines : List TomlLine) (name : List Byte) (i : Nat) : Prop where
  fits : (sectionName name i).length ≤ 79
  tables : ∀ n, .tables n ∈ lines → ∀ k, (sectionName n k).take 79 = sectionName name i → n = name ∧ k = i
  sections : ∀ n, .section n ∈ lines → n.take 79 ≠ sectionName name i

/-- Table names that fit their slots. -/
structure Slotted (lines : List TomlLine) (name : List Byte) : Prop where
  fits : .tables name ∈ lines → name.length < 64
  apart : ∀ n, .tables n ∈ lines → n.take 63 = name → n = name

section Mono
variable {line : TomlLine} {lines : List TomlLine} {name : List Byte} {i : Nat}

theorem Apart.tail (apart : Apart (line :: lines) name i) : Apart lines name i :=
  ⟨apart.fits, fun n member => apart.tables n (List.mem_cons_of_mem line member),
    fun n member => apart.sections n (List.mem_cons_of_mem line member)⟩

theorem Slotted.tail (slotted : Slotted (line :: lines) name) : Slotted lines name :=
  ⟨fun member => slotted.fits (List.mem_cons_of_mem line member),
    fun n member => slotted.apart n (List.mem_cons_of_mem line member)⟩

end Mono

/-! ## Counting -/

/-- The count of a name in the slots. -/
def tableCount (atables : List (List Byte × Nat)) (name : List Byte) : Nat :=
  ((atables.find? fun a => a.1 == name).map Prod.snd).getD 0

theorem countTable_cons (a : List Byte × Nat) (atables : List (List Byte × Nat)) (n : List Byte) :
    countTable (a :: atables) n = if a.1 = n then (a.1, a.2 + 1) :: atables else a :: countTable atables n := by
  simp only [countTable, List.findIdx?_cons]
  by_cases same : a.1 = n
  · simp [same]
  · rw [beq_eq_false_iff_ne.mpr same, if_neg same]
    cases found : atables.findIdx? fun a => a.1 == n with
    | none => simp
    | some i => simp

theorem tableCount_countTable_self {atables : List (List Byte × Nat)} {name : List Byte} (fits : name.length < 64) :
    tableCount (countTable atables name) name = tableCount atables name + 1 := by
  induction atables with
  | nil =>
    have whole : name.take 63 = name := List.take_of_length_le (by omega)
    simp [countTable, tableCount, whole]
  | cons a atables ih =>
    rw [countTable_cons]
    by_cases same : a.1 = name
    · simp [tableCount, same]
    · simpa [tableCount, same] using ih

theorem tableCount_countTable_other {atables : List (List Byte × Nat)} {name n : List Byte} (other : n ≠ name)
    (apart : n.take 63 ≠ name) : tableCount (countTable atables n) name = tableCount atables name := by
  induction atables with
  | nil => simp [countTable, tableCount, apart]
  | cons a atables ih =>
    rw [countTable_cons]
    by_cases same : a.1 = n
    · simp [tableCount, same, other]
    · rw [if_neg same]
      by_cases here : a.1 = name
      · simp [tableCount, here]
      · simpa [tableCount, here] using ih

theorem countTable_sum (atables : List (List Byte × Nat)) (n : List Byte) :
    ((countTable atables n).map Prod.snd).sum = (atables.map Prod.snd).sum + 1 := by
  induction atables with
  | nil => simp [countTable]
  | cons a atables ih =>
    rw [countTable_cons]
    split
    · simp only [List.map_cons, List.sum_cons]
      omega
    · simp only [List.map_cons, List.sum_cons, ih]
      omega

/-! ## One line -/

section Step
variable {p q : TomlParser} {line : TomlLine} {name : List Byte} {i : Nat}

/-- What one line can do. -/
theorem read_cases (step : p.read line = .ok q) :
    (line = .blank ∧ q = p) ∨
    (∃ n, line = .tables n ∧ hasTable p.toml.atables n = true ∧
      q = { toml := { p.toml with atables := countTable p.toml.atables n }
            curSection := (sectionName n (tableCount p.toml.atables n)).take 79 }) ∨
    (∃ n, line = .section n ∧ q = { p with curSection := n.take 79 }) ∨
    (∃ key val v, line = .pair key val ∧ p.toml.entries.length < maxEntries ∧ parseValue key val = .ok v ∧
      q = { p with toml.entries := p.toml.entries ++ [⟨p.curSection, key.take 63, v⟩] }) := by
  cases line with
  | blank => exact .inl ⟨rfl, (Except.ok.inj step).symm⟩
  | tables n =>
    simp only [TomlParser.read] at step
    split at step
    next room => exact .inr (.inl ⟨n, rfl, room, (Except.ok.inj step).symm⟩)
    · cases step
  | «section» n => exact .inr (.inr (.inl ⟨n, rfl, (Except.ok.inj step).symm⟩))
  | pair key val =>
    simp only [TomlParser.read] at step
    split at step
    next room =>
      cases value : parseValue key val with
      | error fault => simp [value] at step
      | ok v =>
        simp only [value] at step
        exact .inr (.inr (.inr ⟨key, val, v, rfl, room, value, (Except.ok.inj step).symm⟩))
    · cases step
  | malformed fault => cases step

theorem arrayLen_read (slotted : Slotted [line] name) (step : p.read line = .ok q) :
    q.toml.arrayLen name = p.toml.arrayLen name + [line].count (.tables name) := by
  obtain ⟨rfl, rfl⟩ | ⟨n, rfl, -, rfl⟩ | ⟨n, rfl, rfl⟩ | ⟨key, val, v, rfl, -, -, rfl⟩ := read_cases step
  · simp
  · by_cases same : n = name
    · subst same
      have counted : tableCount (countTable p.toml.atables n) n = tableCount p.toml.atables n + 1 :=
        tableCount_countTable_self (slotted.fits (by simp))
      simpa [Toml.arrayLen, tableCount] using counted
    · have apart : n.take 63 ≠ name := fun cut => same (slotted.apart n (by simp) cut)
      have kept : tableCount (countTable p.toml.atables n) name = tableCount p.toml.atables name :=
        tableCount_countTable_other same apart
      simpa [Toml.arrayLen, tableCount, same] using kept
  · simp
  · simp [Toml.arrayLen]

/-- The section that is open after a header, if it is the i-th of the name. -/
theorem curSection_read (apart : Apart [line] name i) (step : p.read line = .ok q)
    (before : p.curSection ≠ sectionName name i) (opens : q.curSection = sectionName name i) :
    line = .tables name ∧ p.toml.arrayLen name = i := by
  obtain ⟨rfl, rfl⟩ | ⟨n, rfl, -, rfl⟩ | ⟨n, rfl, rfl⟩ | ⟨key, val, v, rfl, -, -, rfl⟩ := read_cases step
  · exact absurd opens before
  · obtain ⟨rfl, count⟩ := apart.tables n (by simp) _ opens
    exact ⟨rfl, count⟩
  · exact absurd opens (apart.sections n (by simp))
  · exact absurd opens before

theorem get_append_other {entries : List TomlEntry} {e : TomlEntry} {sec : List Byte} (other : e.sec ≠ sec)
    (atables atables' : List (List Byte × Nat)) (key : List Byte) :
    Toml.get ⟨entries ++ [e], atables⟩ sec key = Toml.get ⟨entries, atables'⟩ sec key := by
  simp [Toml.get, other]

/-- A line leaves a section alone that is not the open one. -/
theorem get_read_other {sec : List Byte} (other : p.curSection ≠ sec) (step : p.read line = .ok q) (key : List Byte) :
    q.toml.get sec key = p.toml.get sec key := by
  obtain ⟨rfl, rfl⟩ | ⟨n, rfl, -, rfl⟩ | ⟨n, rfl, rfl⟩ | ⟨k, val, v, rfl, -, -, rfl⟩ := read_cases step
  · rfl
  · rfl
  · rfl
  · exact get_append_other other _ _ key

end Step

/-! ## Runs -/

section Runs
variable {p q : TomlParser} {lines : List TomlLine} {name : List Byte} {i : Nat}

/-- What a run adds does not depend on the entries before it, only on how many there are. -/
theorem readAll_entries (run : p.readAll lines = .ok q) :
    ∃ added, q.toml.entries = p.toml.entries ++ added ∧ ∀ entries : List TomlEntry,
      entries.length = p.toml.entries.length →
      TomlParser.readAll { p with toml.entries := entries } lines = .ok { q with toml.entries := entries ++ added } := by
  induction lines generalizing p with
  | nil =>
    cases run
    exact ⟨[], by simp, fun entries _ => by simp⟩
  | cons line lines ih =>
    obtain ⟨p', step, rest⟩ := TomlParser.readAll_cons_ok.mp run
    obtain ⟨later, grown, again⟩ := ih rest
    obtain ⟨rfl, rfl⟩ | ⟨n, rfl, room, rfl⟩ | ⟨n, rfl, rfl⟩ | ⟨key, val, v, rfl, room, value, rfl⟩ := read_cases step
    · refine ⟨later, grown, fun entries same => ?_⟩
      rw [TomlParser.readAll_blank]
      exact again entries same
    · refine ⟨later, grown, fun entries same => TomlParser.readAll_cons_ok.mpr ⟨_, ?_, again entries same⟩⟩
      simp only [TomlParser.read, room, if_true]
      rfl
    · exact ⟨later, grown, fun entries same => TomlParser.readAll_cons_ok.mpr ⟨_, rfl, again entries same⟩⟩
    · refine ⟨⟨p.curSection, key.take 63, v⟩ :: later, by simp [grown], fun entries same => ?_⟩
      have more := again (entries ++ [⟨p.curSection, key.take 63, v⟩]) (by simp [same])
      rw [List.append_assoc, List.singleton_append] at more
      refine TomlParser.readAll_cons_ok.mpr ⟨_, ?_, more⟩
      simp only [TomlParser.read, same, if_pos room, value]

/-- A run adds an entry for every pair and a count for every header of a table. -/
theorem readAll_counts (run : p.readAll lines = .ok q) :
    q.toml.entries.length = p.toml.entries.length + (lines.map TomlLine.pairs).sum ∧
      (q.toml.atables.map Prod.snd).sum = (p.toml.atables.map Prod.snd).sum + (lines.map TomlLine.tableHeaders).sum := by
  induction lines generalizing p with
  | nil =>
    cases run
    simp
  | cons line lines ih =>
    obtain ⟨p', step, rest⟩ := TomlParser.readAll_cons_ok.mp run
    obtain ⟨entries, tables⟩ := ih rest
    rw [entries, tables]
    obtain ⟨rfl, rfl⟩ | ⟨n, rfl, -, rfl⟩ | ⟨n, rfl, rfl⟩ | ⟨key, val, v, rfl, -, -, rfl⟩ := read_cases step
    · simp [TomlLine.pairs, TomlLine.tableHeaders]
    · simp [TomlLine.pairs, TomlLine.tableHeaders, countTable_sum]
      omega
    · simp [TomlLine.pairs, TomlLine.tableHeaders]
    · simp [TomlLine.pairs, TomlLine.tableHeaders]
      omega

theorem arrayLen_readAll (slotted : Slotted lines name) (run : p.readAll lines = .ok q) :
    q.toml.arrayLen name = p.toml.arrayLen name + lines.count (.tables name) := by
  induction lines generalizing p with
  | nil =>
    cases run
    simp
  | cons line lines ih =>
    obtain ⟨p', step, rest⟩ := TomlParser.readAll_cons_ok.mp run
    have first : Slotted [line] name := by
      constructor
      · exact fun member => slotted.fits (by simpa using .inl (List.mem_singleton.mp member))
      · exact fun n member => slotted.apart n (by simpa using .inl (List.mem_singleton.mp member))
    rw [ih slotted.tail rest, arrayLen_read first step, List.count_cons, List.count_cons, List.count_nil]
    omega

theorem Apart.head {line : TomlLine} (apart : Apart (line :: lines) name i) : Apart [line] name i := by
  refine ⟨apart.fits, ?_, ?_⟩
  · exact fun n member => apart.tables n (by simpa using .inl (List.mem_singleton.mp member))
  · exact fun n member => apart.sections n (by simpa using .inl (List.mem_singleton.mp member))

theorem Slotted.head {line : TomlLine} (slotted : Slotted (line :: lines) name) : Slotted [line] name := by
  constructor
  · exact fun member => slotted.fits (by simpa using .inl (List.mem_singleton.mp member))
  · exact fun n member => slotted.apart n (by simpa using .inl (List.mem_singleton.mp member))

/-- A section behind which another header has been read stays as it is. -/
theorem get_closed (apart : Apart lines name i) (slotted : Slotted lines name) (counted : i < p.toml.arrayLen name)
    (closed : p.curSection ≠ sectionName name i) (run : p.readAll lines = .ok q) (key : List Byte) :
    q.toml.get (sectionName name i) key = p.toml.get (sectionName name i) key := by
  induction lines generalizing p with
  | nil =>
    cases run
    rfl
  | cons line lines ih =>
    obtain ⟨p', step, rest⟩ := TomlParser.readAll_cons_ok.mp run
    have more := arrayLen_read slotted.head step
    have stays : p'.curSection ≠ sectionName name i := by
      intro opens
      obtain ⟨-, count⟩ := curSection_read apart.head step closed opens
      omega
    rw [ih apart.tail slotted.tail (by omega) stays rest, get_read_other closed step]

/-- An open section takes the lines up to the next header. -/
theorem get_open (apart : Apart lines name i) (slotted : Slotted lines name) (counted : i < p.toml.arrayLen name)
    (opened : p.curSection = sectionName name i) (run : p.readAll lines = .ok q) (key : List Byte) :
    q.toml.get (sectionName name i) key =
      (p.toml.get (sectionName name i) key).or (firstKept key (lines.takeWhile fun line => !line.isHeader)) := by
  induction lines generalizing p with
  | nil =>
    cases run
    simp [firstKept]
  | cons line lines ih =>
    obtain ⟨p', step, rest⟩ := TomlParser.readAll_cons_ok.mp run
    have more := arrayLen_read slotted.head step
    obtain ⟨rfl, same⟩ | ⟨n, rfl, -, same⟩ | ⟨n, rfl, same⟩ | ⟨k, val, v, rfl, -, value, same⟩ := read_cases step
    · subst same
      rw [ih apart.tail slotted.tail counted opened rest]
      simp [firstKept, TomlLine.isHeader, TomlLine.cut, TomlLine.sets]
    · -- the next table of the same name has a later number
      have closes : p'.curSection ≠ sectionName name i := by
        intro again
        rw [same] at again
        obtain ⟨rfl, count⟩ := apart.tables n (by simp) _ again
        have here : p.toml.arrayLen n = i := count
        omega
      rw [get_closed apart.tail slotted.tail (by omega) closes rest, same]
      simp [firstKept, TomlLine.isHeader, Toml.get]
    · have closes : p'.curSection ≠ sectionName name i := by
        rw [same]
        exact apart.sections n (by simp)
      rw [get_closed apart.tail slotted.tail (by omega) closes rest, same]
      simp [firstKept, TomlLine.isHeader]
    · have stays : p'.curSection = sectionName name i := by rw [same, opened]
      rw [ih apart.tail slotted.tail (by omega) stays rest]
      have kept : p'.toml.get (sectionName name i) key =
          (p.toml.get (sectionName name i) key).or (if k.take 63 = key then some v else none) := by
        simp only [same, Toml.get, List.find?_append, Option.map_or, opened]
        by_cases here : k.take 63 = key <;> simp [here]
      have block : firstKept key ((TomlLine.pair k val :: lines).takeWhile fun line => !line.isHeader) =
          (if k.take 63 = key then some v else none).or
            (firstKept key (lines.takeWhile fun line => !line.isHeader)) := by
        by_cases here : k.take 63 = key
        · simp [firstKept, TomlLine.isHeader, TomlLine.cut, TomlLine.sets, TomlLine.value?, here, value, Except.toOption]
        · simp [firstKept, TomlLine.isHeader, TomlLine.cut, TomlLine.sets, here]
      rw [kept, block, Option.or_assoc]

/-- A section that has not been opened yet is filled by its block. -/
theorem get_later (apart : Apart lines name i) (slotted : Slotted lines name) (later : p.toml.arrayLen name ≤ i)
    (closed : p.curSection ≠ sectionName name i) (empty : ∀ key, p.toml.get (sectionName name i) key = none)
    (run : p.readAll lines = .ok q) (key : List Byte) :
    q.toml.get (sectionName name i) key = firstKept key (blockOf name (i - p.toml.arrayLen name) lines) := by
  induction lines generalizing p with
  | nil =>
    cases run
    simp [blockOf, firstKept, empty]
  | cons line lines ih =>
    obtain ⟨p', step, rest⟩ := TomlParser.readAll_cons_ok.mp run
    have more := arrayLen_read slotted.head step
    have same : ∀ key, p'.toml.get (sectionName name i) key = none := by
      intro key
      rw [get_read_other closed step]
      exact empty key
    by_cases opens : p'.curSection = sectionName name i
    · obtain ⟨rfl, count⟩ := curSection_read apart.head step closed opens
      simp only [List.count_cons_self, List.count_nil] at more
      rw [get_open apart.tail slotted.tail (by omega) opens rest, same]
      simp [count, blockOf]
    · -- the header of another table, or no header
      have skips : p'.toml.arrayLen name ≤ i ∧
          blockOf name (i - p.toml.arrayLen name) (line :: lines) = blockOf name (i - p'.toml.arrayLen name) lines := by
        obtain ⟨rfl, rfl⟩ | ⟨n, rfl, -, here⟩ | ⟨n, rfl, here⟩ | ⟨k, val, v, rfl, -, -, here⟩ := read_cases step
        · exact ⟨later, by simp [blockOf]⟩
        · by_cases same : n = name
          · subst same
            simp only [List.count_cons_self, List.count_nil] at more
            have before : p.toml.arrayLen n ≠ i := by
              intro last
              apply opens
              rw [here]
              have count : tableCount p.toml.atables n = i := last
              rw [count]
              exact List.take_of_length_le apart.fits
            obtain ⟨d, gap⟩ : ∃ d, i - p.toml.arrayLen n = d + 1 := ⟨i - p.toml.arrayLen n - 1, by omega⟩
            refine ⟨by omega, ?_⟩
            rw [gap, blockOf, if_pos rfl]
            congr 1
            omega
          · have kept : p'.toml.arrayLen name = p.toml.arrayLen name := by simpa [same] using more
            refine ⟨by omega, ?_⟩
            rw [kept]
            cases i - p.toml.arrayLen name <;> simp [blockOf, same]
        · have kept : p'.toml.arrayLen name = p.toml.arrayLen name := by simpa using more
          exact ⟨by omega, by rw [kept]; simp [blockOf]⟩
        · have kept : p'.toml.arrayLen name = p.toml.arrayLen name := by simpa using more
          exact ⟨by omega, by rw [kept]; simp [blockOf]⟩
      rw [ih apart.tail slotted.tail skips.1 opens same rest, skips.2]

end Runs

/-! ## Section names -/

theorem hash_notMem_fmtNat (n : Nat) : (0x23 : Byte) ∉ fmtNat 10 n := by
  intro member
  have digit : (digitVal 10 0x23).isSome = true := isDigits_fmtNat (by decide) (by decide) n _ member
  revert digit
  decide

/-- The section of a table determines its array and its number. -/
theorem sectionName_inj {name name' : List Byte} {i j : Nat} (same : sectionName name i = sectionName name' j) :
    name = name' ∧ i = j := by
  have parts : ∀ (n : List Byte) (k : Nat),
      (sectionName n k).reverse.span (· != 0x23) = ((fmtNat 10 k).reverse, 0x23 :: n.reverse) := by
    intro n k
    have digits : ∀ c ∈ (fmtNat 10 k).reverse, (c != 0x23) = true := by
      intro c member
      have other : c ≠ 0x23 := fun hash => hash_notMem_fmtNat k (hash ▸ List.mem_reverse.mp member)
      simpa using other
    have split : (sectionName n k).reverse = (fmtNat 10 k).reverse ++ 0x23 :: n.reverse := by
      simp [sectionName, ascii]
    rw [split, List.span_eq_takeWhile_dropWhile, List.takeWhile_append_of_pos digits, List.dropWhile_append_of_pos digits]
    simp
  have both := parts name i
  rw [same, parts name' j, Prod.mk.injEq] at both
  obtain ⟨digits, front⟩ := both
  have number := congrArg (digitsValue 10 0) (List.reverse_injective digits)
  rw [digitsValue_fmtNat (by decide) (by decide), digitsValue_fmtNat (by decide) (by decide)] at number
  exact ⟨(List.reverse_injective (List.cons.inj front).2).symm, number.symm⟩

theorem length_sectionName (name : List Byte) (i : Nat) :
    (sectionName name i).length = name.length + 1 + (fmtNat 10 i).length := by
  simp [sectionName, ascii]
  omega

theorem hash_mem_sectionName (name : List Byte) (i : Nat) : (0x23 : Byte) ∈ sectionName name i := by
  simp [sectionName, ascii]

/-- The sections of an array with short names, numbered by an `int`, are cut by no buffer. -/
theorem length_sectionName_lt {name : List Byte} {i : Nat} (short : name.length < 64) (index : i < 2 ^ 31) :
    (sectionName name i).length < 79 := by
  have digits : (fmtNat 10 i).length ≤ 10 := length_fmtNat_le (by decide) (by decide) (by omega)
  rw [length_sectionName]
  omega

/-- A section name that a buffer may have cut is the whole one if it is short. -/
theorem sectionName_of_take {name n : List Byte} {i k : Nat} (fits : (sectionName name i).length < 79)
    (same : (sectionName n k).take 79 = sectionName name i) : n = name ∧ k = i := by
  have length := congrArg List.length same
  rw [List.length_take] at length
  have whole : (sectionName n k).take 79 = sectionName n k := List.take_of_length_le (by omega)
  exact sectionName_inj (whole.symm.trans same)

/-! ## A file of short lines and names -/

/-- What the lines of a file say. -/
def fileLines (file : List Byte) : List TomlLine := (linesOf file).map reading

/-- Lines, names and keys that fit the parser's buffers, and no hash in the name of an ordinary section. -/
structure PlainFile (file : List Byte) : Prop where
  lines : ∀ line ∈ linesOf file, line.length < 1023
  tables : ∀ name, .tables name ∈ fileLines file → name.length < 64
  sections : ∀ name, .section name ∈ fileLines file → name.length < 64 ∧ (0x23 : Byte) ∉ name
  keys : ∀ key val, .pair key val ∈ fileLines file → key.length < 64

theorem mem_of_mem_blockOf {name : List Byte} {i : Nat} {lines : List TomlLine} {line : TomlLine}
    (member : line ∈ blockOf name i lines) : line ∈ lines := by
  induction lines generalizing i with
  | nil => simp [blockOf] at member
  | cons first lines ih =>
    apply List.mem_cons_of_mem
    cases first with
    | tables n =>
      cases i with
      | zero =>
        rw [blockOf] at member
        split at member
        · exact List.takeWhile_subset _ member
        · exact ih member
      | succ i =>
        rw [blockOf] at member
        split at member
        · exact ih member
        · exact ih member
    | blank => exact ih (by simpa [blockOf] using member)
    | «section» n => exact ih (by simpa [blockOf] using member)
    | pair key val => exact ih (by simpa [blockOf] using member)
    | malformed fault => exact ih (by simpa [blockOf] using member)

/-- Among keys that fit their buffer the first line that keeps a key is the first that sets it. -/
theorem firstKept_eq {lines : List TomlLine} (short : ∀ key val, .pair key val ∈ lines → key.length < 64)
    (key : List Byte) : firstKept key lines = firstValue key lines := by
  induction lines with
  | nil => rfl
  | cons line lines ih =>
    have later := ih fun k val member => short k val (List.mem_cons_of_mem line member)
    have whole : line.cut = line := by
      cases line with
      | pair k val =>
        have fits := short k val (by simp)
        rw [TomlLine.cut, List.take_of_length_le (by omega)]
      | _ => rfl
    simp only [firstKept, firstValue, List.find?_cons, whole] at later ⊢
    split
    · rfl
    · exact later

theorem PlainFile.slotted {file : List Byte} (plain : PlainFile file) (name : List Byte) : Slotted (fileLines file) name := by
  constructor
  case fits => exact plain.tables name
  case apart =>
    intro n member cut
    have short := plain.tables n member
    rwa [List.take_of_length_le (by omega)] at cut

theorem PlainFile.apart {file : List Byte} (plain : PlainFile file) {name : List Byte} {i : Nat}
    (short : name.length < 64) (index : i < 2 ^ 31) : Apart (fileLines file) name i := by
  have fits := length_sectionName_lt short index
  constructor
  case fits => omega
  case tables => exact fun n _ k same => sectionName_of_take fits same
  case sections =>
    intro n member same
    obtain ⟨narrow, noHash⟩ := plain.sections n member
    rw [List.take_of_length_le (by omega)] at same
    exact noHash (same ▸ hash_mem_sectionName name i)

/-- An array has as many tables as the file has headers of its name, and a key of the i-th table is looked
up in the lines of its block. -/
theorem tables_indexed (path file : List Byte) (t : Toml) (parsed : tomlParseFile path (some file) = .ok t)
    (plain : PlainFile file) (name : List Byte) :
    t.arrayLen name = (fileLines file).count (.tables name) ∧
      ∀ i < t.arrayLen name, i < 2 ^ 31 → ∀ key,
        t.get (sectionName name i) key = firstValue key (blockOf name i (fileLines file)) := by
  obtain ⟨q, run, rfl⟩ := tomlParseFile_ok_iff.mp parsed
  rw [readAll_linesOf plain.lines] at run
  have slotted := plain.slotted name
  have counted := arrayLen_readAll slotted run
  have start : ({} : TomlParser).toml.arrayLen name = 0 := rfl
  rw [start, Nat.zero_add] at counted
  refine ⟨counted, fun i inside index key => ?_⟩
  have some_header : TomlLine.tables name ∈ fileLines file := by
    rw [counted] at inside
    exact List.count_pos_iff.mp (by omega)
  have outside : ({} : TomlParser).curSection ≠ sectionName name i := by
    intro same
    have hash := hash_mem_sectionName name i
    rw [← same] at hash
    cases hash
  have later : ({} : TomlParser).toml.arrayLen name ≤ i := by omega
  have looked := get_later (plain.apart (plain.tables name some_header) index) slotted later outside
    (fun key => rfl) run key
  rw [looked, start, Nat.sub_zero]
  exact firstKept_eq (fun k val member => plain.keys k val (mem_of_mem_blockOf member)) key

/-- Two tables of one array around another section. -/
def interleaved : List Byte := ascii "[[a]]\nk = 1\n[b]\nk = 2\n[[a]]\nk = 3"

theorem tables_indexed_interleaved : ∃ t, tomlParseFile [] (some interleaved) = .ok t ∧
    t.get (ascii "a#1") (ascii "k") = firstValue (ascii "k") (blockOf (ascii "a") 1 (fileLines interleaved)) := by
  obtain ⟨t, parsed, entries⟩ : ∃ t, tomlParseFile [] (some interleaved) = .ok t ∧ t.arrayLen (ascii "a") = 2 :=
    ⟨⟨[⟨ascii "a#0", ascii "k", .int 1⟩, ⟨ascii "b", ascii "k", .int 2⟩, ⟨ascii "a#1", ascii "k", .int 3⟩],
      [(ascii "a", 2)]⟩, by decide +kernel, by decide⟩
  have lines : fileLines interleaved = [.tables (ascii "a"), .pair (ascii "k") (ascii "1"), .section (ascii "b"),
      .pair (ascii "k") (ascii "2"), .tables (ascii "a"), .pair (ascii "k") (ascii "3")] := by decide +kernel
  have plain : PlainFile interleaved := by
    constructor
    case lines => decide +kernel
    case tables => simp [lines, ascii]
    case sections => simp [lines, ascii]
    case keys =>
      intro key val member
      simp only [lines, List.mem_cons, reduceCtorEq, TomlLine.pair.injEq, List.not_mem_nil, false_or, or_false] at member
      rcases member with ⟨rfl, -⟩ | ⟨rfl, -⟩ | ⟨rfl, -⟩ <;> decide
  exact ⟨t, parsed, (tables_indexed [] interleaved t parsed plain (ascii "a")).2 1 (by omega) (by decide) (ascii "k")⟩

end Cc2obp
