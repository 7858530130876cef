import Cc2obp.Config.Load
import Cc2obp.Lib.TextFile

/-!
# Reading a TOML file

`toml_parse_file` on the bytes of a file: comments off, then one line after the
other, into the entries and the counts of the arrays of tables. What a line says
does not depend on the lines before it; where its entry goes does.
-/
namespace Cc2obp

open CString TextFile

def maxEntries : Nat := 1024
def maxAtableNames : Nat := 8

/-! ## Text of a line -/

/-- `trim`: blanks off both ends. -/
def trim (s : List Byte) : List Byte := ((s.dropWhile isSpace).reverse.dropWhile isSpace).reverse

/-- What `strip_comment` is inside of. It knows no escapes. -/
inductive Quoting where
  | plain
  | basic
  | literal
deriving DecidableEq

def Quoting.next (q : Quoting) (c : Byte) : Quoting :=
  match q with
  | .basic => if c = 0x22 then .plain else .basic
  | .literal => if c = 0x27 then .plain else .literal
  | .plain => if c = 0x22 then .basic else if c = 0x27 then .literal else .plain

/-- The text up to the first `#` outside of quotes. -/
def stripFrom (q : Quoting) : List Byte → List Byte
  | [] => []
  | c :: s => if q = .plain ∧ c = 0x23 then [] else c :: stripFrom (q.next c) s

def stripComment (line : List Byte) : List Byte := stripFrom .plain line

/-- The text before the first `c`. -/
def beforeFirst (c : Byte) (s : List Byte) : Option (List Byte) :=
  if c ∈ s then some (s.takeWhile (· != c)) else none

/-- The text before the last `c`. -/
def beforeLast (c : Byte) (s : List Byte) : Option (List Byte) := (beforeFirst c s.reverse).map fun _ =>
  ((s.reverse.dropWhile (· != c)).drop 1).reverse

/-! ## Values -/

def unescape (c : Byte) : Byte :=
  if c = 0x6E then 0x0A else if c = 0x74 then 0x09 else if c = 0x72 then 0x0D else c

/-- `parse_basic_string`, with room for so many more bytes. A backslash at the very end stands for itself. -/
def parseBasicString : Nat → List Byte → List Byte
  | 0, _ => []
  | _ + 1, [] => []
  | room + 1, [c] => if c = 0x22 then [] else c :: parseBasicString room []
  | room + 1, c :: e :: p =>
    if c = 0x22 then []
    else if c = 0x5C then unescape e :: parseBasicString room p
    else c :: parseBasicString room (e :: p)

/-- The integer of a token; its underscores are dropped, and what does not fit 63 bytes is. -/
def parseInteger (tok : List Byte) : Option Int :=
  let clean := (tok.filter (· != 0x5F)).take 63
  if clean = [] then none
  else
    let (value, rest) := strtoll clean
    if rest = [] then some value else none

def parseScalar (tok : List Byte) : Option TomlScalar :=
  match tok with
  | 0x22 :: p => some (.string (parseBasicString 511 p))
  | 0x27 :: p => some (.string ((p.takeWhile (· != 0x27)).take 511))
  | tok =>
    if tok = ascii "true" then some (.bool true)
    else if tok = ascii "false" then some (.bool false)
    else (parseInteger tok).map .int

/-- A quoted element up to its closing quote, and what follows it. -/
def quotedElement (quote : Byte) : Nat → List Byte → List Byte × List Byte
  | 0, p => ([], p)
  | _ + 1, [] => ([], [])
  | room + 1, c :: p =>
    if c = quote then ([c], p)
    else (c :: (quotedElement quote room p).1, (quotedElement quote room p).2)

/-- The next element of an array behind its blanks, cut by its 256-byte buffer. -/
def arrayElement (c : Byte) (p : List Byte) : List Byte × List Byte :=
  if c = 0x22 ∨ c = 0x27 then (c :: (quotedElement c 254 p).1, (quotedElement c 254 p).2)
  else
    let tok := (p.takeWhile (· != 0x2C)).take 254
    (c :: tok, p.drop tok.length)

theorem length_quotedElement (quote : Byte) (room : Nat) (p : List Byte) :
    (quotedElement quote room p).2.length ≤ p.length := by
  induction room generalizing p with
  | zero => simp [quotedElement]
  | succ room ih =>
    cases p with
    | nil => simp [quotedElement]
    | cons c p =>
      have later := ih p
      simp only [quotedElement]
      split
      · simp
      · simp only [List.length_cons]
        omega

theorem length_arrayElement (c : Byte) (p : List Byte) : (arrayElement c p).2.length ≤ p.length := by
  unfold arrayElement
  split
  · exact length_quotedElement c 254 p
  · simp

/-- `parse_array` on what is between the brackets. -/
def parseArray (body : List Byte) : Option (List TomlScalar) :=
  match _here : body.dropWhile fun c => isSpace c || c == 0x2C with
  | [] => some []
  | c :: p =>
    let element := arrayElement c p
    if trim element.1 = [] then parseArray element.2
    else do
      let v ← parseScalar (trim element.1)
      let vs ← parseArray element.2
      pure (v :: vs)
termination_by body.length
decreasing_by
  all_goals
    have shorter := length_arrayElement c p
    have front := List.length_dropWhile_le (fun c => isSpace c || c == 0x2C) body
    rw [_here, List.length_cons] at front
    omega

def TomlScalar.value : TomlScalar → TomlValue
  | .string s => .string s
  | .int i => .int i
  | .bool b => .bool b

/-! ## Errors -/

/-- What can be wrong with a line. -/
inductive LineFault where
  | malformedTables
  | tooManyTables
  | malformedSection
  | expectedPair
  | emptyKey
  | tooManyEntries
  | unterminatedArray
  | badArray
  | badValue (key : List Byte)
deriving DecidableEq

inductive TomlError where
  | notFound (path : List Byte)
  | line (lineno : Nat) (fault : LineFault)
deriving DecidableEq

/-- What is written into `err`, before its size cuts it. -/
def TomlError.text : TomlError → List Byte
  | .notFound path => ascii "Config file not found: " ++ path
  | .line n .malformedTables => at_ n ++ ascii "malformed [[array-of-tables]]"
  | .line n .tooManyTables => at_ n ++ ascii "too many distinct [[array-of-tables]] names"
  | .line n .malformedSection => at_ n ++ ascii "malformed section"
  | .line n .expectedPair => at_ n ++ ascii "expected key = value"
  | .line n .emptyKey => at_ n ++ ascii "empty key"
  | .line _ .tooManyEntries => ascii "too many config entries"
  | .line n .unterminatedArray => at_ n ++ ascii "unterminated array"
  | .line n .badArray => at_ n ++ ascii "bad array value"
  | .line n (.badValue key) => at_ n ++ ascii "bad value for " ++ key
where
  at_ (n : Nat) : List Byte := ascii "line " ++ fmtNat 10 n ++ ascii ": "

/-! ## Lines -/

/-- What a line says. -/
inductive TomlLine where
  | blank
  | tables (name : List Byte)
  | section (name : List Byte)
  | pair (key val : List Byte)
  | malformed (fault : LineFault)
deriving DecidableEq

/-- `key = value`. -/
def pairLine (s : List Byte) : TomlLine :=
  match beforeFirst 0x3D s with
  | none => .malformed .expectedPair
  | some front =>
    if trim front = [] then .malformed .emptyKey
    else .pair (trim front) (trim (s.drop (front.length + 1)))

/-- `[name]`, behind the bracket. -/
def sectionLine (s : List Byte) : TomlLine :=
  match beforeFirst 0x5D s with
  | none => .malformed .malformedSection
  | some name => .section (trim name)

/-- `[[name]]`, behind the brackets. -/
def tablesLine (s : List Byte) : TomlLine :=
  match strstr (ascii "]]") s with
  | none => .malformed .malformedTables
  | some rest => .tables (trim (s.take (s.length - rest.length)))

def tomlLine (line : List Byte) : TomlLine :=
  match trim (stripComment line) with
  | [] => .blank
  | 0x5B :: 0x5B :: s => tablesLine s
  | 0x5B :: s => sectionLine s
  | s => pairLine s

/-- The value of a pair, an array or a scalar. -/
def parseValue (key val : List Byte) : Except LineFault TomlValue :=
  match val with
  | 0x5B :: rest =>
    match beforeLast 0x5D rest with
    | none => .error .unterminatedArray
    | some body =>
      match parseArray body with
      | none => .error .badArray
      | some elems => .ok (.array elems)
  | val =>
    match parseScalar val with
    | none => .error (.badValue key)
    | some v => .ok v.value

/-! ## The file -/

structure TomlParser where
  toml : Toml := {}
  curSection : List Byte := []
deriving DecidableEq

/-- The counts after one more table of the name. -/
def countTable (atables : List (List Byte × Nat)) (name : List Byte) : List (List Byte × Nat) :=
  match atables.findIdx? fun a => a.1 == name with
  | some i => atables.modify i fun a => (a.1, a.2 + 1)
  | none => atables ++ [(name.take 63, 1)]

/-- There is a slot for the name, or room for one. -/
def hasTable (atables : List (List Byte × Nat)) (name : List Byte) : Bool :=
  atables.any (fun a => a.1 == name) || decide (atables.length < maxAtableNames)

/-- What a line does to the parser. Names and keys are cut by the buffers they are kept in. -/
def TomlParser.read (p : TomlParser) : TomlLine → Except LineFault TomlParser
  | .blank => .ok p
  | .tables name =>
    if hasTable p.toml.atables name then
      .ok
        { toml := { p.toml with atables := countTable p.toml.atables name }
          curSection := (sectionName name (p.toml.arrayLen name)).take 79 }
    else .error .tooManyTables
  | .section name => .ok { p with curSection := name.take 79 }
  | .pair key val =>
    if p.toml.entries.length < maxEntries then
      match parseValue key val with
      | .error fault => .error fault
      | .ok v => .ok { p with toml.entries := p.toml.entries ++ [⟨p.curSection, key.take 63, v⟩] }
    else .error .tooManyEntries
  | .malformed fault => .error fault

/-- The loop of `toml_parse_file`, with the number of lines read so far. -/
def tomlParseLines (lineno : Nat) (p : TomlParser) : List (List Byte) → Except TomlError TomlParser
  | [] => .ok p
  | line :: lines =>
    match p.read (tomlLine (cstr line)) with
    | .error fault => .error (.line (lineno + 1) fault)
    | .ok p => tomlParseLines (lineno + 1) p lines

/-- `toml_parse_file`, with what `fopen` finds under the path. -/
def tomlParseFile (path : List Byte) (file : Option (List Byte)) : Except TomlError Toml :=
  match file with
  | none => .error (.notFound path)
  | some bytes => (tomlParseLines 0 {} (fgets 1024 bytes)).map TomlParser.toml

end Cc2obp
