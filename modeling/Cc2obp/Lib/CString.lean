import Mathlib.Algebra.Order.Ring.Int
import Mathlib.Data.List.Basic

/-!
# C strings

The parts of `<string.h>`, `<stdlib.h>` and `<stdio.h>` a line protocol uses, on
byte lists without their terminator. `long` has 64 bits; conversions saturate
there and are then cut to the type they are stored in.
-/
namespace CString

/-- What a `char *` into the buffer shows: everything before the first NUL. -/
def cstr (buf : List (BitVec 8)) : List (BitVec 8) := buf.takeWhile (· != 0)

def isSpace (c : BitVec 8) : Bool := c == 0x20 || (0x09 ≤ c && c ≤ 0x0D)

/-- The value of a digit in a base up to 16. -/
def digitVal (base : Nat) (c : BitVec 8) : Option Nat :=
  let v :=
    if 0x30 ≤ c && c ≤ 0x39 then some (c.toNat - 0x30)
    else if 0x41 ≤ c && c ≤ 0x46 then some (c.toNat - 0x41 + 10)
    else if 0x61 ≤ c && c ≤ 0x66 then some (c.toNat - 0x61 + 10)
    else none
  v.filter (· < base)

/-- The magnitude of the leading digits, and what follows them. -/
def scanDigits (base : Nat) : Nat → List (BitVec 8) → Nat × List (BitVec 8)
  | acc, [] => (acc, [])
  | acc, c :: s =>
    match digitVal base c with
    | some v => scanDigits base (acc * base + v) s
    | none => (acc, c :: s)

/-- An optional sign. -/
def scanSign : List (BitVec 8) → Bool × List (BitVec 8)
  | c :: s => if c = 0x2D then (true, s) else if c = 0x2B then (false, s) else (false, c :: s)
  | [] => (false, [])

/-- The optional `0x` of base 16. -/
def skipHexMark : List (BitVec 8) → List (BitVec 8)
  | a :: b :: s => if a = 0x30 ∧ (b = 0x78 ∨ b = 0x58) then s else a :: b :: s
  | s => s

/-- `(uint32_t)strtoul(s, NULL, base)`. -/
def strtoul32 (base : Nat) (s : List (BitVec 8)) : BitVec 32 :=
  let (negative, s) := scanSign (s.dropWhile isSpace)
  let s := if base = 16 then skipHexMark s else s
  let value := (scanDigits base 0 s).1
  if 2 ^ 64 ≤ value then BitVec.ofInt 32 (-1)
  else BitVec.ofInt 32 (if negative then -value else value)

/-- A signed decimal cut to `long`, then to `int`. -/
def longToInt (negative : Bool) (value : Nat) : Int :=
  let long : Int :=
    if negative then max (-value) (-(2 ^ 63)) else min value (2 ^ 63 - 1)
  (BitVec.ofInt 32 long).toInt

def atoi (s : List (BitVec 8)) : Int :=
  let (negative, s) := scanSign (s.dropWhile isSpace)
  longToInt negative (scanDigits 10 0 s).1

/-- `strtoll(s, &end, 10)`: the number, and the string from `end` on. -/
def strtoll (s : List (BitVec 8)) : Int × List (BitVec 8) :=
  let (negative, digits) := scanSign (s.dropWhile isSpace)
  let (value, rest) := scanDigits 10 0 digits
  if rest.length = digits.length then (0, s)
  else (if negative then max (-value) (-(2 ^ 63)) else min value (2 ^ 63 - 1), rest)

/-- The string from the first occurrence of `needle` on. -/
def strstr (needle : List (BitVec 8)) : List (BitVec 8) → Option (List (BitVec 8))
  | [] => if needle = [] then some [] else none
  | c :: s => if needle.isPrefixOf (c :: s) then some (c :: s) else strstr needle s

/-- `%<width>s` of `sscanf`. -/
def scanWord (width : Nat) (s : List (BitVec 8)) : Option (List (BitVec 8) × List (BitVec 8)) :=
  let s := s.dropWhile isSpace
  let word := (s.takeWhile fun c => !isSpace c).take width
  if word = [] then none else some (word, s.drop word.length)

/-- `%d` of `sscanf`. -/
def scanInt (s : List (BitVec 8)) : Option (Int × List (BitVec 8)) :=
  let (negative, s) := scanSign (s.dropWhile isSpace)
  let (value, rest) := scanDigits 10 0 s
  if rest.length = s.length then none else some (longToInt negative value, rest)

/-! ## Formatting -/

def digitByte (v : Nat) : BitVec 8 := BitVec.ofNat 8 (if v < 10 then 0x30 + v else 0x57 + v)

/-- Digits of `n` in front of `acc`, at most `fuel` of them. -/
def digitsOnto (base : Nat) : Nat → Nat → List (BitVec 8) → List (BitVec 8)
  | 0, _, acc => acc
  | fuel + 1, n, acc =>
    let acc := digitByte (n % base) :: acc
    if n / base = 0 then acc else digitsOnto base fuel (n / base) acc

/-- `%u`, or `%x` in base 16. -/
def fmtNat (base n : Nat) : List (BitVec 8) := digitsOnto base (n + 1) n []

/-- `%d`. -/
def fmtInt (x : Int) : List (BitVec 8) :=
  if x < 0 then 0x2D :: fmtNat 10 x.natAbs else fmtNat 10 x.natAbs

/-- `%0<width>d`: zeros between the sign and the digits. -/
def fmtPadded (width : Nat) (x : Int) : List (BitVec 8) :=
  let digits := fmtNat 10 x.natAbs
  let sign : List (BitVec 8) := if x < 0 then [0x2D] else []
  sign ++ List.replicate (width - sign.length - digits.length) 0x30 ++ digits

end CString
