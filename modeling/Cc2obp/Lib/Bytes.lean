import Mathlib.Data.Vector.Basic
import Mathlib.Order.Fin.Basic
import Mathlib.Tactic.IntervalCases

/-!
# Fixed-size byte and bit arrays

A C array `uint8_t a[n]` is a `Vector` of bytes. Copies between arrays are `cat`
and `slice`, table-driven moves are `gather` and `scatter`; multi-byte fields are
big-endian and bits are most significant first.
-/
namespace Cc2obp

abbrev Byte := BitVec 8
abbrev Bytes (n : Nat) := Vector Byte n
abbrev Bits (n : Nat) := Vector Bool n

/-- The bytes of a string literal. -/
def ascii (s : String) : List Byte := s.toList.map fun c => BitVec.ofNat 8 c.toNat

section Copies
variable {α : Type} {m n k : Nat}

/-- `memcpy` of `len` elements starting at `off`. -/
def slice (a : Vector α n) (off len : Nat) (fits : off + len ≤ n := by decide) : Vector α len :=
  Vector.ofFn fun i => a[off + i]

@[simp] theorem getElem_slice (a : Vector α n) (off len : Nat) (fits : off + len ≤ n) (i : Nat)
    (h : i < len) : (slice a off len fits)[i] = a[off + i] := by
  simp [slice]

/-- Two arrays copied one after the other. -/
def cat (a : Vector α m) (b : Vector α n) (size : k = m + n := by rfl) : Vector α k :=
  Vector.ofFn fun i => if h : i < m then a[i] else b[i - m]

theorem getElem_cat (a : Vector α m) (b : Vector α n) (size : k = m + n) (i : Nat) (h : i < k) :
    (cat a b size)[i] = if h' : i < m then a[i] else b[i - m] := by
  simp [cat]

@[simp] theorem getElem_cat_left (a : Vector α m) (b : Vector α n) (size : k = m + n) (i : Nat)
    (h : i < m) : (cat a b size)[i] = a[i] := by
  simp [cat, h]

@[simp] theorem getElem_cat_right (a : Vector α m) (b : Vector α n) (size : k = m + n) (i : Nat)
    (h : i < n) : (cat a b size)[m + i] = b[i] := by
  simp [cat]

/-- The first `n` bytes of a buffer, zero past its end. -/
def ofList (n : Nat) (buf : List Byte) : Bytes n := Vector.ofFn fun i => buf.getD i 0

@[simp] theorem getElem_ofList (buf : List Byte) (i : Nat) (h : i < n) :
    (ofList n buf)[i] = buf.getD i 0 := by
  simp [ofList]

@[simp] theorem ofList_toList (a : Bytes n) : ofList n a.toList = a := by
  ext i h
  simp [h]

theorem set_ofList (buf : List Byte) (i : Nat) (x : Byte) (h : i < n) (h' : i < buf.length) :
    (ofList n buf).set i x = ofList n (buf.set i x) := by
  ext j hj
  simp only [Vector.getElem_set, getElem_ofList, List.getD_eq_getElem?_getD, List.getElem?_set]
  by_cases here : i = j <;> simp [here]
  simp [← here, h']

end Copies

/-! ## Moves through an index table -/

section Tables
variable {α : Type} {m k : Nat}

/-- `out[j] = in[table[j]]`. -/
def gather (table : Vector (Fin m) k) (v : Vector α m) : Vector α k :=
  Vector.ofFn fun j => v[table[j]]

@[simp] theorem getElem_gather (table : Vector (Fin m) k) (v : Vector α m) (j : Nat) (h : j < k) :
    (gather table v)[j] = v[table[j]] := by
  simp [gather]

/-- `out[table[j]] = in[j]`, in the order of `j`. -/
def scatter (table : Vector (Fin m) k) (vals : Vector α k) (init : Vector α m) : Vector α m :=
  (List.finRange k).foldl (fun (out : Vector α m) (j : Fin k) => out.set table[j] vals[j]) init

/-- A position written by a later iteration keeps that value; one never written keeps the old. -/
theorem scatter_fold (table : Vector (Fin m) k) (vals : Vector α k) (inj : table.toList.Nodup)
    (js : List (Fin k)) (init : Vector α m) (j : Fin k) :
    (js.foldl (fun (out : Vector α m) (j : Fin k) => out.set table[j] vals[j]) init)[table[j]] =
      if j ∈ js then vals[j] else init[table[j]] := by
  induction js generalizing init with
  | nil => simp
  | cons first rest ih =>
    rw [List.foldl_cons, ih]
    by_cases later : j ∈ rest
    · simp [later]
    · by_cases same : j = first
      · subst same
        simp [later]
      · have apart : (table[first.val]).val ≠ (table[j.val]).val := by
          intro equal
          apply same
          have entries : table.toList[j.val] = table.toList[first.val] := by
            simpa using Fin.ext equal.symm
          exact Fin.ext ((inj.getElem_inj_iff).mp entries)
        simp [later, same, apart]

/-- Writing through a table without repetitions and reading through it gives the values back. -/
theorem gather_scatter (table : Vector (Fin m) k) (vals : Vector α k) (init : Vector α m)
    (inj : table.toList.Nodup) : gather table (scatter table vals init) = vals := by
  ext j h
  have read := scatter_fold table vals inj (List.finRange k) init ⟨j, h⟩
  simpa [scatter] using read

/-- Reading through a table and writing back through it restores every position it names. -/
theorem scatter_gather (table : Vector (Fin m) k) (v init : Vector α m) (inj : table.toList.Nodup)
    (p : Nat) (h : p < m) (named : ⟨p, h⟩ ∈ table.toList) :
    (scatter table (gather table v) init)[p] = v[p] := by
  obtain ⟨j, hj, entry⟩ := List.getElem_of_mem named
  have size : j < k := by simpa using hj
  have read := scatter_fold table (gather table v) inj (List.finRange k) init ⟨j, size⟩
  have pos : table[j] = ⟨p, h⟩ := by simpa using entry
  simpa [scatter, pos] using read

end Tables

/-! ## Big-endian words -/

def rd16 (p0 p1 : Byte) : BitVec 16 := (p0.setWidth 16 <<< 8) ||| p1.setWidth 16

def rd24 (p0 p1 p2 : Byte) : BitVec 32 :=
  (p0.setWidth 32 <<< 16) ||| (p1.setWidth 32 <<< 8) ||| p2.setWidth 32

def rd32 (p0 p1 p2 p3 : Byte) : BitVec 32 :=
  (p0.setWidth 32 <<< 24) ||| (p1.setWidth 32 <<< 16) ||| (p2.setWidth 32 <<< 8) ||| p3.setWidth 32

def wr16 (v : BitVec 16) : List Byte := [(v >>> 8).setWidth 8, v.setWidth 8]

def wr24 (v : BitVec 32) : List Byte :=
  [(v >>> 16).setWidth 8, (v >>> 8).setWidth 8, v.setWidth 8]

def wr32 (v : BitVec 32) : List Byte :=
  [(v >>> 24).setWidth 8, (v >>> 16).setWidth 8, (v >>> 8).setWidth 8, v.setWidth 8]

/-- A word written in four bytes reads back unchanged. -/
theorem rd32_wr32 (v : BitVec 32) :
    rd32 ((v >>> 24).setWidth 8) ((v >>> 16).setWidth 8) ((v >>> 8).setWidth 8) (v.setWidth 8) = v := by
  ext i hi
  simp only [rd32, BitVec.getElem_or, BitVec.getElem_shiftLeft, BitVec.getElem_setWidth,
    BitVec.getLsbD_setWidth, BitVec.getLsbD_ushiftRight]
  interval_cases i <;> simp

/-- A word written in three bytes reads back modulo `2 ^ 24`. -/
theorem rd24_wr24 (v : BitVec 32) :
    rd24 ((v >>> 16).setWidth 8) ((v >>> 8).setWidth 8) (v.setWidth 8) = v &&& 0xFFFFFF#32 := by
  ext i hi
  simp only [rd24, BitVec.getElem_or, BitVec.getElem_and, BitVec.getElem_shiftLeft,
    BitVec.getElem_setWidth, BitVec.getLsbD_setWidth, BitVec.getLsbD_ushiftRight]
  interval_cases i <;> simp

theorem rd16_wr16 (v : BitVec 16) : rd16 ((v >>> 8).setWidth 8) (v.setWidth 8) = v := by
  ext i hi
  simp only [rd16, BitVec.getElem_or, BitVec.getElem_shiftLeft, BitVec.getElem_setWidth,
    BitVec.getLsbD_setWidth, BitVec.getLsbD_ushiftRight]
  interval_cases i <;> simp

/-! ## Bits of bytes -/

section Bits
variable {n k : Nat}

/-- Expand bytes into bits. -/
def bytesToBits (bytes : Bytes n) (size : k = n * 8 := by rfl) : Bits k :=
  Vector.ofFn fun i => bytes[i.val / 8].getLsbD (7 - i % 8)

/-- A bit moved to position `b` of a byte, counted from the top. -/
def placed (x : Bool) (b : Nat) : Byte := if x then 1#8 <<< (7 - b) else 0#8

/-- Pack bits into bytes, the tail zero-padded. -/
def bitsToBytes (bits : Bits n) (_size : k = (n + 7) / 8 := by rfl) : Bytes k :=
  Vector.ofFn fun j =>
    (List.range 8).foldl (fun acc b => acc ||| placed (bits.toList.getD (j * 8 + b) false) b) 0#8

@[simp] theorem getElem_bytesToBits (bytes : Bytes n) (size : k = n * 8) (i : Nat) (h : i < k) :
    (bytesToBits bytes size)[i] = bytes[i / 8].getLsbD (7 - i % 8) := by
  simp [bytesToBits]

theorem getLsbD_placed (x : Bool) (b c : Nat) (hb : b < 8) (hc : c < 8) :
    (placed x c).getLsbD (7 - b) = (x && decide (c = b)) := by
  interval_cases b <;> interval_cases c <;> cases x <;> rfl

theorem getLsbD_bitsToBytes (bits : Bits n) (size : k = (n + 7) / 8) (j : Nat) (hj : j < k)
    (b : Nat) (hb : b < 8) :
    (bitsToBytes bits size)[j].getLsbD (7 - b) = bits.toList.getD (j * 8 + b) false := by
  have all : (List.range 8) = [0, 1, 2, 3, 4, 5, 6, 7] := rfl
  simp only [bitsToBytes, Vector.getElem_ofFn, all, List.foldl_cons, List.foldl_nil,
    BitVec.getLsbD_or, getLsbD_placed _ b _ hb, Nat.reduceLT]
  interval_cases b <;> simp

/-- Unpacking what was packed gives the bits back. -/
theorem bytesToBits_bitsToBytes {m : Nat} (bits : Bits n) (size : k = (n + 7) / 8) (size' : m = k * 8)
    (i : Nat) (h : i < n) (h' : i < m) : (bytesToBits (bitsToBytes bits size) size')[i] = bits[i] := by
  have split : i / 8 * 8 + i % 8 = i := by omega
  rw [getElem_bytesToBits, getLsbD_bitsToBytes _ _ _ _ _ (by omega), split]
  simp [h]

/-- Packing what was unpacked gives the bytes back. -/
theorem bitsToBytes_bytesToBits (bytes : Bytes n) (size : k = n * 8) (size' : n = (k + 7) / 8) :
    bitsToBytes (bytesToBits bytes size) size' = bytes := by
  ext j h i hi
  have flip : 7 - (7 - i) = i := by omega
  have bit := getLsbD_bitsToBytes (bytesToBits bytes size) size' j h (7 - i) (by omega)
  have pos : (j * 8 + (7 - i)) / 8 = j := by omega
  have off : 7 - (7 - i) % 8 = i := by omega
  have inside : j * 8 + (7 - i) < k := by omega
  rw [flip] at bit
  rw [← BitVec.getLsbD_eq_getElem, bit]
  simp [inside, pos, off, BitVec.getLsbD_eq_getElem hi]

end Bits

end Cc2obp
