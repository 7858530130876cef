import Cc2obp.Lib.Bytes

/-!
# Iterated hashes, SHA-1 and HMAC

The secure hash standard: a message is padded to whole blocks, which a compression
function takes in one after the other. A reader that absorbs byte by byte and
compresses whenever a block is full computes the same, so it does not matter how a
message is cut into pieces.
-/
namespace SecureHash

open Cc2obp

/-! ## Iterated hashes -/

section Iterated
variable {σ β : Type*} (compress : σ → List β → σ) (size : Nat)

/-- The blocks of a message. -/
def blocks (l : List β) : List (List β) :=
  (List.range (l.length / size)).map fun i => (l.drop (size * i)).take size

/-- One byte taken in: the state after whole blocks and the bytes of the unfinished one. -/
def absorb (s : σ × List β) (b : β) : σ × List β :=
  if (s.2 ++ [b]).length = size then (compress s.1 (s.2 ++ [b]), []) else (s.1, s.2 ++ [b])

variable {size}

theorem blocks_nil : blocks size ([] : List β) = [] := by
  simp [blocks]

theorem blocks_append (positive : 0 < size) (first rest : List β) (full : first.length = size) :
    blocks size (first ++ rest) = first :: blocks size rest := by
  have count : (first ++ rest).length / size = rest.length / size + 1 := by
    rw [List.length_append, full, Nat.add_div_left _ positive]
  rw [blocks, count, List.range_succ_eq_map, List.map_cons, List.map_map]
  congr 1
  · rw [Nat.mul_zero, List.drop_zero, ← full, List.take_left]
  · refine List.map_congr_left fun i _ => ?_
    have past : size * (i + 1) = first.length + size * i := by rw [full, Nat.mul_add, Nat.mul_one, Nat.add_comm]
    rw [Function.comp_apply, past, ← List.drop_drop, List.drop_left]

/-- Bytes that do not fill the block wait in it. -/
theorem foldl_absorb_short (s : σ) (waiting l : List β) (short : waiting.length + l.length < size) :
    l.foldl (absorb compress size) (s, waiting) = (s, waiting ++ l) := by
  induction l generalizing waiting with
  | nil => simp
  | cons b rest ih =>
    have open_ : (waiting ++ [b]).length ≠ size := by
      simp only [List.length_cons, List.length_append, List.length_nil] at short ⊢
      omega
    rw [List.foldl_cons, absorb, if_neg open_, ih _ (by simp at short ⊢; omega)]
    simp

/-- Bytes that fill the block are compressed with what waited in it. -/
theorem foldl_absorb_fill (s : σ) (waiting l : List β) (some_ : l ≠ []) (full : waiting.length + l.length = size) :
    l.foldl (absorb compress size) (s, waiting) = (compress s (waiting ++ l), []) := by
  rcases List.eq_nil_or_concat l with rfl | ⟨front, last, rfl⟩
  · exact absurd rfl some_
  · rw [List.concat_eq_append] at full ⊢
    have closes : (waiting ++ front ++ [last]).length = size := by
      rw [← full, List.length_append, List.length_append, List.length_append, Nat.add_assoc]
    rw [List.foldl_append, foldl_absorb_short compress s waiting front (by simp at closes ⊢; omega), List.foldl_cons,
      List.foldl_nil, absorb, if_pos closes, List.append_assoc]

/-- Whole blocks taken in byte by byte are compressed one after the other. -/
theorem foldl_absorb_blocks (positive : 0 < size) (n : Nat) (s : σ) (l : List β) (whole : l.length = size * n) :
    l.foldl (absorb compress size) (s, []) = ((blocks size l).foldl compress s, []) := by
  induction n generalizing s l with
  | zero =>
    obtain rfl : l = [] := List.eq_nil_of_length_eq_zero (by simpa using whole)
    simp [blocks_nil]
  | succ n ih =>
    have first : (l.take size).length = size := by
      rw [List.length_take, whole, Nat.mul_add]
      omega
    have rest : (l.drop size).length = size * n := by
      rw [List.length_drop, whole, Nat.mul_add]
      omega
    have some_ : l.take size ≠ [] := fun none => by rw [none] at first; simp at first; omega
    have split := foldl_absorb_fill compress s [] (l.take size) some_ (by rw [first, List.length_nil, Nat.zero_add])
    rw [← List.take_append_drop size l, List.foldl_append, split, ih _ _ rest, blocks_append positive _ _ first]
    rfl

end Iterated

/-! ## SHA-1 -/

/-- The logical function of round `t`. -/
def logical (t : Nat) (x y z : BitVec 32) : BitVec 32 :=
  if t ≤ 19 then (x &&& y) ^^^ (~~~x &&& z)
  else if t ≤ 39 then x ^^^ y ^^^ z
  else if t ≤ 59 then (x &&& y) ^^^ (x &&& z) ^^^ (y &&& z)
  else x ^^^ y ^^^ z

/-- The constant of round `t`. -/
def constant (t : Nat) : BitVec 32 :=
  if t ≤ 19 then 0x5a827999 else if t ≤ 39 then 0x6ed9eba1 else if t ≤ 59 then 0x8f1bbcdc else 0xca62c1d6

/-- Word `t` of a block, the first byte on top. -/
def blockWord (block : List Byte) (t : Nat) : BitVec 32 :=
  rd32 (block.getD (4 * t) 0) (block.getD (4 * t + 1) 0) (block.getD (4 * t + 2) 0) (block.getD (4 * t + 3) 0)

/-- The message schedule. -/
def schedule (word : Nat → BitVec 32) (t : Nat) : BitVec 32 :=
  if t < 16 then word t
  else (schedule word (t - 3) ^^^ schedule word (t - 8) ^^^ schedule word (t - 14) ^^^ schedule word (t - 16)).rotateLeft 1
termination_by t

structure Working where
  a : BitVec 32
  b : BitVec 32
  c : BitVec 32
  d : BitVec 32
  e : BitVec 32

/-- Round `t` on the working variables. -/
def round (w : Nat → BitVec 32) (v : Working) (t : Nat) : Working where
  a := v.a.rotateLeft 5 + logical t v.b v.c v.d + v.e + constant t + w t
  b := v.a
  c := v.b.rotateLeft 30
  d := v.c
  e := v.d

def compress (h : Working) (block : List Byte) : Working :=
  let v := (List.range 80).foldl (round (schedule (blockWord block))) h
  ⟨h.a + v.a, h.b + v.b, h.c + v.c, h.d + v.d, h.e + v.e⟩

def initial : Working := ⟨0x67452301, 0xefcdab89, 0x98badcfe, 0x10325476, 0xc3d2e1f0⟩

/-- The message, a one bit, the fewest zero bits that leave room for eight bytes in the last block, and the length in
bits in these eight bytes. -/
def pad (message : List Byte) : List Byte :=
  message ++ [(0x80 : Byte)] ++ List.replicate ((119 - message.length % 64) % 64) (0 : Byte) ++
    (List.range 8).map fun i => (BitVec.ofNat 64 (8 * message.length) >>> (56 - 8 * i)).setWidth 8

/-- The digest of a message of less than `2 ^ 61` bytes. -/
def sha1 (message : List Byte) : List Byte :=
  let h := (blocks 64 (pad message)).foldl compress initial
  [h.a, h.b, h.c, h.d, h.e].flatMap wr32

/-! ## HMAC -/

/-- The keyed hash of a hash function with blocks of `size` bytes. -/
def hmac (hash : List Byte → List Byte) (size : Nat) (key text : List Byte) : List Byte :=
  let short := if size < key.length then hash key else key
  let block := short ++ List.replicate (size - short.length) 0
  hash (block.map (· ^^^ 0x5c) ++ hash (block.map (· ^^^ 0x36) ++ text))

end SecureHash
