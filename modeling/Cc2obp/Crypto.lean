import Cc2obp.Lib.Bytes

/-!
# SHA-1 and HMAC-SHA1

The streaming context keeps the bytes of the unfinished block; `buf[0..n)` of
the source is the list `buf`.
-/
namespace Cc2obp

structure Sha1Ctx where
  h : Vector (BitVec 32) 5
  len : BitVec 64
  buf : List Byte

/-- `w[0..16)` from the block. -/
def sha1Words (p : List Byte) : List (BitVec 32) :=
  (List.range 16).map fun i =>
    rd32 (p.getD (i * 4) 0) (p.getD (i * 4 + 1) 0) (p.getD (i * 4 + 2) 0) (p.getD (i * 4 + 3) 0)

def sha1Extend (w : List (BitVec 32)) (i : Nat) : List (BitVec 32) :=
  w ++ [(w.getD (i - 3) 0 ^^^ w.getD (i - 8) 0 ^^^ w.getD (i - 14) 0 ^^^ w.getD (i - 16) 0).rotateLeft 1]

def sha1Schedule (p : List Byte) : List (BitVec 32) :=
  (List.range' 16 64).foldl sha1Extend (sha1Words p)

/-- Round function and constant of round `i`. -/
def sha1Choice (i : Nat) (b d e : BitVec 32) : BitVec 32 × BitVec 32 :=
  if i < 20 then ((b &&& d) ||| (~~~b &&& e), 0x5A827999)
  else if i < 40 then (b ^^^ d ^^^ e, 0x6ED9EBA1)
  else if i < 60 then ((b &&& d) ||| (b &&& e) ||| (d &&& e), 0x8F1BBCDC)
  else (b ^^^ d ^^^ e, 0xCA62C1D6)

/-- The working variables in the order `a`, `b`, `d`, `e`, `f`. -/
def sha1Round (w : List (BitVec 32)) (v : Vector (BitVec 32) 5) (i : Nat) : Vector (BitVec 32) 5 :=
  let (t, k) := sha1Choice i v[1] v[2] v[3]
  let tmp := v[0].rotateLeft 5 + t + v[4] + k + w.getD i 0
  #v[tmp, v[0], v[1].rotateLeft 30, v[2], v[3]]

def sha1Block (h : Vector (BitVec 32) 5) (p : List Byte) : Vector (BitVec 32) 5 :=
  let v := (List.range 80).foldl (sha1Round (sha1Schedule p)) h
  Vector.zipWith (· + ·) h v

def sha1Init : Sha1Ctx where
  h := #v[0x67452301, 0xEFCDAB89, 0x98BADCFE, 0x10325476, 0xC3D2E1F0]
  len := 0
  buf := []

/-- The copy loop of `sha1_update`; every turn takes at least one byte. -/
def sha1Feed : Nat → Sha1Ctx → List Byte → Sha1Ctx
  | 0, c, _ => c
  | fuel + 1, c, p =>
    if p = [] then c
    else
      let k := min (64 - c.buf.length) p.length
      let buf := c.buf ++ p.take k
      let c :=
        if buf.length = 64 then { c with h := sha1Block c.h buf, buf := [] } else { c with buf }
      sha1Feed fuel c (p.drop k)

def sha1Update (c : Sha1Ctx) (p : List Byte) : Sha1Ctx :=
  sha1Feed p.length { c with len := c.len + BitVec.ofNat 64 p.length * 8 } p

/-- `while (c->n != 56) sha1_update(c, &zero, 1)`. -/
def sha1Pad : Nat → Sha1Ctx → Sha1Ctx
  | 0, c => c
  | fuel + 1, c => if c.buf.length = 56 then c else sha1Pad fuel (sha1Update c [0])

def sha1Final (c : Sha1Ctx) : Bytes 20 :=
  let bits := c.len
  let c := sha1Pad 64 (sha1Update c [0x80])
  let lenb := (List.range 8).map fun i => (bits >>> (56 - i * 8)).setWidth 8
  let c := sha1Update c lenb
  ofList 20 (c.h.toList.flatMap wr32)

def sha1 (data : List Byte) : Bytes 20 := sha1Final (sha1Update sha1Init data)

def hmacSha1 (key msg : List Byte) : Bytes 20 :=
  let k : Bytes 64 := ofList 64 (if 64 < key.length then (sha1 key).toList else key)
  let ipad := k.toList.map (· ^^^ 0x36)
  let opad := k.toList.map (· ^^^ 0x5c)
  let inner := sha1Final (sha1Update (sha1Update sha1Init ipad) msg)
  sha1Final (sha1Update (sha1Update sha1Init opad) inner.toList)

end Cc2obp
