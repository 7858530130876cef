import Cc2obp.Crypto
import Cc2obp.Lib.SecureHash
import Mathlib.Data.List.Induction

/-!
# The streaming SHA-1 and HMAC-SHA1 are the standard ones

The compression functions agree; the copy loop of `sha1_update` takes its bytes in
as one byte at a time would; what `sha1_final` feeds is the padding of the standard.
-/
namespace Cc2obp

open SecureHash

/-! ## Compression -/

def workingOf (v : Vector (BitVec 32) 5) : Working := ⟨v.get 0, v.get 1, v.get 2, v.get 3, v.get 4⟩

theorem sha1Choice_eq (i : Nat) (b d e : BitVec 32) : sha1Choice i b d e = (logical i b d e, constant i) := by
  have choice : (b &&& d) ||| (~~~b &&& e) = (b &&& d) ^^^ (~~~b &&& e) := by
    ext k hk
    simp
    cases b[k] <;> simp
  have majority : (b &&& d) ||| (b &&& e) ||| (d &&& e) = (b &&& d) ^^^ (b &&& e) ^^^ (d &&& e) := by
    ext k hk
    simp
    cases b[k] <;> cases d[k] <;> cases e[k] <;> rfl
  simp only [sha1Choice, logical, constant, choice, majority, Nat.lt_succ_iff.symm]
  split
  · rfl
  split
  · rfl
  split <;> rfl

theorem schedule_word (word : Nat → BitVec 32) (t : Nat) (h : t < 16) : schedule word t = word t := by
  rw [schedule, if_pos h]

theorem schedule_later (word : Nat → BitVec 32) (t : Nat) (h : ¬t < 16) : schedule word t =
    (schedule word (t - 3) ^^^ schedule word (t - 8) ^^^ schedule word (t - 14) ^^^ schedule word (t - 16)).rotateLeft 1 := by
  rw [schedule, if_neg h]

/-- The words after `n` turns of the extension loop. -/
theorem sha1Extend_eq (p : List Byte) (n : Nat) : ((List.range' 16 n).foldl sha1Extend (sha1Words p)).length = 16 + n ∧
    ∀ t < 16 + n, ((List.range' 16 n).foldl sha1Extend (sha1Words p)).getD t 0 = schedule (blockWord p) t := by
  induction n with
  | zero =>
    refine ⟨by simp [sha1Words], fun t h => ?_⟩
    rw [schedule_word _ t h]
    simp [sha1Words, blockWord, show t < 16 from h, Nat.mul_comm 4 t]
  | succ n ih =>
    obtain ⟨length, words⟩ := ih
    rw [List.range'_1_concat, List.foldl_append, List.foldl_cons, List.foldl_nil]
    generalize (List.range' 16 n).foldl sha1Extend (sha1Words p) = w at length words ⊢
    refine ⟨by simp [sha1Extend, length, Nat.add_assoc], fun t h => ?_⟩
    by_cases old : t < 16 + n
    · rw [← words t old, sha1Extend, List.getD_eq_getElem?_getD, List.getElem?_append_left (by omega),
        List.getD_eq_getElem?_getD]
    · obtain rfl : t = 16 + n := by omega
      rw [schedule_later _ _ (by omega), sha1Extend, List.getD_eq_getElem?_getD, ← length, List.getElem?_concat_length,
        Option.getD_some, words _ (by omega), words _ (by omega), words _ (by omega), words _ (by omega)]

theorem sha1Round_eq (w : List (BitVec 32)) (word : Nat → BitVec 32) (v : Vector (BitVec 32) 5) (i : Nat)
    (same : w.getD i 0 = word i) : workingOf (sha1Round w v i) = SecureHash.round word (workingOf v) i := by
  simp only [sha1Round, sha1Choice_eq, SecureHash.round, workingOf, same]
  rfl

theorem sha1Block_eq (h : Vector (BitVec 32) 5) (p : List Byte) :
    workingOf (sha1Block h p) = compress (workingOf h) p := by
  have words : ∀ t < 80, (sha1Schedule p).getD t 0 = schedule (blockWord p) t := (sha1Extend_eq p 64).2
  have rounds : ∀ n ≤ 80, workingOf ((List.range n).foldl (sha1Round (sha1Schedule p)) h) =
      (List.range n).foldl (SecureHash.round (schedule (blockWord p))) (workingOf h) := by
    intro n
    induction n with
    | zero => exact fun _ => rfl
    | succ n ih =>
      intro bound
      rw [List.range_succ, List.foldl_append, List.foldl_append, List.foldl_cons, List.foldl_nil, List.foldl_cons,
        List.foldl_nil, sha1Round_eq _ _ _ _ (words n (by omega)), ih (by omega)]
  rw [compress, ← rounds 80 (Nat.le_refl 80)]
  have word : ∀ (v : Vector (BitVec 32) 5) (j : Fin 5), v.get j = v[j.val] := fun _ _ => rfl
  simp only [sha1Block, workingOf, word, Vector.getElem_zipWith]

/-! ## Updates -/

/-- The hash state and the unfinished block after a message. -/
def sha1State (m : List Byte) : Vector (BitVec 32) 5 × List Byte := m.foldl (absorb sha1Block 64) (sha1Init.h, [])

/-- The context after a message. -/
def absorbed (m : List Byte) : Sha1Ctx where
  h := (sha1State m).1
  len := BitVec.ofNat 64 (8 * m.length)
  buf := (sha1State m).2

theorem length_absorb (s : Vector (BitVec 32) 5 × List Byte) (b : Byte) (room : s.2.length < 64) :
    (absorb sha1Block 64 s b).2.length = (s.2.length + 1) % 64 := by
  unfold absorb
  split
  next full =>
    rw [List.length_append, List.length_singleton] at full
    simp [full]
  next open_ =>
    rw [List.length_append, List.length_singleton] at open_ ⊢
    omega

theorem length_sha1State (m : List Byte) : (sha1State m).2.length = m.length % 64 := by
  induction m using List.reverseRecOn with
  | nil => rfl
  | append_singleton m b ih =>
    have next := length_absorb (sha1State m) b (by rw [ih]; omega)
    rw [ih] at next
    simpa [sha1State] using next

/-- The copy loop takes its bytes in as one at a time would. -/
theorem sha1Feed_eq (fuel : Nat) (c : Sha1Ctx) (p : List Byte) (enough : p.length ≤ fuel) (room : c.buf.length < 64) :
    sha1Feed fuel c p = { c with
      h := (p.foldl (absorb sha1Block 64) (c.h, c.buf)).1
      buf := (p.foldl (absorb sha1Block 64) (c.h, c.buf)).2 } := by
  induction fuel generalizing c p with
  | zero =>
    obtain rfl : p = [] := List.eq_nil_of_length_eq_zero (by omega)
    rfl
  | succ fuel ih =>
    by_cases done : p = []
    · subst done
      rfl
    · have some_ : 0 < p.length := List.length_pos_iff.mpr done
      rw [sha1Feed, if_neg done]
      by_cases fills : 64 - c.buf.length ≤ p.length
      · -- the block is full and compressed, the rest of the bytes start the next one
        have count : min (64 - c.buf.length) p.length = 64 - c.buf.length := Nat.min_eq_left fills
        have full : (c.buf ++ p.take (64 - c.buf.length)).length = 64 := by simp; omega
        have sum : c.buf.length + (p.take (64 - c.buf.length)).length = 64 := by rw [← List.length_append, full]
        have first := foldl_absorb_fill sha1Block c.h c.buf (p.take (64 - c.buf.length))
          (fun none => by rw [none] at sum; simp at sum; omega) sum
        simp only [count, full, if_true]
        rw [ih _ _ (by simp; omega) (by simp)]
        conv_rhs => rw [← List.take_append_drop (64 - c.buf.length) p, List.foldl_append, first]
      · have count : min (64 - c.buf.length) p.length = p.length := Nat.min_eq_right (by omega)
        have shorter : (c.buf ++ p).length < 64 := by rw [List.length_append]; omega
        simp only [count, List.take_length, List.drop_length, shorter.ne, if_false]
        rw [ih _ _ (Nat.zero_le _) shorter, foldl_absorb_short _ _ _ p (by omega)]
        rfl

theorem sha1Update_absorbed (m p : List Byte) : sha1Update (absorbed m) p = absorbed (m ++ p) := by
  have room : (sha1State m).2.length < 64 := by rw [length_sha1State]; omega
  have count : BitVec.ofNat 64 (8 * m.length) + BitVec.ofNat 64 p.length * 8 = BitVec.ofNat 64 (8 * (m ++ p).length) := by
    rw [List.length_append, Nat.mul_add, BitVec.ofNat_add, Nat.mul_comm 8 p.length, BitVec.ofNat_mul p.length 8]
    rfl
  rw [sha1Update, sha1Feed_eq _ _ _ (Nat.le_refl _) room]
  simp only [absorbed, count, sha1State, List.foldl_append]

theorem sha1Updates_absorbed (m : List Byte) (updates : List (List Byte)) :
    updates.foldl sha1Update (absorbed m) = absorbed (m ++ updates.flatten) := by
  induction updates generalizing m with
  | nil => simp
  | cons p rest ih => rw [List.foldl_cons, sha1Update_absorbed, ih, List.flatten_cons, List.append_assoc]

/-! ## The end of a message -/

/-- The padding loop stops at the first length with room for eight bytes. -/
theorem sha1Pad_absorbed (fuel : Nat) (m : List Byte) (z : Nat) (enough : z < fuel) (stops : (m.length + z) % 64 = 56)
    (runs : ∀ y < z, (m.length + y) % 64 ≠ 56) : sha1Pad fuel (absorbed m) = absorbed (m ++ List.replicate z 0) := by
  induction fuel generalizing m z with
  | zero => omega
  | succ fuel ih =>
    have size : (absorbed m).buf.length = m.length % 64 := length_sha1State m
    cases z with
    | zero =>
      have here : m.length % 64 = 56 := stops
      rw [sha1Pad, size, if_pos here]
      simp
    | succ z =>
      have later : m.length % 64 ≠ 56 := runs 0 (by omega)
      have stops' : ((m ++ [(0 : Byte)]).length + z) % 64 = 56 := by
        rw [List.length_append, List.length_singleton]
        omega
      have runs' : ∀ y < z, ((m ++ [(0 : Byte)]).length + y) % 64 ≠ 56 := by
        intro y hy
        have next := runs (y + 1) (by omega)
        rw [List.length_append, List.length_singleton]
        omega
      rw [sha1Pad, size, if_neg later, sha1Update_absorbed, ih _ z (by omega) stops' runs', List.append_assoc,
        List.replicate_succ]
      rfl

theorem length_pad (m : List Byte) : (pad m).length = 64 * ((m.length + 72) / 64) := by
  simp only [pad, List.length_append, List.length_replicate, List.length_singleton, List.length_map, List.length_range]
  omega

theorem toList_ofList_of_length {n : Nat} (l : List Byte) (full : l.length = n) : (ofList n l).toList = l := by
  refine List.ext_getElem (by simp [full]) fun k h h' => ?_
  simp [h']

/-- The bytes of the five words. -/
theorem toList_ofList_words (v : Vector (BitVec 32) 5) : (ofList 20 (v.toList.flatMap wr32)).toList =
    [(workingOf v).a, (workingOf v).b, (workingOf v).c, (workingOf v).d, (workingOf v).e].flatMap wr32 := by
  have words : v.toList = [v[0], v[1], v[2], v[3], v[4]] := by
    refine List.ext_getElem (by simp) fun k h h' => ?_
    have inside : k < 5 := by simpa using h
    interval_cases k <;> rfl
  have full : ([v[0], v[1], v[2], v[3], v[4]].flatMap wr32).length = 20 := rfl
  rw [words, toList_ofList_of_length _ full]
  rfl

theorem sha1Final_absorbed (m : List Byte) : (sha1Final (absorbed m)).toList = SecureHash.sha1 m := by
  have padded : sha1Pad 64 (sha1Update (absorbed m) [0x80]) =
      absorbed (m ++ [0x80] ++ List.replicate ((119 - m.length % 64) % 64) 0) := by
    rw [sha1Update_absorbed]
    refine sha1Pad_absorbed 64 _ _ (by omega) ?_ fun y hy => ?_
    all_goals
      rw [List.length_append, List.length_singleton]
      omega
  have bits : (absorbed m).len = BitVec.ofNat 64 (8 * m.length) := rfl
  have whole : sha1Update (absorbed (m ++ [0x80] ++ List.replicate ((119 - m.length % 64) % 64) 0))
      ((List.range 8).map fun i => ((absorbed m).len >>> (56 - i * 8)).setWidth 8) = absorbed (pad m) := by
    rw [sha1Update_absorbed, bits, pad]
    simp only [Nat.mul_comm 8]
  have state := foldl_absorb_blocks sha1Block (show 0 < 64 by decide) _ sha1Init.h (pad m) (length_pad m)
  have working : ∀ (bs : List (List Byte)) (h : Vector (BitVec 32) 5),
      workingOf (bs.foldl sha1Block h) = bs.foldl compress (workingOf h) := by
    intro bs
    induction bs with
    | nil => exact fun _ => rfl
    | cons block rest ih =>
      intro h
      rw [List.foldl_cons, ih, sha1Block_eq, List.foldl_cons]
  have digest := working (blocks 64 (pad m)) sha1Init.h
  rw [sha1Final, padded, whole]
  simp only [absorbed, sha1State, state]
  rw [toList_ofList_words, digest]
  rfl

/-! ## The standard functions -/

theorem toList_sha1 (data : List Byte) : (sha1 data).toList = SecureHash.sha1 data := by
  have start : sha1Init = absorbed [] := rfl
  rw [sha1, start, sha1Update_absorbed, List.nil_append, sha1Final_absorbed]

/-- The key block of the code is the key, or the digest of a long one, filled up with zeros. -/
theorem toList_keyBlock (key : List Byte) :
    let short := if 64 < key.length then SecureHash.sha1 key else key
    (ofList 64 (if 64 < key.length then (sha1 key).toList else key)).toList =
      short ++ List.replicate (64 - short.length) 0 := by
  intro short
  have fits : short.length ≤ 64 := by
    by_cases long : 64 < key.length
    · have digest : short = (sha1 key).toList := by
        rw [toList_sha1]
        exact if_pos long
      rw [digest]
      simp
    · have own : short = key := if_neg long
      rw [own]
      omega
  have same : (if 64 < key.length then (sha1 key).toList else key) = short := by rw [toList_sha1]
  rw [same]
  refine List.ext_getElem (by simp; omega) fun k h h' => ?_
  simp only [Vector.getElem_toList, getElem_ofList, List.getElem_append, List.getElem_replicate]
  split
  next inside => simp [inside]
  next past => simp [past]

theorem toList_sha1_updates (updates : List (List Byte)) :
    (sha1Final (updates.foldl sha1Update sha1Init)).toList = SecureHash.sha1 updates.flatten := by
  have start : sha1Init = absorbed [] := rfl
  rw [start, sha1Updates_absorbed, List.nil_append, sha1Final_absorbed]

theorem toList_sha1_two (first second : List Byte) :
    (sha1Final (sha1Update (sha1Update sha1Init first) second)).toList = SecureHash.sha1 (first ++ second) := by
  have both := toList_sha1_updates [first, second]
  simpa using both

/-- However a message is cut into updates the digest is that of the standard, and the keyed hash is HMAC
over it. -/
theorem sha1_hmac_standard :
    (∀ updates : List (List Byte),
      (sha1Final (updates.foldl sha1Update sha1Init)).toList = SecureHash.sha1 updates.flatten) ∧
    ∀ key msg : List Byte, (hmacSha1 key msg).toList = hmac SecureHash.sha1 64 key msg := by
  refine ⟨toList_sha1_updates, fun key msg => ?_⟩
  have block := toList_keyBlock key
  simp only [hmacSha1, hmac, toList_sha1_two, block]

end Cc2obp
