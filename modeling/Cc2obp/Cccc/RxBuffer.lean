import Cc2obp.Lib.Bytes
import Cc2obp.Lib.Lines
import Mathlib.Data.List.Induction

/-!
# The buffer of `feed_bytes`

`feed_bytes` at the level of its array: every store with its index, every call with
the buffer the callback is handed. The newline is stored in the same array as the
text and taken off again, also when there was no room for it.
-/
namespace Cc2obp

/-- `rxbuf` of `cap` bytes and `rxlen`, the indices written and the buffers handed to the callback. -/
structure RxBuffer (cap : Nat) where
  rxbuf : Bytes cap
  rxlen : Int := 0
  written : List Int := []
  calls : List (Bytes cap) := []

namespace RxBuffer

variable {cap : Nat}

/-- `rxbuf[i] = b`. -/
def store (i : Int) (b : Byte) (s : RxBuffer cap) : RxBuffer cap :=
  { s with
    rxbuf := if 0 ≤ i then s.rxbuf.setIfInBounds i.toNat b else s.rxbuf
    written := s.written ++ [i] }

def load (i : Int) (s : RxBuffer cap) : Byte := s.rxbuf.toList.getD i.toNat 0

def feedByte (s : RxBuffer cap) (b : Byte) : RxBuffer cap :=
  let s := if s.rxlen < cap - 1 then { s.store s.rxlen b with rxlen := s.rxlen + 1 } else s
  if b = 0x0A then
    let l := s.rxlen - 1
    let l := if 0 < l ∧ s.load (l - 1) = 0x0D then l - 1 else l
    let s := s.store l 0
    { s with calls := s.calls ++ [s.rxbuf], rxlen := 0 }
  else s

def feedBytes (s : RxBuffer cap) (data : List Byte) : RxBuffer cap := data.foldl feedByte s

end RxBuffer

/-! ## Lines of a stream -/

/-- One more byte of a stream cut at its newlines. -/
def segment (acc : List (List Byte) × List Byte) (b : Byte) : List (List Byte) × List Byte :=
  if b = 0x0A then (acc.1 ++ [acc.2], []) else (acc.1, acc.2 ++ [b])

/-- The texts before each newline, and the bytes after the last one. -/
def segments (stream : List Byte) : List (List Byte) × List Byte := stream.foldl segment ([], [])

theorem segments_append (stream : List Byte) (b : Byte) : segments (stream ++ [b]) = segment (segments stream) b := by
  simp [segments]

theorem length_segments (stream : List Byte) : (segments stream).1.length = stream.count 0x0A := by
  induction stream using List.reverseRecOn with
  | nil => rfl
  | append_singleton stream b ih =>
    rw [segments_append, segment, List.count_append]
    by_cases ends : b = 0x0A
    · rw [if_pos ends, ends, List.length_append, ih, List.count_singleton_self, List.length_singleton]
    · have other : ¬(b == 0x0A) = true := by simpa using ends
      rw [if_neg ends, ih, List.count_singleton, if_neg other, Nat.add_zero]

/-- A stream is its texts with their newlines and the rest. -/
theorem segments_parts (stream : List Byte) :
    stream = ((segments stream).1.map fun text => text ++ [0x0A]).flatten ++ (segments stream).2 ∧
      (∀ text ∈ (segments stream).1, (0x0A : Byte) ∉ text) ∧ (0x0A : Byte) ∉ (segments stream).2 := by
  induction stream using List.reverseRecOn with
  | nil => simp [segments]
  | append_singleton stream b ih =>
    obtain ⟨whole, inLine, inRest⟩ := ih
    rw [segments_append, segment]
    split
    next ends =>
      subst ends
      refine ⟨?_, ?_, by simp⟩
      · conv_lhs => rw [whole]
        simp
      · intro text member
        rcases List.mem_append.mp member with old | new
        · exact inLine text old
        · rw [List.mem_singleton.mp new]
          exact inRest
    next other =>
      refine ⟨?_, inLine, ?_⟩
      · conv_lhs => rw [whole]
        simp
      · intro member
        rcases List.mem_append.mp member with old | new
        · exact inRest old
        · exact other (List.mem_singleton.mp new).symm

/-- What the callback is to find of a text: cut to `cap - 2` bytes, one trailing carriage return removed. -/
def lineText (cap : Nat) (text : List Byte) : List Byte := Lines.stripCr (text.take (cap - 2))

theorem length_lineText_lt {cap : Nat} (text : List Byte) (two : 2 ≤ cap) : (lineText cap text).length < cap := by
  have cut : (text.take (cap - 2)).length ≤ cap - 2 := List.length_take_le _ _
  rw [lineText, Lines.stripCr]
  split
  · rw [List.length_dropLast]
    omega
  · omega

/-- A buffer that holds a line with its terminator. -/
def HoldsLine {cap : Nat} (rxbuf : Bytes cap) (line : List Byte) : Prop :=
  rxbuf.toList.take line.length = line ∧ rxbuf.toList[line.length]? = some 0

/-! ## One byte -/

namespace RxBuffer

variable {cap : Nat}

/-- The buffer holds the bytes since the last newline as far as there is room. -/
structure Holding (text : List Byte) (s : RxBuffer cap) : Prop where
  len : s.rxlen = (min text.length (cap - 1) : Nat)
  bytes : s.rxbuf.toList.take (min text.length (cap - 1)) = text.take (cap - 1)

/-- The state after a stream. -/
structure Fed (stream : List Byte) (s : RxBuffer cap) : Prop where
  holding : Holding (segments stream).2 s
  calls : List.Forall₂ HoldsLine s.calls ((segments stream).1.map (lineText cap))
  inside : ∀ i ∈ s.written, 0 ≤ i ∧ i < cap

/-- The byte kept if there is room, as every byte is first, a newline too. -/
def keep (s : RxBuffer cap) (b : Byte) : RxBuffer cap :=
  if s.rxlen < cap - 1 then { s.store s.rxlen b with rxlen := s.rxlen + 1 } else s

theorem Holding.keep {text : List Byte} {s : RxBuffer cap} (holding : Holding text s) (some_ : 1 ≤ cap) (b : Byte) :
    Holding (text ++ [b]) (s.keep b) := by
  have size : s.rxbuf.toList.length = cap := by simp
  by_cases room : text.length < cap - 1
  · have short : min text.length (cap - 1) = text.length := Nat.min_eq_left (by omega)
    have short' : min (text ++ [b]).length (cap - 1) = text.length + 1 := by
      rw [List.length_append, List.length_singleton]
      omega
    have len := holding.len
    have bytes := holding.bytes
    rw [short] at len bytes
    rw [List.take_of_length_le (l := text) (by omega)] at bytes
    have here : s.rxlen < cap - 1 := by omega
    refine ⟨?_, ?_⟩
    · rw [short', RxBuffer.keep, if_pos here]
      simp [len]
    · rw [short', RxBuffer.keep, if_pos here, List.take_of_length_le (l := text ++ [b]) (by simp; omega)]
      have place : s.rxlen.toNat = text.length := by omega
      simp only [store, len, Int.natCast_nonneg, if_true, Int.toNat_natCast]
      rw [Vector.toList_setIfInBounds, List.take_add_one, List.take_set_of_le (Nat.le_refl _), bytes]
      simp [show text.length < cap by omega]
  · have long : min text.length (cap - 1) = cap - 1 := Nat.min_eq_right (by omega)
    have long' : min (text ++ [b]).length (cap - 1) = cap - 1 := by
      rw [List.length_append]
      omega
    have len := holding.len
    have bytes := holding.bytes
    rw [long] at len bytes
    have full : ¬s.rxlen < cap - 1 := by omega
    refine ⟨?_, ?_⟩
    · rw [long', RxBuffer.keep, if_neg full, len]
    · rw [long', RxBuffer.keep, if_neg full, bytes, List.take_append_of_le_length (by omega)]

/-- Where the terminator goes at a newline. -/
def terminator (s : RxBuffer cap) : Int :=
  if 0 < s.rxlen - 1 ∧ s.load (s.rxlen - 1 - 1) = 0x0D then s.rxlen - 1 - 1 else s.rxlen - 1

theorem feedByte_eq (s : RxBuffer cap) (b : Byte) : s.feedByte b =
    if b = 0x0A then
      { (s.keep b).store (s.keep b).terminator 0 with
        calls := s.calls ++ [((s.keep b).store (s.keep b).terminator 0).rxbuf], rxlen := 0 }
    else s.keep b := by
  have calls : (s.keep b).calls = s.calls := by
    rw [keep]
    split <;> rfl
  rw [← calls]
  rfl

theorem keep_written (s : RxBuffer cap) (b : Byte) (low : 0 ≤ s.rxlen) (inside : ∀ i ∈ s.written, 0 ≤ i ∧ i < cap) :
    ∀ i ∈ (s.keep b).written, 0 ≤ i ∧ i < cap := by
  rw [keep]
  split
  next room =>
    intro i member
    rcases List.mem_append.mp member with old | new
    · exact inside i old
    · rw [List.mem_singleton.mp new]
      omega
  next => exact inside

/-- The text in the buffer when its newline has come, the newline off again. -/
theorem Holding.text_take {text : List Byte} {s : RxBuffer cap} (holding : Holding (text ++ [0x0A]) s) (two : 2 ≤ cap) :
    s.rxlen - 1 = (text.take (cap - 2)).length ∧
      s.rxbuf.toList.take (text.take (cap - 2)).length = text.take (cap - 2) := by
  have len := holding.len
  have bytes := congrArg (List.take (min (cap - 2) text.length)) holding.bytes
  rw [List.length_append, List.length_singleton] at len
  rw [List.length_append, List.length_singleton, List.take_take, List.take_take,
    Nat.min_eq_left (show min (cap - 2) text.length ≤ min (text.length + 1) (cap - 1) by omega),
    Nat.min_eq_left (show min (cap - 2) text.length ≤ cap - 1 by omega),
    List.take_append_of_le_length (Nat.min_le_right _ _)] at bytes
  have whole : text.take (min (cap - 2) text.length) = text.take (cap - 2) := by
    rw [← List.take_take, List.take_length]
  rw [List.length_take]
  exact ⟨by omega, bytes.trans whole⟩

/-- What the terminator leaves is the text without a trailing carriage return. -/
theorem Holding.terminator_eq {text : List Byte} {s : RxBuffer cap} (holding : Holding (text ++ [0x0A]) s) (two : 2 ≤ cap) :
    s.terminator = (lineText cap text).length ∧
      s.rxbuf.toList.take (lineText cap text).length = lineText cap text := by
  obtain ⟨len, taken⟩ := holding.text_take two
  rw [lineText, terminator, len, Lines.stripCr]
  generalize text.take (cap - 2) = kept at taken ⊢
  have last : 0 < kept.length → kept.getLast? = some (s.load (kept.length - 1 : Int)) := by
    intro some_
    have place : ((kept.length : Int) - 1).toNat = kept.length - 1 := by omega
    have read : s.rxbuf.toList[kept.length - 1]? = kept[kept.length - 1]? := by
      rw [← List.getElem?_take_of_lt (show kept.length - 1 < kept.length by omega), taken]
    rw [List.getLast?_eq_getElem?, load, place, List.getD_eq_getElem?_getD, read, List.getElem?_eq_getElem (by omega)]
    rfl
  by_cases cr : kept.getLast? = some 0x0D
  · have some_ : 0 < kept.length := by
      rw [List.length_pos_iff]
      rintro rfl
      simp at cr
    have byte : s.load (kept.length - 1 : Int) = 0x0D := by
      have same := last some_
      rw [cr] at same
      exact (Option.some.inj same).symm
    rw [if_pos cr, if_pos ⟨by omega, byte⟩, List.length_dropLast]
    refine ⟨by omega, ?_⟩
    have shorter := congrArg (List.take (kept.length - 1)) taken
    rwa [List.take_take, Nat.min_eq_left (by omega), ← List.dropLast_eq_take] at shorter
  · have other : ¬(0 < (kept.length : Int) ∧ s.load (kept.length - 1 : Int) = 0x0D) := by
      rintro ⟨some_, byte⟩
      exact cr (byte ▸ last (by omega))
    rw [if_neg cr, if_neg other]
    exact ⟨rfl, taken⟩

theorem holdsLine_store {s : RxBuffer cap} {line : List Byte} (place : s.terminator = line.length)
    (taken : s.rxbuf.toList.take line.length = line) (inside : line.length < cap) :
    HoldsLine (s.store s.terminator 0).rxbuf line := by
  have memory : (s.store s.terminator 0).rxbuf.toList = s.rxbuf.toList.set line.length 0 := by
    simp [store, place]
  rw [HoldsLine, memory]
  refine ⟨?_, by simp [inside]⟩
  rw [List.take_set_of_le (Nat.le_refl _), taken]

/-! ## Streams -/

theorem Fed.feedByte {stream : List Byte} {s : RxBuffer cap} (fed : Fed stream s) (two : 2 ≤ cap) (b : Byte) :
    Fed (stream ++ [b]) (s.feedByte b) := by
  have low : 0 ≤ s.rxlen := by
    have len := fed.holding.len
    omega
  have kept := fed.holding.keep (by omega) b
  have written := keep_written s b low fed.inside
  rw [feedByte_eq]
  by_cases ends : b = 0x0A
  · subst ends
    obtain ⟨place, taken⟩ := kept.terminator_eq two
    have short := length_lineText_lt (segments stream).2 two
    rw [if_pos rfl]
    constructor
    case holding =>
      rw [segments_append, segment, if_pos rfl]
      exact ⟨rfl, by simp⟩
    case calls =>
      rw [segments_append, segment, if_pos rfl, List.map_append, List.map_singleton]
      exact List.rel_append fed.calls (List.Forall₂.cons (holdsLine_store place taken short) .nil)
    case inside =>
      intro i member
      rcases List.mem_append.mp member with old | new
      · exact written i old
      · rw [List.mem_singleton.mp new, place]
        omega
  · rw [if_neg ends]
    constructor
    case holding =>
      rw [segments_append, segment, if_neg ends]
      exact kept
    case calls =>
      have calls : (s.keep b).calls = s.calls := by
        rw [RxBuffer.keep]
        split <;> rfl
      rw [segments_append, segment, if_neg ends, calls]
      exact fed.calls
    case inside => exact written

theorem Fed.feedBytes {stream : List Byte} {s : RxBuffer cap} (fed : Fed stream s) (two : 2 ≤ cap) (data : List Byte) :
    Fed (stream ++ data) (s.feedBytes data) := by
  induction data generalizing stream s with
  | nil => simpa [RxBuffer.feedBytes] using fed
  | cons b data ih => simpa [RxBuffer.feedBytes] using ih (fed.feedByte two b)

/-- An empty buffer, whatever its bytes are. -/
def fresh (rxbuf : Bytes cap) : RxBuffer cap := { rxbuf }

theorem fed_fresh (rxbuf : Bytes cap) : Fed [] (fresh rxbuf) where
  holding := ⟨rfl, by simp [segments]⟩
  calls := .nil
  inside := by simp [fresh]

theorem fed_chunks (two : 2 ≤ cap) (rxbuf : Bytes cap) (chunks : List (List Byte)) :
    Fed chunks.flatten (chunks.foldl RxBuffer.feedBytes (fresh rxbuf)) := by
  have run : ∀ (stream : List Byte) (s : RxBuffer cap), Fed stream s →
      Fed (stream ++ chunks.flatten) (chunks.foldl RxBuffer.feedBytes s) := by
    induction chunks with
    | nil => exact fun stream s fed => by simpa using fed
    | cons data rest ih =>
      intro stream s fed
      have next := ih (stream ++ data) (s.feedBytes data) (fed.feedBytes two data)
      simpa using next
  exact run [] _ (fed_fresh rxbuf)

end RxBuffer

/-! ## The reader of the links -/

/-- What a callback reads of a buffer that holds a line. -/
theorem HoldsLine.cstr {cap : Nat} {rxbuf : Bytes cap} {line : List Byte} (holds : HoldsLine rxbuf line) :
    CString.cstr rxbuf.toList = CString.cstr line := by
  obtain ⟨taken, zero⟩ := holds
  obtain ⟨inside, zero⟩ := List.getElem?_eq_some_iff.mp zero
  have memory : rxbuf.toList = line ++ 0 :: rxbuf.toList.drop (line.length + 1) := by
    calc rxbuf.toList = rxbuf.toList.take line.length ++ rxbuf.toList.drop line.length :=
          (List.take_append_drop _ _).symm
      _ = line ++ 0 :: rxbuf.toList.drop (line.length + 1) := by
          rw [taken, List.drop_eq_getElem_cons inside, zero]
  rw [memory, CString.cstr, CString.cstr, List.takeWhile_append]
  split
  next whole =>
    rw [List.takeWhile_cons_of_neg (by decide), List.append_nil]
    exact ((List.takeWhile_prefix _).eq_of_length whole).symm
  next => rfl

theorem push_taken {cap : Nat} (one : 1 ≤ cap) (text : List Byte) (b : Byte) :
    Lines.push cap (text.take (cap - 1)) b = (text ++ [b]).take (cap - 1) := by
  rw [Lines.push, List.length_take]
  split
  next room =>
    have short : text.length < cap - 1 := by omega
    rw [List.take_of_length_le (by omega), List.take_of_length_le (by simp; omega)]
  next full =>
    rw [List.take_append_of_le_length (by omega)]

/-- The list reader is the array reader with the lines read as C strings. -/
theorem cut_eq_segments {cap : Nat} (two : 2 ≤ cap) (stream : List Byte) : Lines.cut cap [] stream =
    ((segments stream).1.map fun text => CString.cstr (lineText cap text), (segments stream).2.take (cap - 1)) := by
  induction stream using List.reverseRecOn with
  | nil => simp [Lines.cut, segments]
  | append_singleton stream b ih =>
    have kept := push_taken (show 1 ≤ cap by omega) (segments stream).2 b
    rw [Lines.cut_append, ih, segments_append, segment, Lines.cut, kept]
    by_cases ends : b = 0x0A
    · have dropped : (((segments stream).2 ++ [b]).take (cap - 1)).dropLast = (segments stream).2.take (cap - 2) := by
        rw [List.dropLast_eq_take, List.take_take, List.length_take, List.length_append, List.length_singleton,
          List.take_append_of_le_length (by omega)]
        rcases Nat.lt_or_ge (segments stream).2.length (cap - 2) with short | long
        · rw [List.take_of_length_le (by omega), List.take_of_length_le (by omega)]
        · congr 1
          omega
      rw [if_pos ends, if_pos ends, Lines.lineOf, dropped, List.map_append, List.take_nil]
      rfl
    · rw [if_neg ends, if_neg ends, Lines.cut, List.append_nil]
/-- Cut into chunks in any way, a stream calls back once for every newline, in order, with the text before it cut to
`cap - 2` bytes and freed of one carriage return; the bytes after the last newline wait, `cap - 1` of them at most;
and every store is inside the buffer. -/
theorem feed_bytes_reassembles (cap : Nat) (three : 3 ≤ cap) (rxbuf : Bytes cap) (chunks : List (List Byte)) :
    let s := chunks.foldl RxBuffer.feedBytes (RxBuffer.fresh rxbuf)
    let parts := segments chunks.flatten
    s.calls.length = chunks.flatten.count 0x0A ∧
      List.Forall₂ HoldsLine s.calls (parts.1.map (lineText cap)) ∧
      s.rxbuf.toList.take s.rxlen.toNat = parts.2.take (cap - 1) ∧ 0 ≤ s.rxlen ∧ s.rxlen ≤ cap - 1 ∧
      ∀ i ∈ s.written, 0 ≤ i ∧ i < cap := by
  intro s parts
  have fed : RxBuffer.Fed chunks.flatten s := RxBuffer.fed_chunks (by omega) rxbuf chunks
  have len : s.rxlen = (min parts.2.length (cap - 1) : Nat) := fed.holding.len
  refine ⟨?_, fed.calls, ?_, by omega, by omega, fed.inside⟩
  · rw [fed.calls.length_eq, List.length_map, length_segments]
  · rw [len, Int.toNat_natCast]
    exact fed.holding.bytes

/-- Two chunks cut inside a carriage return and newline, into four bytes. -/
theorem feed_bytes_reassembles_four :
    let s := [ascii "ab\r", ascii "\nlong\nx"].foldl RxBuffer.feedBytes (RxBuffer.fresh #v[1, 2, 3, 4])
    s.calls.length = 2 ∧ s.rxlen ≤ 3 := by
  have fed := feed_bytes_reassembles 4 (by decide) #v[1, 2, 3, 4] [ascii "ab\r", ascii "\nlong\nx"]
  exact ⟨fed.1, fed.2.2.2.2.1⟩

end Cc2obp
