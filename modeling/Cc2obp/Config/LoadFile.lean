import Cc2obp.Config.TomlFile
import Mathlib.Data.List.Induction

/-!
# Loading a file

`config_load` on a file. What is reported goes into a buffer of fixed size, each
message behind the length the messages before it asked for. That length is what
`snprintf` wanted to write, so the messages stay inside the buffer exactly as long
as all of them together fit.
-/
namespace Cc2obp

open CString

/-! ## The error accumulator -/

/-- `sizeof buf` of the accumulator. -/
def errbufSize : Nat := 8192

/-- The accumulator: memory from the start of `buf` as far as it has been written, and the offset `n`. -/
structure Errbag where
  buf : List Byte := [0]
  n : Nat := 0
deriving DecidableEq

/-- The size passed to `snprintf`, a `size_t`. -/
def Errbag.room (e : Errbag) : BitVec 64 := BitVec.ofNat 64 errbufSize - BitVec.ofNat 64 e.n

/-- The text of one call: the message, cut by its own buffer, between blanks and a newline. -/
def adderrText (msg : List Byte) : List Byte := ascii "  " ++ msg.take 255 ++ [0x0A]

/-- What `snprintf` stores with a size: nothing, or as much of the text as fits and a NUL. -/
def snprintfStored (size : BitVec 64) (text : List Byte) : List Byte :=
  if size = 0 then [] else text.take (size.toNat - 1) ++ [0]

/-- Memory after a store at an offset. -/
def storeAt (buf : List Byte) (off : Nat) (bytes : List Byte) : List Byte :=
  if bytes = [] then buf
  else (buf ++ List.replicate (off - buf.length) 0).take off ++ bytes ++ buf.drop (off + bytes.length)

def adderr (e : Errbag) (msg : List Byte) : Errbag where
  buf := storeAt e.buf e.n (snprintfStored e.room (adderrText msg))
  n := e.n + (adderrText msg).length

/-- The accumulator after some messages. -/
def Errbag.after (msgs : List (List Byte)) : Errbag := msgs.foldl adderr {}

/-! ## `config_load` -/

inductive LoadError where
  | parse (error : TomlError)
  | invalid (errors : List ConfigError)
deriving DecidableEq

/-- What is written into `err`, before its size cuts it. -/
def LoadError.text : LoadError → List Byte
  | .parse error => error.text.take 255
  | .invalid errors => ascii "Configuration errors:\n" ++ cstr (Errbag.after (errors.map ConfigError.text)).buf

def configLoadFile (path : List Byte) (file : Option (List Byte)) : Except LoadError Config :=
  match tomlParseFile path file with
  | .error error => .error (.parse error)
  | .ok t => (configLoad t).mapError .invalid

/-- `config_reload_toggles`: what it returns, and the configuration it leaves. -/
def configReloadFile (path : List Byte) (file : Option (List Byte)) (cfg : Config) : Int × Config :=
  match configLoadFile path file with
  | .error _ => (-1, cfg)
  | .ok fresh => (0, configReloadToggles fresh cfg)

/-! ## Staying inside the buffer -/

/-- A call whose store stays inside the buffer: the offset before and after it, the size, and the bytes. -/
structure CallInside (e : Errbag) (msg : List Byte) : Prop where
  before : e.n ≤ errbufSize
  room : e.room.toNat = errbufSize - e.n
  after : (adderr e msg).n ≤ errbufSize
  written : (adderr e msg).buf.length ≤ errbufSize

/-- Every call of a sequence stays inside the buffer. -/
def CallsInside (msgs : List (List Byte)) : Prop :=
  ∀ before msg rest, msgs = before ++ msg :: rest → CallInside (Errbag.after before) msg

/-- What a message takes in the buffer: its text up to 255 bytes, two blanks and a newline. -/
def messageLength (msg : List Byte) : Nat := min 255 msg.length + 3

theorem length_adderrText (msg : List Byte) : (adderrText msg).length = messageLength msg := by
  simp [adderrText, messageLength, ascii]

theorem Errbag.after_append (msgs msgs' : List (List Byte)) :
    Errbag.after (msgs ++ msgs') = msgs'.foldl adderr (Errbag.after msgs) := by
  rw [Errbag.after, List.foldl_append]
  rfl

theorem Errbag.after_concat (msgs : List (List Byte)) (msg : List Byte) :
    Errbag.after (msgs ++ [msg]) = adderr (Errbag.after msgs) msg := Errbag.after_append msgs [msg]

/-- The offset is the length of the messages, written or not. -/
theorem Errbag.n_after (msgs : List (List Byte)) : (Errbag.after msgs).n = (msgs.map messageLength).sum := by
  induction msgs using List.reverseRecOn with
  | nil => rfl
  | append_singleton msgs msg ih =>
    rw [Errbag.after_concat]
    simp [adderr, ih, length_adderrText]

theorem Errbag.toNat_room {e : Errbag} (inside : e.n ≤ errbufSize) : e.room.toNat = errbufSize - e.n := by
  have small : e.n ≤ 8192 := inside
  simp only [Errbag.room, errbufSize, BitVec.toNat_sub, BitVec.toNat_ofNat]
  omega

/-- A store of no more than what is left does not run past the end. -/
theorem length_storeAt_le {buf bytes : List Byte} {off : Nat} (inside : buf.length ≤ errbufSize)
    (fits : off + bytes.length ≤ errbufSize) : (storeAt buf off bytes).length ≤ errbufSize := by
  unfold storeAt
  split
  · exact inside
  · simp only [List.length_append, List.length_take, List.length_replicate, List.length_drop]
    omega

/-- While the offset is inside the buffer, so is what has been written. -/
theorem Errbag.length_buf_after (msgs : List (List Byte)) (inside : (Errbag.after msgs).n ≤ errbufSize) :
    (Errbag.after msgs).buf.length ≤ errbufSize := by
  induction msgs using List.reverseRecOn with
  | nil => decide
  | append_singleton msgs msg ih =>
    rw [Errbag.after_concat] at inside ⊢
    have earlier : (Errbag.after msgs).n ≤ errbufSize := by
      simp only [adderr] at inside
      omega
    have room := Errbag.toNat_room earlier
    simp only [adderr]
    refine length_storeAt_le (ih earlier) ?_
    unfold snprintfStored
    split
    · simpa using earlier
    next size =>
      have positive : (Errbag.after msgs).room.toNat ≠ 0 := by
        intro zero
        exact size (BitVec.eq_of_toNat_eq (by simpa using zero))
      simp only [List.length_append, List.length_take, List.length_singleton]
      omega

/-- The calls stay inside the buffer if and only if all messages together fit it. -/
theorem callsInside_iff (msgs : List (List Byte)) :
    CallsInside msgs ↔ (msgs.map messageLength).sum ≤ errbufSize := by
  constructor
  · intro inside
    rcases List.eq_nil_or_concat msgs with rfl | ⟨front, msg, rfl⟩
    · exact Nat.zero_le _
    · have last := (inside front msg [] (by simp)).after
      rw [← Errbag.after_concat, Errbag.n_after] at last
      simpa using last
  · rintro fits before msg rest rfl
    have earlier : (Errbag.after (before ++ [msg])).n ≤ errbufSize := by
      rw [Errbag.n_after]
      simp only [List.map_append, List.map_cons, List.map_nil, List.sum_append, List.sum_cons, List.sum_nil] at fits ⊢
      omega
    have written := Errbag.length_buf_after _ earlier
    rw [Errbag.after_concat] at earlier written
    have start : (Errbag.after before).n ≤ errbufSize := by
      simp only [adderr] at earlier
      omega
    exact ⟨start, Errbag.toNat_room start, earlier, written⟩

/-- The messages `config_load` reports for a parsed file, in order. -/
def loadMessages (t : Toml) : List (List Byte) := (loadConfig t).errors.map ConfigError.text

/-- Tables of links without a key. -/
def bareLinks (n : Nat) : List Byte := (List.replicate n (ascii "[[link]]\n")).flatten

end Cc2obp
