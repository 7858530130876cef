import Cc2obp.Cccc.CcccLink

/-!
# Reading a Question

What a chunk does on a pending connection, in three cases: more of the Question
is collected, the Question is complete and refused, or it is complete and the
connection handed over. A slot keeps reading the rest of the chunk after the
Question is complete; a newline in there takes it through the same completion
once more.
-/
namespace Cc2obp

open World Lines

/-- How far the lines of a Question have got. -/
inductive Reading where
  | collecting (rx : List Byte) (qlines : List (List Byte))
  | complete (rx : List Byte) (qlines : List (List Byte)) (rest : List Byte)

/-- The Question in the bytes of a chunk, and the bytes behind it. -/
def readQuestion (rx : List Byte) (qlines : List (List Byte)) : List Byte → Reading
  | [] => .collecting rx qlines
  | b :: bytes =>
    let rx := push rxbufCap rx b
    if b = 0x0A then
      let qlines := qlines ++ [(lineOf rx).take 255]
      if qlines.length = ccccQuestionNfields then .complete rx qlines bytes
      else readQuestion [] qlines bytes
    else readQuestion rx qlines bytes

theorem readQuestion_append (rx : List Byte) (qlines : List (List Byte)) (bytes more : List Byte) :
    readQuestion rx qlines (bytes ++ more) =
      match readQuestion rx qlines bytes with
      | .collecting rx qlines => readQuestion rx qlines more
      | .complete rx qlines rest => .complete rx qlines (rest ++ more) := by
  induction bytes generalizing rx qlines with
  | nil => rfl
  | cons b bytes ih =>
    rw [List.cons_append, readQuestion, readQuestion]
    by_cases newline : b = 0x0A
    · simp only [newline, if_true]
      by_cases last : (qlines ++ [(lineOf (push rxbufCap rx 0x0A)).take 255]).length = ccccQuestionNfields
      · simp only [last, if_true]
      · simp only [last, if_false]
        exact ih _ _
    · simp only [newline, if_false]
      exact ih _ _

section World
variable (w : World) (s : Nat) (p q : PendingConn)

@[simp] theorem setPending_self : (w.setPending s p).pending s = p := by simp [World.setPending]

@[simp] theorem setPending_setPending : (w.setPending s p).setPending s q = w.setPending s q := by
  simp [World.setPending]

@[simp] theorem setPending_same : w.setPending s (w.pending s) = w := by simp [World.setPending]

@[simp] theorem pendingBuffer_put (rx : List Byte) : (pendingBuffer s).put rx w =
    w.setPending s { w.pending s with rxbuf := rx } := rfl

end World

section Feed
variable (c : Ctx) (s : Nat) (w : World)

/-- A byte that ends no line goes into the slot's buffer. -/
theorem feedByte_pending {b : Byte} (inLine : b ≠ 0x0A) :
    feedByte (pendingBuffer s) rxbufCap (pendingOnLine c s) w b =
      w.setPending s { w.pending s with rxbuf := push rxbufCap (w.pending s).rxbuf b } := by
  simp only [feedByte, inLine, if_false]
  rfl

/-- A newline hands the buffered line over and empties the buffer. -/
theorem feedByte_pending_newline :
    feedByte (pendingBuffer s) rxbufCap (pendingOnLine c s) w 0x0A =
      (pendingBuffer s).put [] (pendingOnLine c s (lineOf (push rxbufCap (w.pending s).rxbuf 0x0A))
        (w.setPending s { w.pending s with rxbuf := push rxbufCap (w.pending s).rxbuf 0x0A })) := by
  simp only [feedByte, if_true, pendingBuffer, setPending_self]

/-- Bytes without a newline only fill the slot's buffer. -/
theorem feedBytes_pending_quiet (data : List Byte) (inLine : (0x0A : Byte) ∉ data) :
    ∃ rx, feedBytes (pendingBuffer s) rxbufCap (pendingOnLine c s) data w =
      w.setPending s { w.pending s with rxbuf := rx } := by
  induction data generalizing w with
  | nil => exact ⟨(w.pending s).rxbuf, (setPending_same w s).symm⟩
  | cons b data ih =>
    have here : b ≠ 0x0A := fun same => inLine (List.mem_cons.mpr (.inl same.symm))
    rw [feedBytes_cons, feedByte_pending c s w here]
    obtain ⟨rx, rest⟩ := ih (w.setPending s
      { w.pending s with rxbuf := push rxbufCap (w.pending s).rxbuf b }) fun later =>
        inLine (List.mem_cons_of_mem b later)
    exact ⟨rx, by simpa using rest⟩

/-- A chunk on a slot whose Question is not complete yet. -/
theorem feedBytes_pending (data : List Byte) (short : (w.pending s).qlines.length < ccccQuestionNfields) :
    feedBytes (pendingBuffer s) rxbufCap (pendingOnLine c s) data w =
      match readQuestion (w.pending s).rxbuf (w.pending s).qlines data with
      | .collecting rx qlines => w.setPending s { w.pending s with rxbuf := rx, qlines := qlines }
      | .complete rx qlines rest =>
        feedBytes (pendingBuffer s) rxbufCap (pendingOnLine c s) rest
          ((pendingBuffer s).put [] (handleQuestionComplete c s
            (w.setPending s { w.pending s with rxbuf := rx, qlines := qlines }))) := by
  induction data generalizing w with
  | nil => exact (setPending_same w s).symm
  | cons b data ih =>
    rw [feedBytes_cons, readQuestion]
    by_cases newline : b = 0x0A
    · subst newline
      rw [feedByte_pending_newline]
      simp only [if_true]
      by_cases last : ((w.pending s).qlines ++
          [(lineOf (push rxbufCap (w.pending s).rxbuf 0x0A)).take 255]).length = ccccQuestionNfields
      · simp only [pendingOnLine, setPending_self, short, if_true, setPending_setPending, last]
      · simp only [pendingOnLine, setPending_self, short, if_true, setPending_setPending, last, if_false]
        have more := ih (w.setPending s { w.pending s with
          rxbuf := [], qlines := (w.pending s).qlines ++
            [(lineOf (push rxbufCap (w.pending s).rxbuf 0x0A)).take 255] })
          (by simp only [setPending_self]; simp at last ⊢; omega)
        simpa [pendingBuffer] using more
    · rw [feedByte_pending c s w newline]
      simp only [newline, if_false]
      have more := ih (w.setPending s
        { w.pending s with rxbuf := push rxbufCap (w.pending s).rxbuf b }) (by simpa using short)
      simpa using more

end Feed

/-! ## The end of a Question -/

theorem acceptQuestion_congr {w w' : World} {p p' : PendingConn} (cfg : w'.cfg = w.cfg)
    (links : w'.links = w.links) (srcIp : p'.srcIp = p.srcIp) (qlines : p'.qlines = p.qlines) :
    acceptQuestion w' p' = acceptQuestion w p := by
  simp [acceptQuestion, findLinkBySsrc, cfg, links, srcIp, qlines]

section Complete
variable (c : Ctx) (s : Nat) (w : World)

theorem handleQuestionComplete_refused (refused : acceptQuestion w (w.pending s) = none) :
    handleQuestionComplete c s w = freePending s true w := by
  have same : ∀ timer, acceptQuestion
      ((w.onLoop (evTimerCancel timer)).setPending s { w.pending s with timeoutTimer := none })
      { w.pending s with timeoutTimer := none } = none := by
    intro timer
    rw [← refused]
    exact acceptQuestion_congr rfl rfl rfl rfl
  simp only [handleQuestionComplete, setPending_self]
  have after := same (w.pending s).timeoutTimer
  simp only [World.onLoop] at after ⊢
  rw [after]
  by_cases held : 0 ≤ (w.pending s).fd <;>
    simp [freePending, World.setPending, World.onLoop, evTimerCancel, closeFd, held]

theorem handleQuestionComplete_accepted {matched : Nat}
    (accepted : acceptQuestion w (w.pending s) = some matched) :
    handleQuestionComplete c s w = takeOver c s matched
      ((w.onLoop (evTimerCancel (w.pending s).timeoutTimer)).setPending s
        { w.pending s with timeoutTimer := none }) := by
  have same : acceptQuestion ((w.onLoop (evTimerCancel (w.pending s).timeoutTimer)).setPending s
      { w.pending s with timeoutTimer := none }) { w.pending s with timeoutTimer := none } =
      some matched := by
    rw [← accepted]
    exact acceptQuestion_congr rfl rfl rfl rfl
  simp only [handleQuestionComplete, setPending_self]
  simp only [World.onLoop] at same ⊢
  rw [same]

/-- A slot that has completed its Question and was refused. -/
structure Refused (w : World) (s : Nat) : Prop where
  full : (w.pending s).qlines.length = ccccQuestionNfields
  refused : acceptQuestion w (w.pending s) = none
  free : (w.pending s).inUse = false
  closed : (w.pending s).fd = -1
  stopped : (w.pending s).timeoutTimer = none

variable {s w}

/-- Refusing once more does nothing. -/
theorem Refused.again (done : Refused w s) (line : List Byte) : pendingOnLine c s line w = w := by
  have same : freePending s true w = w := by
    have record : ({ w.pending s with timeoutTimer := none, inUse := false, fd := -1 } : PendingConn) =
        w.pending s := by
      rw [← done.free, ← done.closed, ← done.stopped]
    simp only [freePending, done.closed, done.stopped]
    simp [World.onLoop, evTimerCancel]
    rw [← done.free, ← done.closed, ← done.stopped]
    exact setPending_same w s
  simp [pendingOnLine, done.full, handleQuestionComplete_refused c s w done.refused, same]

/-- Whatever follows a refused Question in its chunk only passes through the slot's buffer. -/
theorem Refused.rest (data : List Byte) (done : Refused w s) :
    ∃ rx, feedBytes (pendingBuffer s) rxbufCap (pendingOnLine c s) data w =
      w.setPending s { w.pending s with rxbuf := rx } := by
  induction data generalizing w with
  | nil => exact ⟨(w.pending s).rxbuf, (setPending_same w s).symm⟩
  | cons b data ih =>
    have kept : ∀ rx, Refused (w.setPending s { w.pending s with rxbuf := rx }) s := by
      intro rx
      constructor <;> simp only [setPending_self]
      case full => exact done.full
      case refused =>
        rw [← done.refused]
        exact acceptQuestion_congr rfl rfl rfl rfl
      case free => exact done.free
      case closed => exact done.closed
      case stopped => exact done.stopped
    rw [feedBytes_cons]
    by_cases newline : b = 0x0A
    · subst newline
      rw [feedByte_pending_newline, (kept _).again]
      simp only [pendingBuffer_put, setPending_self, setPending_setPending]
      obtain ⟨rx, rest⟩ := ih (kept [])
      exact ⟨rx, by simpa using rest⟩
    · rw [feedByte_pending c s w newline]
      obtain ⟨rx, rest⟩ := ih (kept (push rxbufCap (w.pending s).rxbuf b))
      exact ⟨rx, by simpa using rest⟩

end Complete

/-! ## A chunk -/

/-- A newline follows, in one chunk, the newline that completes an accepted Question. -/
def pipelined (w : World) (s : Nat) (bytes : List Byte) : Bool :=
  match readQuestion (w.pending s).rxbuf (w.pending s).qlines bytes with
  | .collecting _ _ => false
  | .complete _ qlines rest =>
    (acceptQuestion w { w.pending s with qlines := qlines }).isSome && rest.contains 0x0A

/-- The slot with the lines of its Question, its timer stopped. -/
def questionRead (s : Nat) (rx : List Byte) (qlines : List (List Byte)) (w : World) : World :=
  (w.onLoop (evTimerCancel (w.pending s).timeoutTimer)).setPending s
    { w.pending s with rxbuf := rx, qlines := qlines, timeoutTimer := none }

/-- What a chunk without a pipelined newline does on a pending connection. The slot's buffer keeps
what follows the Question. -/
inductive PendingStep (c : Ctx) (s : Nat) (w : World) : World → Prop
  | collect (rx : List Byte) (qlines : List (List Byte)) (short : qlines.length < ccccQuestionNfields) :
      PendingStep c s w (w.setPending s { w.pending s with rxbuf := rx, qlines := qlines })
  | refuse (rx rx' : List Byte) (qlines : List (List Byte))
      (refused : acceptQuestion w { w.pending s with qlines := qlines } = none) :
      PendingStep c s w ((pendingBuffer s).put rx' (freePending s true
        (w.setPending s { w.pending s with rxbuf := rx, qlines := qlines })))
  | accept (rx rx' : List Byte) (qlines : List (List Byte)) (matched : Nat)
      (accepted : acceptQuestion w { w.pending s with qlines := qlines } = some matched) :
      PendingStep c s w ((pendingBuffer s).put rx' (takeOver c s matched (questionRead s rx qlines w)))

theorem readQuestion_short (rx : List Byte) (qlines : List (List Byte)) (bytes : List Byte)
    (short : qlines.length < ccccQuestionNfields) :
    match readQuestion rx qlines bytes with
    | .collecting _ qlines' => qlines'.length < ccccQuestionNfields
    | .complete _ qlines' _ => qlines'.length = ccccQuestionNfields := by
  induction bytes generalizing rx qlines with
  | nil => exact short
  | cons b bytes ih =>
    rw [readQuestion]
    by_cases newline : b = 0x0A
    · simp only [newline, if_true]
      by_cases last : (qlines ++ [(lineOf (push rxbufCap rx 0x0A)).take 255]).length = ccccQuestionNfields
      · simp only [last, if_true]
      · simp only [last, if_false]
        exact ih _ _ (by simp at last ⊢; omega)
    · simp only [newline, if_false]
      exact ih _ _ short

theorem feedBytes_pending_step (c : Ctx) (s : Nat) (w : World) (bytes : List Byte)
    (short : (w.pending s).qlines.length < ccccQuestionNfields) (single : pipelined w s bytes = false) :
    PendingStep c s w (feedBytes (pendingBuffer s) rxbufCap (pendingOnLine c s) bytes w) := by
  have lines := readQuestion_short (w.pending s).rxbuf (w.pending s).qlines bytes short
  rw [feedBytes_pending c s w bytes short]
  unfold pipelined at single
  cases reading : readQuestion (w.pending s).rxbuf (w.pending s).qlines bytes with
  | collecting rx qlines =>
    rw [reading] at lines
    exact .collect rx qlines lines
  | complete rx qlines rest =>
    rw [reading] at lines single
    simp only at lines single ⊢
    have congr : acceptQuestion (w.setPending s { w.pending s with rxbuf := rx, qlines := qlines })
        ((w.setPending s { w.pending s with rxbuf := rx, qlines := qlines }).pending s) =
        acceptQuestion w { w.pending s with qlines := qlines } :=
      acceptQuestion_congr rfl rfl (by simp) (by simp)
    cases accepted : acceptQuestion w { w.pending s with qlines := qlines } with
    | none =>
      rw [handleQuestionComplete_refused c s _ (congr.trans accepted)]
      -- the slot keeps reading, but as refused
      have done : Refused ((pendingBuffer s).put [] (freePending s true
          (w.setPending s { w.pending s with rxbuf := rx, qlines := qlines }))) s := by
        constructor <;> simp only [pendingBuffer_put, setPending_self, freePending]
        case full => exact lines
        case refused =>
          rw [← accepted]
          refine acceptQuestion_congr ?_ ?_ rfl rfl <;> split <;> rfl
      obtain ⟨rx', through⟩ := done.rest c rest
      rw [through]
      simp only [pendingBuffer_put, setPending_self, setPending_setPending]
      exact .refuse rx rx' qlines accepted
    | some matched =>
      rw [handleQuestionComplete_accepted c s _ (congr.trans accepted)]
      -- no newline follows, so the rest only fills the buffer of the freed slot
      have inLine : (0x0A : Byte) ∉ rest := by simpa [accepted] using single
      obtain ⟨rx', through⟩ := feedBytes_pending_quiet c s ((pendingBuffer s).put [] (takeOver c s matched
        (questionRead s rx qlines w))) rest inLine
      have start : ((w.setPending s { w.pending s with rxbuf := rx, qlines := qlines }).onLoop
          (evTimerCancel ((w.setPending s { w.pending s with rxbuf := rx, qlines := qlines }).pending s).timeoutTimer)).setPending
          s { (w.setPending s { w.pending s with rxbuf := rx, qlines := qlines }).pending s with
            timeoutTimer := none } = questionRead s rx qlines w := by
        simp [questionRead, World.setPending, World.onLoop]
      rw [start, through]
      simp only [pendingBuffer_put, setPending_self, setPending_setPending]
      exact .accept rx rx' qlines matched accepted

end Cc2obp
