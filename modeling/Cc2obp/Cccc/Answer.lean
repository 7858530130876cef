import Cc2obp.Cccc.OneLink
import Cc2obp.Cccc.Traffic

/-!
# Answering a Question

What the link that a Question is accepted for looks like afterwards. A newline in
the rest of the chunk has the Question answered again: the slot has no descriptor
any more, so the link loses the connection it has just taken over and comes UP
without one.
-/
namespace Cc2obp

open World Lines

section Teardown
variable (c : Ctx) {i : Nat} {w : World}

/-- An inbound link is not tried again. -/
theorem not_retries (inbound : (w.cfg.linkAt i).ccRole = .inbound) : ¬retries w i := by
  simp [retries, inbound]

theorem vacated_link (inbound : (w.cfg.linkAt i).ccRole = .inbound) : (Wf.vacated c i w).links i =
    if (w.links i).state ≠ .down then (w.links i).torn else w.links i := by
  unfold Wf.vacated
  split
  · rw [teardown_eq]
    simp [World.setLink, not_retries inbound, CcLink.torn]
  · rfl

theorem vacated_nextTimer (inbound : (w.cfg.linkAt i).ccRole = .inbound) :
    (Wf.vacated c i w).loop.nextTimer = w.loop.nextTimer := by
  unfold Wf.vacated
  split
  · rw [teardown_eq]
    simp [not_retries inbound]
  · rfl

theorem vacated_out : (Wf.vacated c i w).out =
    w.out ++ if (w.links i).state = .up then [.call (.linkDown i)] else [] := by
  unfold Wf.vacated
  split
  · exact teardown_out c i w
  next down =>
    have down : (w.links i).state = .down := by simpa using down
    simp [down]

end Teardown

/-- The Answer that is written, and for which link. -/
def Out.answer : Out → Option (Nat × List Byte)
  | .tcp link _ .answer bytes => some (link, bytes)
  | _ => none

/-- The Answer of an end at a time. -/
def Config.answerAt (cfg : Config) (c : Ctx) : List Byte :=
  buildAnswer c.wallSec c.wallUsec cfg.ccSiteName cfg.ccOsVersion cfg.ccVersion

/-- The call that tells the translator of an UP link's end. -/
def downCalls (w : World) (i : Nat) : List TrCall := if (w.links i).state = .up then [.linkDown i] else []

/-- A link that has answered a Question: its record, the timers and what was put out. -/
structure Answers (c : Ctx) (p : PendingConn) (i : Nat) (w w' : World) : Prop where
  record : w'.links i = Wf.takenRecord c p w.loop.nextTimer (w.links i)
  nextTimer : w'.loop.nextTimer = w.loop.nextTimer + 1
  out : w'.out = w.out ++ (downCalls w i).map Out.call ++ [.tcp i p.fd .answer (w.cfg.answerAt c), .call (.linkUp i)]

theorem Answers.calls {c : Ctx} {p : PendingConn} {i : Nat} {w w' : World} (answers : Answers c p i w w') :
    w'.out.filterMap Out.trCall = w.out.filterMap Out.trCall ++ downCalls w i ++ [.linkUp i] := by
  rw [answers.out, List.filterMap_append, List.filterMap_append, trCall_calls]
  rfl

theorem Answers.answers {c : Ctx} {p : PendingConn} {i : Nat} {w w' : World} (answers : Answers c p i w w') :
    w'.out.filterMap Out.answer = w.out.filterMap Out.answer ++ [(i, w.cfg.answerAt c)] := by
  have silent : ((downCalls w i).map Out.call).filterMap Out.answer = [] := by
    rw [List.filterMap_map]
    exact List.filterMap_eq_nil_iff.mpr fun _ _ => rfl
  rw [answers.out, List.filterMap_append, List.filterMap_append, silent, List.append_nil]
  rfl

section Answer
variable (c : Ctx) (s : Nat) {i : Nat} {w : World}

theorem takeOver_answers (inbound : (w.cfg.linkAt i).ccRole = .inbound)
    (stopped : (w.pending s).timeoutTimer = none) : Answers c (w.pending s) i w (takeOver c s i w) := by
  have core := Wf.takeOver_core c (i := i) stopped
  obtain ⟨-, loop, -, -, -, -, links, -⟩ := (core_eq_iff _ _).mp core
  constructor
  case record =>
    rw [links]
    simp only [Wf.handedOver, World.setPending, World.setLink, Function.update_self, Wf.vacated_pending,
      vacated_nextTimer c inbound, vacated_link c inbound]
    by_cases down : (w.links i).state = .down <;> simp [down, Wf.takenRecord, CcLink.torn]
  case nextTimer =>
    rw [loop]
    simp [Wf.handedOver, evTimerAt, evAddFd, vacated_nextTimer c inbound]
  case out =>
    simp only [takeOver]
    rw [show (if (w.links i).state ≠ .down then teardownLinkConnection c i w else w) = Wf.vacated c i w from rfl]
    have vacated := vacated_out c (i := i) (w := w)
    have cfg := Wf.vacated_cfg c (i := i) w
    generalize Wf.vacated c i w = v at vacated cfg ⊢
    simp [freePending, World.emit, World.setPending, World.onLoop, armKeepalive, timerAfter, tcpSend, World.setLink,
      vacated, cfg, downCalls, Config.answerAt]
    split <;> simp

theorem handleQuestionComplete_answers (accepted : acceptQuestion w (w.pending s) = some i) :
    Answers c (w.pending s) i w (handleQuestionComplete c s w) := by
  rw [handleQuestionComplete_accepted c s w accepted]
  obtain ⟨record, nextTimer, out⟩ := takeOver_answers c s
    (w := (w.onLoop (evTimerCancel (w.pending s).timeoutTimer)).setPending s { w.pending s with timeoutTimer := none })
    (i := i) (Wf.accepted_inbound accepted).2.1 (by simp)
  constructor
  case record =>
    rw [record]
    simp [Wf.takenRecord, World.setPending, World.onLoop]
  case nextTimer =>
    rw [nextTimer]
    simp [World.setPending, World.onLoop]
  case out =>
    rw [out, setPending_self]
    rfl

end Answer

/-! ## Answered again -/

/-- A record up to the time its link was last heard. -/
def CcLink.untimed (lk : CcLink) : CcLink := { lk with lastKeepaliveRecv := 0 }

/-- The record of a link that took a connection over, nothing read on it so far. -/
def openedRecord (fd : Int) (timer : Nat) (qlines : List (List Byte)) (lk : CcLink) : CcLink :=
  { lk with
    fd, rxbuf := [], hslines := [], syncSource := questionSsrc qlines, hasSyncSource := true, state := .up,
    keepaliveTimer := some timer, lastKeepaliveRecv := 0 }

theorem findLinkBySsrc_only {w : World} {i : Nat} {ssrc : BitVec 32} (inside : i < w.cfg.nLink)
    (has : (w.links i).hasSyncSource = true) (source : (w.links i).syncSource = ssrc)
    (only : ∀ j, j ≠ i → (w.links j).hasSyncSource = true → (w.links j).syncSource ≠ ssrc) :
    findLinkBySsrc w ssrc = some i := by
  cases found : findLinkBySsrc w ssrc with
  | none =>
    simp only [findLinkBySsrc, List.find?_eq_none, List.mem_range] at found
    exact absurd (found i inside) (by simp [has, source])
  | some j =>
    have holds := List.find?_some found
    simp only [Bool.and_eq_true, beq_iff_eq] at holds
    by_cases same : j = i
    · rw [same]
    · exact absurd holds.2 (only j same holds.1)

/-- A Question of these lines has been answered by the link, and `k` times again. -/
structure Opened (c : Ctx) (s i : Nat) (w : World) (qlines : List (List Byte)) (k : Nat) (v : World) : Prop extends
    Asked s (some i) w qlines v where
  closed : (v.pending s).fd = -1
  record : (v.links i).untimed =
    openedRecord (if k = 0 then (w.pending s).fd else -1) (w.loop.nextTimer + k) qlines (w.links i)
  nextTimer : v.loop.nextTimer = w.loop.nextTimer + k + 1
  calls : v.out.filterMap Out.trCall = w.out.filterMap Out.trCall ++ downCalls w i ++ [.linkUp i] ++
    (List.replicate k [.linkDown i, .linkUp i]).flatten
  answers : v.out.filterMap Out.answer = w.out.filterMap Out.answer ++ List.replicate (k + 1) (i, w.cfg.answerAt c)

namespace Opened

variable {c : Ctx} {s i k : Nat} {w v : World} {qlines : List (List Byte)}

theorem first (c : Ctx) (rx : List Byte) (accepted : acceptQuestion w { w.pending s with qlines := qlines } = some i) :
    Opened c s i w qlines 0
      (handleQuestionComplete c s (w.setPending s { w.pending s with rxbuf := rx, qlines := qlines })) := by
  have asked : Asked s (some i) w qlines
      (handleQuestionComplete c s (w.setPending s { w.pending s with rxbuf := rx, qlines := qlines })) :=
    .answered c (.setPending w _) (by simp) (by simp) accepted
  have accepted' : acceptQuestion (w.setPending s { w.pending s with rxbuf := rx, qlines := qlines })
      ((w.setPending s { w.pending s with rxbuf := rx, qlines := qlines }).pending s) = some i := by
    rw [setPending_self]
    exact (acceptQuestion_congr rfl rfl rfl rfl).trans accepted
  have answers := handleQuestionComplete_answers c s accepted'
  rw [setPending_self] at answers
  refine { toAsked := asked, closed := ?_, record := ?_, nextTimer := answers.nextTimer, calls := ?_,
           answers := answers.answers }
  · rw [handleQuestionComplete_slot]
  · rw [answers.record]
    rfl
  · rw [answers.calls, List.replicate_zero, List.flatten_nil, List.append_nil]
    rfl

theorem buffered (opened : Opened c s i w qlines k v) (rx : List Byte) :
    Opened c s i w qlines k ((pendingBuffer s).put rx v) := by
  refine { opened with toAsked := opened.toAsked.buffered rx, closed := ?_ }
  simp only [pendingBuffer_put, setPending_self]
  exact opened.closed

/-- The link itself holds the sync source of the Question by now. -/
theorem accepts {ph : Phase} (wf : Wf ph w) (accepted : acceptQuestion w { w.pending s with qlines := qlines } = some i)
    (opened : Opened c s i w qlines k v) : acceptQuestion v (v.pending s) = some i := by
  have matched := Wf.accepted_match accepted
  have others := wf.accepted_source accepted
  have inside := (Wf.accepted_inbound accepted).1
  -- the first answer left the sync source with the link
  have source : (v.links i).hasSyncSource = true ∧ (v.links i).syncSource = questionSsrc qlines := by
    have record := opened.record
    exact ⟨congrArg CcLink.hasSyncSource record, congrArg CcLink.syncSource record⟩
  have found : findLinkBySsrc v (questionSsrc qlines) = some i := by
    refine findLinkBySsrc_only (by rw [opened.works.cfg]; exact inside) source.1 source.2 fun j apart => ?_
    rw [opened.works.links j fun same => apart (by simpa using same.symm)]
    exact others j apart
  have matched' : matchInbound v.cfg (v.pending s).srcIp (questionLid (v.pending s).qlines) = some i := by
    rw [opened.works.cfg, opened.srcIp, opened.lines]
    exact matched
  unfold acceptQuestion
  rw [matched', opened.lines]
  simp only [found]
  simp

/-- The slot's Question is answered once more. -/
theorem again {ph : Phase} (wf : Wf ph w)
    (accepted : acceptQuestion w { w.pending s with qlines := qlines } = some i) (opened : Opened c s i w qlines k v) :
    Opened c s i w qlines (k + 1) (handleQuestionComplete c s v) := by
  have answers := handleQuestionComplete_answers c s (opened.accepts wf accepted)
  have up : (v.links i).state = .up := congrArg CcLink.state opened.record
  refine { toAsked := .answered c opened.works opened.srcIp opened.lines accepted, closed := ?_, record := ?_,
           nextTimer := ?_, calls := ?_, answers := ?_ }
  · rw [handleQuestionComplete_slot]
  · -- what a record keeps is what it kept the first time
    have kept : ∀ fd timer, openedRecord fd timer qlines (v.links i) = openedRecord fd timer qlines (w.links i) := by
      intro fd timer
      have same := congrArg (openedRecord fd timer qlines) opened.record
      exact same
    rw [answers.record, if_neg (Nat.succ_ne_zero k), ← kept, ← opened.lines, ← opened.closed, ← Nat.add_assoc, ← opened.nextTimer]
    rfl
  · rw [answers.nextTimer, opened.nextTimer]
    omega
  · rw [answers.calls, opened.calls, List.replicate_succ']
    simp [downCalls, up]
  · rw [answers.answers, opened.answers, opened.works.cfg, List.append_assoc, ← List.replicate_succ']

/-- Every newline behind the Question has it answered again. -/
theorem fed {ph : Phase} (wf : Wf ph w)
    (accepted : acceptQuestion w { w.pending s with qlines := qlines } = some i) (full : qlines.length = ccccQuestionNfields)
    (bytes : List Byte) (opened : Opened c s i w qlines k v) :
    Opened c s i w qlines (k + bytes.count 0x0A) (feedBytes (pendingBuffer s) rxbufCap (pendingOnLine c s) bytes v) := by
  induction bytes generalizing k v with
  | nil => exact opened
  | cons b bytes ih =>
    rw [feedBytes_cons]
    -- a byte first goes into the buffer, a newline then has the Question answered again
    have pushed := opened.buffered (push rxbufCap ((pendingBuffer s).get v) b)
    by_cases newline : b = 0x0A
    · subst newline
      have line : feedByte (pendingBuffer s) rxbufCap (pendingOnLine c s) v 0x0A = (pendingBuffer s).put []
          (handleQuestionComplete c s ((pendingBuffer s).put (push rxbufCap ((pendingBuffer s).get v) 0x0A) v)) := by
        have length : (((pendingBuffer s).put (push rxbufCap ((pendingBuffer s).get v) 0x0A) v).pending s).qlines.length =
            ccccQuestionNfields := by
          rw [pushed.lines]
          exact full
        simp only [feedByte, if_true, pendingOnLine, length, Nat.lt_irrefl, if_false]
      rw [line, List.count_cons_self, Nat.add_comm _ 1, ← Nat.add_assoc]
      exact ih ((pushed.again wf accepted).buffered [])
    · rw [List.count_cons_of_ne newline]
      have kept : feedByte (pendingBuffer s) rxbufCap (pendingOnLine c s) v b =
          (pendingBuffer s).put (push rxbufCap ((pendingBuffer s).get v) b) v := by
        simp only [feedByte, newline, if_false]
      rw [kept]
      exact ih pushed

end Opened

/-- A chunk in which an accepted Question ends. -/
theorem pendingOpened (c : Ctx) {s i : Nat} {w : World} {ph : Phase} (wf : Wf ph w) {bytes rx tail : List Byte}
    {qlines : List (List Byte)} (short : (w.pending s).qlines.length < ccccQuestionNfields)
    (reading : readQuestion (w.pending s).rxbuf (w.pending s).qlines bytes = .complete rx qlines tail)
    (accepted : acceptQuestion w { w.pending s with qlines := qlines } = some i) :
    Opened c s i w qlines (tail.count 0x0A) (feedBytes (pendingBuffer s) rxbufCap (pendingOnLine c s) bytes w) := by
  have lines := readQuestion_short (w.pending s).rxbuf (w.pending s).qlines bytes short
  rw [feedBytes_pending c s w bytes short]
  rw [reading] at lines
  simp only [reading]
  have first := (Opened.first c rx accepted).buffered []
  have all := first.fed wf accepted lines tail
  rwa [Nat.zero_add] at all

end Cc2obp
