import Cc2obp.Cccc.Answer
import Cc2obp.System.Isolation
import Cc2obp.System.Signals

/-!
# Where TCP cuts an inbound connection

Up to the end of its Question a connection is read alike however its bytes are
cut. Behind it only the chunk's own end counts: the rest of the chunk in which
the Question ends is read as more of the Question, what comes later as lines of
the link.
-/
namespace Cc2obp

open World Lines

/-- The rest of the chunk in which a Question ends, and the bytes of the later chunks. -/
def behindQuestion (rx : List Byte) (qlines : List (List Byte)) : List (List Byte) → List Byte × List Byte
  | [] => ([], [])
  | bytes :: rest =>
    match readQuestion rx qlines bytes with
    | .collecting rx qlines => behindQuestion rx qlines rest
    | .complete _ _ tail => (tail, rest.flatten)

/-- The calls of a link behind its Question. -/
def callsBehind (i : Nat) (behind : List Byte × List Byte) : List TrCall :=
  (List.replicate (behind.1.count 0x0A) [.linkDown i, .linkUp i]).flatten ++
    if behind.1.count 0x0A = 0 then (cut rxbufCap [] behind.2).1.filterMap (signalOf i) else []

/-- The record of the link, up to the time it was last heard. -/
def recordBehind (fd : Int) (timer : Nat) (qlines : List (List Byte)) (behind : List Byte × List Byte) (lk : CcLink) :
    CcLink :=
  { openedRecord (if behind.1.count 0x0A = 0 then fd else -1) (timer + behind.1.count 0x0A) qlines lk with
    rxbuf := if behind.1.count 0x0A = 0 then (cut rxbufCap [] behind.2).2 else [] }

theorem Wf.lookup_of_own {w : World} {ph : Phase} (wf : Wf ph w) {h : Holder} {fd : Int} {cb : FdCb}
    (owns : w.own h = some (fd, .read cb)) : FdTable.lookup w.loop.fds fd = some cb := by
  rw [FdTable.lookup_eq_some wf.owned.reading.distinct,
    wf.owned.reading.entries _ (wf.owned.isOpen _ _ _ owns).1]
  exact ⟨h, by rw [owns]; rfl⟩

theorem answer_writes {w : World} {t : TrOut} {o : Out} (writes : Writes w t o) : o.answer = none := by
  cases writes <;> rfl

namespace System

variable {s : System}

/-- The chunk in which an accepted Question ends. -/
theorem step_opened (c : Ctx) {slot : Nat} {fd : Int} (wf : Wf { orphans := True } s.world) (nonneg : 0 ≤ fd)
    (found : FdTable.lookup s.world.loop.fds fd = some (.pending slot)) {i : Nat} {bytes rx tail : List Byte}
    {qlines : List (List Byte)}
    (reading : readQuestion (s.world.pending slot).rxbuf (s.world.pending slot).qlines bytes = .complete rx qlines tail)
    (accepted : acceptQuestion s.world { s.world.pending slot with qlines := qlines } = some i) :
    let after := s.step (c, .readable fd (.recv (.data bytes)))
    ∃ v, Opened c slot i s.world.unlogged qlines (tail.count 0x0A) v ∧ after.1.world.core = v.core ∧
      after.2.filterMap Out.trCall = v.out.filterMap Out.trCall ∧
      after.2.filterMap Out.answer = v.out.filterMap Out.answer := by
  have short := (wf.slots slot (by simp)).asking (wf.slot_of_read nonneg found)
  have opened := pendingOpened (w := s.world.unlogged) c (wf_unlogged wf) short reading
    ((acceptQuestion_congr rfl rfl rfl rfl).trans accepted)
  rw [← readable_pending c (w := s.world.unlogged) nonneg found bytes] at opened
  exact ⟨_, opened, core_callback c _ s.cleared, filterMap_callback (fun _ _ _ => trCall_writes) c _ s.cleared,
    filterMap_callback (fun _ _ _ => answer_writes) c _ s.cleared⟩

/-- The chunk ended with the Question or without another newline: the link reads on. -/
theorem receiving_opened {i : Nat} {fd : Int} {ph : Phase} (wf : Wf ph s.world) (nonneg : 0 ≤ fd) (inside : i < s.world.cfg.nLink)
    {timer : Nat} {qlines : List (List Byte)} {lk : CcLink} (record : (s.world.links i).untimed = openedRecord fd timer qlines lk) :
    s.Receiving i fd [] := by
  have up : (s.world.links i).state = .up := congrArg CcLink.state record
  have here : (s.world.links i).fd = fd := congrArg CcLink.fd record
  constructor
  case up => exact up
  case rxbuf => exact congrArg CcLink.rxbuf record
  case nonneg => exact nonneg
  case registered =>
    apply wf.lookup_of_own (h := .link i)
    simp [own_link s.world inside, linkOwn, up, here, nonneg]

/-- The Question was answered again: nobody reads on. -/
theorem heldBy_none {i : Nat} {fd : Int} {w : World} (held : HeldBy (some i) w fd)
    {timer : Nat} {qlines : List (List Byte)} {lk : CcLink} (record : (w.links i).untimed = openedRecord (-1) timer qlines lk) :
    HeldBy none w fd := by
  intro h watch owns
  obtain ⟨j, same, rfl⟩ := held h watch owns
  obtain rfl : i = j := by simpa using same
  have up : (w.links i).state = .up := congrArg CcLink.state record
  have closed : (w.links i).fd = -1 := congrArg CcLink.fd record
  simp only [World.own, linkOwn, up, closed] at owns
  split at owns <;> simp at owns

/-- The chunks after the one in which the Question ends, if that one takes the link UP for good or leaves it without
the connection. -/
theorem behind_run {i : Nat} {fd : Int} (wf : Wf { orphans := True } s.world) (nonneg : 0 ≤ fd) (inside : i < s.world.cfg.nLink)
    {timer : Nat} {qlines : List (List Byte)} {lk : CcLink} {tail : List Byte}
    (record : (s.world.links i).untimed =
      openedRecord (if tail.count 0x0A = 0 then fd else -1) (timer + tail.count 0x0A) qlines lk)
    (held : HeldBy (some i) s.world fd) (chunks : List (Ctx × List Byte)) :
    let after := Machine.run System.step s (chunkEvents fd chunks)
    let later := (chunks.map Prod.snd).flatten
    (after.1.world.links i).untimed = recordBehind fd timer qlines (tail, later) lk ∧
      after.2.filterMap Out.trCall = (if tail.count 0x0A = 0 then (cut rxbufCap [] later).1.filterMap (signalOf i) else []) ∧
      after.2.filterMap Out.answer = [] := by
  by_cases quiet : tail.count 0x0A = 0
  · -- the link reads on, and no line of an UP link is answered
    simp only [quiet, if_true] at record ⊢
    have receiving := receiving_opened wf nonneg inside record
    obtain ⟨observed, record'⟩ := receiving.run chunks
    have silent : (lineCalls i [] (chunks.map Prod.snd).flatten).filterMap Out.answer = [] := by
      rw [lineCalls, List.filterMap_map]
      exact List.filterMap_eq_nil_iff.mpr fun _ _ => rfl
    refine ⟨?_, receiving.calls chunks, (observed fun _ _ _ => answer_writes).trans silent⟩
    have read := congrArg (fun lk : CcLink => { lk with rxbuf := (cut rxbufCap [] (chunks.map Prod.snd).flatten).2 }) record
    rw [show (Machine.run System.step s (chunkEvents fd chunks)).1.world.links i = _ from record', recordBehind]
    simp only [quiet, if_true]
    exact read
  · -- nobody has the descriptor any more
    simp only [quiet, if_false] at record ⊢
    have serves := held_run wf (heldBy_none held record) chunks
    refine ⟨?_, by rw [serves.silent]; rfl, by rw [serves.silent]; rfl⟩
    rw [serves.records i (by simp), record, recordBehind]
    simp only [quiet, if_false]
    rfl

/-- What an accepted Question and the bytes behind it make of the link. -/
theorem accepted_run {slot i : Nat} {fd : Int} (wf : Wf { orphans := True } s.world) (nonneg : 0 ≤ fd)
    (found : FdTable.lookup s.world.loop.fds fd = some (.pending slot)) (chunks : List (Ctx × List Byte))
    {rx more : List Byte} {qlines : List (List Byte)}
    (reading : readQuestion (s.world.pending slot).rxbuf (s.world.pending slot).qlines (chunks.map Prod.snd).flatten =
      .complete rx qlines more)
    (accepted : acceptQuestion s.world { s.world.pending slot with qlines := qlines } = some i) :
    let after := Machine.run System.step s (chunkEvents fd chunks)
    let behind := behindQuestion (s.world.pending slot).rxbuf (s.world.pending slot).qlines (chunks.map Prod.snd)
    (after.1.world.links i).untimed = recordBehind fd s.world.loop.nextTimer qlines behind (s.world.links i) ∧
      after.2.filterMap Out.trCall = downCalls s.world i ++ .linkUp i :: callsBehind i behind ∧
      ∃ chunk ∈ chunks, after.2.filterMap Out.answer =
        List.replicate (behind.1.count 0x0A + 1) (i, s.world.cfg.answerAt chunk.1) := by
  -- every chunk before the end of the Question only fills the slot
  induction chunks generalizing s with
  | nil => simp [readQuestion] at reading
  | cons chunk rest ih =>
    obtain ⟨c, bytes⟩ := chunk
    have split := readQuestion_append (s.world.pending slot).rxbuf (s.world.pending slot).qlines bytes
      (rest.map Prod.snd).flatten
    have next : Wf { orphans := True } (s.step (c, .readable fd (.recv (.data bytes)))).1.world := wf_step wf _ (by simp)
    simp only [List.map_cons, List.flatten_cons] at reading
    cases here : readQuestion (s.world.pending slot).rxbuf (s.world.pending slot).qlines bytes with
    | collecting rx' qlines' =>
      have short := (wf.slots slot (by simp)).asking (wf.slot_of_read nonneg found)
      have step := step_gathered c nonneg found short here
      have run : Machine.run System.step s (chunkEvents fd ((c, bytes) :: rest)) =
          Machine.run System.step (s.gathered slot rx' qlines') (chunkEvents fd rest) := by
        simp only [chunkEvents, List.map_cons, Machine.run_cons, step, List.nil_append]
      have behind : behindQuestion (s.world.pending slot).rxbuf (s.world.pending slot).qlines
          (((c, bytes) :: rest).map Prod.snd) = behindQuestion rx' qlines' (rest.map Prod.snd) := by
        simp only [List.map_cons, behindQuestion, here]
      rw [step] at next
      simp only [here, reading] at split
      have reading' : readQuestion ((s.gathered slot rx' qlines').world.pending slot).rxbuf
          ((s.gathered slot rx' qlines').world.pending slot).qlines (rest.map Prod.snd).flatten = .complete rx qlines more := by
        simp only [gathered, setPending_self]
        exact split.symm
      have accepted' : acceptQuestion (s.gathered slot rx' qlines').world
          { (s.gathered slot rx' qlines').world.pending slot with qlines := qlines } = some i := by
        simp only [gathered, setPending_self]
        exact (acceptQuestion_congr rfl rfl rfl rfl).trans accepted
      have later := ih next found reading' accepted'
      simp only [gathered, setPending_self] at later
      obtain ⟨record, calls, chunk, member, answers⟩ := later
      rw [run, behind]
      exact ⟨record, calls, chunk, List.mem_cons_of_mem _ member, answers⟩
    | complete rx' qlines' tail =>
      simp only [here, reading, Reading.complete.injEq] at split
      obtain ⟨-, rfl, -⟩ := split
      obtain ⟨v, opened, core, calls, answers⟩ := step_opened c wf nonneg found here accepted
      have behind : behindQuestion (s.world.pending slot).rxbuf (s.world.pending slot).qlines
          (((c, bytes) :: rest).map Prod.snd) = (tail, (rest.map Prod.snd).flatten) := by
        simp only [List.map_cons, behindQuestion, here]
      have owns := slot_owns wf nonneg found
      have mine : (s.world.pending slot).fd = fd := by
        have inside := wf.slot_inside_of_inUse (wf.slot_of_read nonneg found)
        rw [Wf.pending_owns inside (wf.slot_of_read nonneg found)] at owns
        simpa using owns
      have links := links_of_core core
      have record := opened.record
      rw [← links, show s.world.unlogged.pending = s.world.pending from rfl, mine] at record
      rw [opened.calls] at calls
      rw [opened.answers] at answers
      have inside : i < (s.step (c, .readable fd (.recv (.data bytes)))).1.world.cfg.nLink := by
        rw [cfg_of_core core, opened.works.cfg]
        exact (Wf.accepted_inbound accepted).1
      rw [behind]
      simp only [chunkEvents, List.map_cons, Machine.run_cons, List.filterMap_append, calls, answers]
      have held : HeldBy (some i) (s.step (c, .readable fd (.recv (.data bytes)))).1.world fd := by
        have released := HeldBy.released (wf_unlogged wf) owns opened.works opened.free
        exact fun h watch owns => released h watch (own_of_core core ▸ owns)
      obtain ⟨record', calls', answers'⟩ := behind_run next nonneg inside record held rest
      refine ⟨record', ?_, (c, bytes), List.mem_cons_self, ?_⟩
      · rw [← chunkEvents, calls']
        simp only [callsBehind, unlogged_out, List.filterMap_nil, List.nil_append, List.append_assoc, List.singleton_append]
        rfl
      · rw [← chunkEvents, answers', List.append_nil]
        rfl

end System

/-! ## Two ways of cutting -/

/-- As many newlines in the rest of the chunk and, without any, the same signals and the same unfinished line in
the later chunks. -/
def AgreeBehind (i : Nat) (x y : List Byte × List Byte) : Prop :=
  x.1.count 0x0A = y.1.count 0x0A ∧ (x.1.count 0x0A = 0 →
    (cut rxbufCap [] x.2).1.filterMap (signalOf i) = (cut rxbufCap [] y.2).1.filterMap (signalOf i) ∧
      (cut rxbufCap [] x.2).2 = (cut rxbufCap [] y.2).2)

instance (i : Nat) (x y : List Byte × List Byte) : Decidable (AgreeBehind i x y) :=
  inferInstanceAs (Decidable (_ ∧ (_ → _)))

theorem signalOf_ne_linkUp {i : Nat} {line : List Byte} {call : TrCall} (signal : signalOf i line = some call) (j : Nat) :
    call ≠ .linkUp j := by
  unfold signalOf at signal
  split at signal
  · obtain ⟨f, -, rfl⟩ := Option.map_eq_some_iff.mp signal
    simp
  · split at signal
    · obtain ⟨f, -, rfl⟩ := Option.map_eq_some_iff.mp signal
      simp
    · cases signal

/-- The link comes UP again at every newline in the rest of the chunk. -/
theorem count_callsBehind (i : Nat) (behind : List Byte × List Byte) :
    (callsBehind i behind).count (.linkUp i) = behind.1.count 0x0A := by
  have signals : ((cut rxbufCap [] behind.2).1.filterMap (signalOf i)).count (.linkUp i) = 0 := by
    refine List.count_eq_zero.mpr fun member => ?_
    obtain ⟨line, -, signal⟩ := List.mem_filterMap.mp member
    exact signalOf_ne_linkUp signal i rfl
  have turns : ∀ k, (List.replicate k [TrCall.linkDown i, TrCall.linkUp i]).flatten.count (.linkUp i) = k := by
    intro k
    simp [List.count_flatten]
  rw [callsBehind, List.count_append, turns]
  split
  · rw [signals, Nat.add_zero]
  · rw [List.count_nil, Nat.add_zero]

/-- The same records, up to the times the links were last heard, and the same calls of the translator. -/
def SameOutcome (a b : System × List Out) : Prop :=
  (∀ i, (a.1.world.links i).untimed = (b.1.world.links i).untimed) ∧
    a.2.filterMap Out.trCall = b.2.filterMap Out.trCall

theorem agreeBehind_iff (fd : Int) (timer i : Nat) (qlines : List (List Byte)) (x y : List Byte × List Byte) (lk : CcLink) :
    recordBehind fd timer qlines x lk = recordBehind fd timer qlines y lk ∧ callsBehind i x = callsBehind i y ↔
      AgreeBehind i x y := by
  constructor
  · rintro ⟨record, calls⟩
    have turns : x.1.count 0x0A = y.1.count 0x0A := by
      rw [← count_callsBehind i x, calls, count_callsBehind]
    refine ⟨turns, fun quiet => ?_⟩
    have quiet' := turns.symm.trans quiet
    simp only [callsBehind, quiet, quiet', if_true, List.replicate_zero, List.flatten_nil, List.nil_append] at calls
    have buffered := congrArg CcLink.rxbuf record
    simp only [recordBehind, quiet, quiet', if_true] at buffered
    exact ⟨calls, buffered⟩
  · rintro ⟨turns, later⟩
    by_cases quiet : x.1.count 0x0A = 0
    · obtain ⟨signals, buffered⟩ := later quiet
      simp only [recordBehind, callsBehind, ← turns, quiet, if_true, signals, buffered, and_self]
    · simp only [recordBehind, callsBehind, ← turns, quiet, if_false, and_self]

/-- A Question with a B-on behind it. -/
def questionAndBon : List Byte := shortQuestion ++ buildBon 7 1 1 2 0 9 0x47

end Cc2obp
