import Cc2obp.Cccc.OneLink
import Cc2obp.System.Moments

/-!
# Connections and the other links

No two links hold one sync source, and what comes in on a connection whose
Question is not complete yet concerns no link but the one the Question is
accepted for.
-/
namespace Cc2obp

open World Lines

/-! ## Calls of one link -/

theorem Writes.link {w : World} {t : TrOut} {o : Out} (writes : Writes w t o) : o.link = some t.link := by
  cases writes <;> rfl

theorem perform_userCtr (w : World) (t : TrOut) {k : Nat} (other : t.link ≠ k) :
    (w.perform t).userCtr k = w.userCtr k := by
  cases t with
  | ccccSendBon link radioId peerId srcLid tgid callType =>
    simp only [World.perform, ccccSendBon]
    split
    · rfl
    · exact Function.update_of_ne (Ne.symm other) _ _
  | ccccSendBoff link lost total rssi =>
    simp only [World.perform, ccccSendBoff]
    split <;> rfl
  | ccccSendVoice link seq timestamp marker ambe21 =>
    simp only [World.perform, ccccSendVoice]
    split <;> rfl
  | obpSendDmrd link peer body =>
    simp only [World.perform, obpSendDmrd]
    split <;> rfl

theorem performAll_userCtr (w : World) (outs : List TrOut) {k : Nat} (other : ∀ t ∈ outs, t.link ≠ k) :
    (outs.foldl World.perform w).userCtr k = w.userCtr k := by
  induction outs generalizing w with
  | nil => rfl
  | cons t rest ih =>
    rw [List.foldl_cons, ih _ fun t' member => other t' (by simp [member])]
    exact perform_userCtr w t (other t (by simp))

theorem addressee_event {cfg : Config} {call : TrCall} {i : Nat} (mine : call.link = some i) (rand : Bytes 4) :
    addressee cfg (call.event rand) = some i := by
  cases call with
  | dmrd => cases mine
  | _ => exact mine

namespace System

/-- One system comes from another by work for the link `m`, or for none, that put out the log. -/
structure ServesOnly (m : Option Nat) (s s' : System) (log : List Out) : Prop where
  records : ∀ k, m ≠ some k → s'.world.links k = s.world.links k
  users : ∀ k, m ≠ some k → s'.world.userCtr k = s.world.userCtr k
  calls : ∀ k, m ≠ some k → s'.tr.link k = s.tr.link k
  outs : ∀ o ∈ log, ∃ i, m = some i ∧ o.link = some i

variable {m : Option Nat} {s s' s'' : System} {log log' : List Out}

theorem ServesOnly.refl (s : System) : ServesOnly m s s [] :=
  ⟨fun _ _ => rfl, fun _ _ => rfl, fun _ _ => rfl, by simp⟩

theorem ServesOnly.trans (first : ServesOnly m s s' log) (second : ServesOnly m s' s'' log') :
    ServesOnly m s s'' (log ++ log') := by
  constructor
  case records => exact fun k other => (second.records k other).trans (first.records k other)
  case users => exact fun k other => (second.users k other).trans (first.users k other)
  case calls => exact fun k other => (second.calls k other).trans (first.calls k other)
  case outs =>
    intro o member
    rcases List.mem_append.mp member with early | late
    · exact first.outs o early
    · exact second.outs o late

/-- Work for no link puts out nothing. -/
theorem ServesOnly.silent (serves : ServesOnly none s s' log) : log = [] := by
  refine List.eq_nil_iff_forall_not_mem.mpr fun o member => ?_
  obtain ⟨i, impossible, -⟩ := serves.outs o member
  cases impossible

/-- A call about a link changes that link's call and makes the modules write for that link. -/
theorem translate_serves (c : Ctx) {call : TrCall} {i : Nat} (mine : call.link = some i) (rand : Bytes 4) (s : System) :
    ServesOnly (some i) s (s.translate c (call.event rand))
      (s.world.messages (translatorStep (s.world.env c.now) (call.event rand) s.tr).2) := by
  have own := translatorStep_local (s.world.env c.now) (call.event rand) i (addressee_event mine rand)
  constructor
  case records =>
    intro k _
    rw [links_of_core (core_translate c (call.event rand) s)]
  case users =>
    intro k other
    refine performAll_userCtr s.world _ fun t member => ?_
    rw [own.outs s.tr t member]
    exact fun same => other (by rw [same])
  case calls => exact fun k other => own.other s.tr k fun same => other (by rw [same])
  case outs =>
    intro o member
    obtain ⟨t, sent, writes⟩ := mem_messages s.world member
    exact ⟨i, rfl, by rw [writes.link, own.outs s.tr t sent]⟩

/-- A recorded item of a link in its place. -/
theorem replay_serves (c : Ctx) (s : System) {item : Out × Nat} {i : Nat} (mine : item.1.link = some i) :
    ∃ log, (s.replay c item).world.out = s.world.out ++ log ∧ ServesOnly (some i) s (s.replay c item) log := by
  obtain ⟨o, k⟩ := item
  have recorded : ServesOnly (some i) s { s with world := s.world.emit o } [o] :=
    ⟨fun _ _ => rfl, fun _ _ => rfl, fun _ _ => rfl, by simpa using mine⟩
  cases o with
  | call call =>
    refine ⟨_, ?_, recorded.trans (translate_serves c mine (c.rand k) _)⟩
    have out := translate_out c (call.event (c.rand k)) { s with world := s.world.emit (.call call) }
    rw [← List.append_assoc]
    exact out
  | tcp => exact ⟨_, rfl, recorded⟩
  | udp => exact ⟨_, rfl, recorded⟩

theorem replayAll_serves (c : Ctx) (items : List (Out × Nat)) (s : System)
    (mine : ∀ item ∈ items, ∃ i, m = some i ∧ item.1.link = some i) :
    ∃ log, (items.foldl (replay c) s).world.out = s.world.out ++ log ∧
      ServesOnly m s (items.foldl (replay c) s) log := by
  induction items generalizing s with
  | nil => exact ⟨[], by simp, .refl s⟩
  | cons item rest ih =>
    obtain ⟨i, rfl, here⟩ := mine item (by simp)
    obtain ⟨first, out, serves⟩ := replay_serves c s here
    obtain ⟨later, out', serves'⟩ := ih (s.replay c item) fun item' member => mine item' (by simp [member])
    exact ⟨first ++ later, by rw [List.foldl_cons, out', out, List.append_assoc], serves.trans serves'⟩

/-- A callback that works for one link, with its calls into the translator. -/
theorem callback_serves (c : Ctx) {f : World → World} {slot : Nat}
    (works : WorksFor m slot s.world.unlogged (f s.world.unlogged)) :
    ∃ log, (s.callback c f).world.out = s.world.out ++ log ∧ ServesOnly m s (s.callback c f) log := by
  obtain ⟨os, out, mine⟩ := works.outs
  have items : ∀ item ∈ (f s.world.unlogged).out.zipIdx, ∃ i, m = some i ∧ item.1.link = some i := by
    intro item member
    refine mine item.1 ?_
    have inside := List.fst_mem_of_mem_zipIdx member
    rwa [out, unlogged_out, List.nil_append] at inside
  have worked : ServesOnly m s { s with world := { f s.world.unlogged with out := s.world.out } } [] := by
    refine ⟨works.links, fun k _ => ?_, fun _ _ => rfl, by simp⟩
    exact congrFun works.userCtr k
  obtain ⟨log, out', serves⟩ := replayAll_serves c (f s.world.unlogged).out.zipIdx _ items
  exact ⟨log, out', worked.trans serves⟩

/-! ## A connection -/

/-- The descriptor is the link's, if it is anybody's. -/
def HeldBy (m : Option Nat) (w : World) (fd : Int) : Prop :=
  ∀ h watch, w.own h = some (fd, watch) → ∃ i, m = some i ∧ h = .link i

/-- An event whose callback works for one link. -/
theorem step_serves (c : Ctx) {fd : Int} {input : FdInput} {slot : Nat}
    (works : WorksFor m slot s.world.unlogged (World.readable c fd input s.world.unlogged)) :
    ServesOnly m s (s.step (c, .readable fd input)).1 (s.step (c, .readable fd input)).2 := by
  obtain ⟨log, out, serves⟩ := callback_serves (s := s.cleared) c works
  have all : (s.step (c, .readable fd input)).2 = log := out
  rw [all]
  exact ⟨serves.records, serves.users, serves.calls, serves.outs⟩

/-- What is read on a descriptor of the link, or of nobody. -/
theorem readable_held (c : Ctx) {ph : Phase} {w : World} (wf : Wf ph w) {fd : Int} (held : HeldBy m w fd)
    (bytes : List Byte) (slot : Nat) : WorksFor m slot w (World.readable c fd (.recv (.data bytes)) w) := by
  unfold World.readable
  split
  · exact .refl w
  next nonneg =>
    have nonneg : 0 ≤ fd := not_lt.mp nonneg
    cases found : FdTable.lookup w.loop.fds fd with
    | none => exact .refl w
    | some cb =>
      obtain ⟨h, owns⟩ := wf.owner_of_read nonneg found
      obtain ⟨i, rfl, rfl⟩ := held h _ owns
      rcases Wf.own_cases owns with ⟨t, other, -⟩ | ⟨j, same, -, -, -, watched⟩ | other
      · cases other
      · obtain rfl : i = j := by simpa using same
        obtain rfl : cb = .link i := by simpa using watched
        exact .linkFed c i bytes w
      · -- no bytes are read on a shared socket
        simp only [Watch.read.injEq] at other
        rcases other with rfl | rfl | rfl | ⟨peer, rfl⟩ <;> exact .refl w

theorem HeldBy.kept {w w' : World} {fd : Int} (held : HeldBy m w fd) (works : ∀ slot, WorksFor m slot w w') :
    HeldBy m w' fd := by
  intro h watch owns
  by_cases mine : ∃ i, m = some i ∧ h = .link i
  · exact mine
  · have notLink : ∀ i, m = some i → h ≠ .link i := fun i same link => mine ⟨i, same, link⟩
    -- the work is on no slot: one other than the holder's own will do
    obtain ⟨slot, notSlot⟩ : ∃ slot, h ≠ .pending slot := by
      cases h with
      | pending t => exact ⟨t + 1, by simp⟩
      | _ => exact ⟨0, by simp⟩
    exact held h watch (((works slot).own notSlot notLink).symm.trans owns)

/-- The descriptor of a slot that has been freed by work for the link. -/
theorem HeldBy.released {ph : Phase} {w w' : World} (wf : Wf ph w) {slot : Nat} {fd : Int} {watch : Watch FdCb}
    (owns : w.own (.pending slot) = some (fd, watch)) (works : WorksFor m slot w w')
    (free : (w'.pending slot).inUse = false) : HeldBy m w' fd := by
  intro h watch' owns'
  by_cases mine : ∃ i, m = some i ∧ h = .link i
  · exact mine
  · have notLink : ∀ i, m = some i → h ≠ .link i := fun i same link => mine ⟨i, same, link⟩
    have notSlot : h ≠ .pending slot := by
      rintro rfl
      simp [World.own, pendingOwn, free] at owns'
    rw [works.own notSlot notLink] at owns'
    exact absurd (wf.owned.apart _ _ _ _ _ owns' owns) notSlot

/-- The chunks of a connection, as events. -/
def chunkEvents (fd : Int) (chunks : List (Ctx × List Byte)) : List (Ctx × Event) :=
  chunks.map fun chunk => (chunk.1, .readable fd (.recv (.data chunk.2)))

/-- Chunks on a descriptor of the link, or of nobody. -/
theorem held_run {fd : Int} (wf : Wf { orphans := True } s.world) (held : HeldBy m s.world fd)
    (chunks : List (Ctx × List Byte)) :
    let after := Machine.run System.step s (chunkEvents fd chunks)
    ServesOnly m s after.1 after.2 := by
  induction chunks generalizing s with
  | nil => exact .refl s
  | cons chunk rest ih =>
    have works := readable_held chunk.1 (wf_unlogged wf) held chunk.2
    have first := step_serves chunk.1 (works 0)
    have held' : HeldBy m (s.step (chunk.1, .readable fd (.recv (.data chunk.2)))).1.world fd := by
      have own := own_of_core (core_callback chunk.1 (World.readable chunk.1 fd (.recv (.data chunk.2))) s.cleared)
      have before : HeldBy m s.world.unlogged fd := held
      exact fun h watch owns => before.kept works h watch (own ▸ owns)
    exact first.trans (ih (wf_step wf _ (by simp)) held')

theorem readable_pending (c : Ctx) {w : World} {slot : Nat} {fd : Int} (nonneg : 0 ≤ fd)
    (found : FdTable.lookup w.loop.fds fd = some (.pending slot)) (bytes : List Byte) :
    World.readable c fd (.recv (.data bytes)) w = feedBytes (pendingBuffer slot) rxbufCap (pendingOnLine c slot) bytes w := by
  unfold World.readable
  rw [if_neg (not_lt.mpr nonneg), found]
  rfl

/-- A chunk in which the Question does not end only fills the slot. -/
def gathered (slot : Nat) (rx : List Byte) (qlines : List (List Byte)) (s : System) : System :=
  { s with world := s.world.unlogged.setPending slot { s.world.pending slot with rxbuf := rx, qlines := qlines } }

theorem step_gathered (c : Ctx) {slot : Nat} {fd : Int} (nonneg : 0 ≤ fd)
    (found : FdTable.lookup s.world.loop.fds fd = some (.pending slot))
    (short : (s.world.pending slot).qlines.length < ccccQuestionNfields) {bytes rx : List Byte} {qlines : List (List Byte)}
    (reading : readQuestion (s.world.pending slot).rxbuf (s.world.pending slot).qlines bytes = .collecting rx qlines) :
    s.step (c, .readable fd (.recv (.data bytes))) = (s.gathered slot rx qlines, []) := by
  have fed := pendingFed (w := s.world.unlogged) (s := slot) c bytes short
  have reading' : readQuestion (s.world.unlogged.pending slot).rxbuf (s.world.unlogged.pending slot).qlines bytes =
      .collecting rx qlines := reading
  simp only [reading'] at fed
  have reads := (readable_pending c (w := s.world.unlogged) nonneg found bytes).trans fed
  have called : s.cleared.callback c (World.readable c fd (.recv (.data bytes))) = s.gathered slot rx qlines := by
    unfold callback
    rw [show s.cleared.world.unlogged = s.world.unlogged from rfl, reads]
    rfl
  show ((s.cleared.callback c _).cleared, (s.cleared.callback c _).world.out) = _
  rw [called]
  rfl

/-- The rest of the connection's bytes finds the same Question. -/
theorem acceptedFor_gathered {slot : Nat} {bytes more rx : List Byte} {qlines : List (List Byte)}
    (reading : readQuestion (s.world.pending slot).rxbuf (s.world.pending slot).qlines bytes = .collecting rx qlines) :
    acceptedFor (s.gathered slot rx qlines).world slot more = acceptedFor s.world slot (bytes ++ more) := by
  have split := readQuestion_append (s.world.pending slot).rxbuf (s.world.pending slot).qlines bytes more
  simp only [reading] at split
  simp only [acceptedFor, split, gathered, setPending_self]
  cases readQuestion rx qlines more with
  | collecting => rfl
  | complete => exact acceptQuestion_congr rfl rfl rfl rfl

/-- The slot of a connection owns its descriptor. -/
theorem slot_owns {ph : Phase} {w : World} (wf : Wf ph w) {slot : Nat} {fd : Int} (nonneg : 0 ≤ fd)
    (found : FdTable.lookup w.loop.fds fd = some (.pending slot)) :
    w.own (.pending slot) = some (fd, .read (.pending slot)) := by
  obtain ⟨h, owns⟩ := wf.owner_of_read nonneg found
  rcases Wf.own_cases owns with ⟨t, rfl, same, -⟩ | ⟨j, -, -, -, -, other⟩ | other
  · obtain rfl : slot = t := by simpa using same
    exact owns
  · simp at other
  · simp at other

/-- Chunks on a connection whose Question is not complete yet. -/
theorem pending_run {slot : Nat} {fd : Int} (wf : Wf { orphans := True } s.world) (nonneg : 0 ≤ fd)
    (found : FdTable.lookup s.world.loop.fds fd = some (.pending slot)) (chunks : List (Ctx × List Byte)) :
    let after := Machine.run System.step s (chunkEvents fd chunks)
    ServesOnly (acceptedFor s.world slot (chunks.map Prod.snd).flatten) s after.1 after.2 := by
  induction chunks generalizing s with
  | nil => exact .refl s
  | cons chunk rest ih =>
    obtain ⟨c, bytes⟩ := chunk
    have short := (wf.slots slot (by simp)).asking (wf.slot_of_read nonneg found)
    have next : Wf { orphans := True } (s.step (c, .readable fd (.recv (.data bytes)))).1.world := wf_step wf _ (by simp)
    cases reading : readQuestion (s.world.pending slot).rxbuf (s.world.pending slot).qlines bytes with
    | collecting rx qlines =>
      have step := step_gathered c nonneg found short reading
      have run : Machine.run System.step s (chunkEvents fd ((c, bytes) :: rest)) =
          Machine.run System.step (s.gathered slot rx qlines) (chunkEvents fd rest) := by
        simp only [chunkEvents, List.map_cons, Machine.run_cons, step, List.nil_append]
      rw [step] at next
      have later := ih next found
      rw [acceptedFor_gathered reading] at later
      have first : ServesOnly (acceptedFor s.world slot (bytes ++ (rest.map Prod.snd).flatten)) s
          (s.gathered slot rx qlines) [] := ⟨fun _ _ => rfl, fun _ _ => rfl, fun _ _ => rfl, by simp⟩
      rw [run]
      exact first.trans later
    | complete rx qlines behind =>
      have fed := pendingFed (w := s.world.unlogged) (s := slot) c bytes short
      have reading' : readQuestion (s.world.unlogged.pending slot).rxbuf (s.world.unlogged.pending slot).qlines bytes =
          .complete rx qlines behind := reading
      simp only [reading'] at fed
      rw [← readable_pending c (w := s.world.unlogged) nonneg found bytes] at fed
      -- the later chunks do not change whom the Question is accepted for
      have same : acceptedFor s.world slot (bytes ++ (rest.map Prod.snd).flatten) =
          acceptedFor s.world.unlogged slot bytes := by
        have split := readQuestion_append (s.world.pending slot).rxbuf (s.world.pending slot).qlines bytes
          (rest.map Prod.snd).flatten
        simp only [reading] at split
        simp only [acceptedFor, split, reading']
        exact acceptQuestion_congr rfl rfl rfl rfl
      have held : HeldBy (acceptedFor s.world.unlogged slot bytes)
          (s.step (c, .readable fd (.recv (.data bytes)))).1.world fd := by
        have released := HeldBy.released (wf_unlogged wf) (slot_owns wf nonneg found) fed.works fed.free
        have core := own_of_core (core_callback c (World.readable c fd (.recv (.data bytes))) s.cleared)
        exact fun h watch owns => released h watch (core ▸ owns)
      rw [List.map_cons, List.flatten_cons, same]
      exact (step_serves c fed.works).trans (held_run next held rest)

end System

/-- In every reachable state no two links hold one sync source, and the bytes that follow on a connection whose
Question is not complete, in any chunks, concern only the enabled inbound link that matches the Question, and no
link if none matches or another one holds the sync source. -/
theorem sync_sources_apart (c : Ctx) (cfg : Config) (accepted : cfg.Accepted) (es : List (Ctx × System.Event)) :
    let s := (Machine.run System.step (System.start c cfg) es).1
    (∀ i j, i ≠ j → (s.world.links i).hasSyncSource = true → (s.world.links j).hasSyncSource = true →
      (s.world.links i).syncSource ≠ (s.world.links j).syncSource) ∧
    ∀ slot fd, 0 ≤ fd → FdTable.lookup s.world.loop.fds fd = some (.pending slot) → ∀ chunks : List (Ctx × List Byte),
      let p := s.world.pending slot
      let bytes := (chunks.map Prod.snd).flatten
      let after := Machine.run System.step s (System.chunkEvents fd chunks)
      System.ServesOnly (acceptedFor s.world slot bytes) s after.1 after.2 ∧
      ∀ rx qlines behind, readQuestion p.rxbuf p.qlines bytes = .complete rx qlines behind →
        (∀ i, acceptedFor s.world slot bytes = some i → MatchesQuestion s.world.cfg p.srcIp qlines i) ∧
        ((matchInbound s.world.cfg p.srcIp (questionLid qlines) = none ∨
          ∃ i j, matchInbound s.world.cfg p.srcIp (questionLid qlines) = some i ∧
            findLinkBySsrc s.world (questionSsrc qlines) = some j ∧ j ≠ i) →
          acceptedFor s.world slot bytes = none) := by
  intro s
  have wf : Wf { orphans := True } s.world := System.wf_run c cfg accepted True es (by simp)
  refine ⟨fun i j apart has has' same => apart (wf.sources i j has has' same), ?_⟩
  intro slot fd nonneg found chunks p bytes after
  refine ⟨System.pending_run wf nonneg found chunks, fun rx qlines behind reading => ?_⟩
  have question : acceptedFor s.world slot bytes = acceptQuestion s.world { p with qlines := qlines } := by
    simp only [acceptedFor]
    rw [reading]
  rw [question]
  have refused := @refused_of_collision s.world { p with qlines := qlines }
  exact ⟨fun i taken => matches_of_matchInbound (Wf.accepted_match taken), refused⟩

/-- One inbound link whose other end has connected; the Question is cut behind its third byte. -/
theorem sync_sources_apart_inbound :
    let s := (Machine.run System.step (System.start { now := 0 } inboundCfg) ((connectAndSend shortQuestion).take 1)).1
    let after := Machine.run System.step s
      (System.chunkEvents 6 [({ now := 1 }, shortQuestion.take 3), ({ now := 2 }, shortQuestion.drop 3)])
    acceptedFor s.world 0 shortQuestion = some 0 ∧ System.ServesOnly (some 0) s after.1 after.2 := by
  have whole := (sync_sources_apart { now := 0 } inboundCfg (by decide) ((connectAndSend shortQuestion).take 1)).2 0 6
    (by decide) (by decide +kernel) [({ now := 1 }, shortQuestion.take 3), ({ now := 2 }, shortQuestion.drop 3)]
  have here : acceptedFor (Machine.run System.step (System.start { now := 0 } inboundCfg)
      ((connectAndSend shortQuestion).take 1)).1.world 0 shortQuestion = some 0 := by decide +kernel
  refine ⟨here, ?_⟩
  rw [← here]
  exact whole.1

end Cc2obp
