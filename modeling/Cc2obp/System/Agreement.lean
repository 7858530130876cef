import Cc2obp.Cccc.Handshake
import Cc2obp.Config.Reload
import Cc2obp.System.Chunking
import Cc2obp.System.Connecting
import Cc2obp.System.Outbound

/-!
# Two ends agree

A connecting link writes its Question, the other end answers it on the link it
names, and the Answer takes the first link UP: both hold the sync source that
was drawn for the Question, however TCP cuts the bytes.
-/
namespace Cc2obp

open World Lines

/-! ## The Question is written -/

namespace System

variable {s : System}

/-- When its descriptor is ready, a connecting link writes its Question and waits for the Answer. -/
theorem step_asks (c : Ctx) {j : Nat} (wf : Wf { orphans := True } s.world) (inside : j < s.world.cfg.nLink)
    (connecting : (s.world.links j).state = .connecting) {ssrc : BitVec 32}
    (minted : mintSyncSource s.world c.draws = some ssrc) :
    let fd := (s.world.links j).fd
    let after := s.step (c, .writable fd true)
    after.2 = [.tcp j fd .question (s.world.cfg.questionAt j ssrc)] ∧
      after.1.world.links j = (s.world.links j).asking ssrc ∧
      0 ≤ fd ∧ FdTable.lookup after.1.world.loop.fds fd = some (.link j) := by
  intro fd after
  have owns : linkOwn j (s.world.links j) = some (fd, .write (.connect j)) := by simp [linkOwn, connecting, fd]
  obtain ⟨⟨nonneg, -⟩, -, writes⟩ := wf.registered inside owns
  have registered : FdTable.lookup s.world.unlogged.loop.wfds fd = some (.connect j) := (writes _).mpr rfl
  obtain ⟨w, asked⟩ : ∃ w, World.writable c fd true s.world.unlogged = w := ⟨_, rfl⟩
  have connected : w = onConnectWritable c j fd true s.world.unlogged := by
    rw [← asked]
    simp only [World.writable, if_neg (not_lt.mpr nonneg), registered]
  obtain ⟨links, out⟩ := onConnectWritable_asks (c := c) (w := s.world.unlogged) (j := j) fd minted
  rw [← connected] at links out
  have core := core_callback c (World.writable c fd true) s.cleared
  -- writing calls nobody, so the write is all there is
  have called : (s.cleared.callback c (World.writable c fd true)).world.out = w.out := by
    unfold callback
    rw [show s.cleared.world.unlogged = s.world.unlogged from rfl, asked]
    simp only [out, unlogged_out, List.nil_append, List.zipIdx_singleton, List.foldl_cons, List.foldl_nil, replay]
    rfl
  rw [show s.cleared.world.unlogged = s.world.unlogged from rfl, asked] at core
  have record : after.1.world.links j = (s.world.links j).asking ssrc := by
    exact (congrFun (links_of_core core) j).trans links
  refine ⟨called.trans out, record, nonneg, ?_⟩
  have next : Wf { orphans := True } after.1.world := wf_step wf _ (by simp)
  apply next.lookup_of_own (h := .link j)
  have inside' : j < after.1.world.cfg.nLink := by
    rw [show after.1.world.cfg = s.world.cfg from step_cfg wf c (.writable fd true)]
    exact inside
  simp [own_link after.1.world inside', linkOwn, record, CcLink.asking, fd]

/-! ## The Answer is read -/

/-- A link that waits for the rest of an Answer it can work with. -/
structure Answering (s : System) (j : Nat) (fd : Int) (ssrc : BitVec 32) (rest : List Byte) : Prop where
  state : (s.world.links j).state = .handshaking
  named : (s.world.links j).hasSyncSource = true
  source : (s.world.links j).syncSource = ssrc
  nonneg : 0 ≤ fd
  registered : FdTable.lookup s.world.loop.fds fd = some (.link j)
  count : (s.world.links j).hslines.length + rest.count 0x0A = ccccAnswerNfields
  last : rest.getLast? = some 0x0A
  agreed : Agreed ((s.world.links j).reads rest).hslines

theorem CcLink.reads_append (lk : CcLink) (data more : List Byte) : (lk.reads data).reads more = lk.reads (data ++ more) := by
  simp [CcLink.reads, cut_append]

theorem readable_link (c : Ctx) {w : World} {j : Nat} {fd : Int} (nonneg : 0 ≤ fd)
    (found : FdTable.lookup w.loop.fds fd = some (.link j)) (bytes : List Byte) :
    World.readable c fd (.recv (.data bytes)) w = feedBytes (linkBuffer j) rxbufCap (linkOnLine c j) bytes w := by
  unfold World.readable
  rw [if_neg (not_lt.mpr nonneg), found]
  rfl

section Answering
variable {j : Nat} {fd : Int} {ssrc : BitVec 32} {rest : List Byte}

/-- A chunk in which the Answer does not end. -/
theorem Answering.step (answering : s.Answering j fd ssrc rest) (c : Ctx) {bytes more : List Byte}
    (split : rest = bytes ++ more) (goes_on : more ≠ []) :
    (s.step (c, .readable fd (.recv (.data bytes)))).1.Answering j fd ssrc more := by
  subst split
  have last := answering.last
  rw [List.getLast?_append_of_ne_nil _ goes_on] at last
  have newline : 0 < more.count 0x0A := List.count_pos_iff.mpr (List.mem_of_getLast? last)
  have count := answering.count
  rw [List.count_append] at count
  have reads := readable_link c (w := s.world.unlogged) answering.nonneg answering.registered bytes
  rw [feedBytes_handshaking c j bytes s.world.unlogged answering.state (by simp only [unlogged_links]; omega)] at reads
  have core := core_callback c (World.readable c fd (.recv (.data bytes))) s.cleared
  rw [show s.cleared.world.unlogged = s.world.unlogged from rfl, reads] at core
  have record : (s.step (c, .readable fd (.recv (.data bytes)))).1.world.links j = (s.world.links j).reads bytes := by
    refine (congrFun (links_of_core core) j).trans ?_
    rw [links_setLink, unlogged_links]
  have loop : (s.cleared.callback c (World.readable c fd (.recv (.data bytes)))).world.loop = s.world.loop :=
    ((core_eq_iff _ _).mp core).2.1
  constructor
  case state => rw [record]; exact answering.state
  case named => rw [record]; exact answering.named
  case source => rw [record]; exact answering.source
  case nonneg => exact answering.nonneg
  case registered => exact (congrArg (fun l => FdTable.lookup l.fds fd) loop).trans answering.registered
  case count =>
    rw [record]
    simp only [CcLink.reads, List.length_append, List.length_map, length_cut]
    omega
  case last => exact last
  case agreed =>
    rw [record, CcLink.reads_append]
    exact answering.agreed

/-- The chunk in which the Answer ends. -/
theorem Answering.finish (answering : s.Answering j fd ssrc rest) (c : Ctx) :
    let after := (s.step (c, .readable fd (.recv (.data rest)))).1
    after.Receiving j fd [] ∧ (after.world.links j).hasSyncSource = true ∧ (after.world.links j).syncSource = ssrc := by
  intro after
  obtain ⟨front, ends⟩ := List.getLast?_eq_some_iff.mp answering.last
  have count := answering.count
  rw [ends, List.count_append] at count
  have agreed := answering.agreed
  rw [ends] at agreed
  have reads := readable_link c (w := s.world.unlogged) answering.nonneg answering.registered rest
  obtain ⟨links, -, fds⟩ := feedBytes_answered c j front s.world.unlogged answering.state count agreed
  rw [newline, ← ends, ← reads] at links fds
  have core := core_callback c (World.readable c fd (.recv (.data rest))) s.cleared
  have loop := ((core_eq_iff _ _).mp core).2.1
  have record : after.world.links j = (s.world.links j).opened c s.world.loop.nextTimer :=
    (congrFun (links_of_core core) j).trans links
  refine ⟨⟨?_, ?_, answering.nonneg, ?_⟩, ?_, ?_⟩
  · rw [record]
    rfl
  · rw [record]
    rfl
  · have same : after.world.loop.fds = s.world.loop.fds := (congrArg EvLoop.fds loop).trans fds
    rw [same]
    exact answering.registered
  · rw [record]
    exact answering.named
  · rw [record]
    exact answering.source

/-- However the Answer is cut, it takes the link UP. -/
theorem Answering.run (answering : s.Answering j fd ssrc rest) (chunks : List (Ctx × List Byte))
    (delivered : (chunks.map Prod.snd).flatten = rest) :
    let lk := (Machine.run System.step s (chunkEvents fd chunks)).1.world.links j
    lk.state = .up ∧ lk.hasSyncSource = true ∧ lk.syncSource = ssrc := by
  induction chunks generalizing s rest with
  | nil =>
    have last := answering.last
    rw [← delivered] at last
    cases last
  | cons chunk chunks ih =>
    rw [List.map_cons, List.flatten_cons] at delivered
    -- the Answer ends in this chunk exactly if nothing is left for the others
    by_cases ends : (chunks.map Prod.snd).flatten = []
    · rw [ends, List.append_nil] at delivered
      obtain ⟨receiving, named, source⟩ := answering.finish chunk.1
      rw [← delivered] at receiving named source
      have later := (receiving.run chunks).2
      simp only [ends] at later
      have record : (Machine.run System.step s (chunkEvents fd (chunk :: chunks))).1.world.links j =
          { (s.step (chunk.1, .readable fd (.recv (.data chunk.2)))).1.world.links j with rxbuf := (cut rxbufCap [] []).2 } := later
      intro lk
      rw [show lk = _ from record]
      exact ⟨receiving.up, named, source⟩
    · exact ih (answering.step chunk.1 delivered.symm ends) rfl

end Answering

end System

/-! ## The Question finds its link -/

/-- What is behind a Question: of the chunk in which it ends and of the later ones. -/
theorem behindQuestion_append {rx : List Byte} {qlines : List (List Byte)} (chunks : List (List Byte)) {rx' more : List Byte}
    {qlines' : List (List Byte)} (reading : readQuestion rx qlines chunks.flatten = .complete rx' qlines' more) :
    (behindQuestion rx qlines chunks).1 ++ (behindQuestion rx qlines chunks).2 = more := by
  induction chunks generalizing rx qlines with
  | nil => cases reading
  | cons bytes chunks ih =>
    have split := readQuestion_append rx qlines bytes chunks.flatten
    rw [List.flatten_cons] at reading
    rw [behindQuestion]
    cases here : readQuestion rx qlines bytes with
    | collecting rx₁ qlines₁ =>
      simp only [here, reading] at split
      exact ih split.symm
    | complete rx₁ qlines₁ tail =>
      simp only [here, reading, Reading.complete.injEq] at split
      exact split.2.2.symm

/-- In an accepted configuration no other inbound link has the address and the LID. -/
theorem matchInbound_of_matches {cfg : Config} {srcIp : List Byte} {qlines : List (List Byte)} {i : Nat}
    (inbound : cfg.link.Pairwise fun a b => a.ccRole = .inbound → b.ccRole = .inbound → a.ccRemoteIp = b.ccRemoteIp →
      a.ccLid ≠ b.ccLid)
    (named : MatchesQuestion cfg srcIp qlines i) : matchInbound cfg srcIp (questionLid qlines) = some i := by
  have inside : i < cfg.link.length := named.inside
  have here : cfg.linkAt i = cfg.link[i] := by simp [Config.linkAt, inside]
  obtain ⟨-, role, enabled, remote, lid⟩ := named
  rw [here] at role enabled remote lid
  refine List.findIdx?_eq_some_iff_getElem.mpr ⟨inside, by simp [role, enabled, remote, lid], fun k before => ?_⟩
  have apart := List.pairwise_iff_getElem.mp inbound k i (before.trans inside) inside before
  intro passes
  simp only [Bool.and_eq_true, beq_iff_eq] at passes
  obtain ⟨⟨⟨role', -⟩, remote'⟩, lid'⟩ := passes
  exact apart role' role (remote'.trans remote.symm) (lid'.trans lid.symm)

theorem inbound_apart {cfg cfg' : Config} (accepted : cfg.Accepted) (fixed : cfg'.fixed = cfg.fixed) :
    cfg'.link.Pairwise fun a b => a.ccRole = .inbound → b.ccRole = .inbound → a.ccRemoteIp = b.ccRemoteIp →
      a.ccLid ≠ b.ccLid := by
  obtain ⟨⟨-, -, -, -, -, -, -, inbound⟩, -⟩ := accepted_iff_fixed.mp accepted
  rw [← fixed, Config.fixed, List.pairwise_map] at inbound
  exact inbound

/-- Nobody but the link that is meant holds the sync source. -/
theorem accepts_of_matches {w : World} {p : PendingConn} {i : Nat} {ssrc : BitVec 32}
    (matched : matchInbound w.cfg p.srcIp (questionLid p.qlines) = some i) (source : questionSsrc p.qlines = ssrc)
    (free : ∀ k, k ≠ i → (w.links k).hasSyncSource = true → (w.links k).syncSource ≠ ssrc) :
    acceptQuestion w p = some i := by
  unfold acceptQuestion
  simp only [matched, source]
  cases found : findLinkBySsrc w ssrc with
  | none => rfl
  | some k =>
    have holds := List.find?_some found
    simp only [Bool.and_eq_true, beq_iff_eq] at holds
    have same : k = i := by
      by_contra other
      exact free k other holds.1 holds.2
    simp only [same, ne_eq, not_true, if_false]

theorem System.fixed_run (c : Ctx) (cfg : Config) (accepted : cfg.Accepted) (es : List (Ctx × System.Event)) :
    (Machine.run System.step (System.start c cfg) es).1.world.cfg.fixed = cfg.fixed := by
  have both : Wf { orphans := True } (Machine.run System.step (System.start c cfg) es).1.world ∧
      (Machine.run System.step (System.start c cfg) es).1.world.cfg.fixed = cfg.fixed := by
    refine Machine.run_state_invariant System.step
      (fun s => Wf { orphans := True } s.world ∧ s.world.cfg.fixed = cfg.fixed)
      (fun s e both (_ : True) => ⟨wf_step both.1 e (by simp), ?_⟩) _ es (Machine.meets_of_forall _ _ _ _ fun _ _ _ => trivial)
      ⟨System.wf_run c cfg accepted True [] (by simp), congrArg Config.fixed (Wf.start_cfg c cfg)⟩
    obtain ⟨wf, fixed⟩ := both
    rw [step_cfg wf e.1 e.2, reloads_fixed, fixed]
  exact both.2

/-! ## Agreement -/

/-- The texts an end is configured with. -/
structure Config.Texts (cfg : Config) : Prop where
  siteName : FieldText 128 cfg.ccSiteName
  macAddress : FieldText 32 cfg.ccMacAddress
  codeRevision : FieldText 32 cfg.ccCodeRevision
  version : FieldText 128 cfg.ccVersion
  osVersion : FieldText 128 cfg.ccOsVersion

/-- A link of one end that is connecting, and a fresh connection of the other end whose address and LID are those
of an enabled inbound link there. -/
structure Paired (a b : System) (j slot i : Nat) (fd : Int) : Prop where
  inside : j < a.world.cfg.nLink
  connecting : (a.world.links j).state = .connecting
  nonneg : 0 ≤ fd
  taken : FdTable.lookup b.world.loop.fds fd = some (.pending slot)
  unread : (b.world.pending slot).rxbuf = [] ∧ (b.world.pending slot).qlines = []
  inbound : (b.world.cfg.linkAt i).ccRole = .inbound
  enabled : (b.world.cfg.linkAt i).enabled = true
  address : (b.world.cfg.linkAt i).ccRemoteIp = (b.world.pending slot).srcIp
  lid : (b.world.cfg.linkAt i).ccLid = (a.world.cfg.linkAt j).ccLid

/-- The link is UP with the sync source. -/
structure UpWith (w : World) (i : Nat) (ssrc : BitVec 32) : Prop where
  up : (w.links i).state = .up
  named : (w.links i).hasSyncSource = true
  source : (w.links i).syncSource = ssrc

namespace System

variable {s : System}

/-- Where a Question that was built is accepted, in any chunks, it is answered once. -/
theorem question_run {slot i : Nat} {fd : Int} (wf : Wf { orphans := True } s.world) (nonneg : 0 ≤ fd)
    (found : FdTable.lookup s.world.loop.fds fd = some (.pending slot)) {rx question : List Byte} {qlines : List (List Byte)}
    (reading : readQuestion (s.world.pending slot).rxbuf (s.world.pending slot).qlines question = .complete rx qlines [])
    (accepted : acceptQuestion s.world { s.world.pending slot with qlines := qlines } = some i)
    (chunks : List (Ctx × List Byte)) (delivered : (chunks.map Prod.snd).flatten = question) :
    let after := Machine.run System.step s (chunkEvents fd chunks)
    ServesOnly (some i) s after.1 after.2 ∧ UpWith after.1.world i (questionSsrc qlines) ∧
      ∃ chunk ∈ chunks, after.2.filterMap Out.answer = [(i, s.world.cfg.answerAt chunk.1)] := by
  intro after
  subst delivered
  have behind := List.append_eq_nil_iff.mp (behindQuestion_append (chunks.map Prod.snd) reading)
  obtain ⟨record, -, chunk, member, answers⟩ := accepted_run wf nonneg found chunks reading accepted
  have quiet : (behindQuestion (s.world.pending slot).rxbuf (s.world.pending slot).qlines (chunks.map Prod.snd)).1.count 0x0A = 0 := by
    rw [behind.1, List.count_nil]
  have whole : acceptedFor s.world slot (chunks.map Prod.snd).flatten = some i := by
    simp only [acceptedFor, reading]
    exact accepted
  have serves := pending_run wf nonneg found chunks
  rw [whole] at serves
  refine ⟨serves, ⟨congrArg CcLink.state record, congrArg CcLink.hasSyncSource record, congrArg CcLink.syncSource record⟩,
    chunk, member, ?_⟩
  rw [answers, quiet]
  rfl

end System

/-- An end whose link is connecting writes a Question that fits its buffer; delivered in any chunks to an end with an
enabled inbound link for it, and no other link with its sync source, it takes exactly that link UP and is answered
once; the Answer, delivered back in any chunks, takes the first link UP, and both hold the sync source. -/
theorem handshake_agreement (c c' : Ctx) (cfg cfg' : Config) (accepted : cfg.Accepted) (accepted' : cfg'.Accepted)
    (es es' : List (Ctx × System.Event)) :
    let a := (Machine.run System.step (System.start c cfg) es).1
    let b := (Machine.run System.step (System.start c' cfg') es').1
    ∀ j slot i fd, Paired a b j slot i fd → a.world.cfg.Texts → FieldText 128 (a.world.cfg.linkAt j).ccChannelName →
      b.world.cfg.Texts → 0 ≤ (a.world.cfg.linkAt j).ccLid → (a.world.cfg.linkAt j).ccLid < 2 ^ 31 →
      ∀ (d : Ctx) (ssrc : BitVec 32), mintSyncSource a.world d.draws = some ssrc →
        (∀ k, k ≠ i → (b.world.links k).hasSyncSource = true → (b.world.links k).syncSource ≠ ssrc) →
        let fd' := (a.world.links j).fd
        let asked := a.step (d, .writable fd' true)
        let question := a.world.cfg.questionAt j ssrc
        asked.2 = [.tcp j fd' .question question] ∧ question.length < 512 ∧
        ∀ chunks : List (Ctx × List Byte), (∀ chunk ∈ chunks, chunk.1.Clocked) → (chunks.map Prod.snd).flatten = question →
          let answered := Machine.run System.step b (System.chunkEvents fd chunks)
          System.ServesOnly (some i) b answered.1 answered.2 ∧ UpWith answered.1.world i ssrc ∧
          ∃ chunk ∈ chunks, let answer := b.world.cfg.answerAt chunk.1
            answered.2.filterMap Out.answer = [(i, answer)] ∧ answer.length < 512 ∧
            ∀ chunks' : List (Ctx × List Byte), (chunks'.map Prod.snd).flatten = answer →
              UpWith (Machine.run System.step asked.1 (System.chunkEvents fd' chunks')).1.world j ssrc := by
  intro a b j slot i fd paired texts channel texts' nonneg lidFits d ssrc minted free fd' asked question
  have wf : Wf { orphans := True } a.world := System.wf_run c cfg accepted True es (by simp)
  have wf' : Wf { orphans := True } b.world := System.wf_run c' cfg' accepted' True es' (by simp)
  obtain ⟨wrote, record, fdNonneg, registered⟩ := System.step_asks d wf paired.inside paired.connecting minted
  obtain ⟨short, rx, qlines, reading, source, lid⟩ := readQuestion_built ssrc nonneg lidFits channel texts.siteName
    texts.macAddress texts.codeRevision texts.osVersion
  refine ⟨wrote, short, fun chunks clocked delivered => ?_⟩
  -- the Question is the link's, and no other link is in its way
  have inside : i < b.world.cfg.nLink := by
    by_contra outside
    have role := paired.inbound
    rw [Config.linkAt_beyond (not_lt.mp outside)] at role
    cases role
  have named : MatchesQuestion b.world.cfg (b.world.pending slot).srcIp qlines i :=
    ⟨inside, paired.inbound, paired.enabled, paired.address, paired.lid.trans lid.symm⟩
  have apart := inbound_apart accepted' (System.fixed_run c' cfg' accepted' es')
  have taken : acceptQuestion b.world { b.world.pending slot with qlines := qlines } = some i :=
    accepts_of_matches (matchInbound_of_matches apart named) source free
  have reading' : readQuestion (b.world.pending slot).rxbuf (b.world.pending slot).qlines question = .complete rx qlines [] := by
    rw [paired.unread.1, paired.unread.2]
    exact reading
  obtain ⟨serves, up, chunk, member, answers⟩ :=
    System.question_run wf' paired.nonneg paired.taken reading' taken chunks delivered
  rw [source] at up
  obtain ⟨fits, last, agreed⟩ := cut_built (clocked chunk member) texts'.siteName texts'.osVersion texts'.version
  refine ⟨serves, up, chunk, member, answers, fits, fun chunks' delivered' => ?_⟩
  -- nothing was read on the connecting link
  have blank := System.unread_run c cfg accepted es j paired.connecting
  have lines : ((asked.1.world.links j).reads (b.world.cfg.answerAt chunk.1)).hslines =
      (cut rxbufCap [] (b.world.cfg.answerAt chunk.1)).1.map (List.take 255) := by
    rw [record]
    simp only [CcLink.reads, CcLink.asking]
    rw [blank.1, blank.2, List.nil_append]
  have answering : asked.1.Answering j fd' ssrc (b.world.cfg.answerAt chunk.1) := by
    constructor
    case state => rw [record]; rfl
    case named => rw [record]; rfl
    case source => rw [record]; rfl
    case nonneg => exact fdNonneg
    case registered => exact registered
    case count =>
      have whole := agreed.whole
      rw [List.length_map, length_cut] at whole
      rw [record, CcLink.asking, blank.2, List.length_nil, Nat.zero_add]
      exact whole
    case last => exact last
    case agreed =>
      rw [lines]
      exact agreed
  obtain ⟨up', named', source'⟩ := answering.run chunks' delivered'
  exact ⟨up', named', source'⟩

/-- The Question of one outbound link reaches one inbound link in two pieces, and so does the Answer. -/
theorem handshake_agreement_two_pieces :
    let a := (Machine.run System.step (System.start { now := 0 } outboundCfg) []).1
    let b := (Machine.run System.step (System.start { now := 0 } inboundCfg) ((connectAndSend shortQuestion).take 1)).1
    let asked := a.step ({ now := 1, draws := [7] }, .writable (a.world.links 0).fd true)
    let question := a.world.cfg.questionAt 0 7
    let answer := b.world.cfg.answerAt { now := 2 }
    UpWith (Machine.run System.step b (System.chunkEvents 6 [({ now := 2 }, question.take 3), ({ now := 2 }, question.drop 3)])).1.world 0 7 ∧
      UpWith (Machine.run System.step asked.1 (System.chunkEvents (a.world.links 0).fd
        [({ now := 3 }, answer.take 9), ({ now := 4 }, answer.drop 9)])).1.world 0 7 := by
  intro a b asked question answer
  have paired : Paired a b 0 0 0 6 := by
    constructor
    case unread => exact ⟨by decide +kernel, by decide +kernel⟩
    all_goals decide +kernel
  have blank : ∀ size, 0 < size → FieldText size [] := fun size room => ⟨room, by simp, by simp⟩
  have texts : a.world.cfg.Texts := by
    constructor <;> exact blank _ (by decide)
  have texts' : b.world.cfg.Texts := by
    constructor <;> exact blank _ (by decide)
  have clocked : ∀ chunk ∈ [(({ now := 2 } : Ctx), question.take 3), ({ now := 2 }, question.drop 3)], chunk.1.Clocked := by
    simp only [List.forall_mem_cons, List.not_mem_nil, false_implies, implies_true, and_true]
    exact ⟨⟨by decide, by decide⟩, ⟨by decide, by decide⟩⟩
  have wf : Wf { orphans := True } b.world :=
    System.wf_run { now := 0 } inboundCfg (by decide) True ((connectAndSend shortQuestion).take 1) (by simp)
  have one : b.world.cfg.nLink = 1 := by decide +kernel
  have free : ∀ k, k ≠ 0 → (b.world.links k).hasSyncSource = true → (b.world.links k).syncSource ≠ 7 := by
    intro k other has
    rw [wf.beyond k (by omega)] at has
    cases has
  have pieces : ([(({ now := 2 } : Ctx), question.take 3), ({ now := 2 }, question.drop 3)].map Prod.snd).flatten = question := by
    simp
  obtain ⟨-, -, delivered⟩ := handshake_agreement { now := 0 } { now := 0 } outboundCfg inboundCfg (by decide) (by decide) []
    ((connectAndSend shortQuestion).take 1) 0 0 0 6 paired texts (blank _ (by decide)) texts' (by decide +kernel) (by decide +kernel)
    { now := 1, draws := [7] } 7 (by decide +kernel) free
  obtain ⟨-, up, chunk, member, -, -, answered⟩ := delivered _ clocked pieces
  have here : b.world.cfg.answerAt chunk.1 = answer := by
    simp only [List.mem_cons, List.not_mem_nil, or_false] at member
    rcases member with rfl | rfl <;> rfl
  rw [here] at answered
  have pieces' : ([(({ now := 3 } : Ctx), answer.take 9), ({ now := 4 }, answer.drop 9)].map Prod.snd).flatten = answer := by
    simp
  exact ⟨up, answered _ pieces'⟩

end Cc2obp
