import Cc2obp.Cccc.Registrations
import Cc2obp.Eventloop.Run
import Cc2obp.System.Live
import Mathlib.Data.List.Induction

/-!
# Registrations over whole runs

The calls a run makes to the event loop's tables, from the start on: what the
tables hold is the map these calls define, and none of them finds a table full.
So every descriptor that is open stands in the array for `poll()`.
-/
open FdTable TwoTables

namespace Cc2obp

open World

def System.tables : TwoTables System FdCb where
  fds s := s.world.loop.fds
  wfds s := s.world.loop.wfds
  put s r w := { s with world := World.tables.put s.world r w }
  put_self _ := rfl
  fds_put _ _ _ := rfl
  wfds_put _ _ _ := rfl

namespace System

variable {s : System} {reads writes : List (Op FdCb)}

/-! ## Calls into the translator make none -/

theorem perform_blind (w : World) (o : TrOut) (r w' : FdTable FdCb) :
    (World.tables.put w r w').perform o = World.tables.put (w.perform o) r w' := by
  have same : (World.tables.put w r w').links = w.links := rfl
  have cfg : (World.tables.put w r w').cfg = w.cfg := rfl
  have obpFd : (World.tables.put w r w').obpFd = w.obpFd := rfl
  cases o with
  | obpSendDmrd =>
    simp only [World.perform, obpSendDmrd, cfg, obpFd]
    split <;> rfl
  | ccccSendBon =>
    simp only [World.perform, ccccSendBon, same]
    split <;> rfl
  | ccccSendBoff =>
    simp only [World.perform, ccccSendBoff, same]
    split <;> rfl
  | ccccSendVoice =>
    simp only [World.perform, ccccSendVoice, same]
    split <;> rfl

theorem performAll_blind (out : List TrOut) (w : World) (r w' : FdTable FdCb) :
    out.foldl World.perform (World.tables.put w r w') = World.tables.put (out.foldl World.perform w) r w' := by
  induction out generalizing w with
  | nil => rfl
  | cons o out ih => rw [List.foldl_cons, perform_blind, ih, List.foldl_cons]

theorem translate_blind (c : Ctx) (ev : TrEvent) (s : System) (r w' : FdTable FdCb) :
    (tables.put s r w').translate c ev = tables.put (s.translate c ev) r w' := by
  have same : (tables.put s r w').world.env c.now = s.world.env c.now := rfl
  have performed := performAll_blind (translatorStep (s.world.env c.now) ev s.tr).2 s.world r w'
  simp only [translate, same]
  exact congrArg (fun world => ({ world, tr := (translatorStep (s.world.env c.now) ev s.tr).1 } : System)) performed

theorem replay_blind (c : Ctx) (s : System) (item : Out × Nat) (r w' : FdTable FdCb) :
    (tables.put s r w').replay c item = tables.put (s.replay c item) r w' := by
  obtain ⟨o, n⟩ := item
  cases o with
  | call call => exact translate_blind c _ { s with world := s.world.emit (.call call) } r w'
  | tcp => rfl
  | udp => rfl

theorem replayAll_blind (c : Ctx) (items : List (Out × Nat)) (s : System) (r w' : FdTable FdCb) :
    items.foldl (replay c) (tables.put s r w') = tables.put (items.foldl (replay c) s) r w' := by
  induction items generalizing s with
  | nil => rfl
  | cons item items ih => rw [List.foldl_cons, replay_blind, ih, List.foldl_cons]

/-- A callback makes the calls of its function. -/
theorem makes_callback (c : Ctx) {f : World → World} (makes : World.tables.Makes maxFds f s.world.unlogged reads writes) :
    tables.Makes maxFds (callback c f) s reads writes := by
  intro r w'
  have called : f (tables.put s r w').world.unlogged = _ := makes r w'
  simp only [callback, called]
  exact replayAll_blind c (f s.world.unlogged).out.zipIdx { s with world := { f s.world.unlogged with out := s.world.out } }
    (applied maxFds r reads) (applied maxFds w' writes)

theorem adds_callback (c : Ctx) {f : World → World} {names : List Int} (adds : World.Adds names f s.world.unlogged) :
    tables.Adds maxFds names (callback c f) s := by
  obtain ⟨reads, writes, makes, named⟩ := adds
  exact ⟨reads, writes, makes_callback c makes, named⟩

theorem keeps_callback (c : Ctx) {f : World → World} (keeps : World.tables.Keeps maxFds f s.world.unlogged) :
    tables.Keeps maxFds (callback c f) s := by
  obtain ⟨reads, writes, makes, fits⟩ := keeps
  exact ⟨reads, writes, makes_callback c makes, fits⟩

end System

/-! ## Dispatch -/

/-- The read callback that is looked up, with what the descriptor has to offer. -/
def World.serve (c : Ctx) (input : FdInput) (cb : Option FdCb) : World → World :=
  match cb, input with
  | some .voice, .datagram bytes srcIp srcPort => onVoiceReadable c bytes srcIp srcPort
  | some .trial, .datagram bytes srcIp srcPort => onTrialReadable bytes srcIp srcPort
  | some .listen, .accepted srcIps => onListenReadable c srcIps
  | some (.obp peer), .datagram bytes srcIp srcPort => onObpReadable peer bytes srcIp srcPort
  | some (.pending s), .recv r => onPendingReadable c s r
  | some (.link i), .recv r => onLinkTcpReadable c i r
  | _, _ => id

def World.serveWrite (c : Ctx) (fd : Int) (connected : Bool) (cb : Option FdCb) : World → World :=
  match cb with
  | some (.connect i) => onConnectWritable c i fd connected
  | _ => id

/-- What runs for an event, the callback being the one in the tables when it is dispatched. -/
def System.turn (c : Ctx) (e : Event) (s : System) : System → System :=
  match e with
  | .readable fd input =>
    callback c (if fd < 0 then id else World.serve c input (FdTable.lookup s.world.loop.fds fd))
  | .writable fd connected =>
    callback c (if fd < 0 then id else World.serveWrite c fd connected (FdTable.lookup s.world.loop.wfds fd))
  | .timer id => callback c (World.fire c id)
  | .tick fresh => tickCb c fresh

theorem readable_eq (c : Ctx) (fd : Int) (input : FdInput) (w : World) : World.readable c fd input w =
    (if fd < 0 then id else World.serve c input (FdTable.lookup w.loop.fds fd)) w := by
  unfold World.readable World.serve
  split
  · rfl
  · cases FdTable.lookup w.loop.fds fd with
    | none => rfl
    | some cb => cases cb <;> cases input <;> rfl

theorem writable_eq (c : Ctx) (fd : Int) (connected : Bool) (w : World) : World.writable c fd connected w =
    (if fd < 0 then id else World.serveWrite c fd connected (FdTable.lookup w.loop.wfds fd)) w := by
  unfold World.writable World.serveWrite
  split
  · rfl
  · cases FdTable.lookup w.loop.wfds fd with
    | none => rfl
    | some cb => cases cb <;> rfl

theorem System.react_eq (c : Ctx) (e : Event) (s : System) : s.react c e = s.turn c e s := by
  cases e with
  | readable fd input =>
    simp only [react, turn, callback, readable_eq]
    rfl
  | writable fd connected =>
    simp only [react, turn, callback, writable_eq]
    rfl
  | timer id => rfl
  | tick fresh => rfl

/-! ## Room -/

theorem holders_length : holders.length + 3 < maxFds := by
  simp [holders, cfgMaxOpenbridge, maxPending, cfgMaxLinks, maxFds]

namespace Wf

variable {w : World} {ph : Phase} {names : List Int} {f : World → World}

/-- There is room for the descriptors of two more calls. -/
theorem keeps (wf : Wf ph w) (adds : World.Adds names f w) (few : names.length ≤ 2) : World.tables.Keeps maxFds f w := by
  obtain ⟨short, short'⟩ := wf.owned.length_le
  have room := holders_length
  exact TwoTables.Adds.keeps adds wf.owned.reading.distinct wf.owned.writing.distinct
    (show w.loop.fds.length + names.length < maxFds by omega) (show w.loop.wfds.length + names.length < maxFds by omega)

theorem short (wf : Wf ph w) : w.loop.fds.length < maxFds ∧ w.loop.wfds.length < maxFds := by
  obtain ⟨short, short'⟩ := wf.owned.length_le
  have room := holders_length
  omega

theorem keeps_listen (wf : Wf ph w) (idle : ph.busy = none) (c : Ctx) (srcIps : List (List Byte)) :
    World.tables.Keeps maxFds (onListenReadable c srcIps) w :=
  .foldl (acceptOne c) (fun _ v => Wf ph v)
    (fun srcIp _ v wf => ⟨wf.accepted c idle srcIp, wf.keeps (.acceptOne srcIp) (by simp)⟩) (fun _ wf => wf.short) srcIps w wf

/-- The links have their turns after a reload. -/
theorem keeps_links (wf : Wf ph w) (c : Ctx) : World.tables.Keeps maxFds (ccccMuxReconcile c) w := by
  have turns : World.tables.Keeps maxFds (fun v => (List.range w.cfg.nLink).foldl (reconcileLink c) v) w := by
    refine .foldl (reconcileLink c)
      (fun rest v => Wf { ph with stale := fun _ => True } v ∧ ∀ i ∈ rest, i < v.cfg.nLink) ?_ (fun v here => here.1.short) _ w
      ⟨wf.weaken id (.inr rfl) (by simp), by simp⟩
    rintro i rest v ⟨kept, inside⟩
    refine ⟨⟨kept.linkReconciled c (fun _ => True) (inside i (by simp)) fun _ _ _ => trivial, fun j member => ?_⟩,
      kept.keeps (.reconcileLink i) (by simp)⟩
    rw [reconcileLink_cfg]
    exact inside j (by simp [member])
  exact turns.congr fun _ _ => rfl

theorem keeps_peers (wf : Wf ph w) (c : Ctx) : World.tables.Keeps maxFds (obpMuxReconcile c) w := by
  have turns : World.tables.Keeps maxFds (fun v => (List.range w.cfg.nOpenbridge).foldl (reconcilePeer c) v) w := by
    refine .foldl (reconcilePeer c) (fun rest v => Wf ph v ∧ ∀ p ∈ rest, p < v.cfg.nOpenbridge) ?_
      (fun v here => here.1.short) _ w ⟨wf, by simp⟩
    rintro peer rest v ⟨kept, inside⟩
    refine ⟨⟨kept.peerReconciled c (inside peer (by simp)), fun p member => ?_⟩,
      kept.keeps (.reconcilePeer peer) (by simp)⟩
    rw [reconcilePeer_cfg]
    exact inside p (by simp [member])
  exact turns.congr fun _ _ => rfl

theorem keeps_still (wf : Wf ph w) (adds : World.Adds [] f w) : World.tables.Keeps maxFds f w := wf.keeps adds (by simp)

theorem keeps_served (wf : Wf ph w) (idle : ph.busy = none) (c : Ctx) (input : FdInput) (cb : Option FdCb) :
    World.tables.Keeps maxFds (World.serve c input cb) w := by
  unfold World.serve
  split
  next bytes srcIp srcPort => exact wf.keeps_still (.voiceReadable bytes srcIp srcPort)
  next bytes srcIp srcPort => exact wf.keeps_still (.trialReadable bytes srcIp srcPort)
  next srcIps => exact wf.keeps_listen idle c srcIps
  next peer bytes srcIp srcPort => exact wf.keeps_still (.obpReadable peer bytes srcIp srcPort)
  next s r => exact wf.keeps (.pendingReadable s r) (by simp)
  next i r => exact wf.keeps_still (.linkReadable i r)
  next => exact wf.keeps_still (.blind fun _ _ => rfl)

theorem keeps_connect (wf : Wf ph w) (c : Ctx) (fd : Int) (connected : Bool) (cb : Option FdCb) :
    World.tables.Keeps maxFds (World.serveWrite c fd connected cb) w := by
  unfold World.serveWrite
  split
  next i => exact wf.keeps (.connectWritable i fd connected (List.mem_singleton_self fd)) (by simp)
  next => exact wf.keeps_still (.blind fun _ _ => rfl)

theorem keeps_fired (wf : Wf ph w) (c : Ctx) (id : Nat) : World.tables.Keeps maxFds (World.fire c id) w := by
  cases due : evDue id c.now w.loop with
  | none =>
    refine (wf.keeps_still (f := fun w => w) (.blind fun _ _ => rfl)).congr fun r w' => ?_
    have same : evDue id c.now (World.tables.put w r w').loop = none := due
    simp only [World.fire, same]
  | some cb =>
    have fired : World.Adds [lowestFree w.openFds] (fun w => timerCb c cb (w.onLoop (evTimerCancel (some id)))) w := by
      refine (World.Adds.timerCancel (some id)).comp ?_
      cases cb with
      | reconnect i => exact World.Adds.reconnect i (List.mem_singleton_self _)
      | keepalive i => exact World.Adds.keepalive i
      | pendingTimeout s => exact World.Adds.pendingTimeout s
    refine (wf.keeps fired (by simp)).congr fun r w' => ?_
    have same : evDue id c.now (World.tables.put w r w').loop = some cb := due
    simp only [World.fire, same]

end Wf

namespace System

variable {ph : Phase}

theorem keeps_translate (wf : Wf ph s.world) (c : Ctx) (ev : TrEvent) : tables.Keeps maxFds (translate c ev) s := by
  obtain ⟨short, short'⟩ := wf.short
  exact ⟨[], [], translate_blind c ev s, fits_nil short, fits_nil short'⟩

theorem keeps_reload (wf : Wf ph s.world) (c : Ctx) (fresh : Config) : tables.Keeps maxFds (doReload c fresh) s := by
  have reloaded : Wf { ph with stale := fun _ => True } ({ s with world := s.world.reload fresh } : System).world :=
    wf.reloaded fresh
  have toggled : tables.Keeps maxFds (fun s : System => { s with world := s.world.reload fresh }) s := by
    obtain ⟨short, short'⟩ := wf.short
    exact ⟨[], [], fun _ _ => rfl, fits_nil short, fits_nil short'⟩
  have links := keeps_callback c ((wf_unlogged reloaded).keeps_links c)
  have peers := keeps_callback c ((wf_unlogged (wf_midReload wf c fresh)).keeps_peers c)
  exact (toggled.comp links).comp peers

/-- No event finds a table full. -/
theorem keeps_turn (wf : Wf ph s.world) (idle : ph.busy = none) (c : Ctx) (e : Event) : tables.Keeps maxFds (s.turn c e) s := by
  have cleared : Wf ph s.world.unlogged := wf_unlogged wf
  have nothing : World.tables.Keeps maxFds id s.world.unlogged := cleared.keeps_still (.blind fun _ _ => rfl)
  cases e with
  | readable fd input =>
    refine keeps_callback c ?_
    split
    · exact nothing
    · exact cleared.keeps_served idle c input _
  | writable fd connected =>
    refine keeps_callback c ?_
    split
    · exact nothing
    · exact cleared.keeps_connect c fd connected _
  | timer id => exact keeps_callback c (cleared.keeps_fired c id)
  | tick fresh =>
    have ticked : Wf ph (s.translate c .tick).world := wf.of_core (core_translate c .tick s).symm
    cases fresh with
    | none => exact keeps_translate wf c .tick
    | some fresh =>
      have reloads : tables.Keeps maxFds (fun s => (s.translate c .tick).doReload c fresh) s :=
        (keeps_translate wf c .tick).comp (keeps_reload ticked c fresh)
      exact reloads

theorem keeps_start (c : Ctx) (cfg : Config) (accepted : cfg.Accepted) :
    World.tables.Keeps maxFds (fun w => ccccMuxStart c (obpMuxStart c w)) { cfg } := by
  obtain ⟨peers, peersLength, sockets⟩ := World.Adds.obpStart (c := c) (w := { cfg })
  obtain ⟨links, linksLength, dialled⟩ := World.Adds.ccccStart (c := c) (w := obpMuxStart c { cfg })
  have same : (obpMuxStart c { cfg }).cfg = cfg :=
    ((Wf.initial cfg accepted True).obpStarted c ⟨fun _ => rfl, rfl, rfl, rfl⟩ fun _ => rfl).2.2
  have few : peers.length + links.length < maxFds := by
    have peers_few : cfg.nOpenbridge ≤ cfgMaxOpenbridge := accepted.1
    have links_few : cfg.nLink ≤ cfgMaxLinks := accepted.2.1
    rw [same] at linksLength
    simp only [cfgMaxOpenbridge, cfgMaxLinks, maxFds] at *
    omega
  have adds := (sockets.mono (List.subset_append_left peers links)).comp (dialled.mono (List.subset_append_right peers links))
  refine TwoTables.Adds.keeps adds distinct_nil distinct_nil ?_ ?_ <;>
    simpa [World.tables, List.length_append] using few

/-! ## Runs -/

/-- The calls of a run to the read table and to the write table, in their orders. -/
inductive Calls (c : Ctx) (cfg : Config) : List (Ctx × Event) → List (Op FdCb) → List (Op FdCb) → Prop
  | start {reads writes : List (Op FdCb)}
      (makes : World.tables.Makes maxFds (fun w => ccccMuxStart c (obpMuxStart c w)) { cfg } reads writes) :
      Calls c cfg [] reads writes
  | event {es : List (Ctx × Event)} {e : Ctx × Event} {reads writes reads' writes' : List (Op FdCb)}
      (before : Calls c cfg es reads writes)
      (makes : tables.Makes maxFds ((Machine.run step (System.start c cfg) es).1.cleared.turn e.1 e.2)
        (Machine.run step (System.start c cfg) es).1.cleared reads' writes') :
      Calls c cfg (es ++ [e]) (reads ++ reads') (writes ++ writes')

/-- What the system does once the event loop has stopped. -/
def stopping (c : Ctx) (s : System) : System := (s.callback c (ccccMuxStop c)).callback c obpMuxStop

theorem shutdown_eq (c : Ctx) (s : System) : (s.shutdown c).1 = (s.cleared.stopping c).cleared := by
  unfold shutdown stopping
  rfl

/-- The calls that are left to make once the event loop has stopped. -/
def StopCalls (c : Ctx) (s : System) (reads writes : List (Op FdCb)) : Prop :=
  tables.Makes maxFds (stopping c) s.cleared reads writes

end System

/-- The tables are the maps that calls define, and have never been full. -/
structure World.Mirrored (w : World) (reads writes : List (Op FdCb)) : Prop where
  reading : Mirrors maxFds w.loop.fds reads
  writing : Mirrors maxFds w.loop.wfds writes

/-- The descriptor stands in the array for `poll()` with its callback. -/
def World.InPoll (w : World) (fd : Int) (m : Watch FdCb) : Prop :=
  0 ≤ fd ∧ ∃ e ∈ pollFds w.loop, e.fd = fd ∧
    match m with
    | .read cb => e.write = false ∧ e.cb = cb
    | .write cb => e.write = true ∧ e.cb = cb

/-- Every socket is polled, and no descriptor but the standard ones is open that is nobody's socket. -/
structure World.Polled (w : World) : Prop where
  owned : ∀ h fd m, w.own h = some (fd, m) → w.InPoll fd m
  opened : ∀ fd ∈ w.openFds, fd ∉ stdFds → ∃ h m, w.own h = some (fd, m)

/-- What is registered is in the array for `poll()`. -/
theorem pollFds_of_mem {l : EvLoop FdCb TimerCb} {write : Bool} {fd : Int} {cb : FdCb} (member : (fd, cb) ∈ l.table write) :
    ∃ e ∈ pollFds l, e.fd = fd ∧ e.write = write ∧ e.cb = cb := by
  obtain ⟨idx, inside, here⟩ := List.mem_iff_getElem.mp member
  have entry : ((fd, cb), idx) ∈ (l.table write).zipIdx := by
    rw [List.mk_mem_zipIdx_iff_getElem?, List.getElem?_eq_getElem inside, here]
  refine ⟨⟨write, idx, fd, cb⟩, ?_, rfl, rfl, rfl⟩
  cases write with
  | false => exact List.mem_append_left _ (List.mem_map.mpr ⟨_, entry, rfl⟩)
  | true => exact List.mem_append_right _ (List.mem_map.mpr ⟨_, entry, rfl⟩)

theorem Wf.polled {w : World} {ph : Phase} (wf : Wf ph w) : w.Polled := by
  constructor
  case owned =>
    intro h fd m owns
    have nonneg := (wf.owned.isOpen h fd m owns).1
    refine ⟨nonneg, ?_⟩
    cases m with
    | read cb =>
      have member : (fd, cb) ∈ w.loop.fds := (wf.owned.reading.entries (fd, cb) nonneg).mpr ⟨h, by rw [owns]; rfl⟩
      exact pollFds_of_mem member
    | write cb =>
      have member : (fd, cb) ∈ w.loop.wfds := (wf.owned.writing.entries (fd, cb) nonneg).mpr ⟨h, by rw [owns]; rfl⟩
      exact pollFds_of_mem member
  case opened =>
    intro fd isOpen other
    exact (wf.owned.claimed fd isOpen).resolve_left other

namespace System

/-- The calls of a run with the tables they make, which they have found room in. -/
theorem run_calls (c : Ctx) (cfg : Config) (accepted : cfg.Accepted) (es : List (Ctx × Event)) :
    ∃ reads writes, Calls c cfg es reads writes ∧ Fits maxFds [] reads ∧ Fits maxFds [] writes ∧
      (Machine.run step (System.start c cfg) es).1.world.loop.fds = applied maxFds [] reads ∧
      (Machine.run step (System.start c cfg) es).1.world.loop.wfds = applied maxFds [] writes := by
  induction es using List.reverseRecOn with
  | nil =>
    obtain ⟨reads, writes, makes, fits, fits'⟩ := keeps_start c cfg accepted
    exact ⟨reads, writes, .start makes, fits, fits', makes.fds, makes.wfds⟩
  | append_singleton es e ih =>
    obtain ⟨reads, writes, calls, fits, fits', fds, wfds⟩ := ih
    have wf : Wf { orphans := True } (Machine.run step (System.start c cfg) es).1.world :=
      wf_run c cfg accepted True es (by simp)
    have cleared : Wf { orphans := True } (Machine.run step (System.start c cfg) es).1.cleared.world := wf_unlogged wf
    obtain ⟨reads', writes', makes, more, more'⟩ := keeps_turn cleared rfl e.1 e.2
    have fds' : tables.fds (Machine.run step (System.start c cfg) es).1.cleared = applied maxFds [] reads := fds
    have wfds' : tables.wfds (Machine.run step (System.start c cfg) es).1.cleared = applied maxFds [] writes := wfds
    have next := makes.fds
    have next' := makes.wfds
    rw [← react_eq, fds', ← applied_append] at next
    rw [← react_eq, wfds', ← applied_append] at next'
    rw [fds'] at more
    rw [wfds'] at more'
    refine ⟨_, _, calls.event makes, fits.append more, fits'.append more', ?_⟩
    rw [Machine.run_append]
    exact ⟨next, next'⟩

/-- Stopping takes descriptors out of the tables only. -/
theorem keeps_stop {s : System} {ph : Phase} (wf : Wf ph s.world) (c : Ctx) :
    tables.Keeps maxFds (stopping c) s.cleared := by
  have links : tables.Adds maxFds [] (callback c (ccccMuxStop c)) s.cleared := adds_callback c .ccccStop
  have peers : tables.Adds maxFds [] (callback c obpMuxStop) (s.cleared.callback c (ccccMuxStop c)) :=
    adds_callback c .obpStop
  obtain ⟨short, short'⟩ := wf.short
  exact (links.comp peers).keeps wf.owned.reading.distinct wf.owned.writing.distinct short short'

/-- The tables a stopped system leaves, from those it had. -/
theorem mirrored_stop {s : System} {ph : Phase} (wf : Wf ph s.world) (c : Ctx) {reads writes : List (Op FdCb)}
    (fits : Fits maxFds [] reads) (fits' : Fits maxFds [] writes) (fds : s.world.loop.fds = applied maxFds [] reads)
    (wfds : s.world.loop.wfds = applied maxFds [] writes) : ∃ reads' writes', StopCalls c s reads' writes' ∧
      (s.shutdown c).1.world.Mirrored (reads ++ reads') (writes ++ writes') := by
  obtain ⟨reads', writes', makes, more, more'⟩ := keeps_stop wf c
  have stopped := makes.fds
  have stopped' := makes.wfds
  rw [show tables.fds s.cleared = applied maxFds [] reads from fds, ← applied_append] at stopped
  rw [show tables.wfds s.cleared = applied maxFds [] writes from wfds, ← applied_append] at stopped'
  rw [show tables.fds s.cleared = applied maxFds [] reads from fds] at more
  rw [show tables.wfds s.cleared = applied maxFds [] writes from wfds] at more'
  refine ⟨reads', writes', makes, ?_⟩
  rw [shutdown_eq]
  generalize s.cleared.stopping c = after at stopped stopped'
  have mirrors := (fits.append more).mirrors
  have mirrors' := (fits'.append more').mirrors
  rw [← stopped] at mirrors
  rw [← stopped'] at mirrors'
  exact ⟨mirrors, mirrors'⟩

end System

/-- In every run the tables are what the calls made so far define, with each descriptor once, none of the calls has
found a table full, and every socket is polled; so it stays when the program stops. -/
theorem registrations_kept (c : Ctx) (cfg : Config) (accepted : cfg.Accepted) (es : List (Ctx × System.Event)) :
    ∃ reads writes, System.Calls c cfg es reads writes ∧
      let s := (Machine.run System.step (System.start c cfg) es).1
      s.world.Mirrored reads writes ∧ s.world.Polled ∧
        ∀ c', ∃ reads' writes', System.StopCalls c' s reads' writes' ∧
          (s.shutdown c').1.world.Mirrored (reads ++ reads') (writes ++ writes') := by
  obtain ⟨reads, writes, calls, fits, fits', fds, wfds⟩ := System.run_calls c cfg accepted es
  have wf : Wf { orphans := True } (Machine.run System.step (System.start c cfg) es).1.world :=
    System.wf_run c cfg accepted True es (by simp)
  refine ⟨reads, writes, calls, ⟨?_, ?_⟩, wf.polled, fun c' => System.mirrored_stop wf c' fits fits' fds wfds⟩
  · rw [fds]
    exact fits.mirrors
  · rw [wfds]
    exact fits'.mirrors

/-- A Question that is answered twice registers the descriptor -1. -/
theorem registrations_kept_answered_twice : ∃ reads writes,
    System.Calls { now := 0 } inboundCfg (connectAndSend (shortQuestion ++ newline)) reads writes ∧
      let s := afterSending (shortQuestion ++ newline)
      s.world.Mirrored reads writes ∧ s.world.Polled ∧
        ∀ c', ∃ reads' writes', System.StopCalls c' s reads' writes' ∧
          (s.shutdown c').1.world.Mirrored (reads ++ reads') (writes ++ writes') :=
  registrations_kept { now := 0 } inboundCfg (by decide) (connectAndSend (shortQuestion ++ newline))

end Cc2obp
