import Cc2obp.System.Live

/-!
# Outbound links

In every state a run reaches, an outbound link is in one of four states, each
with its descriptor, its sync source and its timers; and beside what the links,
the slots and the sockets hold there is no open descriptor and no armed timer.
-/
namespace Cc2obp

open World

/-- What the process holds for an outbound link in each of the link's states. -/
inductive OutboundAt (w : World) (i : Nat) : Prop
  | down (state : (w.links i).state = .down) (fd : (w.links i).fd = -1)
      (unnamed : (w.links i).hasSyncSource = false)
      (unwatched : evArmed w.loop (.keepalive i) = 0)
      (retry : evArmed w.loop (.reconnect i) = if (w.links i).active then 1 else 0)
  | connecting (state : (w.links i).state = .connecting) (active : (w.links i).active = true)
      (isOpen : 0 ≤ (w.links i).fd ∧ (w.links i).fd ∈ w.openFds)
      (writing : FdTable.lookup w.loop.wfds (w.links i).fd = some (.connect i))
      (notReading : FdTable.lookup w.loop.fds (w.links i).fd = none)
      (unwatched : evArmed w.loop (.keepalive i) = 0) (noRetry : evArmed w.loop (.reconnect i) = 0)
  | handshaking (state : (w.links i).state = .handshaking) (active : (w.links i).active = true)
      (isOpen : 0 ≤ (w.links i).fd ∧ (w.links i).fd ∈ w.openFds)
      (reading : FdTable.lookup w.loop.fds (w.links i).fd = some (.link i))
      (notWriting : FdTable.lookup w.loop.wfds (w.links i).fd = none)
      (named : (w.links i).hasSyncSource = true)
      (unwatched : evArmed w.loop (.keepalive i) = 0) (noRetry : evArmed w.loop (.reconnect i) = 0)
  | up (state : (w.links i).state = .up) (active : (w.links i).active = true)
      (isOpen : 0 ≤ (w.links i).fd ∧ (w.links i).fd ∈ w.openFds)
      (reading : FdTable.lookup w.loop.fds (w.links i).fd = some (.link i))
      (notWriting : FdTable.lookup w.loop.wfds (w.links i).fd = none)
      (named : (w.links i).hasSyncSource = true)
      (watched : evArmed w.loop (.keepalive i) = 1) (noRetry : evArmed w.loop (.reconnect i) = 0)


namespace Wf

variable {w : World} {ph : Phase} {i : Nat}

/-! ## Timers -/

/-- A handle stands for exactly one armed timer. -/
theorem evArmed_eq (wf : Wf ph w) (cb : TimerCb) :
    evArmed w.loop cb = if w.handle cb = none then 0 else 1 := by
  have most : evArmed w.loop cb ≤ 1 := by
    refine evArmed_le_one wf.timers cb fun id id' live live' => ?_
    have handle := wf.armed.handle_of_live live
    have handle' := wf.armed.handle_of_live live'
    rw [handle] at handle'
    exact Option.some.inj handle'
  split
  next absent =>
    by_contra some
    obtain ⟨id, live⟩ := evArmed_pos.mp (Nat.pos_of_ne_zero some)
    have handle := wf.armed.handle_of_live live
    rw [absent] at handle
    cases handle
  next present =>
    obtain ⟨id, handle⟩ := Option.ne_none_iff_exists'.mp present
    have positive := evArmed_pos.mpr ⟨id, (wf.armed.agree id cb).mpr handle⟩
    omega

theorem keepalives_eq (wf : Wf ph w) (i : Nat) :
    evArmed w.loop (.keepalive i) = if (w.links i).state = .up then 1 else 0 := by
  rw [wf.evArmed_eq]
  have kept := (wf.links i).kept
  by_cases up : (w.links i).state = .up
  · simp [up, kept.mpr up, World.handle]
  · have idle : (w.links i).keepaliveTimer = none := by
      by_contra keeps
      exact up (kept.mp keeps)
    simp [up, World.handle, idle]

theorem reconnects_eq (wf : Wf ph w) (i : Nat) : evArmed w.loop (.reconnect i) =
    if (w.links i).state = .down ∧ (w.cfg.linkAt i).ccRole = .outbound ∧ (w.links i).active = true then 1
    else 0 := by
  rw [wf.evArmed_eq]
  have waiting := (wf.links i).waiting
  by_cases waits : (w.links i).state = .down ∧ (w.cfg.linkAt i).ccRole = .outbound ∧ (w.links i).active = true
  · have has : (w.links i).reconnectTimer ≠ none := waiting.mpr waits
    rw [if_pos waits, if_neg (by simpa [World.handle] using has)]
  · have idle : (w.links i).reconnectTimer = none := by
      by_contra has
      exact waits (waiting.mp has)
    rw [if_neg waits, if_pos (by simpa [World.handle] using idle)]

/-! ## Descriptors -/

/-- Where the descriptor a link owns is registered. -/
theorem registered (wf : Wf ph w) (inside : i < w.cfg.nLink) {fd : Int} {m : Watch FdCb}
    (owns : linkOwn i (w.links i) = some (fd, m)) :
    (0 ≤ fd ∧ fd ∈ w.openFds) ∧
      (∀ cb, FdTable.lookup w.loop.fds fd = some cb ↔ m = .read cb) ∧
      ∀ cb, FdTable.lookup w.loop.wfds fd = some cb ↔ m = .write cb := by
  have mine : w.own (.link i) = some (fd, m) := by rw [own_link w inside, owns]
  have isOpen := wf.owned.isOpen _ _ _ mine
  refine ⟨isOpen, fun cb => ?_, fun cb => ?_⟩
  · constructor
    · intro found
      obtain ⟨h, owner⟩ := wf.owner_of_read isOpen.1 found
      rw [wf.owned.apart h (.link i) fd _ _ owner mine, mine] at owner
      simpa using owner
    · rintro rfl
      refine (FdTable.lookup_eq_some wf.owned.reading.distinct).mpr ?_
      exact (wf.owned.reading.entries _ isOpen.1).mpr ⟨.link i, by simp [mine, Watch.reads]⟩
  · constructor
    · intro found
      obtain ⟨h, owner⟩ := wf.owner_of_write isOpen.1 found
      rw [wf.owned.apart h (.link i) fd _ _ owner mine, mine] at owner
      simpa using owner
    · rintro rfl
      refine (FdTable.lookup_eq_some wf.owned.writing.distinct).mpr ?_
      exact (wf.owned.writing.entries _ isOpen.1).mpr ⟨.link i, by simp [mine, Watch.writes]⟩

theorem read_registered (wf : Wf ph w) (inside : i < w.cfg.nLink)
    (owns : linkOwn i (w.links i) = some ((w.links i).fd, .read (.link i))) :
    (0 ≤ (w.links i).fd ∧ (w.links i).fd ∈ w.openFds) ∧
      FdTable.lookup w.loop.fds (w.links i).fd = some (.link i) ∧
      FdTable.lookup w.loop.wfds (w.links i).fd = none := by
  obtain ⟨isOpen, reads, writes⟩ := wf.registered inside owns
  refine ⟨isOpen, (reads _).mpr rfl, ?_⟩
  by_contra some
  obtain ⟨cb, found⟩ := Option.ne_none_iff_exists'.mp some
  cases (writes cb).mp found

/-- What the invariant says of an outbound link. -/
theorem outboundAt (wf : Wf ph w) (inside : i < w.cfg.nLink)
    (outbound : (w.cfg.linkAt i).ccRole = .outbound) : OutboundAt w i := by
  obtain ⟨closed, -, trying, -, -, named, orphan, -⟩ := wf.links i
  have keepalives := wf.keepalives_eq i
  have reconnects := wf.reconnects_eq i
  cases state : (w.links i).state with
  | down =>
    have unnamed : (w.links i).hasSyncSource = false := by
      simpa [state] using named
    exact .down state (closed state) unnamed (by simpa [state] using keepalives)
      (by simpa [state, outbound] using reconnects)
  | connecting =>
    have owns : linkOwn i (w.links i) = some ((w.links i).fd, .write (.connect i)) := by simp [linkOwn, state]
    obtain ⟨isOpen, reads, writes⟩ := wf.registered inside owns
    have notReading : FdTable.lookup w.loop.fds (w.links i).fd = none := by
      by_contra some
      obtain ⟨cb, found⟩ := Option.ne_none_iff_exists'.mp some
      cases (reads cb).mp found
    exact .connecting state (trying outbound (by simp [state])) isOpen ((writes _).mpr rfl) notReading
      (by simpa [state] using keepalives) (by simpa [state] using reconnects)
  | handshaking =>
    obtain ⟨isOpen, reading, notWriting⟩ := wf.read_registered inside (by simp [linkOwn, state])
    exact .handshaking state (trying outbound (by simp [state])) isOpen reading notWriting
      (named.mpr (.inl state)) (by simpa [state] using keepalives) (by simpa [state] using reconnects)
  | up =>
    -- only an inbound link can be UP without a descriptor
    have nonneg : 0 ≤ (w.links i).fd := by
      by_contra negative
      have inbound := (orphan state (by omega)).2.1
      rw [outbound] at inbound
      cases inbound
    obtain ⟨isOpen, reading, notWriting⟩ := wf.read_registered inside (by simp [linkOwn, state, nonneg])
    exact .up state (trying outbound (by simp [state])) isOpen reading notWriting
      (named.mpr (.inr state)) (by simpa [state] using keepalives) (by simpa [state] using reconnects)

/-- No descriptor leaks: an open one is standard or somebody's, and then nobody else's. -/
theorem held (wf : Wf ph w) {fd : Int} (isOpen : fd ∈ w.openFds) :
    fd ∈ stdFds ∨ ∃! h, (w.own h).map Prod.fst = some fd := by
  rcases wf.owned.claimed fd isOpen with standard | ⟨h, m, owns⟩
  · exact .inl standard
  · refine .inr ⟨h, by simp [owns], fun h' same => ?_⟩
    obtain ⟨⟨fd', m'⟩, owns', rfl⟩ := Option.map_eq_some_iff.mp same
    exact wf.owned.apart h' h fd' m' m owns' owns

/-- No timer leaks: an armed one is under its owner's handle. -/
theorem timer_kept (wf : Wf ph w) {t : EvTimer TimerCb} (member : t ∈ w.loop.timers)
    (active : t.active = true) : w.handle t.cb = some t.id :=
  wf.armed.handle_of_live ⟨t, member, rfl, rfl, active⟩

end Wf

/-- In every state a run reaches, every outbound link has what its state says and nothing else, every
open descriptor has one holder, and every armed timer is under the handle of the link or slot it is
for. -/
theorem outbound_lifecycle (c : Ctx) (cfg : Config) (accepted : cfg.Accepted) (es : List (Ctx × System.Event)) :
    let w := (Machine.run System.step (System.start c cfg) es).1.world
    (∀ i < w.cfg.nLink, (w.cfg.linkAt i).ccRole = .outbound → OutboundAt w i) ∧
      (∀ fd ∈ w.openFds, fd ∈ stdFds ∨ ∃! h, (w.own h).map Prod.fst = some fd) ∧
      ∀ t ∈ w.loop.timers, t.active = true → w.handle t.cb = some t.id := by
  intro w
  have wf : Wf { orphans := True } w := System.wf_run c cfg accepted True es (by simp)
  exact ⟨fun i inside outbound => wf.outboundAt inside outbound, fun fd isOpen => wf.held isOpen,
    fun t member active => wf.timer_kept member active⟩

/-- One outbound link. -/
def outboundCfg : Config :=
  { link := [{
      enabled := true, openbridgeIdx := none, ccRole := .outbound, ccLid := 7
      ccRemoteIp := ascii "10.0.0.2" }] }

theorem outbound_lifecycle_connected :
    let w := (Machine.run System.step (System.start { now := 0 } outboundCfg)
      [({ now := 1, draws := [7] }, .writable 6 true)]).1.world
    (∀ i < w.cfg.nLink, (w.cfg.linkAt i).ccRole = .outbound → OutboundAt w i) ∧
      (∀ fd ∈ w.openFds, fd ∈ stdFds ∨ ∃! h, (w.own h).map Prod.fst = some fd) ∧
      ∀ t ∈ w.loop.timers, t.active = true → w.handle t.cb = some t.id :=
  outbound_lifecycle { now := 0 } outboundCfg (by decide) _

end Cc2obp
