import Cc2obp.Cccc.Lifecycle
import Cc2obp.Lib.Run

/-!
# Live connections

In a run in which no Question is followed by another line in its own chunk, every
UP link has a connection of its own: open, registered for the link, and held by
nobody else.
-/
namespace Cc2obp

open World

/-! ## Dispatch -/

namespace Wf

variable {w : World} {ph : Phase} (c : Ctx)

/-- The owner of a descriptor that is registered for reading. -/
theorem owner_of_read (wf : Wf ph w) {fd : Int} {cb : FdCb} (nonneg : 0 ≤ fd)
    (found : FdTable.lookup w.loop.fds fd = some cb) : ∃ h, w.own h = some (fd, .read cb) := by
  have entry := (FdTable.lookup_eq_some wf.owned.reading.distinct).mp found
  obtain ⟨h, watched⟩ := (wf.owned.reading.entries _ nonneg).mp entry
  exact ⟨h, Watch.of_reads watched⟩

theorem owner_of_write (wf : Wf ph w) {fd : Int} {cb : FdCb} (nonneg : 0 ≤ fd)
    (found : FdTable.lookup w.loop.wfds fd = some cb) : ∃ h, w.own h = some (fd, .write cb) := by
  have entry := (FdTable.lookup_eq_some wf.owned.writing.distinct).mp found
  obtain ⟨h, watched⟩ := (wf.owned.writing.entries _ nonneg).mp entry
  exact ⟨h, Watch.of_writes watched⟩

/-- What a holder can own, and for which callback. -/
theorem own_cases {h : Holder} {fd : Int} {m : Watch FdCb} (owns : w.own h = some (fd, m)) :
    (∃ s, h = .pending s ∧ m = .read (.pending s) ∧ (w.pending s).inUse = true) ∨
    (∃ i, h = .link i ∧ i < w.cfg.nLink ∧ (w.links i).state ≠ .down ∧ (w.links i).fd = fd ∧
      (m = .read (.link i) ∨ m = .write (.connect i))) ∨
    m = .read .voice ∨ m = .read .trial ∨ m = .read .listen ∨ ∃ peer, m = .read (.obp peer) := by
  cases h with
  | voice => simp only [World.own, socketOwn] at owns; split at owns <;> simp_all
  | trial => simp only [World.own, socketOwn] at owns; split at owns <;> simp_all
  | listen => simp only [World.own, socketOwn] at owns; split at owns <;> simp_all
  | obp peer =>
    simp only [World.own, socketOwn] at owns
    split at owns
    · split at owns
      · simp only [Option.some.injEq, Prod.mk.injEq] at owns
        exact .inr (.inr (.inr (.inr (.inr ⟨peer, owns.2.symm⟩))))
      · cases owns
    · cases owns
  | pending s =>
    simp only [World.own, pendingOwn] at owns
    split at owns
    · split at owns
      next inUse =>
        simp only [Option.some.injEq, Prod.mk.injEq] at owns
        exact .inl ⟨s, rfl, owns.2.symm, inUse⟩
      · cases owns
    · cases owns
  | link i =>
    simp only [World.own, linkOwn] at owns
    split at owns
    next inside =>
      refine .inr (.inl ⟨i, rfl, inside, ?_⟩)
      cases state : (w.links i).state <;> simp [state] at owns ⊢ <;> simp [owns]
    · cases owns

/-- The slot of a pending connection that is ready. -/
theorem slot_of_read (wf : Wf ph w) {fd : Int} {s : Nat} (nonneg : 0 ≤ fd)
    (found : FdTable.lookup w.loop.fds fd = some (.pending s)) : (w.pending s).inUse = true := by
  obtain ⟨h, owns⟩ := wf.owner_of_read nonneg found
  rcases own_cases owns with ⟨s', -, same, inUse⟩ | ⟨i, -, -, -, -, other⟩ | other
  · cases same
    exact inUse
  · simp at other
  · simp at other

/-- The link of a control connection that is ready. -/
theorem link_of_read (wf : Wf ph w) {fd : Int} {i : Nat} (nonneg : 0 ≤ fd)
    (found : FdTable.lookup w.loop.fds fd = some (.link i)) :
    i < w.cfg.nLink ∧ (w.links i).state ≠ .down ∧ (w.links i).fd = fd := by
  obtain ⟨h, owns⟩ := wf.owner_of_read nonneg found
  rcases own_cases owns with ⟨s', -, other, -⟩ | ⟨j, -, inside, held, here, same⟩ | other
  · cases other
  · obtain rfl : i = j := by simpa using same
    exact ⟨inside, held, here⟩
  · simp at other

theorem readable (wf : Wf ph w) (idle : ph.busy = none) (fd : Int) (input : FdInput)
    (alone : ¬ph.orphans → ∀ slot bytes, input = .recv (.data bytes) →
      FdTable.lookup w.loop.fds fd = some (.pending slot) → pipelined w slot bytes = false) :
    Wf ph (World.readable c fd input w) := by
  unfold World.readable
  split
  · exact wf
  next nonneg =>
    have nonneg : 0 ≤ fd := not_lt.mp nonneg
    split
    · exact wf.voiceReadable c _ _ _
    · unfold onTrialReadable
      dsimp only
      split
      · exact wf
      · exact wf.emit _
    · exact wf.listenReadable c idle _
    · unfold onObpReadable
      split
      · exact wf.emit _
      · exact wf
    next s r found =>
      exact wf.pendingReadable c idle (wf.slot_of_read nonneg found) r fun strict bytes data =>
        alone strict s bytes (by rw [data]) found
    next i r found =>
      obtain ⟨inside, held, -⟩ := wf.link_of_read nonneg found
      exact wf.linkReadable c inside held r
    · exact wf

/-- The link that is connecting on a descriptor that has become writable. -/
theorem link_of_write (wf : Wf ph w) {fd : Int} {i : Nat} (nonneg : 0 ≤ fd)
    (found : FdTable.lookup w.loop.wfds fd = some (.connect i)) :
    i < w.cfg.nLink ∧ w.own (.link i) = some (fd, .write (.connect i)) := by
  obtain ⟨h, owns⟩ := wf.owner_of_write nonneg found
  rcases own_cases owns with ⟨s', -, other, -⟩ | ⟨j, rfl, inside, -, -, same⟩ | other
  · cases other
  · obtain rfl : i = j := by simpa using same
    exact ⟨inside, owns⟩
  · simp at other

theorem writable (wf : Wf ph w) (fd : Int) (connected : Bool) : Wf ph (World.writable c fd connected w) := by
  unfold World.writable
  split
  · exact wf
  next nonneg =>
    split
    next i found =>
      obtain ⟨inside, owns⟩ := wf.link_of_write (not_lt.mp nonneg) found
      exact wf.connectWritable c inside owns connected
    · exact wf

theorem fired (wf : Wf ph w) (idle : ph.busy = none) (id : Nat) : Wf ph (World.fire c id w) := by
  unfold World.fire
  split
  next cb due =>
    have handle := wf.armed.handle_of_live (evLive_of_due due)
    cases cb with
    | reconnect i => exact wf.reconnectCb c handle
    | keepalive i => exact wf.keepaliveCb c handle
    | pendingTimeout s => exact wf.timedOut idle handle
  · exact wf

end Wf

namespace System

variable {s : System} {ph : Phase}

theorem wf_callback (c : Ctx) (f : World → World) (wf : Wf ph (f s.world.unlogged)) :
    Wf ph (s.callback c f).world :=
  wf.of_core (core_callback c f s).symm

theorem wf_unlogged (wf : Wf ph s.world) : Wf ph s.world.unlogged := wf.of_core rfl

/-- A Question is the end of its chunk, if it is accepted. -/
def QuestionAlone (s : System) (e : Ctx × Event) : Prop :=
  match e.2 with
  | .readable fd (.recv (.data bytes)) =>
    ∀ slot, FdTable.lookup s.world.loop.fds fd = some (.pending slot) →
      pipelined s.world slot bytes = false
  | _ => True

/-- The world between the two reconciles of a reload. -/
def midReload (c : Ctx) (fresh : Config) (s : System) : System :=
  callback c (ccccMuxReconcile c) { s with world := s.world.reload fresh }

theorem doReload_eq (c : Ctx) (fresh : Config) (s : System) :
    s.doReload c fresh = (s.midReload c fresh).callback c (obpMuxReconcile c) := by
  unfold doReload midReload
  rfl

theorem wf_midReload (wf : Wf ph s.world) (c : Ctx) (fresh : Config) :
    Wf { ph with stale := fun _ => False } (s.midReload c fresh).world := by
  have reloaded : Wf { ph with stale := fun _ => True } ({ s with world := s.world.reload fresh } : System).world :=
    wf.reloaded fresh
  exact wf_callback c _ ((wf_unlogged reloaded).linksReconciled c)

theorem wf_reload (wf : Wf ph s.world) (c : Ctx) (fresh : Config) :
    Wf { ph with stale := fun _ => False } (s.doReload c fresh).world :=
  wf_callback c _ ((wf_unlogged (wf_midReload wf c fresh)).peersReconciled c)

theorem wf_step {orphans : Prop} (wf : Wf { orphans } s.world) (e : Ctx × Event)
    (alone : ¬orphans → QuestionAlone s e) : Wf { orphans } (s.step e).1.world := by
  obtain ⟨c, event⟩ := e
  have cleared : Wf { orphans } s.cleared.world := wf_unlogged wf
  have reacted : Wf { orphans } (s.cleared.react c event).world := by
    cases event with
    | readable fd input =>
      refine wf_callback c _ ((wf_unlogged cleared).readable c rfl fd input ?_)
      rintro strict slot bytes rfl found
      exact alone strict slot found
    | writable fd connected => exact wf_callback c _ ((wf_unlogged cleared).writable c fd connected)
    | timer id => exact wf_callback c _ ((wf_unlogged cleared).fired c rfl id)
    | tick fresh =>
      have ticked : Wf { orphans } (s.cleared.translate c .tick).world :=
        cleared.of_core (core_translate c .tick s.cleared).symm
      cases fresh with
      | none => exact ticked
      | some fresh => exact wf_reload ticked c fresh
  exact wf_unlogged reacted

/-- The invariant holds of every state that a run reaches, and without orphans if no Question is
followed by another line in its chunk. -/
theorem wf_run (c : Ctx) (cfg : Config) (accepted : cfg.Accepted) (orphans : Prop) (es : List (Ctx × Event))
    (alone : ¬orphans → Machine.Meets step QuestionAlone (start c cfg) es) :
    Wf { orphans } (Machine.run step (start c cfg) es).1.world := by
  have started : Wf { orphans } (start c cfg).world := Wf.started c cfg accepted orphans
  refine Machine.run_state_invariant step (fun s => Wf { orphans } s.world)
    (fun s e wf (here : ¬orphans → QuestionAlone s e) => wf_step wf e here) _ es ?_ started
  by_cases holds : orphans
  · exact Machine.meets_of_forall step _ _ es fun _ _ _ strict => absurd holds strict
  · simpa [holds] using alone holds

end System

/-! ## UP links -/

/-- A link's connection is open, registered for the link and nobody else's. -/
structure Live (w : World) (i : Nat) : Prop where
  isOpen : 0 ≤ (w.links i).fd ∧ (w.links i).fd ∈ w.openFds
  registered : FdTable.lookup w.loop.fds (w.links i).fd = some (.link i)
  noLink : ∀ j < w.cfg.nLink, j ≠ i → (w.links j).fd ≠ (w.links i).fd
  noSlot : ∀ s < maxPending, (w.pending s).inUse = true → (w.pending s).fd ≠ (w.links i).fd

theorem Wf.live {w : World} {ph : Phase} (wf : Wf ph w) (strict : ¬ph.orphans) {i : Nat}
    (inside : i < w.cfg.nLink) (up : (w.links i).state = .up) : Live w i := by
  have nonneg : 0 ≤ (w.links i).fd := by
    by_contra negative
    exact strict ((wf.links i).orphan up (not_le.mp negative)).1
  have owns : w.own (.link i) = some ((w.links i).fd, .read (.link i)) := by
    simp [own_link w inside, linkOwn, up, nonneg]
  have opened := wf.owned.isOpen _ _ _ owns
  constructor
  case isOpen => exact opened
  case registered =>
    rw [FdTable.lookup_eq_some wf.owned.reading.distinct, wf.owned.reading.entries _ nonneg]
    exact ⟨.link i, by rw [owns]; rfl⟩
  case noLink =>
    intro j inside' other same
    by_cases down : (w.links j).state = .down
    · have closed := (wf.links j).closed down
      omega
    · obtain ⟨watch, owns'⟩ := Wf.own_of_held w inside' down (same ▸ nonneg)
      rw [same] at owns'
      have one := wf.owned.apart _ _ _ _ _ owns' owns
      exact other (by simpa using one)
  case noSlot =>
    intro s inside' inUse same
    have owns' := Wf.pending_owns inside' inUse
    rw [same] at owns'
    have one := wf.owned.apart _ _ _ _ _ owns' owns
    simp at one

/-- In every run from the start whose Questions end their chunks, every UP link is live. -/
theorem up_links_live (c : Ctx) (cfg : Config) (accepted : cfg.Accepted) (es : List (Ctx × System.Event))
    (alone : Machine.Meets System.step System.QuestionAlone (System.start c cfg) es) :
    let w := (Machine.run System.step (System.start c cfg) es).1.world
    ∀ i < w.cfg.nLink, (w.links i).state = .up → Live w i := by
  have kept := System.wf_run c cfg accepted False es fun _ => alone
  intro w i inside up
  exact kept.live id inside up

/-! ## One inbound connection -/

/-- One inbound link. -/
def inboundCfg : Config :=
  { link := [{
      enabled := true, openbridgeIdx := none, ccRole := .inbound, ccLid := 7
      ccRemoteIp := ascii "10.0.0.2" }] }

/-- One inbound link to one peer. -/
def bridgedCfg : Config :=
  { openbridge := [{
      name := ascii "A", enabled := true, peerIp := ascii "10.0.0.1", peerPort := 62032, networkId := 1
      passphrase := ascii "secret" }]
    link := [{
      enabled := true, crossConnectActive := true, tgid := 9, openbridgeSystem := ascii "A", openbridgeIdx := some 0
      ccRole := .inbound, ccLid := 7, ccRemoteIp := ascii "10.0.0.2" }] }

/-- Its other end connects and sends the bytes in one chunk. -/
def connectAndSend (bytes : List Byte) : List (Ctx × System.Event) :=
  [({ now := 0 }, .readable 5 (.accepted [ascii "10.0.0.2"])),
    ({ now := 1 }, .readable 6 (.recv (.data bytes)))]

/-- A Question of eight short lines, the LID the second. -/
def shortQuestion : List Byte := ascii "1\n7\n\n\n\n\n\n\n"

def afterSending (bytes : List Byte) : System :=
  (Machine.run System.step (System.start { now := 0 } inboundCfg) (connectAndSend bytes)).1

theorem alone_shortQuestion : Machine.Meets System.step System.QuestionAlone
    (System.start { now := 0 } inboundCfg) (connectAndSend shortQuestion) := by
  refine ⟨trivial, ?_, trivial⟩
  intro slot found
  have here : FdTable.lookup (System.step (System.start { now := 0 } inboundCfg)
      ({ now := 0 }, .readable 5 (.accepted [ascii "10.0.0.2"]))).1.world.loop.fds 6 =
        some (.pending 0) := by decide +kernel
  obtain rfl : 0 = slot := by simpa using here.symm.trans found
  decide +kernel

theorem up_links_live_short_question :
    let w := (afterSending shortQuestion).world
    ∀ i < w.cfg.nLink, (w.links i).state = .up → Live w i :=
  up_links_live { now := 0 } inboundCfg (by decide) (connectAndSend shortQuestion) alone_shortQuestion

/-- One more newline in the chunk completes the Question again, and the link it has brought up is torn
down and left UP without a descriptor. -/
theorem up_link_without_descriptor : ¬∀ (c : Ctx) (cfg : Config), cfg.Accepted →
    ∀ es : List (Ctx × System.Event), let w := (Machine.run System.step (System.start c cfg) es).1.world
      ∀ i < w.cfg.nLink, (w.links i).state = .up → Live w i := by
  intro live
  have opened := (live { now := 0 } inboundCfg (by decide) (connectAndSend (shortQuestion ++ newline)) 0
    (by decide +kernel) (by decide +kernel)).isOpen.1
  have closed : ((afterSending (shortQuestion ++ newline)).world.links 0).fd = -1 := by decide +kernel
  rw [afterSending] at closed
  omega

end Cc2obp
