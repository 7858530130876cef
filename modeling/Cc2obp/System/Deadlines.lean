import Cc2obp.Eventloop.Timers
import Cc2obp.System.Outbound
import Cc2obp.System.Watchdog

/-!
# Deadlines of handshakes

A connection that is to send a Question is closed by a timer. A connection that is
to send an Answer is not: none of the timers that are armed closes it, so a remote
that accepts and stays silent keeps the link where it is.
-/
namespace Cc2obp

open World

/-- A timer is armed that closes the descriptor whenever it fires. -/
def World.Deadline (w : World) (fd : Int) : Prop :=
  ∃ t ∈ w.loop.timers, t.active = true ∧ ∀ c : Ctx, t.due ≤ c.now → fd ∉ (World.fire c t.id w).openFds

/-- Every connection whose handshake is not complete has a deadline. -/
structure Deadlined (w : World) : Prop where
  slots : ∀ s < maxPending, (w.pending s).inUse = true → w.Deadline (w.pending s).fd
  links : ∀ i < w.cfg.nLink, (w.cfg.linkAt i).ccRole = .outbound → (w.links i).state = .handshaking →
    w.Deadline (w.links i).fd

namespace Wf

variable {w : World} {ph : Phase} {i s : Nat}

/-! ## Questions -/

/-- A slot in use is freed by its timeout. -/
theorem slot_deadline (wf : Wf ph w) (idle : ph.busy = none) (inUse : (w.pending s).inUse = true) :
    w.Deadline (w.pending s).fd := by
  have timed := (wf.slots s (by simp [idle])).timed.mpr inUse
  obtain ⟨id, handle⟩ := Option.ne_none_iff_exists'.mp timed
  obtain ⟨t, member, rfl, cb, active⟩ := (wf.armed.agree id (.pendingTimeout s)).mpr handle
  refine ⟨t, member, active, fun c due => ?_⟩
  have nonneg := (wf.owned.isOpen _ _ _ (pending_owns (wf.slot_inside_of_inUse inUse) inUse)).1
  have fires := wf.timers.evDue_eq (mem_due.mpr ⟨member, active, due⟩)
  rw [cb] at fires
  simp only [World.fire, fires, timerCb]
  simp [pendingTimeoutCb, freePending, World.setPending, World.onLoop, closeFd, nonneg]

/-! ## Answers -/

/-- Another holder's descriptor is another. -/
theorem link_apart (wf : Wf ph w) {h : Holder} {fd : Int} {m : Watch FdCb} (inside : i < w.cfg.nLink)
    (waits : (w.links i).state = .handshaking) (owns : w.own h = some (fd, m)) (other : h ≠ .link i) :
    (w.links i).fd ≠ fd := by
  have mine : w.own (.link i) = some ((w.links i).fd, .read (.link i)) := by simp [own_link w inside, linkOwn, waits]
  rintro rfl
  exact other (wf.owned.apart _ _ _ _ _ owns mine)

/-- Dialling closes nothing. -/
theorem dial_keeps (c : Ctx) (j : Nat) {w : World} {fd : Int} (isOpen : fd ∈ w.openFds) :
    fd ∈ (ccccStartOutboundConnect c j w).openFds := by
  simp only [ccccStartOutboundConnect]
  split
  · exact List.mem_cons_of_mem _ isOpen
  · split <;> exact isOpen

/-- No timer closes the connection of a link that waits for an Answer. -/
theorem fire_keeps (wf : Wf ph w) (idle : ph.busy = none) (inside : i < w.cfg.nLink) (waits : (w.links i).state = .handshaking) (c : Ctx)
    (id : Nat) : (w.links i).fd ∈ (World.fire c id w).openFds := by
  have isOpen : (w.links i).fd ∈ w.openFds :=
    (wf.owned.isOpen _ _ _ (show w.own (.link i) = some ((w.links i).fd, .read (.link i)) by
      simp [own_link w inside, linkOwn, waits])).2
  unfold World.fire
  split
  next cb due =>
    have handle := wf.armed.handle_of_live (evLive_of_due due)
    cases cb with
    | reconnect j =>
      simp only [timerCb, Cc2obp.reconnectCb]
      split
      · exact dial_keeps c j isOpen
      · exact isOpen
    | keepalive j =>
      have fired : (w.links j).keepaliveTimer = some id := handle
      have up := (wf.links j).kept.mp (by simp [fired])
      have inside' := wf.inside_of_ne (i := j) (by
        intro blank
        simp [blank] at fired)
      simp only [timerCb]
      rw [Wf.keepaliveCb_eq c up fired]
      split
      · rw [teardown_eq]
        simp only [releasedFds]
        split
        next nonneg =>
          have owns : w.own (.link j) = some ((w.links j).fd, .read (.link j)) := by
            have nonneg : 0 ≤ (w.links j).fd := nonneg
            simp [own_link w inside', linkOwn, up, nonneg]
          have other : j ≠ i := by
            rintro rfl
            rw [up] at waits
            cases waits
          have apart := wf.link_apart inside waits owns (by simpa using other)
          exact List.mem_filter.mpr ⟨isOpen, decide_eq_true apart⟩
        next => exact isOpen
      · exact isOpen
    | pendingTimeout s =>
      have fired : (w.pending s).timeoutTimer = some id := handle
      have inUse := (wf.slots s (by simp [idle])).timed.mp (by simp [fired])
      have apart := wf.link_apart inside waits (pending_owns (wf.slot_inside_of_inUse inUse) inUse) (by simp)
      simp only [timerCb, Cc2obp.pendingTimeoutCb, Cc2obp.freePending]
      split
      · simp only [World.closeFd, World.setPending, World.onLoop, Function.update_self]
        exact List.mem_filter.mpr ⟨isOpen, by simpa using apart⟩
      · exact isOpen
  · exact isOpen

theorem no_deadline (wf : Wf ph w) (idle : ph.busy = none) (inside : i < w.cfg.nLink) (waits : (w.links i).state = .handshaking) :
    ¬w.Deadline (w.links i).fd := by
  rintro ⟨t, -, -, closes⟩
  exact closes { now := t.due } (le_refl _) (wf.fire_keeps idle inside waits _ _)

/-- So every handshake has a deadline exactly when no link waits for an Answer. -/
theorem deadlined_iff (wf : Wf ph w) (idle : ph.busy = none) : Deadlined w ↔ ∀ i, (w.links i).state ≠ .handshaking := by
  constructor
  · intro deadlined i waits
    have inside := wf.inside_of_ne (i := i) (by
      intro blank
      simp [blank] at waits)
    have outbound : (w.cfg.linkAt i).ccRole = .outbound := by
      cases role : (w.cfg.linkAt i).ccRole with
      | outbound => rfl
      | inbound => simpa [waits] using (wf.links i).inbound role
    exact wf.no_deadline idle inside waits (deadlined.links i inside outbound waits)
  · exact fun none_ => ⟨fun s _ inUse => wf.slot_deadline idle inUse, fun i _ _ waits => absurd waits (none_ i)⟩

end Wf

namespace System

variable {s : System}

/-! ## One event -/

/-- A connection of an outbound link succeeds, and a sync source is found for it. -/
def Connects (s : System) (e : Ctx × Event) : Prop :=
  ∃ fd i, e.2 = .writable fd true ∧ 0 ≤ fd ∧ FdTable.lookup s.world.loop.wfds fd = some (.connect i) ∧
    (mintSyncSource s.world e.1.draws).isSome = true

theorem step_connects {e : Ctx × Event} (connects : s.Connects e) :
    ∃ i, ((s.step e).1.world.links i).state = .handshaking := by
  obtain ⟨c, e⟩ := e
  obtain ⟨fd, i, rfl, nonneg, found, minted⟩ := connects
  have called : World.writable c fd true s.world.unlogged = onConnectWritable c i fd true s.world.unlogged := by
    have found' : FdTable.lookup s.world.unlogged.loop.wfds fd = some (.connect i) := found
    simp only [World.writable, not_lt.mpr nonneg, if_false, found']
  obtain ⟨-, own⟩ := connected_links c i fd s.world.unlogged
  have minted' : (mintSyncSource s.world.unlogged c.draws).isSome = true := minted
  rw [if_pos minted'] at own
  refine ⟨i, ?_⟩
  rw [(turn_callback c (e := .writable fd true) rfl).links, called]
  exact own

/-- No other event has a link wait for an Answer. -/
theorem step_waiting {e : Ctx × Event} (other : ¬s.Connects e) {i : Nat}
    (waits : ((s.step e).1.world.links i).state = .handshaking) : (s.world.links i).state = .handshaking := by
  obtain ⟨c, e⟩ := e
  cases e with
  | readable fd input =>
    rw [(turn_callback c (e := .readable fd input) rfl).links] at waits
    by_cases voice : ∃ bytes srcIp srcPort, input = .datagram bytes srcIp srcPort ∧ 0 ≤ fd ∧
        FdTable.lookup s.world.unlogged.loop.fds fd = some .voice
    · obtain ⟨bytes, srcIp, srcPort, rfl, nonneg, found⟩ := voice
      simp only [World.readable, not_lt.mpr nonneg, if_false, found] at waits
      obtain ⟨heard, records⟩ := onVoiceReadable_links c bytes srcIp srcPort s.world.unlogged
      rw [records] at waits
      exact waits
    · exact (readable_steady c fun bytes srcIp srcPort same nonneg found =>
        voice ⟨bytes, srcIp, srcPort, same, nonneg, found⟩).waiting i waits
  | writable fd connected =>
    rw [(turn_callback c (e := .writable fd connected) rfl).links] at waits
    unfold World.writable at waits
    split at waits
    · exact waits
    next nonneg =>
      split at waits
      next j found =>
        cases connected with
        | false => exact (Steady.connectFailed c j fd s.world.unlogged).waiting i waits
        | true =>
          -- no sync source is found, so nothing is sent
          have unminted : ¬(mintSyncSource s.world.unlogged c.draws).isSome = true :=
            fun minted => other ⟨fd, j, rfl, not_lt.mp nonneg, found, minted⟩
          obtain ⟨others, own⟩ := connected_links c j fd s.world.unlogged
          rw [if_neg unminted] at own
          by_cases here : i = j
          · subst here
            rw [own] at waits
            exact waits
          · rw [others i here] at waits
            exact waits
      · exact waits
  | timer number =>
    rw [(turn_callback c (e := .timer number) rfl).links] at waits
    exact (fire_steady c number s.world.unlogged).waiting i waits
  | tick fresh =>
    cases fresh with
    | none =>
      rw [(turn_tick c s).links] at waits
      exact waits
    | some fresh =>
      rw [(turn_reload c s fresh).links] at waits
      have before := (Steady.reconcile c _).waiting i waits
      rw [(reloading_links c fresh s).1] at before
      exact before

end System

/-- No link waits for an Answer at the start. -/
theorem start_notWaiting (c : Ctx) (cfg : Config) (i : Nat) : ((System.start c cfg).world.links i).state ≠ .handshaking := by
  show ((ccccMuxStart c (obpMuxStart c { cfg })).links i).state ≠ .handshaking
  unfold ccccMuxStart
  dsimp only
  refine List.foldl_turns _ (fun _ (v : World) => ∀ i, (v.links i).state ≠ .handshaking) (fun j rest v before => ?_) _ _
    (fun i => ?_) i
  · have switched : Steady c v (v.setLink j { v.links j with active := (v.cfg.linkAt j).enabled }) := .setSoft rfl rfl rfl
    intro i waits
    split at waits
    · exact before i ((switched.trans (.startOutboundConnect c j _)).waiting i waits)
    · exact before i (switched.waiting i waits)
  · show ((obpMuxStart c { cfg }).links i).state ≠ .handshaking
    rw [Wf.obpMuxStart_links]
    simp

/-- In every run every connection that is to send a Question has a deadline, and all connections whose handshake is not
complete have one at all times exactly when no outbound connection ever succeeds. -/
theorem handshakes_deadlined (c : Ctx) (cfg : Config) (accepted : cfg.Accepted) (es : List (Ctx × System.Event)) :
    (∀ early late, es = early ++ late → Deadlined (Machine.run System.step (System.start c cfg) early).1.world) ↔
      Machine.Meets System.step (fun s e => ¬s.Connects e) (System.start c cfg) es := by
  have started : Wf { orphans := True } (System.start c cfg).world := Wf.started c cfg accepted True
  have first : Deadlined (System.start c cfg).world := (started.deadlined_iff rfl).mpr (start_notWaiting c cfg)
  refine Machine.run_states_iff System.step (fun s => Deadlined s.world) (fun s => Wf { orphans := True } s.world)
    (fun s e wf => System.wf_step wf e (by simp)) (fun s e wf here => ?_) _ es started first
  have wf' : Wf { orphans := True } (s.step e).1.world := System.wf_step wf e (by simp)
  rw [wf.deadlined_iff rfl] at here
  rw [wf'.deadlined_iff rfl]
  constructor
  · intro none_ connects
    obtain ⟨i, waits⟩ := System.step_connects connects
    exact none_ i waits
  · exact fun other i waits => here i (System.step_waiting other waits)

/-- An outbound link whose remote turns it away. -/
theorem handshakes_deadlined_refused :
    Machine.Meets System.step (fun s e => ¬s.Connects e) (System.start { now := 0 } outboundCfg)
      [({ now := 1 }, .writable 6 false)] ∧
    ∀ early late, ([({ now := 1 }, .writable 6 false)] : List (Ctx × System.Event)) = early ++ late →
      Deadlined (Machine.run System.step (System.start { now := 0 } outboundCfg) early).1.world := by
  have met : Machine.Meets System.step (fun s e => ¬s.Connects e) (System.start { now := 0 } outboundCfg)
      [({ now := 1 }, .writable 6 false)] := by
    refine ⟨?_, trivial⟩
    rintro ⟨fd, i, same, -⟩
    cases same
  exact ⟨met, (handshakes_deadlined { now := 0 } outboundCfg (by decide) _).mpr met⟩

/-- One whose remote accepts the connection and says nothing. -/
theorem silent_remote : ¬∀ (c : Ctx) (cfg : Config), cfg.Accepted → ∀ es : List (Ctx × System.Event),
    Deadlined (Machine.run System.step (System.start c cfg) es).1.world := by
  intro all
  have deadlined := all { now := 0 } outboundCfg (by decide) [({ now := 1, draws := [7] }, .writable 6 true)]
  have wf : Wf { orphans := True } (Machine.run System.step (System.start { now := 0 } outboundCfg)
      [({ now := 1, draws := [7] }, .writable 6 true)]).1.world := System.wf_run _ _ (by decide) True _ (by simp)
  exact (wf.deadlined_iff rfl).mp deadlined 0 (by decide +kernel)

end Cc2obp
