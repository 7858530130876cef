import Cc2obp.Cccc.Effects
import Cc2obp.Cccc.Question
import Cc2obp.Lib.Handles
import Cc2obp.Lib.Ownership
import Cc2obp.System.Writes

/-!
# Descriptors, timers and their owners

Every open descriptor of the process is owned by one socket, pending slot or
link, and registered with that owner; every timer that can still fire is known
to the link or slot it is for. With this goes what the record of a link of each
role looks like in each of its states. A Question that is answered twice leaves
an inbound link UP without a descriptor, so the invariant allows for that.
-/
namespace Cc2obp

open World

inductive Holder where
  | voice
  | trial
  | listen
  | obp (peer : Nat)
  | pending (slot : Nat)
  | link (idx : Nat)
deriving DecidableEq

/-- One holder for each element of the arrays of the two modules. -/
def holders : List Holder :=
  [.voice, .trial, .listen] ++ (List.range cfgMaxOpenbridge).map .obp ++
    (List.range maxPending).map .pending ++ (List.range cfgMaxLinks).map .link

/-- Standard input, output and error. -/
def stdFds : List Int := [0, 1, 2]

theorem holders_few : holders.length < maxFds := by
  simp [holders, cfgMaxOpenbridge, maxPending, cfgMaxLinks, maxFds]

def socketOwn (fd : Int) (cb : FdCb) : Option (Int × Watch FdCb) :=
  if 0 ≤ fd then some (fd, .read cb) else none

def pendingOwn (s : Nat) (p : PendingConn) : Option (Int × Watch FdCb) :=
  if p.inUse then some (p.fd, .read (.pending s)) else none

def linkOwn (i : Nat) (lk : CcLink) : Option (Int × Watch FdCb) :=
  match lk.state with
  | .down => none
  | .connecting => some (lk.fd, .write (.connect i))
  | .handshaking => some (lk.fd, .read (.link i))
  | .up => if 0 ≤ lk.fd then some (lk.fd, .read (.link i)) else none

/-- What each holder owns according to the records. -/
def World.own (w : World) : Holder → Option (Int × Watch FdCb)
  | .voice => socketOwn w.voiceFd .voice
  | .trial => socketOwn w.trialFd .trial
  | .listen => socketOwn w.listenFd .listen
  | .obp peer => if peer < w.cfg.nOpenbridge then socketOwn (w.obpFd peer) (.obp peer) else none
  | .pending s => if s < maxPending then pendingOwn s (w.pending s) else none
  | .link i => if i < w.cfg.nLink then linkOwn i (w.links i) else none

theorem mem_holders_link {i : Nat} (inside : i < cfgMaxLinks) : Holder.link i ∈ holders := by
  simp [holders, inside]

theorem mem_holders_pending {s : Nat} (inside : s < maxPending) : Holder.pending s ∈ holders := by
  simp [holders, inside]

theorem mem_holders_obp {peer : Nat} (inside : peer < cfgMaxOpenbridge) : Holder.obp peer ∈ holders := by
  simp [holders, inside]

/-- The handle each timer callback's owner keeps. -/
def World.handle (w : World) : TimerCb → Option Nat
  | .reconnect i => (w.links i).reconnectTimer
  | .keepalive i => (w.links i).keepaliveTimer
  | .pendingTimeout s => (w.pending s).timeoutTimer

/-- What a link's record may look like. -/
structure LinkWf (orphans stale : Prop) (lcfg : LinkConfig) (lk : CcLink) : Prop where
  closed : lk.state = .down → lk.fd = -1
  -- an inbound link never connects
  inbound : lcfg.ccRole = .inbound → lk.state = .down ∨ lk.state = .up
  -- an outbound link that is not supposed to be trying has no connection
  trying : lcfg.ccRole = .outbound → lk.state ≠ .down → lk.active = true
  -- it waits for a reconnect between two attempts and only then
  waiting : lk.reconnectTimer ≠ none ↔ lk.state = .down ∧ lcfg.ccRole = .outbound ∧ lk.active = true
  kept : lk.keepaliveTimer ≠ none ↔ lk.state = .up
  named : lk.hasSyncSource = true ↔ lk.state = .handshaking ∨ lk.state = .up
  orphan : lk.state = .up → lk.fd < 0 → orphans ∧ lcfg.ccRole = .inbound ∧ lk.fd = -1
  settled : ¬stale → lk.active = lcfg.enabled ∧ (lcfg.enabled = false → lk.state = .down)

/-- A slot in use is being asked and has its timeout armed; a free slot has none. -/
structure SlotWf (p : PendingConn) : Prop where
  asking : p.inUse = true → p.qlines.length < ccccQuestionNfields
  timed : p.timeoutTimer ≠ none ↔ p.inUse = true

/-- How much of the invariant is in force. -/
structure Phase where
  /-- A Question may have been answered twice. -/
  orphans : Prop
  /-- The slot whose Question is being answered. -/
  busy : Option Nat := none
  /-- Links that the reconcile of a reload has not reached. -/
  stale : Nat → Prop := fun _ => False

structure Wf (ph : Phase) (w : World) : Prop where
  linkSizes : w.cfg.nLink ≤ cfgMaxLinks
  peerSizes : w.cfg.nOpenbridge ≤ cfgMaxOpenbridge
  owned : Owned maxFds stdFds holders w.own w.openFds w.loop.fds w.loop.wfds
  timers : TimersWf w.loop
  armed : Armed w.handle (evLive w.loop) w.loop.nextTimer
  links : ∀ i, LinkWf ph.orphans (ph.stale i) (w.cfg.linkAt i) (w.links i)
  beyond : ∀ i, w.cfg.nLink ≤ i → w.links i = {}
  sources : ∀ i j, (w.links i).hasSyncSource = true → (w.links j).hasSyncSource = true →
    (w.links i).syncSource = (w.links j).syncSource → i = j
  slots : ∀ s, some s ≠ ph.busy → SlotWf (w.pending s)
  beyondSlots : ∀ s, maxPending ≤ s → w.pending s = {}
  sockets : ∀ peer, w.obpActive peer = decide (0 ≤ w.obpFd peer)

/-! ## Parts of a world that the owners do not see -/

section Own
variable (w : World)

theorem own_setLink {i : Nat} (inside : i < w.cfg.nLink) (lk : CcLink) :
    (w.setLink i lk).own = Function.update w.own (.link i) (linkOwn i lk) := by
  funext h
  by_cases same : h = .link i
  · subst same
    simp [World.own, World.setLink, inside]
  · cases h with
    | link j =>
      have other : j ≠ i := fun here => same (by rw [here])
      simp [World.own, World.setLink, other, same]
    | _ => rfl

theorem own_setPending {s : Nat} (inside : s < maxPending) (p : PendingConn) :
    (w.setPending s p).own = Function.update w.own (.pending s) (pendingOwn s p) := by
  funext h
  by_cases same : h = .pending s
  · subst same
    simp [World.own, World.setPending, inside]
  · cases h with
    | pending j =>
      have other : j ≠ s := fun here => same (by rw [here])
      simp [World.own, World.setPending, other, same]
    | _ => rfl

theorem own_link {i : Nat} (inside : i < w.cfg.nLink) : w.own (.link i) = linkOwn i (w.links i) := by
  simp [World.own, inside]

theorem own_pending {s : Nat} (inside : s < maxPending) :
    w.own (.pending s) = pendingOwn s (w.pending s) := by
  simp [World.own, inside]

@[simp] theorem own_onLoop (f : EvLoop FdCb TimerCb → EvLoop FdCb TimerCb) : (w.onLoop f).own = w.own := rfl

@[simp] theorem own_emit (o : Out) : (w.emit o).own = w.own := rfl

@[simp] theorem own_closeFd (fd : Int) : (w.closeFd fd).own = w.own := rfl

theorem own_of_core {w w' : World} (same : w.core = w'.core) : w.own = w'.own := by
  obtain ⟨cfg, -, -, voiceFd, trialFd, listenFd, links, pending, obpFd, -⟩ := (core_eq_iff w w').mp same
  funext h
  cases h <;> simp [World.own, cfg, voiceFd, trialFd, listenFd, links, pending, obpFd]

theorem handle_setLink (i : Nat) (lk : CcLink) : (w.setLink i lk).handle =
    Function.update (Function.update w.handle (.reconnect i) lk.reconnectTimer) (.keepalive i)
      lk.keepaliveTimer := by
  funext k
  cases k with
  | reconnect j =>
    by_cases here : j = i
    · subst here
      simp [World.handle, World.setLink]
    · simp [World.handle, World.setLink, here]
  | keepalive j =>
    by_cases here : j = i
    · subst here
      simp [World.handle, World.setLink]
    · simp [World.handle, World.setLink, here]
  | pendingTimeout s => simp [World.handle, World.setLink]

theorem handle_setPending (s : Nat) (p : PendingConn) : (w.setPending s p).handle =
    Function.update w.handle (.pendingTimeout s) p.timeoutTimer := by
  funext k
  cases k with
  | pendingTimeout j =>
    by_cases here : j = s
    · subst here
      simp [World.handle, World.setPending]
    · simp [World.handle, World.setPending, here]
  | _ => simp [World.handle, World.setPending]

end Own

namespace Wf

variable {w w' : World} {ph : Phase}

theorem of_core (wf : Wf ph w) (same : w.core = w'.core) : Wf ph w' := by
  have own : w'.own = w.own := own_of_core same.symm
  have fields := (core_eq_iff w w').mp same
  obtain ⟨cfg, loop, openFds, voiceFd, trialFd, listenFd, links, pending, obpFd, obpActive⟩ := fields
  have handle : w'.handle = w.handle := by
    funext k
    cases k <;> simp [World.handle, links, pending]
  constructor
  case linkSizes => exact cfg ▸ wf.linkSizes
  case peerSizes => exact cfg ▸ wf.peerSizes
  case owned => rw [own, ← openFds, ← loop]; exact wf.owned
  case timers => exact loop ▸ wf.timers
  case armed => rw [handle, ← loop]; exact wf.armed
  case links => rw [← cfg, ← links]; exact wf.links
  case beyond => rw [← cfg, ← links]; exact wf.beyond
  case sources => rw [← links]; exact wf.sources
  case slots => rw [← pending]; exact wf.slots
  case beyondSlots => rw [← pending]; exact wf.beyondSlots
  case sockets => rw [← obpActive, ← obpFd]; exact wf.sockets

theorem emit (wf : Wf ph w) (o : Out) : Wf ph (w.emit o) := wf.of_core rfl

/-- Less of the invariant. -/
theorem weaken (wf : Wf ph w) {ph' : Phase} (orphans : ph.orphans → ph'.orphans)
    (busy : ph.busy = none ∨ ph.busy = ph'.busy) (stale : ∀ i, ph.stale i → ph'.stale i) : Wf ph' w := by
  refine { wf with links := fun i => ?_, slots := fun s idle => wf.slots s ?_ }
  · have link := wf.links i
    exact { link with
      orphan := fun up negative => (link.orphan up negative).imp_left orphans
      settled := fun fresh => link.settled (mt (stale i) fresh) }
  · rcases busy with none | same
    · simp [none]
    · rwa [same]

/-- A link's record changes, with the tables. -/
theorem withLink (wf : Wf ph w) (stale : Nat → Prop) {i : Nat} (inside : i < w.cfg.nLink) (lk : CcLink)
    (openFds : List Int) (loop : EvLoop FdCb TimerCb) (others : ∀ j, j ≠ i → ph.stale j → stale j)
    (shape : LinkWf ph.orphans (stale i) (w.cfg.linkAt i) lk)
    (source : lk.hasSyncSource = true → ∀ j, j ≠ i → (w.links j).hasSyncSource = true →
      (w.links j).syncSource ≠ lk.syncSource)
    (owned : Owned maxFds stdFds holders (Function.update w.own (.link i) (linkOwn i lk)) openFds loop.fds loop.wfds)
    (timers : TimersWf loop)
    (armed : Armed (Function.update (Function.update w.handle (.reconnect i) lk.reconnectTimer) (.keepalive i)
      lk.keepaliveTimer) (evLive loop) loop.nextTimer) :
    Wf { ph with stale } { w.setLink i lk with openFds, loop } := by
  constructor
  case linkSizes => exact wf.linkSizes
  case peerSizes => exact wf.peerSizes
  case owned =>
    rw [← own_setLink w inside lk] at owned
    exact owned
  case timers => exact timers
  case armed =>
    rw [← handle_setLink w i lk] at armed
    exact armed
  case links =>
    intro j
    -- only the changed record has to be looked at
    by_cases here : j = i
    · subst here
      simpa [World.setLink] using shape
    · have link := wf.links j
      simp only [World.setLink, Function.update_of_ne here]
      exact { link with settled := fun fresh => link.settled (mt (others j here) fresh) }
  case beyond =>
    intro j outside
    have apart : j ≠ i := by
      rintro rfl
      exact absurd inside (not_lt.mpr outside)
    simpa [World.setLink, apart] using wf.beyond j outside
  case sources =>
    intro j k hasJ hasK same
    -- two records at most one of which has changed
    by_cases hereJ : j = i <;> by_cases hereK : k = i <;>
      simp only [World.setLink, hereJ, hereK, Function.update_self, ne_eq, not_false_eq_true,
        Function.update_of_ne] at hasJ hasK same ⊢
    · exact absurd same.symm (source hasJ k hereK hasK)
    · exact absurd same (source hasK j hereJ hasJ)
    · exact wf.sources j k hasJ hasK same
  case slots => exact wf.slots
  case beyondSlots => exact wf.beyondSlots
  case sockets => exact wf.sockets

/-- The same for a slot's record. -/
theorem withPending (wf : Wf ph w) {s : Nat} (inside : s < maxPending) (p : PendingConn)
    (openFds : List Int) (loop : EvLoop FdCb TimerCb) (shape : some s ≠ ph.busy → SlotWf p)
    (owned : Owned maxFds stdFds holders (Function.update w.own (.pending s) (pendingOwn s p)) openFds loop.fds
      loop.wfds)
    (timers : TimersWf loop)
    (armed : Armed (Function.update w.handle (.pendingTimeout s) p.timeoutTimer) (evLive loop) loop.nextTimer) :
    Wf ph { w.setPending s p with openFds, loop } := by
  constructor
  case linkSizes => exact wf.linkSizes
  case peerSizes => exact wf.peerSizes
  case owned =>
    rw [← own_setPending w inside p] at owned
    exact owned
  case timers => exact timers
  case armed =>
    rw [← handle_setPending w s p] at armed
    exact armed
  case links => exact wf.links
  case beyond => exact wf.beyond
  case sources => exact wf.sources
  case slots =>
    intro j idle
    by_cases here : j = s
    · subst here
      simpa [World.setPending] using shape idle
    · simpa [World.setPending, here] using wf.slots j idle
  case beyondSlots =>
    intro j outside
    have apart : j ≠ s := by
      rintro rfl
      exact absurd inside (not_lt.mpr outside)
    simpa [World.setPending, apart] using wf.beyondSlots j outside
  case sockets => exact wf.sockets

/-! ## Changes that no owner sees -/

/-- A record without its buffers and the time it was last heard. -/
def frame (lk : CcLink) : CcLink := { lk with rxbuf := [], hslines := [], lastKeepaliveRecv := 0 }

theorem linkWf_congr {orphans stale : Prop} {lcfg : LinkConfig} {lk lk' : CcLink}
    (shape : LinkWf orphans stale lcfg lk) (same : frame lk' = frame lk) : LinkWf orphans stale lcfg lk' := by
  obtain ⟨state, active, fd, reconnect, keepalive, sync, has, -⟩ := CcLink.mk.inj same
  obtain ⟨closed, inbound, trying, waiting, kept, named, orphan, settled⟩ := shape
  constructor <;> simpa only [state, active, fd, reconnect, keepalive, has]

/-- A link's record changes in its buffers or in when it was heard. -/
theorem setLink_soft (wf : Wf ph w) {i : Nat} (inside : i < w.cfg.nLink) (lk : CcLink)
    (same : frame lk = frame (w.links i)) : Wf ph (w.setLink i lk) := by
  obtain ⟨state, active, fd, reconnect, keepalive, sync, has, -⟩ := CcLink.mk.inj same
  refine wf.withLink ph.stale inside lk w.openFds w.loop (fun _ _ here => here) (linkWf_congr (wf.links i) same)
    ?_ ?_ wf.timers ?_
  · intro named j other has' equal
    exact other (wf.sources j i has' (by rwa [← has]) (by rw [equal, sync]))
  · have owns : linkOwn i lk = w.own (.link i) := by simp [own_link w inside, linkOwn, state, fd]
    rw [owns, Function.update_eq_self]
    exact wf.owned
  · have handles : Function.update (Function.update w.handle (.reconnect i) lk.reconnectTimer) (.keepalive i)
        lk.keepaliveTimer = w.handle := by
      rw [reconnect, keepalive, show (w.links i).reconnectTimer = w.handle (.reconnect i) from rfl,
        Function.update_eq_self, show (w.links i).keepaliveTimer = w.handle (.keepalive i) from rfl,
        Function.update_eq_self]
    rw [handles]
    exact wf.armed

/-- A slot's record changes in its buffers. -/
theorem setPending_soft (wf : Wf ph w) {s : Nat} (inside : s < maxPending) (p : PendingConn)
    (inUse : p.inUse = (w.pending s).inUse) (fd : p.fd = (w.pending s).fd)
    (timer : p.timeoutTimer = (w.pending s).timeoutTimer)
    (short : some s ≠ ph.busy → p.inUse = true → p.qlines.length < ccccQuestionNfields) :
    Wf ph (w.setPending s p) := by
  refine wf.withPending inside p w.openFds w.loop (fun idle => ⟨short idle, ?_⟩) ?_ wf.timers ?_
  · rw [timer, inUse]
    exact (wf.slots s idle).timed
  · have owns : pendingOwn s p = w.own (.pending s) := by simp [own_pending w inside, pendingOwn, inUse, fd]
    rw [owns, Function.update_eq_self]
    exact wf.owned
  · rw [timer, show (w.pending s).timeoutTimer = w.handle (.pendingTimeout s) from rfl,
      Function.update_eq_self]
    exact wf.armed

/-! ## Held links -/

/-- A link whose record is not blank is one of the configured. -/
theorem inside_of_ne (wf : Wf ph w) {i : Nat} (used : w.links i ≠ {}) : i < w.cfg.nLink := by
  by_contra outside
  exact used (wf.beyond i (not_lt.mp outside))

/-- A connected or connecting link waits for no reconnect. -/
theorem not_waiting (wf : Wf ph w) {i : Nat} (held : (w.links i).state ≠ .down) :
    (w.links i).reconnectTimer = none := by
  by_contra waits
  exact held ((wf.links i).waiting.mp waits).1

/-- A link that is not UP has no keepalive timer. -/
theorem not_kept (wf : Wf ph w) {i : Nat} (notUp : (w.links i).state ≠ .up) :
    (w.links i).keepaliveTimer = none := by
  by_contra keeps
  exact notUp ((wf.links i).kept.mp keeps)

/-- A link with a descriptor owns it. -/
theorem own_of_held (w : World) {i : Nat} (inside : i < w.cfg.nLink) (held : (w.links i).state ≠ .down)
    (nonneg : 0 ≤ (w.links i).fd) : ∃ watch, w.own (.link i) = some ((w.links i).fd, watch) := by
  rw [own_link w inside, linkOwn]
  cases state : (w.links i).state <;> simp [state, nonneg] at held ⊢

/-- Of the links without a descriptor only an orphan is not DOWN. -/
theorem orphan_of_closed (wf : Wf ph w) {i : Nat} (inside : i < w.cfg.nLink)
    (held : (w.links i).state ≠ .down) (negative : (w.links i).fd < 0) :
    (w.links i).state = .up ∧ (w.links i).fd = -1 := by
  have owns := own_link w inside
  cases state : (w.links i).state with
  | down => exact absurd state held
  | up => exact ⟨rfl, ((wf.links i).orphan state negative).2.2⟩
  | connecting =>
    rw [linkOwn, state] at owns
    exact absurd (wf.owned.isOpen _ _ _ owns).1 (by omega)
  | handshaking =>
    rw [linkOwn, state] at owns
    exact absurd (wf.owned.isOpen _ _ _ owns).1 (by omega)

/-- What a held link's descriptor leaves behind when it is released. -/
theorem owned_released (wf : Wf ph w) {i : Nat} (inside : i < w.cfg.nLink) (held : (w.links i).state ≠ .down) :
    Owned maxFds stdFds holders (Function.update w.own (.link i) none) (releasedFds (w.links i).fd w.openFds)
      (releasedLoop (w.links i).fd w.loop).fds (releasedLoop (w.links i).fd w.loop).wfds := by
  unfold releasedFds releasedLoop
  by_cases nonneg : 0 ≤ (w.links i).fd
  · obtain ⟨watch, owns⟩ := own_of_held w inside held nonneg
    rw [if_pos nonneg, if_pos nonneg]
    exact wf.owned.release owns
  · obtain ⟨up, -⟩ := wf.orphan_of_closed inside held (by omega)
    have absent : w.own (.link i) = none := by simp [own_link w inside, linkOwn, up, nonneg]
    rw [← absent, Function.update_eq_self, if_neg nonneg, if_neg nonneg]
    exact wf.owned

end Wf

end Cc2obp
