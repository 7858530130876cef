import Cc2obp.Cccc.Live
import Cc2obp.Openbridge.BindPorts

/-!
# Start and reload

The sockets of both muxes and the turns of the links and peers at the start and
after a reload keep the owners of the descriptors and timers. A link's turn after
a reload settles it: it is switched on or off as its configuration says.
-/
namespace Cc2obp

open World

namespace Wf

variable {w : World} {ph : Phase} (c : Ctx)

/-! ## Sockets -/

/-- A peer's socket changes with the tables. -/
theorem withPeer (wf : Wf ph w) {peer : Nat} (inside : peer < w.cfg.nOpenbridge) (fd : Int) (active : Bool)
    (openFds : List Int) (loop : EvLoop FdCb TimerCb) (agrees : active = decide (0 ≤ fd))
    (timers : loop.timers = w.loop.timers) (next : loop.nextTimer = w.loop.nextTimer)
    (owned : Owned maxFds stdFds holders (Function.update w.own (.obp peer) (socketOwn fd (.obp peer))) openFds
      loop.fds loop.wfds) :
    Wf ph { w with
      obpFd := Function.update w.obpFd peer fd, obpActive := Function.update w.obpActive peer active
      openFds, loop } := by
  constructor
  case linkSizes => exact wf.linkSizes
  case peerSizes => exact wf.peerSizes
  case owned =>
    have own : World.own { w with
        obpFd := Function.update w.obpFd peer fd, obpActive := Function.update w.obpActive peer active
        openFds, loop } = Function.update w.own (.obp peer) (socketOwn fd (.obp peer)) := by
      funext h
      by_cases same : h = .obp peer
      · subst same
        simp [World.own, inside]
      · -- the other owners are as before
        cases h with
        | obp j =>
          have other : j ≠ peer := fun here => same (by rw [here])
          simp [World.own, other, same]
        | _ => rfl
    rw [own]
    exact owned
  case timers => exact ⟨timers ▸ wf.timers.distinct, by rw [timers, next]; exact wf.timers.below⟩
  case armed =>
    rw [next]
    exact wf.armed.congr fun id k => by simp [evLive, timers]
  case links => exact wf.links
  case beyond => exact wf.beyond
  case sources => exact wf.sources
  case slots => exact wf.slots
  case beyondSlots => exact wf.beyondSlots
  case sockets =>
    intro j
    by_cases here : j = peer
    · subst here
      simpa using agrees
    · simpa [here] using wf.sockets j

theorem bound (wf : Wf ph w) {peer : Nat} (inside : peer < w.cfg.nOpenbridge)
    (inactive : w.obpActive peer = false) : Wf ph (bindPeer c peer w) := by
  have closed : w.obpFd peer < 0 := by simpa [wf.sockets peer] using inactive
  have absent : w.own (.obp peer) = none := by simp [World.own, socketOwn, inside, closed]
  simp only [bindPeer]
  split
  · obtain ⟨fresh, nonneg⟩ := lowestFree_fresh w.openFds
    refine wf.withPeer inside (lowestFree w.openFds) true (lowestFree w.openFds :: w.openFds)
      (evAddFd (lowestFree w.openFds) (.obp peer) w.loop) (by simp [nonneg]) rfl rfl ?_
    have owns : socketOwn (lowestFree w.openFds) (.obp peer) =
        some (lowestFree w.openFds, .read (.obp peer)) := by simp [socketOwn, nonneg]
    rw [owns]
    exact wf.owned.acquire_read absent (mem_holders_obp (Nat.lt_of_lt_of_le inside wf.peerSizes)) fresh nonneg
  · have failed := wf.withPeer inside (-1) false w.openFds w.loop (by simp) rfl rfl (by
      rw [show socketOwn (-1) (.obp peer) = w.own (.obp peer) by simp [absent, socketOwn],
        Function.update_eq_self]
      exact wf.owned)
    rw [← inactive, Function.update_eq_self] at failed
    exact failed

theorem unbound (wf : Wf ph w) {peer : Nat} (inside : peer < w.cfg.nOpenbridge)
    (active : w.obpActive peer = true) : Wf ph (unbindPeer peer w) := by
  have nonneg : 0 ≤ w.obpFd peer := by simpa [wf.sockets peer] using active
  have owns : w.own (.obp peer) = some (w.obpFd peer, .read (.obp peer)) := by
    simp [World.own, socketOwn, inside, nonneg]
  have released := wf.owned.release owns
  rw [wf.owned.del_writing owns] at released
  simp only [unbindPeer, nonneg, if_true]
  exact wf.withPeer inside (-1) false (w.openFds.filter (· ≠ w.obpFd peer)) (evDelFd (w.obpFd peer) w.loop)
    (by simp) rfl rfl released

theorem peerReconciled (wf : Wf ph w) {peer : Nat} (inside : peer < w.cfg.nOpenbridge) :
    Wf ph (reconcilePeer c w peer) := by
  simp only [reconcilePeer]
  split
  next binds => exact wf.bound c inside (by simpa using binds.2)
  · split
    next unbinds => exact wf.unbound inside unbinds.2
    · exact wf

theorem peersReconciled (wf : Wf ph w) : Wf ph (obpMuxReconcile c w) := by
  have turns := List.foldl_turns (reconcilePeer c) (fun rest v => Wf ph v ∧ ∀ p ∈ rest, p < v.cfg.nOpenbridge) ?_
    (List.range w.cfg.nOpenbridge) w ⟨wf, by simp⟩
  · exact turns.1
  · rintro peer rest v ⟨kept, inside⟩
    refine ⟨kept.peerReconciled c (inside peer (by simp)), fun p member => ?_⟩
    rw [reconcilePeer_cfg]
    exact inside p (by simp [member])

/-! ## Links -/

/-- A link that is switched on or off as its configuration says is settled. -/
theorem settle (wf : Wf ph w) {stale : Nat → Prop} (i : Nat) (others : ∀ j, j ≠ i → ph.stale j → stale j)
    (settled : ¬stale i → (w.links i).active = (w.cfg.linkAt i).enabled ∧
      ((w.cfg.linkAt i).enabled = false → (w.links i).state = .down)) : Wf { ph with stale } w := by
  refine { wf with links := fun j => ?_ }
  have link := wf.links j
  refine { link with settled := fun fresh => ?_ }
  by_cases here : j = i
  · subst here
    exact settled fresh
  · exact link.settled (mt (others j here) fresh)

/-- A link that is not dialled again is torn down with its switch in its new position. -/
theorem switched (wf : Wf ph w) (stale : Nat → Prop) {i : Nat} (inside : i < w.cfg.nLink)
    (held : (w.links i).state ≠ .down) (others : ∀ j, j ≠ i → ph.stale j → stale j) (active : Bool)
    (rests : ¬((w.cfg.linkAt i).ccRole = .outbound ∧ active = true))
    (settled : ¬stale i → active = (w.cfg.linkAt i).enabled) :
    Wf { ph with stale } (teardownLinkConnection c i (w.setLink i { w.links i with active })) := by
  have idle := wf.not_waiting held
  have down := wf.dropped stale inside held others (c.now + reconnectDelayS)
    { (w.links i).torn with active } rfl (wf.torn_fd inside held) rfl rfl false (by simpa using rests) rfl settled
  have again : ¬retries (w.setLink i { w.links i with active }) i := by
    simpa [retries, World.setLink] using rests
  rw [teardown_eq]
  simp only [Bool.false_eq_true, if_false] at down
  refine down.of_core ?_
  simp only [again, if_false]
  simp only [World.setLink, Function.update_self, Function.update_idem]
  rfl

theorem linkReconciled (wf : Wf ph w) (stale : Nat → Prop) {i : Nat} (inside : i < w.cfg.nLink)
    (others : ∀ j, j ≠ i → ph.stale j → stale j) : Wf { ph with stale } (reconcileLink c w i) := by
  obtain ⟨closed, inbound, trying, waiting, kept, named, orphan, -⟩ := wf.links i
  simp only [reconcileLink]
  split
  next outbound =>
    split
    next dials =>
      have off : (w.links i).active = false := by simpa using dials.2
      have down : (w.links i).state = .down := by
        by_contra held
        simp [off] at trying
        exact held (trying outbound)
      have idle : (w.links i).reconnectTimer = none := by
        by_contra waits
        exact absurd (off.symm.trans (waiting.mp waits).2.2) (by simp)
      have dialled := wf.dial c stale inside others outbound down w.loop rfl rfl wf.timers
        (by
          have absent : w.handle (.reconnect i) = none := idle
          rw [← absent, Function.update_eq_self]
          exact wf.armed)
        (fun _ => dials.1)
      rw [← idle] at dialled
      exact dialled
    · split
      next drops =>
        split
        next held =>
          have idle := wf.not_waiting held
          have torn := wf.switched c stale inside held others false (by simp)
            (fun _ => by simpa using drops.1.symm)
          have same : ({ w.links i with active := false, reconnectTimer := none } : CcLink) =
              { w.links i with active := false } :=
            congrArg (fun timer => ({ w.links i with active := false, reconnectTimer := timer } : CcLink)) idle.symm
          rw [same, idle]
          exact torn
        next down =>
          have down : (w.links i).state = .down := by simpa using down
          refine wf.withLink stale inside { w.links i with active := false, reconnectTimer := none } w.openFds
            (evTimerCancel (w.links i).reconnectTimer w.loop) others
            ⟨closed, inbound, by simp [down], by simp, kept, named, orphan, fun _ => ⟨by simpa using drops.1.symm, fun _ => down⟩⟩
            ?_ ?_ (wf.timers.timerCancel _) ?_
          · intro has
            simp [down] at named
            simp [named] at has
          · rw [show linkOwn i { w.links i with active := false, reconnectTimer := none } = w.own (.link i) by
              simp [own_link w inside, linkOwn], Function.update_eq_self, evTimerCancel_fds, evTimerCancel_wfds]
            exact wf.owned
          · have cancelled := wf.armed.disarm (.reconnect i) fun id k =>
              evLive_timerCancel (w.links i).reconnectTimer w.loop id k
            have same : (w.links i).keepaliveTimer =
                Function.update w.handle (.reconnect i) none (.keepalive i) := by simp [World.handle]
            dsimp only
            rw [same, Function.update_eq_self, evTimerCancel_nextTimer]
            exact cancelled
      next stays =>
        -- the switch stands as it should already
        have agrees : (w.links i).active = (w.cfg.linkAt i).enabled := by
          cases on : (w.cfg.linkAt i).enabled <;> cases active : (w.links i).active <;> simp_all
        refine wf.settle i others fun _ => ⟨agrees, fun off => ?_⟩
        by_contra held
        exact absurd (trying outbound held) (by simp [agrees, off])
  next role =>
    split
    next drops =>
      exact wf.switched c stale inside (by simpa using drops.2) others _ (by simp [role]) fun _ => rfl
    next stays =>
      have down : (w.cfg.linkAt i).enabled = false → (w.links i).state = .down := by
        intro off
        by_contra held
        exact stays ⟨by simpa using off, held⟩
      refine wf.withLink stale inside { w.links i with active := (w.cfg.linkAt i).enabled } w.openFds w.loop others
        ⟨closed, inbound, by simp [role], by simpa [role] using waiting, kept, named, orphan,
          fun _ => ⟨rfl, down⟩⟩ ?_ ?_ wf.timers ?_
      · intro has j other has' same
        exact other (wf.sources j i has' has same)
      · rw [show linkOwn i { w.links i with active := (w.cfg.linkAt i).enabled } = w.own (.link i) by
          simp [own_link w inside, linkOwn], Function.update_eq_self]
        exact wf.owned
      · dsimp only
        rw [handle_kept]
        exact wf.armed

/-- Every link has had its turn. -/
theorem linksReconciled (wf : Wf ph w) : Wf { ph with stale := fun _ => False } (ccccMuxReconcile c w) := by
  have turns := List.foldl_turns (reconcileLink c)
    (fun rest v => Wf { ph with stale := fun i => i ∈ rest } v ∧ ∀ i ∈ rest, i < v.cfg.nLink) ?_
    (List.range w.cfg.nLink) w ⟨?_, by simp⟩
  · exact turns.1.weaken id (.inr rfl) (by simp)
  · rintro i rest v ⟨kept, inside⟩
    refine ⟨kept.linkReconciled c (fun i => i ∈ rest) (inside i (by simp)) fun j other stale => ?_, fun j member => ?_⟩
    · rcases List.mem_cons.mp stale with here | later
      · exact absurd here other
      · exact later
    · rw [reconcileLink_cfg]
      exact inside j (by simp [member])
  · -- past the configured links nothing is ever switched on
    refine { wf with links := fun i => ?_ }
    have link := wf.links i
    refine { link with settled := fun outside => ?_ }
    have outside : w.cfg.nLink ≤ i := by simpa using outside
    simp [wf.beyond i outside, Config.linkAt_beyond outside]

/-! ## Start -/

theorem initial (cfg : Config) (accepted : cfg.Accepted) (orphans : Prop) :
    Wf { orphans, stale := fun i => i < cfg.nLink } ({ cfg } : World) := by
  have nobody : ({ cfg } : World).own = fun _ => none := by
    funext h
    cases h <;> simp [World.own, socketOwn, pendingOwn, linkOwn]
  have idle : ({ cfg } : World).handle = fun _ => none := by
    funext k
    cases k <;> rfl
  constructor
  case linkSizes => exact accepted.2.1
  case peerSizes => exact accepted.1
  case owned =>
    rw [nobody]
    exact ⟨by simp, holders_few, by simp, by simp, fun fd member => .inl member, .nil, .nil⟩
  case timers => exact ⟨List.nodup_nil, by simp⟩
  case armed =>
    rw [idle]
    exact Armed.nil.congr fun id k => by simp [evLive]
  case links =>
    refine fun i => ⟨by simp, by simp, by simp, by simp, by simp, by simp, by simp, fun fresh => ?_⟩
    have outside : cfg.nLink ≤ i := by simpa using fresh
    simp [Config.linkAt_beyond outside]
  case beyond => simp
  case sources => simp
  case slots => exact fun s _ => ⟨by simp, by simp⟩
  case beyondSlots => simp
  case sockets => simp

/-- A shared socket is opened and registered. -/
theorem withSocket (wf : Wf ph w) (w' : World) (h : Holder) (cb : FdCb) (member : h ∈ holders)
    (absent : w.own h = none)
    (own : w'.own = Function.update w.own h (some (lowestFree w.openFds, .read cb)))
    (openFds : w'.openFds = lowestFree w.openFds :: w.openFds)
    (loop : w'.loop = evAddFd (lowestFree w.openFds) cb w.loop)
    (cfg : w'.cfg = w.cfg) (links : w'.links = w.links) (pending : w'.pending = w.pending)
    (obpFd : w'.obpFd = w.obpFd) (obpActive : w'.obpActive = w.obpActive) : Wf ph w' := by
  obtain ⟨fresh, nonneg⟩ := lowestFree_fresh w.openFds
  have handle : w'.handle = w.handle := by
    funext k
    cases k <;> simp [World.handle, links, pending]
  constructor
  case linkSizes => exact cfg ▸ wf.linkSizes
  case peerSizes => exact cfg ▸ wf.peerSizes
  case owned =>
    rw [own, openFds, loop]
    exact wf.owned.acquire_read absent member fresh nonneg
  case timers => rw [loop]; exact ⟨wf.timers.distinct, wf.timers.below⟩
  case armed => rw [handle, loop]; exact wf.armed
  case links => rw [cfg, links]; exact wf.links
  case beyond => rw [cfg, links]; exact wf.beyond
  case sources => rw [links]; exact wf.sources
  case slots => rw [pending]; exact wf.slots
  case beyondSlots => rw [pending]; exact wf.beyondSlots
  case sockets => rw [obpActive, obpFd]; exact wf.sockets

theorem mem_holders_shared : Holder.voice ∈ holders ∧ Holder.trial ∈ holders ∧ Holder.listen ∈ holders := by
  simp [holders]

/-- The three shared sockets of the CC-CC mux. -/
theorem sharedSockets (wf : Wf ph w) (voice : w.voiceFd = -1) (trial : w.trialFd = -1)
    (listen : w.listenFd = -1) :
    let w₁ := { w.openFd.2 with voiceFd := w.openFd.1 }.onLoop (evAddFd w.openFd.1 .voice)
    let w₂ := { w₁.openFd.2 with trialFd := w₁.openFd.1 }.onLoop (evAddFd w₁.openFd.1 .trial)
    let w₃ := { w₂.openFd.2 with listenFd := w₂.openFd.1 }.onLoop (evAddFd w₂.openFd.1 .listen)
    Wf ph w₃ := by
  intro w₁ w₂ w₃
  obtain ⟨voiceIn, trialIn, listenIn⟩ := mem_holders_shared
  have opens : ∀ (fds : List Int) (cb : FdCb), socketOwn (lowestFree fds) cb =
      some (lowestFree fds, .read cb) := by
    intro fds cb
    simp [socketOwn, (lowestFree_fresh fds).2]
  have first : Wf ph w₁ := by
    refine wf.withSocket w₁ .voice .voice voiceIn (by simp [World.own, socketOwn, voice]) ?_ rfl rfl rfl rfl
      rfl rfl rfl
    funext h
    cases h <;> simp [World.own, w₁, openFd, World.onLoop, opens]
  have second : Wf ph w₂ := by
    refine first.withSocket w₂ .trial .trial trialIn ?_ ?_ rfl rfl rfl rfl rfl rfl rfl
    · simp [World.own, socketOwn, w₁, openFd, World.onLoop, trial]
    · funext h
      cases h <;> simp [World.own, w₂, openFd, World.onLoop, opens]
  refine second.withSocket w₃ .listen .listen listenIn ?_ ?_ rfl rfl rfl rfl rfl rfl rfl
  · simp [World.own, socketOwn, w₂, w₁, openFd, World.onLoop, listen]
  · funext h
    cases h <;> simp [World.own, w₃, openFd, World.onLoop, opens]

theorem dial_frame (i : Nat) (w : World) (j : Nat) (other : i ≠ j) :
    (ccccStartOutboundConnect c i w).links j = w.links j := by
  simp only [ccccStartOutboundConnect]
  split
  · simp [World.setLink, World.onLoop, openFd, other.symm]
  · split <;> simp [scheduleReconnect, timerAfter, World.setLink, World.onLoop, other.symm]

/-- Dialling brings no link UP. -/
theorem dial_notUp (i : Nat) {w : World} (notUp : (w.links i).state ≠ .up) :
    ((ccccStartOutboundConnect c i w).links i).state ≠ .up := by
  simp only [ccccStartOutboundConnect]
  split
  · simp [World.setLink, World.onLoop, openFd]
  · split <;> simpa [scheduleReconnect, timerAfter, World.setLink, World.onLoop] using notUp

/-- The world before the links are dialled at the start. -/
def Undialled (w : World) : Prop :=
  (∀ i, w.links i = {}) ∧ w.voiceFd = -1 ∧ w.trialFd = -1 ∧ w.listenFd = -1

theorem bindPeer_frame (peer : Nat) (w : World) :
    (bindPeer c peer w).cfg = w.cfg ∧ (bindPeer c peer w).links = w.links ∧
      (bindPeer c peer w).voiceFd = w.voiceFd ∧ (bindPeer c peer w).trialFd = w.trialFd ∧
      (bindPeer c peer w).listenFd = w.listenFd := by
  simp only [bindPeer]
  split <;> exact ⟨rfl, rfl, rfl, rfl, rfl⟩

theorem obpStarted (wf : Wf ph w) (undialled : Undialled w) (inactive : ∀ peer, w.obpActive peer = false) :
    Wf ph (obpMuxStart c w) ∧ Undialled (obpMuxStart c w) ∧ (obpMuxStart c w).cfg = w.cfg := by
  have turns := List.foldl_turns
    (fun v peer => if (v.cfg.openbridgeAt peer).enabled then bindPeer c peer v else v)
    (fun rest v => rest.Nodup ∧ (Wf ph v ∧ Undialled v ∧ v.cfg = w.cfg) ∧
      ∀ peer ∈ rest, peer < v.cfg.nOpenbridge ∧ v.obpActive peer = false) ?_ (List.range w.cfg.nOpenbridge) w
    ⟨List.nodup_range, ⟨wf, undialled, rfl⟩, fun peer member => ⟨by simpa using member, inactive peer⟩⟩
  · exact turns.2.1
  · rintro peer rest v ⟨distinct, ⟨kept, none, cfg⟩, fresh⟩
    obtain ⟨new, distinct⟩ := List.nodup_cons.mp distinct
    obtain ⟨inside, off⟩ := fresh peer (by simp)
    refine ⟨distinct, ?_⟩
    split
    · obtain ⟨cfg', links, voice, trial, listen⟩ := bindPeer_frame c peer v
      refine ⟨⟨kept.bound c inside off, ?_, cfg'.trans cfg⟩, fun p member => ?_⟩
      · rw [Undialled, links, voice, trial, listen]
        exact none
      · have other : p ≠ peer := by
          rintro rfl
          exact new member
        rw [cfg', bindPeer_active]
        split <;> simpa [other] using fresh p (by simp [member])
    · exact ⟨⟨kept, none, cfg⟩, fun p member => fresh p (by simp [member])⟩

theorem ccccStarted (wf : Wf ph w) (undialled : Undialled w) (stale : ∀ i, ph.stale i → i < w.cfg.nLink) :
    Wf { ph with stale := fun _ => False } (ccccMuxStart c w) := by
  obtain ⟨blank, voice, trial, listen⟩ := undialled
  have opened := wf.sharedSockets voice trial listen
  unfold ccccMuxStart
  dsimp only
  -- what holds while the links from some index on are still untouched
  have turns := List.foldl_turns (fun v i =>
      if (v.cfg.linkAt i).ccRole = .outbound ∧ (v.cfg.linkAt i).enabled = true then
        ccccStartOutboundConnect c i (v.setLink i { v.links i with active := (v.cfg.linkAt i).enabled })
      else v.setLink i { v.links i with active := (v.cfg.linkAt i).enabled })
    (fun rest v => rest.Nodup ∧ Wf { ph with stale := fun i => i ∈ rest } v ∧
      ∀ i ∈ rest, i < v.cfg.nLink ∧ v.links i = {}) ?_ (List.range w.cfg.nLink) _
    ⟨List.nodup_range, opened.weaken id (.inr rfl) (by simpa using stale), fun i member => ⟨List.mem_range.mp member, blank i⟩⟩
  · exact turns.2.1.weaken id (.inr rfl) (by simp)
  · rintro i rest v ⟨distinct, kept, fresh⟩
    obtain ⟨new, distinct⟩ := List.nodup_cons.mp distinct
    obtain ⟨inside, record⟩ := fresh i (by simp)
    have later : ∀ j ∈ rest, i ≠ j := by
      rintro j member rfl
      exact new member
    have others : ∀ j, j ≠ i → j ∈ i :: rest → j ∈ rest := by
      intro j other member
      exact (List.mem_cons.mp member).resolve_left other
    refine ⟨distinct, ?_⟩
    split
    next dials =>
      have idle : v.handle (.reconnect i) = none := by simp [World.handle, record]
      have dialled := kept.dial c (fun i => i ∈ rest) inside others dials.1 (by simp [record]) v.loop rfl
        rfl kept.timers (by rw [← idle, Function.update_eq_self]; exact kept.armed) (fun _ => dials.2)
      have same : ({ v.links i with active := (v.cfg.linkAt i).enabled } : CcLink) =
          { v.links i with active := true, reconnectTimer := none } := by simp [record, dials.2]
      rw [same]
      refine ⟨dialled, fun j member => ?_⟩
      rw [dial_cfg, dial_frame c i _ j (later j member)]
      simpa [World.setLink, (later j member).symm] using fresh j (by simp [member])
    next rests =>
      refine ⟨kept.withLink (fun i => i ∈ rest) inside { v.links i with active := (v.cfg.linkAt i).enabled } v.openFds v.loop others
        ⟨by simp [record], by simp [record], by simp [record], ?_, by simp [record], by simp [record],
          by simp [record], fun _ => by simp [record]⟩ (by simp [record]) ?_ kept.timers ?_, fun j member => ?_⟩
      · simpa [record] using rests
      · rw [show linkOwn i { v.links i with active := (v.cfg.linkAt i).enabled } = v.own (.link i) by
          simp [own_link v inside, linkOwn], Function.update_eq_self]
        exact kept.owned
      · dsimp only
        rw [handle_kept]
        exact kept.armed
      · simpa [World.setLink, (later j member).symm] using fresh j (by simp [member])

theorem started (cfg : Config) (accepted : cfg.Accepted) (orphans : Prop) :
    Wf { orphans } (ccccMuxStart c (obpMuxStart c { cfg })) := by
  obtain ⟨sockets, undialled, same⟩ :=
    (initial cfg accepted orphans).obpStarted c ⟨fun _ => rfl, rfl, rfl, rfl⟩ fun _ => rfl
  exact sockets.ccccStarted c undialled fun i known => by rw [same]; exact known

/-- Starting changes nothing of the configuration. -/
theorem start_cfg (cfg : Config) : (ccccMuxStart c (obpMuxStart c { cfg })).cfg = cfg := by
  have sockets : (obpMuxStart c { cfg }).cfg = cfg :=
    List.foldl_turns _ (fun _ (v : World) => v.cfg = cfg) (fun peer rest v same => by
      split
      · exact (bindPeer_frame c peer v).1.trans same
      · exact same) _ _ rfl
  refine List.foldl_turns _ (fun _ (v : World) => v.cfg = cfg) (fun i rest v same => ?_) _ _ sockets
  dsimp only
  split
  · exact (dial_cfg c i _).trans same
  · exact same

/-- Binding the peers' sockets touches no link. -/
theorem obpMuxStart_links (cfg : Config) : (obpMuxStart c { cfg }).links = fun _ => {} :=
  List.foldl_turns _ (fun _ (v : World) => v.links = fun _ => {}) (fun peer rest v same => by
    split
    · exact (bindPeer_frame c peer v).2.1.trans same
    · exact same) _ _ rfl

/-- No link is UP at the start. -/
theorem start_notUp (cfg : Config) (i : Nat) : ((ccccMuxStart c (obpMuxStart c { cfg })).links i).state ≠ .up := by
  have sockets := obpMuxStart_links c cfg
  refine List.foldl_turns _ (fun _ (v : World) => ∀ i, (v.links i).state ≠ .up) (fun j rest v none => ?_) _ _
    (fun i => ?_) i
  case refine_2 =>
    show ((obpMuxStart c { cfg }).links i).state ≠ .up
    rw [sockets]
    simp
  have switched : ∀ i, ((v.setLink j { v.links j with active := (v.cfg.linkAt j).enabled }).links i).state ≠ .up := by
    intro i
    by_cases here : i = j
    · simpa [World.setLink, here] using none j
    · simpa [World.setLink, here] using none i
  intro i
  dsimp only
  split
  · by_cases here : i = j
    · subst here
      exact dial_notUp c i (switched i)
    · rw [dial_frame c j _ i (Ne.symm here)]
      exact switched i
  · exact switched i

/-- A reload changes toggles only. Until its turn comes a link may stand as the old ones say. -/
theorem reloaded (wf : Wf ph w) (fresh : Config) :
    Wf { ph with stale := fun _ => True } { w with cfg := configReloadToggles fresh w.cfg } := by
  have same : (configReloadToggles fresh w.cfg).fixed = w.cfg.fixed := fixed_configReloadToggles fresh w.cfg
  have nLink := Config.nLink_of_fixed same
  have nOpenbridge := Config.nOpenbridge_of_fixed same
  have own : World.own { w with cfg := configReloadToggles fresh w.cfg } = w.own := by
    funext h
    cases h <;> simp [World.own, nLink, nOpenbridge]
  constructor
  case linkSizes => exact nLink ▸ wf.linkSizes
  case peerSizes => exact nOpenbridge ▸ wf.peerSizes
  case owned => rw [own]; exact wf.owned
  case timers => exact wf.timers
  case armed => exact wf.armed
  case links =>
    intro i
    have role : ((configReloadToggles fresh w.cfg).linkAt i).ccRole = (w.cfg.linkAt i).ccRole := by
      have fields := congrArg LinkConfig.ccRole (Config.linkAt_of_fixed same i)
      exact fields
    obtain ⟨closed, inbound, trying, waiting, kept, named, orphan, -⟩ := wf.links i
    constructor <;> (try simp only [role]) <;> first | assumption | simp
  case beyond => rw [nLink]; exact wf.beyond
  case sources => exact wf.sources
  case slots => exact wf.slots
  case beyondSlots => exact wf.beyondSlots
  case sockets => exact wf.sockets

end Wf

end Cc2obp
