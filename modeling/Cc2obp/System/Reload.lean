import Cc2obp.Openbridge.BindPorts
import Cc2obp.System.CcCalls
import Cc2obp.System.Outbound

/-!
# Reloads

After a reload the links and the sockets stand as the toggles say, links that
stay enabled are not touched, and the same file loaded again only retries the
sockets that could not be bound.
-/
namespace Cc2obp

open World

/-! ## One link's turn -/

section Turn
variable (c : Ctx) {w : World} {i j : Nat}

theorem scheduleReconnect_other (other : j ≠ i) : (scheduleReconnect c i w).links j = w.links j := by
  simp [scheduleReconnect, timerAfter, World.setLink, World.onLoop, other]

theorem dial_other (other : j ≠ i) : (ccccStartOutboundConnect c i w).links j = w.links j := by
  simp only [ccccStartOutboundConnect]
  split
  · simp [World.openFd, World.setLink, World.onLoop, other]
  · split
    · rw [scheduleReconnect_other c other]
      simp [World.setLink, other]
    · simp [World.setLink, other]

theorem teardown_other (other : j ≠ i) : (teardownLinkConnection c i w).links j = w.links j := by
  rw [teardown_links, Function.update_of_ne other]

theorem reconcileLink_other (other : j ≠ i) : (reconcileLink c w i).links j = w.links j := by
  simp only [reconcileLink]
  split
  · split
    · rw [dial_other c other]
      simp [World.setLink, other]
    · split
      · split
        · rw [teardown_other c other]
          simp [World.setLink, World.onLoop, other]
        · simp [World.setLink, World.onLoop, other]
      · rfl
  · split
    · rw [teardown_other c other]
      simp [World.setLink, other]
    · simp [World.setLink, other]

/-- A link that stands as its toggle says has nothing to do in its turn. -/
theorem reconcileLink_settled (active : (w.links i).active = (w.cfg.linkAt i).enabled)
    (down : (w.cfg.linkAt i).enabled = false → (w.links i).state = .down) : reconcileLink c w i = w := by
  simp only [reconcileLink]
  split
  · split
    next dials => simp [active, dials.1] at dials
    next =>
      split
      next drops => simp [active] at drops
      next => rfl
  · have same : w.setLink i { w.links i with active := (w.cfg.linkAt i).enabled } = w := by
      rw [← active]
      simp [World.setLink]
    split
    next drops => exact absurd (down (by simpa using drops.1)) drops.2
    next => exact same

end Turn

/-- A link that was switched on and stays switched on is not touched. -/
theorem reconcile_untouched (c : Ctx) (w : World) {i : Nat} (inside : i < w.cfg.nLink)
    (active : (w.links i).active = true) (enabled : (w.cfg.linkAt i).enabled = true) :
    (ccccMuxReconcile c w).links i = w.links i := by
  obtain ⟨v, cfg, same, last⟩ := List.foldl_own (reconcileLink c) (fun v => v.links i) (fun v => v.cfg = w.cfg) i
    (fun v j kept => (reconcileLink_cfg c j v).trans kept) (fun v j _ apart => reconcileLink_other c apart.symm)
    (List.range w.cfg.nLink) List.nodup_range (by simpa using inside) w rfl
  have settled := reconcileLink_settled c (w := v) (i := i) (by rw [same, cfg, active, enabled])
    (by simp [cfg, enabled])
  rw [settled] at last
  exact last.trans same

/-- Where every link stands as its toggle says there is nothing to do. -/
theorem reconcile_settled (c : Ctx) {w : World} {ph : Phase} (wf : Wf ph w) (fresh : ∀ i, ¬ph.stale i) :
    ccccMuxReconcile c w = w :=
  List.foldl_turns (reconcileLink c) (fun _ v => v = w) (fun i rest v same => by
    obtain ⟨active, down⟩ := (wf.links i).settled (fresh i)
    rw [same]
    exact reconcileLink_settled c active down) _ w rfl

/-! ## One peer's turn -/

section Peer
variable (c : Ctx) {w : World} {p q : Nat}

/-- A peer's socket and whether it is in use. -/
def World.socketOf (w : World) (p : Nat) : Int × Bool := (w.obpFd p, w.obpActive p)

theorem reconcilePeer_other (other : p ≠ q) : (reconcilePeer c w q).socketOf p = w.socketOf p := by
  have bound : (bindPeer c q w).socketOf p = w.socketOf p := by
    unfold bindPeer
    split <;> simp [World.socketOf, World.openFd, World.onLoop, other]
  have unbound : (unbindPeer q w).socketOf p = w.socketOf p := by
    by_cases open_ : 0 ≤ w.obpFd q <;> simp [unbindPeer, open_, World.socketOf, World.onLoop, World.closeFd, other]
  simp only [reconcilePeer]
  split
  · exact bound
  · split
    · exact unbound
    · rfl

theorem reconcilePeer_self : (reconcilePeer c w p).obpActive p =
    if (w.cfg.openbridgeAt p).enabled then w.obpActive p || c.bindOk p else false := by
  cases enabled : (w.cfg.openbridgeAt p).enabled <;> cases active : w.obpActive p <;>
    simp [reconcilePeer, enabled, active, bindPeer_active, unbindPeer_active]
  split <;> simp_all

theorem reconcilePeer_kept (enabled : (w.cfg.openbridgeAt p).enabled = true) (active : w.obpActive p = true) :
    reconcilePeer c w p = w := by
  simp [reconcilePeer, enabled, active]

end Peer

/-- What a reconcile makes of a peer's socket. -/
theorem obpReconcile_active (c : Ctx) (w : World) {p : Nat} (known : p < w.cfg.nOpenbridge) :
    (obpMuxReconcile c w).obpActive p =
      if (w.cfg.openbridgeAt p).enabled then w.obpActive p || c.bindOk p else false := by
  obtain ⟨v, cfg, same, last⟩ := List.foldl_own (reconcilePeer c) (fun v => v.socketOf p) (fun v => v.cfg = w.cfg) p
    (fun v q kept => (reconcilePeer_cfg c q v).trans kept) (fun v q _ apart => reconcilePeer_other c apart.symm)
    (List.range w.cfg.nOpenbridge) List.nodup_range (by simpa using known) w rfl
  have active : v.obpActive p = w.obpActive p := congrArg Prod.snd same
  have turn := reconcilePeer_self c (w := v) (p := p)
  rw [cfg, active] at turn
  exact (congrArg Prod.snd last).trans turn

/-- A peer that is switched on and has a socket keeps it. -/
theorem obpReconcile_kept (c : Ctx) (w : World) {p : Nat} (known : p < w.cfg.nOpenbridge)
    (enabled : (w.cfg.openbridgeAt p).enabled = true) (active : w.obpActive p = true) :
    (obpMuxReconcile c w).socketOf p = w.socketOf p := by
  obtain ⟨v, cfg, same, last⟩ := List.foldl_own (reconcilePeer c) (fun v => v.socketOf p) (fun v => v.cfg = w.cfg) p
    (fun v q kept => (reconcilePeer_cfg c q v).trans kept) (fun v q _ apart => reconcilePeer_other c apart.symm)
    (List.range w.cfg.nOpenbridge) List.nodup_range (by simpa using known) w rfl
  have still : v.obpActive p = true := (congrArg Prod.snd same).trans active
  rw [reconcilePeer_kept c (by rw [cfg]; exact enabled) still] at last
  exact last.trans same

/-- The enabled peers that have no socket, in order. -/
def World.failedBinds (w : World) : List Nat :=
  (List.range w.cfg.nOpenbridge).filter fun p => (w.cfg.openbridgeAt p).enabled && !w.obpActive p

/-- `bind_peer` once more for each of them. -/
def World.retryBinds (c : Ctx) (w : World) : World := w.failedBinds.foldl (fun w p => bindPeer c p w) w

theorem bindPeer_socketOther (c : Ctx) {w : World} {p q : Nat} (other : p ≠ q) :
    (bindPeer c q w).obpActive p = w.obpActive p := by
  rw [bindPeer_active]
  split <;> simp [other]

theorem bindPeer_cfg (c : Ctx) (w : World) (p : Nat) : (bindPeer c p w).cfg = w.cfg := (SocketsOnly.bindPeer c p w).cfg

theorem retries_unlogged (c : Ctx) (peers : List Nat) (w : World) :
    { peers.foldl (fun w p => bindPeer c p w) w.unlogged with out := w.out } = peers.foldl (fun w p => bindPeer c p w) w := by
  induction peers generalizing w with
  | nil => rfl
  | cons p rest ih =>
    have turn : bindPeer c p w.unlogged = (bindPeer c p w).unlogged := by
      unfold bindPeer
      split <;> rfl
    rw [List.foldl_cons, List.foldl_cons, turn, ← ih (bindPeer c p w), (SocketsOnly.bindPeer c p w).out]

/-- Where no disabled peer has a socket, a reconcile retries the failed binds and does nothing else. -/
theorem obpReconcile_retries (c : Ctx) (w : World)
    (settled : ∀ p < w.cfg.nOpenbridge, w.obpActive p = true → (w.cfg.openbridgeAt p).enabled = true) :
    obpMuxReconcile c w = w.retryBinds c := by
  have turns : ∀ (l : List Nat) (v : World), l.Nodup → v.cfg = w.cfg → (∀ p ∈ l, p < w.cfg.nOpenbridge) →
      (∀ p ∈ l, v.obpActive p = w.obpActive p) → l.foldl (reconcilePeer c) v =
        (l.filter fun p => (w.cfg.openbridgeAt p).enabled && !w.obpActive p).foldl (fun w p => bindPeer c p w) v := by
    intro l
    induction l with
    | nil => simp
    | cons p rest ih =>
      intro v distinct cfg known same
      obtain ⟨absent, distinct⟩ := List.nodup_cons.mp distinct
      have active := same p (by simp)
      by_cases failed : (w.cfg.openbridgeAt p).enabled = true ∧ w.obpActive p = false
      · have turn : reconcilePeer c v p = bindPeer c p v := by simp [reconcilePeer, cfg, active, failed]
        rw [List.foldl_cons, turn, List.filter_cons_of_pos (by simp [failed]), List.foldl_cons]
        refine ih _ distinct ((bindPeer_cfg c v p).trans cfg) (fun q member => known q (by simp [member]))
          fun q member => ?_
        have apart : q ≠ p := by
          rintro rfl
          exact absent member
        rw [bindPeer_socketOther c apart]
        exact same q (by simp [member])
      · have turn : reconcilePeer c v p = v := by
          have enabled := settled p (known p (by simp))
          cases on : (w.cfg.openbridgeAt p).enabled <;> cases bound : w.obpActive p <;>
            simp [on, bound] at enabled failed <;> simp [reconcilePeer, cfg, active, on, bound]
        rw [List.foldl_cons, turn, List.filter_cons_of_neg (by simpa using failed)]
        exact ih v distinct cfg (fun q member => known q (by simp [member])) fun q member => same q (by simp [member])
  exact turns _ w List.nodup_range rfl (by simp) fun p _ => rfl

/-! ## Link-down calls -/

/-- The frames toward OpenBridge that leave for a link. -/
def Out.isFrameOf (i : Nat) : Out → Bool
  | .udp _ (.dmrd link _) .. => link == i
  | _ => false

/-- The VOICE_TERM of a cc-origin call on record. -/
def termOf (lcfg : LinkConfig) (lr : LinkRuntime) (seq : Byte) : DmrdBody :=
  fillDmrd lcfg lr.call seq vtermFlags (buildHeadTermPayload lr.call.lc true)

/-- What becomes of a link in a chain of link-down calls: either nothing at all, or it is taken down and
the VOICE_TERM of its cc-origin call is all that is sent for it. -/
inductive Downed (w : World) (i : Nat) (g : Stage) (out : List Out) (g' : Stage) : Prop
  | untouched (up : g'.up i = g.up i) (record : g'.tr.link i = g.tr.link i)
      (silent : out.filter (Out.isFrameOf i) = [])
  | down (was : g.up i = true) (up : g'.up i = false) (record : (g'.tr.link i).hasCall = false)
      (idle : (g.tr.link i).inCall .cc = false → out.filter (Out.isFrameOf i) = [])
      (ended : (g.tr.link i).inCall .cc = true → ∃ peer seq, (w.cfg.linkAt i).openbridgeIdx = some peer ∧
        out.filter (Out.isFrameOf i) = w.datagram (.obpSendDmrd i peer (termOf (w.cfg.linkAt i) (g.tr.link i) seq)))

theorem frames_of_other {w : World} {i : Nat} {outs : List TrOut} (foreign : ∀ t ∈ outs, t.link ≠ i) :
    (w.messages outs).filter (Out.isFrameOf i) = [] := by
  rw [List.filter_eq_nil_iff]
  intro o member
  obtain ⟨t, sent, writes⟩ := mem_messages w member
  have other := foreign t sent
  cases writes with
  | dmrd link peer body => simpa [Out.isFrameOf, TrOut.link] using other
  | _ => simp [Out.isFrameOf]

theorem Moment.downed {c : Ctx} {w : World} {g g' : Stage} {out : List Out}
    (moment : Moment c w TrEvent.isDown g out g') (resolved : Resolved w.cfg g.tr) (i : Nat) : Downed w i g out g' := by
  cases moment with
  | send o plain =>
    refine .untouched rfl rfl ?_
    cases o with
    | call => exact absurd plain id
    | tcp => rfl
    | udp fd msg bytes ip port => cases msg <;> first | rfl | exact absurd plain id
  | frame peer body arrived =>
    obtain ⟨j, same⟩ := arrived
    cases same
  | tick now =>
    obtain ⟨j, same⟩ := now
    cases same
  | @call up up' tr call rand move fits =>
    obtain ⟨j, same⟩ := fits
    -- of the calls only a link's end is possible
    have down : call = .linkDown j := by
      cases call <;> simp [TrCall.event] at same
      rw [same]
    subst down
    cases move with
    | send o plain => exact absurd plain id
    | linkDown j was =>
      have own : LocalAt j (translatorStep (w.env c.now) (.ccccLinkDown j)) := translatorStep_local _ _ _ rfl
      -- the call ends the link's own call or concerns another
      by_cases here : i = j
      · subst here
        refine .down was (by simp) (linkDown_hasCall (w.env c.now) i tr) (fun idle => ?_) fun active => ?_
        · have silent : (translatorStep (w.env c.now) (.ccccLinkDown i) tr).2 = [] := linkDown_idle _ i tr idle
          simp [TrCall.event, silent, World.messages, Out.isFrameOf]
        · obtain ⟨peer, known⟩ := Option.ne_none_iff_exists'.mp (resolved i active)
          have sent : (translatorStep (w.env c.now) (.ccccLinkDown i) tr).2 = _ :=
            linkDown_active (w.env c.now) known active
          refine ⟨peer, BitVec.ofNat 8 (tr.obpSeqCtr peer), known, ?_⟩
          rw [show (TrCall.linkDown i).event rand = .ccccLinkDown i from rfl, sent,
            messages_frames _ _ (by simp [TrOut.isCc]), List.filter_cons_of_neg (by simp [Out.isFrameOf])]
          simp only [List.flatMap_cons, List.flatMap_nil, List.append_nil]
          refine List.filter_eq_self.mpr fun o member => ?_
          simp only [World.datagram] at member
          split at member
          · cases member
          · rw [List.mem_singleton.mp member]
            simp [Out.isFrameOf]
      · refine .untouched (by simp [here]) (own.other tr i here) ?_
        rw [List.filter_cons_of_neg (by simp [Out.isFrameOf])]
        exact frames_of_other fun t member => by
          rw [own.outs tr t member]
          exact Ne.symm here

/-- One link through a whole chain of link-down calls. -/
theorem downed_trace {c : Ctx} {w : World} {g g' : Stage} {out : List Out}
    (moments : Trace (Moment c w TrEvent.isDown) g out g') (calls : CallsUp w.cfg g) (i : Nat) :
    Downed w i g out g' := by
  have whole := moments.invariant (fun g' log => CallsUp w.cfg g' ∧ Downed w i g log g') ?_ []
    ⟨calls, .untouched rfl rfl rfl⟩
  · simpa using whole.2
  · rintro h before out h' ⟨calls, first⟩ moment
    refine ⟨calls.moment moment, ?_⟩
    have next := moment.downed calls.resolved i
    cases first with
    | untouched up record silent =>
      cases next with
      | untouched up' record' silent' =>
        exact .untouched (up'.trans up) (record'.trans record) (by simp [silent, silent'])
      | down was up' record' idle ended =>
        rw [up] at was
        rw [record] at idle ended
        exact .down was up' record' (fun here => by simp [silent, idle here]) fun here => by
          obtain ⟨peer, seq, known, sent⟩ := ended here
          exact ⟨peer, seq, known, by simp [silent, sent]⟩
    | down was up record idle ended =>
      cases next with
      | untouched up' record' silent' =>
        exact .down was (up'.trans up) (by rw [record']; exact record) (fun here => by simp [idle here, silent'])
          fun here => by
            obtain ⟨peer, seq, known, sent⟩ := ended here
            exact ⟨peer, seq, known, by simp [sent, silent']⟩
      | down was' =>
        rw [up] at was'
        cases was'

/-! ## The state a reload leaves -/

/-- Toggles come by name, and a reload leaves the names. -/
theorem configReloadToggles_again (fresh cfg : Config) :
    configReloadToggles fresh (configReloadToggles fresh cfg) = configReloadToggles fresh cfg := by
  have peers : ∀ o : ObpPeerConfig, (o.reload fresh.openbridge).reload fresh.openbridge = o.reload fresh.openbridge := by
    intro o
    cases found : fresh.openbridge.find? fun f => f.name == o.name <;> simp [ObpPeerConfig.reload, found]
  have links : ∀ l : LinkConfig, (l.reload fresh.link).reload fresh.link = l.reload fresh.link := by
    intro l
    cases found : fresh.link.find? fun f => f.name == l.name <;> simp [LinkConfig.reload, found]
  simp [configReloadToggles, Function.comp_def, peers, links]

namespace System

variable {s : System} {ph : Phase}

theorem reload_links (c : Ctx) (fresh : Config) (s : System) :
    (s.doReload c fresh).world.links = (ccccMuxReconcile c (s.world.reload fresh).unlogged).links := by
  rw [doReload_eq, links_of_core (core_callback c _ _), (SocketsOnly.reconcile c _).links, midReload]
  exact links_of_core (core_callback c _ _)

theorem reload_sockets (c : Ctx) (fresh : Config) (s : System) {p : Nat} :
    (s.doReload c fresh).world.socketOf p =
      (obpMuxReconcile c (s.midReload c fresh).world.unlogged).socketOf p := by
  have core := core_callback c (obpMuxReconcile c) (s.midReload c fresh)
  obtain ⟨-, -, -, -, -, -, -, -, obpFd, obpActive⟩ := (core_eq_iff _ _).mp core
  rw [doReload_eq]
  simp only [World.socketOf, obpFd, obpActive]

theorem midReload_net (wf : Wf ph s.world) (c : Ctx) (fresh : Config) :
    SameNet (s.world.reload fresh) (s.midReload c fresh).world :=
  callback_net c (s := { s with world := s.world.reload fresh }) (reconcile_works c (wf_beforeReconcile wf fresh))

end System

/-! ## Sockets and timers, by the invariant -/

/-- A peer's socket is open and read for the peer. -/
def HasSocket (w : World) (p : Nat) : Prop :=
  0 ≤ w.obpFd p ∧ w.obpFd p ∈ w.openFds ∧ FdTable.lookup w.loop.fds (w.obpFd p) = some (.obp p)

/-- A peer has no socket, and none is read for it. -/
def NoSocket (w : World) (p : Nat) : Prop :=
  w.obpFd p < 0 ∧ ∀ fd, 0 ≤ fd → FdTable.lookup w.loop.fds fd ≠ some (.obp p)

/-- A link that is switched off. -/
structure SwitchedOff (w : World) (i : Nat) : Prop where
  state : (w.links i).state = .down
  fd : (w.links i).fd = -1
  unnamed : (w.links i).hasSyncSource = false
  inactive : (w.links i).active = false
  handles : (w.links i).keepaliveTimer = none ∧ (w.links i).reconnectTimer = none
  timers : evArmed w.loop (.keepalive i) = 0 ∧ evArmed w.loop (.reconnect i) = 0

namespace Wf

variable {w : World} {ph : Phase}

theorem hasSocket (wf : Wf ph w) {p : Nat} (known : p < w.cfg.nOpenbridge) (active : w.obpActive p = true) :
    HasSocket w p := by
  have nonneg : 0 ≤ w.obpFd p := by simpa [wf.sockets] using active
  have owns : w.own (.obp p) = some (w.obpFd p, .read (.obp p)) := by simp [World.own, socketOwn, known, nonneg]
  obtain ⟨-, isOpen⟩ := wf.owned.isOpen _ _ _ owns
  refine ⟨nonneg, isOpen, (FdTable.lookup_eq_some wf.owned.reading.distinct).mpr ?_⟩
  exact (wf.owned.reading.entries _ nonneg).mpr ⟨.obp p, by simp [owns, Watch.reads]⟩

theorem noSocket (wf : Wf ph w) {p : Nat} (inactive : w.obpActive p = false) : NoSocket w p := by
  have closed : w.obpFd p < 0 := by simpa [wf.sockets] using inactive
  refine ⟨closed, fun fd nonneg found => ?_⟩
  obtain ⟨h, owns⟩ := wf.owner_of_read nonneg found
  -- a socket that is read for the peer is the peer's
  cases h with
  | obp q =>
    simp only [World.own, socketOwn] at owns
    split at owns
    · split at owns
      next open_ =>
        simp only [Option.some.injEq, Prod.mk.injEq, Watch.read.injEq, FdCb.obp.injEq] at owns
        obtain ⟨-, rfl⟩ := owns
        omega
      · cases owns
    · cases owns
  | link i =>
    simp only [World.own, linkOwn] at owns
    split at owns
    · split at owns <;> simp_all
    · cases owns
  | _ => simp only [World.own, socketOwn, pendingOwn] at owns; split at owns <;> simp_all

theorem switchedOff (wf : Wf ph w) (fresh : ∀ i, ¬ph.stale i) {i : Nat} (off : (w.cfg.linkAt i).enabled = false) :
    SwitchedOff w i := by
  obtain ⟨closed, -, -, waiting, kept, named, -, settled⟩ := wf.links i
  obtain ⟨active, down⟩ := settled (fresh i)
  have state := down off
  have idle : (w.links i).active = false := by rw [active, off]
  constructor
  case state => exact state
  case fd => exact closed state
  case unnamed => simpa [state] using named
  case inactive => exact idle
  case handles =>
    constructor
    · by_contra keeps
      simp [kept.mp keeps] at state
    · by_contra waits
      simp [(waiting.mp waits).2.2] at idle
  case timers => exact ⟨by simp [wf.keepalives_eq, state], by simp [wf.reconnects_eq, idle]⟩

end Wf

/-! ## What stays -/

/-- A link with its connection, its timers and its call. -/
structure LinkKept (s s' : System) (i : Nat) : Prop where
  record : s'.world.links i = s.world.links i
  call : s'.tr.link i = s.tr.link i
  connection : 0 ≤ (s.world.links i).fd →
    ((s.world.links i).fd ∈ s.world.openFds ∧ (s.world.links i).fd ∈ s'.world.openFds) ∧
      FdTable.lookup s'.world.loop.fds (s.world.links i).fd = FdTable.lookup s.world.loop.fds (s.world.links i).fd ∧
      FdTable.lookup s'.world.loop.wfds (s.world.links i).fd = FdTable.lookup s.world.loop.wfds (s.world.links i).fd
  timers : evArmed s'.world.loop (.keepalive i) = evArmed s.world.loop (.keepalive i) ∧
    evArmed s'.world.loop (.reconnect i) = evArmed s.world.loop (.reconnect i)

/-- Where a link's record is the same so is what the event loop holds for it. -/
theorem linkKept_of_record {s s' : System} {ph ph' : Phase} (wf : Wf ph s.world) (wf' : Wf ph' s'.world) {i : Nat}
    (inside : i < s.world.cfg.nLink) (inside' : i < s'.world.cfg.nLink)
    (role : (s'.world.cfg.linkAt i).ccRole = (s.world.cfg.linkAt i).ccRole)
    (record : s'.world.links i = s.world.links i) (call : s'.tr.link i = s.tr.link i) : LinkKept s s' i := by
  refine ⟨record, call, fun nonneg => ?_, ?_⟩
  · have held : (s.world.links i).state ≠ .down := by
      intro down
      have closed := (wf.links i).closed down
      omega
    obtain ⟨m, owns⟩ := Wf.own_of_held s.world inside held nonneg
    rw [own_link s.world inside] at owns
    obtain ⟨isOpen, reads, writes⟩ := wf.registered inside owns
    obtain ⟨isOpen', reads', writes'⟩ := wf'.registered inside' (by rw [record]; exact owns)
    exact ⟨⟨isOpen.2, isOpen'.2⟩, Option.ext fun cb => (reads' cb).trans (reads cb).symm,
      Option.ext fun cb => (writes' cb).trans (writes cb).symm⟩
  · rw [wf.keepalives_eq, wf'.keepalives_eq, wf.reconnects_eq, wf'.reconnects_eq, record, role]
    exact ⟨rfl, rfl⟩

/-- What a reload leaves, by the state it finds. -/
structure Converged (c : Ctx) (s s' : System) : Prop where
  off : ∀ i < s'.world.cfg.nLink, (s'.world.cfg.linkAt i).enabled = false → SwitchedOff s'.world i
  trying : ∀ i < s'.world.cfg.nLink, (s'.world.cfg.linkAt i).enabled = true →
    (s'.world.cfg.linkAt i).ccRole = .outbound → (s'.world.links i).active = true
  kept : ∀ i < s.world.cfg.nLink, (s.world.cfg.linkAt i).enabled = true →
    (s'.world.cfg.linkAt i).enabled = true → LinkKept s s' i
  closed : ∀ p < s'.world.cfg.nOpenbridge, (s'.world.cfg.openbridgeAt p).enabled = false → NoSocket s'.world p
  bound : ∀ p < s'.world.cfg.nOpenbridge, (s'.world.cfg.openbridgeAt p).enabled = true →
    HasSocket s'.world p ∨ NoSocket s.world p ∧ c.bindOk p = false
  sockets : ∀ p < s'.world.cfg.nOpenbridge, (s'.world.cfg.openbridgeAt p).enabled = true →
    HasSocket s.world p → s'.world.obpFd p = s.world.obpFd p

namespace System

variable {s : System}

/-- A socket that is in use before or after, by what the reconcile of the peers finds. -/
theorem reload_active {ph : Phase} (wf : Wf ph s.world) (c : Ctx) (fresh : Config) {p : Nat}
    (known : p < (configReloadToggles fresh s.world.cfg).nOpenbridge) :
    (s.doReload c fresh).world.obpActive p = (if ((configReloadToggles fresh s.world.cfg).openbridgeAt p).enabled then
      s.world.obpActive p || c.bindOk p else false) ∧
    (((configReloadToggles fresh s.world.cfg).openbridgeAt p).enabled = true → s.world.obpActive p = true →
      (s.doReload c fresh).world.obpFd p = s.world.obpFd p) := by
  have net := midReload_net wf c fresh
  have after := reload_sockets c fresh s (p := p)
  generalize (s.doReload c fresh).world = w' at after
  have cfg : (s.midReload c fresh).world.unlogged.cfg = configReloadToggles fresh s.world.cfg := net.cfg
  have fd : (s.midReload c fresh).world.unlogged.obpFd p = s.world.obpFd p := congrFun net.obpFd p
  have active : (s.midReload c fresh).world.unlogged.obpActive p = s.world.obpActive p := congrFun net.obpActive p
  generalize (s.midReload c fresh).world.unlogged = w at after cfg fd active
  have turn := obpReconcile_active c w (p := p) (by rw [cfg]; exact known)
  rw [cfg, active] at turn
  refine ⟨(congrArg Prod.snd after).trans turn, fun on was => ?_⟩
  have kept := obpReconcile_kept c w (p := p) (by rw [cfg]; exact known) (by rw [cfg]; exact on) (active.trans was)
  exact (congrArg Prod.fst (after.trans kept)).trans fd

theorem Sound.linkKept (sound : Sound s) (c : Ctx) (fresh : Config) {i : Nat} (inside : i < s.world.cfg.nLink)
    (on : (s.world.cfg.linkAt i).enabled = true)
    (stays : ((configReloadToggles fresh s.world.cfg).linkAt i).enabled = true) :
    LinkKept s (s.doReload c fresh) i := by
  have wf : Wf { orphans := True } s.world := sound.wf
  have wf' := wf_reload wf c fresh
  have cfg := reload_cfg wf c fresh
  have links := reload_links c fresh s
  obtain ⟨log, -, moments⟩ := reload_moments wf c fresh (w := s.world.reload fresh) ⟨rfl, rfl, rfl⟩
  generalize s.doReload c fresh = s' at wf' cfg links moments ⊢
  have fixed : s'.world.cfg.fixed = s.world.cfg.fixed := by
    rw [cfg]
    exact fixed_configReloadToggles fresh _
  have inside' : i < s'.world.cfg.nLink := by rwa [Config.nLink_of_fixed fixed]
  have record : s'.world.links i = s.world.links i := by
    rw [links]
    refine reconcile_untouched c _ ?_ (((wf.links i).settled (by simp)).1.trans on) stays
    rw [cfg] at inside'
    exact inside'
  have call : s'.tr.link i = s.tr.link i := by
    have calls : CallsUp (s.world.reload fresh).cfg ⟨s.world.isUp, s.tr⟩ :=
      callsUp_of_fixed (fixed_configReloadToggles fresh s.world.cfg).symm sound.calls
    cases downed_trace moments calls i with
    | untouched _ record _ => exact record
    | down was up =>
      simp only [World.isUp, record] at was up
      rw [was] at up
      cases up
  have role : (s'.world.cfg.linkAt i).ccRole = (s.world.cfg.linkAt i).ccRole := by
    have same := congrArg LinkConfig.ccRole (Config.linkAt_of_fixed fixed i)
    exact same
  exact linkKept_of_record wf wf' inside inside' role record call

theorem Sound.converged (sound : Sound s) (c : Ctx) (fresh : Config) : Converged c s (s.doReload c fresh) := by
  have wf : Wf { orphans := True } s.world := sound.wf
  have wf' := wf_reload wf c fresh
  have cfg := reload_cfg wf c fresh
  have kept := fun i (inside : i < s.world.cfg.nLink) on => sound.linkKept c fresh inside on
  have sockets := fun p known => reload_active wf c fresh (p := p) known
  rw [← cfg] at kept sockets
  generalize s.doReload c fresh = s' at wf' cfg kept sockets ⊢
  constructor
  case off => exact fun i _ off => wf'.switchedOff (by simp) off
  case trying =>
    intro i _ on _
    rw [((wf'.links i).settled (by simp)).1, on]
  case kept => exact fun i inside on stays => kept i inside on stays
  case closed =>
    intro p known off
    exact wf'.noSocket (by rw [(sockets p known).1, off]; rfl)
  case bound =>
    intro p known on
    by_cases has : s'.world.obpActive p = true
    · exact .inl (wf'.hasSocket known has)
    · rw [(sockets p known).1, on] at has
      simp only [if_true, Bool.or_eq_true, not_or, Bool.not_eq_true] at has
      exact .inr ⟨wf.noSocket has.1, has.2⟩
  case sockets =>
    intro p known on has
    exact (sockets p known).2 on (by simpa [wf.sockets] using has.1)

/-- Once the links and the sockets stand as the file says, the file again only retries failed binds. -/
theorem reload_again {ph : Phase} (wf : Wf ph s.world) (settled : ∀ i, ¬ph.stale i) (c : Ctx) (fresh : Config)
    (loaded : configReloadToggles fresh s.world.cfg = s.world.cfg)
    (closed : ∀ p < s.world.cfg.nOpenbridge, s.world.obpActive p = true → (s.world.cfg.openbridgeAt p).enabled = true) :
    s.doReload c fresh = { s with world := s.world.retryBinds c } := by
  have same : s.world.reload fresh = s.world := by simp only [World.reload, loaded]
  have links : ccccMuxReconcile c s.world.unlogged = s.world.unlogged := reconcile_settled c (wf_unlogged wf) settled
  have mid : s.midReload c fresh = s := by
    rw [midReload, same, callback_silent c (by rw [links]; rfl), links]
    rfl
  rw [doReload_eq, mid, callback_silent c (SocketsOnly.reconcile c _).out,
    obpReconcile_retries c s.world.unlogged closed]
  have failed : s.world.unlogged.failedBinds = s.world.failedBinds := rfl
  simp only [World.retryBinds, failed, retries_unlogged]

/-- The state a reload finds: the tick has taken its turn before. -/
theorem Sound.ticked (sound : Sound s) (c : Ctx) : Sound (s.cleared.translate c .tick) := by
  obtain ⟨core, -, moments⟩ := tick_moment c s none
  generalize s.cleared.translate c .tick = ticked at core moments
  refine ⟨sound.wf.of_core core.symm, ?_⟩
  rw [cfg_of_core core]
  exact .trace moments sound.calls

end System

/-- From every state a run reaches, a reload leaves links and sockets as the toggles say and what stays on
as it was, and the same file again retries the sockets that could not be bound, no more. -/
theorem reload_converges (c : Ctx) (cfg : Config) (accepted : cfg.Accepted) (es : List (Ctx × System.Event))
    (c' : Ctx) (fresh : Config) :
    let s := System.translate c' .tick (Machine.run System.step (System.start c cfg) es).1.cleared
    Converged c' s (s.doReload c' fresh) ∧
      ∀ (again : Ctx) (u : System), u.world.core = (s.doReload c' fresh).world.core →
        u.doReload again fresh = { u with world := u.world.retryBinds again } := by
  intro s
  have sound : s.Sound := (System.sound_run c cfg accepted es).ticked c'
  refine ⟨sound.converged c' fresh, fun again u same => ?_⟩
  have wf' := System.wf_reload sound.wf c' fresh
  have loaded := System.reload_cfg sound.wf c' fresh
  have closed := (sound.converged c' fresh).closed
  generalize s.doReload c' fresh = s' at wf' loaded closed same
  have cfg' := cfg_of_core same
  refine System.reload_again (wf'.of_core same.symm) (by simp) again fresh ?_ fun p known active => ?_
  · rw [cfg', loaded, configReloadToggles_again]
  · obtain ⟨-, -, -, -, -, -, -, -, obpFd, obpActive⟩ := (core_eq_iff _ _).mp same
    rw [cfg'] at known ⊢
    rw [obpActive] at active
    by_contra off
    have none := (closed p known (by simpa using off)).1
    have some := wf'.sockets p
    rw [active] at some
    simp only [true_eq_decide_iff] at some
    omega

/-- A link that comes UP, and a file that switches it off. -/
theorem reload_converges_inbound :
    let s := System.translate { now := 2 } .tick
      (Machine.run System.step (System.start { now := 0 } inboundCfg) (connectAndSend shortQuestion)).1.cleared
    Converged { now := 2 } s (s.doReload { now := 2 } inboundCfg.fixed) ∧
      ∀ (again : Ctx) (u : System), u.world.core = (s.doReload { now := 2 } inboundCfg.fixed).world.core →
        u.doReload again inboundCfg.fixed = { u with world := u.world.retryBinds again } :=
  reload_converges { now := 0 } inboundCfg (by decide) (connectAndSend shortQuestion) { now := 2 } inboundCfg.fixed

end Cc2obp
