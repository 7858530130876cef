import Cc2obp.Cccc.Answer
import Cc2obp.Cccc.Steady
import Cc2obp.System.Moments
import Mathlib.Algebra.Order.Field.Rat
import Mathlib.Data.List.Induction

/-!
# The watchdog of an UP link

A link that is UP has been so since some event of the run. From then on it has had
one connection, and it was last heard in that event or in the last keepalive that
came for that connection.
-/
namespace Cc2obp

open World

/-- A keepalive with a sync source, from an address, arrives at the voice socket. -/
def System.Event.keepalive (voiceFd : Int) (ssrc : BitVec 32) (ip : List Byte) : System.Event → Prop
  | .readable fd (.datagram bytes srcIp _) => fd = voiceFd ∧ KeepaliveFrom ssrc ip bytes srcIp
  | _ => False

/-- The keepalives of a link as it stands. -/
def System.keepaliveOf (s : System) (i : Nat) : System.Event → Prop :=
  System.Event.keepalive s.world.voiceFd (s.world.links i).syncSource (s.world.cfg.linkAt i).ccRemoteIp

namespace System

variable {s : System} {ph : Phase} {i : Nat}

/-! ## One event -/

/-- What an event leaves of an UP link: it has come UP in it, or it was UP, on the same connection, and has been
heard now if the event was its keepalive. -/
inductive UpAfter (c : Ctx) (e : Event) (s s' : System) (outs : List Out) (i : Nat) : Prop
  | opened (called : .call (.linkUp i) ∈ outs) (heard : (s'.world.links i).lastKeepaliveRecv = c.now)
  | carried (silent : .call (.linkUp i) ∉ outs) (up : (s.world.links i).state = .up)
      (source : (s'.world.links i).syncSource = (s.world.links i).syncSource)
      (now : s.keepaliveOf i e → (s'.world.links i).lastKeepaliveRecv = c.now)
      (before : ¬s.keepaliveOf i e → (s'.world.links i).lastKeepaliveRecv = (s.world.links i).lastKeepaliveRecv)

theorem writes_trCall (w : World) (t : TrOut) (o : Out) (writes : Writes w t o) : o.trCall = none := by
  cases writes <;> rfl

theorem mem_trCall {call : TrCall} {outs : List Out} : .call call ∈ outs ↔ call ∈ outs.filterMap Out.trCall := by
  rw [List.mem_filterMap]
  constructor
  · exact fun member => ⟨_, member, rfl⟩
  · rintro ⟨o, member, same⟩
    cases o with
    | call made =>
      obtain rfl := Option.some.inj same
      exact member
    | _ => cases same

/-- The calls a callback records are those its function makes. -/
theorem mem_callback_out (c : Ctx) (f : World → World) (call : TrCall) (s : System) :
    .call call ∈ (s.callback c f).world.out ↔ .call call ∈ s.world.out ∨ .call call ∈ (f s.world.unlogged).out := by
  simp only [mem_trCall, filterMap_callback writes_trCall, List.mem_append]

/-- An event that is work of the mux on a world, as far as the links and the calls go. -/
structure Turn (w : World) (f : World → World) (s' : System) (outs : List Out) : Prop where
  links : s'.world.links = (f w).links
  voiceFd : s'.world.voiceFd = (f w).voiceFd
  calls : ∀ call, .call call ∈ outs ↔ .call call ∈ (f w).out

theorem turn_callback (c : Ctx) {e : Event} {f : World → World} (reacts : s.cleared.react c e = s.cleared.callback c f) :
    Turn s.world.unlogged f (s.step (c, e)).1 (s.step (c, e)).2 := by
  have core : (s.cleared.callback c f).world.core = (f s.world.unlogged).core := core_callback c f s.cleared
  obtain ⟨-, -, -, voiceFd, -, -, links, -⟩ := (core_eq_iff _ _).mp core
  rw [step_out, step_state, reacts]
  refine ⟨links, voiceFd, fun call => ?_⟩
  rw [mem_callback_out]
  simp [System.cleared]
  rfl

/-- A tick without a reload. -/
theorem turn_tick (c : Ctx) (s : System) : Turn s.world.unlogged id (s.step (c, .tick none)).1 (s.step (c, .tick none)).2 := by
  obtain ⟨core, out, -⟩ := tick_moment c s none
  obtain ⟨-, -, -, voiceFd, -, -, links, -⟩ := (core_eq_iff _ _).mp core
  have reacts : s.cleared.react c (.tick none) = s.cleared.translate c .tick := rfl
  rw [step_out, step_state, reacts]
  refine ⟨links, voiceFd, fun call => ?_⟩
  rw [out, mem_trCall, filterMap_messages _ writes_trCall]
  simp [World.unlogged]

theorem reconcilePeers_voiceFd (c : Ctx) (w : World) : (obpMuxReconcile c w).voiceFd = w.voiceFd :=
  List.foldl_turns (reconcilePeer c) (fun _ v => v.voiceFd = w.voiceFd) (fun peer rest v kept => by
    rw [← kept]
    simp only [reconcilePeer]
    split
    · exact (Wf.bindPeer_frame c peer v).2.2.1
    · split
      · unfold unbindPeer
        dsimp only
        split <;> rfl
      · rfl) _ w rfl

/-- The world in which the links have their turns after a reload. -/
def reloading (c : Ctx) (fresh : Config) (s : System) : World := ((s.cleared.translate c .tick).world.reload fresh).unlogged

theorem reloading_links (c : Ctx) (fresh : Config) (s : System) :
    (s.reloading c fresh).links = s.world.links ∧ (s.reloading c fresh).voiceFd = s.world.voiceFd := by
  obtain ⟨core, -, -⟩ := tick_moment c s (some fresh)
  obtain ⟨-, -, -, voiceFd, -, -, links, -⟩ := (core_eq_iff _ _).mp core
  exact ⟨links, voiceFd⟩

/-- A tick with a reload: the turns of the links under the new toggles. -/
theorem turn_reload (c : Ctx) (s : System) (fresh : Config) :
    Turn (s.reloading c fresh) (ccccMuxReconcile c) (s.step (c, .tick (some fresh))).1 (s.step (c, .tick (some fresh))).2 := by
  have reacts : s.cleared.react c (.tick (some fresh)) = (s.cleared.translate c .tick).doReload c fresh := rfl
  have ticked : ∀ call, .call call ∉ (s.cleared.translate c .tick).world.out := by
    intro call
    rw [(tick_moment c s (some fresh)).2.1, mem_trCall, filterMap_messages _ writes_trCall]
    simp
  rw [step_out, step_state, reacts, doReload_eq]
  unfold reloading
  generalize s.cleared.translate c .tick = before at ticked
  have mid : (before.midReload c fresh).world.core = (ccccMuxReconcile c (before.world.reload fresh).unlogged).core :=
    core_callback c _ _
  have calls : ∀ call, .call call ∈ (before.midReload c fresh).world.out ↔
      .call call ∈ (ccccMuxReconcile c (before.world.reload fresh).unlogged).out := by
    intro call
    rw [midReload, mem_callback_out]
    exact or_iff_right (ticked call)
  obtain ⟨-, -, -, voiceFd, -, -, links, -⟩ := (core_eq_iff _ _).mp mid
  -- the peers' turns change sockets only
  generalize before.midReload c fresh = s at calls voiceFd links
  have after : (s.callback c (obpMuxReconcile c)).world.core = (obpMuxReconcile c s.world.unlogged).core :=
    core_callback c _ s
  obtain ⟨-, -, -, voiceFd', -, -, links', -⟩ := (core_eq_iff _ _).mp after
  have sockets := SocketsOnly.reconcile c s.world.unlogged
  have out := (callback_sockets c sockets).1
  constructor
  case links =>
    have kept := links'.trans (sockets.links.trans links)
    exact kept
  case voiceFd =>
    have kept := voiceFd'.trans ((reconcilePeers_voiceFd c s.world.unlogged).trans voiceFd)
    exact kept
  case calls =>
    intro call
    rw [out]
    exact calls call

end System

/-! ## What an event does to the links -/

theorem readable_steady (c : Ctx) {fd : Int} {input : FdInput} {w : World} (notVoice : ∀ bytes srcIp srcPort,
    input = .datagram bytes srcIp srcPort → 0 ≤ fd → FdTable.lookup w.loop.fds fd ≠ some .voice) :
    Steady c w (World.readable c fd input w) := by
  unfold World.readable
  split
  · exact .refl w
  next nonneg =>
    split
    next voice => exact absurd voice (notVoice _ _ _ rfl (not_lt.mp nonneg))
    · unfold onTrialReadable
      dsimp only
      split
      · exact .refl w
      · exact .emit w (by simp)
    · exact .listenReadable c _ w
    · unfold onObpReadable
      split
      · exact .emit w (by simp)
      · exact .refl w
    · exact .pendingReadable c _ _ w
    · exact .linkReadable c _ _ w
    · exact .refl w

theorem fire_steady (c : Ctx) (id : Nat) (w : World) : Steady c w (World.fire c id w) := by
  unfold World.fire
  split
  next cb _ =>
    have inactive : Steady c w (w.onLoop (evTimerCancel (some id))) := .onLoop w _
    cases cb with
    | reconnect i => exact inactive.trans (.reconnectCb c i _)
    | keepalive i => exact inactive.trans (.keepaliveCb c i _)
    | pendingTimeout s => exact inactive.trans (.pendingTimeoutCb c s _)
  · exact .refl w

theorem writable_ups (c : Ctx) (fd : Int) (connected : Bool) (w : World) : ∃ os, (World.writable c fd connected w).out = w.out ++ os ∧
    ∀ j, ((World.writable c fd connected w).links j).state = .up →
      UpSince c.now j os (w.links j) ((World.writable c fd connected w).links j) := by
  unfold World.writable
  split
  · exact (Steady.refl w).ups
  · split
    next i _ =>
      cases connected with
      | false => exact (Steady.connectFailed c i fd w).ups
      | true => exact connected_ups c i fd w
    · exact (Steady.refl w).ups

namespace Wf

variable {w : World} {ph : Phase}

/-- The voice socket is registered under its own descriptor only. -/
theorem lookup_voice (wf : Wf ph w) {fd : Int} (nonneg : 0 ≤ fd) :
    FdTable.lookup w.loop.fds fd = some .voice ↔ fd = w.voiceFd := by
  constructor
  · intro found
    obtain ⟨h, owns⟩ := wf.owner_of_read nonneg found
    cases h with
    | voice =>
      simp only [World.own, socketOwn] at owns
      split at owns
      · simpa using owns.symm
      · cases owns
    | pending s => simp only [World.own, pendingOwn] at owns; split at owns <;> (try split at owns) <;> simp at owns
    | link j => simp only [World.own, linkOwn] at owns; split at owns <;> (try split at owns) <;> (try split at owns) <;> simp at owns
    | obp peer => simp only [World.own, socketOwn] at owns; split at owns <;> (try split at owns) <;> simp at owns
    | _ => simp only [World.own, socketOwn] at owns; split at owns <;> simp at owns
  · rintro rfl
    refine (FdTable.lookup_eq_some wf.owned.reading.distinct).mpr ((wf.owned.reading.entries _ nonneg).mpr ⟨.voice, ?_⟩)
    simp [World.own, socketOwn, nonneg, Watch.reads]

/-- The sync source of a link that has one leads to it. -/
theorem holder_known (wf : Wf ph w) {i : Nat} (has : (w.links i).hasSyncSource = true) :
    findLinkBySsrc w (w.links i).syncSource = some i := by
  have inside := wf.inside_of_ne (i := i) (by
    intro blank
    simp [blank] at has)
  exact findLinkBySsrc_only inside has rfl fun j other hasJ same => other (wf.sources j i hasJ has same)

end Wf

namespace System

variable {s : System} {ph : Phase} {i : Nat}

/-- What a callback leaves of the UP links, an event that is this callback leaves. -/
theorem upAfter_turn {c : Ctx} {e : Event} {w : World} {f : World → World} {s' : System} {outs : List Out}
    (turn : Turn w f s' outs) (start : w.links = s.world.links) (empty : w.out = [])
    (ups : ∃ os, (f w).out = w.out ++ os ∧
      ∀ j, ((f w).links j).state = .up → UpSince c.now j os (w.links j) ((f w).links j))
    (notHeard : ¬s.keepaliveOf i e) (up : (s'.world.links i).state = .up) : UpAfter c e s s' outs i := by
  obtain ⟨os, out, ups⟩ := ups
  rw [empty, List.nil_append] at out
  have calls : .call (.linkUp i) ∈ outs ↔ .call (.linkUp i) ∈ os := by rw [turn.calls, out]
  rw [turn.links] at up
  cases ups i up with
  | opened called heard =>
    refine .opened (calls.mpr called) ?_
    rw [turn.links]
    exact heard
  | carried silent was source heard =>
    rw [start] at was source heard
    refine .carried (mt calls.mp silent) was ?_ (fun is => absurd is notHeard) fun _ => ?_ <;> rw [turn.links]
    exacts [source, heard]

/-- A datagram at the voice socket. -/
theorem upAfter_voice {orphans : Prop} (wf : Wf { orphans } s.world) (nonneg : 0 ≤ s.world.voiceFd) (c : Ctx)
    (bytes srcIp : List Byte) (srcPort : Int)
    (up : ((s.step (c, .readable s.world.voiceFd (.datagram bytes srcIp srcPort))).1.world.links i).state = .up) :
    UpAfter c (.readable s.world.voiceFd (.datagram bytes srcIp srcPort)) s
      (s.step (c, .readable s.world.voiceFd (.datagram bytes srcIp srcPort))).1
      (s.step (c, .readable s.world.voiceFd (.datagram bytes srcIp srcPort))).2 i := by
  have called : World.readable c s.world.voiceFd (.datagram bytes srcIp srcPort) s.world.unlogged =
      onVoiceReadable c bytes srcIp srcPort s.world.unlogged := by
    have voice : FdTable.lookup s.world.unlogged.loop.fds s.world.voiceFd = some .voice := (wf.lookup_voice nonneg).mpr rfl
    simp only [World.readable, not_lt.mpr nonneg, if_false, voice]
  have turn := turn_callback c (s := s) (e := .readable s.world.voiceFd (.datagram bytes srcIp srcPort)) rfl
  have links := turn.links
  rw [called] at links
  obtain ⟨heardAt, records⟩ := onVoiceReadable_links c bytes srcIp srcPort s.world.unlogged
  obtain ⟨-, os, out, silent⟩ := voice_out c bytes srcIp srcPort s.world.unlogged
  rw [unlogged_out, List.nil_append] at out
  have was : (s.world.links i).state = .up := by
    rw [links, records] at up
    exact up
  have known := wf.holder_known ((wf.links i).named.mpr (.inr was))
  obtain ⟨now, before⟩ := voice_heard c bytes srcIp srcPort s.world.unlogged (i := i) known
  refine .carried ?_ was ?_ ?_ ?_
  · rw [turn.calls, called, out]
    exact silent i
  · rw [links, records]
    rfl
  · rw [links]
    exact fun is => now is.2
  · rw [links]
    exact fun other => before fun is => other ⟨rfl, is⟩

theorem step_up {orphans : Prop} (wf : Wf { orphans } s.world) (nonneg : 0 ≤ s.world.voiceFd) (c : Ctx) (e : Event)
    (up : ((s.step (c, e)).1.world.links i).state = .up) : UpAfter c e s (s.step (c, e)).1 (s.step (c, e)).2 i := by
  cases e with
  | readable fd input =>
    by_cases voice : ∃ bytes srcIp srcPort, input = .datagram bytes srcIp srcPort ∧ fd = s.world.voiceFd
    · obtain ⟨bytes, srcIp, srcPort, rfl, rfl⟩ := voice
      exact upAfter_voice wf nonneg c bytes srcIp srcPort up
    · have notVoice : ∀ bytes srcIp srcPort, input = .datagram bytes srcIp srcPort → 0 ≤ fd →
          FdTable.lookup s.world.unlogged.loop.fds fd ≠ some .voice :=
        fun bytes srcIp srcPort same inUse found =>
          voice ⟨bytes, srcIp, srcPort, same, (wf.lookup_voice inUse).mp found⟩
      refine upAfter_turn (turn_callback c rfl) rfl rfl (readable_steady c notVoice).ups (fun heard => ?_) up
      cases input with
      | datagram bytes srcIp srcPort => exact voice ⟨bytes, srcIp, srcPort, rfl, heard.1⟩
      | _ => exact heard
  | writable fd connected => exact upAfter_turn (turn_callback c rfl) rfl rfl (writable_ups c fd connected _) id up
  | timer number => exact upAfter_turn (turn_callback c rfl) rfl rfl (fire_steady c number _).ups id up
  | tick fresh =>
    cases fresh with
    | none => exact upAfter_turn (turn_tick c s) rfl rfl (Steady.refl _).ups id up
    | some fresh =>
      exact upAfter_turn (turn_reload c s fresh) (reloading_links c fresh s).1 rfl (Steady.reconcile c _).ups id up

/-! ## What no event changes -/

theorem step_voiceFd (c : Ctx) (e : Event) : (s.step (c, e)).1.world.voiceFd = s.world.voiceFd := by
  cases e with
  | readable fd input =>
    rw [(turn_callback c (e := .readable fd input) rfl).voiceFd]
    by_cases voice : ∃ bytes srcIp srcPort, input = .datagram bytes srcIp srcPort ∧ 0 ≤ fd ∧
        FdTable.lookup s.world.unlogged.loop.fds fd = some .voice
    · obtain ⟨bytes, srcIp, srcPort, rfl, nonneg, found⟩ := voice
      simp only [World.readable, not_lt.mpr nonneg, if_false, found]
      exact (voice_out c bytes srcIp srcPort s.world.unlogged).1
    · exact (readable_steady c fun bytes srcIp srcPort same nonneg found =>
        voice ⟨bytes, srcIp, srcPort, same, nonneg, found⟩).voiceFd
  | writable fd connected =>
    rw [(turn_callback c (e := .writable fd connected) rfl).voiceFd]
    unfold World.writable
    split
    · rfl
    · split
      next i _ =>
        cases connected with
        | false => exact (Steady.connectFailed c i fd s.world.unlogged).voiceFd
        | true => exact (connected_out c i fd s.world.unlogged).1
      · rfl
  | timer number =>
    rw [(turn_callback c (e := .timer number) rfl).voiceFd]
    exact (fire_steady c number _).voiceFd
  | tick fresh =>
    cases fresh with
    | none => exact (turn_tick c s).voiceFd
    | some fresh =>
      rw [(turn_reload c s fresh).voiceFd, (Steady.reconcile c _).voiceFd]
      exact (reloading_links c fresh s).2

theorem step_fixed {orphans : Prop} (wf : Wf { orphans } s.world) (c : Ctx) (e : Event) :
    (s.step (c, e)).1.world.cfg.fixed = s.world.cfg.fixed := by
  rw [step_cfg wf c e, reloads_fixed]

/-- A link on the same connection has the same keepalives. -/
theorem keepaliveOf_step {orphans : Prop} (wf : Wf { orphans } s.world) (c : Ctx) (e : Event)
    (source : ((s.step (c, e)).1.world.links i).syncSource = (s.world.links i).syncSource) :
    (s.step (c, e)).1.keepaliveOf i = s.keepaliveOf i := by
  have remote : ((s.step (c, e)).1.world.cfg.linkAt i).ccRemoteIp = (s.world.cfg.linkAt i).ccRemoteIp := by
    have fields := congrArg LinkConfig.ccRemoteIp (Config.linkAt_of_fixed (step_fixed wf c e) i)
    exact fields
  rw [keepaliveOf, keepaliveOf, step_voiceFd, source, remote]

theorem start_voiceFd (c : Ctx) (cfg : Config) : 0 ≤ (start c cfg).world.voiceFd := by
  show 0 ≤ (ccccMuxStart c (obpMuxStart c { cfg })).voiceFd
  unfold ccccMuxStart
  dsimp only
  refine List.foldl_turns _ (fun _ (v : World) => 0 ≤ v.voiceFd) (fun j rest v nonneg => ?_) _ _ (lowestFree_fresh _).2
  split
  · rw [(Steady.startOutboundConnect c j _).voiceFd]
    exact nonneg
  · exact nonneg

/-- No event closes the voice socket. -/
theorem run_voiceFd (s : System) (es : List (Ctx × Event)) : (Machine.run step s es).1.world.voiceFd = s.world.voiceFd := by
  induction es generalizing s with
  | nil => rfl
  | cons e es ih => exact (ih _).trans (step_voiceFd e.1 e.2)

/-! ## Runs -/

/-- In a run of these events a link came UP in `up` and has had the connection since. -/
structure OneConnection (s₀ : System) (i : Nat) (before : List (Ctx × Event)) (up : Ctx × Event) (since : List (Ctx × Event)) :
    Prop where
  opened : .call (.linkUp i) ∈ (step (Machine.run step s₀ before).1 up).2
  silent : .call (.linkUp i) ∉ (Machine.run step (Machine.run step s₀ (before ++ [up])).1 since).2
  stays : ∀ early late, since = early ++ late →
    ((Machine.run step s₀ (before ++ up :: early)).1.world.links i).state = .up ∧
      ((Machine.run step s₀ (before ++ up :: early)).1.world.links i).syncSource =
        ((Machine.run step s₀ (before ++ up :: since)).1.world.links i).syncSource

/-- The time a link counts as last heard is the last of these: when it came UP, and its keepalives since. -/
structure LastHeard (keepalive : Event → Prop) (up : Ctx × Event) (since : List (Ctx × Event)) (heard : Rat) : Prop where
  up_le : up.1.now ≤ heard
  keepalive_le : ∀ e ∈ since, keepalive e.2 → e.1.now ≤ heard
  attained : heard = up.1.now ∨ ∃ e ∈ since, keepalive e.2 ∧ heard = e.1.now

section More
variable {s₀ : System} {before since : List (Ctx × Event)} {up e : Ctx × Event}

/-- The connection outlasts an event. -/
theorem OneConnection.more (one : OneConnection s₀ i before up since)
    (silent : .call (.linkUp i) ∉ (step (Machine.run step s₀ (before ++ up :: since)).1 e).2)
    (isUp : ((step (Machine.run step s₀ (before ++ up :: since)).1 e).1.world.links i).state = .up)
    (source : ((step (Machine.run step s₀ (before ++ up :: since)).1 e).1.world.links i).syncSource =
      ((Machine.run step s₀ (before ++ up :: since)).1.world.links i).syncSource) :
    OneConnection s₀ i before up (since ++ [e]) := by
  have reached : (Machine.run step (Machine.run step s₀ (before ++ [up])).1 since).1 =
      (Machine.run step s₀ (before ++ up :: since)).1 := by
    rw [List.append_cons before up since, Machine.run_append step s₀ (before ++ [up]) since]
  have final : (Machine.run step s₀ (before ++ up :: (since ++ [e]))).1 =
      (step (Machine.run step s₀ (before ++ up :: since)).1 e).1 := by
    rw [← List.cons_append, ← List.append_assoc, Machine.run_append]
    rfl
  constructor
  case opened => exact one.opened
  case silent =>
    rw [Machine.run_append, reached, List.mem_append]
    rintro (early | late)
    · exact one.silent early
    · exact silent (by simpa using late)
  case stays =>
    intro early late split
    rw [final]
    rcases late.eq_nil_or_concat with rfl | ⟨rest, last, rfl⟩
    · rw [List.append_nil] at split
      rw [← split, final]
      exact ⟨isUp, rfl⟩
    · rw [List.concat_eq_append, ← List.append_assoc] at split
      obtain ⟨earlier, -⟩ := List.append_inj' split rfl
      obtain ⟨stillUp, same⟩ := one.stays early rest earlier
      exact ⟨stillUp, same.trans source.symm⟩

/-- No clock has shown a later time before the event. -/
theorem LastHeard.more {keepalive : Event → Prop} {heard heard' : Rat} (last : LastHeard keepalive up since heard)
    (upEarlier : up.1.now ≤ e.1.now) (earlier : ∀ e' ∈ since, e'.1.now ≤ e.1.now)
    (now : keepalive e.2 → heard' = e.1.now) (unheard : ¬keepalive e.2 → heard' = heard) :
    LastHeard keepalive up (since ++ [e]) heard' := by
  by_cases is : keepalive e.2
  · obtain rfl := now is
    constructor
    case up_le => exact upEarlier
    case keepalive_le =>
      intro e' member _
      rcases List.mem_append.mp member with old | new
      · exact earlier e' old
      · rw [List.mem_singleton.mp new]
    case attained => exact .inr ⟨e, by simp, is, rfl⟩
  · obtain rfl := unheard is
    constructor
    case up_le => exact last.up_le
    case keepalive_le =>
      intro e' member keeps
      rcases List.mem_append.mp member with old | new
      · exact last.keepalive_le e' old keeps
      · rw [List.mem_singleton.mp new] at keeps
        exact absurd keeps is
    case attained =>
      rcases last.attained with up | ⟨e', member, keeps, same⟩
      · exact .inl up
      · exact .inr ⟨e', List.mem_append_left _ member, keeps, same⟩

/-- Longer ago than a time span means that all of them are. -/
theorem LastHeard.silent_iff {keepalive : Event → Prop} {heard : Rat} (last : LastHeard keepalive up since heard)
    (now timeout : Rat) : timeout < now - heard ↔
      timeout < now - up.1.now ∧ ∀ e ∈ since, keepalive e.2 → timeout < now - e.1.now := by
  constructor
  · intro silent
    have upLe := last.up_le
    refine ⟨by linarith, fun e member keeps => ?_⟩
    have le := last.keepalive_le e member keeps
    linarith
  · rintro ⟨upSilent, silent⟩
    rcases last.attained with same | ⟨e, member, keeps, same⟩
    · rwa [same]
    · rw [same]
      exact silent e member keeps

end More

/-- Every UP link came UP in an event of the run, and is on that connection still. -/
theorem watched (c : Ctx) (cfg : Config) (accepted : cfg.Accepted) (es : List (Ctx × Event))
    (clock : es.Pairwise fun e e' => e.1.now ≤ e'.1.now)
    (isUp : ((Machine.run step (start c cfg) es).1.world.links i).state = .up) :
    ∃ before up since, es = before ++ up :: since ∧ OneConnection (start c cfg) i before up since ∧
      LastHeard ((Machine.run step (start c cfg) es).1.keepaliveOf i) up since
        ((Machine.run step (start c cfg) es).1.world.links i).lastKeepaliveRecv := by
  induction es using List.reverseRecOn with
  | nil => exact absurd isUp (Wf.start_notUp c cfg i)
  | append_singleton es e ih =>
    obtain ⟨clock, -, later⟩ := List.pairwise_append.mp clock
    have wf : Wf { orphans := True } (Machine.run step (start c cfg) es).1.world := wf_run c cfg accepted True es (by simp)
    have nonneg : 0 ≤ (Machine.run step (start c cfg) es).1.world.voiceFd := by
      rw [run_voiceFd]
      exact start_voiceFd c cfg
    have final : (Machine.run step (start c cfg) (es ++ [e])).1 = (step (Machine.run step (start c cfg) es).1 e).1 := by
      rw [Machine.run_append]
      rfl
    rw [final] at isUp ⊢
    cases step_up wf nonneg e.1 e.2 isUp with
    | opened called heard =>
      refine ⟨es, e, [], rfl, ⟨called, by simp, ?_⟩, ⟨heard.ge, by simp, .inl heard⟩⟩
      intro early late split
      obtain ⟨rfl, rfl⟩ := List.append_eq_nil_iff.mp split.symm
      rw [final]
      exact ⟨isUp, rfl⟩
    | carried silent was source now unheard =>
      obtain ⟨before, up, since, rfl, one, last⟩ := ih clock was
      have keeps := keepaliveOf_step wf e.1 e.2 source
      have earlier : ∀ e' ∈ before ++ up :: since, e'.1.now ≤ e.1.now := fun e' member => later e' member e (by simp)
      refine ⟨before, up, since ++ [e], by simp, one.more silent isUp source, ?_⟩
      rw [keeps]
      exact last.more (earlier up (by simp)) (fun e' member => earlier e' (by simp [member])) now unheard

/-- The keepalive timer of an UP link fires: the link goes down if it has been silent for too long, and otherwise stays on
its connection. -/
theorem step_watchdog {orphans : Prop} (wf : Wf { orphans } s.world) (c : Ctx) {id : Nat}
    (due : evDue id c.now s.world.loop = some (.keepalive i)) :
    let lk := (s.step (c, .timer id)).1.world.links i
    (lk.state = .down ↔ s.world.cfg.ccLinkTimeout < c.now - (s.world.links i).lastKeepaliveRecv) ∧
      (lk.state ≠ .down → lk.state = .up ∧ lk.fd = (s.world.links i).fd ∧ lk.syncSource = (s.world.links i).syncSource) := by
  intro lk
  have handle : (s.world.links i).keepaliveTimer = some id := wf.armed.handle_of_live (evLive_of_due due)
  have up := (wf.links i).kept.mp (by simp [handle])
  have fires : World.fire c id s.world.unlogged = keepaliveCb c i (s.world.unlogged.onLoop (evTimerCancel (some id))) := by
    have due' : evDue id c.now s.world.unlogged.loop = some (.keepalive i) := due
    simp only [World.fire, due']
    rfl
  have links : lk = (keepaliveCb c i (s.world.unlogged.onLoop (evTimerCancel (some id)))).links i := by
    rw [← fires]
    exact congrFun (turn_callback c (e := .timer id) rfl).links i
  rw [Wf.keepaliveCb_eq c (by exact up) (by exact handle)] at links
  by_cases silent : linkTimedOut c i s.world.unlogged
  · have down : lk.state = .down := by
      rw [links, if_pos silent]
      exact teardown_state c i _
    exact ⟨iff_of_true down silent, fun other => absurd down other⟩
  · rw [if_neg silent] at links
    have kept : lk = { s.world.links i with keepaliveTimer := some s.world.loop.nextTimer } := by
      rw [links]
      exact Function.update_self i _ _
    have stays : lk.state = .up := by rw [kept]; exact up
    refine ⟨iff_of_false (by simp [stays]) silent, fun _ => ⟨stays, ?_, ?_⟩⟩ <;> rw [kept]

end System

/-- In every run, for every UP link there is the event it came UP in, with the connection it has had since. Whenever its
keepalive timer fires then, the link goes down exactly when that event and every keepalive that has come since with the
link's sync source from the address of its remote are longer ago than `cc_link_timeout`; all other events before are
longer ago still. -/
theorem keepalive_cb_judges (c : Ctx) (cfg : Config) (accepted : cfg.Accepted) (es : List (Ctx × System.Event))
    (clock : es.Pairwise fun e e' => e.1.now ≤ e'.1.now) :
    let s := (Machine.run System.step (System.start c cfg) es).1
    ∀ i, (s.world.links i).state = .up → ∃ before up since, es = before ++ up :: since ∧
      (∀ e ∈ before, e.1.now ≤ up.1.now) ∧ System.OneConnection (System.start c cfg) i before up since ∧
      ∀ (c' : Ctx) (id : Nat), evDue id c'.now s.world.loop = some (.keepalive i) →
        let lk := (s.step (c', .timer id)).1.world.links i
        (lk.state = .down ↔ s.world.cfg.ccLinkTimeout < c'.now - up.1.now ∧
          ∀ e ∈ since, s.keepaliveOf i e.2 → s.world.cfg.ccLinkTimeout < c'.now - e.1.now) ∧
        (lk.state ≠ .down →
          lk.state = .up ∧ lk.fd = (s.world.links i).fd ∧ lk.syncSource = (s.world.links i).syncSource) := by
  intro s i isUp
  obtain ⟨before, up, since, split, one, last⟩ := System.watched c cfg accepted es clock isUp
  have wf : Wf { orphans := True } s.world := System.wf_run c cfg accepted True es (by simp)
  refine ⟨before, up, since, split, ?_, one, fun c' id due => ?_⟩
  · rw [split] at clock
    exact fun e member => (List.pairwise_append.mp clock).2.2 e member up List.mem_cons_self
  · obtain ⟨judged, stays⟩ := System.step_watchdog wf c' due
    exact ⟨judged.trans (last.silent_iff c'.now s.world.cfg.ccLinkTimeout), stays⟩

/-- An inbound link comes UP and hears one keepalive. -/
def oneKeepaliveHeard : List (Ctx × System.Event) :=
  connectAndSend shortQuestion ++
    [({ now := 30 }, .readable 3 (.datagram (buildKeepalive 1) (ascii "10.0.0.2") 42422))]

theorem keepalive_cb_judges_inbound :
    ∃ before up since, oneKeepaliveHeard = before ++ up :: since ∧
      System.OneConnection (System.start { now := 0 } inboundCfg) 0 before up since := by
  have clock : oneKeepaliveHeard.Pairwise fun e e' => e.1.now ≤ e'.1.now := by
    simp only [oneKeepaliveHeard, connectAndSend, List.cons_append, List.nil_append, List.pairwise_cons, List.mem_cons,
      List.not_mem_nil, or_false, forall_eq_or_imp, forall_eq]
    norm_num
  obtain ⟨before, up, since, split, -, one, -⟩ :=
    keepalive_cb_judges { now := 0 } inboundCfg (by decide) oneKeepaliveHeard clock 0 (by decide +kernel)
  exact ⟨before, up, since, split, one⟩

end Cc2obp
