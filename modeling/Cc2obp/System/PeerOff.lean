import Cc2obp.System.Reload
import Cc2obp.System.Wire

/-!
# Switching a peer off

The reload that switches a peer off closes its socket. A cc-origin call on it
ends with a VOICE_TERM before that only if its link is taken down, which is when
the same reload switches the link off. In runs whose reloads do so every peer
sees whole calls.
-/
namespace Cc2obp

open World

namespace System

variable {s : System}

/-- The reconcile of the links, which comes before that of the sockets, sends a VOICE_TERM of the call's
stream on the socket of the peer. -/
def TermSent (c : Ctx) (fresh : Config) (s : System) (i p : Nat) : Prop :=
  ∃ log bytes ip port, (s.midReload c fresh).world.out = s.world.out ++ log ∧
    .udp (s.world.obpFd p) (.dmrd i p) bytes ip port ∈ log ∧
    (datagramBody bytes).flags = vtermFlags ∧ (datagramBody bytes).stream = (s.tr.link i).call.streamId

/-- What the links' reconcile sends for a link with a cc-origin call: nothing, or the call's VOICE_TERM if the
link goes down. -/
theorem Sound.midReload_link (sound : Sound s) (c : Ctx) (fresh : Config) (i : Nat) :
    ∃ log, (s.midReload c fresh).world.out = s.world.out ++ log ∧
      Downed (s.world.reload fresh) i ⟨s.world.isUp, s.tr⟩ log
        ⟨(s.midReload c fresh).world.isUp, (s.midReload c fresh).tr⟩ := by
  obtain ⟨log, logged, moments⟩ := callback_moments c (s := { s with world := s.world.reload fresh })
    (w := s.world.reload fresh) ⟨rfl, rfl, rfl⟩ (reconcile_works c (wf_beforeReconcile sound.wf fresh))
    (isDown_of_downs (.reconcile c _))
  have calls : CallsUp (s.world.reload fresh).cfg ⟨s.world.isUp, s.tr⟩ :=
    callsUp_of_fixed (fixed_configReloadToggles fresh s.world.cfg).symm sound.calls
  exact ⟨log, logged, downed_trace moments calls i⟩

/-- The VOICE_TERM of a call leaves before its peer's socket is closed exactly if the reload switches the
link off. -/
theorem Sound.termSent_iff (sound : Sound s) (c : Ctx) (fresh : Config) {i p : Nat}
    (known : p < s.world.cfg.nOpenbridge) (peer : (s.world.cfg.linkAt i).openbridgeIdx = some p)
    (active : (s.tr.link i).inCall .cc = true) (socket : HasSocket s.world p) :
    TermSent c fresh s i p ↔ ((configReloadToggles fresh s.world.cfg).linkAt i).enabled = false := by
  have fixed := fixed_configReloadToggles fresh s.world.cfg
  have up := sound.calls.up i active
  have wf' : Wf { orphans := True } (s.midReload c fresh).world := wf_midReload sound.wf c fresh
  have cfg' : (s.midReload c fresh).world.cfg = configReloadToggles fresh s.world.cfg := (midReload_net sound.wf c fresh).cfg
  have links : (s.midReload c fresh).world.links = (ccccMuxReconcile c (s.world.reload fresh).unlogged).links :=
    links_of_core (core_callback c _ { s with world := s.world.reload fresh })
  obtain ⟨log, logged, downed⟩ := sound.midReload_link c fresh i
  have inside : i < s.world.cfg.nLink := by
    refine sound.wf.inside_of_ne fun unused => ?_
    simp [World.isUp, unused] at up
  constructor
  · rintro ⟨log', bytes, ip, port, logged', member, -, -⟩
    obtain rfl : log' = log := List.append_cancel_left (logged'.symm.trans logged)
    by_contra on
    -- a link that stays on is not touched, and nothing is sent for it
    have on : ((configReloadToggles fresh s.world.cfg).linkAt i).enabled = true := by simpa using on
    have was : (s.world.cfg.linkAt i).enabled = true := by
      by_contra off
      have down := ((sound.wf.links i).settled (by simp)).2 (by simpa using off)
      simp [World.isUp, down] at up
    have record : (s.midReload c fresh).world.links i = s.world.links i := by
      rw [links]
      refine reconcile_untouched c _ ?_ (((sound.wf.links i).settled (by simp)).1.trans was) on
      exact (Config.nLink_of_fixed fixed).symm ▸ inside
    cases downed with
    | untouched _ _ silent =>
      have frame := List.mem_filter.mpr ⟨member, (by simp [Out.isFrameOf] : Out.isFrameOf i (.udp (s.world.obpFd p)
        (.dmrd i p) bytes ip port) = true)⟩
      rw [silent] at frame
      cases frame
    | down was up' =>
      simp only [World.isUp, record] at was up'
      rw [was] at up'
      cases up'
  · intro off
    have down : ((s.midReload c fresh).world.links i).state = .down :=
      ((wf'.links i).settled (by simp)).2 (by rw [cfg']; exact off)
    cases downed with
    | untouched up' => simp [World.isUp, down] at up' up; simp [up] at up'
    | down _ _ _ _ ended =>
      obtain ⟨q, seq, resolved, sent⟩ := ended active
      have same : ((s.world.reload fresh).cfg.linkAt i).openbridgeIdx = (s.world.cfg.linkAt i).openbridgeIdx :=
        LinkConfig.openbridgeIdx_of_fixed (Config.linkAt_of_fixed fixed i)
      obtain rfl : p = q := by simpa [same, peer] using resolved
      have open_ : ¬((s.world.reload fresh).cfg.nOpenbridge ≤ p ∨ (s.world.reload fresh).obpFd p < 0) := by
        have count : (s.world.reload fresh).cfg.nOpenbridge = s.world.cfg.nOpenbridge := Config.nOpenbridge_of_fixed fixed
        have fd : (s.world.reload fresh).obpFd p = s.world.obpFd p := rfl
        have nonneg := socket.1
        omega
      simp only [World.datagram, open_, if_false] at sent
      have member := List.mem_filter.mp (sent ▸ List.mem_singleton_self _)
      exact ⟨log, _, _, _, logged, member.1, by simp [termOf, fillDmrd], by simp [termOf, fillDmrd]⟩

/-! ## Runs -/

/-- Every link with a cc-origin call on a peer that a reload leaves switched off is switched off as well. -/
def CallsReleased (s : System) (e : Ctx × Event) : Prop :=
  ∀ fresh, e.2 = .tick (some fresh) → ∀ i p, (s.world.cfg.linkAt i).openbridgeIdx = some p →
    ((s.cleared.translate e.1 .tick).tr.link i).inCall .cc = true →
    ((configReloadToggles fresh s.world.cfg).openbridgeAt p).enabled = false →
    ((configReloadToggles fresh s.world.cfg).linkAt i).enabled = false

variable {cfg : Config} {log : List Out}

/-- What a run of such reloads keeps of the wires. -/
structure OnWires (cfg : Config) (s : System) (log : List Out) : Prop where
  sound : Sound s
  fixed : s.world.cfg.fixed = cfg.fixed
  framed : Framed cfg s.world s.tr log

theorem OnWires.reload (wires : OnWires cfg s log) (c : Ctx) (fresh : Config)
    (released : ∀ i p, (s.world.cfg.linkAt i).openbridgeIdx = some p → (s.tr.link i).inCall .cc = true →
      ((configReloadToggles fresh s.world.cfg).openbridgeAt p).enabled = false →
      ((configReloadToggles fresh s.world.cfg).linkAt i).enabled = false) :
    ∃ out, (s.doReload c fresh).world.out = s.world.out ++ out ∧
      Framed cfg (s.doReload c fresh).world (s.doReload c fresh).tr (log ++ out) := by
  obtain ⟨⟨wf, calls⟩, fixed, framed⟩ := wires
  have reloads := fixed_configReloadToggles fresh s.world.cfg
  obtain ⟨out, logged, moments⟩ := reload_moments wf c fresh (w := s.world.reload fresh) ⟨rfl, rfl, rfl⟩
  have calls' : CallsUp (s.world.reload fresh).cfg ⟨s.world.isUp, s.tr⟩ := callsUp_of_fixed reloads.symm calls
  have framed' := (framed.of_sockets (s.world.reload fresh) (Config.nOpenbridge_of_fixed reloads) rfl).trace
    (reloads.trans fixed) wf.sockets calls' moments
  have wf' := wf_reload wf c fresh
  have cfg' := reload_cfg wf c fresh
  have sockets := fun p known => reload_active wf c fresh (p := p) known
  refine ⟨out, logged, ?_⟩
  generalize s.doReload c fresh = s' at moments framed' wf' cfg' sockets
  refine ⟨fun i p peer active => ?_, framed'.tracked⟩
  -- a link whose call goes on stays on, and so does its peer
  have up' := (CallsUp.trace moments calls').up i active
  have on : ((configReloadToggles fresh s.world.cfg).linkAt i).enabled = true := by
    by_contra off
    have down := ((wf'.links i).settled (by simp)).2 (by rw [cfg']; simpa using off)
    simp [World.isUp, down] at up'
  have before : (s.tr.link i).inCall .cc = true := by
    cases downed_trace moments calls' i with
    | untouched _ record _ => rwa [record] at active
    | down _ _ record _ _ =>
      have idle : (s'.tr.link i).hasCall = false := record
      simp [LinkRuntime.inCall, idle] at active
  have idx := LinkConfig.openbridgeIdx_of_fixed (Config.linkAt_of_fixed fixed i)
  have stays : ((configReloadToggles fresh s.world.cfg).openbridgeAt p).enabled = true := by
    by_contra off
    have left := released i p (idx.trans peer) before (by simpa using off)
    simp [on] at left
  obtain ⟨known, bound⟩ := framed.bound i p peer before
  have same := (sockets p (by rwa [Config.nOpenbridge_of_fixed reloads])).2 stays (by simpa [wf.sockets] using bound)
  rw [cfg', Config.nOpenbridge_of_fixed reloads, same]
  exact ⟨known, bound⟩

theorem OnWires.step (wires : OnWires cfg s log) (e : Ctx × Event) (released : CallsReleased s e) :
    OnWires cfg (s.step e).1 (log ++ (s.step e).2) := by
  obtain ⟨c, e⟩ := e
  have fixed : (s.step (c, e)).1.world.cfg.fixed = cfg.fixed := by
    rw [step_cfg wires.sound.wf c e, reloads_fixed, wires.fixed]
  refine ⟨wires.sound.step c e, fixed, ?_⟩
  by_cases reload : ∃ fresh, e = .tick (some fresh)
  · -- first the tick, on the old configuration, then the reload
    obtain ⟨fresh, rfl⟩ := reload
    obtain ⟨core, -, moments⟩ := tick_moment c s none
    have ticked := wires.sound.ticked c
    have framed := wires.framed.trace wires.fixed wires.sound.wf.sockets wires.sound.calls moments
    have released' := released fresh rfl
    have cleared : ∀ s' : System, Framed cfg s'.world s'.tr (log ++ s'.world.out) →
        Framed cfg s'.cleared.world s'.cleared.tr (log ++ s'.world.out) := fun s' framed => framed.of_sockets _ rfl rfl
    rw [step_out, step_state]
    refine cleared _ ?_
    simp only [react, tickCb]
    generalize s.cleared.translate c .tick = t at core moments ticked framed released'
    obtain ⟨cfg', -, -, -, -, -, -, -, obpFd, -⟩ := (core_eq_iff _ _).mp core
    rw [← cfg'] at released'
    have wires' : OnWires cfg t (log ++ t.world.out) :=
      ⟨ticked, by rw [cfg']; exact wires.fixed, framed.of_sockets _ (by rw [cfg']) obpFd⟩
    obtain ⟨out, logged, after⟩ := wires'.reload c fresh released'
    rw [logged, ← List.append_assoc]
    exact after
  · -- no other event changes the sockets
    have noReload : ∀ fresh, e ≠ .tick (some fresh) := fun fresh here => reload ⟨fresh, here⟩
    have same : e.reloads s.world = s.world := by
      cases e with
      | tick fresh =>
        cases fresh with
        | none => rfl
        | some fresh => exact absurd rfl (noReload fresh)
      | _ => rfl
    have net := step_net wires.sound.wf c e noReload
    obtain ⟨mid, before, after, logged, first, second⟩ := step_moments wires.sound.wf c e
    rw [same] at second
    have framed := wires.framed.trace wires.fixed wires.sound.wf.sockets wires.sound.calls first
    have framed' := framed.trace wires.fixed wires.sound.wf.sockets (.trace first wires.sound.calls) second
    rw [logged, ← List.append_assoc]
    exact framed'.of_sockets _ (by rw [net.cfg]) net.obpFd

end System

/-- From every state a run reaches, a reload that switches a peer off sends the VOICE_TERM of a cc-origin call
on it exactly if it switches the call's link off too; and where all reloads do, every link's frames on every
peer's wire are whole calls. -/
theorem peer_off_ends_calls_iff (c : Ctx) (cfg : Config) (accepted : cfg.Accepted)
    (es : List (Ctx × System.Event)) :
    let run := Machine.run System.step (System.start c cfg) es
    (∀ (c' : Ctx) (fresh : Config) (i p : Nat), let s := run.1.cleared.translate c' .tick
      p < s.world.cfg.nOpenbridge → (s.world.cfg.linkAt i).openbridgeIdx = some p →
      (s.tr.link i).inCall .cc = true → HasSocket s.world p →
      ((configReloadToggles fresh s.world.cfg).openbridgeAt p).enabled = false →
      (System.TermSent c' fresh s i p ↔ ((configReloadToggles fresh s.world.cfg).linkAt i).enabled = false)) ∧
    (Machine.Meets System.step System.CallsReleased (System.start c cfg) es →
      ∀ i p, dmrdCall.Bracketed (wireFrames i p run.2)) := by
  intro run
  have sound : run.1.Sound := System.sound_run c cfg accepted es
  refine ⟨fun c' fresh i p => ?_, fun released => ?_⟩
  · intro s known peer active socket _
    exact (sound.ticked c').termSent_iff c' fresh known peer active socket
  · have started : System.OnWires cfg (System.start c cfg) [] := by
      refine ⟨System.sound_run c cfg accepted [], congrArg Config.fixed (Wf.start_cfg c cfg), ?_⟩
      · refine ⟨fun i p _ active => ?_, fun i p => ⟨[], rfl, ?_⟩⟩
        · cases active
        split
        · exact (ccTracked_idle rfl).mpr Session.tracks_nil
        · rfl
    have wires := Machine.run_invariant System.step (System.OnWires cfg)
      (fun s log e wires released => wires.step e released) _ [] es released started
    rw [List.nil_append] at wires
    exact wires.framed.bracketed

/-! ## One peer and one link -/

/-- The same file with the peer switched off. -/
def peerOffCfg : Config := { bridgedCfg with openbridge := bridgedCfg.openbridge.map ObpPeerConfig.fixed }

/-- The link comes UP and a call from its other end starts. -/
def callThrough : List (Ctx × System.Event) :=
  [({ now := 0 }, .readable 6 (.accepted [ascii "10.0.0.2"])),
    ({ now := 1 }, .readable 7 (.recv (.data shortQuestion))),
    ({ now := 2 }, .readable 7 (.recv (.data (buildBon 7 1 3 4 7 9 ccccCallTypeGroup))))]

/-- The reload takes the link with the peer. -/
theorem peer_off_ends_calls_iff_dark :
    let run := Machine.run System.step (System.start { now := 0 } bridgedCfg)
      (callThrough ++ [({ now := 3 }, .tick (some bridgedCfg.fixed))])
    (∀ (c' : Ctx) (fresh : Config) (i p : Nat), let s := run.1.cleared.translate c' .tick
      p < s.world.cfg.nOpenbridge → (s.world.cfg.linkAt i).openbridgeIdx = some p →
      (s.tr.link i).inCall .cc = true → HasSocket s.world p →
      ((configReloadToggles fresh s.world.cfg).openbridgeAt p).enabled = false →
      (System.TermSent c' fresh s i p ↔ ((configReloadToggles fresh s.world.cfg).linkAt i).enabled = false)) ∧
    (Machine.Meets System.step System.CallsReleased (System.start { now := 0 } bridgedCfg)
      (callThrough ++ [({ now := 3 }, .tick (some bridgedCfg.fixed))]) →
      ∀ i p, dmrdCall.Bracketed (wireFrames i p run.2)) :=
  peer_off_ends_calls_iff { now := 0 } bridgedCfg (by decide) _

theorem call_through : let run := Machine.run System.step (System.start { now := 0 } bridgedCfg) callThrough
    let s := System.translate { now := 3 } .tick run.1.cleared
    s.world.cfg = bridgedCfg ∧ (s.tr.link 0).inCall .cc = true ∧ s.world.obpActive 0 = true ∧
      (wireFrames 0 0 run.2).map (fun b => (b.flags, b.stream)) = [(vheadFlags, (s.tr.link 0).call.streamId)] := by
  decide +kernel

/-- The file switches the peer off and leaves the link on: the VOICE_HEAD of the call is on the peer's wire and
its VOICE_TERM never comes. -/
theorem peer_off_strands_call : ¬∀ (c : Ctx) (cfg : Config), cfg.Accepted → ∀ (es : List (Ctx × System.Event))
    (c' : Ctx) (fresh : Config) (i p : Nat), let run := Machine.run System.step (System.start c cfg) es
      let s := run.1.cleared.translate c' .tick
      p < s.world.cfg.nOpenbridge → (s.world.cfg.linkAt i).openbridgeIdx = some p →
      (s.tr.link i).inCall .cc = true → HasSocket s.world p →
      (∃ head ∈ wireFrames i p run.2, head.flags = vheadFlags ∧ head.stream = (s.tr.link i).call.streamId) →
      (s.world.cfg.openbridgeAt p).enabled = true →
      ((configReloadToggles fresh s.world.cfg).openbridgeAt p).enabled = false → System.TermSent c' fresh s i p := by
  intro ends
  obtain ⟨cfg, active, bound, wire⟩ := call_through
  have sound := (System.sound_run { now := 0 } bridgedCfg (by decide) callThrough).ticked { now := 3 }
  have sent := ends { now := 0 } bridgedCfg (by decide) callThrough { now := 3 } peerOffCfg 0 0
  simp only at sent
  generalize System.translate { now := 3 } .tick
    (Machine.run System.step (System.start { now := 0 } bridgedCfg) callThrough).1.cleared = s at *
  have known : 0 < s.world.cfg.nOpenbridge := by rw [cfg]; decide
  have peer : (s.world.cfg.linkAt 0).openbridgeIdx = some 0 := by rw [cfg]; decide
  have socket := sound.wf.hasSocket known bound
  have head : ∃ head ∈ wireFrames 0 0 (Machine.run System.step (System.start { now := 0 } bridgedCfg) callThrough).2,
      head.flags = vheadFlags ∧ head.stream = (s.tr.link 0).call.streamId := by
    obtain ⟨head, rest, frames, same, -⟩ := List.map_eq_cons_iff.mp wire
    exact ⟨head, by rw [frames]; exact List.mem_cons_self, by simpa using same⟩
  have term := sent known peer active socket head (by rw [cfg]; decide) (by rw [cfg]; decide)
  have off := (sound.termSent_iff { now := 3 } peerOffCfg known peer active socket).mp term
  rw [cfg] at off
  exact absurd off (by decide)

end Cc2obp
