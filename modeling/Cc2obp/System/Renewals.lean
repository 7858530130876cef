import Cc2obp.Cccc.NewTimers
import Cc2obp.System.Watchdog

/-!
# New timers of the composed system

Every timer that an event leaves was there before or has a new number. A new keepalive
timer is for a link that has come UP in the event, or that had been heard of within the
timeout.
-/
namespace Cc2obp

open World

theorem fire_renewed (c : Ctx) (id : Nat) (w : World) : Renewed c w (World.fire c id w) := by
  unfold World.fire
  split
  next cb _ =>
    have taken : NewTimers w (w.onLoop (evTimerCancel (some id))) := .cancel w (some id)
    cases cb with
    | reconnect i => exact (taken.trans (.reconnectCb c i _)).renewed
    | pendingTimeout s => exact (taken.trans (.pendingTimeoutCb s _)).renewed
    | keepalive i =>
      obtain ⟨os, out, more, kept⟩ := taken
      obtain ⟨os', out', more', kept'⟩ := keepaliveCb_renewed c i (w.onLoop (evTimerCancel (some id)))
      refine ⟨os ++ os', by rw [← List.append_assoc, ← out]; exact out', more.trans more', fun t member active => ?_⟩
      rcases kept' t member active with old | ⟨fresh, heard⟩
      · exact (kept t old active).imp_right fun new => ⟨new.1, fun j beat => .inl (List.mem_append_left os' (new.2 j beat))⟩
      · exact .inr ⟨more.trans fresh, fun j beat => (heard j beat).imp_left (List.mem_append_right os)⟩
  · exact (NewTimers.refl w).renewed

theorem readable_newTimers (c : Ctx) (fd : Int) (input : FdInput) (w : World) : NewTimers w (World.readable c fd input w) := by
  unfold World.readable
  split
  · exact .refl w
  · split
    · exact .voiceReadable _ _ _ w
    · exact .trialReadable _ _ _ w
    · exact .listenReadable c _ w
    · exact .obpReadable _ _ _ _ w
    · exact .pendingReadable c _ _ w
    · exact .linkReadable c _ _ w
    · exact .refl w

theorem writable_newTimers (c : Ctx) (fd : Int) (connected : Bool) (w : World) : NewTimers w (World.writable c fd connected w) := by
  unfold World.writable
  split
  · exact .refl w
  · split
    · exact .connectWritable c _ fd connected w
    · exact .refl w

namespace System

variable {s : System} {i : Nat}

/-- The timers that an event leaves. -/
structure Renews (c : Ctx) (s s' : System) (outs : List Out) : Prop where
  more : s.world.loop.nextTimer ≤ s'.world.loop.nextTimer
  timers : ∀ t ∈ s'.world.loop.timers, t.active = true → t ∈ s.world.loop.timers ∨
    s.world.loop.nextTimer ≤ t.id ∧ ∀ i, t.cb = .keepalive i → .call (.linkUp i) ∈ outs ∨ ¬linkTimedOut c i s.world

/-- As far as timers go, two loops are the same. -/
def SameTimers (w w' : World) : Prop := w'.loop.timers = w.loop.timers ∧ w'.loop.nextTimer = w.loop.nextTimer

theorem sameTimers_of_core {w w' : World} (core : w'.core = w.core) : SameTimers w w' := by
  obtain ⟨-, loop, -⟩ := (core_eq_iff _ _).mp core
  exact ⟨congrArg EvLoop.timers loop, congrArg EvLoop.nextTimer loop⟩

theorem SameTimers.trans {w w' w'' : World} (first : SameTimers w w') (second : SameTimers w' w'') : SameTimers w w'' :=
  ⟨second.1.trans first.1, second.2.trans first.2⟩

/-- What a callback does to the timers, an event that is this callback does. -/
theorem renews_turn {c : Ctx} {w : World} {f : World → World} {s' : System} {outs : List Out} (turn : Turn w f s' outs)
    (after : SameTimers (f w) s'.world) (before : SameTimers s.world w) (empty : w.out = [])
    (renewed : Renewed c w (f w)) (same : ∀ i, linkTimedOut c i w ↔ linkTimedOut c i s.world) : Renews c s s' outs := by
  obtain ⟨os, out, more, kept⟩ := renewed
  rw [empty, List.nil_append] at out
  rw [before.1, before.2] at kept
  rw [before.2, ← after.2] at more
  refine ⟨more, fun t member active => ?_⟩
  rw [after.1] at member
  refine (kept t member active).imp_right fun new => ⟨new.1, fun i beat => ?_⟩
  rw [turn.calls, out, ← same]
  exact new.2 i beat

theorem timers_callback (c : Ctx) {e : Event} {f : World → World} (reacts : s.cleared.react c e = s.cleared.callback c f) :
    SameTimers (f s.world.unlogged) (s.step (c, e)).1.world := by
  have core : (s.cleared.callback c f).world.core = (f s.world.unlogged).core := core_callback c f s.cleared
  rw [step_state, reacts]
  exact sameTimers_of_core core

/-- After a reload the timers are those of the links' turns. -/
theorem timers_reload (c : Ctx) (s : System) (fresh : Config) :
    SameTimers (ccccMuxReconcile c (s.reloading c fresh)) (s.step (c, .tick (some fresh))).1.world := by
  have reacts : s.cleared.react c (.tick (some fresh)) = (s.cleared.translate c .tick).doReload c fresh := rfl
  rw [step_state, reacts, doReload_eq]
  unfold reloading
  generalize s.cleared.translate c .tick = before
  have mid : (before.midReload c fresh).world.core = (ccccMuxReconcile c (before.world.reload fresh).unlogged).core :=
    core_callback c _ _
  have links := sameTimers_of_core mid
  generalize before.midReload c fresh = s at links
  -- the peers' turns arm nothing
  have after : (s.callback c (obpMuxReconcile c)).world.core = (obpMuxReconcile c s.world.unlogged).core :=
    core_callback c _ s
  have peers : SameTimers s.world.unlogged (obpMuxReconcile c s.world.unlogged) := reconcilePeers_timers c s.world.unlogged
  exact (links.trans peers).trans (sameTimers_of_core after)

theorem step_renews (c : Ctx) (e : Event) : Renews c s (s.step (c, e)).1 (s.step (c, e)).2 := by
  have start : SameTimers s.world s.world.unlogged := ⟨rfl, rfl⟩
  have same : ∀ i, linkTimedOut c i s.world.unlogged ↔ linkTimedOut c i s.world := fun _ => Iff.rfl
  cases e with
  | readable fd input =>
    exact renews_turn (turn_callback c rfl) (timers_callback c rfl) start rfl (readable_newTimers c fd input _).renewed same
  | writable fd connected =>
    exact renews_turn (turn_callback c rfl) (timers_callback c rfl) start rfl (writable_newTimers c fd connected _).renewed same
  | timer id => exact renews_turn (turn_callback c rfl) (timers_callback c rfl) start rfl (fire_renewed c id _) same
  | tick fresh =>
    cases fresh with
    | none =>
      have ticked : SameTimers s.world.unlogged (s.step (c, .tick none)).1.world := sameTimers_of_core (tick_moment c s none).1
      exact renews_turn (turn_tick c s) ticked start rfl (NewTimers.refl _).renewed same
    | some fresh =>
      have core := (tick_moment c s (some fresh)).1
      have loops := sameTimers_of_core core
      have ticked : SameTimers s.world (s.reloading c fresh) := loops
      have cfg := ((core_eq_iff _ _).mp core).1
      refine renews_turn (turn_reload c s fresh) (timers_reload c s fresh) ticked rfl (NewTimers.reconcile c _).renewed fun i => ?_
      -- the timeout is no toggle
      have links := (reloading_links c fresh s).1
      have timeout : (s.reloading c fresh).cfg.ccLinkTimeout = s.world.cfg.ccLinkTimeout := by
        have here : (s.reloading c fresh).cfg = configReloadToggles fresh (s.cleared.translate c .tick).world.cfg := rfl
        rw [here, cfg]
        rfl
      simp only [linkTimedOut, links, timeout]

end System

end Cc2obp
