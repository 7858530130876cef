import Cc2obp.Main.Prompt
import Cc2obp.System.Renewals

/-!
# Silent links of a prompt process

No link stays UP for much longer than the link timeout and a keepalive interval after it
was last heard.
-/
namespace Cc2obp

namespace Program

variable {p : Program} {s : System} {δ k T : Rat}

/-- The next look at an UP link comes soon enough after it was last heard. -/
structure LookedAfter (δ k T : Rat) (s : System) (p : Program) : Prop where
  keeping : Keeping δ k s p
  timeout : s.world.cfg.ccLinkTimeout = T ∧ 0 ≤ T
  voice : 0 ≤ s.world.voiceFd
  soon : ∀ i, (s.world.links i).state = .up → ∀ t ∈ s.world.loop.timers, t.active = true → t.cb = .keepalive i →
    t.due ≤ (s.world.links i).lastKeepaliveRecv + T + k

/-- An event of the system, after which the program shows its time. -/
theorem LookedAfter.event (looked : LookedAfter δ k T s p) (e : Ctx × System.Event) {p' : Program}
    (keeping : Keeping δ k (s.step e).1 p') (clock : p'.clock = e.1.now) : LookedAfter δ k T (s.step e).1 p' := by
  obtain ⟨before, ⟨timeout, nonneg⟩, voice, soon⟩ := looked
  have wf := before.shadows.wf
  have toggles := congrArg Config.ccLinkTimeout (System.step_fixed wf e.1 e.2)
  have fixed : (s.step e).1.world.cfg.ccLinkTimeout = s.world.cfg.ccLinkTimeout := toggles
  refine ⟨keeping, ⟨fixed.trans timeout, nonneg⟩, by rw [System.step_voiceFd e.1 e.2]; exact voice, fun i up t member active beat => ?_⟩
  have ahead : t.due ≤ e.1.now + k := by
    have armed := (keeping.timer member active).2
    rwa [clock, beat] at armed
  -- a link that is heard now has the timeout before it
  have heard : ((s.step e).1.world.links i).lastKeepaliveRecv = e.1.now →
      t.due ≤ ((s.step e).1.world.links i).lastKeepaliveRecv + T + k := by
    intro now
    rw [now]
    linarith
  cases System.step_up wf voice e.1 e.2 up with
  | opened called now => exact heard now
  | carried silent was source now unheard =>
    by_cases keepalive : s.keepaliveOf i e.2
    · exact heard (now keepalive)
    · rw [unheard keepalive]
      rcases (System.step_renews e.1 e.2).timers t member active with old | ⟨-, new⟩
      · exact soon i was t old active beat
      · -- it was looked at just now, and had been heard within the timeout
        have recent := (new i beat).resolve_left silent
        have within : e.1.now - (s.world.links i).lastKeepaliveRecv ≤ T := by
          rw [← timeout]
          exact not_lt.mp recent
        linarith

theorem LookedAfter.step (looked : LookedAfter δ k T s p) (nonneg : 0 ≤ δ) (i : Input) (prompt : p.Prompt δ i) :
    LookedAfter δ k T (Machine.run System.step s (p.eventOf i)).1 (p.step i).1 := by
  have keeping := looked.keeping.step nonneg i prompt
  rcases eventOf_cases i prompt.1 with none | ⟨e, one, -⟩
  · rw [none] at keeping ⊢
    exact ⟨keeping, looked.timeout, looked.voice, looked.soon⟩
  · have clock : (p.step i).1.clock = e.1.now := clock_of_event (by simp [one])
    rw [one, run_one] at keeping ⊢
    exact looked.event e keeping clock

theorem lookedAfter_run {path : List Byte} {file : Option (List Byte)} {c : Ctx} (started : start path file c = .ok p)
    (began : 0 ≤ c.now) (nonneg : 0 ≤ δ) (is : List Input) (prompt : Machine.Meets Program.step (Prompt δ) p is) :
    ∃ s, LookedAfter δ p.sys.world.cfg.ccKeepaliveInterval p.sys.world.cfg.ccLinkTimeout s (Machine.run Program.step p is).1 := by
  obtain ⟨cfg, -, rules, rfl⟩ := start_eq_ok started
  have same : (ofConfig path cfg c).sys.world.cfg = cfg := Wf.start_cfg c cfg
  have first : LookedAfter δ cfg.ccKeepaliveInterval cfg.ccLinkTimeout (System.start c cfg) (ofConfig path cfg c) := by
    constructor
    case keeping => exact keeping_ofConfig path rules c began nonneg
    case timeout => exact ⟨congrArg Config.ccLinkTimeout same, zero_le_one.trans rules.timeout.1⟩
    case voice => exact System.start_voiceFd c cfg
    case soon =>
      intro i up
      exact absurd up (Wf.start_notUp c cfg i)
  rw [same]
  exact Machine.run_state_invariant Program.step (fun p => ∃ s, LookedAfter δ cfg.ccKeepaliveInterval cfg.ccLinkTimeout s p)
    (fun _ i ⟨_, looked⟩ prompt => ⟨_, looked.step nonneg i prompt⟩) _ is prompt ⟨_, first⟩

end Program

/-- If nothing holds the process up for more than `δ`, a link that is UP has been heard within the link timeout, a
keepalive interval and `4 δ`: no link outlives its remote by more. -/
theorem silent_links_drop (δ : Rat) (small : 0 ≤ δ) (path : List Byte) (file : Option (List Byte)) (c : Ctx) (nonneg : 0 ≤ c.now)
    (p : Program) (started : Program.start path file c = .ok p) (is : List Program.Input)
    (prompt : Machine.Meets Program.step (Program.Prompt δ) p is) (running : (Machine.run Program.step p is).1.running = true)
    (i : Nat) (up : ((Machine.run Program.step p is).1.sys.world.links i).state = .up) :
    (Machine.run Program.step p is).1.clock ≤ ((Machine.run Program.step p is).1.sys.world.links i).lastKeepaliveRecv +
      p.sys.world.cfg.ccLinkTimeout + p.sys.world.cfg.ccKeepaliveInterval + 4 * δ := by
  obtain ⟨s, keeping, -, -, soon⟩ := Program.lookedAfter_run started nonneg small is prompt
  have links : (Machine.run Program.step p is).1.sys.world.links = s.world.links := by
    obtain ⟨ts, same, -⟩ := keeping.shadows.alike
    rw [same]
    rfl
  rw [links] at up ⊢
  -- its keepalive timer is armed, and not overdue by much
  obtain ⟨t, member, active, beat⟩ := (keeping.shadows.wf.timed_iff rfl (.keepalive i)).mp up
  have late := (keeping.timer member active).1.clock_le keeping.punctual.passing small (Program.place_of_running running)
  have due := soon i up t member active beat
  linarith

/-- A pass in which some bytes arrive on the accepted connection. -/
def hears (asked now : Rat) (bytes : List Byte) : List Program.Input :=
  .proceed { now := asked } none (.recv .wouldBlock) false :: .polled now (· == 4) ::
    List.replicate 7 (.proceed { now } none (.recv (.data bytes)) false)

/-- The other end connects and asks for its link. -/
def comesUpInbound : List Program.Input :=
  [turn 0, .polled (1 / 10) (· == 3)] ++ List.replicate 6 (turn (1 / 10)) ++ hears (1 / 10) (1 / 5) shortQuestion

theorem silent_links_drop_inbound :
    (Machine.run Program.step (Program.ofConfig [] bridgeFileConfig { now := 0 }) comesUpInbound).1.clock ≤
      ((Machine.run Program.step (Program.ofConfig [] bridgeFileConfig { now := 0 }) comesUpInbound).1.sys.world.links 0).lastKeepaliveRecv +
        (Program.ofConfig [] bridgeFileConfig { now := 0 }).sys.world.cfg.ccLinkTimeout +
          (Program.ofConfig [] bridgeFileConfig { now := 0 }).sys.world.cfg.ccKeepaliveInterval + 4 * (1 / 10) :=
  silent_links_drop (1 / 10) (by decide +kernel) [] (some bridgeFile) { now := 0 } (le_refl _) _ start_bridgeFile comesUpInbound
    (by decide +kernel) (by decide +kernel) 0 (by decide +kernel)

end Cc2obp
