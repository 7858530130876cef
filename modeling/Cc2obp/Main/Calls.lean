import Cc2obp.Main.Signals
import Cc2obp.Main.Silence
import Cc2obp.System.Idle

/-!
# Calls of a prompt process

No call is kept on record for much longer than the timeout after its last burst.
-/
namespace Cc2obp

namespace Program

variable {p : Program} {s : System} {δ start : Rat} {es : List (Ctx × System.Event)}

/-- The calls on record have been active since a timeout before the last tick. -/
structure Followed (start : Rat) (s : System) (p : Program) (es : List (Ctx × System.Event)) : Prop where
  sound : s.Sound
  shadows : Shadows s p
  behind : (tickTimes es).getLastD start ≤ p.clock
  fresh : CallsSince s.world.cfg ((tickTimes es).getLastD start - callIdleTimeoutS) s.tr

theorem Followed.step (followed : Followed start s p es) (i : Input) (later : p.Later i) :
    Followed start (Machine.run System.step s (p.eventOf i)).1 (p.step i).1 (es ++ p.eventOf i) := by
  obtain ⟨sound, shadows, behind, fresh⟩ := followed
  have shadows' := (shadows.step i later).2
  have ahead := clock_step i later
  have shown : ∀ e ∈ p.eventOf i, (p.step i).1.clock = e.1.now := fun e event => clock_of_event event
  have times : tickTimes (es ++ p.eventOf i) = tickTimes es ++ tickTimes (p.eventOf i) := List.filterMap_append ..
  have positive : 0 ≤ callIdleTimeoutS := by decide +kernel
  rcases eventOf_cases i later with none | ⟨⟨c, e⟩, one, now⟩
  · rw [none] at shadows' ⊢
    rw [List.append_nil]
    exact ⟨sound, shadows', behind.trans ahead, fresh⟩
  · have clock : (p.step i).1.clock = c.now := shown (c, e) (by simp [one])
    rw [one] at shadows' times ⊢
    rw [run_one] at shadows' ⊢
    by_cases tick : ∃ file, e = .tick file
    · obtain ⟨file, rfl⟩ := tick
      have last : (tickTimes (es ++ [(c, .tick file)])).getLastD start = c.now := by
        rw [times]
        simp [tickTimes]
      exact ⟨sound.step c (.tick file), shadows', by rw [last, clock], by rw [last]; exact sound.fresh_tick fresh c file⟩
    · have quiet : tickTimes [(c, e)] = [] := tickTimes_none fun x member file here => by
        obtain rfl := List.mem_singleton.mp member
        exact tick ⟨file, here⟩
      rw [quiet, List.append_nil] at times
      have recent : (tickTimes es).getLastD start - callIdleTimeoutS ≤ c.now :=
        (sub_le_self _ positive).trans (behind.trans now)
      refine ⟨sound.step c e, shadows', ?_, ?_⟩
      · rw [times]
        exact behind.trans ahead
      · rw [times]
        exact sound.fresh_step fresh c recent e

theorem Followed.run (followed : Followed start s p es) (is : List Input) (later : Machine.Meets Program.step Later p is) :
    ∃ s', Followed start s' (Machine.run Program.step p is).1 (es ++ p.events is) := by
  induction is generalizing s p es with
  | nil => exact ⟨s, by simpa [events] using followed⟩
  | cons i is ih =>
    rw [events_cons, ← List.append_assoc]
    exact ih (followed.step i later.1) later.2

theorem followed_ofConfig (path : List Byte) {cfg : Config} (rules : cfg.Rules) (c : Ctx) :
    Followed c.now (System.start c cfg) (ofConfig path cfg c) [] :=
  ⟨System.sound_run c cfg rules.accepted [], shadows_ofConfig path rules c, le_refl _, fun _ has => by cases has⟩

end Program

/-- If nothing holds the process up for more than `δ`, a call on record has had a burst within the timeout, a second and
`4 δ`: no call outlives its stream by more. -/
theorem calls_end (δ : Rat) (small : 0 ≤ δ) (path : List Byte) (file : Option (List Byte)) (c : Ctx) (nonneg : 0 ≤ c.now)
    (p : Program) (started : Program.start path file c = .ok p) (is : List Program.Input)
    (prompt : Machine.Meets Program.step (Program.Prompt δ) p is) (running : (Machine.run Program.step p is).1.running = true)
    (i : Nat) (call : ((Machine.run Program.step p is).1.sys.tr.link i).hasCall = true) :
    (Machine.run Program.step p is).1.clock ≤
      ((Machine.run Program.step p is).1.sys.tr.link i).call.lastActivity + callIdleTimeoutS + tickInterval + 4 * δ := by
  have onTime := Program.onTime_run started nonneg small is prompt
  obtain ⟨s', keeping⟩ := Program.keeping_run started nonneg small is prompt
  have behind := onTime.clock_le keeping small (Program.place_of_running running)
  obtain ⟨cfg, -, rules, rfl⟩ := Program.start_eq_ok started
  have later := Machine.meets_mono Program.step (fun _ _ prompt => prompt.1) is prompt
  obtain ⟨s, followed⟩ := (Program.followed_ofConfig path rules c).run is later
  obtain ⟨ts, same, -⟩ := followed.shadows.alike
  have tr : (Machine.run Program.step (Program.ofConfig path cfg c) is).1.sys.tr = s.tr := by
    rw [same]
    rfl
  rw [tr] at call ⊢
  have recent := (followed.fresh i call).recent
  rw [List.nil_append] at recent
  linarith

/-- It keys up then. -/
def keyUp : List Program.Input := comesUpInbound ++ hears (1 / 5) (3 / 10) (buildBon 7 1 3 4 7 9 ccccCallTypeGroup)

theorem calls_end_keyUp :
    (Machine.run Program.step (Program.ofConfig [] bridgeFileConfig { now := 0 }) keyUp).1.clock ≤
      ((Machine.run Program.step (Program.ofConfig [] bridgeFileConfig { now := 0 }) keyUp).1.sys.tr.link 0).call.lastActivity +
        callIdleTimeoutS + tickInterval + 4 * (1 / 10) :=
  calls_end (1 / 10) (by decide +kernel) [] (some bridgeFile) { now := 0 } (le_refl _) _ start_bridgeFile keyUp
    (by decide +kernel) (by decide +kernel) 0 (by decide +kernel)

end Cc2obp
