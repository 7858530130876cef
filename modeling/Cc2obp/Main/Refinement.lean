import Cc2obp.Config.Entries
import Cc2obp.Lib.Progress
import Cc2obp.Main.Moves
import Cc2obp.System.Schedule
import Cc2obp.System.Watchdog

/-!
# The program runs the composed system

The loop finds a timer by its place in the list and a descriptor's callback by its index
in a table, and it reaps what has fired. The composed system has neither places nor
reaping. Every run of the program is a run of the system all the same: what each input
makes the loop call is what the system calls for the event.
-/
namespace Cc2obp

namespace Program

variable {p : Program} {s : System}

/-! ## Reaping -/

theorem reaped_alike (p : Program) : System.AlikeTo p.sys p.reaped.sys := ⟨_, rfl, alike_reap _⟩

/-! ## Descriptors -/

theorem mem_of_current {e : PollFd FdCb} {cb : FdCb} (found : p.current e = some cb) :
    (e.fd, cb) ∈ p.sys.world.loop.table e.write := by
  unfold current at found
  split at found
  next fd cb' here =>
    split at found
    next same =>
      obtain rfl := Option.some.inj found
      exact same ▸ List.mem_of_getElem? here
    · cases found
  · cases found

/-- A descriptor that is found at its index is the one that is looked up by itself. -/
theorem lookup_of_current {ph : Phase} (wf : Wf ph s.world) (alike : System.AlikeTo s p.sys) {e : PollFd FdCb} {cb : FdCb}
    (found : p.current e = some cb) : FdTable.lookup (p.sys.world.loop.table e.write) e.fd = some cb := by
  obtain ⟨ts, same, -⟩ := alike
  have member := mem_of_current found
  rw [same] at member ⊢
  cases write : e.write with
  | false =>
    rw [write] at member
    exact (FdTable.lookup_eq_some wf.owned.reading.distinct).mpr member
  | true =>
    rw [write] at member
    exact (FdTable.lookup_eq_some wf.owned.writing.distinct).mpr member

/-! ## Callbacks -/

/-- Firing a timer of the muxes is the system's event for its number. -/
theorem fired_step {ph : Phase} (wf : Wf ph s.world) (alike : System.AlikeTo s p.sys) {now : Rat} {id : Nat} {cb : TimerCb}
    (soonest : p.soonest now = some (.mux id cb)) (c : Ctx) (passed : now ≤ c.now) :
    p.sys.record (System.callback c fun w => World.timerCb c cb (w.onLoop (evTimerCancel (some id)))) =
      p.sys.step (c, .timer id) := by
  obtain ⟨ts, same, alike⟩ := alike
  obtain ⟨t, due, rfl, rfl⟩ := due_of_soonest soonest
  have alikeTimers : Alike s.world.loop.timers p.sys.world.loop.timers := same ▸ alike
  have dueHere : t ∈ s.world.loop.due now := due_alike alikeTimers now ▸ due
  have dueNow : t ∈ s.world.loop.due c.now := by
    obtain ⟨inside, active, early⟩ := mem_due.mp dueHere
    exact mem_due.mpr ⟨inside, active, early.trans passed⟩
  have alikeHere : Alike p.sys.cleared.world.unlogged.loop.timers s.world.loop.timers := alikeTimers.symm
  have found : evDue t.id c.now p.sys.cleared.world.unlogged.loop = some t.cb :=
    (evDue_alike alikeHere t.id c.now).trans (evDue_of_mem wf.timers dueNow)
  have reacts : p.sys.cleared.react c (.timer t.id) = System.callback c (World.fire c t.id) p.sys.cleared := rfl
  simp only [System.step, System.record, reacts, System.callback, System.fire_of_due found]

/-- A callback that is found at its index is the one of the system's event for its descriptor. -/
theorem served_step {ph : Phase} (wf : Wf ph s.world) (alike : System.AlikeTo s p.sys) {e : PollFd FdCb} {cb : FdCb}
    (found : p.current e = some cb) (nonneg : 0 ≤ e.fd) (c : Ctx) (input : FdInput) (connected : Bool) :
    p.sys.record (System.callback c
        (if e.write then World.serveWrite c e.fd connected (some cb) else World.serve c input (some cb))) =
      p.sys.step (c, if e.write then .writable e.fd connected else .readable e.fd input) := by
  have looked := lookup_of_current wf alike found
  have watched : ¬e.fd < 0 := not_lt.mpr nonneg
  cases write : e.write with
  | false =>
    rw [write] at looked
    have here : FdTable.lookup p.sys.cleared.world.loop.fds e.fd = some cb := looked
    simp only [System.step, System.record, System.react_eq, System.turn, here, watched, if_false, Bool.false_eq_true]
  | true =>
    rw [write] at looked
    have here : FdTable.lookup p.sys.cleared.world.loop.wfds e.fd = some cb := looked
    simp only [System.step, System.record, System.react_eq, System.turn, here, watched, if_false, if_true]

/-! ## One input -/

/-- A state of the system that the program's is but for what has been reaped. -/
structure Shadows (s : System) (p : Program) : Prop where
  wf : Wf { orphans := True } s.world
  beats : ∃ k, s.world.cfg.Beats k
  alike : System.AlikeTo s p.sys
  /-- The loop fires timers by a time that has passed. -/
  passed : ∀ now entries, p.place = .firing now entries → now ≤ p.clock
  /-- Only descriptors are ready. -/
  nonneg : ∀ entries, (∃ now, p.place = .firing now entries ∨ p.place = .serving now entries) →
    ∀ e ∈ entries, e.2 = true → 0 ≤ e.1.fd

theorem beats_of_fixed {cfg cfg' : Config} {k : Rat} (beats : cfg.Beats k) (same : cfg'.fixed = cfg.fixed) : cfg'.Beats k := by
  have fixed : cfg'.fixed.ccKeepaliveInterval = cfg.fixed.ccKeepaliveInterval := by rw [same]
  have interval : cfg'.ccKeepaliveInterval = cfg.ccKeepaliveInterval := fixed
  exact ⟨interval.trans beats.1, beats.2⟩

/-- The system goes on with an event, and the program with what the event is to it. -/
theorem Shadows.event (shadows : Shadows s p) (e : Ctx × System.Event) :
    Wf { orphans := True } (s.step e).1.world ∧ (∃ k, (s.step e).1.world.cfg.Beats k) ∧
      System.AlikeTo (s.step e).1 (p.sys.step e).1 ∧ (p.sys.step e).2 = (s.step e).2 := by
  obtain ⟨k, beats⟩ := shadows.beats
  obtain ⟨alike, out⟩ := shadows.alike.step beats e.1 e.2
  exact ⟨System.wf_step shadows.wf e (by simp), ⟨k, beats_of_fixed beats (System.step_fixed shadows.wf e.1 e.2)⟩, alike, out⟩

theorem tickCb_sys (c : Ctx) (file : Option (List Byte)) (p : Program) :
    System.AlikeTo (p.sys.step (c, .tick (p.fresh file))).1 (p.tickCb c file).1.sys ∧
      (p.tickCb c file).2 = (p.sys.step (c, .tick (p.fresh file))).2 := by
  unfold tickCb
  dsimp only
  split
  · exact ⟨reaped_alike _, rfl⟩
  · exact ⟨System.alikeTo_refl _, rfl⟩

theorem entries_nonneg (ready : Nat → Bool) (p : Program) : ∀ e ∈ p.entries ready, e.2 = true → 0 ≤ e.1.fd := by
  intro e member found
  obtain ⟨e', -, rfl⟩ := List.mem_map.mp member
  simp only [Bool.and_eq_true, decide_eq_true_eq] at found
  exact found.2

theorem run_one (s : System) (e : Ctx × System.Event) : Machine.run System.step s [e] = s.step e := by
  simp [Machine.run]

/-- What an input is to the system, and that the program's state is still the system's. -/
def StepsTo (s : System) (es : List (Ctx × System.Event)) (next : Program × List Out) : Prop :=
  (Machine.run System.step s es).2 = next.2 ∧ Shadows (Machine.run System.step s es).1 next.1

theorem Shadows.still (shadows : Shadows s p) {p' : Program} (alike : System.AlikeTo p.sys p'.sys)
    (passed : ∀ now entries, p'.place = .firing now entries → now ≤ p'.clock)
    (nonneg : ∀ entries, (∃ now, p'.place = .firing now entries ∨ p'.place = .serving now entries) →
      ∀ e ∈ entries, e.2 = true → 0 ≤ e.1.fd) : StepsTo s [] (p', []) :=
  ⟨rfl, shadows.wf, shadows.beats, shadows.alike.trans alike, passed, nonneg⟩

theorem Shadows.fireRound (shadows : Shadows s p) {now : Rat} {entries : List (PollFd FdCb × Bool)}
    (place : p.place = .firing now entries) (c : Ctx) (clock : p.clock = c.now) (file : Option (List Byte)) (input : FdInput)
    (connected : Bool) : StepsTo s (p.eventOf (.proceed c file input connected)) (p.fireRound now entries c file) := by
  have passed := shadows.passed now entries place
  have nonneg := shadows.nonneg entries ⟨now, .inl place⟩
  rw [eventOf_firing place]
  unfold Program.fireRound fireEvent
  cases soonest : p.soonest now with
  | none =>
    refine shadows.still (reaped_alike p) (fun now' entries' here => by cases here) ?_
    rintro entries' ⟨now', here | here⟩
    · cases here
    · cases here
      exact nonneg
  | some timer =>
    cases timer with
    | tick =>
      obtain ⟨wf, beats, alike, out⟩ := shadows.event (c, .tick (p.fresh file))
      obtain ⟨reaps, out'⟩ := tickCb_sys c file p
      simp only [StepsTo, run_one]
      refine ⟨(out'.trans out).symm, wf, beats, alike.trans reaps, ?_, ?_⟩
      · intro now' entries' here
        unfold tickCb at here ⊢
        dsimp only at here ⊢
        split at here
        · cases here
        next running =>
          rw [if_neg running]
          exact shadows.passed now' entries' here
      · intro entries' here
        unfold tickCb at here
        dsimp only at here
        split at here
        · rcases here with ⟨now', here | here⟩ <;> cases here
        · exact shadows.nonneg entries' here
    | mux id cb =>
      obtain ⟨wf, beats, alike, out⟩ := shadows.event (c, .timer id)
      have fired := fired_step shadows.wf shadows.alike soonest c (passed.trans clock.le)
      simp only [StepsTo, run_one, fired]
      exact ⟨out.symm, wf, beats, alike, shadows.passed, shadows.nonneg⟩

theorem Shadows.serveRound (shadows : Shadows s p) {e : PollFd FdCb × Bool} (watched : e.2 = true → 0 ≤ e.1.fd)
    (c : Ctx) (input : FdInput) (connected : Bool) :
    StepsTo s (if e.2 ∧ (p.current e.1).isSome then
        [(c, if e.1.write then .writable e.1.fd connected else .readable e.1.fd input)] else [])
      (p.serveRound e c input connected) := by
  have still : StepsTo s [] (p, []) := shadows.still (System.alikeTo_refl _) shadows.passed shadows.nonneg
  unfold Program.serveRound
  cases ready : e.2 with
  | false => simpa using still
  | true =>
    cases found : p.current e.1 with
    | none => simpa using still
    | some cb =>
      have served := served_step shadows.wf shadows.alike found (watched ready) c input connected
      obtain ⟨wf, beats, alike, out⟩ :=
        shadows.event (c, if e.1.write then .writable e.1.fd connected else .readable e.1.fd input)
      simp only [StepsTo, Option.isSome_some, and_self, if_true, run_one, served]
      exact ⟨out.symm, wf, beats, alike, shadows.passed, shadows.nonneg⟩

theorem Shadows.step (shadows : Shadows s p) (i : Input) (later : p.Later i) : StepsTo s (p.eventOf i) (p.step i) := by
  have same := System.alikeTo_refl p.sys
  have still : StepsTo s [] (p, []) := shadows.still same shadows.passed shadows.nonneg
  -- where the loop holds no array there is nothing to fire or serve
  have quiet : ∀ p' : Program, p'.place = .looping ∨ (∃ asked, p'.place = .polling asked) ∨ p'.place = .stopped →
      System.AlikeTo p.sys p'.sys → StepsTo s [] (p', []) := by
    intro p' here alike
    refine shadows.still alike (fun now entries firing => ?_) fun entries busy => ?_
    · rcases here with here | ⟨asked, here⟩ | here <;> rw [here] at firing <;> cases firing
    · obtain ⟨now, busy⟩ := busy
      rcases here with here | ⟨asked, here⟩ | here <;> rw [here] at busy <;> rcases busy with busy | busy <;> cases busy
  cases i with
  | sighup => exact shadows.still same shadows.passed shadows.nonneg
  | sigterm => exact shadows.still same shadows.passed shadows.nonneg
  | interrupted now =>
    cases place : p.place with
    | polling asked =>
      simp only [eventOf, Program.step, place]
      exact quiet _ (.inl rfl) same
    | _ =>
      simp only [eventOf, Program.step, place]
      exact still
  | failed =>
    cases place : p.place with
    | polling asked =>
      simp only [eventOf, Program.step, place]
      exact quiet _ (.inr (.inr rfl)) same
    | _ =>
      simp only [eventOf, Program.step, place]
      exact still
  | polled now ready =>
    cases place : p.place with
    | polling asked =>
      simp only [eventOf, Program.step, place]
      refine shadows.still same ?_ ?_
      · rintro now' entries here
        cases here
        exact le_refl _
      · rintro entries ⟨now', here | here⟩
        · cases here
          exact entries_nonneg ready p
        · cases here
    | _ =>
      simp only [eventOf, Program.step, place]
      exact still
  | proceed c file input connected =>
    cases place : p.place with
    | looping =>
      simp only [eventOf, Program.step, place]
      exact quiet _ (.inr (.inl ⟨_, rfl⟩)) (reaped_alike p)
    | polling asked =>
      simp only [eventOf, Program.step, place]
      exact still
    | stopped =>
      simp only [eventOf, Program.step, place]
      exact still
    | firing now entries =>
      have ahead : Shadows s { p with clock := c.now } := by
        refine ⟨shadows.wf, shadows.beats, shadows.alike, fun now' entries' here => ?_, shadows.nonneg⟩
        exact (shadows.passed now' entries' here).trans later
      have round := ahead.fireRound place c rfl file input connected
      simp only [Program.step, place]
      rw [← place]
      exact round
    | serving now entries =>
      cases entries with
      | nil =>
        simp only [eventOf, Program.step, place]
        exact quiet _ (.inl rfl) same
      | cons e rest =>
        have nonneg := shadows.nonneg (e :: rest) ⟨now, .inr place⟩
        have ahead : Shadows s { p with clock := c.now, place := .serving now rest } := by
          refine ⟨shadows.wf, shadows.beats, shadows.alike, fun now' entries' here => (by cases here), ?_⟩
          rintro entries' ⟨now', here | here⟩
          · cases here
          · cases here
            exact fun e' member => nonneg e' (List.mem_cons_of_mem _ member)
        have round := ahead.serveRound (nonneg e List.mem_cons_self) c input connected
        simp only [eventOf, Program.step, place]
        exact round

/-! ## Runs -/

theorem events_cons (p : Program) (i : Input) (is : List Input) :
    p.events (i :: is) = p.eventOf i ++ (p.step i).1.events is := rfl

theorem Shadows.run (shadows : Shadows s p) (is : List Input) (later : Machine.Meets Program.step Later p is) :
    StepsTo s (p.events is) (Machine.run Program.step p is) := by
  induction is generalizing s p with
  | nil => exact shadows.still (System.alikeTo_refl _) shadows.passed shadows.nonneg
  | cons i is ih =>
    obtain ⟨out, ahead⟩ := shadows.step i later.1
    obtain ⟨outs, reached⟩ := ih ahead later.2
    rw [events_cons, StepsTo, Machine.run_append, Machine.run_cons]
    exact ⟨by rw [out, outs], reached⟩

theorem loaded_rules {path : List Byte} {file : Option (List Byte)} {cfg : Config}
    (loaded : configLoadFile path file = .ok cfg) : cfg.Rules := by
  cases file with
  | none => cases loaded
  | some file =>
    obtain ⟨t, -, loads⟩ := configLoadFile_eq_ok loaded
    exact configLoad_rules loads

/-- The system's start under the program's. -/
theorem shadows_ofConfig (path : List Byte) {cfg : Config} (rules : cfg.Rules) (c : Ctx) :
    Shadows (System.start c cfg) (ofConfig path cfg c) := by
  have same : (System.start c cfg).world.cfg = cfg := Wf.start_cfg c cfg
  constructor
  case wf => exact Wf.started c cfg rules.accepted True
  case beats =>
    rw [same]
    exact ⟨_, rfl, zero_lt_one.trans_le rules.interval.1⟩
  case alike => exact System.alikeTo_refl _
  case passed =>
    intro now entries here
    cases here
  case nonneg => rintro entries ⟨now, here | here⟩ <;> cases here

theorem start_eq_ok {path : List Byte} {file : Option (List Byte)} {c : Ctx} (started : start path file c = .ok p) :
    ∃ cfg, configLoadFile path file = .ok cfg ∧ cfg.Rules ∧ p = ofConfig path cfg c := by
  unfold start at started
  cases loads : configLoadFile path file with
  | error e =>
    rw [loads] at started
    cases started
  | ok cfg =>
    rw [loads] at started
    cases started
    exact ⟨cfg, rfl, loaded_rules loads, rfl⟩

end Program

/-- Every run of the program, whatever order its signals, timers and descriptors come in, is a run of the composed
system: it writes and calls the same, and ends in the same state but for timers that cannot fire. -/
theorem program_runs_system (path : List Byte) (file : Option (List Byte)) (c : Ctx) (p : Program)
    (started : Program.start path file c = .ok p) (is : List Program.Input)
    (later : Machine.Meets Program.step Program.Later p is) :
    ∃ cfg, configLoadFile path file = .ok cfg ∧
      (Machine.run Program.step p is).2 = (Machine.run System.step (System.start c cfg) (p.events is)).2 ∧
      System.AlikeTo (Machine.run System.step (System.start c cfg) (p.events is)).1 (Machine.run Program.step p is).1.sys := by
  obtain ⟨cfg, loads, rules, rfl⟩ := Program.start_eq_ok started
  obtain ⟨out, reached⟩ := (Program.shadows_ofConfig path rules c).run is later
  exact ⟨cfg, loads, out.symm, reached.alike⟩

/-- One inbound link to one peer. -/
def bridgeFile : List Byte :=
  ascii "[[openbridge]]\nname = \"h\"\npeer_ip = \"10.0.0.1\"\npeer_port = 62031\nbind_port = 62031\n" ++
    ascii "network_id = 1\npassphrase = \"a\"\n[[link]]\nname = \"a\"\ncross_connect_active = true\ntgid = 9\n" ++
    ascii "openbridge_system = \"h\"\ncc_role = \"inbound\"\ncc_lid = 7\ncc_remote_ip = \"10.0.0.2\"\n" ++
    ascii "cc_remote_voice_port = 42422\n"

def bridgeFileConfig : Config where
  ccSiteName := ascii "cc2obp"
  ccMacAddress := ascii "000000000000"
  ccCodeRevision := ascii "10252"
  ccVersion := ascii "cc2obp"
  ccOsVersion := ascii "Linux"
  ccKeepaliveInterval := 10
  ccLinkTimeout := 35
  openbridge := [{
    name := ascii "h", enabled := true, peerIp := ascii "10.0.0.1", peerPort := 62031, bindPort := 62031, networkId := 1
    passphrase := ascii "a" }]
  link := [{
    name := ascii "a", enabled := true, crossConnectActive := true, tgid := 9, openbridgeSystem := ascii "h", ccRole := .inbound
    ccLid := 7, ccRemoteIp := ascii "10.0.0.2", ccRemotePort := -1, ccRemoteVoicePort := 42422 }]

theorem start_bridgeFile : Program.start [] (some bridgeFile) { now := 0 } = .ok (Program.ofConfig [] bridgeFileConfig { now := 0 }) := by
  have loads : configLoadFile [] (some bridgeFile) = .ok bridgeFileConfig := by decide +kernel
  rw [Program.start, loads]
  rfl

/-- A turn of the loop; whoever listens is connected to. -/
def turn (now : Rat) : Program.Input := .proceed { now } (some bridgeFile) (.accepted [ascii "10.0.0.2"]) false

/-- A pass in which a connection is accepted, and a signal. -/
def acceptThenHup : List Program.Input := [turn 0, .polled (1 / 2) (· == 3)] ++ List.replicate 6 (turn (1 / 2)) ++ [.sighup]

/-- The next tick, and the pass after it with one more. -/
def reloadThenTick : List Program.Input :=
  [turn (1 / 2), .polled 1 fun _ => false] ++ List.replicate 9 (turn 1) ++ [.polled 2 fun _ => false, turn 2]

theorem program_runs_system_reload :
    ∃ cfg, configLoadFile [] (some bridgeFile) = .ok cfg ∧
      (Machine.run Program.step (Program.ofConfig [] bridgeFileConfig { now := 0 }) (acceptThenHup ++ reloadThenTick)).2 =
        (Machine.run System.step (System.start { now := 0 } cfg)
          (Program.events (Program.ofConfig [] bridgeFileConfig { now := 0 }) (acceptThenHup ++ reloadThenTick))).2 ∧
      System.AlikeTo (Machine.run System.step (System.start { now := 0 } cfg)
          (Program.events (Program.ofConfig [] bridgeFileConfig { now := 0 }) (acceptThenHup ++ reloadThenTick))).1
        (Machine.run Program.step (Program.ofConfig [] bridgeFileConfig { now := 0 }) (acceptThenHup ++ reloadThenTick)).1.sys :=
  program_runs_system [] (some bridgeFile) { now := 0 } _ start_bridgeFile (acceptThenHup ++ reloadThenTick)
    (by decide +kernel)

end Cc2obp
