import Cc2obp.Config.LoadFile
import Cc2obp.Eventloop.Timeout
import Cc2obp.System.Registrations

/-!
# The program

`main.c` around the composed system: the tick that rearms itself, the flags the signal
handlers set, and `ev_run` with the timers and descriptors of the muxes. An input is a
signal, an answer of `poll()`, or leave to go on to the next call of the loop, with what
that finds outside.
-/
namespace Cc2obp

/-- `TICK_INTERVAL_S`. -/
def tickInterval : Rat := 1

/-- Timer callbacks with their user data: `tick_cb`, or one of the muxes' under its number. -/
inductive ProgramTimer where
  | tick
  | mux (id : Nat) (cb : TimerCb)

/-- The tick's timer. It stands in the list right before the timers that were made before it,
which have numbers below the mark. -/
structure TickTimer where
  due : Rat
  mark : Nat
deriving DecidableEq

/-- Where `ev_run` is: at the top of a pass; at `poll()`, having read the clock; in the loop that fires
timers, by the time read after `poll()`; in the loop over the array; or past them all. The array keeps
what `poll()` said of its entries. -/
inductive Place where
  | looping
  | polling (asked : Rat)
  | firing (now : Rat) (entries : List (PollFd FdCb × Bool))
  | serving (now : Rat) (entries : List (PollFd FdCb × Bool))
  | stopped

structure Program where
  path : List Byte
  sys : System
  tick : Option TickTimer
  place : Place := .looping
  reloadRequested : Bool := false
  shutdownRequested : Bool := false
  /-- The time of the last input that has one. -/
  clock : Rat

/-- What comes from outside. A handler only sets a flag that the tick reads at one place, so a signal
during a callback is as good as one before or after it. -/
inductive Program.Input where
  | sighup
  | sigterm
  | polled (now : Rat) (ready : Nat → Bool)
  /-- `poll()` fails with `EINTR`. -/
  | interrupted (now : Rat)
  /-- It fails otherwise. -/
  | failed
  | proceed (c : Ctx) (file : Option (List Byte)) (input : FdInput) (connected : Bool)

/-- A callback with everything it wrote and called. -/
def System.record (f : System → System) (s : System) : System × List Out :=
  let s := f s.cleared
  (s.cleared, s.world.out)

namespace Program

/-- `loop->running`. -/
def running (p : Program) : Bool :=
  match p.place with
  | .stopped => false
  | _ => true

/-- The loop's list of timers. -/
def timers (p : Program) : List (EvTimer ProgramTimer) :=
  let mux := p.sys.world.loop.timers.map fun t => { t with cb := ProgramTimer.mux t.id t.cb }
  match p.tick with
  | some tick =>
    let newer := fun t : EvTimer ProgramTimer => decide (tick.mark ≤ t.id)
    mux.takeWhile newer ++ ⟨tick.mark, tick.due, .tick, true⟩ :: mux.dropWhile newer
  | none => mux

/-- The timeout for `poll()`. -/
def timeoutMs (now : Rat) (p : Program) : Int := evTimeoutMs now p.timers

/-- What is to fire next. -/
def soonest (now : Rat) (p : Program) : Option ProgramTimer :=
  (evSoonest now ({ timers := p.timers } : EvLoop FdCb ProgramTimer)).map EvTimer.cb

def reaped (p : Program) : Program :=
  { p with sys := { p.sys with world := p.sys.world.onLoop reapInactive } }

/-- The array for `poll()` with what it found; it passes over negative descriptors. -/
def entries (ready : Nat → Bool) (p : Program) : List (PollFd FdCb × Bool) :=
  (readyFds p.sys.world.loop ready).map fun e => (e.1, e.2 && decide (0 ≤ e.1.fd))

/-- What `do_reload` gets to read, if it is called and the file loads. -/
def fresh (file : Option (List Byte)) (p : Program) : Option Config :=
  if p.reloadRequested then (configLoadFile p.path file).toOption else none

/-- `tick_cb`, its timer being inactive by then. -/
def tickCb (c : Ctx) (file : Option (List Byte)) (p : Program) : Program × List Out :=
  let ticked := System.record (System.tickCb c (p.fresh file)) p.sys
  let p := { p with sys := ticked.1, tick := none, reloadRequested := false }
  if p.shutdownRequested then ({ p.reaped with place := .stopped }, ticked.2)
  else ({ p with tick := some ⟨c.now + tickInterval, p.sys.world.loop.nextTimer⟩ }, ticked.2)

/-- One round of the loop that fires timers. -/
def fireRound (now : Rat) (entries : List (PollFd FdCb × Bool)) (c : Ctx) (file : Option (List Byte)) (p : Program) :
    Program × List Out :=
  match p.soonest now with
  | none => ({ p.reaped with place := .serving now entries }, [])
  | some .tick => p.tickCb c file
  | some (.mux id cb) =>
    let fired := p.sys.record (System.callback c fun w => World.timerCb c cb (w.onLoop (evTimerCancel (some id))))
    ({ p with sys := fired.1 }, fired.2)

/-- What stands at an entry's index by now, if it is for the entry's descriptor. -/
def current (e : PollFd FdCb) (p : Program) : Option FdCb :=
  match (p.sys.world.loop.table e.write)[e.idx]? with
  | some (fd, cb) => if fd = e.fd then some cb else none
  | none => none

/-- One round of the loop over the array. -/
def serveRound (e : PollFd FdCb × Bool) (c : Ctx) (input : FdInput) (connected : Bool) (p : Program) :
    Program × List Out :=
  if e.2 then
    match p.current e.1 with
    | some cb =>
      let f := if e.1.write then World.serveWrite c e.1.fd connected (some cb) else World.serve c input (some cb)
      let served := p.sys.record (System.callback c f)
      ({ p with sys := served.1 }, served.2)
    | none => (p, [])
  else (p, [])

def step (p : Program) (i : Input) : Program × List Out :=
  match i, p.place with
  | .sighup, _ => ({ p with reloadRequested := true }, [])
  | .sigterm, _ => ({ p with shutdownRequested := true }, [])
  | .proceed c .., .looping => ({ p.reaped with clock := c.now, place := .polling c.now }, [])
  | .polled now ready, .polling _ => ({ p with clock := now, place := .firing now (p.entries ready) }, [])
  | .interrupted now, .polling _ => ({ p with clock := now, place := .looping }, [])
  | .failed, .polling _ => ({ p with place := .stopped }, [])
  | .proceed c file _ _, .firing now entries => fireRound now entries c file { p with clock := c.now }
  | .proceed c _ input connected, .serving now (e :: rest) =>
    serveRound e c input connected { p with clock := c.now, place := .serving now rest }
  | .proceed .., .serving _ [] => ({ p with place := .looping }, [])
  | _, _ => (p, [])

/-- The program with its configuration loaded, its sockets bound and the first tick armed. -/
def ofConfig (path : List Byte) (cfg : Config) (c : Ctx) : Program :=
  let sys := System.start c cfg
  { path, sys, tick := some ⟨c.now + tickInterval, sys.world.loop.nextTimer⟩, clock := c.now }

/-- `main` up to `ev_run`. -/
def start (path : List Byte) (file : Option (List Byte)) (c : Ctx) : Except LoadError Program :=
  (configLoadFile path file).map fun cfg => ofConfig path cfg c

/-! ## The clock -/

/-- The clock never goes back. -/
def Later (p : Program) : Input → Prop
  | .polled now _ => p.clock ≤ now
  | .interrupted now => p.clock ≤ now
  | .proceed c .. => p.clock ≤ c.now
  | _ => True

instance (p : Program) (i : Input) : Decidable (p.Later i) :=
  match i with
  | .polled now _ | .interrupted now => inferInstanceAs (Decidable (p.clock ≤ now))
  | .proceed c .. => inferInstanceAs (Decidable (p.clock ≤ c.now))
  | .sighup | .sigterm | .failed => isTrue trivial

/-! ## What the system sees -/

/-- The event of a round that fires timers. -/
def fireEvent (now : Rat) (c : Ctx) (file : Option (List Byte)) (p : Program) : List (Ctx × System.Event) :=
  match p.soonest now with
  | some .tick => [(c, .tick (p.fresh file))]
  | some (.mux id _) => [(c, .timer id)]
  | none => []

/-- The event an input is to the composed system, if it is one. -/
def eventOf (p : Program) (i : Input) : List (Ctx × System.Event) :=
  match i, p.place with
  | .proceed c file _ _, .firing now _ => p.fireEvent now c file
  | .proceed c _ input connected, .serving _ (e :: _) =>
    if e.2 ∧ (p.current e.1).isSome then
      [(c, if e.1.write then .writable e.1.fd connected else .readable e.1.fd input)]
    else []
  | _, _ => []

/-- The events of a run. -/
def events (p : Program) (is : List Input) : List (Ctx × System.Event) :=
  (Machine.run (fun p i => ((p.step i).1, p.eventOf i)) p is).2

end Program

end Cc2obp
