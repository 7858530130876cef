import Cc2obp.Eventloop
import Cc2obp.Lib.Run

/-!
# One pass of the event loop

A pass of `ev_run`: the tables are copied into an array for `poll()`, the timers
that are due fire, and then the ready entries of the array are dispatched to what
stands at their index by then. The callbacks are arbitrary; what they do to the
loop they do through its functions.
-/
namespace Cc2obp

/-- What a callback does to the loop, and to the descriptors behind its tables. -/
inductive EvOp (κ τ : Type) where
  | addFd (fd : Int) (cb : κ)
  | delFd (fd : Int)
  | addFdWrite (fd : Int) (cb : κ)
  | delFdWrite (fd : Int)
  | timerAt (due : Rat) (cb : τ)
  | timerCancel (handle : Option Nat)
  | stop
  | close (fd : Int)

variable {κ τ ρ : Type}

def EvOp.apply (l : EvLoop κ τ) : EvOp κ τ → EvLoop κ τ
  | .addFd fd cb => evAddFd fd cb l
  | .delFd fd => evDelFd fd l
  | .addFdWrite fd cb => evAddFdWrite fd cb l
  | .delFdWrite fd => evDelFdWrite fd l
  | .timerAt due cb => evTimerAt due cb l
  | .timerCancel handle => evTimerCancel handle l
  | .stop => l
  | .close _ => l

def EvOp.isStop : EvOp κ τ → Bool
  | .stop => true
  | _ => false

/-- The loop with the program around it, and what the callbacks have done since `poll()`. -/
structure EvRun (κ τ ρ : Type) where
  loop : EvLoop κ τ := {}
  running : Bool := true
  rest : ρ
  since : List (EvOp κ τ) := []

/-- What the callbacks do in a state: to the program, and in turn to the loop. -/
structure EvCallbacks (κ τ ρ : Type) where
  onFd : κ → Int → EvRun κ τ ρ → ρ × List (EvOp κ τ)
  onTimer : τ → EvRun κ τ ρ → ρ × List (EvOp κ τ)

namespace EvRun

def after (s : EvRun κ τ ρ) (did : ρ × List (EvOp κ τ)) : EvRun κ τ ρ :=
  { loop := did.2.foldl EvOp.apply s.loop
    running := s.running && !did.2.any EvOp.isStop
    rest := did.1
    since := s.since ++ did.2 }

def onLoop (f : EvLoop κ τ → EvLoop κ τ) (s : EvRun κ τ ρ) : EvRun κ τ ρ := { s with loop := f s.loop }

end EvRun

def reapInactive (l : EvLoop κ τ) : EvLoop κ τ := { l with timers := l.timers.filter EvTimer.active }

/-! ## Timers -/

/-- The earliest timer that is due, the first of the list among equals. -/
def evSoonest (now : Rat) (l : EvLoop κ τ) : Option (EvTimer τ) :=
  l.timers.foldl (fun fire t =>
    if t.active ∧ t.due ≤ now then
      match fire with
      | none => some t
      | some f => if t.due < f.due then some t else fire
    else fire) none

/-- Fire what is due, a timer at a time; `none` when the fuel runs out before nothing is due. -/
def fireDue (cbs : EvCallbacks κ τ ρ) (now : Rat) : Nat → EvRun κ τ ρ → Option (EvRun κ τ ρ)
  | 0, _ => none
  | fuel + 1, s =>
    match evSoonest now s.loop with
    | none => some s
    | some t =>
      let s := s.onLoop (evTimerCancel (some t.id))
      let s := s.after (cbs.onTimer t.cb s)
      if s.running then fireDue cbs now fuel s else some s

/-! ## Descriptors -/

/-- An entry of the array for `poll()`, with its index in the table it is from and what is registered
there. -/
structure PollFd (κ : Type) where
  write : Bool
  idx : Nat
  fd : Int
  cb : κ

def EvLoop.table (l : EvLoop κ τ) (write : Bool) : FdTable κ := if write then l.wfds else l.fds

def pollFds (l : EvLoop κ τ) : List (PollFd κ) :=
  l.fds.zipIdx.map (fun e => ⟨false, e.2, e.1.1, e.1.2⟩) ++ l.wfds.zipIdx.map (fun e => ⟨true, e.2, e.1.1, e.1.2⟩)

/-- A call of a descriptor's callback, with what was done between `poll()` and it. -/
structure Invocation (κ τ : Type) where
  write : Bool
  fd : Int
  cb : κ
  since : List (EvOp κ τ)

/-- The turn of one entry, ready or not: its index must still be in use, and for its descriptor. -/
def dispatch (cbs : EvCallbacks κ τ ρ) (s : EvRun κ τ ρ) (e : PollFd κ × Bool) :
    EvRun κ τ ρ × List (Invocation κ τ) :=
  if s.running ∧ e.2 then
    match (s.loop.table e.1.write)[e.1.idx]? with
    | some (fd, cb) =>
      if fd = e.1.fd then (s.after (cbs.onFd cb e.1.fd s), [⟨e.1.write, e.1.fd, cb, s.since⟩]) else (s, [])
    | none => (s, [])
  else (s, [])

/-- The array with what `poll()` says of each entry. -/
def readyFds (l : EvLoop κ τ) (ready : Nat → Bool) : List (PollFd κ × Bool) :=
  (pollFds l).zipIdx.map fun e => (e.1, ready e.2)

/-- The state `poll()` is called in. -/
def EvRun.polled (s : EvRun κ τ ρ) : EvRun κ τ ρ := { s.onLoop reapInactive with since := [] }

/-- A pass in which `poll()` succeeds: the state after it and the descriptor callbacks it called. -/
def evPass (cbs : EvCallbacks κ τ ρ) (now : Rat) (fuel : Nat) (ready : Nat → Bool) (s : EvRun κ τ ρ) :
    Option (EvRun κ τ ρ × List (Invocation κ τ)) :=
  (fireDue cbs now fuel s.polled).map fun fired =>
    Machine.run (dispatch cbs) (fired.onLoop reapInactive) (readyFds s.polled.loop ready)

end Cc2obp
