import Cc2obp.Eventloop.Readiness
import Cc2obp.Openbridge.ObpLink

/-!
# A socket that takes over a number

A reload that switches one peer off and another on closes the first socket and
binds the second one under the number that has just become free. In the tick's
timer this happens between `poll()` and the dispatch.
-/
namespace Cc2obp

/-- What the reload does to the loop. -/
def rebind (fd : Int) : List (EvOp FdCb Unit) := [.delFd fd, .close fd, .addFd fd (.obp 1)]

/-- The reload of two peers does it: the first is switched off, the second on. -/
theorem obpMuxReconcile_rebinds (c : Ctx) (w : World) {fd : Int} (two : w.cfg.nOpenbridge = 2)
    (off : (w.cfg.openbridgeAt 0).enabled = false ∧ w.obpActive 0 = true)
    (on : (w.cfg.openbridgeAt 1).enabled = true ∧ w.obpActive 1 = false) (binds : c.bindOk 1 = true)
    (bound : w.obpFd 0 = fd ∧ 0 ≤ fd) (lowest : World.lowestFree (w.openFds.filter (· ≠ fd)) = fd) (write : Bool) :
    (obpMuxReconcile c w).loop.table write = ((rebind fd).foldl EvOp.apply
      ({ fds := w.loop.fds, wfds := w.loop.wfds } : EvLoop FdCb Unit)).table write := by
  obtain ⟨rfl, nonneg⟩ := bound
  have turns : List.range 2 = [0, 1] := rfl
  have lowest' : World.lowestFree (w.openFds.filter fun fd => !decide (fd = w.obpFd 0)) = w.obpFd 0 := by simpa using lowest
  cases write <;>
    simp [obpMuxReconcile, two, turns, reconcilePeer, off, on, binds, unbindPeer, bindPeer, nonneg, World.onLoop, World.closeFd,
      World.openFd, lowest', rebind, EvOp.apply, EvLoop.table, evDelFd, evAddFd]

def bindBoth : List (EvOp FdCb Unit) := [.addFd 4 .voice, .addFd 7 (.obp 0)]

/-- The voice socket and behind it the first peer's, and the tick's timer due. -/
def twoSockets : EvRun FdCb Unit Unit where
  loop := { bindBoth.foldl EvOp.apply {} with timers := [⟨0, 1, (), true⟩] }
  rest := ()

theorem twoSockets_built : twoSockets.loop.Built := ⟨bindBoth, fun write => by cases write <;> rfl⟩

/-- Callbacks that do nothing but the tick's operations. -/
def tickOnly (ops : List (EvOp FdCb Unit)) : EvCallbacks FdCb Unit Unit where
  onFd _ _ _ := ((), [])
  onTimer _ _ := ((), ops)

/-- The pass in which the first peer's socket is ready and the tick does the operations. -/
def tickPass (ops : List (EvOp FdCb Unit)) : EvRun FdCb Unit Unit × List (Invocation FdCb Unit) :=
  (evPass (tickOnly ops) 2 2 (· == 1) twoSockets).getD (twoSockets, [])

end Cc2obp
