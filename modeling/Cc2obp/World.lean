import Cc2obp.Config
import Cc2obp.Eventloop
import Cc2obp.Lib.Lines
import Cc2obp.Translate.Basic
import Mathlib.Data.List.Perm.Subperm

/-!
# The protocol modules' state

The CC-CC mux, the OpenBridge mux, the event loop they register with and the
descriptors the process holds. Calls into `translate.c` and into the sockets are
recorded in the order they are made.
-/
namespace Cc2obp

def maxPending : Nat := 32
def rxbufCap : Nat := 2048

inductive LinkState where
  | down
  | connecting
  | handshaking
  | up
deriving DecidableEq

structure CcLink where
  state : LinkState := .down
  /-- Whether an outbound link is supposed to be trying. -/
  active : Bool := false
  fd : Int := -1
  reconnectTimer : Option Nat := none
  keepaliveTimer : Option Nat := none
  syncSource : BitVec 32 := 0
  hasSyncSource : Bool := false
  lastKeepaliveRecv : Rat := 0
  rxbuf : List Byte := []
  /-- Answer lines so far. -/
  hslines : List (List Byte) := []
deriving DecidableEq

structure PendingConn where
  inUse : Bool := false
  fd : Int := 0
  srcIp : List Byte := []
  rxbuf : List Byte := []
  /-- Question lines so far. -/
  qlines : List (List Byte) := []
  timeoutTimer : Option Nat := none
deriving DecidableEq

/-- Descriptor callbacks with their user data. -/
inductive FdCb where
  | voice
  | trial
  | listen
  | obp (peer : Nat)
  | pending (slot : Nat)
  | link (idx : Nat)
  | connect (idx : Nat)
deriving DecidableEq

/-- Timer callbacks with their user data. -/
inductive TimerCb where
  | reconnect (idx : Nat)
  | keepalive (idx : Nat)
  | pendingTimeout (slot : Nat)
deriving DecidableEq

/-- A call from a protocol module into `translate.c`. -/
inductive TrCall where
  | linkUp (link : Nat)
  | linkDown (link : Nat)
  | bon (link : Nat) (radio peer : BitVec 32) (srcLid tgid : Int) (callType : Byte)
  | boff (link : Nat) (lost total : Int)
  | voice (link : Nat) (seq : BitVec 16) (timestamp : BitVec 32) (marker : Bool) (ambe21 : Bytes 21)
  | dmrd (peer : Nat) (body : DmrdBody)
deriving DecidableEq

/-- What a write to a control connection carries. -/
inductive TcpMsg where
  | question
  | answer
  | bon (radio peer : BitVec 32) (srcLid tgid : Int) (callType : Byte)
  | boff (lost total rssi : Int)
deriving DecidableEq

/-- What a datagram carries. -/
inductive UdpMsg where
  | keepalive (link : Nat)
  | reflect (link : Nat)
  | voice (link : Nat) (seq : BitVec 16) (timestamp : BitVec 32) (marker : Bool) (ambe21 : Bytes 21)
  | trial
  | dmrd (link peer : Nat)
deriving DecidableEq

inductive Out where
  | call (c : TrCall)
  /-- `write` on the link's descriptor. -/
  | tcp (link : Nat) (fd : Int) (msg : TcpMsg) (bytes : List Byte)
  /-- `udp_sendto`. -/
  | udp (fd : Int) (msg : UdpMsg) (bytes : List Byte) (ip : List Byte) (port : Int)
deriving DecidableEq

structure World where
  cfg : Config
  loop : EvLoop FdCb TimerCb := {}
  /-- Descriptors the process holds. -/
  openFds : List Int := [0, 1, 2]
  voiceFd : Int := -1
  trialFd : Int := -1
  listenFd : Int := -1
  links : Nat → CcLink := fun _ => {}
  pending : Nat → PendingConn := fun _ => {}
  /-- `user_ctr` of `cccc_send_bon`. -/
  userCtr : Nat → Int := fun _ => 0
  obpFd : Nat → Int := fun _ => -1
  obpActive : Nat → Bool := fun _ => false
  out : List Out := []

/-- What a callback takes from outside: clocks, random words, results of `connect` and `bind`. -/
structure Ctx where
  now : Rat
  wallSec : Int := 0
  wallUsec : Int := 0
  draws : List (BitVec 32) := []
  /-- Stream ids drawn by the calls into the translator, in order. -/
  rand : Nat → Bytes 4 := fun _ => Vector.replicate 4 0
  connectOk : Nat → Bool := fun _ => true
  bindOk : Nat → Bool := fun _ => true

namespace World

def setLink (w : World) (i : Nat) (lk : CcLink) : World :=
  { w with links := Function.update w.links i lk }

def setPending (w : World) (s : Nat) (p : PendingConn) : World :=
  { w with pending := Function.update w.pending s p }

def onLoop (w : World) (f : EvLoop FdCb TimerCb → EvLoop FdCb TimerCb) : World :=
  { w with loop := f w.loop }

def emit (w : World) (o : Out) : World := { w with out := w.out ++ [o] }

/-- Nothing recorded. -/
def unlogged (w : World) : World := { w with out := [] }

/-- Arm a timer `delay` seconds from now; the handle comes first. -/
def timerAfter (w : World) (c : Ctx) (delay : Rat) (cb : TimerCb) : Nat × World :=
  (w.loop.nextTimer, w.onLoop (evTimerAt (c.now + delay) cb))

/-- The lowest descriptor not in use. -/
def lowestFree (fds : List Int) : Int :=
  let free := (List.range (fds.length + 1)).find? fun n : Nat => decide ((n : Int) ∉ fds)
  ((free.getD 0 : Nat) : Int)

def openFd (w : World) : Int × World :=
  let fd := lowestFree w.openFds
  (fd, { w with openFds := fd :: w.openFds })

def closeFd (w : World) (fd : Int) : World := { w with openFds := w.openFds.filter (· ≠ fd) }

section
variable (w : World)

@[simp] theorem unlogged_out : w.unlogged.out = [] := rfl
@[simp] theorem unlogged_cfg : w.unlogged.cfg = w.cfg := rfl
@[simp] theorem unlogged_links : w.unlogged.links = w.links := rfl
@[simp] theorem unlogged_voiceFd : w.unlogged.voiceFd = w.voiceFd := rfl

end

end World

/-- There is always a free descriptor, and it is not negative. -/
theorem lowestFree_fresh (fds : List Int) :
    World.lowestFree fds ∉ fds ∧ 0 ≤ World.lowestFree fds := by
  have exists_free : ∃ n ∈ List.range (fds.length + 1), ((n : Nat) : Int) ∉ fds := by
    by_contra none
    push Not at none
    have subset : (List.range (fds.length + 1)).map (fun n : Nat => (n : Int)) ⊆ fds := by
      intro x member
      obtain ⟨n, inRange, rfl⟩ := List.mem_map.mp member
      exact none n inRange
    have distinct : ((List.range (fds.length + 1)).map (fun n : Nat => (n : Int))).Nodup :=
      List.nodup_range.map Int.ofNat_injective
    have short := (List.subperm_of_subset distinct subset).length_le
    simp at short
  obtain ⟨n, found⟩ : ∃ n, (List.range (fds.length + 1)).find? (fun n : Nat => decide ((n : Int) ∉ fds)) =
      some n := by
    rw [← Option.isSome_iff_exists, List.find?_isSome]
    simpa using exists_free
  have free := List.find?_some found
  simp only [World.lowestFree, found, Option.getD_some]
  exact ⟨by simpa using free, by omega⟩

end Cc2obp
