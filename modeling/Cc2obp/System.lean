import Cc2obp.Cccc.CcccLink
import Cc2obp.Openbridge.ObpLink

/-!
# The composed system

The event loop calls back into the protocol modules, these call into the
translator, and the translator calls out through them. No call into the
translator changes what the callback that makes it goes on to read, so the calls
of a callback are carried out in their places once it has returned.
-/
namespace Cc2obp

structure System where
  world : World
  tr : Translator := {}

/-- What a descriptor that is ready has to offer. -/
inductive FdInput where
  | recv (r : RecvResult)
  | datagram (bytes srcIp : List Byte) (srcPort : Int)
  | accepted (srcIps : List (List Byte))

namespace World

/-- The read callback of a descriptor. -/
def readable (c : Ctx) (fd : Int) (input : FdInput) (w : World) : World :=
  -- poll passes over the entry of a negative descriptor
  if fd < 0 then w
  else match FdTable.lookup w.loop.fds fd, input with
  | some .voice, .datagram bytes srcIp srcPort => onVoiceReadable c bytes srcIp srcPort w
  | some .trial, .datagram bytes srcIp srcPort => onTrialReadable bytes srcIp srcPort w
  | some .listen, .accepted srcIps => onListenReadable c srcIps w
  | some (.obp peer), .datagram bytes srcIp srcPort => onObpReadable peer bytes srcIp srcPort w
  | some (.pending s), .recv r => onPendingReadable c s r w
  | some (.link i), .recv r => onLinkTcpReadable c i r w
  | _, _ => w

/-- The write callback of a descriptor. -/
def writable (c : Ctx) (fd : Int) (connected : Bool) (w : World) : World :=
  if fd < 0 then w
  else match FdTable.lookup w.loop.wfds fd with
  | some (.connect i) => onConnectWritable c i fd connected w
  | _ => w

def timerCb (c : Ctx) (cb : TimerCb) (w : World) : World :=
  match cb with
  | .reconnect i => reconnectCb c i w
  | .keepalive i => keepaliveCb c i w
  | .pendingTimeout s => pendingTimeoutCb s w

/-- Fire a timer that is due; it is inactive before its callback runs. -/
def fire (c : Ctx) (id : Nat) (w : World) : World :=
  match evDue id c.now w.loop with
  | some cb => timerCb c cb (w.onLoop (evTimerCancel (some id)))
  | none => w

def reload (fresh : Config) (w : World) : World := { w with cfg := configReloadToggles fresh w.cfg }

/-- What a call into the translator reads. -/
def env (w : World) (now : Rat) : Env := { cfg := w.cfg, obpPeerIsEnabled := obpPeerIsEnabled w, now }

/-- A call of the translator into a protocol module. -/
def perform (w : World) (o : TrOut) : World :=
  match o with
  | .obpSendDmrd link peer body => obpSendDmrd w link peer body
  | .ccccSendBon link radioId peerId srcLid tgid callType =>
    ccccSendBon w link radioId peerId srcLid tgid callType
  | .ccccSendBoff link lost total rssi => ccccSendBoff w link lost total rssi
  | .ccccSendVoice link seq timestamp marker ambe21 => ccccSendVoice w link seq timestamp marker ambe21

/-- The sockets of both protocols bound, the enabled outbound links dialled. -/
def start (c : Ctx) (cfg : Config) : World := ccccMuxStart c (obpMuxStart c { cfg })

end World

/-- The translator's entry point for a call; a B-on gets the stream id it may need. -/
def TrCall.event (rand : Bytes 4) : TrCall → TrEvent
  | .linkUp link => .ccccLinkUp link
  | .linkDown link => .ccccLinkDown link
  | .bon link radio peer srcLid tgid callType => .ccccBon link radio peer srcLid tgid callType rand
  | .boff link lost total => .ccccBoff link lost total
  | .voice link seq timestamp marker ambe21 => .ccccVoice link seq timestamp marker ambe21
  | .dmrd peer body => .obpDmrdReceived peer body

namespace System

def translate (c : Ctx) (ev : TrEvent) (s : System) : System :=
  let (tr, out) := translatorStep (s.world.env c.now) ev s.tr
  { world := out.foldl World.perform s.world, tr }

/-- One recorded item in its place: a call is carried out, everything else has happened. -/
def replay (c : Ctx) (s : System) (item : Out × Nat) : System :=
  let s := { s with world := s.world.emit item.1 }
  match item.1 with
  | .call call => s.translate c (call.event (c.rand item.2))
  | _ => s

/-- A callback of a protocol module with its calls into the translator. -/
def callback (c : Ctx) (f : World → World) (s : System) : System :=
  let w := f s.world.unlogged
  w.out.zipIdx.foldl (replay c) { s with world := { w with out := s.world.out } }

/-- What the event loop dispatches; the tick reloads when a reload was requested and the file
loads. -/
inductive Event where
  | readable (fd : Int) (input : FdInput)
  | writable (fd : Int) (connected : Bool)
  | timer (id : Nat)
  | tick (fresh : Option Config)

def doReload (c : Ctx) (fresh : Config) (s : System) : System :=
  let s := { s with world := s.world.reload fresh }
  (s.callback c (ccccMuxReconcile c)).callback c (obpMuxReconcile c)

def tickCb (c : Ctx) (fresh : Option Config) (s : System) : System :=
  let s := s.translate c .tick
  match fresh with
  | some fresh => s.doReload c fresh
  | none => s

def react (c : Ctx) (e : Event) (s : System) : System :=
  match e with
  | .readable fd input => s.callback c (World.readable c fd input)
  | .writable fd connected => s.callback c (World.writable c fd connected)
  | .timer id => s.callback c (World.fire c id)
  | .tick fresh => s.tickCb c fresh

/-- Nothing recorded. -/
def cleared (s : System) : System := { s with world := s.world.unlogged }

/-- One event with everything it wrote and called. -/
def step (s : System) (e : Ctx × Event) : System × List Out :=
  let s := s.cleared.react e.1 e.2
  (s.cleared, s.world.out)

def start (c : Ctx) (cfg : Config) : System := { world := World.start c cfg }

/-- The calls among recorded items, each with the system when it is made and when it returns. -/
def callsIn (c : Ctx) : List (Out × Nat) → System → List (System × TrCall × System)
  | [], _ => []
  | item :: rest, s =>
    let after := s.replay c item
    match item.1 with
    | .call call => ({ s with world := s.world.emit item.1 }, call, after) :: callsIn c rest after
    | _ => callsIn c rest after

def callbackCalls (c : Ctx) (f : World → World) (s : System) : List (System × TrCall × System) :=
  let w := f s.world.unlogged
  callsIn c w.out.zipIdx { s with world := { w with out := s.world.out } }

/-- The calls of the protocol modules into the translator that an event makes, in order. -/
def calls (s : System) (e : Ctx × Event) : List (System × TrCall × System) :=
  match e.2 with
  | .readable fd input => s.cleared.callbackCalls e.1 (World.readable e.1 fd input)
  | .writable fd connected => s.cleared.callbackCalls e.1 (World.writable e.1 fd connected)
  | .timer id => s.cleared.callbackCalls e.1 (World.fire e.1 id)
  | .tick none => []
  | .tick (some fresh) =>
    let s := s.cleared.translate e.1 .tick
    callbackCalls e.1 (ccccMuxReconcile e.1) { s with world := s.world.reload fresh }

/-- What is left to do once the event loop has stopped. -/
def shutdown (c : Ctx) (s : System) : System × List Out :=
  let s := (s.cleared.callback c (ccccMuxStop c)).callback c obpMuxStop
  (s.cleared, s.world.out)

def shutdownCalls (c : Ctx) (s : System) : List (System × TrCall × System) :=
  s.cleared.callbackCalls c (ccccMuxStop c)

end System

end Cc2obp
