import Cc2obp.Cccc.Signalling
import Cc2obp.World

/-!
# The CC-CC mux

Handshake, signalling, keepalives, teardown and the shared sockets of
`cccc_link.c`, function by function, on the world.
-/
namespace Cc2obp

open World Lines

def reconnectDelayS : Rat := 5
def pendingTimeoutS : Rat := 5

def findLinkBySsrc (w : World) (ssrc : BitVec 32) : Option Nat :=
  (List.range w.cfg.nLink).find? fun i =>
    (w.links i).hasSyncSource && (w.links i).syncSource == ssrc

/-- The first drawn word no link holds. -/
def mintSyncSource (w : World) (draws : List (BitVec 32)) : Option (BitVec 32) :=
  draws.find? fun s => (findLinkBySsrc w s).isNone

/-! ## Outbound send primitives -/

def udpSendToLink (w : World) (idx : Nat) (msg : UdpMsg) (buf : List Byte) : World :=
  let lcfg := w.cfg.linkAt idx
  w.emit (.udp w.voiceFd msg buf lcfg.ccRemoteIp lcfg.ccRemoteVoicePort)

def tcpSend (w : World) (idx : Nat) (msg : TcpMsg) (buf : List Byte) : World :=
  w.emit (.tcp idx (w.links idx).fd msg buf)

def ccccLinkIsUp (w : World) (idx : Nat) : Bool :=
  decide (idx < w.cfg.nLink) && (w.links idx).state == .up

def ccccSendBon (w : World) (idx : Nat) (radioId peerId : BitVec 32) (srcLid tgid : Int)
    (callType : Byte) : World :=
  if (w.links idx).state ≠ .up then w
  else
    let user := (w.userCtr idx + 1) % 1000
    let w := { w with userCtr := Function.update w.userCtr idx user }
    tcpSend w idx (.bon radioId peerId srcLid tgid callType)
      (buildBon (w.cfg.linkAt idx).ccLid user radioId peerId srcLid tgid callType)

def ccccSendBoff (w : World) (idx : Nat) (lost total rssi : Int) : World :=
  if (w.links idx).state ≠ .up then w
  else tcpSend w idx (.boff lost total rssi) (buildBoff (w.cfg.linkAt idx).ccLid lost total rssi)

def ccccSendVoice (w : World) (idx : Nat) (seq : BitVec 16) (timestamp : BitVec 32) (marker : Bool)
    (ambe21 : Bytes 21) : World :=
  if (w.links idx).state ≠ .up then w
  else
    udpSendToLink w idx (.voice idx seq timestamp marker ambe21)
      (buildVoice seq timestamp (w.links idx).syncSource marker ambe21)

/-! ## Teardown and reconnect -/

def scheduleReconnect (c : Ctx) (idx : Nat) (w : World) : World :=
  let (timer, w) := w.timerAfter c reconnectDelayS (.reconnect idx)
  w.setLink idx { w.links idx with reconnectTimer := some timer }

/-- Unregister and close a descriptor, if there is one. -/
def releaseFd (fd : Int) (w : World) : World :=
  if 0 ≤ fd then ((w.onLoop (evDelFd fd)).onLoop (evDelFdWrite fd)).closeFd fd else w

/-- The record of a link that was torn down. -/
def CcLink.torn (lk : CcLink) : CcLink :=
  { lk with
    keepaliveTimer := none, fd := if 0 ≤ lk.fd then -1 else lk.fd, state := .down,
    hasSyncSource := false, rxbuf := [], hslines := [] }

def teardownLinkConnection (c : Ctx) (idx : Nat) (w : World) : World :=
  let lk := w.links idx
  let w := w.onLoop (evTimerCancel lk.keepaliveTimer)
  let w := releaseFd lk.fd w
  let w := w.setLink idx lk.torn
  let w := if lk.state = .up then w.emit (.call (.linkDown idx)) else w
  if (w.cfg.linkAt idx).ccRole = .outbound ∧ lk.active then scheduleReconnect c idx w else w

/-! ## Keepalive origination and liveness -/

def armKeepalive (c : Ctx) (idx : Nat) (w : World) : World :=
  let (timer, w) := w.timerAfter c w.cfg.ccKeepaliveInterval (.keepalive idx)
  w.setLink idx { w.links idx with lastKeepaliveRecv := c.now, keepaliveTimer := some timer }

def keepaliveCb (c : Ctx) (idx : Nat) (w : World) : World :=
  let w := w.setLink idx { w.links idx with keepaliveTimer := none }
  if (w.links idx).state ≠ .up then w
  else
    let w := udpSendToLink w idx (.keepalive idx) (buildKeepalive (w.links idx).syncSource)
    let age := c.now - (w.links idx).lastKeepaliveRecv
    if age > w.cfg.ccLinkTimeout then teardownLinkConnection c idx w
    else
      let (timer, w) := w.timerAfter c w.cfg.ccKeepaliveInterval (.keepalive idx)
      w.setLink idx { w.links idx with keepaliveTimer := some timer }

/-! ## Established-link lines -/

def finishOutboundHandshake (c : Ctx) (idx : Nat) (w : World) : World :=
  let lk := w.links idx
  let codec := lk.hslines.getD 0 []
  let ms := CString.atoi (lk.hslines.getD 1 [])
  let w := w.setLink idx { lk with hslines := [] }
  if codec ≠ ccccCodecAmbe ∨ ms ≠ ccccMsPerFrame then teardownLinkConnection c idx w
  else
    let w := w.setLink idx { w.links idx with state := .up }
    let w := armKeepalive c idx w
    w.emit (.call (.linkUp idx))

/-- The call an established control line makes into the translator. -/
def signalOf (idx : Nat) (line : List Byte) : Option TrCall :=
  if (CString.strstr (ascii "Bee=") line).isSome then
    (parseBon line).map fun f => .bon idx f.radio f.peer f.srcLid f.tgid f.callType
  else if (CString.strstr (ascii "LOSS=") line).isSome then
    (parseBoff line).map fun f => .boff idx f.1 f.2
  else none

def dispatchEstablishedLine (idx : Nat) (line : List Byte) (w : World) : World :=
  match signalOf idx line with
  | some call => w.emit (.call call)
  | none => w

def linkOnLine (c : Ctx) (idx : Nat) (line : List Byte) (w : World) : World :=
  let lk := w.links idx
  match lk.state with
  | .handshaking =>
    let w :=
      if lk.hslines.length < ccccAnswerNfields then
        w.setLink idx { lk with hslines := lk.hslines ++ [line.take 255] }
      else w
    if (w.links idx).hslines.length = ccccAnswerNfields then finishOutboundHandshake c idx w else w
  | .up => dispatchEstablishedLine idx line w
  | _ => w

/-- What `recv` returns. -/
inductive RecvResult where
  | data (bytes : List Byte)
  | closed
  | wouldBlock
  | error

def linkBuffer (idx : Nat) : Buffer World where
  get w := (w.links idx).rxbuf
  put rx w := w.setLink idx { w.links idx with rxbuf := rx }

def onLinkTcpReadable (c : Ctx) (idx : Nat) (r : RecvResult) (w : World) : World :=
  match r with
  | .data bytes => feedBytes (linkBuffer idx) rxbufCap (linkOnLine c idx) bytes w
  | .wouldBlock => w
  | _ => teardownLinkConnection c idx w

/-! ## Outbound connect -/

def onConnectWritable (c : Ctx) (idx : Nat) (fd : Int) (connected : Bool) (w : World) : World :=
  let lk := w.links idx
  let dropped := w.onLoop (evDelFdWrite fd)
  if !connected then
    let failed := (dropped.closeFd fd).setLink idx { lk with fd := -1, state := .down }
    if lk.active then scheduleReconnect c idx failed else failed
  else
    match mintSyncSource dropped c.draws with
    | none => w  -- still drawing: the callback has not returned
    | some s =>
      let w := dropped.setLink idx
        { lk with state := .handshaking, syncSource := s, hasSyncSource := true }
      let w := w.onLoop (evAddFd fd (.link idx))
      let lcfg := w.cfg.linkAt idx
      tcpSend w idx .question (buildQuestion s lcfg.ccLid lcfg.ccChannelName w.cfg.ccSiteName
        w.cfg.ccMacAddress w.cfg.ccCodeRevision w.cfg.ccOsVersion)

def ccccStartOutboundConnect (c : Ctx) (idx : Nat) (w : World) : World :=
  let lk := { w.links idx with rxbuf := [], hslines := [], hasSyncSource := false }
  if c.connectOk idx then
    let (fd, w) := w.openFd
    let w := w.setLink idx { lk with fd, state := .connecting }
    w.onLoop (evAddFdWrite fd (.connect idx))
  else
    let w := w.setLink idx { lk with fd := -1 }
    if lk.active then scheduleReconnect c idx w else w

def reconnectCb (c : Ctx) (idx : Nat) (w : World) : World :=
  let w := w.setLink idx { w.links idx with reconnectTimer := none }
  if (w.links idx).active then ccccStartOutboundConnect c idx w else w

/-! ## Inbound connections -/

/-- `free_pending`; the descriptor is closed if asked for and there is one. -/
def freePending (s : Nat) (alsoClose : Bool) (w : World) : World :=
  let p := w.pending s
  let w := w.onLoop (evTimerCancel p.timeoutTimer)
  let w := if alsoClose ∧ 0 ≤ p.fd then (w.onLoop (evDelFd p.fd)).closeFd p.fd else w
  w.setPending s { p with timeoutTimer := none, inUse := false, fd := -1 }

def pendingTimeoutCb (s : Nat) (w : World) : World :=
  let w := w.setPending s { w.pending s with timeoutTimer := none }
  freePending s true w

/-- The first enabled INBOUND link for the address and LID. -/
def matchInbound (cfg : Config) (srcIp : List Byte) (lid : Int) : Option Nat :=
  cfg.link.findIdx? fun l =>
    l.ccRole == .inbound && l.enabled && l.ccRemoteIp == srcIp && l.ccLid == lid

def questionSsrc (qlines : List (List Byte)) : BitVec 32 := CString.strtoul32 16 (qlines.getD 0 [])
def questionLid (qlines : List (List Byte)) : Int := CString.atoi (qlines.getD 1 [])

/-- The link a complete Question is accepted for: none matches, or another link holds its sync
source, and it is refused. -/
def acceptQuestion (w : World) (p : PendingConn) : Option Nat :=
  match matchInbound w.cfg p.srcIp (questionLid p.qlines) with
  | none => none
  | some matched =>
    match findLinkBySsrc w (questionSsrc p.qlines) with
    | some collider => if collider ≠ matched then none else some matched
    | none => some matched

/-- Hand the pending connection over to the matched link. -/
def takeOver (c : Ctx) (s matched : Nat) (w : World) : World :=
  let p := w.pending s
  let w := if (w.links matched).state ≠ .down then teardownLinkConnection c matched w else w
  let w := w.setLink matched { w.links matched with
    fd := p.fd, rxbuf := [], hslines := [], syncSource := questionSsrc p.qlines,
    hasSyncSource := true, state := .up }
  let w := w.onLoop (evAddFd p.fd (.link matched))
  let w := tcpSend w matched .answer
    (buildAnswer c.wallSec c.wallUsec w.cfg.ccSiteName w.cfg.ccOsVersion w.cfg.ccVersion)
  let w := armKeepalive c matched w
  let w := w.setPending s { p with fd := -1 }
  let w := freePending s false w
  w.emit (.call (.linkUp matched))

def handleQuestionComplete (c : Ctx) (s : Nat) (w : World) : World :=
  let w := w.onLoop (evTimerCancel (w.pending s).timeoutTimer)
  let w := w.setPending s { w.pending s with timeoutTimer := none }
  match acceptQuestion w (w.pending s) with
  | none => freePending s true w
  | some matched => takeOver c s matched w

def pendingOnLine (c : Ctx) (s : Nat) (line : List Byte) (w : World) : World :=
  let p := w.pending s
  let w :=
    if p.qlines.length < ccccQuestionNfields then
      w.setPending s { p with qlines := p.qlines ++ [line.take 255] }
    else w
  if (w.pending s).qlines.length = ccccQuestionNfields then handleQuestionComplete c s w else w

def pendingBuffer (s : Nat) : Buffer World where
  get w := (w.pending s).rxbuf
  put rx w := w.setPending s { w.pending s with rxbuf := rx }

def onPendingReadable (c : Ctx) (s : Nat) (r : RecvResult) (w : World) : World :=
  match r with
  | .data bytes => feedBytes (pendingBuffer s) rxbufCap (pendingOnLine c s) bytes w
  | .wouldBlock => w
  | _ => freePending s true w

def freeSlot (w : World) : Option Nat := (List.range maxPending).find? fun s => !(w.pending s).inUse

/-- One accepted connection. -/
def acceptOne (c : Ctx) (w : World) (srcIp : List Byte) : World :=
  let (fd, w) := w.openFd
  match freeSlot w with
  | none => w.closeFd fd
  | some s =>
    let p : PendingConn := { inUse := true, fd, srcIp }
    let w := w.onLoop (evAddFd fd (.pending s))
    let (timer, w) := w.timerAfter c pendingTimeoutS (.pendingTimeout s)
    w.setPending s { p with timeoutTimer := some timer }

def onListenReadable (c : Ctx) (conns : List (List Byte)) (w : World) : World :=
  conns.foldl (acceptOne c) w

/-! ## Voice and keepalive datagrams -/

def rdAt16 (buf : List Byte) (i : Nat) : BitVec 16 := rd16 (buf.getD i 0) (buf.getD (i + 1) 0)

def rdAt32 (buf : List Byte) (i : Nat) : BitVec 32 :=
  rd32 (buf.getD i 0) (buf.getD (i + 1) 0) (buf.getD (i + 2) 0) (buf.getD (i + 3) 0)

/-- The link a datagram is for: the holder of its sync source, if it comes from its remote. -/
def datagramLink (w : World) (buf srcIp : List Byte) : Option Nat :=
  match findLinkBySsrc w (rdAt32 buf 8) with
  | none => none
  | some idx => if srcIp ≠ (w.cfg.linkAt idx).ccRemoteIp then none else some idx

def onVoiceReadable (c : Ctx) (datagram srcIp : List Byte) (srcPort : Int) (w : World) : World :=
  let buf := datagram.take 256
  if buf.length < 2 then w
  else
    let pt := buf.getD 1 0 &&& 0x7F
    let marker := buf.getD 1 0 &&& 0x80 != 0
    if buf.length = ccccKeepaliveLen ∧ pt = ccccRtpPtKeepalive then
      match datagramLink w buf srcIp with
      | none => w
      | some idx =>
        let w := w.setLink idx { w.links idx with lastKeepaliveRecv := c.now }
        w.emit (.udp w.voiceFd (.reflect idx) buf srcIp srcPort)
    else if buf.length = ccccRtpPktLen ∧ pt = ccccRtpPtVoice then
      match datagramLink w buf srcIp with
      | none => w
      | some idx =>
        w.emit (.call (.voice idx (rdAt16 buf 2) (rdAt32 buf 4) marker
          (ofList 21 (buf.drop ccccRtpHdrLen))))
    else w

def onTrialReadable (datagram srcIp : List Byte) (srcPort : Int) (w : World) : World :=
  let buf := datagram.take 2048
  if buf = [] then w else w.emit (.udp w.trialFd .trial buf srcIp srcPort)

/-! ## Lifecycle -/

/-- The shared sockets and the dialling of the enabled outbound links; binding succeeds. -/
def ccccMuxStart (c : Ctx) (w : World) : World :=
  let (voiceFd, w) := w.openFd
  let w := { w with voiceFd }.onLoop (evAddFd voiceFd .voice)
  let (trialFd, w) := w.openFd
  let w := { w with trialFd }.onLoop (evAddFd trialFd .trial)
  let (listenFd, w) := w.openFd
  let w := { w with listenFd }.onLoop (evAddFd listenFd .listen)
  (List.range w.cfg.nLink).foldl (fun w i =>
    let lcfg := w.cfg.linkAt i
    let w := w.setLink i { w.links i with active := lcfg.enabled }
    if lcfg.ccRole = .outbound ∧ lcfg.enabled then ccccStartOutboundConnect c i w else w) w

/-- One link's turn in `cccc_mux_reconcile`. -/
def reconcileLink (c : Ctx) (w : World) (i : Nat) : World :=
  let lcfg := w.cfg.linkAt i
  let lk := w.links i
  match lcfg.ccRole with
  | .outbound =>
    if lcfg.enabled ∧ !lk.active then
      ccccStartOutboundConnect c i (w.setLink i { lk with active := true })
    else if !lcfg.enabled ∧ lk.active then
      let w := w.onLoop (evTimerCancel lk.reconnectTimer)
      let w := w.setLink i { lk with active := false, reconnectTimer := none }
      if lk.state ≠ .down then teardownLinkConnection c i w else w
    else w
  | .inbound =>
    let w := w.setLink i { lk with active := lcfg.enabled }
    if !lcfg.enabled ∧ lk.state ≠ .down then teardownLinkConnection c i w else w

def ccccMuxReconcile (c : Ctx) (w : World) : World :=
  (List.range w.cfg.nLink).foldl (reconcileLink c) w

/-- One link's turn in `cccc_mux_stop`. -/
def stopLink (c : Ctx) (w : World) (i : Nat) : World :=
  let lk := w.links i
  let w := w.onLoop (evTimerCancel lk.reconnectTimer)
  let w := w.setLink i { lk with active := false, reconnectTimer := none }
  if lk.state ≠ .down then teardownLinkConnection c i w else w

/-- One slot's turn in `cccc_mux_stop`. -/
def stopPending (w : World) (s : Nat) : World :=
  if (w.pending s).inUse then freePending s true w else w

/-- Unregister and close a shared socket, if it is open. -/
def closeShared (fd : Int) (w : World) : World :=
  if 0 ≤ fd then (w.onLoop (evDelFd fd)).closeFd fd else w

def ccccMuxStop (c : Ctx) (w : World) : World :=
  let w := (List.range w.cfg.nLink).foldl (stopLink c) w
  let w := (List.range maxPending).foldl stopPending w
  let w := { closeShared w.voiceFd w with voiceFd := if 0 ≤ w.voiceFd then -1 else w.voiceFd }
  let w := { closeShared w.trialFd w with trialFd := if 0 ≤ w.trialFd then -1 else w.trialFd }
  { closeShared w.listenFd w with listenFd := if 0 ≤ w.listenFd then -1 else w.listenFd }

end Cc2obp
