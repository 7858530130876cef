import Cc2obp.Config
import Cc2obp.Cccc.Ambe
import Cc2obp.Dmr.Bptc
import Cc2obp.Openbridge.ObpConst
import Mathlib.Data.Rat.Floor

/-!
# The translator

Per-link call records, the per-peer sequence counters and the handlers of
`translate.c`. A handler returns the new translator and the calls it makes into
the two protocol modules, in order; `ev_now`, the configuration, the random
stream id and `obp_peer_is_enabled` come in with the event. The C `int` counters
are natural numbers.
-/
namespace Cc2obp

/-- Seconds of `CALL_IDLE_TIMEOUT_S`. -/
def callIdleTimeoutS : Rat := 5

def ccccRtpTsStep : BitVec 32 := 480

/-- Seconds of one voice slot, 0.060. -/
def ccccSlotMs : Rat := 3 / 50

def ccccCallTypeGroup : Byte := 0x47

inductive CallOrigin where
  | none
  | cc
  | obp
deriving DecidableEq

structure CallState where
  origin : CallOrigin := .none
  rfSrc : BitVec 32 := 0
  /-- Received network id of an obp-origin call. -/
  peerId : BitVec 32 := 0
  /-- Source peer of the B-on of a cc-origin call. -/
  ccPeerId : BitVec 32 := 0
  streamId : Bytes 4 := Vector.replicate 4 0
  lc : Bytes 9 := Vector.replicate 9 0
  emb : Vector (Bytes 4) 4 := Vector.replicate 4 (Vector.replicate 4 0)
  callStartTime : Rat := 0
  lastActivity : Rat := 0
  ccSentFirst : Bool := false
  /-- Latest slot index of an obp-origin call. -/
  ccSeq : Int := 0
  /-- Bursts sent so far in a cc-origin call. -/
  obpSeqPos : Nat := 0
deriving DecidableEq

structure LinkRuntime where
  hasCall : Bool := false
  call : CallState := {}
  cxDropLogged : Bool := false
deriving DecidableEq

structure Translator where
  link : Nat → LinkRuntime := fun _ => {}
  /-- Frames handed over so far, per OpenBridge peer. -/
  obpSeqCtr : Nat → Nat := fun _ => 0

/-- What a handler reads besides the translator. -/
structure Env where
  cfg : Config
  /-- `obp_peer_is_enabled`. -/
  obpPeerIsEnabled : Nat → Bool
  now : Rat

/-- A call from a handler into `obp_link.c` or `cccc_link.c`, made for a link. -/
inductive TrOut where
  | obpSendDmrd (link peer : Nat) (body : DmrdBody)
  | ccccSendBon (link : Nat) (radioId peerId : BitVec 32) (srcLid tgid : Int) (callType : Byte)
  | ccccSendBoff (link : Nat) (lost total rssi : Int)
  | ccccSendVoice (link : Nat) (seq : BitVec 16) (timestamp : BitVec 32) (marker : Bool)
      (ambe21 : Bytes 21)
deriving DecidableEq

def TrOut.link : TrOut → Nat
  | .obpSendDmrd link _ _ => link
  | .ccccSendBon link .. => link
  | .ccccSendBoff link .. => link
  | .ccccSendVoice link .. => link

def Translator.setLink (tr : Translator) (i : Nat) (lr : LinkRuntime) : Translator :=
  { tr with link := Function.update tr.link i lr }

def obpGateOpen (env : Env) (linkIdx : Nat) : Bool :=
  let lcfg := env.cfg.linkAt linkIdx
  lcfg.crossConnectActive && lcfg.openbridgeIdx.any env.obpPeerIsEnabled

/-- The closed branch of `obp_gate_open`: the drop is logged once per attempt. -/
def logDrop (linkIdx : Nat) (tr : Translator) : Translator :=
  tr.setLink linkIdx { tr.link linkIdx with cxDropLogged := true }

/-- The start of a new attempt. -/
def newAttempt (linkIdx : Nat) (tr : Translator) : Translator :=
  tr.setLink linkIdx { tr.link linkIdx with cxDropLogged := false }

/-! ## DMR burst assembly -/

/-- Full LC of a VOICE_HEAD or VOICE_TERM as a 33-byte burst. -/
def buildHeadTermPayload (lc : Bytes 9) (isTerm : Bool) : Bytes 33 :=
  let fullLc := dmrBptcEncodeLc lc isTerm
  let slotType := if isTerm then dmrSlotTypeVterm else dmrSlotTypeVhead
  let fb : Bits 264 :=
    cat (m := 166) (cat (m := 156) (cat (m := 108) (cat (m := 98) (slice fullLc 0 98)
      (slice slotType 0 10)) dmrBsDataSync) (slice slotType 10 10)) (slice fullLc 98 98)
  bitsToBytes fb

theorem embed_size : 48 = 40 + 8 := rfl

/-- The 48-bit EMBED field: sync at position 0, an EMB header around a fragment of the embedded
LC at positions 1 to 4, around zeros at position 5. -/
def buildEmbed (call : CallState) (pos : Nat) : Bits 48 :=
  if pos = 0 then dmrBsVoiceSync
  else
    let header := dmrEmb.toList.getD (pos - 1) (Vector.replicate 16 false)
    let body : Bits 32 :=
      if pos ≤ 4 then bytesToBits (call.emb.toList.getD (pos - 1) (Vector.replicate 4 0))
      else Vector.replicate 32 false
    cat (m := 40) (cat (m := 8) (slice header 0 8) body) (slice header 8 8) embed_size

/-- The three AMBE frames of a 33-byte burst. -/
def extractAmbe (payload33 : Bytes 33) : Vector (Bits 49) 3 :=
  let burst : Bits 264 := bytesToBits payload33
  let a1 : Bits 72 := slice burst 0 72
  let a2 : Bits 72 := cat (m := 36) (slice burst 72 36) (slice burst 156 36)
  let a3 : Bits 72 := slice burst 192 72
  #v[dmrAmbe72To49 a1, dmrAmbe72To49 a2, dmrAmbe72To49 a3]

/-- The voice burst of `translator_cccc_voice`: three frames around the EMBED field. -/
def buildVoiceBurst (ambe49 : Vector (Bits 49) 3) (embed : Bits 48) : Bytes 33 :=
  let a1 := dmrAmbe49To72 (ambe49.get 0)
  let a2 := dmrAmbe49To72 (ambe49.get 1)
  let a3 := dmrAmbe49To72 (ambe49.get 2)
  let fb : Bits 264 :=
    cat (m := 192) (cat (m := 156) (cat (m := 108) (cat (m := 72) a1 (slice a2 0 36)) embed)
      (slice a2 36 36)) a3
  bitsToBytes fb

/-! ## DMRD frame send -/

/-- The body of a frame of the call, whose network id is seeded with the call's source peer. -/
def fillDmrd (lcfg : LinkConfig) (call : CallState) (seq flags : Byte) (payload33 : Bytes 33) :
    DmrdBody :=
  dmrdBody seq call.rfSrc (u32 lcfg.tgid) call.ccPeerId flags call.streamId payload33

def sendDmrd (env : Env) (linkIdx : Nat) (flags : Byte) (payload33 : Bytes 33) (tr : Translator) :
    Translator × List TrOut :=
  let lcfg := env.cfg.linkAt linkIdx
  match lcfg.openbridgeIdx with
  | none => (tr, [])
  | some peerIdx =>
    let body := fillDmrd lcfg (tr.link linkIdx).call (BitVec.ofNat 8 (tr.obpSeqCtr peerIdx)) flags
      payload33
    ({ tr with obpSeqCtr := Function.update tr.obpSeqCtr peerIdx (tr.obpSeqCtr peerIdx + 1) },
      [.obpSendDmrd linkIdx peerIdx body])

def vheadFlags : Byte := obpfFrametypeDatasync ||| obpfSltVhead
def vtermFlags : Byte := obpfFrametypeDatasync ||| obpfSltVterm

def sendObpVoiceHead (env : Env) (linkIdx : Nat) (tr : Translator) : Translator × List TrOut :=
  sendDmrd env linkIdx vheadFlags
    (buildHeadTermPayload (tr.link linkIdx).call.lc false) tr

def sendObpVoiceTerm (env : Env) (linkIdx : Nat) (tr : Translator) : Translator × List TrOut :=
  sendDmrd env linkIdx vtermFlags
    (buildHeadTermPayload (tr.link linkIdx).call.lc true) tr

/-! ## Call lifecycle -/

/-- `has_call && call.origin == origin`. -/
def LinkRuntime.inCall (lr : LinkRuntime) (origin : CallOrigin) : Bool :=
  lr.hasCall && lr.call.origin == origin

/-- `has_call = 0`. -/
def clearCall (linkIdx : Nat) (tr : Translator) : Translator :=
  tr.setLink linkIdx { tr.link linkIdx with hasCall := false }

def endObpOriginCall (linkIdx : Nat) (tr : Translator) : Translator × List TrOut :=
  let lr := tr.link linkIdx
  if lr.inCall .obp then
    let total := if lr.call.ccSentFirst then lr.call.ccSeq + 1 else 0
    (clearCall linkIdx tr, [.ccccSendBoff linkIdx 0 total 0])
  else (tr, [])

def endCcOriginCall (env : Env) (linkIdx : Nat) (tr : Translator) : Translator × List TrOut :=
  if (tr.link linkIdx).inCall .cc then
    let (tr, out) := sendObpVoiceTerm env linkIdx tr
    (clearCall linkIdx tr, out)
  else (tr, [])

/-! ## OpenBridge to CC-CC -/

/-- The record of a fresh obp-origin call; its LC stays zeroed. -/
def obpCall (now : Rat) (peerId rfSrc : BitVec 32) (stream : Bytes 4) : CallState :=
  { origin := .obp, rfSrc, peerId, streamId := stream, callStartTime := now, lastActivity := now }

/-- Start an obp-origin call and announce it. -/
def startObpOriginCall (env : Env) (linkIdx : Nat) (peerId rfSrc : BitVec 32) (stream : Bytes 4)
    (tr : Translator) : Translator × List TrOut :=
  let lcfg := env.cfg.linkAt linkIdx
  let call := obpCall env.now peerId rfSrc stream
  (tr.setLink linkIdx { tr.link linkIdx with call, hasCall := true },
    [.ccccSendBon linkIdx rfSrc peerId lcfg.ccLid lcfg.tgid ccccCallTypeGroup])

def handleObpVoiceHead (env : Env) (linkIdx : Nat) (peerId rfSrc : BitVec 32) (stream : Bytes 4)
    (tr : Translator) : Translator × List TrOut :=
  let lr := tr.link linkIdx
  if lr.inCall .obp then
    -- a duplicate of the running stream, else the running call is orphaned
    if stream = lr.call.streamId then (tr, [])
    else
      let (tr, ended) := endObpOriginCall linkIdx tr
      let (tr, started) := startObpOriginCall env linkIdx peerId rfSrc stream tr
      (tr, ended ++ started)
  else if lr.inCall .cc then (tr, [])
  else startObpOriginCall env linkIdx peerId rfSrc stream tr

/-- C conversion of a `double` to `int`: toward zero; out of range is the smallest `int`, as the
processor's conversion gives it. -/
def toInt32 (x : Rat) : Int :=
  let whole := if 0 ≤ x then ⌊x⌋ else ⌈x⌉
  if -2147483648 ≤ whole ∧ whole ≤ 2147483647 then whole else -2147483648

/-- The wall-clock slot of a burst. -/
def slotIndex (callStartTime now : Rat) : Int := toInt32 ((now - callStartTime) / ccccSlotMs + 1 / 2)

def handleObpVoiceBurst (env : Env) (linkIdx : Nat) (payload33 : Bytes 33) (stream : Bytes 4)
    (tr : Translator) : Translator × List TrOut :=
  let lr := tr.link linkIdx
  if lr.inCall .obp then
    if stream = lr.call.streamId then
      let payload21 := ccccAmbePack21 (extractAmbe payload33)
      let slot := slotIndex lr.call.callStartTime env.now
      let seq := BitVec.ofInt 16 slot
      let timestamp := ccccRtpTsStep * u32 slot
      let call := { lr.call with lastActivity := env.now, ccSentFirst := true, ccSeq := slot }
      (tr.setLink linkIdx { lr with call },
        [.ccccSendVoice linkIdx seq timestamp (!lr.call.ccSentFirst) payload21])
    else (tr, [])
  else (tr, [])

def handleObpVoiceTerm (linkIdx : Nat) (stream : Bytes 4) (tr : Translator) :
    Translator × List TrOut :=
  let lr := tr.link linkIdx
  if lr.inCall .obp then
    if stream = lr.call.streamId then endObpOriginCall linkIdx tr else (tr, [])
  else (tr, [])

/-- The first link configured for the peer and talkgroup. -/
def routeObp (cfg : Config) (peerIdx : Nat) (dstId : BitVec 32) : Option Nat :=
  cfg.link.findIdx? fun l => l.openbridgeIdx == some peerIdx && u32 l.tgid == dstId

/-- Unit calls and CSBK or data frames, dropped before routing. -/
def outOfScope (flags : Byte) : Bool :=
  flags &&& obpfCallUnit != 0 || flags &&& obpfVcsbkMask == obpfVcsbkMask

def isHead (flags : Byte) : Bool :=
  flags &&& obpfFrametypeMask == obpfFrametypeDatasync && flags &&& obpfDtypeMask == obpfSltVhead

def isTerm (flags : Byte) : Bool :=
  flags &&& obpfFrametypeMask == obpfFrametypeDatasync && flags &&& obpfDtypeMask == obpfSltVterm

/-- A frame of an enabled link, past routing. -/
def obpFrameOnLink (env : Env) (linkIdx : Nat) (body : DmrdBody) (tr : Translator) :
    Translator × List TrOut :=
  let tr := if isHead body.flags then newAttempt linkIdx tr else tr
  if !obpGateOpen env linkIdx then (logDrop linkIdx tr, [])
  else if isHead body.flags then
    handleObpVoiceHead env linkIdx body.netid body.src body.stream tr
  else if isTerm body.flags then handleObpVoiceTerm linkIdx body.stream tr
  else handleObpVoiceBurst env linkIdx body.payload body.stream tr

def translatorObpDmrdReceived (env : Env) (peerIdx : Nat) (body : DmrdBody) (tr : Translator) :
    Translator × List TrOut :=
  if outOfScope body.flags then (tr, [])
  else match routeObp env.cfg peerIdx body.dst with
    | none => (tr, [])
    | some linkIdx =>
      if !(env.cfg.linkAt linkIdx).enabled then (tr, []) else obpFrameOnLink env linkIdx body tr

/-! ## CC-CC to OpenBridge -/

/-- The LC of a cc-origin call: options, the link's talkgroup, the caller. -/
def buildLc (tgid : Int) (radioId : BitVec 32) : Bytes 9 :=
  ofList 9 (dmrLcOpt ++ wr24 (u32 tgid) ++ wr24 radioId)

/-- The record of a fresh cc-origin call. -/
def ccCall (now : Rat) (tgid : Int) (radioId peerId : BitVec 32) (rand : Bytes 4) : CallState :=
  let lc := buildLc tgid radioId
  { origin := .cc, rfSrc := radioId, ccPeerId := peerId, streamId := rand, callStartTime := now,
    lastActivity := now, obpSeqPos := 0, lc, emb := dmrEncodeEmblc lc }

/-- Start a cc-origin call and announce it. -/
def startCcOriginCall (env : Env) (linkIdx : Nat) (radioId peerId : BitVec 32) (rand : Bytes 4)
    (tr : Translator) : Translator × List TrOut :=
  let call := ccCall env.now (env.cfg.linkAt linkIdx).tgid radioId peerId rand
  sendObpVoiceHead env linkIdx (tr.setLink linkIdx { tr.link linkIdx with call, hasCall := true })

def translatorCcccBon (env : Env) (linkIdx : Nat) (radioId peerId : BitVec 32) (_srcLid _tgid : Int)
    (_callType : Byte) (rand : Bytes 4) (tr : Translator) : Translator × List TrOut :=
  if !(env.cfg.linkAt linkIdx).enabled then (tr, [])
  else
    let tr := newAttempt linkIdx tr
    let lr := tr.link linkIdx
    if !obpGateOpen env linkIdx then (logDrop linkIdx tr, [])
    else if lr.inCall .cc then (tr, [])
    else if lr.inCall .obp then (tr, [])
    else startCcOriginCall env linkIdx radioId peerId rand tr

/-- The flags byte of a voice burst at a superframe position. -/
def burstFlags (pos : Nat) : Byte :=
  if pos = 0 then obpfFrametypeVoicesync else obpfFrametypeVoice ||| BitVec.ofNat 8 pos

def translatorCcccVoice (env : Env) (linkIdx : Nat) (_seq : BitVec 16) (_timestamp : BitVec 32)
    (_marker : Bool) (ambe21 : Bytes 21) (tr : Translator) : Translator × List TrOut :=
  let lr := tr.link linkIdx
  if !lr.inCall .cc then (tr, [])
  else if !(env.cfg.linkAt linkIdx).crossConnectActive then (tr, [])
  else
    let tr := tr.setLink linkIdx { lr with call := { lr.call with lastActivity := env.now } }
    let pos := lr.call.obpSeqPos % 6
    let payload33 := buildVoiceBurst (ccccAmbeUnpack21 ambe21) (buildEmbed lr.call pos)
    let (tr, out) := sendDmrd env linkIdx (burstFlags pos) payload33 tr
    let lr := tr.link linkIdx
    (tr.setLink linkIdx { lr with call := { lr.call with obpSeqPos := lr.call.obpSeqPos + 1 } }, out)

def translatorCcccBoff (env : Env) (linkIdx : Nat) (_lost _total : Int) (tr : Translator) :
    Translator × List TrOut :=
  endCcOriginCall env linkIdx tr

def translatorCcccLinkUp (linkIdx : Nat) (tr : Translator) : Translator × List TrOut :=
  (newAttempt linkIdx tr, [])

def translatorCcccLinkDown (env : Env) (linkIdx : Nat) (tr : Translator) :
    Translator × List TrOut :=
  let (tr, out) :=
    if (tr.link linkIdx).inCall .cc then sendObpVoiceTerm env linkIdx tr else (tr, [])
  (tr.setLink linkIdx { tr.link linkIdx with hasCall := false, cxDropLogged := false }, out)

/-! ## Housekeeping -/

/-- One link's turn in `translator_tick`. -/
def tickLink (env : Env) (i : Nat) (tr : Translator) : Translator × List TrOut :=
  let lr := tr.link i
  if lr.hasCall && decide (env.now - lr.call.lastActivity > callIdleTimeoutS) then
    if lr.call.origin = .obp then endObpOriginCall i tr else endCcOriginCall env i tr
  else (tr, [])

def translatorTick (env : Env) (tr : Translator) : Translator × List TrOut :=
  (List.range env.cfg.nLink).foldl (fun acc i =>
    let (tr, out) := tickLink env i acc.1
    (tr, acc.2 ++ out)) (tr, [])

/-! ## Events -/

/-- The entry points of the translator with their arguments. -/
inductive TrEvent where
  | ccccBon (link : Nat) (radioId peerId : BitVec 32) (srcLid tgid : Int) (callType : Byte)
      (rand : Bytes 4)
  | ccccVoice (link : Nat) (seq : BitVec 16) (timestamp : BitVec 32) (marker : Bool)
      (ambe21 : Bytes 21)
  | ccccBoff (link : Nat) (lost total : Int)
  | ccccLinkUp (link : Nat)
  | ccccLinkDown (link : Nat)
  | obpDmrdReceived (peer : Nat) (body : DmrdBody)
  | tick

def translatorStep (env : Env) (ev : TrEvent) (tr : Translator) : Translator × List TrOut :=
  match ev with
  | .ccccBon link radioId peerId srcLid tgid callType rand =>
    translatorCcccBon env link radioId peerId srcLid tgid callType rand tr
  | .ccccVoice link seq timestamp marker ambe21 =>
    translatorCcccVoice env link seq timestamp marker ambe21 tr
  | .ccccBoff link lost total => translatorCcccBoff env link lost total tr
  | .ccccLinkUp link => translatorCcccLinkUp link tr
  | .ccccLinkDown link => translatorCcccLinkDown env link tr
  | .obpDmrdReceived peer body => translatorObpDmrdReceived env peer body tr
  | .tick => translatorTick env tr

end Cc2obp
