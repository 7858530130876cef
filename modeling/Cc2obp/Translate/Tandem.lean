import Cc2obp.Openbridge.ObpLink
import Cc2obp.Translate.Identity
import Cc2obp.Translate.Routing

/-!
# A call from one translator to another

The frames one translator hands over for a cc-origin call, and what another
that gets them makes of each: the first opens a call toward CC-CC, every burst
is a voice packet of the same audio, the last closes the call.
-/
namespace Cc2obp

/-! ## The sending end -/

/-- A cc-origin call, whatever its age. -/
def InCcCall (call : CallState) (lr : LinkRuntime) : Prop :=
  lr.inCall .cc = true ∧ ∃ now pos, lr.call = { call with lastActivity := now, obpSeqPos := pos }

/-- A frame of a call. -/
def IsFrame (lcfg : LinkConfig) (call : CallState) (flags : Byte) (payload33 : Bytes 33) (body : DmrdBody) : Prop :=
  ∃ seq, body = fillDmrd lcfg call seq flags payload33

/-- A burst of a call with the audio of a voice packet, at some position. -/
def CarriesVoice (lcfg : LinkConfig) (call : CallState) (ambe21 : Bytes 21) (body : DmrdBody) : Prop :=
  ∃ pos, IsFrame lcfg call (burstFlags (pos % 6)) (buildVoiceBurst (ccccAmbeUnpack21 ambe21) (buildEmbed call (pos % 6))) body

section Sending
variable {env : Env} {i peer : Nat} {tr : Translator} {call : CallState}

theorem InCcCall.voice (within : InCcCall call (tr.link i)) (resolved : (env.cfg.linkAt i).openbridgeIdx = some peer)
    (crossConnect : (env.cfg.linkAt i).crossConnectActive = true) (seq : BitVec 16) (timestamp : BitVec 32) (marker : Bool)
    (ambe21 : Bytes 21) :
    let next := translatorStep env (.ccccVoice i seq timestamp marker ambe21) tr
    InCcCall call (next.1.link i) ∧
      ∃ body, next.2 = [.obpSendDmrd i peer body] ∧ CarriesVoice (env.cfg.linkAt i) call ambe21 body := by
  obtain ⟨active, now, pos, record⟩ := within
  have spoken : translatorStep env (.ccccVoice i seq timestamp marker ambe21) tr =
      ({ obpSeqCtr := Function.update tr.obpSeqCtr peer (tr.obpSeqCtr peer + 1)
         link := Function.update tr.link i { tr.link i with call := (tr.link i).call.ccBurst env.now } },
        [.obpSendDmrd i peer (fillDmrd (env.cfg.linkAt i) (tr.link i).call (BitVec.ofNat 8 (tr.obpSeqCtr peer))
          (burstFlags ((tr.link i).call.obpSeqPos % 6)) ((tr.link i).call.ccPayload ambe21))]) := by
    simp [translatorStep, translatorCcccVoice, active, crossConnect, sendDmrd_some env i _ _ resolved,
      Translator.setLink, CallState.ccBurst, CallState.ccPayload, fillDmrd]
  rw [spoken]
  constructor
  · simp only [Function.update_self]
    exact ⟨active, env.now, pos + 1, by simp [CallState.ccBurst, record]⟩
  · refine ⟨_, rfl, pos, BitVec.ofNat 8 (tr.obpSeqCtr peer), ?_⟩
    rw [CallState.ccPayload, record]
    rfl

theorem InCcCall.boff (within : InCcCall call (tr.link i)) (resolved : (env.cfg.linkAt i).openbridgeIdx = some peer)
    (lost total : Int) :
    let next := translatorStep env (.ccccBoff i lost total) tr
    (next.1.link i).hasCall = false ∧ ∃ body, next.2 = [.obpSendDmrd i peer body] ∧
      IsFrame (env.cfg.linkAt i) call vtermFlags (buildHeadTermPayload call.lc true) body := by
  obtain ⟨active, now, pos, record⟩ := within
  have ended : translatorStep env (.ccccBoff i lost total) tr =
      (clearCall i { tr with obpSeqCtr := Function.update tr.obpSeqCtr peer (tr.obpSeqCtr peer + 1) },
        [.obpSendDmrd i peer (fillDmrd (env.cfg.linkAt i) (tr.link i).call (BitVec.ofNat 8 (tr.obpSeqCtr peer))
          vtermFlags (buildHeadTermPayload (tr.link i).call.lc true))]) := by
    simp [translatorStep, translatorCcccBoff, endCcOriginCall, active, sendObpVoiceTerm, sendDmrd_some env i _ _ resolved]
  rw [ended, record]
  exact ⟨by simp [clearCall], _, rfl, BitVec.ofNat 8 (tr.obpSeqCtr peer), rfl⟩

/-- The frames of a call from its head to its terminator, one burst for each voice packet. -/
inductive CallFrames (lcfg : LinkConfig) (call : CallState) (payloads : List (Bytes 21)) : List DmrdBody → Prop
  | intro (head term : DmrdBody) (bursts : List DmrdBody)
      (first : IsFrame lcfg call vheadFlags (buildHeadTermPayload call.lc false) head)
      (spoken : List.Forall₂ (CarriesVoice lcfg call) payloads bursts)
      (last : IsFrame lcfg call vtermFlags (buildHeadTermPayload call.lc true) term) :
      CallFrames lcfg call payloads (head :: bursts ++ [term])

/-- Events of a translator that are the voice packets of a call on a link. -/
def SpeakEvents (cfg : Config) (i : Nat) : List (Bytes 21) → List (Env × TrEvent) → Prop :=
  List.Forall₂ fun ambe21 e => e.1.cfg = cfg ∧ ∃ seq timestamp marker, e.2 = .ccccVoice i seq timestamp marker ambe21

theorem InCcCall.speak (within : InCcCall call (tr.link i)) {cfg : Config} (resolved : (cfg.linkAt i).openbridgeIdx = some peer)
    (crossConnect : (cfg.linkAt i).crossConnectActive = true) {payloads : List (Bytes 21)} {events : List (Env × TrEvent)}
    (spoken : SpeakEvents cfg i payloads events) :
    let after := Machine.run envStep tr events
    InCcCall call (after.1.link i) ∧ ∃ bursts, after.2 = bursts.map (TrOut.obpSendDmrd i peer) ∧
      List.Forall₂ (CarriesVoice (cfg.linkAt i) call) payloads bursts := by
  induction spoken generalizing tr with
  | nil => exact ⟨within, [], rfl, .nil⟩
  | @cons ambe21 e payloads events here _ ih =>
    obtain ⟨env, ev⟩ := e
    obtain ⟨rfl, seq, timestamp, marker, rfl⟩ := here
    obtain ⟨still, body, sent, carries⟩ := within.voice resolved crossConnect seq timestamp marker ambe21
    obtain ⟨finally_, bursts, rest, carried⟩ := ih still
    refine ⟨finally_, body :: bursts, ?_, .cons carries carried⟩
    rw [Machine.run_cons, envStep, sent, rest]
    rfl

/-- A B-on that starts a call, its voice packets and its B-off are the frames of that call. -/
theorem StartsCall.frames (starts : StartsCall env i tr) (resolved : (env.cfg.linkAt i).openbridgeIdx = some peer)
    (radioId peerId : BitVec 32) (srcLid tgid : Int) (callType : Byte) (rand : Bytes 4) {payloads : List (Bytes 21)}
    {events : List (Env × TrEvent)} (spoken : SpeakEvents env.cfg i payloads events) {env' : Env}
    (same : env'.cfg = env.cfg) (lost total : Int) :
    ∃ frames, CallFrames (env.cfg.linkAt i) (ccCall env.now (env.cfg.linkAt i).tgid radioId peerId rand) payloads frames ∧
      (Machine.run envStep tr ((env, .ccccBon i radioId peerId srcLid tgid callType rand) :: events ++
        [(env', .ccccBoff i lost total)])).2 = frames.map (TrOut.obpSendDmrd i peer) := by
  have crossConnect : (env.cfg.linkAt i).crossConnectActive = true := by
    have gate := starts.gate
    simp only [obpGateOpen, Bool.and_eq_true] at gate
    exact gate.1
  obtain ⟨record, head⟩ := starts.sends resolved radioId peerId srcLid tgid callType rand
  have within : InCcCall (ccCall env.now (env.cfg.linkAt i).tgid radioId peerId rand)
      ((translatorStep env (.ccccBon i radioId peerId srcLid tgid callType rand) tr).1.link i) := by
    rw [record]
    exact ⟨rfl, env.now, 0, rfl⟩
  obtain ⟨still, bursts, voiced, carried⟩ := within.speak resolved crossConnect spoken
  rw [← same] at resolved
  obtain ⟨-, term, closing, ends⟩ := still.boff resolved lost total
  rw [same] at ends
  refine ⟨_, .intro _ term bursts ⟨BitVec.ofNat 8 (tr.obpSeqCtr peer), rfl⟩ carried ends, ?_⟩
  rw [List.cons_append, Machine.run_cons, Machine.run_append, Machine.run_cons, Machine.run_nil]
  simp only [envStep, head, voiced, closing]
  simp

end Sending

/-! ## The receiving end -/

/-- What the receiving end reads of a frame. -/
structure FrameSays (body : DmrdBody) (flags : Byte) (src dst netid : BitVec 32) (stream : Bytes 4)
    (payload33 : Bytes 33) : Prop where
  magic : body.toList.take 4 = dmrdMagic
  flags : body.flags = flags
  src : body.src = src
  dst : body.dst = dst
  netid : body.netid = netid
  stream : body.stream = stream
  payload : body.payload = payload33

/-- A frame of a call as the peer is sent it. -/
theorem IsFrame.outgoing {lcfg : LinkConfig} {call : CallState} {flags : Byte} {payload33 : Bytes 33} {body : DmrdBody}
    (frame : IsFrame lcfg call flags payload33 body) (o : ObpPeerConfig) (caller : call.rfSrc.toNat < 2 ^ 24)
    (talkgroup : (u32 lcfg.tgid).toNat < 2 ^ 24) :
    FrameSays (outgoingBody o body) flags call.rfSrc (u32 lcfg.tgid)
      (if o.preserveSourcePeer then call.ccPeerId else o.networkId) call.streamId payload33 := by
  obtain ⟨seq, rfl⟩ := frame
  constructor
  case magic => rw [magic_outgoingBody, fillDmrd, magic_dmrdBody]
  case flags => rw [flags_outgoingBody, fillDmrd, flags_dmrdBody]
  case src => rw [src_outgoingBody, fillDmrd, src_dmrdBody, (and_low24_eq_iff _).mpr caller]
  case dst => rw [dst_outgoingBody, fillDmrd, dst_dmrdBody, (and_low24_eq_iff _).mpr talkgroup]
  case netid => rw [netid_outgoingBody, fillDmrd, netid_dmrdBody]
  case stream => rw [stream_outgoingBody, fillDmrd, stream_dmrdBody]
  case payload => rw [payload_outgoingBody, fillDmrd, payload_dmrdBody]

/-- A voice payload without the padding behind each of its three frames, in bytes 6, 13 and 20. -/
def clearPadding (ambe21 : Bytes 21) : Bytes 21 :=
  Vector.ofFn fun k => if k.val % 7 = 6 then ambe21.get k &&& 0x80#8 else ambe21.get k

/-- What is taken from a burst is what was put into it. -/
theorem extractAmbe_buildVoiceBurst (ambe49 : Vector (Bits 49) 3) (embed : Bits 48) :
    extractAmbe (buildVoiceBurst ambe49 embed) = ambe49 := by
  refine Vector.ext fun k h => ?_
  rw [getElem_extractAmbe _ k h, airFrame_buildVoiceBurst _ _ k h, ambe72To49_49To72]

/-- A voice packet loses its padding on the way through a burst, and nothing else. -/
theorem pack21_of_burst (ambe21 : Bytes 21) (embed : Bits 48) :
    ccccAmbePack21 (extractAmbe (buildVoiceBurst (ccccAmbeUnpack21 ambe21) embed)) = clearPadding ambe21 := by
  rw [extractAmbe_buildVoiceBurst, pack21_unpack21]
  rfl

/-- A call toward CC-CC of a stream. -/
def InObpCall (stream : Bytes 4) (first : Bool) (lr : LinkRuntime) : Prop :=
  lr.inCall .obp = true ∧ lr.call.streamId = stream ∧ lr.call.ccSentFirst = !first

section Receiving
variable {env : Env} {j peer : Nat} {tr : Translator} {body : DmrdBody} {stream : Bytes 4}

/-- A head that finds the link idle opens a call. -/
theorem head_opens (admitted : Admitted env j peer body) (head : isHead body.flags = true)
    (idle : (tr.link j).hasCall = false) :
    let next := translatorStep env (.obpDmrdReceived peer body) tr
    InObpCall body.stream true (next.1.link j) ∧ next.2 = [bonOf (env.cfg.linkAt j) j body] := by
  have quiet : ∀ origin, ((newAttempt j tr).link j).inCall origin = false := by
    intro origin
    simp [newAttempt, LinkRuntime.inCall, idle]
  simp only [admitted.head head, handleObpVoiceHead, quiet, Bool.false_eq_true, if_false, startObpOriginCall, setLink_self]
  exact ⟨⟨rfl, rfl, rfl⟩, rfl⟩

/-- A burst of the call is a voice packet, the first one marked. -/
theorem burst_speaks {first : Bool} (admitted : Admitted env j peer body) (notHead : isHead body.flags = false)
    (notTerm : isTerm body.flags = false) (within : InObpCall stream first (tr.link j)) (own : body.stream = stream) :
    let next := translatorStep env (.obpDmrdReceived peer body) tr
    InObpCall stream false (next.1.link j) ∧ ∃ seq timestamp,
      next.2 = [.ccccSendVoice j seq timestamp first (ccccAmbePack21 (extractAmbe body.payload))] := by
  obtain ⟨active, running, sent⟩ := within
  simp only [admitted.burst notHead notTerm, handleObpVoiceBurst, active, running, own, if_true, setLink_self, sent,
    Bool.not_not]
  exact ⟨⟨active, rfl, rfl⟩, _, _, rfl⟩

/-- The terminator of the call closes it. -/
theorem term_closes {first : Bool} (admitted : Admitted env j peer body) (notHead : isHead body.flags = false)
    (term : isTerm body.flags = true) (within : InObpCall stream first (tr.link j)) (own : body.stream = stream) :
    let next := translatorStep env (.obpDmrdReceived peer body) tr
    (next.1.link j).hasCall = false ∧ ∃ total, next.2 = [.ccccSendBoff j 0 total 0] := by
  obtain ⟨active, running, -⟩ := within
  simp only [admitted.term notHead term, handleObpVoiceTerm, active, running, own, if_true, endObpOriginCall_active active,
    clearCall, setLink_self]
  exact ⟨trivial, _, rfl⟩

end Receiving

/-! ## Flags on the way -/

theorem headFlags_read : outOfScope vheadFlags = false ∧ isHead vheadFlags = true ∧ vheadFlags &&& obpfSlot2 = 0 := by
  decide

theorem burstFlags_read (pos : Nat) : outOfScope (burstFlags (pos % 6)) = false ∧ isHead (burstFlags (pos % 6)) = false ∧
    isTerm (burstFlags (pos % 6)) = false ∧ burstFlags (pos % 6) &&& obpfSlot2 = 0 := by
  have each : ∀ p : Fin 6, outOfScope (burstFlags p.val) = false ∧ isHead (burstFlags p.val) = false ∧
      isTerm (burstFlags p.val) = false ∧ burstFlags p.val &&& obpfSlot2 = 0 := by decide
  exact each ⟨pos % 6, Nat.mod_lt pos (by omega)⟩

theorem termFlags_read : outOfScope vtermFlags = false ∧ isHead vtermFlags = false ∧ isTerm vtermFlags = true ∧
    vtermFlags &&& obpfSlot2 = 0 := by
  decide

end Cc2obp
