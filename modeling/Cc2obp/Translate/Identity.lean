import Cc2obp.Dmr.EmbeddedLc
import Cc2obp.Dmr.FullLc
import Cc2obp.Translate.Calls
import Cc2obp.Translate.Regeneration

/-!
# Who a call names

A cc-origin call names its caller and talkgroup in the header of every frame, in the
full LC of its VOICE_HEAD and VOICE_TERM and, spread over the bursts at positions
1 to 4, in the embedded LC. All of them are written from the record of the call,
which its bursts leave alone.
-/
namespace Cc2obp

def lcByte (lc : Bytes 9) (k : Nat) : Byte := lc.toList.getD k 0

/-- The LC of a group call: no options, the talkgroup and the caller modulo `2 ^ 24`. -/
structure LcNames (lc : Bytes 9) (tgid : Int) (radioId : BitVec 32) : Prop where
  options : lcByte lc 0 = 0 ∧ lcByte lc 1 = 0 ∧ lcByte lc 2 = 0
  dst : ((rd24 (lcByte lc 3) (lcByte lc 4) (lcByte lc 5)).toNat : Int) = tgid % 2 ^ 24
  src : (rd24 (lcByte lc 6) (lcByte lc 7) (lcByte lc 8)).toNat = radioId.toNat % 2 ^ 24

/-- The header of a frame names the talkgroup and the caller modulo `2 ^ 24`. -/
structure HeaderNames (body : DmrdBody) (tgid : Int) (radioId : BitVec 32) : Prop where
  dst : (body.dst.toNat : Int) = tgid % 2 ^ 24
  src : body.src.toNat = radioId.toNat % 2 ^ 24

/-- Payload bits 0 to 97 and 166 to 263. -/
def fullLcBits (payload33 : Bytes 33) : Bits 196 :=
  cat (slice (bytesToBits payload33 burst_size) 0 98) (slice (bytesToBits payload33 burst_size) 166 98)

/-- Payload bits 116 to 147. -/
def embFragment (payload33 : Bytes 33) : Bits 32 := slice (bytesToBits payload33 burst_size) 116 32

/-- A call as a receiver gets it: its head, its bursts so far, and its terminator once it is over. -/
structure CallNames (tgid : Int) (radioId : BitVec 32) (head : DmrdBody) (bursts : List DmrdBody)
    (term : Option DmrdBody) : Prop where
  headFlags : head.flags = 0x21
  burstFlags : ∀ k b, bursts[k]? = some b → b.flags = if k % 6 = 0 then 0x10 else BitVec.ofNat 8 (k % 6)
  termFlags : ∀ b ∈ term, b.flags = 0x22
  header : ∀ b ∈ head :: bursts ++ term.toList, HeaderNames b tgid radioId
  fullLc : ∀ b ∈ head :: term.toList, LcNames (dmrBptcDecodeFullLc (fullLcBits b.payload)) tgid radioId
  /-- From the fifth burst on there is one at each of the positions 1 to 4. -/
  lateEntry : 5 ≤ bursts.length → ∃ four : Vector DmrdBody 4, ∀ p : Fin 4,
    four.get p ∈ bursts ∧ (four.get p).flags = BitVec.ofNat 8 (p.val + 1)
  /-- Whichever four bursts a receiver takes. -/
  embeddedLc : ∀ four : Vector DmrdBody 4,
    (∀ p : Fin 4, four.get p ∈ bursts ∧ (four.get p).flags = BitVec.ofNat 8 (p.val + 1)) →
    ∃ lc, LcNames lc tgid radioId ∧ EmbCarries (embMatrix (four.map fun b => embFragment b.payload)) lc

/-! ## The LC of a call -/

theorem toNat_low24 (v : BitVec 32) : (v &&& 0xFFFFFF#32).toNat = v.toNat % 2 ^ 24 := by
  rw [BitVec.toNat_and]
  exact Nat.and_two_pow_sub_one_eq_mod v.toNat 24

/-- The talkgroup on the wire, whatever the sign of the configured one. -/
theorem toNat_tgid24 (tgid : Int) : ((u32 tgid &&& 0xFFFFFF#32).toNat : Int) = tgid % 2 ^ 24 := by
  rw [toNat_low24, u32, BitVec.toNat_ofInt]
  omega

theorem lcNames_buildLc (tgid : Int) (radioId : BitVec 32) : LcNames (buildLc tgid radioId) tgid radioId := by
  constructor
  case options => simp [lcByte, buildLc, dmrLcOpt]
  case dst =>
    rw [← toNat_tgid24, ← rd24_wr24]
    simp [lcByte, buildLc, dmrLcOpt, wr24]
  case src =>
    rw [← toNat_low24, ← rd24_wr24]
    simp [lcByte, buildLc, dmrLcOpt, wr24]

theorem headerNames_fillDmrd {body : DmrdBody} {lcfg : LinkConfig} {call : CallState} {flags : Byte}
    {payload33 : Bytes 33} (frame : body.eraseSeq = fillDmrd lcfg call 0 flags payload33) :
    HeaderNames body lcfg.tgid call.rfSrc := by
  have dst := congrArg DmrdBody.dst frame
  have src := congrArg DmrdBody.src frame
  simp only [dst_eraseSeq, src_eraseSeq, fillDmrd, dst_dmrdBody, src_dmrdBody] at dst src
  constructor
  · rw [dst, toNat_tgid24]
  · rw [src, toNat_low24]

/-! ## Where a burst carries its LC -/

theorem fullLcBits_buildHeadTermPayload (lc : Bytes 9) (isTerm : Bool) :
    fullLcBits (buildHeadTermPayload lc isTerm) = dmrBptcEncodeLc lc isTerm := by
  refine Vector.ext fun k h => ?_
  rw [fullLcBits, getElem_cat]
  -- the slot type and the sync word stand between the two halves
  split
  next first =>
    rw [getElem_slice, buildHeadTermPayload, bytesToBits_bitsToBytes _ _ _ _ (by omega)]
    simp only [getElem_cat, getElem_slice, Nat.zero_add, dif_pos first, show k < 108 by omega, show k < 156 by omega,
      show k < 166 by omega, dif_pos]
  next second =>
    rw [getElem_slice, buildHeadTermPayload, bytesToBits_bitsToBytes _ _ _ _ (by omega), getElem_cat,
      dif_neg (by omega), getElem_slice]
    simp only [show 98 + (166 + (k - 98) - 166) = k by omega]

theorem embFragment_buildVoiceBurst (ambe49 : Vector (Bits 49) 3) (embed : Bits 48) :
    embFragment (buildVoiceBurst ambe49 embed) = slice embed 8 32 := by
  refine Vector.ext fun k h => ?_
  rw [embFragment, getElem_slice, buildVoiceBurst, bytesToBits_bitsToBytes _ _ _ _ (by omega)]
  simp only [getElem_cat, getElem_slice, show 116 + k < 192 by omega, show 116 + k < 156 by omega,
    show ¬116 + k < 108 by omega, dif_pos, dif_neg, not_false_eq_true, show 116 + k - 108 = 8 + k by omega]

/-- Positions 1 to 4 carry the fragments in order, each between the two halves of its EMB header. -/
theorem slice_buildEmbed (call : CallState) (p : Fin 4) :
    slice (buildEmbed call (p.val + 1)) 8 32 = bytesToBits (call.emb.get p) fragment_size := by
  have fragment : call.emb.toList.getD p.val (Vector.replicate 4 0) = call.emb.get p := by
    rw [List.getD_eq_getElem?_getD, List.getElem?_eq_getElem (by simp)]
    exact Vector.getElem_toList _
  refine Vector.ext fun k h => ?_
  rw [getElem_slice, buildEmbed, if_neg (by omega)]
  simp only [Nat.add_sub_cancel, show p.val + 1 ≤ 4 by omega, if_true, fragment]
  rw [getElem_cat, dif_pos (by omega), getElem_cat, dif_neg (by omega)]
  simp only [Nat.add_sub_cancel_left]

/-! ## The frames of a call -/

/-- The `k`-th burst of a call. -/
def IsBurst (lcfg : LinkConfig) (call : CallState) (k : Nat) (body : DmrdBody) : Prop :=
  ∃ ambe21 : Bytes 21, body.eraseSeq = fillDmrd lcfg call 0 (burstFlags (k % 6))
    (buildVoiceBurst (ccccAmbeUnpack21 ambe21) (buildEmbed call (k % 6)))

def IsTermOf (lcfg : LinkConfig) (call : CallState) (body : DmrdBody) : Prop :=
  body.eraseSeq = fillDmrd lcfg call 0 vtermFlags (buildHeadTermPayload call.lc true)

/-- The frames since the head of a call: its bursts while it is on record, with its terminator behind them
afterwards. -/
inductive CallStands (lcfg : LinkConfig) (call : CallState) (lr : LinkRuntime) (frames : List DmrdBody) : Prop
  | running (active : lr.inCall .cc = true)
      (record : ∃ now, lr.call = { call with lastActivity := now, obpSeqPos := frames.length })
      (bursts : ∀ k b, frames[k]? = some b → IsBurst lcfg call k b)
  | finished (bursts : List DmrdBody) (term : DmrdBody) (later : List DmrdBody)
      (split : frames = bursts ++ term :: later) (each : ∀ k b, bursts[k]? = some b → IsBurst lcfg call k b)
      (last : IsTermOf lcfg call term)

theorem fillDmrd_of_fixed {lcfg lcfg' : LinkConfig} (fixed : lcfg'.fixed = lcfg.fixed) (call : CallState)
    (seq flags : Byte) (payload33 : Bytes 33) :
    fillDmrd lcfg' call seq flags payload33 = fillDmrd lcfg call seq flags payload33 := by
  rw [fillDmrd, fillDmrd, LinkConfig.tgid_of_fixed fixed]

theorem LinkStep.callStands {env : Env} {i : Nat} {ev : TrEvent} {lcfg : LinkConfig} {call : CallState}
    {lr lr' : LinkRuntime} {out : List TrOut} {frames new : List DmrdBody} (step : LinkStep env i ev lr out lr')
    (fixed : (env.cfg.linkAt i).fixed = lcfg.fixed) (before : CallStands lcfg call lr frames)
    (frame : new.map DmrdBody.eraseSeq = framesFor i out) : CallStands lcfg call lr' (frames ++ new) := by
  cases before with
  | finished bursts term later split each last =>
    exact .finished bursts term (later ++ new) (by simp [split]) each last
  | running active record bursts =>
    have notObp : lr.inCall .obp = false := by
      simp only [LinkRuntime.inCall, Bool.and_eq_true, beq_iff_eq] at active
      simp [LinkRuntime.inCall, active.2]
    obtain ⟨now, record⟩ := record
    cases step with
    | quiet =>
      rw [new_silent frame rfl, List.append_nil]
      exact .running active ⟨now, record⟩ bursts
    | ccBurst dropped seq timestamp marker ambe21 resolved crossConnect again =>
      obtain ⟨b, rfl, erased⟩ := new_single frame
      refine .running again ⟨env.now, ?_⟩ ?_
      · simp [CallState.ccBurst, record]
      · intro k body found
        by_cases old : k < frames.length
        · exact bursts k body (by simpa [List.getElem?_append_left old] using found)
        · have bound := (List.getElem?_eq_some_iff.mp found).1
          have last : k = frames.length := by
            simp at bound
            omega
          subst last
          have same : b = body := by simpa using found
          subst same
          refine ⟨ambe21, ?_⟩
          rw [erased, fillDmrd_of_fixed fixed, CallState.ccPayload, record]
          rfl
    | ccEnd dropped resolved again ending =>
      obtain ⟨b, rfl, erased⟩ := new_single frame
      refine .finished frames b [] rfl bursts ?_
      rw [IsTermOf, erased, fillDmrd_of_fixed fixed, record]
      rfl
    | ccStart _ _ _ _ _ _ _ _ _ idleCc => exact absurd active (by simp [idleCc])
    | obpStart _ _ _ _ _ idleCc => exact absurd active (by simp [idleCc])
    | obpOrphan _ _ _ _ _ activeObp => exact absurd activeObp (by simp [notObp])
    | obpBurst _ _ _ _ _ _ activeObp => exact absurd activeObp (by simp [notObp])
    | obpEnd _ activeObp => exact absurd activeObp (by simp [notObp])
    | cleared _ idleCc => exact absurd active (by simp [idleCc])

/-! ## From the B-on -/

/-- The B-on finds its link enabled, the gate open and no call on record. -/
structure StartsCall (env : Env) (i : Nat) (tr : Translator) : Prop where
  enabled : (env.cfg.linkAt i).enabled = true
  gate : obpGateOpen env i = true
  idleCc : (tr.link i).inCall .cc = false
  idleObp : (tr.link i).inCall .obp = false

/-- The head of a call. -/
def IsHeadOf (lcfg : LinkConfig) (call : CallState) (body : DmrdBody) : Prop :=
  body.eraseSeq = fillDmrd lcfg call 0 vheadFlags (buildHeadTermPayload call.lc false)

/-- A B-on that starts a call puts its record in place and sends its head. -/
theorem StartsCall.sends {env : Env} {i peer : Nat} {tr : Translator} (starts : StartsCall env i tr)
    (resolved : (env.cfg.linkAt i).openbridgeIdx = some peer) (radioId peerId : BitVec 32) (srcLid tgid : Int)
    (callType : Byte) (rand : Bytes 4) :
    let next := translatorStep env (.ccccBon i radioId peerId srcLid tgid callType rand) tr
    let call := ccCall env.now (env.cfg.linkAt i).tgid radioId peerId rand
    next.1.link i = ⟨true, call, false⟩ ∧
      next.2 = [.obpSendDmrd i peer (fillDmrd (env.cfg.linkAt i) call (BitVec.ofNat 8 (tr.obpSeqCtr peer)) vheadFlags
        (buildHeadTermPayload call.lc false))] := by
  obtain ⟨enabled, gate, idleCc, idleObp⟩ := starts
  have idleCc' : ((newAttempt i tr).link i).inCall .cc = false := by
    simpa [newAttempt, LinkRuntime.inCall] using idleCc
  have idleObp' : ((newAttempt i tr).link i).inCall .obp = false := by
    simpa [newAttempt, LinkRuntime.inCall] using idleObp
  have started : translatorStep env (.ccccBon i radioId peerId srcLid tgid callType rand) tr =
      startCcOriginCall env i radioId peerId rand (newAttempt i tr) := by
    simp [translatorStep, translatorCcccBon, enabled, gate, idleCc', idleObp']
  rw [started, startCcOriginCall, sendObpVoiceHead, sendDmrd_some env i _ _ resolved]
  simp only [setLink_self]
  exact ⟨by simp [newAttempt], rfl⟩

theorem StartsCall.head {env : Env} {i : Nat} {tr : Translator} (starts : StartsCall env i tr)
    (radioId peerId : BitVec 32) (srcLid tgid : Int) (callType : Byte) (rand : Bytes 4) :
    let next := translatorStep env (.ccccBon i radioId peerId srcLid tgid callType rand) tr
    let call := ccCall env.now (env.cfg.linkAt i).tgid radioId peerId rand
    (next.1.link i).call = call ∧ (next.1.link i).inCall .cc = true ∧
      ∃ head, framesFor i next.2 = [head] ∧ IsHeadOf (env.cfg.linkAt i) call head := by
  obtain ⟨peer, resolved⟩ := gate_resolved env i starts.gate
  obtain ⟨record, sent⟩ := starts.sends resolved radioId peerId srcLid tgid callType rand
  simp only [record, sent]
  refine ⟨trivial, rfl, _, List.filterMap_cons_some (if_pos rfl), ?_⟩
  simp [IsHeadOf, fillDmrd]

section Names
variable {lcfg : LinkConfig} {now : Rat} {radioId peerId : BitVec 32} {rand : Bytes 4}

/-- Head and terminator carry the LC of the call. -/
theorem fullLc_names {body : DmrdBody} {flags : Byte} {isTerm : Bool}
    (frame : body.eraseSeq = fillDmrd lcfg (ccCall now lcfg.tgid radioId peerId rand) 0 flags
      (buildHeadTermPayload (buildLc lcfg.tgid radioId) isTerm)) :
    LcNames (dmrBptcDecodeFullLc (fullLcBits body.payload)) lcfg.tgid radioId := by
  have payload := congrArg DmrdBody.payload frame
  simp only [payload_eraseSeq, fillDmrd, payload_dmrdBody] at payload
  rw [payload, fullLcBits_buildHeadTermPayload, dmrBptcDecodeFullLc_encodeLc]
  exact lcNames_buildLc lcfg.tgid radioId

theorem flags_of_frame {body : DmrdBody} {call : CallState} {flags : Byte} {payload33 : Bytes 33}
    (frame : body.eraseSeq = fillDmrd lcfg call 0 flags payload33) : body.flags = flags := by
  rw [← flags_eraseSeq, frame, fillDmrd, flags_dmrdBody]

/-- A burst at one of the positions 1 to 4 carries the fragment of its position. -/
theorem IsBurst.fragment {call : CallState} {k : Nat} {body : DmrdBody} (burst : IsBurst lcfg call k body) (p : Fin 4)
    (position : body.flags = BitVec.ofNat 8 (p.val + 1)) :
    embFragment body.payload = bytesToBits (call.emb.get p) fragment_size := by
  obtain ⟨ambe21, frame⟩ := burst
  have flags := flags_of_frame frame
  rw [position, burstFlags_eq] at flags
  -- the flags byte gives the position away
  have at_ : k % 6 = p.val + 1 := by
    split at flags
    next =>
      have notSync : ∀ p : Fin 4, BitVec.ofNat 8 (p.val + 1) ≠ 0x10#8 := by decide
      exact absurd flags (notSync p)
    next =>
      have values := congrArg BitVec.toNat flags
      simp only [BitVec.toNat_ofNat] at values
      omega
  have payload := congrArg DmrdBody.payload frame
  simp only [payload_eraseSeq, fillDmrd, payload_dmrdBody] at payload
  rw [payload, embFragment_buildVoiceBurst, at_, slice_buildEmbed]

/-- The LC of a cc-origin call has no bit set where the fragments repeat one. -/
theorem embCarries_buildLc (tgid : Int) (radioId : BitVec 32) :
    EmbCarries (embMatrix (emblcFragments (buildLc tgid radioId))) (buildLc tgid radioId) := by
  refine (embCarries_emblcFragments _).mpr ?_
  simp [buildLc, dmrLcOpt]

/-- The frames of a call name it. -/
theorem callNames_of_frames {head : DmrdBody} {bursts : List DmrdBody} {term : Option DmrdBody}
    (first : IsHeadOf lcfg (ccCall now lcfg.tgid radioId peerId rand) head)
    (each : ∀ k b, bursts[k]? = some b → IsBurst lcfg (ccCall now lcfg.tgid radioId peerId rand) k b)
    (last : ∀ b ∈ term, IsTermOf lcfg (ccCall now lcfg.tgid radioId peerId rand) b) :
    CallNames lcfg.tgid radioId head bursts term := by
  have burstFlags : ∀ k b, bursts[k]? = some b → b.flags = if k % 6 = 0 then 0x10 else BitVec.ofNat 8 (k % 6) := by
    intro k b found
    obtain ⟨ambe21, frame⟩ := each k b found
    rw [flags_of_frame frame, burstFlags_eq]
  constructor
  case headFlags => exact flags_of_frame first
  case burstFlags => exact burstFlags
  case termFlags => exact fun b member => flags_of_frame (last b member)
  case header =>
    intro b member
    simp only [List.mem_append, List.mem_cons, Option.mem_toList] at member
    obtain (rfl | burst) | ended := member
    · exact headerNames_fillDmrd first
    · obtain ⟨k, found⟩ := List.mem_iff_getElem?.mp burst
      obtain ⟨ambe21, frame⟩ := each k b found
      exact headerNames_fillDmrd frame
    · exact headerNames_fillDmrd (last b ended)
  case fullLc =>
    intro b member
    simp only [List.mem_cons, Option.mem_toList] at member
    obtain rfl | ended := member
    · exact fullLc_names first
    · exact fullLc_names (last b ended)
  case lateEntry =>
    intro enough
    refine ⟨Vector.ofFn fun p => bursts.get ⟨p.val + 1, by omega⟩, fun p => ?_⟩
    have at_ : (Vector.ofFn fun p : Fin 4 => bursts.get ⟨p.val + 1, by omega⟩).get p = bursts.get ⟨p.val + 1, by omega⟩ :=
      Vector.getElem_ofFn p.isLt
    have small : (p.val + 1) % 6 = p.val + 1 := Nat.mod_eq_of_lt (by omega)
    rw [at_]
    refine ⟨List.get_mem _ _, ?_⟩
    have flags := burstFlags (p.val + 1) (bursts.get ⟨p.val + 1, by omega⟩) (List.getElem?_eq_getElem (by omega))
    rw [flags, small, if_neg (by omega)]
  case embeddedLc =>
    intro four taken
    refine ⟨buildLc lcfg.tgid radioId, lcNames_buildLc _ _, ?_⟩
    have fragments : (four.map fun b => embFragment b.payload) = emblcFragments (buildLc lcfg.tgid radioId) := by
      refine Vector.ext fun p h => ?_
      obtain ⟨member, position⟩ := taken ⟨p, h⟩
      obtain ⟨k, found⟩ := List.mem_iff_getElem?.mp member
      have fragment := (each k _ found).fragment ⟨p, h⟩ position
      simp only [Vector.getElem_map, emblcFragments]
      exact fragment
    rw [fragments]
    exact embCarries_buildLc lcfg.tgid radioId

end Names

section Runs
variable {cfg : Config} {tr : Translator}

theorem run_resolved (es : List (Env × TrEvent)) (toggles : ∀ e ∈ es, e.1.cfg.fixed = cfg.fixed)
    (start : Resolved cfg tr) : Resolved cfg (Machine.run envStep tr es).1 :=
  Machine.run_state_invariant envStep (Resolved cfg)
    (fun tr e before fixed => (resolved_of_fixed fixed _).mp
      (translatorStep_resolved e.1 e.2 tr ((resolved_of_fixed fixed tr).mpr before)))
    tr es (Machine.meets_of_forall envStep (fun _ e => e.1.cfg.fixed = cfg.fixed) tr es fun _ e member => toggles e member)
    start

/-- From the head of a call on, the frames of its link are the rest of the call and what comes later. -/
theorem callStands_run (i : Nat) (call : CallState) (es : List (Env × TrEvent))
    (toggles : ∀ e ∈ es, e.1.cfg.fixed = cfg.fixed) (resolved : Resolved cfg tr)
    (start : CallStands (cfg.linkAt i) call (tr.link i) []) :
    CallStands (cfg.linkAt i) call ((Machine.run envStep tr es).1.link i)
      (framesFor i (Machine.run envStep tr es).2) := by
  have met := Machine.meets_of_forall envStep (fun _ e => e.1.cfg.fixed = cfg.fixed) tr es
    fun _ e member => toggles e member
  have inv := Machine.run_invariant envStep
    (fun tr out => Resolved cfg tr ∧ CallStands (cfg.linkAt i) call (tr.link i) (framesFor i out))
    (fun tr out e before fixed => by
      obtain ⟨resolved, stands⟩ := before
      have resolved' := (resolved_of_fixed fixed tr).mpr resolved
      refine ⟨(resolved_of_fixed fixed _).mp (translatorStep_resolved e.1 e.2 tr resolved'), ?_⟩
      rw [framesFor_append]
      exact (translatorStep_link _ e.2 resolved' i).callStands (Config.linkAt_of_fixed fixed i) stands
        (framesFor_linkOut i _))
    tr [] es met ⟨resolved, start⟩
  rw [List.nil_append] at inv
  exact inv.2

end Runs

end Cc2obp
