import Cc2obp.Lib.Run
import Cc2obp.Lib.Session
import Cc2obp.Translate.Steps

/-!
# Calls toward OpenBridge

The frames handed over for a link are calls: a VOICE_HEAD, voice frames whose
positions run through the superframe, a VOICE_TERM, all of one stream. The
frames of a peer are numbered by its counter, whichever links they are for.
-/
namespace Cc2obp

/-- The translator as a machine whose configuration, peers and clock come with each event. -/
def envStep (tr : Translator) (e : Env × TrEvent) : Translator × List TrOut :=
  translatorStep e.1 e.2 tr

def TrOut.frameFor (i : Nat) : TrOut → Option DmrdBody
  | .obpSendDmrd link _ body => if link = i then some body else none
  | _ => none

/-- The frames handed over for a link, in order. -/
def framesFor (i : Nat) (out : List TrOut) : List DmrdBody := out.filterMap (TrOut.frameFor i)

@[simp] theorem framesFor_append (i : Nat) (out out' : List TrOut) :
    framesFor i (out ++ out') = framesFor i out ++ framesFor i out' := by
  simp [framesFor]

theorem framesFor_linkOut (i : Nat) (out : List TrOut) :
    (framesFor i out).map DmrdBody.eraseSeq = framesFor i (linkOut i out) := by
  induction out with
  | nil => rfl
  | cons o rest ih =>
    simp only [framesFor] at ih
    by_cases mine : o.link = i
    · rw [linkOut_cons_self i o rest mine]
      cases o with
      | obpSendDmrd link p body =>
        have here : link = i := mine
        simp [framesFor, TrOut.frameFor, TrOut.eraseSeq, here, ih]
      | _ => exact ih
    · have skipped : linkOut i (o :: rest) = linkOut i rest := by simp [linkOut, mine]
      rw [skipped]
      cases o with
      | obpSendDmrd link p body =>
        have apart : link ≠ i := mine
        simpa [framesFor, TrOut.frameFor, apart] using ih
      | _ => exact ih

section Erased
variable (body : DmrdBody)

@[simp] theorem flags_eraseSeq : body.eraseSeq.flags = body.flags := by
  simp [DmrdBody.eraseSeq, DmrdBody.flags]

@[simp] theorem src_eraseSeq : body.eraseSeq.src = body.src := by
  simp [DmrdBody.eraseSeq, DmrdBody.src]

@[simp] theorem dst_eraseSeq : body.eraseSeq.dst = body.dst := by
  simp [DmrdBody.eraseSeq, DmrdBody.dst]

@[simp] theorem netid_eraseSeq : body.eraseSeq.netid = body.netid := by
  simp [DmrdBody.eraseSeq, DmrdBody.netid]

@[simp] theorem payload_eraseSeq : body.eraseSeq.payload = body.payload := by
  refine Vector.ext fun i h => ?_
  simp [DmrdBody.eraseSeq, DmrdBody.payload, show 4 ≠ 20 + i by omega]

@[simp] theorem stream_eraseSeq : body.eraseSeq.stream = body.stream := by
  refine Vector.ext fun i h => ?_
  simp [DmrdBody.eraseSeq, DmrdBody.stream, show 4 ≠ 16 + i by omega]

end Erased

/-! ## The shape of a call -/

/-- Two frames of one call. -/
def SameCall (a b : DmrdBody) : Prop :=
  a.stream = b.stream ∧ a.src = b.src ∧ a.dst = b.dst ∧ a.netid = b.netid

/-- VOICE_HEAD, voice frames at positions 0, 1, 2, 3, 4, 5, 0, ..., VOICE_TERM. -/
def dmrdCall : Session DmrdBody where
  opens head := head.flags = 0x21
  item head k body :=
    body.flags = (if k % 6 = 0 then 0x10 else BitVec.ofNat 8 (k % 6)) ∧ SameCall head body
  closes head body := body.flags = 0x22 ∧ SameCall head body

theorem burstFlags_eq (k : Nat) :
    burstFlags (k % 6) = if k % 6 = 0 then 0x10 else BitVec.ofNat 8 (k % 6) := by
  simp [burstFlags, obpfFrametypeVoicesync, obpfFrametypeVoice]

/-- The head frame of the call on record. -/
def HeadOf (lcfg : LinkConfig) (call : CallState) (head : DmrdBody) : Prop :=
  SameCall head (fillDmrd lcfg call 0 vheadFlags (Vector.replicate 33 0))

theorem sameCall_fillDmrd {lcfg lcfg' : LinkConfig} {call : CallState} {head body : DmrdBody}
    {flags : Byte} {payload33 : Bytes 33} (fixed : lcfg'.fixed = lcfg.fixed)
    (own : HeadOf lcfg call head) (frame : body.eraseSeq = fillDmrd lcfg' call 0 flags payload33) :
    SameCall head body ∧ body.flags = flags := by
  have tgid := LinkConfig.tgid_of_fixed fixed
  have fields : ∀ {α : Type} (f : DmrdBody → α), f body.eraseSeq = f (fillDmrd lcfg' call 0 flags payload33) :=
    fun f => congrArg f frame
  obtain ⟨stream, src, dst, netid⟩ := own
  have stream' := fields DmrdBody.stream
  have src' := fields DmrdBody.src
  have dst' := fields DmrdBody.dst
  have netid' := fields DmrdBody.netid
  have flags' := fields DmrdBody.flags
  simp [fillDmrd, tgid] at stream src dst netid stream' src' dst' netid' flags'
  simp [SameCall, stream, src, dst, netid, stream', src', dst', netid', flags']

/-- What a link's record says about the frames handed over for it so far. -/
def CcTracked (lcfg : LinkConfig) (lr : LinkRuntime) (frames : List DmrdBody) : Prop :=
  if lr.inCall .cc then
    ∃ head, HeadOf lcfg lr.call head ∧ dmrdCall.Tracks (some (head, lr.call.obpSeqPos)) frames
  else dmrdCall.Tracks none frames

section Tracked
variable {lcfg : LinkConfig} {lr : LinkRuntime} {frames : List DmrdBody}

theorem ccTracked_active (active : lr.inCall .cc = true) : CcTracked lcfg lr frames ↔
    ∃ head, HeadOf lcfg lr.call head ∧
      dmrdCall.Tracks (some (head, lr.call.obpSeqPos)) frames := by
  simp [CcTracked, active]

theorem ccTracked_idle (idle : lr.inCall .cc = false) :
    CcTracked lcfg lr frames ↔ dmrdCall.Tracks none frames := by
  simp [CcTracked, idle]

theorem CcTracked.bracketed (tracked : CcTracked lcfg lr frames) : dmrdCall.Bracketed frames := by
  unfold CcTracked at tracked
  split at tracked
  · obtain ⟨head, -, within⟩ := tracked
    exact within.bracketed
  · exact tracked.bracketed

end Tracked

theorem LinkRuntime.inCall_cc_of_obp {lr : LinkRuntime} (active : lr.inCall .obp = true) :
    lr.inCall .cc = false := by
  simp only [LinkRuntime.inCall, Bool.and_eq_true, beq_iff_eq] at active
  simp [LinkRuntime.inCall, active.2]

/-- A step outside cc-origin calls hands over no frame and starts none. -/
theorem LinkStep.tracked_idle {lcfg : LinkConfig} {lr lr' : LinkRuntime}
    {frames new : List DmrdBody} (idle : lr.inCall .cc = false) (idle' : lr'.inCall .cc = false)
    (before : CcTracked lcfg lr frames) (silent : new = []) : CcTracked lcfg lr' (frames ++ new) := by
  rw [ccTracked_idle idle']
  simpa [silent] using (ccTracked_idle idle).mp before

/-- A step that hands over no frame. -/
theorem new_silent {i : Nat} {new : List DmrdBody} {out : List TrOut} (frame : new.map DmrdBody.eraseSeq = framesFor i out)
    (silent : framesFor i out = []) : new = [] := by
  simpa [silent] using frame

/-- A step that hands over one frame, known up to its sequence byte. -/
theorem new_single {i peer : Nat} {body : DmrdBody} {new : List DmrdBody}
    (frame : new.map DmrdBody.eraseSeq = framesFor i [.obpSendDmrd i peer body]) : ∃ b, new = [b] ∧ b.eraseSeq = body := by
  have one : new.map DmrdBody.eraseSeq = [body] := by
    simpa [framesFor, TrOut.frameFor] using frame
  exact List.map_eq_singleton_iff.mp one

theorem LinkStep.tracked {env : Env} {lcfg : LinkConfig} {i : Nat} {ev : TrEvent}
    {lr lr' : LinkRuntime} {out : List TrOut} {frames new : List DmrdBody}
    (step : LinkStep env i ev lr out lr') (fixed : (env.cfg.linkAt i).fixed = lcfg.fixed)
    (before : CcTracked lcfg lr frames) (frame : new.map DmrdBody.eraseSeq = framesFor i out) :
    CcTracked lcfg lr' (frames ++ new) := by
  cases step with
  | quiet =>
    rw [new_silent frame rfl, List.append_nil]
    exact before
  | ccStart dropped radioId peerId srcLid tgid callType rand resolved gate idleCc idleObp =>
    obtain ⟨b, rfl, erased⟩ := new_single frame
    have between := (ccTracked_idle idleCc).mp before
    have flags : b.flags = vheadFlags := by
      rw [← flags_eraseSeq, erased, fillDmrd, flags_dmrdBody]
    refine (ccTracked_active rfl).mpr ⟨b, ?_, between.open flags⟩
    have own : HeadOf lcfg (ccCall env.now (env.cfg.linkAt i).tgid radioId peerId rand)
        (fillDmrd lcfg (ccCall env.now (env.cfg.linkAt i).tgid radioId peerId rand) 0 vheadFlags
          (Vector.replicate 33 0)) := ⟨rfl, rfl, rfl, rfl⟩
    obtain ⟨stream, src, dst, netid⟩ := (sameCall_fillDmrd fixed own erased).1
    exact ⟨stream.symm, src.symm, dst.symm, netid.symm⟩
  | ccBurst dropped seq timestamp marker ambe21 resolved crossConnect active =>
    obtain ⟨b, rfl, erased⟩ := new_single frame
    obtain ⟨head, own, within⟩ := (ccTracked_active active).mp before
    obtain ⟨same, flags⟩ := sameCall_fillDmrd fixed own erased
    have active' : LinkRuntime.inCall ⟨lr.hasCall, lr.call.ccBurst env.now, dropped⟩ .cc = true :=
      active
    exact (ccTracked_active active').mpr
      ⟨head, own, within.item ⟨flags.trans (burstFlags_eq _), same⟩⟩
  | ccEnd dropped resolved active ending =>
    obtain ⟨b, rfl, erased⟩ := new_single frame
    obtain ⟨head, own, within⟩ := (ccTracked_active active).mp before
    obtain ⟨same, flags⟩ := sameCall_fillDmrd fixed own erased
    exact (ccTracked_idle rfl).mpr (within.close ⟨flags, same⟩)
  | obpStart dropped peer body admitted head idleCc idleObp =>
    exact tracked_idle idleCc rfl before (new_silent frame rfl)
  | obpOrphan dropped peer body admitted head active other =>
    exact tracked_idle (LinkRuntime.inCall_cc_of_obp active) rfl before (new_silent frame rfl)
  | obpBurst dropped peer body admitted notHead notTerm active own =>
    have idle := LinkRuntime.inCall_cc_of_obp active
    exact tracked_idle idle idle before (new_silent frame rfl)
  | obpEnd dropped active ending =>
    exact tracked_idle (LinkRuntime.inCall_cc_of_obp active) rfl before (new_silent frame rfl)
  | cleared dropped idleCc => exact tracked_idle idleCc rfl before (new_silent frame rfl)

/-- What a run preserves: every link's record matches its frames, and the counters number them. -/
structure CallsInv (cfg : Config) (tr : Translator) (out : List TrOut) : Prop where
  resolved : Resolved cfg tr
  tracked : ∀ i, CcTracked (cfg.linkAt i) (tr.link i) (framesFor i out)
  counts : Counts (fun _ => 0) tr.obpSeqCtr out

theorem resolved_of_fixed {a b : Config} (same : a.fixed = b.fixed) (tr : Translator) :
    Resolved a tr ↔ Resolved b tr := by
  have idx := fun i => LinkConfig.openbridgeIdx_of_fixed (Config.linkAt_of_fixed same i)
  simp [Resolved, idx]

theorem callsInv_step (cfg : Config) (tr : Translator) (out : List TrOut) (e : Env × TrEvent)
    (inv : CallsInv cfg tr out) (fixed : e.1.cfg.fixed = cfg.fixed) :
    CallsInv cfg (envStep tr e).1 (out ++ (envStep tr e).2) := by
  have resolved := (resolved_of_fixed fixed tr).mpr inv.resolved
  constructor
  case resolved => exact (resolved_of_fixed fixed _).mp (translatorStep_resolved e.1 e.2 tr resolved)
  case tracked =>
    intro i
    rw [framesFor_append]
    exact (translatorStep_link _ e.2 resolved i).tracked (Config.linkAt_of_fixed fixed i)
      (inv.tracked i) (framesFor_linkOut i _)
  case counts => exact inv.counts.trans (translatorStep_counts e.1 e.2 tr)

/-- Over any run that changes toggles only, the frames of a link are calls, and the frames of a
peer are numbered modulo 256. -/
theorem cc_origin_frames (cfg : Config) (es : List (Env × TrEvent))
    (toggles : ∀ e ∈ es, e.1.cfg.fixed = cfg.fixed) :
    let out := (Machine.run envStep {} es).2
    (∀ i, dmrdCall.Bracketed (framesFor i out)) ∧
      ∀ peer k body, (framesTo peer out)[k]? = some body → body.seq = BitVec.ofNat 8 k := by
  have start : CallsInv cfg {} [] := by
    constructor
    case resolved => intro i active; cases active
    case tracked => exact fun i => (ccTracked_idle rfl).mpr Session.tracks_nil
    case counts => exact Counts.none _ _ (by simp)
  have met := Machine.meets_of_forall envStep (fun _ e => e.1.cfg.fixed = cfg.fixed) {} es
    fun _ e member => toggles e member
  have inv := Machine.run_invariant envStep (CallsInv cfg)
    (fun tr out e before fixed => callsInv_step cfg tr out e before fixed) {} [] es met start
  rw [List.nil_append] at inv
  refine ⟨fun i => (inv.tracked i).bracketed, ?_⟩
  intro peer k body found
  simpa using (inv.counts peer).2 k body found

/-- One link whose gate closes between its B-on and its B-off. -/
def oneLink (crossConnectActive : Bool) : Config :=
  { openbridge := [{ enabled := true }]
    link := [{ enabled := true, crossConnectActive, tgid := 9 }] }

theorem cc_origin_frames_gate_closing :
    let open_ : Env := { cfg := oneLink true, obpPeerIsEnabled := fun _ => true, now := 0 }
    let closed : Env := { cfg := oneLink false, obpPeerIsEnabled := fun _ => true, now := 1 }
    let out := (Machine.run envStep {}
      [(open_, .ccccBon 0 7 8 1 9 0x47 #v[1, 2, 3, 4]), (closed, .ccccBoff 0 0 0)]).2
    (∀ i, dmrdCall.Bracketed (framesFor i out)) ∧
      ∀ peer k body, (framesTo peer out)[k]? = some body → body.seq = BitVec.ofNat 8 k :=
  cc_origin_frames (oneLink true) _ (by simp [oneLink, Config.fixed, LinkConfig.fixed])

end Cc2obp
