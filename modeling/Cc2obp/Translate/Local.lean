import Cc2obp.Translate.Basic

/-!
# What a handler may touch

A handler working for a link changes that link's record only, makes calls for
that link only, reads no other link, and numbers the frames it hands over by the
counter of their peer.
-/
namespace Cc2obp

/-! ## Frames handed over -/

/-- A frame handed over for a peer. -/
def TrOut.frameTo (peer : Nat) : TrOut → Option DmrdBody
  | .obpSendDmrd _ p body => if p = peer then some body else none
  | _ => none

/-- The frames handed over for a peer, in order. -/
def framesTo (peer : Nat) (out : List TrOut) : List DmrdBody := out.filterMap (TrOut.frameTo peer)

/-- A call up to the sequence byte of its frame. -/
def TrOut.eraseSeq : TrOut → TrOut
  | .obpSendDmrd link peer body => .obpSendDmrd link peer body.eraseSeq
  | o => o

@[simp] theorem framesTo_nil (peer : Nat) : framesTo peer [] = [] := rfl

@[simp] theorem framesTo_append (peer : Nat) (out out' : List TrOut) :
    framesTo peer (out ++ out') = framesTo peer out ++ framesTo peer out' := by
  simp [framesTo]

theorem framesTo_eraseSeq (peer : Nat) (out : List TrOut) :
    framesTo peer (out.map TrOut.eraseSeq) = (framesTo peer out).map DmrdBody.eraseSeq := by
  induction out with
  | nil => rfl
  | cons o rest ih =>
    cases o with
    | obpSendDmrd link p body =>
      by_cases here : p = peer <;>
        simpa [framesTo, TrOut.frameTo, TrOut.eraseSeq, here] using ih
    | _ => exact ih

/-- The counters advance by the frames handed over, and each frame carries its number modulo 256. -/
def Counts (before after : Nat → Nat) (out : List TrOut) : Prop :=
  ∀ peer, after peer = before peer + (framesTo peer out).length ∧
    ∀ k body, (framesTo peer out)[k]? = some body →
      body.seq = BitVec.ofNat 8 (before peer + k)

theorem Counts.none (c : Nat → Nat) (out : List TrOut) (silent : ∀ peer, framesTo peer out = []) :
    Counts c c out := by
  intro peer
  simp [silent]

theorem Counts.trans {a b c : Nat → Nat} {out out' : List TrOut} (first : Counts a b out)
    (second : Counts b c out') : Counts a c (out ++ out') := by
  intro peer
  obtain ⟨count, numbered⟩ := first peer
  obtain ⟨count', numbered'⟩ := second peer
  refine ⟨by simp [count', count, Nat.add_assoc], ?_⟩
  intro k body found
  rw [framesTo_append] at found
  by_cases early : k < (framesTo peer out).length
  · exact numbered k body (by simpa [List.getElem?_append_left early] using found)
  · have late : (framesTo peer out).length ≤ k := by omega
    rw [List.getElem?_append_right late] at found
    rw [numbered' _ body found, count]
    congr 1
    omega

/-! ## Local handlers -/

/-- The handler works for link `i` alone. -/
structure LocalAt (i : Nat) (h : Translator → Translator × List TrOut) : Prop where
  other : ∀ tr k, k ≠ i → (h tr).1.link k = tr.link k
  outs : ∀ tr, ∀ o ∈ (h tr).2, o.link = i
  same : ∀ tr tr', tr.link i = tr'.link i → (h tr).1.link i = (h tr').1.link i ∧
    (h tr).2.map TrOut.eraseSeq = (h tr').2.map TrOut.eraseSeq
  counts : ∀ tr, Counts tr.obpSeqCtr (h tr).1.obpSeqCtr (h tr).2

@[simp] theorem setLink_self (tr : Translator) (i : Nat) (lr : LinkRuntime) :
    (tr.setLink i lr).link i = lr := by
  simp [Translator.setLink]

@[simp] theorem setLink_other (tr : Translator) (i k : Nat) (lr : LinkRuntime) (apart : k ≠ i) :
    (tr.setLink i lr).link k = tr.link k := by
  simp [Translator.setLink, apart]

@[simp] theorem setLink_obpSeqCtr (tr : Translator) (i : Nat) (lr : LinkRuntime) :
    (tr.setLink i lr).obpSeqCtr = tr.obpSeqCtr := rfl

namespace LocalAt
variable {i : Nat}

/-- Writing the link's record and making calls that hand over no frame. -/
theorem set (f : LinkRuntime → LinkRuntime) (out : LinkRuntime → List TrOut)
    (own : ∀ lr, ∀ o ∈ out lr, o.link = i) (silent : ∀ lr peer, framesTo peer (out lr) = []) :
    LocalAt i fun tr => (tr.setLink i (f (tr.link i)), out (tr.link i)) where
  other tr k apart := setLink_other _ _ _ _ apart
  outs tr := own _
  same tr tr' agree := by simp [agree]
  counts tr := Counts.none _ _ (silent _)

theorem pure : LocalAt i fun tr => (tr, []) where
  other _ _ _ := rfl
  outs _ := by simp
  same _ _ agree := ⟨agree, rfl⟩
  counts _ := Counts.none _ _ (by simp)

/-- A handler that looks at the link's record first. -/
theorem read (h : LinkRuntime → Translator → Translator × List TrOut) (each : ∀ lr, LocalAt i (h lr)) :
    LocalAt i fun tr => h (tr.link i) tr where
  other tr := (each _).other tr
  outs tr := (each _).outs tr
  same tr tr' agree := by
    rw [agree]
    exact (each _).same tr tr' agree
  counts tr := (each _).counts tr

/-- One handler after another. -/
theorem bind {h h' : Translator → Translator × List TrOut} (first : LocalAt i h)
    (second : LocalAt i h') :
    LocalAt i fun tr => ((h' (h tr).1).1, (h tr).2 ++ (h' (h tr).1).2) where
  other tr k apart := (second.other _ k apart).trans (first.other tr k apart)
  outs tr o member := by
    rcases List.mem_append.mp member with early | late
    · exact first.outs tr o early
    · exact second.outs _ o late
  same tr tr' agree := by
    obtain ⟨links, outs⟩ := first.same tr tr' agree
    obtain ⟨links', outs'⟩ := second.same _ _ links
    exact ⟨links', by simp [outs, outs']⟩
  counts tr := (first.counts tr).trans (second.counts _)

/-- A silent change of the record before the rest. -/
theorem after_set {h : Translator → Translator × List TrOut} (f : LinkRuntime → LinkRuntime)
    (rest : LocalAt i h) : LocalAt i fun tr => h (tr.setLink i (f (tr.link i))) :=
  (set f (fun _ => []) (by simp) (by simp)).bind rest

/-- A silent change of the record after the rest. -/
theorem then_set {h : Translator → Translator × List TrOut} (first : LocalAt i h)
    (f : LinkRuntime → LinkRuntime) :
    LocalAt i fun tr => ((h tr).1.setLink i (f ((h tr).1.link i)), (h tr).2) := by
  have both := first.bind (set f (fun _ => []) (by simp) (by simp))
  simpa using both

end LocalAt

section Handlers
variable (env : Env) (i : Nat)

theorem sendDmrd_none (flags : Byte) (payload33 : Bytes 33)
    (unresolved : (env.cfg.linkAt i).openbridgeIdx = none) :
    sendDmrd env i flags payload33 = fun tr => (tr, []) := by
  funext tr
  simp [sendDmrd, unresolved]

theorem sendDmrd_some (flags : Byte) (payload33 : Bytes 33) {peer : Nat}
    (resolved : (env.cfg.linkAt i).openbridgeIdx = some peer) :
    sendDmrd env i flags payload33 = fun tr =>
      ({ tr with obpSeqCtr := Function.update tr.obpSeqCtr peer (tr.obpSeqCtr peer + 1) },
        [.obpSendDmrd i peer (fillDmrd (env.cfg.linkAt i) (tr.link i).call
          (BitVec.ofNat 8 (tr.obpSeqCtr peer)) flags payload33)]) := by
  funext tr
  simp [sendDmrd, resolved]

theorem sendDmrd_local (flags : Byte) (payload33 : Bytes 33) :
    LocalAt i (sendDmrd env i flags payload33) := by
  cases resolved : (env.cfg.linkAt i).openbridgeIdx with
  | none =>
    rw [sendDmrd_none env i flags payload33 resolved]
    exact LocalAt.pure
  | some peer =>
    rw [sendDmrd_some env i flags payload33 resolved]
    constructor
    case other => intro tr k _; rfl
    case outs => intro tr o member; rw [List.mem_singleton.mp member]; rfl
    case same => intro tr tr' agree; simp [TrOut.eraseSeq, fillDmrd, agree]
    case counts =>
      intro tr p
      by_cases here : p = peer
      · subst here
        refine ⟨by simp [framesTo, TrOut.frameTo], ?_⟩
        intro k body found
        obtain ⟨bound, rfl⟩ := List.getElem?_eq_some_iff.mp found
        have first : k = 0 := by simpa [framesTo, TrOut.frameTo] using bound
        subst first
        simp [framesTo, TrOut.frameTo, fillDmrd]
      · simp [framesTo, TrOut.frameTo, here, Ne.symm here]

theorem sendObpVoiceHead_local : LocalAt i (sendObpVoiceHead env i) :=
  LocalAt.read (fun lr => sendDmrd env i _ (buildHeadTermPayload lr.call.lc false))
    fun _ => sendDmrd_local env i _ _

theorem sendObpVoiceTerm_local : LocalAt i (sendObpVoiceTerm env i) :=
  LocalAt.read (fun lr => sendDmrd env i _ (buildHeadTermPayload lr.call.lc true))
    fun _ => sendDmrd_local env i _ _

theorem newAttempt_local : LocalAt i fun tr => (newAttempt i tr, []) :=
  LocalAt.set (fun lr => { lr with cxDropLogged := false }) (fun _ => []) (by simp) (by simp)

theorem after_newAttempt {h : Translator → Translator × List TrOut} (rest : LocalAt i h) :
    LocalAt i fun tr => h (newAttempt i tr) :=
  rest.after_set fun lr => { lr with cxDropLogged := false }

theorem logDrop_local : LocalAt i fun tr => (logDrop i tr, []) :=
  LocalAt.set (fun lr => { lr with cxDropLogged := true }) (fun _ => []) (by simp) (by simp)

theorem endObpOriginCall_local : LocalAt i (endObpOriginCall i) := by
  refine LocalAt.read (fun lr tr => if lr.inCall .obp then
    (clearCall i tr, [.ccccSendBoff i 0 (if lr.call.ccSentFirst then lr.call.ccSeq + 1 else 0) 0])
    else (tr, [])) fun lr => ?_
  split
  · exact LocalAt.set (fun lr => { lr with hasCall := false }) (fun _ => [_]) (by simp [TrOut.link])
      (by simp [framesTo, TrOut.frameTo])
  · exact LocalAt.pure

theorem endCcOriginCall_local : LocalAt i (endCcOriginCall env i) := by
  refine LocalAt.read (fun lr tr => if lr.inCall .cc then
    (clearCall i (sendObpVoiceTerm env i tr).1, (sendObpVoiceTerm env i tr).2) else (tr, []))
    fun lr => ?_
  split
  · exact (sendObpVoiceTerm_local env i).then_set fun lr => { lr with hasCall := false }
  · exact LocalAt.pure

theorem startObpOriginCall_local (peerId rfSrc : BitVec 32) (stream : Bytes 4) :
    LocalAt i (startObpOriginCall env i peerId rfSrc stream) :=
  LocalAt.set (fun lr => { lr with call := _, hasCall := true }) (fun _ => [_]) (by simp [TrOut.link])
    (by simp [framesTo, TrOut.frameTo])

theorem handleObpVoiceHead_local (peerId rfSrc : BitVec 32) (stream : Bytes 4) :
    LocalAt i (handleObpVoiceHead env i peerId rfSrc stream) := by
  have started := startObpOriginCall_local env i peerId rfSrc stream
  refine LocalAt.read (fun lr tr => if lr.inCall .obp then
    if stream = lr.call.streamId then (tr, [])
    else ((startObpOriginCall env i peerId rfSrc stream (endObpOriginCall i tr).1).1,
      (endObpOriginCall i tr).2 ++
        (startObpOriginCall env i peerId rfSrc stream (endObpOriginCall i tr).1).2)
    else if lr.inCall .cc then (tr, []) else startObpOriginCall env i peerId rfSrc stream tr)
    fun lr => ?_
  split
  · split
    · exact LocalAt.pure
    · exact (endObpOriginCall_local i).bind started
  · split
    · exact LocalAt.pure
    · exact started

theorem handleObpVoiceBurst_local (payload33 : Bytes 33) (stream : Bytes 4) :
    LocalAt i (handleObpVoiceBurst env i payload33 stream) := by
  let slot := fun lr : LinkRuntime => slotIndex lr.call.callStartTime env.now
  refine LocalAt.read (fun lr tr => if lr.inCall .obp then
    if stream = lr.call.streamId then
      (tr.setLink i { lr with call := { lr.call with
          lastActivity := env.now, ccSentFirst := true, ccSeq := slot lr } },
        [.ccccSendVoice i (BitVec.ofInt 16 (slot lr)) (ccccRtpTsStep * u32 (slot lr))
          (!lr.call.ccSentFirst) (ccccAmbePack21 (extractAmbe payload33))])
    else (tr, []) else (tr, [])) fun lr => ?_
  split
  · split
    · exact LocalAt.set (fun _ => _) (fun _ => [_]) (by simp [TrOut.link])
        (by simp [framesTo, TrOut.frameTo])
    · exact LocalAt.pure
  · exact LocalAt.pure

theorem handleObpVoiceTerm_local (stream : Bytes 4) : LocalAt i (handleObpVoiceTerm i stream) := by
  refine LocalAt.read (fun lr tr => if lr.inCall .obp then
    if stream = lr.call.streamId then endObpOriginCall i tr else (tr, []) else (tr, [])) fun lr => ?_
  split
  · split
    · exact endObpOriginCall_local i
    · exact LocalAt.pure
  · exact LocalAt.pure

theorem obpFrameOnLink_local (body : DmrdBody) : LocalAt i (obpFrameOnLink env i body) := by
  have rest : LocalAt i fun tr =>
      if !obpGateOpen env i then (logDrop i tr, [])
      else if isHead body.flags then handleObpVoiceHead env i body.netid body.src body.stream tr
      else if isTerm body.flags then handleObpVoiceTerm i body.stream tr
      else handleObpVoiceBurst env i body.payload body.stream tr := by
    split
    · exact logDrop_local i
    split
    · exact handleObpVoiceHead_local env i _ _ _
    split
    · exact handleObpVoiceTerm_local i _
    · exact handleObpVoiceBurst_local env i _ _
  unfold obpFrameOnLink
  by_cases head : isHead body.flags
  · simpa [head] using after_newAttempt i rest
  · simpa [head] using rest

theorem startCcOriginCall_local (radioId peerId : BitVec 32) (rand : Bytes 4) :
    LocalAt i (startCcOriginCall env i radioId peerId rand) :=
  (sendObpVoiceHead_local env i).after_set fun lr => { lr with call := _, hasCall := true }

theorem translatorCcccBon_local (radioId peerId : BitVec 32) (srcLid tgid : Int) (callType : Byte)
    (rand : Bytes 4) :
    LocalAt i (translatorCcccBon env i radioId peerId srcLid tgid callType rand) := by
  have rest : LocalAt i fun tr =>
      if !obpGateOpen env i then (logDrop i tr, [])
      else if (tr.link i).inCall .cc then (tr, [])
      else if (tr.link i).inCall .obp then (tr, [])
      else startCcOriginCall env i radioId peerId rand tr := by
    split
    · exact logDrop_local i
    refine LocalAt.read (fun lr tr => if lr.inCall .cc then (tr, [])
      else if lr.inCall .obp then (tr, []) else startCcOriginCall env i radioId peerId rand tr)
      fun lr => ?_
    split
    · exact LocalAt.pure
    split
    · exact LocalAt.pure
    · exact startCcOriginCall_local env i radioId peerId rand
  cases enabled : (env.cfg.linkAt i).enabled with
  | false =>
    unfold translatorCcccBon
    simpa [enabled] using LocalAt.pure
  | true =>
    unfold translatorCcccBon
    simpa [enabled] using after_newAttempt i rest

theorem translatorCcccVoice_local (seq : BitVec 16) (timestamp : BitVec 32) (marker : Bool)
    (ambe21 : Bytes 21) : LocalAt i (translatorCcccVoice env i seq timestamp marker ambe21) := by
  refine LocalAt.read (fun lr tr => if !lr.inCall .cc then (tr, [])
    else if !(env.cfg.linkAt i).crossConnectActive then (tr, [])
    else
      let sent := sendDmrd env i (burstFlags (lr.call.obpSeqPos % 6))
        (buildVoiceBurst (ccccAmbeUnpack21 ambe21) (buildEmbed lr.call (lr.call.obpSeqPos % 6)))
        (tr.setLink i { lr with call := { lr.call with lastActivity := env.now } })
      (sent.1.setLink i { sent.1.link i with call :=
        { (sent.1.link i).call with obpSeqPos := (sent.1.link i).call.obpSeqPos + 1 } }, sent.2))
    fun lr => ?_
  split
  · exact LocalAt.pure
  split
  · exact LocalAt.pure
  · exact LocalAt.after_set (fun _ => _) ((sendDmrd_local env i _ _).then_set fun lr =>
      { lr with call := { lr.call with obpSeqPos := lr.call.obpSeqPos + 1 } })

theorem translatorCcccLinkDown_local : LocalAt i (translatorCcccLinkDown env i) := by
  refine LocalAt.then_set (h := fun tr =>
      if (tr.link i).inCall .cc then sendObpVoiceTerm env i tr else (tr, [])) ?_
    fun lr => { lr with hasCall := false, cxDropLogged := false }
  refine LocalAt.read (fun lr tr => if lr.inCall .cc then sendObpVoiceTerm env i tr else (tr, []))
    fun lr => ?_
  split
  · exact sendObpVoiceTerm_local env i
  · exact LocalAt.pure

theorem tickLink_local : LocalAt i (tickLink env i) := by
  refine LocalAt.read (fun lr tr =>
    if lr.hasCall && decide (env.now - lr.call.lastActivity > callIdleTimeoutS) then
      if lr.call.origin = .obp then endObpOriginCall i tr else endCcOriginCall env i tr
    else (tr, [])) fun lr => ?_
  split
  · split
    · exact endObpOriginCall_local i
    · exact endCcOriginCall_local env i
  · exact LocalAt.pure

end Handlers

/-! ## Events addressed to a link -/

/-- The link an event works for; a frame works for the link it routes to. -/
def addressee (cfg : Config) : TrEvent → Option Nat
  | .ccccBon link .. => some link
  | .ccccVoice link .. => some link
  | .ccccBoff link .. => some link
  | .ccccLinkUp link => some link
  | .ccccLinkDown link => some link
  | .obpDmrdReceived peer body => routeObp cfg peer body.dst
  | .tick => none

theorem translatorStep_local (env : Env) (ev : TrEvent) (i : Nat)
    (addressed : addressee env.cfg ev = some i) : LocalAt i (translatorStep env ev) := by
  cases ev with
  | ccccBon link radioId peerId srcLid tgid callType rand =>
    cases addressed
    exact translatorCcccBon_local env i radioId peerId srcLid tgid callType rand
  | ccccVoice link seq timestamp marker ambe21 =>
    cases addressed
    exact translatorCcccVoice_local env i seq timestamp marker ambe21
  | ccccBoff link lost total =>
    cases addressed
    exact endCcOriginCall_local env i
  | ccccLinkUp link =>
    cases addressed
    exact newAttempt_local i
  | ccccLinkDown link =>
    cases addressed
    exact translatorCcccLinkDown_local env i
  | obpDmrdReceived peer body =>
    have routed : routeObp env.cfg peer body.dst = some i := addressed
    unfold translatorStep translatorObpDmrdReceived
    simp only [routed]
    split
    · exact LocalAt.pure
    split
    · exact LocalAt.pure
    · exact obpFrameOnLink_local env i body
  | tick => cases addressed

/-- A frame that routes nowhere does nothing. -/
theorem translatorStep_unrouted (env : Env) (ev : TrEvent) (tr : Translator)
    (nowhere : addressee env.cfg ev = none) (noTick : ev ≠ .tick) :
    translatorStep env ev tr = (tr, []) := by
  cases ev with
  | obpDmrdReceived peer body =>
    have unrouted : routeObp env.cfg peer body.dst = none := nowhere
    simp [translatorStep, translatorObpDmrdReceived, unrouted]
  | tick => exact absurd rfl noTick
  | _ => cases nowhere

/-! ## What one link sees -/

/-- The calls made for a link, up to the sequence bytes. -/
def linkOut (i : Nat) (out : List TrOut) : List TrOut :=
  (out.filter fun o => o.link == i).map TrOut.eraseSeq

@[simp] theorem linkOut_nil (i : Nat) : linkOut i [] = [] := rfl

@[simp] theorem linkOut_append (i : Nat) (out out' : List TrOut) :
    linkOut i (out ++ out') = linkOut i out ++ linkOut i out' := by
  simp [linkOut]

theorem linkOut_cons_self (i : Nat) (o : TrOut) (out : List TrOut) (mine : o.link = i) :
    linkOut i (o :: out) = o.eraseSeq :: linkOut i out := by
  simp [linkOut, mine]

@[simp] theorem linkOut_bon (i : Nat) (radioId peerId : BitVec 32) (srcLid tgid : Int)
    (callType : Byte) (out : List TrOut) :
    linkOut i (.ccccSendBon i radioId peerId srcLid tgid callType :: out) =
      .ccccSendBon i radioId peerId srcLid tgid callType :: linkOut i out :=
  linkOut_cons_self i _ out rfl

@[simp] theorem linkOut_boff (i : Nat) (lost total rssi : Int) (out : List TrOut) :
    linkOut i (.ccccSendBoff i lost total rssi :: out) =
      .ccccSendBoff i lost total rssi :: linkOut i out :=
  linkOut_cons_self i _ out rfl

@[simp] theorem linkOut_voice (i : Nat) (seq : BitVec 16) (timestamp : BitVec 32) (marker : Bool)
    (ambe21 : Bytes 21) (out : List TrOut) :
    linkOut i (.ccccSendVoice i seq timestamp marker ambe21 :: out) =
      .ccccSendVoice i seq timestamp marker ambe21 :: linkOut i out :=
  linkOut_cons_self i _ out rfl

namespace LocalAt
variable {i : Nat} {h : Translator → Translator × List TrOut}

theorem linkOut_self (own : LocalAt i h) (tr : Translator) :
    linkOut i (h tr).2 = (h tr).2.map TrOut.eraseSeq := by
  rw [linkOut, List.filter_eq_self.mpr]
  intro o member
  simp [own.outs tr o member]

theorem linkOut_other (own : LocalAt i h) (tr : Translator) (k : Nat) (apart : k ≠ i) :
    linkOut k (h tr).2 = [] := by
  rw [linkOut, List.filter_eq_nil_iff.mpr, List.map_nil]
  intro o member
  simp [own.outs tr o member, Ne.symm apart]

/-- The link's own view: its record and its calls depend on its record alone. -/
theorem view (own : LocalAt i h) (tr tr' : Translator) (agree : tr.link i = tr'.link i) :
    (h tr).1.link i = (h tr').1.link i ∧ linkOut i (h tr).2 = linkOut i (h tr').2 := by
  rw [own.linkOut_self, own.linkOut_self]
  exact own.same tr tr' agree

end LocalAt

/-- One iteration of the loop in `translator_tick`. -/
def tickStep (env : Env) (acc : Translator × List TrOut) (i : Nat) : Translator × List TrOut :=
  ((tickLink env i acc.1).1, acc.2 ++ (tickLink env i acc.1).2)

theorem translatorTick_eq (env : Env) (tr : Translator) :
    translatorTick env tr = (List.range env.cfg.nLink).foldl (tickStep env) (tr, []) := rfl

/-- A link has its own turn in the loop and sees nothing of the others'. -/
theorem tickLoop_view (env : Env) (k : Nat) (turns : List Nat) (once : turns.Nodup)
    (acc : Translator × List TrOut) :
    let after := turns.foldl (tickStep env) acc
    if k ∈ turns then after.1.link k = (tickLink env k acc.1).1.link k ∧
      linkOut k after.2 = linkOut k acc.2 ++ linkOut k (tickLink env k acc.1).2
    else after.1.link k = acc.1.link k ∧ linkOut k after.2 = linkOut k acc.2 := by
  induction turns generalizing acc with
  | nil => simp
  | cons i rest ih =>
    obtain ⟨fresh, once'⟩ := List.nodup_cons.mp once
    have later := ih once' (tickStep env acc i)
    have turn := tickLink_local env i
    by_cases here : k = i
    · subst here
      simp only [fresh, if_false] at later
      simpa [tickStep] using later
    · have skipped := turn.other acc.1 k here
      have silent := turn.linkOut_other acc.1 k here
      have alike := (tickLink_local env k).view (tickLink env i acc.1).1 acc.1 skipped
      simpa [tickStep, here, silent, skipped, alike.1, alike.2] using later

theorem tickLoop_counts (env : Env) (turns : List Nat) (c : Nat → Nat)
    (acc : Translator × List TrOut) (before : Counts c acc.1.obpSeqCtr acc.2) :
    let after := turns.foldl (tickStep env) acc
    Counts c after.1.obpSeqCtr after.2 := by
  induction turns generalizing acc with
  | nil => exact before
  | cons i rest ih => exact ih _ (before.trans ((tickLink_local env i).counts acc.1))

theorem translatorStep_counts (env : Env) (ev : TrEvent) (tr : Translator) :
    Counts tr.obpSeqCtr (translatorStep env ev tr).1.obpSeqCtr (translatorStep env ev tr).2 := by
  cases addressed : addressee env.cfg ev with
  | some i => exact (translatorStep_local env ev i addressed).counts tr
  | none =>
    by_cases tick : ev = .tick
    · subst tick
      exact tickLoop_counts env _ _ (tr, []) (Counts.none _ _ (by simp))
    · rw [translatorStep_unrouted env ev tr addressed tick]
      exact Counts.none _ _ (by simp)

end Cc2obp
