import Cc2obp.System.CcCalls

/-!
# The peers' wires

What leaves for a link by its peer's socket are the frames the translator hands
over for it, as long as every cc-origin call in progress has a socket to go by.
Then the frames of a link on its peer's wire are whole calls.
-/
namespace Cc2obp

open World

/-! ## Frames of a link on a peer's wire -/

/-- The frame for a link that an item of the log takes to a peer. -/
def Out.wireFrame (i p : Nat) : Out → Option DmrdBody
  | .udp _ (.dmrd link peer) bytes _ _ => if link = i ∧ peer = p then some (datagramBody bytes) else none
  | _ => none

def wireFrames (i p : Nat) (log : List Out) : List DmrdBody := log.filterMap (Out.wireFrame i p)

/-- A frame handed over for a link and a peer. -/
def TrOut.frameOn (i p : Nat) : TrOut → Option DmrdBody
  | .obpSendDmrd link peer body => if link = i ∧ peer = p then some body else none
  | _ => none

def framesOn (i p : Nat) (out : List TrOut) : List DmrdBody := out.filterMap (TrOut.frameOn i p)

section Messages
variable (i p : Nat)

theorem wireFrames_append (log log' : List Out) :
    wireFrames i p (log ++ log') = wireFrames i p log ++ wireFrames i p log' :=
  List.filterMap_append

theorem wireFrames_cons_other {i p : Nat} {o : Out} {log : List Out} (other : Out.wireFrame i p o = none) :
    wireFrames i p (o :: log) = wireFrames i p log :=
  List.filterMap_cons_none other

/-- Nothing that goes to CC-CC is on a peer's wire. -/
theorem wireFrames_cc (w : World) {o : TrOut} (cc : o.isCc = true) : wireFrames i p (w.unlogged.perform o).out = [] := by
  refine List.filterMap_eq_nil_iff.mpr fun o' member => ?_
  cases writes_of_perform w member with
  | dmrd => cases cc
  | _ => rfl

theorem wireFrames_datagram (w : World) (o : TrOut) : wireFrames i p (w.unlogged.perform o).out =
    if p < w.cfg.nOpenbridge ∧ 0 ≤ w.obpFd p then
      (framesOn i p [o]).map (outgoingBody (w.cfg.openbridgeAt p)) else [] := by
  cases o with
  | obpSendDmrd link peer body =>
    by_cases here : link = i ∧ peer = p
    · obtain ⟨rfl, rfl⟩ := here
      by_cases bound : peer < w.cfg.nOpenbridge ∧ 0 ≤ w.obpFd peer
      · have open_ : ¬(w.cfg.nOpenbridge ≤ peer ∨ w.obpFd peer < 0) := by omega
        simp [World.perform, obpSendDmrd, World.unlogged, World.emit, open_, bound, wireFrames, Out.wireFrame,
          framesOn, TrOut.frameOn]
      · have closed : w.cfg.nOpenbridge ≤ peer ∨ w.obpFd peer < 0 := by omega
        simp [World.perform, obpSendDmrd, World.unlogged, closed, bound, wireFrames]
    · have none : framesOn i p [.obpSendDmrd link peer body] = [] := by simp [framesOn, TrOut.frameOn, here]
      have silent : wireFrames i p (w.unlogged.perform (.obpSendDmrd link peer body)).out = [] := by
        simp only [World.perform, obpSendDmrd]
        split <;> simp [World.unlogged, World.emit, wireFrames, Out.wireFrame, here]
      rw [silent, none]
      simp
  | _ =>
    rw [wireFrames_cc i p w rfl]
    simp [framesOn, TrOut.frameOn]

/-- What the translator hands over for a link and a peer leaves by the peer's socket, if there is one. -/
theorem wireFrames_messages (w : World) (outs : List TrOut) : wireFrames i p (w.messages outs) =
    if p < w.cfg.nOpenbridge ∧ 0 ≤ w.obpFd p then
      (framesOn i p outs).map (outgoingBody (w.cfg.openbridgeAt p)) else [] := by
  induction outs generalizing w with
  | nil => simp [World.messages, wireFrames, framesOn]
  | cons o rest ih =>
    have core : (w.unlogged.perform o).core = w.core := core_perform _ o
    obtain ⟨cfg, -, -, -, -, -, -, -, obpFd, -⟩ := (core_eq_iff _ _).mp core
    have split : framesOn i p (o :: rest) = framesOn i p [o] ++ framesOn i p rest :=
      List.filterMap_append (l := [o])
    rw [World.messages, List.foldl_cons, performAll_out, wireFrames_append, wireFrames_datagram, ih, cfg, obpFd, split]
    split_ifs <;> simp

end Messages

/-! ## Frames and calls -/

/-- A frame goes to the link's peer, for a call in progress or one that starts with the gate open. -/
theorem LinkStep.frame_to {env : Env} {i : Nat} {ev : TrEvent} {lr lr' : LinkRuntime} {out : List TrOut}
    (step : LinkStep env i ev lr out lr') {link peer : Nat} {body : DmrdBody}
    (member : .obpSendDmrd link peer body ∈ out) : (env.cfg.linkAt i).openbridgeIdx = some peer ∧
      (lr.inCall .cc = true ∨ env.obpPeerIsEnabled peer = true) := by
  have gated : ∀ p, obpGateOpen env i = true → (env.cfg.linkAt i).openbridgeIdx = some p →
      env.obpPeerIsEnabled p = true := by
    intro p gate resolved
    simp only [obpGateOpen, resolved, Option.any_some, Bool.and_eq_true] at gate
    exact gate.2
  cases step with
  | ccStart _ _ _ _ _ _ _ resolved gate =>
    simp only [List.mem_singleton, TrOut.obpSendDmrd.injEq] at member
    obtain ⟨-, rfl, -⟩ := member
    exact ⟨resolved, .inr (gated _ gate resolved)⟩
  | ccBurst _ _ _ _ _ resolved _ active =>
    simp only [List.mem_singleton, TrOut.obpSendDmrd.injEq] at member
    obtain ⟨-, rfl, -⟩ := member
    exact ⟨resolved, .inl active⟩
  | ccEnd _ resolved active =>
    simp only [List.mem_singleton, TrOut.obpSendDmrd.injEq] at member
    obtain ⟨-, rfl, -⟩ := member
    exact ⟨resolved, .inl active⟩
  | _ => simp [bonOf] at member

/-- An event's frames for a link go to its peer, whose socket is in use. -/
theorem framesOn_step {env : Env} {tr : Translator} (resolved : Resolved env.cfg tr) (ev : TrEvent) (i p : Nat)
    (some : framesOn i p (translatorStep env ev tr).2 ≠ []) : (env.cfg.linkAt i).openbridgeIdx = .some p ∧
      ((tr.link i).inCall .cc = true ∨ env.obpPeerIsEnabled p = true) := by
  obtain ⟨body, member⟩ := List.exists_mem_of_ne_nil _ some
  obtain ⟨o, sent, frame⟩ := List.mem_filterMap.mp member
  cases o with
  | obpSendDmrd link peer body' =>
    simp only [TrOut.frameOn] at frame
    split at frame
    next here =>
      obtain ⟨rfl, rfl⟩ := here
      have logged : .obpSendDmrd link peer body'.eraseSeq ∈ linkOut link (translatorStep env ev tr).2 :=
        List.mem_map.mpr ⟨_, List.mem_filter.mpr ⟨sent, by simp [TrOut.link]⟩, rfl⟩
      exact (translatorStep_link env ev resolved link).frame_to logged
    · cases frame
  | _ => cases frame

/-- All frames for a link are for its peer. -/
theorem framesOn_peer {env : Env} {tr : Translator} (resolved : Resolved env.cfg tr) (ev : TrEvent) {i p : Nat}
    (peer : (env.cfg.linkAt i).openbridgeIdx = some p) :
    framesOn i p (translatorStep env ev tr).2 = framesFor i (translatorStep env ev tr).2 := by
  refine List.filterMap_congr fun o sent => ?_
  cases o with
  | obpSendDmrd link q body =>
    by_cases here : link = i
    · subst here
      have own : framesOn link q (translatorStep env ev tr).2 ≠ [] := by
        refine List.ne_nil_of_mem (a := body) (List.mem_filterMap.mpr ⟨_, sent, ?_⟩)
        simp [TrOut.frameOn]
      obtain ⟨same, -⟩ := framesOn_step resolved ev link q own
      obtain rfl : p = q := by simpa [peer] using same
      simp [TrOut.frameOn, TrOut.frameFor]
    · simp [TrOut.frameOn, TrOut.frameFor, here]
  | _ => rfl

/-- What a run keeps of the wires: a cc-origin call has a socket to go by, and what has left for a link
are the frames handed over for it. -/
structure Framed (cfg : Config) (w : World) (tr : Translator) (log : List Out) : Prop where
  bound : ∀ i p, (cfg.linkAt i).openbridgeIdx = some p → (tr.link i).inCall .cc = true →
    p < w.cfg.nOpenbridge ∧ 0 ≤ w.obpFd p
  tracked : ∀ i p, ∃ handed, wireFrames i p log = handed.map (outgoingBody (cfg.openbridgeAt p)) ∧
    if (cfg.linkAt i).openbridgeIdx = some p then CcTracked (cfg.linkAt i) (tr.link i) handed else handed = []

theorem Config.openbridgeAt_fixed (cfg : Config) (p : Nat) : (cfg.openbridgeAt p).fixed = cfg.fixed.openbridgeAt p := by
  by_cases inside : p < cfg.openbridge.length
  · simp [Config.openbridgeAt, Config.fixed, inside]
  · have outside : cfg.openbridge.length ≤ p := by omega
    simp [Config.openbridgeAt, Config.fixed, outside]
    rfl

/-- The toggle of a peer plays no part in what it is sent. -/
theorem outgoingBody_of_fixed {a b : Config} (same : a.fixed = b.fixed) (p : Nat) :
    outgoingBody (a.openbridgeAt p) = outgoingBody (b.openbridgeAt p) := by
  have peers : (a.openbridgeAt p).fixed = (b.openbridgeAt p).fixed := by
    rw [Config.openbridgeAt_fixed, Config.openbridgeAt_fixed, same]
  have preserve := congrArg ObpPeerConfig.preserveSourcePeer peers
  have networkId := congrArg ObpPeerConfig.networkId peers
  simp only [ObpPeerConfig.fixed] at preserve networkId
  funext body
  simp [outgoingBody, preserve, networkId]

theorem SameCall.outgoing {a b : DmrdBody} (same : SameCall a b) (o : ObpPeerConfig) :
    SameCall (outgoingBody o a) (outgoingBody o b) := by
  obtain ⟨stream, src, dst, netid⟩ := same
  simp [SameCall, stream, src, dst, netid_outgoingBody, netid]

/-- An outgoing frame says of its call what the frame it is made of does. -/
theorem dmrdCall_outgoing (o : ObpPeerConfig) : dmrdCall.Maps dmrdCall (outgoingBody o) where
  opens head opening := by simpa [dmrdCall] using opening
  item head k body item := ⟨by simpa using item.1, item.2.outgoing o⟩
  closes head body closing := ⟨by simpa using closing.1, closing.2.outgoing o⟩

namespace Framed

variable {cfg : Config} {w : World} {tr : Translator} {log : List Out}

/-- Another world with the same sockets. -/
theorem of_sockets (framed : Framed cfg w tr log) (w' : World) (nOpenbridge : w'.cfg.nOpenbridge = w.cfg.nOpenbridge)
    (obpFd : w'.obpFd = w.obpFd) : Framed cfg w' tr log :=
  ⟨fun i p resolved active => by simpa [nOpenbridge, obpFd] using framed.bound i p resolved active, framed.tracked⟩

/-- A call into the translator. -/
theorem translate (framed : Framed cfg w tr log) (fixed : w.cfg.fixed = cfg.fixed)
    (sockets : ∀ p, w.obpActive p = decide (0 ≤ w.obpFd p)) (resolved : Resolved w.cfg tr) (now : Rat) (ev : TrEvent) :
    Framed cfg w (translatorStep (w.env now) ev tr).1 (log ++ w.messages (translatorStep (w.env now) ev tr).2) := by
  have idx := fun i => LinkConfig.openbridgeIdx_of_fixed (Config.linkAt_of_fixed fixed i)
  -- whoever sends has a socket: the call in progress by the invariant, a call that starts by the gate
  have socket : ∀ i p, (cfg.linkAt i).openbridgeIdx = some p →
      (tr.link i).inCall .cc = true ∨ (w.env now).obpPeerIsEnabled p = true → p < w.cfg.nOpenbridge ∧ 0 ≤ w.obpFd p := by
    rintro i p peer (active | enabled)
    · exact framed.bound i p peer active
    · simpa [World.env, obpPeerIsEnabled, sockets] using enabled
  constructor
  case bound =>
    intro i p peer after
    refine socket i p peer ?_
    have step := translatorStep_link (w.env now) ev resolved i
    generalize (translatorStep (w.env now) ev tr).1.link i = lr' at step after
    generalize linkOut i (translatorStep (w.env now) ev tr).2 = out at step
    cases step with
    | ccStart _ _ _ _ _ _ _ _ gate =>
      have here : (w.env now).cfg.linkAt i = w.cfg.linkAt i := rfl
      simp only [obpGateOpen, here, idx i, peer, Option.any_some, Bool.and_eq_true] at gate
      exact .inr gate.2
    | quiet => exact .inl after
    | ccBurst _ _ _ _ _ _ _ active => exact .inl active
    | obpBurst => exact .inl after
    | ccEnd | obpEnd | cleared => cases after
    | obpStart | obpOrphan => cases after
  case tracked =>
    intro i p
    obtain ⟨handed, written, tracked⟩ := framed.tracked i p
    rw [wireFrames_append, wireFrames_messages, outgoingBody_of_fixed fixed p, written]
    refine ⟨handed ++ framesOn i p (translatorStep (w.env now) ev tr).2, ?_, ?_⟩
    · split
      · simp
      next closed =>
        have silent : framesOn i p (translatorStep (w.env now) ev tr).2 = [] := by
          by_contra some
          obtain ⟨peer, live⟩ := framesOn_step resolved ev i p some
          exact closed (socket i p ((idx i).symm.trans peer) live)
        simp [silent]
    · split at tracked
      next peer =>
        rw [if_pos peer, framesOn_peer resolved ev ((idx i).trans peer)]
        exact (translatorStep_link _ ev resolved i).tracked (Config.linkAt_of_fixed fixed i) tracked (framesFor_linkOut i _)
      next other =>
        rw [if_neg other, tracked, List.nil_append]
        by_contra some
        exact other ((idx i).symm.trans (framesOn_step resolved ev i p some).1)

theorem bracketed (framed : Framed cfg w tr log) (i p : Nat) : dmrdCall.Bracketed (wireFrames i p log) := by
  obtain ⟨handed, written, tracked⟩ := framed.tracked i p
  rw [written]
  split at tracked
  · exact tracked.bracketed.map (outgoingBody _) (fun head opening => by simpa [dmrdCall] using opening)
      (fun head k body item => ⟨by simpa using item.1, item.2.outgoing _⟩)
      (fun head body closing => ⟨by simpa using closing.1, closing.2.outgoing _⟩)
  · rw [tracked]
    exact Session.tracks_nil.bracketed

/-- A moment: an item that is no frame, or a call. -/
theorem moment (framed : Framed cfg w tr log) (fixed : w.cfg.fixed = cfg.fixed)
    (sockets : ∀ p, w.obpActive p = decide (0 ≤ w.obpFd p)) {c : Ctx} {ok : TrEvent → Prop} {up : Nat → Bool}
    {out : List Out} {g' : Stage} (resolved : Resolved w.cfg tr) (moment : Moment c w ok ⟨up, tr⟩ out g') :
    Framed cfg w g'.tr (log ++ out) := by
  -- a call, logged ahead of what it sends, is no frame
  have logged : ∀ (tr' : Translator) (call : TrCall) (rest : List Out), Framed cfg w tr' (log ++ rest) →
      Framed cfg w tr' (log ++ .call call :: rest) := by
    intro tr' call rest framed'
    refine ⟨framed'.bound, fun i p => ?_⟩
    obtain ⟨handed, written, tracked⟩ := framed'.tracked i p
    refine ⟨handed, ?_, tracked⟩
    rw [← written, wireFrames_append, wireFrames_append, wireFrames_cons_other rfl]
  cases moment with
  | send o plain =>
    refine ⟨framed.bound, fun i p => ?_⟩
    obtain ⟨handed, written, tracked⟩ := framed.tracked i p
    have silent : Out.wireFrame i p o = none := by
      cases o with
      | udp fd msg bytes ip port => cases msg <;> first | rfl | exact absurd plain id
      | _ => rfl
    refine ⟨handed, ?_, tracked⟩
    rw [wireFrames_append, wireFrames_cons_other silent, written]
    exact List.append_nil _
  | call call rand => exact logged _ _ _ (framed.translate fixed sockets resolved c.now _)
  | frame peer body => exact logged _ _ _ (framed.translate fixed sockets resolved c.now _)
  | tick => exact framed.translate fixed sockets resolved c.now _

theorem trace (framed : Framed cfg w tr log) (fixed : w.cfg.fixed = cfg.fixed)
    (sockets : ∀ p, w.obpActive p = decide (0 ≤ w.obpFd p)) {c : Ctx} {ok : TrEvent → Prop} {up : Nat → Bool}
    {out : List Out} {g' : Stage} (calls : CallsUp w.cfg ⟨up, tr⟩) (moments : Trace (Moment c w ok) ⟨up, tr⟩ out g') :
    Framed cfg w g'.tr (log ++ out) := by
  have whole := moments.invariant (fun g log' => CallsUp w.cfg g ∧ Framed cfg w g.tr (log ++ log')) ?_ []
    ⟨calls, by simpa using framed⟩
  · simpa using whole.2
  · rintro g before out g' ⟨calls, framed⟩ moment
    refine ⟨calls.moment moment, ?_⟩
    rw [← List.append_assoc]
    exact framed.moment fixed sockets calls.resolved moment

end Framed

end Cc2obp
