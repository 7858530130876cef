import Cc2obp.System.VoiceNumbers

/-!
# What a B-off counts

The B-off of an obp-origin call reports no lost packets and one more than the
slot of the last burst as the total. That is the number of packets sent exactly
when the last of `n` bursts arrives in slot `n - 1`.
-/
namespace Cc2obp

/-- What ends an obp-origin call with a B-off: a VOICE_TERM of its stream, silence, or a VOICE_HEAD
of another stream. -/
inductive EndsCall (env : Env) (i : Nat) (call : CallState) : TrEvent → Prop where
  | voiceTerm (peer : Nat) (body : DmrdBody) (admitted : Admitted env i peer body)
      (notHead : isHead body.flags = false) (term : isTerm body.flags = true) (own : body.stream = call.streamId) :
      EndsCall env i call (.obpDmrdReceived peer body)
  | idle (configured : i < env.cfg.nLink) (late : idleTooLong env call) : EndsCall env i call .tick
  | orphaned (peer : Nat) (body : DmrdBody) (admitted : Admitted env i peer body)
      (head : isHead body.flags = true) (other : body.stream ≠ call.streamId) :
      EndsCall env i call (.obpDmrdReceived peer body)

/-- Lost and total of a B-off line. -/
def TrOut.boffCounts : TrOut → Option (Int × Int)
  | .ccccSendBoff _ lost total _ => some (lost, total)
  | _ => none

/-- The counts of the B-offs that were written to a link. -/
def boffsTo (i : Nat) (log : List Out) : List (Int × Int) := (sentTo i log).filterMap TrOut.boffCounts

theorem boffCounts_linkOut (i : Nat) (out : List TrOut) :
    (ccOut i out).filterMap TrOut.boffCounts = (linkOut i out).filterMap TrOut.boffCounts := by
  rw [ccOut, List.filterMap_filter]
  apply List.filterMap_congr
  intro o _
  cases o <;> rfl

/-- Each of the three ends makes one B-off call with the total of the record. -/
theorem EndsCall.boffs {env : Env} {i : Nat} {tr : Translator} {ev : TrEvent} (ending : EndsCall env i (tr.link i).call ev)
    (active : (tr.link i).inCall .obp = true) :
    (linkOut i (translatorStep env ev tr).2).filterMap TrOut.boffCounts = [(0, (tr.link i).call.total)] := by
  cases ending with
  | voiceTerm peer body admitted notHead term own =>
    rw [admitted.term notHead term, handleObpVoiceTerm, if_pos active, if_pos own, endObpOriginCall_active active]
    rw [linkOut_boff, linkOut_nil]
    rfl
  | idle configured late =>
    have turn := tickLoop_view env i _ (List.nodup_range (n := env.cfg.nLink)) (tr, [])
    rw [if_pos (List.mem_range.mpr configured)] at turn
    have obp : (tr.link i).hasCall = true ∧ (tr.link i).call.origin = .obp := by
      simpa [LinkRuntime.inCall] using active
    have due : ((tr.link i).hasCall && decide (env.now - (tr.link i).call.lastActivity > callIdleTimeoutS)) = true := by
      rw [obp.1, Bool.true_and]
      exact decide_eq_true late
    rw [translatorStep, translatorTick_eq, turn.2, linkOut_nil, List.nil_append]
    rw [tickLink, if_pos due, if_pos obp.2, endObpOriginCall_active active, linkOut_boff, linkOut_nil]
    rfl
  | orphaned peer body admitted head other =>
    have active' : ((newAttempt i tr).link i).inCall .obp = true := by
      rw [newAttempt, setLink_self]
      exact active
    have other' : body.stream ≠ ((newAttempt i tr).link i).call.streamId := by
      rw [newAttempt, setLink_self]
      exact other
    rw [admitted.head head, handleObpVoiceHead, if_pos active', if_neg other', endObpOriginCall_active active']
    simp only [startObpOriginCall, List.cons_append, List.nil_append, linkOut_boff, linkOut_bon, linkOut_nil]
    rw [newAttempt, setLink_self]
    rfl

/-- The bursts of a call leave its record in the call, with the slot of the last one. -/
theorem relay_record (i peer : Nat) (bursts : List (Rat × DmrdBody)) (s : System)
    (up : (s.world.links i).state = .up) (own : ∀ b ∈ bursts, OwnBurst s i peer b.2)
    (active : (s.tr.link i).inCall .obp = true) :
    let s' := (Machine.run (relayStep i peer) s bursts).1
    s'.world.core = s.world.core ∧ (s'.tr.link i).inCall .obp = true ∧
      (s'.tr.link i).call.streamId = (s.tr.link i).call.streamId ∧ (s'.tr.link i).call.total =
        (bursts.getLast?.map fun b => slotIndex (s.tr.link i).call.callStartTime b.1 + 1).getD (s.tr.link i).call.total := by
  induction bursts generalizing s with
  | nil => exact ⟨rfl, active, rfl, rfl⟩
  | cons b rest ih =>
    obtain ⟨-, core, record⟩ := relayStep_own up (own b (by simp))
    have up' : ((relayStep i peer s b).1.world.links i).state = .up := by
      rw [links_of_core core]
      exact up
    have own' : ∀ b' ∈ rest, OwnBurst (relayStep i peer s b).1 i peer b'.2 := by
      intro b' member
      exact (own b' (by simp [member])).relayed core record
    have active' : ((relayStep i peer s b).1.tr.link i).inCall .obp = true := by
      rw [record]
      exact active
    obtain ⟨core', active'', stream, total⟩ := ih _ up' own' active'
    refine ⟨core'.trans core, active'', ?_, ?_⟩
    · rw [Machine.run_cons, stream, record]
      rfl
    rw [Machine.run_cons, total, record]
    cases rest with
    | nil => rfl
    | cons b' rest' => simp [CallState.obpBurst, List.getLast?_cons]

/-- One more than the slot of the last of `n` bursts is `n` exactly when it arrives in slot `n - 1`
and that slot fits an `int`. -/
theorem slot_counts_iff {start t : Rat} (after : start ≤ t) (n : Nat) :
    slotIndex start t + 1 = n + 1 ↔ InSlot start n t ∧ n ≤ 2147483647 := by
  have nonneg := slotCount_nonneg after
  rw [inSlot_iff after, slotIndex_eq after]
  split <;> omega

/-- The total of a call that started at `start`, after these bursts. -/
def totalAfter (start : Rat) (bursts : List (Rat × DmrdBody)) : Int :=
  (bursts.getLast?.map fun b => slotIndex start b.1 + 1).getD 0

/-- The B-off that ends an obp-origin call on an UP link, and the number of its packets. -/
theorem boff_after_bursts {i peer : Nat} {s : System} {bursts : List (Rat × DmrdBody)} {start : Rat}
    {peerId rfSrc : BitVec 32} {stream : Bytes 4} (up : (s.world.links i).state = .up)
    (started : (s.tr.link i).hasCall = true ∧ (s.tr.link i).call = obpCall start peerId rfSrc stream)
    (own : ∀ b ∈ bursts, OwnBurst s i peer b.2) {s' : System} (after : (Machine.run (relayStep i peer) s bursts).1 = s')
    {c : Ctx} {ev : TrEvent} (ending : EndsCall (s'.world.env c.now) i (s'.tr.link i).call ev) :
    boffsTo i (s'.cleared.translate c ev).world.out = [(0, totalAfter start bursts)] ∧
      (Machine.run (relayStep i peer) s bursts).2.length = bursts.length := by
  subst after
  have active : (s.tr.link i).inCall .obp = true := by
    simp [LinkRuntime.inCall, started.1, started.2, obpCall]
  obtain ⟨core, active', -, record⟩ := relay_record i peer bursts s up own active
  have up' : (((Machine.run (relayStep i peer) s bursts).1).cleared.world.links i).state = .up := by
    have links := links_of_core core
    rw [System.cleared, World.unlogged_links, links]
    exact up
  have fresh : (s.tr.link i).call.total = 0 ∧ (s.tr.link i).call.callStartTime = start := by
    rw [started.2]
    exact ⟨rfl, rfl⟩
  rw [fresh.1, fresh.2] at record
  constructor
  · rw [boffsTo, System.sentTo_translate, if_pos up', List.filterMap_append, boffCounts_linkOut, totalAfter, ← record]
    exact ending.boffs active'
  · rw [relay_packets i peer bursts s up own, List.length_map]

/-- The announced call is over with a VOICE_TERM after its bursts. -/
theorem announced_ends (bursts : List (Rat × DmrdBody)) (own : ∀ b ∈ bursts, OwnBurst announced 0 0 b.2) (now : Rat) :
    let s' := (Machine.run (relayStep 0 0) announced bursts).1
    EndsCall (s'.world.env now) 0 (s'.tr.link 0).call (.obpDmrdReceived 0 (streamFrame 0x22)) := by
  intro s'
  obtain ⟨hasCall, call⟩ := announced_record
  have active : (announced.tr.link 0).inCall .obp = true := by
    simp [LinkRuntime.inCall, hasCall, call, obpCall]
  obtain ⟨core, -, stream, -⟩ := relay_record 0 0 bursts announced announced_up own active
  have env : s'.world.env now = linkUp.world.env now :=
    env_of_core (core.trans (System.core_translate _ _ _)) now
  refine .voiceTerm 0 _ ?_ ?_ ?_ ?_
  · rw [env]
    exact admitted_streamFrame 0x22 rfl now
  · simp only [streamFrame, flags_dmrdBody]
    decide
  · simp only [streamFrame, flags_dmrdBody]
    decide
  · rw [stream, call]
    simp [streamFrame, obpCall]

end Cc2obp
