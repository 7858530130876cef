import Cc2obp.Translate.Contention
import Cc2obp.Translate.Routing

/-!
# What is relayed as voice

A frame that is neither VOICE_HEAD nor VOICE_TERM and passes the two early drops
is taken for a voice burst. The mask of the second drop covers the data types
whose two low bits are set; the others come through.
-/
namespace Cc2obp

/-- Frame type VOICE or VOICESYNC. -/
def isVoice (flags : Byte) : Bool :=
  flags &&& obpfFrametypeMask == obpfFrametypeVoice || flags &&& obpfFrametypeMask == obpfFrametypeVoicesync

/-- The frame belongs to the running obp-origin call of the link. -/
def Belongs (env : Env) (i : Nat) (tr : Translator) (peer : Nat) (body : DmrdBody) : Prop :=
  Admitted env i peer body ∧ (tr.link i).inCall .obp = true ∧ body.stream = (tr.link i).call.streamId

/-- A voice packet on a link comes of a voice frame, sent to the group of the link by the link's peer
in the call that runs there. -/
def OnlyVoice (env : Env) (tr : Translator) (peer : Nat) (body : DmrdBody) : Prop :=
  ∀ i seq timestamp marker ambe21,
    .ccccSendVoice i seq timestamp marker ambe21 ∈ (translatorObpDmrdReceived env peer body tr).2 →
      isVoice body.flags = true ∧ body.flags &&& obpfCallUnit = 0 ∧
      (env.cfg.linkAt i).openbridgeIdx = some peer ∧ u32 (env.cfg.linkAt i).tgid = body.dst ∧
      (tr.link i).inCall .obp = true ∧ body.stream = (tr.link i).call.streamId

section
variable {env : Env} {i peer : Nat} {tr : Translator} {body : DmrdBody}

theorem group_of_scope {flags : Byte} (scope : outOfScope flags = false) : flags &&& obpfCallUnit = 0 := by
  simp only [outOfScope, Bool.or_eq_false_iff, bne_eq_false_iff_eq] at scope
  exact scope.1

/-- A frame that belongs to the call and is no head or terminator is relayed, whatever its type. -/
theorem Belongs.relayed (belongs : Belongs env i tr peer body) (notHead : isHead body.flags = false)
    (notTerm : isTerm body.flags = false) :
    ∃ seq timestamp marker ambe21,
      .ccccSendVoice i seq timestamp marker ambe21 ∈ (translatorObpDmrdReceived env peer body tr).2 := by
  obtain ⟨admitted, active, own⟩ := belongs
  have frame := admitted.burst notHead notTerm tr
  rw [translatorStep] at frame
  rw [frame, handleObpVoiceBurst, if_pos active, if_pos own]
  exact ⟨_, _, _, _, List.mem_singleton.mpr rfl⟩

/-- Nothing else makes a voice packet. -/
theorem belongs_of_relayed {seq : BitVec 16} {timestamp : BitVec 32} {marker : Bool} {ambe21 : Bytes 21}
    (relayed : .ccccSendVoice i seq timestamp marker ambe21 ∈ (translatorObpDmrdReceived env peer body tr).2) :
    Belongs env i tr peer body ∧ isHead body.flags = false ∧ isTerm body.flags = false := by
  simp only [translatorObpDmrdReceived] at relayed
  split at relayed
  · cases relayed
  next scope =>
    split at relayed
    · cases relayed
    next j routed =>
      split at relayed
      · cases relayed
      next enabled =>
        simp only [obpFrameOnLink] at relayed
        split at relayed
        · cases relayed
        next gate =>
          have admitted : Admitted env j peer body :=
            ⟨by simpa using scope, routed, by simpa using enabled, by simpa using gate⟩
          split at relayed
          · -- a head announces a call, after the end of another one
            simp only [handleObpVoiceHead, endObpOriginCall, startObpOriginCall] at relayed
            repeat' split at relayed
            all_goals simp at relayed
          next notHead =>
            split at relayed
            · simp only [handleObpVoiceTerm, endObpOriginCall] at relayed
              repeat' split at relayed
              all_goals simp at relayed
            next notTerm =>
              simp only [handleObpVoiceBurst] at relayed
              split at relayed
              next active =>
                split at relayed
                next own =>
                  obtain ⟨rfl, -⟩ : i = j ∧ _ := by simpa using relayed
                  exact ⟨⟨admitted, active, own⟩, by simpa using notHead, by simpa using notTerm⟩
                · cases relayed
              · cases relayed

end

/-- Only voice is relayed as voice exactly when the frame is voice, a VOICE_HEAD or a VOICE_TERM, or
belongs to no running obp-origin call. -/
theorem only_voice_relayed_iff (env : Env) (tr : Translator) (peer : Nat) (body : DmrdBody) :
    OnlyVoice env tr peer body ↔
      isVoice body.flags = true ∨ isHead body.flags = true ∨ isTerm body.flags = true ∨
        ∀ i, ¬Belongs env i tr peer body := by
  constructor
  · intro only
    by_contra others
    push Not at others
    obtain ⟨notVoice, notHead, notTerm, i, belongs⟩ := others
    obtain ⟨seq, timestamp, marker, ambe21, relayed⟩ :=
      belongs.relayed (by simpa using notHead) (by simpa using notTerm)
    exact notVoice (only i seq timestamp marker ambe21 relayed).1
  · intro cases_ i seq timestamp marker ambe21 relayed
    obtain ⟨belongs, notHead, notTerm⟩ := belongs_of_relayed relayed
    have voice : isVoice body.flags = true := by
      rcases cases_ with voice | head | term | foreign
      · exact voice
      · simp [notHead] at head
      · simp [notTerm] at term
      · exact absurd belongs (foreign i)
    obtain ⟨⟨scope, routed, -, -⟩, active, own⟩ := belongs
    exact ⟨voice, group_of_scope scope, peer_of_routeObp routed, tgid_of_routeObp routed, active, own⟩

/-- A data header inside a running call: its payload is relayed as voice. -/
theorem data_header_relayed :
    ∃ (es : List (Env × TrEvent)) (body : DmrdBody), (∀ e ∈ es, e.1.cfg.fixed = (oneLink true).fixed) ∧
      body.flags = 0x26 ∧ ¬OnlyVoice onAir (Machine.run envStep {} es).1 0 body := by
  let frame (flags : Byte) : DmrdBody := dmrdBody 0 7 9 8 flags #v[1, 2, 3, 4] (Vector.replicate 33 0)
  refine ⟨[(onAir, .obpDmrdReceived 0 (frame 0x21))], frame 0x26, by simp [onAir], by simp [frame], ?_⟩
  rw [only_voice_relayed_iff]
  have admitted : ∀ flags : Byte, outOfScope flags = false → Admitted onAir 0 0 (frame flags) := by
    intro flags scope
    refine ⟨by simp [frame, scope], ?_, rfl, rfl⟩
    rw [dst_dmrdBody]
    rfl
  have announced : (Machine.run envStep {} [(onAir, .obpDmrdReceived 0 (frame 0x21))]).1.link 0 =
      ⟨true, obpCall 0 (frame 0x21).netid (frame 0x21).src (frame 0x21).stream, false⟩ := by
    have head : isHead (frame 0x21).flags = true := by
      rw [flags_dmrdBody]
      rfl
    rw [Machine.run_cons, Machine.run_nil, envStep, (admitted 0x21 rfl).head head]
    rfl
  push Not
  refine ⟨?_, ?_, ?_, 0, admitted 0x26 rfl, ?_, ?_⟩
  · rw [flags_dmrdBody]
    decide
  · rw [flags_dmrdBody]
    decide
  · rw [flags_dmrdBody]
    decide
  · rw [announced]
    rfl
  · rw [announced]
    simp [frame, obpCall]

end Cc2obp
