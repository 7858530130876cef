import Cc2obp.Lib.Run
import Cc2obp.System.Writes
import Cc2obp.Translate.Slots

/-!
# The numbers of the voice packets of a call

Every burst of an obp-origin call is relayed at once, numbered by the slot of its
arrival. The numbers of a call are therefore apart exactly when its arrivals are.
-/
namespace Cc2obp

theorem rdAt16_buildVoice (seq : BitVec 16) (timestamp ssrc : BitVec 32) (marker : Bool)
    (ambe21 : Bytes 21) : rdAt16 (buildVoice seq timestamp ssrc marker ambe21) 2 = seq := by
  simp [rdAt16, buildVoice, wr16, rd16_wr16]

theorem rdAt32_buildVoice (seq : BitVec 16) (timestamp ssrc : BitVec 32) (marker : Bool)
    (ambe21 : Bytes 21) : rdAt32 (buildVoice seq timestamp ssrc marker ambe21) 4 = timestamp := by
  simp [rdAt32, buildVoice, wr16, wr32, rd32_wr32]

/-- A voice packet with the time it was relayed at and the slot its call then records. -/
structure VoicePacket where
  time : Rat
  slot : Int
  seq : BitVec 16
  timestamp : BitVec 32
deriving DecidableEq

/-- The voice packets a log has for a link, numbers read off their bytes. -/
def Out.voicePacket (i : Nat) (time : Rat) (slot : Int) : Out → Option VoicePacket
  | .udp _ (.voice link ..) bytes _ _ =>
    if link = i then some ⟨time, slot, rdAt16 bytes 2, rdAt32 bytes 4⟩ else none
  | _ => none

/-- The packet of a burst that arrives at `t` in a call that started at `start`. -/
def packetAt (start t : Rat) : VoicePacket :=
  ⟨t, slotIndex start t, (voiceNumbers start t).1, (voiceNumbers start t).2⟩

/-- A frame of the peer at its arrival time, answered by voice packets. -/
def relayStep (i peer : Nat) (s : System) (burst : Rat × DmrdBody) : System × List VoicePacket :=
  let after := s.cleared.translate { now := burst.1 } (.obpDmrdReceived peer burst.2)
  (after, after.world.out.filterMap (Out.voicePacket i burst.1 (after.tr.link i).call.ccSeq))

/-- A voice burst that the running obp-origin call of the link takes. -/
def OwnBurst (s : System) (i peer : Nat) (body : DmrdBody) : Prop :=
  Admitted (s.world.env 0) i peer body ∧ isHead body.flags = false ∧ isTerm body.flags = false ∧
    (s.tr.link i).inCall .obp = true ∧ body.stream = (s.tr.link i).call.streamId

theorem translatorStep_ownBurst {s : System} {i peer : Nat} {body : DmrdBody}
    (own : OwnBurst s i peer body) (now : Rat) :
    translatorStep (s.world.env now) (.obpDmrdReceived peer body) s.tr =
      (s.tr.setLink i { s.tr.link i with call := (s.tr.link i).call.obpBurst now },
        [.ccccSendVoice i (voiceNumbers (s.tr.link i).call.callStartTime now).1
          (voiceNumbers (s.tr.link i).call.callStartTime now).2 (!(s.tr.link i).call.ccSentFirst)
          (ccccAmbePack21 (extractAmbe body.payload))]) := by
  obtain ⟨admitted, notHead, notTerm, active, stream⟩ := own
  have admitted' : Admitted (s.world.env now) i peer body := admitted
  rw [admitted'.burst notHead notTerm]
  simp [handleObpVoiceBurst, active, stream, CallState.obpBurst, voiceNumbers, World.env]

/-- One burst: one packet with the numbers of its slot, and the call goes on. -/
theorem relayStep_own {s : System} {i peer : Nat} {burst : Rat × DmrdBody}
    (up : (s.world.links i).state = .up) (own : OwnBurst s i peer burst.2) :
    (relayStep i peer s burst).2 = [packetAt (s.tr.link i).call.callStartTime burst.1] ∧
    (relayStep i peer s burst).1.world.core = s.world.core ∧
    (relayStep i peer s burst).1.tr.link i =
      { s.tr.link i with call := (s.tr.link i).call.obpBurst burst.1 } := by
  have own' : OwnBurst s.cleared i peer burst.2 := own
  have record : (relayStep i peer s burst).1.tr.link i =
      { s.tr.link i with call := (s.tr.link i).call.obpBurst burst.1 } := by
    simp only [relayStep, System.translate, translatorStep_ownBurst own' burst.1]
    simp [Translator.setLink, System.cleared]
  refine ⟨?_, System.core_translate _ _ _, record⟩
  have links : (s.cleared.world.links i).state = .up := up
  simp only [relayStep] at record ⊢
  rw [record]
  simp [System.translate, translatorStep_ownBurst own', World.perform, ccccSendVoice, links,
    udpSendToLink, World.emit, Out.voicePacket, rdAt16_buildVoice, rdAt32_buildVoice,
    CallState.obpBurst]
  simp [System.cleared, packetAt]

/-- What the call takes, it takes after one more burst. -/
theorem OwnBurst.relayed {s s' : System} {i peer : Nat} {body : DmrdBody} {now : Rat} (own : OwnBurst s i peer body)
    (core : s'.world.core = s.world.core)
    (record : s'.tr.link i = { s.tr.link i with call := (s.tr.link i).call.obpBurst now }) : OwnBurst s' i peer body := by
  obtain ⟨admitted, notHead, notTerm, active, stream⟩ := own
  refine ⟨?_, notHead, notTerm, ?_, ?_⟩
  · rw [env_of_core core]
    exact admitted
  · rw [record]
    exact active
  · rw [record]
    exact stream

/-- The packets of a call, one for each burst. -/
theorem relay_packets (i peer : Nat) (bursts : List (Rat × DmrdBody)) (s : System)
    (up : (s.world.links i).state = .up) (own : ∀ b ∈ bursts, OwnBurst s i peer b.2) :
    (Machine.run (relayStep i peer) s bursts).2 =
      bursts.map fun b => packetAt (s.tr.link i).call.callStartTime b.1 := by
  induction bursts generalizing s with
  | nil => rfl
  | cons b rest ih =>
    obtain ⟨packet, core, record⟩ := relayStep_own up (own b (by simp))
    have up' : ((relayStep i peer s b).1.world.links i).state = .up := by
      rw [links_of_core core]
      exact up
    have own' : ∀ b' ∈ rest, OwnBurst (relayStep i peer s b).1 i peer b'.2 := by
      intro b' member
      exact (own b' (by simp [member])).relayed core record
    rw [Machine.run_cons, packet, ih _ up' own', record]
    rfl

/-- Two packets of a call, in the order they were relayed, have numbers of their own. -/
def VoicePacket.Distinct (p q : VoicePacket) : Prop :=
  p.slot < q.slot ∧
    (q.time - p.time < 65536 * ccccSlotMs → p.seq ≠ q.seq ∧ p.timestamp ≠ q.timestamp)

/-- The packets of an obp-origin call on an UP link have numbers of their own exactly when a slot
boundary lies between any two arrivals, the later arrival's slot fits an `int`, and no two arrivals
less than 65536 slots apart round to slots 65536 apart. -/
theorem voice_packets_distinct_iff (i peer : Nat) (s : System) (bursts : List (Rat × DmrdBody))
    (up : (s.world.links i).state = .up) (own : ∀ b ∈ bursts, OwnBurst s i peer b.2)
    (sorted : ((s.tr.link i).call.callStartTime :: bursts.map Prod.fst).Pairwise (· ≤ ·)) :
    (Machine.run (relayStep i peer) s bursts).2.Pairwise VoicePacket.Distinct ↔
      (bursts.map Prod.fst).Pairwise (ArrivalsApart (s.tr.link i).call.callStartTime) := by
  obtain ⟨started, ordered⟩ := List.pairwise_cons.mp sorted
  rw [relay_packets i peer bursts s up own, List.pairwise_map, List.pairwise_map]
  rw [List.pairwise_map] at ordered
  generalize (s.tr.link i).call.callStartTime = start at started ⊢
  have pair : ∀ b ∈ bursts, ∀ b' : Rat × DmrdBody, b.1 ≤ b'.1 →
      ((packetAt start b.1).Distinct (packetAt start b'.1) ↔ ArrivalsApart start b.1 b'.1) :=
    fun b member b' later => numbersApart_iff (started b.1 (List.mem_map_of_mem member)) later
  constructor
  · intro distinct
    exact (distinct.and ordered).imp_of_mem fun member _ both =>
      (pair _ member _ both.2).mp both.1
  · intro apart
    exact (apart.and ordered).imp_of_mem fun member _ both =>
      (pair _ member _ both.2).mpr both.1

/-- Two packets of a call, in the order they were relayed: the later slot is not smaller, and over
`d` slots the numbers advance by `d` and 480 times `d`. -/
def VoicePacket.Follows (p q : VoicePacket) : Prop :=
  p.slot ≤ q.slot ∧
    q.seq - p.seq = BitVec.ofInt 16 (q.slot - p.slot) ∧
    q.timestamp - p.timestamp = ccccRtpTsStep * BitVec.ofInt 32 (q.slot - p.slot) ∧
    (q.slot - p.slot < 65536 → (q.timestamp - p.timestamp).toNat = 480 * (q.seq - p.seq).toNat)

theorem packetAt_follows_iff {start t t' : Rat} (after : start ≤ t) (later : t ≤ t') :
    (packetAt start t).Follows (packetAt start t') ↔
      (slotEnd start 2147483647 ≤ t' → slotEnd start 2147483647 ≤ t) := by
  rw [← slotIndex_le_iff after later]
  constructor
  · intro follows
    exact follows.1
  · intro ordered
    have seqs : (packetAt start t').seq - (packetAt start t).seq =
        BitVec.ofInt 16 (slotIndex start t' - slotIndex start t) := ofInt_sub_ofInt 16 _ _
    have stamps : (packetAt start t').timestamp - (packetAt start t).timestamp =
        ccccRtpTsStep * u32 (slotIndex start t' - slotIndex start t) := timestamp_sub _ _
    refine ⟨ordered, seqs, stamps, ?_⟩
    intro near
    rw [seqs, stamps]
    exact gap_toNat (by omega) near

/-- The call is announced at time 0. -/
def announced : System := (relayStep 0 0 linkUp (0, streamFrame 0x21)).1

theorem announced_record : (announced.tr.link 0).hasCall = true ∧
    (announced.tr.link 0).call = obpCall 0 8 7 #v[1, 2, 3, 4] := by
  have admitted := admitted_streamFrame 0x21 rfl 0
  have head := admitted.head (by simp [streamFrame, isHead]; decide) {}
  have step : translatorStep (linkUp.cleared.world.env 0) (.obpDmrdReceived 0 (streamFrame 0x21))
      linkUp.cleared.tr = _ := head
  simp only [announced, relayStep, System.translate, step]
  simp [handleObpVoiceHead, newAttempt, LinkRuntime.inCall, startObpOriginCall, Translator.setLink,
    streamFrame, World.env]

theorem ownBurst_announced (flags : Byte) (voice : flags = 0x10 ∨ flags = 0x01) :
    OwnBurst announced 0 0 (streamFrame flags) := by
  obtain ⟨hasCall, call⟩ := announced_record
  have env : announced.world.env 0 = linkUp.world.env 0 := env_of_core (System.core_translate _ _ _) 0
  refine ⟨?_, ?_, ?_, ?_, ?_⟩
  · rw [env]
    exact admitted_streamFrame flags (by rcases voice with rfl | rfl <;> decide) 0
  · rcases voice with rfl | rfl <;> simp [streamFrame, isHead] <;> decide
  · rcases voice with rfl | rfl <;> simp [streamFrame, isTerm] <;> decide
  · simp [LinkRuntime.inCall, hasCall, call, obpCall]
  · simp [call, obpCall, streamFrame]

theorem announced_start : (announced.tr.link 0).call.callStartTime = 0 := by
  rw [announced_record.2]
  rfl

theorem announced_up : (announced.world.links 0).state = .up := by
  have links := links_of_core (System.core_translate { now := 0 } (.obpDmrdReceived 0 (streamFrame 0x21))
    linkUp.cleared)
  have record := congrFun links 0
  simp only [announced, relayStep]
  rw [record]
  rfl

/-- The first two bursts of a call, at the given times. -/
def twoBursts (t t' : Rat) : List (Rat × DmrdBody) := [(t, streamFrame 0x10), (t', streamFrame 0x01)]

theorem twoBursts_own (t t' : Rat) : ∀ b ∈ twoBursts t t', OwnBurst announced 0 0 b.2 := by
  intro b member
  simp only [twoBursts, List.mem_cons, List.not_mem_nil, or_false] at member
  rcases member with rfl | rfl
  · exact ownBurst_announced _ (.inl rfl)
  · exact ownBurst_announced _ (.inr rfl)

theorem voice_packets_distinct_iff_two_slots :
    (Machine.run (relayStep 0 0) announced (twoBursts (3 / 50) (6 / 50))).2.Pairwise
        VoicePacket.Distinct ↔
      ((twoBursts (3 / 50) (6 / 50)).map Prod.fst).Pairwise
        (ArrivalsApart (announced.tr.link 0).call.callStartTime) :=
  voice_packets_distinct_iff 0 0 announced _ announced_up (twoBursts_own _ _) (by
    rw [announced_start]
    simp [twoBursts]
    norm_num)

/-- Bursts 10 ms apart round to one slot: both packets are numbered 1. -/
theorem voice_packets_share_slot :
    (announced.world.links 0).state = .up ∧
    (∀ b ∈ twoBursts (3 / 50) (7 / 100), OwnBurst announced 0 0 b.2) ∧
    ((announced.tr.link 0).call.callStartTime ::
      (twoBursts (3 / 50) (7 / 100)).map Prod.fst).Pairwise (· ≤ ·) ∧
    ¬(Machine.run (relayStep 0 0) announced (twoBursts (3 / 50) (7 / 100))).2.Pairwise
        VoicePacket.Distinct := by
  refine ⟨announced_up, twoBursts_own _ _, ?_, ?_⟩
  · rw [announced_start]
    simp [twoBursts]
    norm_num
  · rw [relay_packets 0 0 _ announced announced_up (twoBursts_own _ _), announced_start]
    have same : ¬(packetAt 0 (3 / 50)).Distinct (packetAt 0 (7 / 100)) := fun distinct =>
      absurd distinct.1 (by decide +kernel)
    simp [twoBursts, same]

end Cc2obp
