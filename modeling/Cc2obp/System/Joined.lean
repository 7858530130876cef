import Cc2obp.System.CcPeriods
import Cc2obp.System.Signals
import Cc2obp.System.Tandem
import Cc2obp.System.VoiceNumbers
import Cc2obp.System.Watchdog
import Cc2obp.System.Writes
import Cc2obp.Translate.Joined

/-!
# Two ends of a CC-CC link

One instance gets calls from its OpenBridge peer and announces them over a CC-CC
link, another has the other end of the link and passes them on to its own peer.
The control lines arrive in order and in any chunks; the voice packets are lost,
repeated and overtaken at will. The calls that leave the far end are those that
started at the near end, and their audio was heard there before.
-/
namespace Cc2obp

open CString World Lines

/-! ## The two ends -/

/-- Two ends and what is on its way between them: control bytes in order, and every voice datagram sent so far. -/
structure Joined where
  a : System
  b : System
  wire : List Byte := []
  sent : List (List Byte) := []

/-- The near end's link and peer, the far end's, and the far end's descriptor of the connection. -/
structure Joint where
  i : Nat
  p : Nat
  j : Nat
  q : Nat
  fd : Int

inductive Hop where
  /-- A frame of its peer arrives at the near end. -/
  | frame (c : Ctx) (body : DmrdBody)
  /-- The far end reads so many control bytes, or all there are. -/
  | control (c : Ctx) (n : Nat)
  /-- A copy of a voice datagram that was sent arrives at the far end. -/
  | voice (c : Ctx) (k : Nat) (port : Int)

/-- What is seen on the OpenBridge sides: a frame that the near end gets, with whether it starts a
call there, and a frame that the far end sends. -/
inductive Seen where
  | heard (starts : Bool) (body : DmrdBody)
  | told (body : DmrdBody)

/-- The voice datagram that an item of the log sends to a link. -/
def Out.voiceTo (i : Nat) : Out → Option (List Byte)
  | .udp _ (.voice link ..) bytes _ _ => if link = i then some bytes else none
  | _ => none

namespace Joined

def near (t : Joint) (c : Ctx) (body : DmrdBody) (st : Joined) : Joined × List Seen :=
  let (a, out) := st.a.step (c, st.a.world.fromPeer t.p (signDmrd (st.a.world.cfg.openbridgeAt t.p) body))
  ({ st with
      a, wire := st.wire ++ out.flatMap (Out.bytesTo t.i), sent := st.sent ++ out.filterMap (Out.voiceTo t.i) },
    [.heard (startsCall (st.a.tr.link t.i) body) body])

def far (t : Joint) (c : Ctx) (e : System.Event) (st : Joined) : Joined × List Seen :=
  let (b, out) := st.b.step (c, e)
  ({ st with b }, (wireFrames t.j t.q out).map .told)

def step (t : Joint) (st : Joined) (hop : Hop) : Joined × List Seen :=
  match hop with
  | .frame c body => st.near t c body
  | .control c n => { st with wire := st.wire.drop n }.far t c (.readable t.fd (.recv (.data (st.wire.take n))))
  | .voice c k port =>
    match st.sent[k]? with
    | some bytes =>
      st.far t c (.readable st.b.world.voiceFd (.datagram bytes (st.b.world.cfg.linkAt t.j).ccRemoteIp port))
    | none => (st, [])

/-- The calls of the control lines that the far end has not read yet, and what they leave in its buffer. -/
def pending (t : Joint) (st : Joined) : List TrCall × List Byte :=
  let (lines, rest) := cut rxbufCap (st.b.world.links t.j).rxbuf st.wire
  (lines.filterMap (signalOf t.j), rest)

end Joined

namespace Seen

/-- The caller of a call that starts at the near end. -/
def started : Seen → Option (BitVec 32)
  | heard true body => some body.src
  | _ => none

/-- The caller that a head from the far end names. -/
def opened : Seen → Option (BitVec 32)
  | told body => headSrc body
  | _ => none

def frame : Seen → Option DmrdBody
  | told body => some body
  | _ => none

end Seen

/-- The audio of every burst that is sent is that of a burst heard before. -/
def Answered (log : List Seen) : Prop :=
  ∀ early body late, log = early ++ .told body :: late → isBurst body = true →
    ∃ starts source, .heard starts source ∈ early ∧ isBurst source = true ∧
      extractAmbe body.payload = extractAmbe source.payload

/-- Two ends that stand idle, with nothing on its way; the near end's LID is one of two digits. -/
structure JoinedBy (t : Joint) (tgid tgid' : Nat) (a b : System) : Prop where
  near : TandemEnd a t.i t.p tgid
  far : TandemEnd b t.j t.q tgid'
  lid : 0 ≤ (a.world.cfg.linkAt t.i).ccLid ∧ (a.world.cfg.linkAt t.i).ccLid ≤ 99
  receiving : b.Receiving t.j t.fd []
  source : (b.world.links t.j).syncSource = (a.world.links t.i).syncSource

/-- A frame that arrives at the near end is a group frame for the talkgroup, as its peer signs it. -/
def Hop.ForTalkgroup (tgid : Nat) : Hop → Prop
  | .frame _ body => body.toList.take 4 = dmrdMagic ∧ body.flags &&& obpfSlot2 = 0 ∧ outOfScope body.flags = false ∧
      body.dst = u32 tgid
  | _ => True

theorem Answered.append {log new : List Seen} (answered : Answered log)
    (told : ∀ body, .told body ∈ new → isBurst body = true → ∃ starts source, .heard starts source ∈ log ∧
      isBurst source = true ∧ extractAmbe body.payload = extractAmbe source.payload) : Answered (log ++ new) := by
  intro early body late split burst
  rcases List.append_eq_append_iff.mp split with ⟨middle, past, later⟩ | ⟨middle, within, later⟩
  · -- among the new ones: everything heard so far came before
    obtain ⟨starts, source, member, same⟩ := told body (by rw [later]; simp) burst
    exact ⟨starts, source, by rw [past]; exact List.mem_append_left _ member, same⟩
  · cases middle with
    | nil =>
      obtain ⟨starts, source, member, same⟩ := told body (by rw [List.nil_append] at later; rw [← later]; simp) burst
      rw [List.append_nil] at within
      exact ⟨starts, source, within ▸ member, same⟩
    | cons first rest =>
      rw [List.cons_append, List.cons.injEq] at later
      obtain ⟨rfl, -⟩ := later
      exact answered early body rest within burst

/-! ## What the near end writes -/

namespace Signal

/-- A B-on as its callers make it; a B-off of a call that an `int` counts the slots of. -/
def Tellable : Signal → Prop
  | bon radio peer srcLid tgid callType => (bon radio peer srcLid tgid callType).Sendable
  | boff lost total rssi => InCInt lost ∧ InCInt (total - 1) ∧ InCInt rssi

theorem length_fmtInt_next {x : Int} (fits : InCInt (x - 1)) : (fmtInt x).length ≤ 11 := by
  have digits : (fmtNat 10 x.natAbs).length ≤ 10 := by
    apply length_fmtNat_le (by decide) (by decide)
    obtain ⟨low, high⟩ := fits
    omega
  unfold fmtInt
  split
  · simp only [List.length_cons]
    omega
  · omega

/-- A B-off is read as one, whatever its counts are read as. -/
theorem boffLine_reads (link : Nat) {lid : Int} (lost total rssi : Int) (hlid : 0 ≤ lid) :
    ∃ lost' total', signalOf link (boffLine lid lost total rssi) = some (.boff link lost' total') := by
  have skip : (ascii "LOSS=" ++ boffTail lost total rssi).drop 5 =
      fmtInt lost ++ (0x2F :: (fmtInt total ++ (ascii " RSSI=" ++ fmtInt rssi))) := rfl
  have slash : Stops 10 (0x2F :: (fmtInt total ++ (ascii " RSSI=" ++ fmtInt rssi))) := by
    intro c member
    obtain rfl : 0x2F = c := by simpa using member
    rfl
  have blank : Stops 10 (ascii " RSSI=" ++ fmtInt rssi) := by
    intro c member
    obtain rfl : 0x20 = c := by simpa [ascii] using member
    rfl
  have parsed : ∃ lost' total', parseBoff (boffLine lid lost total rssi) = some (lost', total') := by
    refine ⟨longToInt (decide (lost < 0)) lost.natAbs, longToInt (decide (total < 0)) total.natAbs, ?_⟩
    have second := scanInt_fmtInt_longToInt total blank
    simp only [parseBoff, strstr_loss_boffLine hlid, Option.bind_eq_bind, Option.bind_some, skip,
      scanInt_fmtInt_longToInt lost slash]
    exact (congrArg (fun scanned => scanned.bind fun a : Int × List Byte =>
      some (longToInt (decide (lost < 0)) lost.natAbs, a.1)) second).trans rfl
  obtain ⟨lost', total', parsed⟩ := parsed
  exact ⟨lost', total', by simp [signalOf, strstr_bee_boffLine hlid, strstr_loss_boffLine hlid, parsed]⟩

theorem reads_back {signal : Signal} (tellable : signal.Tellable) {lid user : Int} (hlid : 0 ≤ lid) (lidFits : lid < 2 ^ 31)
    (huser : 0 ≤ user) (userFits : user < 1000) (link : Nat) :
    ∃ line call, signal.built lid user = line ++ [0x0A] ∧ IsLine line ∧ line.length < 128 ∧
      signalOf link line = some call ∧ signal.Reads link call := by
  cases signal with
  | bon radio peer srcLid tgid callType =>
    have sendable : (bon radio peer srcLid tgid callType).Sendable := tellable
    obtain ⟨line, built, isLine, short, back⟩ := read_back sendable hlid lidFits huser userFits
    exact ⟨line, _, built, isLine, short, back link, rfl⟩
  | boff lost total rssi =>
    obtain ⟨hlost, htotal, hrssi⟩ := tellable
    obtain ⟨lost', total', back⟩ := boffLine_reads link lost total rssi hlid
    refine ⟨boffLine lid lost total rssi, _, buildBoff_eq .., isLine_boffLine hlid, ?_, back, lost', total', rfl⟩
    have first : (fmtPadded 2 lid).length ≤ 10 := length_fmtPadded_le hlid (by decide) (by decide) (by omega)
    have losts := length_fmtInt hlost
    have totals := length_fmtInt_next htotal
    have rssis := length_fmtInt hrssi
    have text : (ascii "B").length = 1 ∧ (ascii "00000  ").length = 7 ∧ (ascii "LOSS=").length = 5 ∧ (ascii "/").length = 1 ∧
        (ascii " RSSI=").length = 6 := by decide
    simp only [boffLine, boffTail, List.length_append, text]
    omega

end Signal

section Near
variable {w : World} {i : Nat}

/-- Signals on an UP link are lines, each read as its signal. -/
theorem written_tellable (up : (w.links i).state = .up) (hlid : 0 ≤ (w.cfg.linkAt i).ccLid)
    (lidFits : (w.cfg.linkAt i).ccLid < 2 ^ 31) (signals : List Signal) (tellable : ∀ x ∈ signals, x.Tellable) (link : Nat) :
    ∃ (lines : List (List Byte)) (calls : List TrCall), (w.messages (signals.map (Signal.out i))).flatMap (Out.bytesTo i) = (lines.map (· ++ [0x0A])).flatten ∧
      (w.messages (signals.map (Signal.out i))).filterMap (Out.voiceTo i) = [] ∧
      (∀ line ∈ lines, IsLine line ∧ line.length + 1 < rxbufCap) ∧ lines.filterMap (signalOf link) = calls ∧
      List.Forall₂ (Signal.Reads link) signals calls := by
  induction signals generalizing w with
  | nil => exact ⟨[], [], rfl, rfl, by simp, rfl, .nil⟩
  | cons signal signals ih =>
    have core := core_perform w (signal.out i)
    have links := links_of_core core
    have cfg := cfg_of_core core
    obtain ⟨lines, calls, written, quiet, fit, read, same⟩ := ih (w := w.perform (signal.out i)) (by rw [links]; exact up)
      (by rw [cfg]; exact hlid) (by rw [cfg]; exact lidFits) fun x member => tellable x (by simp [member])
    obtain ⟨user, msg, huser, userFits, wrote⟩ := perform_signal up signal
    obtain ⟨line, call, built, isLine, short, back, reads⟩ :=
      Signal.reads_back (tellable signal (by simp)) hlid lidFits huser userFits link
    refine ⟨line :: lines, call :: calls, ?_, ?_, ?_, ?_, .cons reads same⟩
    · rw [List.map_cons, messages_cons, wrote, List.flatMap_append, written, built]
      simp [Out.bytesTo]
    · rw [List.map_cons, messages_cons, wrote, List.filterMap_append, quiet]
      rfl
    · intro l member
      rcases List.mem_cons.mp member with rfl | later
      · exact ⟨isLine, by simp only [rxbufCap]; omega⟩
      · exact fit l later
    · rw [List.filterMap_cons_some back, read]

/-- What an announcement puts on the wire, and the voice datagram it may be. -/
theorem Announces.written {body : DmrdBody} {starts open_ open' : Bool} {signals : List Signal} {voices : List TrOut}
    (said : Announces (w.cfg.linkAt i) i body starts open_ signals voices open') {v : World} (here : v.core = w.core)
    (up : (w.links i).state = .up) (lid : 0 ≤ (w.cfg.linkAt i).ccLid ∧ (w.cfg.linkAt i).ccLid ≤ 99)
    (tgid : 0 ≤ (w.cfg.linkAt i).tgid ∧ (w.cfg.linkAt i).tgid < 2 ^ 31) (link : Nat) :
    ∃ (lines : List (List Byte)) (calls : List TrCall), (v.messages (signals.map (Signal.out i) ++ voices)).flatMap (Out.bytesTo i) =
        (lines.map (· ++ [0x0A])).flatten ∧
      (∀ line ∈ lines, IsLine line ∧ line.length + 1 < rxbufCap) ∧ lines.filterMap (signalOf link) = calls ∧
      List.Forall₂ (Signal.Reads link) signals calls ∧
      ∀ bytes ∈ (v.messages (signals.map (Signal.out i) ++ voices)).filterMap (Out.voiceTo i),
        ∃ seq timestamp marker, isBurst body = true ∧ bytes = buildVoice seq timestamp (w.links i).syncSource marker
          (ccccAmbePack21 (extractAmbe body.payload)) := by
  have zero : InCInt 0 := by simp [InCInt]
  have bon : (Signal.bon body.src body.netid (w.cfg.linkAt i).ccLid (w.cfg.linkAt i).tgid ccccCallTypeGroup).Tellable :=
    ⟨lid, tgid, by decide⟩
  -- without a voice packet it is the signals' lines
  have signalled : ∀ signals : List Signal, (∀ x ∈ signals, x.Tellable) → ∃ (lines : List (List Byte)) (calls : List TrCall),
      (v.messages (signals.map (Signal.out i) ++ [])).flatMap (Out.bytesTo i) = (lines.map (· ++ [0x0A])).flatten ∧
      (∀ line ∈ lines, IsLine line ∧ line.length + 1 < rxbufCap) ∧ lines.filterMap (signalOf link) = calls ∧
      List.Forall₂ (Signal.Reads link) signals calls ∧
      ∀ bytes ∈ (v.messages (signals.map (Signal.out i) ++ [])).filterMap (Out.voiceTo i),
        ∃ seq timestamp marker, isBurst body = true ∧ bytes = buildVoice seq timestamp (w.links i).syncSource marker
          (ccccAmbePack21 (extractAmbe body.payload)) := by
    intro signals tellable
    obtain ⟨lines, calls, bytes, quiet, fit, read, same⟩ := written_tellable (w := v) (i := i) (links_of_core here ▸ up)
      (by rw [cfg_of_core here]; exact lid.1) (by rw [cfg_of_core here]; omega) signals tellable link
    rw [List.append_nil]
    refine ⟨lines, calls, bytes, fit, read, same, fun bytes member => ?_⟩
    rw [quiet] at member
    cases member
  cases said with
  | voice burst seq timestamp marker =>
    have wrote := writes_voice here up seq timestamp marker (ccccAmbePack21 (extractAmbe body.payload))
    have all : v.messages [.ccccSendVoice i seq timestamp marker (ccccAmbePack21 (extractAmbe body.payload))] =
        [w.voiceTo i seq timestamp marker (ccccAmbePack21 (extractAmbe body.payload))] := by
      rw [← wrote]
      refine (List.filter_eq_self.mpr fun o member => ?_).symm
      obtain ⟨t, -, writes⟩ := mem_messages v member
      cases writes <;> rfl
    refine ⟨[], [], ?_, by simp, rfl, .nil, ?_⟩
    · rw [List.map_nil, List.nil_append, all]
      rfl
    · intro bytes member
      rw [List.map_nil, List.nil_append, all] at member
      simp only [World.voiceTo, List.filterMap_cons, Out.voiceTo, if_true, List.filterMap_nil, List.mem_singleton] at member
      exact ⟨seq, timestamp, marker, burst, member⟩
  | nothing => exact signalled [] (by simp)
  | starts => exact signalled _ (List.forall_mem_singleton.mpr bon)
  | ends total fits => exact signalled _ (List.forall_mem_singleton.mpr ⟨zero, fits, zero⟩)
  | orphans total fits =>
    exact signalled _ (List.forall_mem_cons.mpr ⟨⟨zero, fits, zero⟩, List.forall_mem_singleton.mpr bon⟩)

end Near

/-! ## What the far end makes of it -/

section Far
variable {w : World} {tr : Translator} {j q : Nat} {open_ open' : Bool}

theorem OpenTo.signals (opens : ∀ now, OpenTo (w.env now) j q) {calls : List TrCall} {events : List (Env × TrEvent)}
    (handled : Events w calls events) (from_ : FromCc (tr.link j) open_) (turns : Alternates j open_ calls open')
    (callers : ∀ radio ∈ calls.filterMap TrCall.caller, radio.toNat < 2 ^ 24) :
    let after := Machine.run envStep tr events
    FromCc (after.1.link j) open' ∧ ∃ bodies : List DmrdBody, after.2 = bodies.map (TrOut.obpSendDmrd j q) ∧
      (∀ body ∈ bodies, isBurst body = false) ∧ bodies.filterMap headSrc = calls.filterMap TrCall.caller := by
  induction handled generalizing tr open_ with
  | nil =>
    cases turns
    exact ⟨from_, [], rfl, by simp, rfl⟩
  | @cons call e calls events here _ ih =>
    obtain ⟨now, rand, rfl⟩ := here
    have split : Alternates j open_ ([call] ++ calls) open' := turns
    obtain ⟨middle, turn, later⟩ := split.split
    have caller : ∀ radio ∈ call.caller, radio.toNat < 2 ^ 24 := by
      intro radio member
      exact callers radio (List.mem_filterMap.mpr ⟨call, by simp, member⟩)
    obtain ⟨next, body, sent, signal, head⟩ := (opens now).signal from_ turn caller rand
    obtain ⟨last, bodies, rest, signals, heads⟩ := ih next later fun radio member => by
      obtain ⟨call', inside, named⟩ := List.mem_filterMap.mp member
      exact callers radio (List.mem_filterMap.mpr ⟨call', by simp [inside], named⟩)
    refine ⟨last, body :: bodies, ?_, List.forall_mem_cons.mpr ⟨signal, signals⟩, ?_⟩
    · rw [Machine.run_cons, envStep, sent, rest]
      rfl
    · rw [List.filterMap_cons, List.filterMap_cons, heads, head]

/-- The frames of the calls are those of one link, whole calls up to the one in progress. -/
theorem tracked_events {frames : List DmrdBody} {calls : List TrCall} {events : List (Env × TrEvent)}
    (handled : Events w calls events) (resolved : Resolved w.cfg tr)
    (tracked : CcTracked (w.cfg.linkAt j) (tr.link j) frames) :
    let after := Machine.run envStep tr events
    CcTracked (w.cfg.linkAt j) (after.1.link j) (frames ++ framesFor j after.2) := by
  induction handled generalizing tr frames with
  | nil => simpa [framesFor] using tracked
  | @cons call e calls events here _ ih =>
    obtain ⟨now, rand, rfl⟩ := here
    have next := (translatorStep_link (w.env now) (call.event rand) resolved j).tracked rfl tracked (framesFor_linkOut j _)
    have rest := ih (translatorStep_resolved (w.env now) (call.event rand) tr resolved) next
    simp only [Machine.run_cons, framesFor_append, ← List.append_assoc]
    exact rest

theorem framesFor_sent (bodies : List DmrdBody) : framesFor j (bodies.map (TrOut.obpSendDmrd j q)) = bodies := by
  rw [framesFor, List.filterMap_map]
  exact (List.filterMap_congr fun body _ => by simp [TrOut.frameFor]).trans List.filterMap_some

/-- They leave by the peer's socket. -/
theorem wireFrames_sent {log : List Out} {bodies : List DmrdBody} (bound : q < w.cfg.nOpenbridge ∧ 0 ≤ w.obpFd q)
    (sent : log.filter Out.isDmrd = (bodies.map (TrOut.obpSendDmrd j q)).flatMap w.datagram) :
    wireFrames j q log = bodies.map (outgoingBody (w.cfg.openbridgeAt q)) := by
  have only : wireFrames j q (log.filter Out.isDmrd) = wireFrames j q log := by
    rw [wireFrames, wireFrames, List.filterMap_filter]
    refine List.filterMap_congr fun o _ => ?_
    cases o with
    | udp fd msg bytes dst port => cases msg <;> rfl
    | _ => rfl
  have messages := messages_frames w (bodies.map (TrOut.obpSendDmrd j q)) (by simp [TrOut.isCc])
  have frames : framesOn j q (bodies.map (TrOut.obpSendDmrd j q)) = bodies := by
    rw [framesOn, List.filterMap_map]
    exact (List.filterMap_congr fun body _ => by simp [TrOut.frameOn]).trans List.filterMap_some
  rw [← only, sent, ← messages, wireFrames_messages, if_pos bound, frames]

/-- A voice datagram of the link is a call with what it carries. -/
theorem onVoiceReadable_voice {ssrc : BitVec 32} {srcIp : List Byte} (known : findLinkBySsrc w ssrc = some j)
    (remote : srcIp = (w.cfg.linkAt j).ccRemoteIp) (c : Ctx) (srcPort : Int) (seq : BitVec 16) (timestamp : BitVec 32)
    (marker : Bool) (ambe21 : Bytes 21) :
    onVoiceReadable c (buildVoice seq timestamp ssrc marker ambe21) srcIp srcPort w =
      w.emit (.call (.voice j seq timestamp marker ambe21)) := by
  have length : (buildVoice seq timestamp ssrc marker ambe21).length = 33 := by simp [buildVoice, wr16, wr32]
  have whole : (buildVoice seq timestamp ssrc marker ambe21).take 256 = buildVoice seq timestamp ssrc marker ambe21 :=
    List.take_of_length_le (by omega)
  have source : rdAt32 (buildVoice seq timestamp ssrc marker ambe21) 8 = ssrc := by
    simp [rdAt32, buildVoice, wr16, wr32, rd32_wr32]
  have pt : (buildVoice seq timestamp ssrc marker ambe21).getD 1 0 &&& 0x7F = ccccRtpPtVoice := by
    have second : (buildVoice seq timestamp ssrc marker ambe21).getD 1 0 =
        ccccRtpPtVoice ||| (if marker then ccccRtpMarkerBit else 0) := rfl
    rw [second]
    cases marker <;> decide
  have mark : ((buildVoice seq timestamp ssrc marker ambe21).getD 1 0 &&& 0x80 != 0) = marker :=
    marker_buildVoice seq timestamp ssrc marker ambe21
  have here : datagramLink w (buildVoice seq timestamp ssrc marker ambe21) srcIp = some j := by
    simp [datagramLink, source, known, remote]
  have audio : ofList 21 ((buildVoice seq timestamp ssrc marker ambe21).drop ccccRtpHdrLen) = ambe21 := ofList_toList ambe21
  have lengths : ¬(33 : Nat) < 2 ∧ ¬(33 : Nat) = ccccKeepaliveLen := by decide
  simp only [onVoiceReadable, whole, length, lengths.1, lengths.2, pt, mark, here, audio, rdAt16_buildVoice, rdAt32_buildVoice,
    if_false, false_and, ccccRtpPktLen, and_self, if_true]

end Far

/-! ## The two ends together -/

section Core
variable {v w : World}

theorem fromPeer_of_core (here : v.core = w.core) (q : Nat) : v.fromPeer q = w.fromPeer q := by
  obtain ⟨cfg, -, -, -, -, -, -, -, obpFd, -⟩ := (core_eq_iff _ _).mp here
  funext datagram
  simp [World.fromPeer, cfg, obpFd]

theorem core_setLink (here : v.core = w.core) (j : Nat) (lk : CcLink) : (v.setLink j lk).core = (w.setLink j lk).core := by
  obtain ⟨cfg, loop, openFds, voiceFd, trialFd, listenFd, links, pending, obpFd, obpActive⟩ := (core_eq_iff _ _).mp here
  refine (core_eq_iff _ _).mpr ⟨cfg, loop, openFds, voiceFd, trialFd, listenFd, ?_, pending, obpFd, obpActive⟩
  simp [World.setLink, links]

end Core

/-- The world with another receive buffer on a link. -/
def World.buffering (w : World) (j : Nat) (rx : List Byte) : World := w.setLink j { w.links j with rxbuf := rx }

/-- A chunk on an UP link changes nothing but what is buffered. -/
theorem System.Receiving.step_core {s : System} {j : Nat} {fd : Int} {rx : List Byte} (receiving : s.Receiving j fd rx)
    (c : Ctx) (data : List Byte) : (s.step (c, .readable fd (.recv (.data data)))).1.world.core =
      (s.world.buffering j (cut rxbufCap rx data).2).core := by
  obtain ⟨up, rfl, nonneg, registered⟩ := receiving
  have reads : World.readable c fd (.recv (.data data)) s.world.unlogged =
      feedBytes (linkBuffer j) rxbufCap (linkOnLine c j) data s.world.unlogged := by
    have registered' : FdTable.lookup s.world.unlogged.loop.fds fd = some (.link j) := registered
    unfold World.readable
    rw [if_neg (by omega)]
    simp only [registered', onLinkTcpReadable]
  rw [feedBytes_up c j data s.world.unlogged up] at reads
  have core := core_callback c (World.readable c fd (.recv (.data data))) s.cleared
  rw [show s.cleared.world.unlogged = s.world.unlogged from rfl, reads] at core
  exact core

/-- Where the two ends stand: what was heard at the near end is what was told at the far end and what
is still on its way. -/
structure Standing (t : Joint) (a b : System) (log : List Seen) (st : Joined) : Prop where
  near : st.a.world.core = a.world.core
  idle : (st.a.tr.link t.i).inCall .cc = false
  fits : SlotFits (st.a.tr.link t.i)
  sound : System.Sound st.b
  far : st.b.world.core = (b.world.buffering t.j (st.b.world.links t.j).rxbuf).core
  whole : (st.pending t).2 = []
  turns : ∃ open_, FromCc (st.b.tr.link t.j) open_ ∧
    Alternates t.j open_ (st.pending t).1 ((st.a.tr.link t.i).inCall .obp)
  callers : log.filterMap Seen.started = log.filterMap Seen.opened ++ (st.pending t).1.filterMap TrCall.caller
  audio : ∀ bytes ∈ st.sent, ∃ seq timestamp marker starts body, isBurst body = true ∧ .heard starts body ∈ log ∧
    bytes = buildVoice seq timestamp (b.world.links t.j).syncSource marker (ccccAmbePack21 (extractAmbe body.payload))
  tracked : ∃ handed, log.filterMap Seen.frame = handed.map (outgoingBody (b.world.cfg.openbridgeAt t.q)) ∧
    CcTracked (b.world.cfg.linkAt t.j) (st.b.tr.link t.j) handed
  answered : Answered log

section Ends
variable {t : Joint} {tgid tgid' : Nat} {a b : System} {log : List Seen} {st : Joined}

theorem src_lt (body : DmrdBody) : body.src.toNat < 2 ^ 24 := by
  have first := body[5].isLt
  have second := body[6].isLt
  have third := body[7].isLt
  rw [DmrdBody.src, rd24, BitVec.toNat_or, BitVec.toNat_or]
  refine Nat.or_lt_two_pow (Nat.or_lt_two_pow ?_ ?_) ?_
  · simp only [BitVec.toNat_shiftLeft, BitVec.toNat_setWidth, Nat.shiftLeft_eq]
    omega
  · simp only [BitVec.toNat_shiftLeft, BitVec.toNat_setWidth, Nat.shiftLeft_eq]
    omega
  · simp only [BitVec.toNat_setWidth]
    omega

/-- Every caller that started a call is a 24-bit number. -/
theorem started_lt {log : List Seen} {radio : BitVec 32} (member : radio ∈ log.filterMap Seen.started) :
    radio.toNat < 2 ^ 24 := by
  obtain ⟨seen, -, named⟩ := List.mem_filterMap.mp member
  unfold Seen.started at named
  split at named
  next body =>
    obtain rfl := Option.some.inj named
    exact src_lt body
  · cases named

theorem bytesTo_writesOf (i : Nat) (log : List Out) : (writesOf log).flatMap (Out.bytesTo i) = log.flatMap (Out.bytesTo i) := by
  induction log with
  | nil => rfl
  | cons o log ih =>
    cases o with
    | call call =>
      rw [List.flatMap_cons, ← ih]
      rfl
    | tcp link fd msg bytes => exact congrArg (Out.bytesTo i (.tcp link fd msg bytes) ++ ·) ih
    | udp fd msg bytes ip port => exact congrArg (Out.bytesTo i (.udp fd msg bytes ip port) ++ ·) ih

theorem voiceTo_writesOf (i : Nat) (log : List Out) : (writesOf log).filterMap (Out.voiceTo i) = log.filterMap (Out.voiceTo i) := by
  rw [writesOf, List.filterMap_filter]
  refine List.filterMap_congr fun o _ => ?_
  cases o <;> rfl

/-- A frame at the near end. -/
theorem Standing.heard (standing : Standing t a b log st) (joined : JoinedBy t tgid tgid' a b)
    (listening : Listening a.world t.i t.p) (wide : tgid < 2 ^ 31) (c : Ctx) {body : DmrdBody}
    (frame : (Hop.frame c body).ForTalkgroup tgid) :
    Standing t a b (log ++ (st.near t c body).2) (st.near t c body).1 := by
  obtain ⟨magic, slot, scope, dst⟩ := frame
  have cfg := cfg_of_core standing.near
  obtain ⟨core, tr, written⟩ := listening.hears standing.near c (o := a.world.cfg.openbridgeAt t.p) rfl magic slot
  have admitted := listening.admits c.now body scope (by rw [dst, joined.near.tgid])
  obtain ⟨idle, fits, signals, voices, outs, said⟩ := admitted.announces standing.idle standing.fits
  obtain ⟨lines, calls, wire, fit, read, same, audio⟩ := said.written standing.near joined.near.up joined.lid
    (by rw [joined.near.tgid]; omega) t.j
  rw [outs] at written
  obtain ⟨alternates, callers⟩ := said.alternates same
  -- the event, as the system is in at the start
  have event : st.a.world.fromPeer t.p (signDmrd (st.a.world.cfg.openbridgeAt t.p) body) =
      a.world.fromPeer t.p (signDmrd (a.world.cfg.openbridgeAt t.p) body) := by
    rw [fromPeer_of_core standing.near, cfg]
  obtain ⟨next, stepped⟩ : ∃ next, st.near t c body = next := ⟨_, rfl⟩
  have after : next = ({ st with
      a := (st.a.step (c, a.world.fromPeer t.p (signDmrd (a.world.cfg.openbridgeAt t.p) body))).1
      wire := st.wire ++ (lines.map (· ++ [0x0A])).flatten
      sent := st.sent ++ (st.a.world.messages (signals.map (Signal.out t.i) ++ voices)).filterMap (Out.voiceTo t.i) },
      [.heard (startsCall (st.a.tr.link t.i) body) body]) := by
    have unfolded : st.near t c body = ({ st with
        a := (st.a.step (c, st.a.world.fromPeer t.p (signDmrd (st.a.world.cfg.openbridgeAt t.p) body))).1
        wire := st.wire ++ (st.a.step (c, st.a.world.fromPeer t.p (signDmrd (st.a.world.cfg.openbridgeAt t.p) body))).2.flatMap
          (Out.bytesTo t.i)
        sent := st.sent ++ (st.a.step (c, st.a.world.fromPeer t.p (signDmrd (st.a.world.cfg.openbridgeAt t.p) body))).2.filterMap
          (Out.voiceTo t.i) },
        [.heard (startsCall (st.a.tr.link t.i) body) body]) := rfl
    rw [← stepped, unfolded, event, ← bytesTo_writesOf, ← voiceTo_writesOf, written, bytesTo_writesOf, voiceTo_writesOf, wire]
  have pending : (next.1).pending t = ((st.pending t).1 ++ calls, []) := by
    have rest := standing.whole
    simp only [Joined.pending] at rest ⊢
    rw [after]
    simp only [cut_append, rest, cut_lines rxbufCap lines fit, List.filterMap_append, read]
  rw [stepped]
  obtain ⟨open_, from_, turns⟩ := standing.turns
  constructor
  case near => rw [after]; exact core
  case idle => rw [after]; exact tr ▸ idle
  case fits => rw [after]; exact tr ▸ fits
  case sound => rw [after]; exact standing.sound
  case far => rw [after]; exact standing.far
  case whole => rw [pending]
  case turns =>
    refine ⟨open_, ?_, ?_⟩
    · rw [after]
      exact from_
    · rw [pending, after]
      exact turns.append (tr ▸ alternates)
  case callers =>
    have starts : ∀ starts, [Seen.heard starts body].filterMap Seen.started = if starts then [body.src] else [] := by
      rintro (_ | _) <;> rfl
    have opens : ∀ starts, [Seen.heard starts body].filterMap Seen.opened = [] := fun _ => rfl
    rw [pending, List.filterMap_append, List.filterMap_append, List.filterMap_append, callers, standing.callers, after, starts,
      opens, List.append_nil, List.append_assoc]
  case audio =>
    intro bytes member
    rw [after] at member ⊢
    rcases List.mem_append.mp member with old | new
    · obtain ⟨seq, timestamp, marker, starts, source, burst, heard, same⟩ := standing.audio bytes old
      exact ⟨seq, timestamp, marker, starts, source, burst, List.mem_append_left _ heard, same⟩
    · obtain ⟨seq, timestamp, marker, burst, same⟩ := audio bytes new
      refine ⟨seq, timestamp, marker, _, body, burst, List.mem_append_right _ (List.mem_singleton_self _), ?_⟩
      rw [joined.source]
      exact same
  case tracked =>
    obtain ⟨handed, frames, tracked⟩ := standing.tracked
    rw [after]
    refine ⟨handed, ?_, tracked⟩
    rw [List.filterMap_append, frames]
    exact List.append_nil _
  case answered =>
    rw [after]
    exact standing.answered.append (by simp)

/-- The far end's link in a world with the same tables and settings. -/
theorem Standing.receiving (standing : Standing t a b log st) (joined : JoinedBy t tgid tgid' a b) :
    st.b.Receiving t.j t.fd (st.b.world.links t.j).rxbuf := by
  obtain ⟨up, -, nonneg, registered⟩ := joined.receiving
  obtain ⟨-, loop, -, -, -, -, links, -⟩ := (core_eq_iff _ _).mp standing.far
  constructor
  case up =>
    rw [links]
    simpa [World.buffering, World.setLink] using up
  case rxbuf => rfl
  case nonneg => exact nonneg
  case registered =>
    rw [loop]
    exact registered

theorem Standing.opens (standing : Standing t a b log st) (joined : JoinedBy t tgid tgid' a b) (now : Rat) :
    OpenTo (st.b.world.env now) t.j t.q := by
  have same : st.b.world.env now = b.world.env now := env_of_core standing.far now
  rw [same]
  exact ⟨joined.far.enabled, joined.far.gate now, joined.far.peer⟩

/-- What the far end's translator does for some calls: frames of its link, whose callers and audio are accounted for. -/
def Accounts (t : Joint) (log : List Seen) (st : Joined) (left : List TrCall) (after : Translator × List TrOut) : Prop :=
  ∃ (open_ : Bool) (bodies : List DmrdBody), after.2 = bodies.map (TrOut.obpSendDmrd t.j t.q) ∧
    FromCc (after.1.link t.j) open_ ∧ Alternates t.j open_ left ((st.a.tr.link t.i).inCall .obp) ∧
    bodies.filterMap headSrc ++ left.filterMap TrCall.caller = (st.pending t).1.filterMap TrCall.caller ∧
    ∀ body ∈ bodies, isBurst body = true → ∃ starts source, .heard starts source ∈ log ∧ isBurst source = true ∧
      extractAmbe body.payload = extractAmbe source.payload

/-- An event of the far end that makes such calls. -/
theorem Standing.advance (standing : Standing t a b log st) (joined : JoinedBy t tgid tgid' a b) (sound : System.Sound b)
    (c : Ctx) (e : System.Event) (noTick : ∀ fresh, e ≠ .tick fresh) (wire rx : List Byte) {calls left : List TrCall}
    {lines : List (List Byte)} (made : (st.b.step (c, e)).2.filterMap Out.trCall = calls)
    (mux : ∀ call ∈ calls, call.isFrame = false)
    (core : (st.b.step (c, e)).1.world.core = (st.b.world.buffering t.j rx).core)
    (whole : cut rxbufCap rx wire = (lines, [])) (onWire : lines.filterMap (signalOf t.j) = left)
    (accounts : ∀ events, Events st.b.world calls events → Accounts t log st left (Machine.run envStep st.b.tr events)) :
    Standing t a b (log ++ (Joined.far t c e { st with wire }).2) (Joined.far t c e { st with wire }).1 := by
  obtain ⟨cfg, -, -, -, -, -, links, -, obpFd, -⟩ := (core_eq_iff _ _).mp standing.far
  have cfg' : st.b.world.cfg = b.world.cfg := cfg
  have obpFd' : st.b.world.obpFd = b.world.obpFd := obpFd
  obtain ⟨events, handled, tr, sent⟩ := System.step_datagrams standing.sound c e noTick (made ▸ mux)
  rw [made] at handled
  obtain ⟨open_, bodies, outs, from_, turns, callers, audio⟩ := accounts events handled
  -- what leaves by the peer's socket, and how it continues what left before
  have bound : t.q < st.b.world.cfg.nOpenbridge ∧ 0 ≤ st.b.world.obpFd t.q := by
    rw [cfg', obpFd']
    exact joined.far.socket sound
  rw [outs] at sent
  have frames := wireFrames_sent bound sent
  rw [cfg'] at frames
  have tracks : ∀ handed, CcTracked (b.world.cfg.linkAt t.j) (st.b.tr.link t.j) handed →
      CcTracked (b.world.cfg.linkAt t.j) ((st.b.step (c, e)).1.tr.link t.j) (handed ++ bodies) := by
    intro handed tracked
    rw [← cfg'] at tracked ⊢
    have next := tracked_events handled standing.sound.calls.resolved tracked
    simp only [outs, framesFor_sent] at next
    rw [tr]
    exact next
  have opened : ((bodies.map (outgoingBody (b.world.cfg.openbridgeAt t.q))).map Seen.told).filterMap Seen.opened =
      bodies.filterMap headSrc := by
    rw [List.filterMap_map, List.filterMap_map]
    refine List.filterMap_congr fun body _ => ?_
    simp [Seen.opened, headSrc]
  have silent : ∀ bodies : List DmrdBody, (bodies.map Seen.told).filterMap Seen.started = [] := by
    intro bodies
    exact List.filterMap_eq_nil_iff.mpr fun seen member => by
      obtain ⟨body, -, rfl⟩ := List.mem_map.mp member
      rfl
  have framed : ∀ bodies : List DmrdBody, (bodies.map Seen.told).filterMap Seen.frame = bodies := by
    intro bodies
    rw [List.filterMap_map]
    exact List.filterMap_some
  obtain ⟨next, stepped⟩ : ∃ next, st.b.step (c, e) = next := ⟨_, rfl⟩
  have unfolded : Joined.far t c e { st with wire } = ({ st with wire, b := next.1 },
      (bodies.map (outgoingBody (b.world.cfg.openbridgeAt t.q))).map .told) := by
    rw [← frames, ← stepped]
    rfl
  rw [stepped] at core tr tracks
  obtain ⟨-, -, -, -, -, -, links', -⟩ := (core_eq_iff _ _).mp core
  have buffered : (next.1.world.links t.j).rxbuf = rx := by rw [links']; simp [World.buffering, World.setLink]
  have pending : Joined.pending t { st with wire, b := next.1 } = (left, []) := by
    simp only [Joined.pending, buffered, whole, onWire]
  rw [unfolded]
  constructor
  case near => exact standing.near
  case idle => exact standing.idle
  case fits => exact standing.fits
  case sound => exact stepped ▸ standing.sound.step c e
  case far =>
    have again := core_setLink standing.far t.j { st.b.world.links t.j with rxbuf := rx }
    rw [buffered, core, World.buffering, again, links]
    simp [World.buffering, World.setLink]
  case whole => rw [pending]
  case turns =>
    rw [pending]
    exact ⟨open_, tr ▸ from_, turns⟩
  case callers =>
    rw [pending, List.filterMap_append, List.filterMap_append, opened, silent, standing.callers, ← callers, List.append_nil,
      List.append_assoc]
  case audio =>
    intro bytes member
    obtain ⟨seq, timestamp, marker, starts, body, burst, heard, same⟩ := standing.audio bytes member
    exact ⟨seq, timestamp, marker, starts, body, burst, List.mem_append_left _ heard, same⟩
  case tracked =>
    obtain ⟨handed, before, tracked⟩ := standing.tracked
    refine ⟨handed ++ bodies, ?_, tracks handed tracked⟩
    rw [List.filterMap_append, before, framed, List.map_append]
  case answered =>
    refine standing.answered.append fun body member burst => ?_
    obtain ⟨sent, inside, same⟩ := List.mem_map.mp member
    obtain ⟨handed, inside', rfl⟩ := List.mem_map.mp inside
    obtain rfl := Seen.told.inj same
    obtain ⟨starts, source, heard, burst', audio'⟩ := audio handed inside' (by simpa [isBurst] using burst)
    exact ⟨starts, source, heard, burst', by rw [payload_outgoingBody, audio']⟩

theorem Alternates.notFrame {j : Nat} {first last : Bool} {calls : List TrCall} (alternates : Alternates j first calls last) :
    ∀ call ∈ calls, call.isFrame = false := by
  induction alternates with
  | nil => simp
  | bon radio peer srcLid tgid callType _ ih => exact List.forall_mem_cons.mpr ⟨rfl, ih⟩
  | boff lost total _ ih => exact List.forall_mem_cons.mpr ⟨rfl, ih⟩

/-- A chunk of the control bytes. -/
theorem Standing.controlled (standing : Standing t a b log st) (joined : JoinedBy t tgid tgid' a b)
    (sound : System.Sound b) (c : Ctx) (n : Nat) :
    Standing t a b (log ++ (st.step t (.control c n)).2) (st.step t (.control c n)).1 := by
  have receiving := standing.receiving joined
  have core := receiving.step_core c (st.wire.take n)
  have made := (receiving.step c (st.wire.take n)).1 fun _ _ _ => trCall_writes
  rw [System.lineCalls, trCall_calls] at made
  obtain ⟨⟨lines, rx⟩, now⟩ : ∃ chunk, cut rxbufCap (st.b.world.links t.j).rxbuf (st.wire.take n) = chunk := ⟨_, rfl⟩
  obtain ⟨⟨lines', rest⟩, later⟩ : ∃ left, cut rxbufCap rx (st.wire.drop n) = left := ⟨_, rfl⟩
  rw [now] at core made
  -- the calls that were on their way are those that are made now and those that are left
  have pending : st.pending t = (lines.filterMap (signalOf t.j) ++ lines'.filterMap (signalOf t.j), rest) := by
    rw [Joined.pending]
    conv_lhs => rw [← List.take_append_drop n st.wire, cut_append, now, later]
    simp only [List.filterMap_append]
  have whole := standing.whole
  obtain ⟨open_, from_, turns⟩ := standing.turns
  rw [pending] at whole turns
  obtain rfl : rest = [] := whole
  obtain ⟨middle, first, second⟩ := turns.split
  refine standing.advance joined sound c _ (by simp) (st.wire.drop n) rx made first.notFrame core later rfl ?_
  intro events handled
  have short : ∀ radio ∈ (lines.filterMap (signalOf t.j)).filterMap TrCall.caller, radio.toNat < 2 ^ 24 := by
    intro radio member
    have heard : radio ∈ log.filterMap Seen.started := by
      rw [standing.callers, pending, List.filterMap_append]
      exact List.mem_append_right _ (List.mem_append_left _ member)
    exact started_lt heard
  obtain ⟨from', bodies, outs, signals, heads⟩ := OpenTo.signals (standing.opens joined) handled from_ first short
  refine ⟨middle, bodies, outs, from', second, ?_, fun body member burst => ?_⟩
  · rw [heads, pending, List.filterMap_append]
  · rw [signals body member] at burst
    cases burst

/-- A copy of a voice datagram. -/
theorem Standing.voiced (standing : Standing t a b log st) (joined : JoinedBy t tgid tgid' a b)
    (sound : System.Sound b) (open_ : 0 ≤ b.world.voiceFd) (c : Ctx) (k : Nat) (port : Int) :
    Standing t a b (log ++ (st.step t (.voice c k port)).2) (st.step t (.voice c k port)).1 := by
  cases found : st.sent[k]? with
  | none =>
    have quiet : st.step t (.voice c k port) = (st, []) := by simp [Joined.step, found]
    rw [quiet, List.append_nil]
    exact standing
  | some bytes =>
    obtain ⟨seq, timestamp, marker, starts, source, burst, heard, rfl⟩ := standing.audio bytes (List.mem_of_getElem? found)
    obtain ⟨cfg, -, -, voiceFd, -, -, links, -⟩ := (core_eq_iff _ _).mp standing.far
    -- the far end knows the link by its sync source, and makes one call
    have up : (st.b.world.links t.j).state = .up := (standing.receiving joined).up
    have inside : t.j < st.b.world.cfg.nLink := by
      rw [cfg]
      exact joined.far.inside
    have has : (st.b.world.links t.j).hasSyncSource = true := (standing.sound.wf.links t.j).named.mpr (.inr up)
    have same : (st.b.world.links t.j).syncSource = (b.world.links t.j).syncSource := by
      rw [links]
      simp [World.buffering, World.setLink]
    have known := findLinkBySsrc_only inside has same fun i other has' equal =>
      other (standing.sound.wf.sources i t.j has' has (equal.trans same.symm))
    have nonneg : 0 ≤ st.b.world.voiceFd := by
      rw [voiceFd]
      exact open_
    have registered := (standing.sound.wf.lookup_voice nonneg).mpr rfl
    have reads : World.readable c st.b.world.voiceFd (.datagram (buildVoice seq timestamp (b.world.links t.j).syncSource marker
        (ccccAmbePack21 (extractAmbe source.payload))) (st.b.world.cfg.linkAt t.j).ccRemoteIp port) st.b.world.unlogged =
        st.b.world.unlogged.emit (.call (.voice t.j seq timestamp marker (ccccAmbePack21 (extractAmbe source.payload)))) := by
      have registered' : FdTable.lookup st.b.world.unlogged.loop.fds st.b.world.voiceFd = some .voice := registered
      have known' : findLinkBySsrc st.b.world.unlogged (b.world.links t.j).syncSource = some t.j := known
      unfold World.readable
      rw [if_neg (by omega)]
      simp only [registered']
      exact onVoiceReadable_voice known' rfl c port seq timestamp marker _
    have core := System.core_callback c (World.readable c st.b.world.voiceFd (.datagram (buildVoice seq timestamp
      (b.world.links t.j).syncSource marker (ccccAmbePack21 (extractAmbe source.payload)))
      (st.b.world.cfg.linkAt t.j).ccRemoteIp port)) st.b.cleared
    have made := System.filterMap_callback (fun _ _ _ => trCall_writes) c (World.readable c st.b.world.voiceFd
      (.datagram (buildVoice seq timestamp (b.world.links t.j).syncSource marker (ccccAmbePack21 (extractAmbe source.payload)))
      (st.b.world.cfg.linkAt t.j).ccRemoteIp port)) st.b.cleared
    rw [show st.b.cleared.world.unlogged = st.b.world.unlogged from rfl, reads] at core made
    have step : st.step t (.voice c k port) = Joined.far t c (.readable st.b.world.voiceFd (.datagram (buildVoice seq timestamp
        (b.world.links t.j).syncSource marker (ccccAmbePack21 (extractAmbe source.payload)))
        (st.b.world.cfg.linkAt t.j).ccRemoteIp port)) { st with wire := st.wire } := by
      simp only [Joined.step, found]
    have still : st.b.world.unlogged.core = (st.b.world.buffering t.j (st.b.world.links t.j).rxbuf).core := by
      simp [World.buffering, World.setLink, World.core, World.unlogged]
    have pending : cut rxbufCap (st.b.world.links t.j).rxbuf st.wire =
        ((cut rxbufCap (st.b.world.links t.j).rxbuf st.wire).1, []) := Prod.ext rfl standing.whole
    obtain ⟨open', from_, turns⟩ := standing.turns
    rw [step]
    refine standing.advance joined sound c _ (by simp) st.wire _ made (List.forall_mem_singleton.mpr rfl) (core.trans still)
      pending rfl ?_
    intro events handled
    obtain ⟨e, _, ⟨now, rand, rfl⟩, none, rfl⟩ := List.forall₂_cons_left_iff.mp handled
    obtain rfl := List.forall₂_nil_left_iff.mp none
    obtain ⟨from', silent | ⟨body, sent, notHead, audio⟩⟩ := (standing.opens joined now).voice from_ seq timestamp marker
      (ccccAmbePack21 (extractAmbe source.payload))
    · refine ⟨open', [], ?_, from', turns, rfl, by simp⟩
      rw [Machine.run_cons, Machine.run_nil, List.append_nil]
      exact silent
    · refine ⟨open', [body], ?_, from', turns, ?_, ?_⟩
      · rw [Machine.run_cons, Machine.run_nil, List.append_nil]
        exact sent
      · rw [List.filterMap_cons_none notHead]
        rfl
      · rintro _ member -
        obtain rfl := List.mem_singleton.mp member
        exact ⟨starts, source, heard, burst, by rw [audio, unpack21_pack21]⟩

/-- Two ends that stand idle are in step: nothing was heard and nothing is on its way. -/
theorem JoinedBy.standing (joined : JoinedBy t tgid tgid' a b) (sound : System.Sound b) : Standing t a b [] { a, b } := by
  have idle : ∀ origin, (a.tr.link t.i).inCall origin = false ∧ (b.tr.link t.j).inCall origin = false := by
    intro origin
    simp [LinkRuntime.inCall, joined.near.idle, joined.far.idle]
  have pending : Joined.pending t { a, b } = ([], []) := by
    simp only [Joined.pending, joined.receiving.rxbuf]
    rfl
  constructor
  case near => rfl
  case idle => exact (idle .cc).1
  case fits => exact fun active => absurd active (by simp [(idle .obp).1])
  case sound => exact sound
  case far =>
    have same : b.world.buffering t.j (b.world.links t.j).rxbuf = b.world := by simp [World.buffering, World.setLink]
    exact congrArg World.core same.symm
  case whole => rw [pending]
  case turns =>
    refine ⟨false, fromCc_of_idle joined.far.idle, ?_⟩
    rw [pending, (idle .obp).1]
    exact .nil false
  case callers => rw [pending]; rfl
  case audio => simp
  case tracked => exact ⟨[], rfl, (ccTracked_idle (idle .cc).2).mpr Session.tracks_nil⟩
  case answered => rintro early body late split; simp at split

/-- Nothing is on its way once every control byte is read. -/
theorem Standing.nothing_pending (standing : Standing t a b log st) (read : st.wire = []) :
    log.filterMap Seen.opened = log.filterMap Seen.started := by
  have rest : cut rxbufCap (st.b.world.links t.j).rxbuf [] = ([], (st.b.world.links t.j).rxbuf) := rfl
  have callers := standing.callers
  simp only [Joined.pending, read, rest, List.filterMap_nil, List.append_nil] at callers
  exact callers.symm

end Ends

/-- The calls that leave the far end are those that started at the near end, in order and each a call of its own
whose audio was heard before; none is missing once the far end has read all control bytes. -/
structure Relayed (after : Joined × List Seen) : Prop where
  order : after.2.filterMap Seen.opened <+: after.2.filterMap Seen.started
  all : after.1.wire = [] → after.2.filterMap Seen.opened = after.2.filterMap Seen.started
  bracketed : dmrdCall.Bracketed (after.2.filterMap Seen.frame)
  answered : Answered after.2

/-- The end that connects, with the peer of the other end. -/
def outboundEnd : Config :=
  { tandemCfg 62031 62032 with
    link := [{
      name := ascii "one", enabled := true, crossConnectActive := true, tgid := 9
      openbridgeSystem := ascii "hub", openbridgeIdx := some 0, ccRole := .outbound, ccLid := 1
      ccRemoteIp := ascii "10.0.0.2", ccRemotePort := 42420, ccRemoteVoicePort := 42422 }] }

theorem outboundEnd_rules : outboundEnd.Rules := by
  have rules : (tandemCfg 62031 62032).Rules := tandemCfg_rules ⟨by decide, by decide⟩ ⟨by decide, by decide⟩
  constructor
  case accepted => decide +kernel
  case peers => exact rules.peers
  case links =>
    refine List.forall_mem_singleton.mpr ⟨⟨by decide, by decide⟩, ⟨by decide, by decide⟩, .inr (by decide +kernel), ?_, ?_⟩
    · exact ⟨by decide, by decide⟩
    · exact ⟨by decide, by decide⟩
  case interval => exact rules.interval
  case timeout => exact rules.timeout

/-- It connects as the link the other end is asked for, and gets its answer. -/
def connects : List (Ctx × System.Event) :=
  [({ now := 1, draws := [1] }, .writable 7 true),
    ({ now := 2 }, .readable 7 (.recv (.data (ascii "AMBE\n60\n0 0\ncc2obp\ncc2obp\n0\nLinux\n"))))]

/-- A call of one burst, whose packet arrives twice. -/
def oneBurst : List Hop :=
  [.frame { now := 3 } (streamFrame vheadFlags), .control { now := 4 } 9, .frame { now := 5 } (streamFrame (burstFlags 0)),
    .voice { now := 6 } 0 42422, .control { now := 7 } 100, .voice { now := 8 } 0 42422,
    .frame { now := 9 } (streamFrame vtermFlags), .control { now := 10 } 100]

end Cc2obp
