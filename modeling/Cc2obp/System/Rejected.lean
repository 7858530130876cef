import Cc2obp.System.Live

/-!
# Datagrams that are turned away

A datagram that fails a check of the socket it arrives on leaves nothing behind:
the run goes on as if it had never been sent.
-/
namespace Cc2obp

/-- What the second byte of an RTP header says of the datagram. -/
def payloadType (datagram : List Byte) : Byte := datagram.getD 1 0 &&& 0x7F

/-- A datagram on the voice socket that is none of the two kinds, or has no link to go to, or not
from where it comes. -/
inductive FailsVoice (w : World) (datagram srcIp : List Byte) : Prop where
  | kind
      (notKeepalive : ¬(datagram.length = ccccKeepaliveLen ∧ payloadType datagram = ccccRtpPtKeepalive))
      (notVoice : ¬(datagram.length = ccccRtpPktLen ∧ payloadType datagram = ccccRtpPtVoice))
  | stranger
      (unheld : ∀ i < w.cfg.nLink, ¬((w.links i).hasSyncSource = true ∧ (w.links i).syncSource = rdAt32 datagram 8))
  | source (idx : Nat) (held : findLinkBySsrc w (rdAt32 datagram 8) = some idx)
      (elsewhere : srcIp ≠ (w.cfg.linkAt idx).ccRemoteIp)

theorem findLinkBySsrc_eq_none {w : World} {ssrc : BitVec 32}
    (unheld : ∀ i < w.cfg.nLink, ¬((w.links i).hasSyncSource = true ∧ (w.links i).syncSource = ssrc)) :
    findLinkBySsrc w ssrc = none := by
  rw [findLinkBySsrc, List.find?_eq_none]
  intro i member
  simpa using unheld i (List.mem_range.mp member)

theorem FailsVoice.dropped {w : World} {datagram srcIp : List Byte} (fails : FailsVoice w datagram srcIp)
    (c : Ctx) (srcPort : Int) : onVoiceReadable c datagram srcIp srcPort w = w := by
  have orphan (homeless : datagramLink w datagram srcIp = none) (whole : datagram.take 256 = datagram) :
      onVoiceReadable c datagram srcIp srcPort w = w := by
    simp [onVoiceReadable, whole, homeless]
  by_cases long : 256 < datagram.length
  · -- cut off at the end of the buffer it has the length of neither kind
    have cut : (datagram.take 256).length = 256 := by simp; omega
    simp [onVoiceReadable, cut, ccccKeepaliveLen, ccccRtpPktLen]
  · have whole : datagram.take 256 = datagram := List.take_of_length_le (by omega)
    cases fails with
    | kind notKeepalive notVoice =>
      rw [payloadType] at notKeepalive notVoice
      simp only [onVoiceReadable, whole]
      rw [if_neg notKeepalive, if_neg notVoice, ite_self]
    | stranger unheld =>
      apply orphan _ whole
      rw [datagramLink, findLinkBySsrc_eq_none unheld]
    | source idx held elsewhere =>
      apply orphan _ whole
      simp [datagramLink, held, elsewhere]

namespace System

/-- A datagram that the callback of its descriptor turns away. -/
inductive Rejected (s : System) : Ctx × Event → Prop where
  | dmrd (c : Ctx) (fd : Int) (peer : Nat) (datagram srcIp : List Byte) (srcPort : Int)
      (bound : FdTable.lookup s.world.loop.fds fd = some (.obp peer))
      (fails : FailsDmrd (s.world.cfg.openbridgeAt peer) datagram srcIp srcPort) :
      Rejected s (c, .readable fd (.datagram datagram srcIp srcPort))
  | voice (c : Ctx) (fd : Int) (datagram srcIp : List Byte) (srcPort : Int)
      (bound : FdTable.lookup s.world.loop.fds fd = some .voice)
      (fails : FailsVoice s.world datagram srcIp) :
      Rejected s (c, .readable fd (.datagram datagram srcIp srcPort))

/-- Nothing is written and the state is as before. -/
theorem step_rejected (s : System) (e : Ctx × Event) (rejected : Rejected s e) : s.step e = (s.cleared, []) := by
  suffices quiet : s.cleared.react e.1 e.2 = s.cleared by
    simp only [step, quiet]
    rfl
  have still (c : Ctx) (f : World → World) (same : f s.world.unlogged = s.world.unlogged) :
      s.cleared.callback c f = s.cleared := by
    have twice : s.cleared.world.unlogged = s.world.unlogged := rfl
    simp only [callback, twice, same]
    rfl
  cases rejected with
  | dmrd c fd peer datagram srcIp srcPort bound fails =>
    apply still
    have bound' : FdTable.lookup s.world.unlogged.loop.fds fd = some (.obp peer) := bound
    have dropped : acceptDmrd (s.world.unlogged.cfg.openbridgeAt peer) datagram srcIp srcPort = none := fails.dropped
    unfold World.readable
    simp only [bound', onObpReadable, dropped, ite_self]
  | voice c fd datagram srcIp srcPort bound fails =>
    apply still
    have bound' : FdTable.lookup s.world.unlogged.loop.fds fd = some .voice := bound
    have fails' : FailsVoice s.world.unlogged datagram srcIp := by
      cases fails with
      | kind notKeepalive notVoice => exact .kind notKeepalive notVoice
      | stranger unheld => exact .stranger unheld
      | source idx held elsewhere => exact .source idx held elsewhere
    unfold World.readable
    simp only [bound', fails'.dropped _ srcPort, ite_self]

end System

/-- However many rejected datagrams are inserted into a run, after every event the state is that of the
run without them, and so is everything written so far. -/
theorem rejected_datagrams_pass (s : System) (marked : List (Bool × (Ctx × System.Event)))
    (rejected : Machine.Inserts System.step System.Rejected s marked) (n : Nat) :
    let padded := Machine.run System.step s ((marked.take n).map Prod.snd)
    let plain := Machine.run System.step s (Machine.kept (marked.take n))
    padded.1.cleared = plain.1.cleared ∧ padded.2 = plain.2 := by
  have first : Machine.Inserts System.step System.Rejected s (marked.take n) := by
    have split : marked.take n ++ marked.drop n = marked := List.take_append_drop n marked
    rw [← split] at rejected
    exact ((Machine.meets_append _ _ s _ _).mp rejected).1
  have idem : ∀ s : System, s.cleared.cleared = s.cleared := fun _ => rfl
  exact Machine.run_inserts idem (fun _ _ => rfl) System.step_rejected s (marked.take n) first

/-- An empty datagram on the peer's socket before a connection arrives. -/
def emptyDatagram : List (Bool × (Ctx × System.Event)) :=
  [(true, ({ now := 1 }, .readable 3 (.datagram [] [] 0))),
    (false, ({ now := 2 }, .readable 6 (.accepted [ascii "10.0.0.2"])))]

theorem rejected_datagrams_pass_empty :
    let s := System.start { now := 0 } bridgedCfg
    let padded := Machine.run System.step s ((emptyDatagram.take 2).map Prod.snd)
    let plain := Machine.run System.step s (Machine.kept (emptyDatagram.take 2))
    padded.1.cleared = plain.1.cleared ∧ padded.2 = plain.2 := by
  apply rejected_datagrams_pass
  refine ⟨fun _ => ?_, fun inserted => (nomatch inserted), trivial⟩
  apply System.Rejected.dmrd { now := 1 } 3 0
  · decide +kernel
  · exact .length (by decide)

end Cc2obp
