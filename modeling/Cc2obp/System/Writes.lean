import Cc2obp.System
import Cc2obp.Translate.Steps

/-!
# What the translator's calls write

A call out of the translator writes at most one message and changes nothing a
callback reads. What a link is sent over its CC-CC connection is read off the log
again as the translator's calls.
-/
namespace Cc2obp

/-- The world up to what the translator's calls change: the log and the B-on counters. -/
def World.core (w : World) : World := { w with out := [], userCtr := fun _ => 0 }

section Core
variable (w : World)

@[simp] theorem core_emit (o : Out) : (w.emit o).core = w.core := rfl

theorem core_eq_iff (w w' : World) : w.core = w'.core ↔
    w.cfg = w'.cfg ∧ w.loop = w'.loop ∧ w.openFds = w'.openFds ∧ w.voiceFd = w'.voiceFd ∧
      w.trialFd = w'.trialFd ∧ w.listenFd = w'.listenFd ∧ w.links = w'.links ∧
      w.pending = w'.pending ∧ w.obpFd = w'.obpFd ∧ w.obpActive = w'.obpActive := by
  simp [World.core]

theorem core_perform (o : TrOut) : (w.perform o).core = w.core := by
  cases o with
  | obpSendDmrd => simp only [World.perform, obpSendDmrd]; split <;> rfl
  | ccccSendBon => simp only [World.perform, ccccSendBon]; split <;> rfl
  | ccccSendBoff => simp only [World.perform, ccccSendBoff]; split <;> rfl
  | ccccSendVoice => simp only [World.perform, ccccSendVoice]; split <;> rfl

theorem core_performAll (out : List TrOut) : (out.foldl World.perform w).core = w.core := by
  induction out generalizing w with
  | nil => rfl
  | cons o rest ih => rw [List.foldl_cons, ih, core_perform]

variable {w}

theorem links_of_core {w' : World} (same : w.core = w'.core) : w.links = w'.links :=
  ((core_eq_iff w w').mp same).2.2.2.2.2.2.1

theorem cfg_of_core {w' : World} (same : w.core = w'.core) : w.cfg = w'.cfg :=
  ((core_eq_iff w w').mp same).1

theorem env_of_core {w' : World} (same : w.core = w'.core) (now : Rat) : w.env now = w'.env now := by
  obtain ⟨cfg, -, -, -, -, -, -, -, -, active⟩ := (core_eq_iff w w').mp same
  have enabled : obpPeerIsEnabled w = obpPeerIsEnabled w' := by
    funext peer
    simp [obpPeerIsEnabled, cfg, active]
  simp [World.env, cfg, enabled]

end Core

namespace System

@[simp] theorem core_translate (c : Ctx) (ev : TrEvent) (s : System) :
    (s.translate c ev).world.core = s.world.core :=
  core_performAll _ _

theorem core_replay (c : Ctx) (s : System) (item : Out × Nat) :
    (s.replay c item).world.core = s.world.core := by
  unfold replay
  split <;> simp

theorem core_replayAll (c : Ctx) (items : List (Out × Nat)) (s : System) :
    (items.foldl (replay c) s).world.core = s.world.core := by
  induction items generalizing s with
  | nil => rfl
  | cons item rest ih => rw [List.foldl_cons, ih, core_replay]

/-- Up to the log, a callback does to the world what the protocol module does. -/
theorem core_callback (c : Ctx) (f : World → World) (s : System) :
    (s.callback c f).world.core = (f s.world.unlogged).core := by
  unfold callback
  rw [core_replayAll]
  rfl

end System

/-! ## Messages to a link -/

def TrOut.isCc : TrOut → Bool
  | .obpSendDmrd .. => false
  | _ => true

/-- The call behind a message of a link's CC-CC connection. -/
def Out.sent (i : Nat) : Out → Option TrOut
  | .tcp link _ (.bon radio peer srcLid tgid callType) _ =>
    if link = i then some (.ccccSendBon link radio peer srcLid tgid callType) else none
  | .tcp link _ (.boff lost total rssi) _ =>
    if link = i then some (.ccccSendBoff link lost total rssi) else none
  | .udp _ (.voice link seq timestamp marker ambe21) _ _ _ =>
    if link = i then some (.ccccSendVoice link seq timestamp marker ambe21) else none
  | _ => none

/-- The calls, voice and signalling, that were written to a link. -/
def sentTo (i : Nat) (log : List Out) : List TrOut := log.filterMap (Out.sent i)

@[simp] theorem sentTo_append (i : Nat) (log log' : List Out) :
    sentTo i (log ++ log') = sentTo i log ++ sentTo i log' := by
  simp [sentTo]

/-- The calls for a link's CC-CC side. -/
def ccOut (i : Nat) (out : List TrOut) : List TrOut := (linkOut i out).filter TrOut.isCc

@[simp] theorem ccOut_nil (i : Nat) : ccOut i [] = [] := rfl

theorem ccOut_cons (i : Nat) (o : TrOut) (rest : List TrOut) :
    ccOut i (o :: rest) = (if o.link = i ∧ o.isCc then [o] else []) ++ ccOut i rest := by
  by_cases mine : o.link = i
  · rw [ccOut, linkOut_cons_self i o rest mine]
    cases o <;> simp [TrOut.isCc, TrOut.eraseSeq, ccOut, mine, List.filter_cons]
  · simp [ccOut, linkOut, mine]

theorem sentTo_perform (i : Nat) (w : World) (o : TrOut) :
    sentTo i (w.perform o).out = sentTo i w.out ++
      if o.link = i ∧ o.isCc ∧ (w.links i).state = .up then [o] else [] := by
  cases o with
  | obpSendDmrd link peer body =>
    simp only [World.perform, obpSendDmrd]
    split <;> simp [TrOut.isCc, World.emit, sentTo, Out.sent]
  | ccccSendBon link radio peer srcLid tgid callType =>
    simp only [World.perform, ccccSendBon]
    by_cases here : link = i
    · subst here
      split <;> simp_all [TrOut.isCc, TrOut.link, tcpSend, World.emit, sentTo, Out.sent]
    · split <;> simp [TrOut.link, tcpSend, World.emit, sentTo, Out.sent, here]
  | ccccSendBoff link lost total rssi =>
    simp only [World.perform, ccccSendBoff]
    by_cases here : link = i
    · subst here
      split <;> simp_all [TrOut.isCc, TrOut.link, tcpSend, World.emit, sentTo, Out.sent]
    · split <;> simp [TrOut.link, tcpSend, World.emit, sentTo, Out.sent, here]
  | ccccSendVoice link seq timestamp marker ambe21 =>
    simp only [World.perform, ccccSendVoice]
    by_cases here : link = i
    · subst here
      split <;> simp_all [TrOut.isCc, TrOut.link, udpSendToLink, World.emit, sentTo, Out.sent]
    · split <;> simp [TrOut.link, udpSendToLink, World.emit, sentTo, Out.sent, here]

/-- An UP link is written everything it is called for, another link nothing. -/
theorem sentTo_performAll (i : Nat) (out : List TrOut) (w : World) :
    sentTo i (out.foldl World.perform w).out =
      sentTo i w.out ++ if (w.links i).state = .up then ccOut i out else [] := by
  induction out generalizing w with
  | nil => simp
  | cons o rest ih =>
    have links := links_of_core (core_perform w o)
    rw [List.foldl_cons, ih, sentTo_perform, links, ccOut_cons]
    split <;> split <;> simp_all

theorem System.sentTo_translate (i : Nat) (c : Ctx) (ev : TrEvent) (s : System) :
    sentTo i (s.translate c ev).world.out = sentTo i s.world.out ++
      if (s.world.links i).state = .up then
        ccOut i (translatorStep (s.world.env c.now) ev s.tr).2 else [] :=
  sentTo_performAll i _ _

/-- One link, UP, on one peer. -/
def linkUp : System where
  world :=
    { cfg :=
        { openbridge := [{ enabled := true }]
          link := [{ enabled := true, crossConnectActive := true, tgid := 9 }] }
      voiceFd := 4, obpFd := fun _ => 3, obpActive := fun _ => true
      links := fun _ => { state := .up, fd := 5, syncSource := 1, hasSyncSource := true } }

/-- A frame of stream 1, 2, 3, 4 for the link's talkgroup. -/
def streamFrame (flags : Byte) : DmrdBody :=
  dmrdBody 0 7 9 8 flags #v[1, 2, 3, 4] (Vector.replicate 33 0)

theorem admitted_streamFrame (flags : Byte) (scope : outOfScope flags = false) (now : Rat) :
    Admitted (linkUp.world.env now) 0 0 (streamFrame flags) := by
  refine ⟨by simp [streamFrame, scope], ?_, rfl, rfl⟩
  rw [streamFrame, dst_dmrdBody]
  rfl

end Cc2obp
