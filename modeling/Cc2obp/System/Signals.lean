import Cc2obp.Cccc.CallSignals
import Cc2obp.System.CcCalls

/-!
# Call signalling between two ends

What one end writes for its B-ons and B-offs makes the other end call its
translator with the same B-ons and B-offs, wherever TCP cuts the stream.
-/
namespace Cc2obp

open World Lines

/-- The bytes an item writes on the connection of a link. -/
def Out.bytesTo (i : Nat) : Out → List Byte
  | .tcp link _ _ bytes => if link = i then bytes else []
  | _ => []

/-! ## The sender -/

section Sender
variable {w : World} {i : Nat}

theorem messages_cons (w : World) (o : TrOut) (outs : List TrOut) :
    w.messages (o :: outs) = (w.unlogged.perform o).out ++ (w.perform o).messages outs := by
  obtain ⟨-, same⟩ := perform_out w o
  rw [messages, List.foldl_cons, performAll_out, World.messages, World.messages, same]

/-- A signal on an UP link is one write, and the counter moves on. -/
theorem perform_signal (up : (w.links i).state = .up) (signal : Signal) :
    ∃ user msg, 0 ≤ user ∧ user < 1000 ∧
      (w.unlogged.perform (signal.out i)).out = [.tcp i (w.links i).fd msg (signal.built (w.cfg.linkAt i).ccLid user)] := by
  cases signal with
  | bon radio peer srcLid tgid callType =>
    refine ⟨(w.userCtr i + 1) % 1000, .bon radio peer srcLid tgid callType, by omega, by omega, ?_⟩
    simp [Signal.out, Signal.built, World.perform, ccccSendBon, up, tcpSend, World.emit, World.unlogged]
  | boff lost total rssi =>
    refine ⟨0, .boff lost total rssi, by omega, by omega, ?_⟩
    simp [Signal.out, Signal.built, World.perform, ccccSendBoff, up, tcpSend, World.emit, World.unlogged]

/-- The signals are written as lines, one each. -/
theorem written_signals (up : (w.links i).state = .up) (hlid : 0 ≤ (w.cfg.linkAt i).ccLid)
    (lidFits : (w.cfg.linkAt i).ccLid < 2 ^ 31) (signals : List Signal) (sendable : ∀ x ∈ signals, x.Sendable) :
    ∃ lines : List (List Byte),
      (w.messages (signals.map (Signal.out i))).map (Out.bytesTo i) = lines.map (· ++ [0x0A]) ∧
      (∀ line ∈ lines, IsLine line ∧ line.length < 128) ∧
      ∀ link, lines.filterMap (signalOf link) = signals.map (Signal.call link) := by
  induction signals generalizing w with
  | nil => exact ⟨[], rfl, by simp, fun _ => rfl⟩
  | cons signal signals ih =>
    have core := core_perform w (signal.out i)
    have links := links_of_core core
    have cfg := cfg_of_core core
    obtain ⟨lines, written, fit, read⟩ := ih (w := w.perform (signal.out i)) (by rw [links]; exact up)
      (by rw [cfg]; exact hlid) (by rw [cfg]; exact lidFits) fun x member => sendable x (by simp [member])
    obtain ⟨user, msg, huser, userFits, wrote⟩ := perform_signal up signal
    obtain ⟨line, built, isLine, short, back⟩ := Signal.read_back (sendable signal (by simp)) hlid lidFits huser userFits
    refine ⟨line :: lines, ?_, ?_, ?_⟩
    · rw [List.map_cons, messages_cons, wrote, List.map_append, written, built]
      simp [Out.bytesTo]
    · intro l member
      rcases List.mem_cons.mp member with rfl | later
      · exact ⟨isLine, short⟩
      · exact fit l later
    · intro link
      simp [back link, read link]

end Sender

/-! ## The receiver -/

/-- Lines that fit come out of their stream one by one. -/
theorem cut_lines (cap : Nat) (lines : List (List Byte)) (fit : ∀ line ∈ lines, IsLine line ∧ line.length + 1 < cap) :
    cut cap [] (lines.map (· ++ [0x0A])).flatten = (lines, []) := by
  induction lines with
  | nil => rfl
  | cons line lines ih =>
    obtain ⟨isLine, short⟩ := fit line (by simp)
    have rest := ih fun l member => fit l (by simp [member])
    rw [List.map_cons, List.flatten_cons, List.append_assoc, List.singleton_append, cut_line cap isLine short, rest]

section Receiver
variable (c : Ctx) (j : Nat)

/-- On an UP link a chunk is cut into lines, each of them a call or nothing. -/
theorem feedBytes_up (data : List Byte) (w : World) (up : (w.links j).state = .up) :
    feedBytes (linkBuffer j) rxbufCap (linkOnLine c j) data w =
      { w.setLink j { w.links j with rxbuf := (cut rxbufCap (w.links j).rxbuf data).2 } with
        out := w.out ++ ((cut rxbufCap (w.links j).rxbuf data).1.filterMap (signalOf j)).map .call } := by
  induction data generalizing w with
  | nil => simp [cut, World.setLink]
  | cons b data ih =>
    rw [feedBytes_cons, cut]
    by_cases ends : b = 0x0A
    · subst ends
      obtain ⟨text, here⟩ : ∃ text, lineOf (push rxbufCap (w.links j).rxbuf 0x0A) = text := ⟨_, rfl⟩
      have line : feedByte (linkBuffer j) rxbufCap (linkOnLine c j) w 0x0A =
          { w.setLink j { w.links j with rxbuf := [] } with out := w.out ++ ((signalOf j text).map Out.call).toList } := by
        simp only [feedByte, if_true, linkBuffer, World.setLink, Function.update_self, linkOnLine, up, dispatchEstablishedLine, here]
        cases signalOf j text with
        | none => simp
        | some call => simp [World.emit]
      rw [line, ih _ (by simp [World.setLink, up]), if_pos rfl, here]
      cases signal : signalOf j text with
      | none => simp [World.setLink, signal]
      | some call => simp [World.setLink, signal]
    · have kept : feedByte (linkBuffer j) rxbufCap (linkOnLine c j) w b =
          w.setLink j { w.links j with rxbuf := push rxbufCap (w.links j).rxbuf b } := by
        simp only [feedByte, ends, if_false]
        rfl
      rw [kept, ih _ (by simp [World.setLink, up]), if_neg ends]
      simp [World.setLink]

end Receiver

namespace System

/-- A link's connection with what it has buffered. -/
structure Receiving (s : System) (j : Nat) (fd : Int) (rx : List Byte) : Prop where
  up : (s.world.links j).state = .up
  rxbuf : (s.world.links j).rxbuf = rx
  nonneg : 0 ≤ fd
  registered : FdTable.lookup s.world.loop.fds fd = some (.link j)

/-- The calls the lines of a chunk make. -/
def lineCalls (j : Nat) (rx data : List Byte) : List Out := ((cut rxbufCap rx data).1.filterMap (signalOf j)).map .call

/-- A chunk on the connection: the calls of its lines and what they lead to, and the rest is buffered. -/
theorem Receiving.step {s : System} {j : Nat} {fd : Int} {rx : List Byte} (receiving : s.Receiving j fd rx)
    (c : Ctx) (data : List Byte) :
    (∀ {β : Type} {obs : Out → Option β}, (∀ w t o, Writes w t o → obs o = none) →
      (s.step (c, .readable fd (.recv (.data data)))).2.filterMap obs = (lineCalls j rx data).filterMap obs) ∧
    (s.step (c, .readable fd (.recv (.data data)))).1.world.links j =
      { s.world.links j with rxbuf := (cut rxbufCap rx data).2 } ∧
    (s.step (c, .readable fd (.recv (.data data)))).1.Receiving j fd (cut rxbufCap rx data).2 := by
  obtain ⟨up, rfl, nonneg, registered⟩ := receiving
  have reads : World.readable c fd (.recv (.data data)) s.world.unlogged =
      feedBytes (linkBuffer j) rxbufCap (linkOnLine c j) data s.world.unlogged := by
    have registered' : FdTable.lookup s.world.unlogged.loop.fds fd = some (.link j) := registered
    unfold World.readable
    rw [if_neg (by omega)]
    simp only [registered', onLinkTcpReadable]
  rw [feedBytes_up c j data s.world.unlogged up] at reads
  have core := core_callback c (World.readable c fd (.recv (.data data))) s.cleared
  rw [show s.cleared.world.unlogged = s.world.unlogged from rfl, reads] at core
  have links := links_of_core core
  have loop := ((core_eq_iff _ _).mp core).2.1
  have record : (s.step (c, .readable fd (.recv (.data data)))).1.world.links j =
      { s.world.links j with rxbuf := (cut rxbufCap (s.world.links j).rxbuf data).2 } := by
    refine (congrFun links j).trans ?_
    simp [World.setLink]
  refine ⟨fun silent => ?_, record, ?_⟩
  · have observed := filterMap_callback silent c (World.readable c fd (.recv (.data data))) s.cleared
    rw [show s.cleared.world.unlogged = s.world.unlogged from rfl, reads] at observed
    exact observed
  · constructor
    case up =>
      rw [record]
      exact up
    case rxbuf => rw [record]
    case nonneg => exact nonneg
    case registered =>
      show FdTable.lookup (s.cleared.callback c _).world.loop.fds fd = _
      rw [loop]
      exact registered

/-- However the stream is cut. -/
theorem Receiving.run {s : System} {j : Nat} {fd : Int} {rx : List Byte} (receiving : s.Receiving j fd rx)
    (chunks : List (Ctx × List Byte)) :
    let after := Machine.run System.step s (chunks.map fun chunk => (chunk.1, .readable fd (.recv (.data chunk.2))))
    (∀ {β : Type} {obs : Out → Option β}, (∀ w t o, Writes w t o → obs o = none) →
      after.2.filterMap obs = (lineCalls j rx (chunks.map Prod.snd).flatten).filterMap obs) ∧
      after.1.world.links j = { s.world.links j with rxbuf := (cut rxbufCap rx (chunks.map Prod.snd).flatten).2 } := by
  induction chunks generalizing s rx with
  | nil => exact ⟨fun _ => rfl, by rw [← receiving.rxbuf]; rfl⟩
  | cons chunk chunks ih =>
    obtain ⟨observed, record, next⟩ := receiving.step chunk.1 chunk.2
    obtain ⟨observed', record'⟩ := ih next
    simp only [List.map_cons, Machine.run_cons, List.flatten_cons, List.filterMap_append, cut_append, lineCalls,
      List.map_append]
    exact ⟨fun silent => by rw [observed silent, observed' silent]; rfl, by rw [record', record]⟩

theorem Receiving.calls {s : System} {j : Nat} {fd : Int} {rx : List Byte} (receiving : s.Receiving j fd rx)
    (chunks : List (Ctx × List Byte)) :
    (Machine.run System.step s (chunks.map fun chunk => (chunk.1, .readable fd (.recv (.data chunk.2))))).2.filterMap
      Out.trCall = (cut rxbufCap rx (chunks.map Prod.snd).flatten).1.filterMap (signalOf j) := by
  rw [(receiving.run chunks).1 fun _ _ _ => trCall_writes, lineCalls, trCall_calls]

end System

/-- A list of signals sent on an UP link, delivered in any chunks to an UP link of another end with nothing
buffered, makes the same calls there, in the same order, and no line is cut short on the way. -/
theorem signals_delivered (w : World) (i : Nat) (up : (w.links i).state = .up) (hlid : 0 ≤ (w.cfg.linkAt i).ccLid)
    (lidFits : (w.cfg.linkAt i).ccLid < 2 ^ 31) (signals : List Signal) (sendable : ∀ x ∈ signals, x.Sendable)
    (remote : System) (j : Nat) (fd : Int) (receiving : remote.Receiving j fd []) (chunks : List (Ctx × List Byte))
    (delivered : (chunks.map Prod.snd).flatten = (w.messages (signals.map (Signal.out i))).flatMap (Out.bytesTo i)) :
    (Machine.run System.step remote
        (chunks.map fun chunk => (chunk.1, .readable fd (.recv (.data chunk.2))))).2.filterMap Out.trCall =
      signals.map (Signal.call j) ∧
    ∀ o ∈ w.messages (signals.map (Signal.out i)), (o.bytesTo i).length < 256 := by
  obtain ⟨lines, written, fit, read⟩ := written_signals up hlid lidFits signals sendable
  constructor
  · rw [receiving.calls chunks, delivered, List.flatMap_def, written, cut_lines, read]
    intro line member
    obtain ⟨isLine, short⟩ := fit line member
    exact ⟨isLine, by simp only [rxbufCap]; omega⟩
  · intro o member
    have image : o.bytesTo i ∈ lines.map (· ++ [0x0A]) := written ▸ List.mem_map_of_mem member
    obtain ⟨line, member', same⟩ := List.mem_map.mp image
    have short := (fit line member').2
    rw [← same, List.length_append, List.length_singleton]
    omega

/-- One call, from one end that has come UP to another, its bytes cut behind the fifth. -/
def oneCall : List Signal := [.bon 1 2 3 9 0x47, .boff 0 5 0]

def oneCallBytes : List Byte :=
  ((afterSending shortQuestion).world.messages (oneCall.map (Signal.out 0))).flatMap (Out.bytesTo 0)

def oneCallChunks : List (Ctx × List Byte) :=
  [({ now := 2 }, oneCallBytes.take 5), ({ now := 3 }, oneCallBytes.drop 5)]

theorem receiving_shortQuestion : (afterSending shortQuestion).Receiving 0 6 [] := by
  constructor
  case up => decide +kernel
  case rxbuf => decide +kernel
  case nonneg => decide
  case registered => decide +kernel

theorem signals_delivered_one_call :
    (Machine.run System.step (afterSending shortQuestion)
        (oneCallChunks.map fun chunk => (chunk.1, .readable 6 (.recv (.data chunk.2))))).2.filterMap Out.trCall =
      oneCall.map (Signal.call 0) ∧
    ∀ o ∈ (afterSending shortQuestion).world.messages (oneCall.map (Signal.out 0)), (o.bytesTo 0).length < 256 := by
  apply signals_delivered (afterSending shortQuestion).world 0 (by decide +kernel) (by decide +kernel) (by decide +kernel) oneCall
  · intro signal member
    rcases List.mem_cons.mp member with rfl | later
    · exact ⟨by decide, by decide, by decide, by decide⟩
    · obtain rfl := List.mem_singleton.mp later
      exact ⟨⟨by decide, by decide⟩, ⟨by decide, by decide⟩, by decide, by decide⟩
  · exact receiving_shortQuestion
  · simp only [oneCallChunks, List.map_cons, List.map_nil, List.flatten_cons, List.flatten_nil, List.append_nil,
      List.take_append_drop]
    rfl

end Cc2obp
