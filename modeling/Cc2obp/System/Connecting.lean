import Cc2obp.Cccc.OneLink
import Cc2obp.System.Moments

/-!
# Connecting links

A link that is still connecting has read nothing: dialling empties its buffers,
and no bytes reach it before the connection is there.
-/
namespace Cc2obp

open World Lines

/-- The record of a link that has read nothing, if it is connecting. -/
def Blank (lk : CcLink) : Prop := lk.state = .connecting → lk.rxbuf = [] ∧ lk.hslines = []

def Unread (w : World) : Prop := ∀ i, Blank (w.links i)

theorem blank_of_ne {lk : CcLink} (other : lk.state ≠ .connecting) : Blank lk := fun here => absurd here other

namespace Unread

variable (c : Ctx) {i : Nat} {w : World}

theorem setLink (unread : Unread w) {lk : CcLink} (blank : Blank lk) : Unread (w.setLink i lk) := by
  intro k
  by_cases here : k = i
  · subst here
    simpa [World.setLink] using blank
  · simpa [World.setLink, here] using unread k

theorem onLoop (unread : Unread w) (f : EvLoop FdCb TimerCb → EvLoop FdCb TimerCb) : Unread (w.onLoop f) := unread

theorem setPending (unread : Unread w) (s : Nat) (p : PendingConn) : Unread (w.setPending s p) := unread

theorem tcpSend (unread : Unread w) (msg : TcpMsg) (bytes : List Byte) : Unread (tcpSend w i msg bytes) := unread

theorem emit (unread : Unread w) (o : Out) : Unread (w.emit o) := unread

theorem scheduleReconnect (unread : Unread w) : Unread (scheduleReconnect c i w) := by
  unfold Cc2obp.scheduleReconnect timerAfter
  exact (unread.onLoop _).setLink (unread i)

theorem armKeepalive (unread : Unread w) : Unread (armKeepalive c i w) := by
  unfold Cc2obp.armKeepalive timerAfter
  exact (unread.onLoop _).setLink (unread i)

theorem teardown (unread : Unread w) : Unread (teardownLinkConnection c i w) := by
  intro k
  by_cases here : k = i
  · subst here
    exact blank_of_ne (by rw [teardown_state]; simp)
  · rw [teardown_links, Function.update_of_ne here]
    exact unread k

theorem dial (unread : Unread w) : Unread (ccccStartOutboundConnect c i w) := by
  simp only [ccccStartOutboundConnect]
  split
  · exact setLink (w := w.openFd.2) unread fun _ => ⟨rfl, rfl⟩
  · have failed : Unread (w.setLink i { w.links i with rxbuf := [], hslines := [], hasSyncSource := false, fd := -1 }) :=
      unread.setLink fun _ => ⟨rfl, rfl⟩
    split
    · exact failed.scheduleReconnect c
    · exact failed

theorem connectWritable (unread : Unread w) (fd : Int) (connected : Bool) : Unread (onConnectWritable c i fd connected w) := by
  simp only [onConnectWritable]
  split
  · have failed : Unread (((w.onLoop (evDelFdWrite fd)).closeFd fd).setLink i { w.links i with fd := -1, state := .down }) :=
      setLink (w := (w.onLoop (evDelFdWrite fd)).closeFd fd) unread (blank_of_ne (by simp))
    split
    · exact failed.scheduleReconnect c
    · exact failed
  · split
    · exact unread
    · exact (unread.onLoop _).setLink (blank_of_ne (by simp))

theorem reconnectCb (unread : Unread w) : Unread (reconnectCb c i w) := by
  have idle : Unread (w.setLink i { w.links i with reconnectTimer := none }) := unread.setLink (unread i)
  simp only [Cc2obp.reconnectCb]
  split
  · exact idle.dial c
  · exact idle

theorem keepaliveCb (unread : Unread w) : Unread (keepaliveCb c i w) := by
  have idle : Unread (w.setLink i { w.links i with keepaliveTimer := none }) := unread.setLink (unread i)
  simp only [Cc2obp.keepaliveCb]
  split
  · exact idle
  · split
    · exact teardown c idle
    · exact setLink idle (idle i)

/-! ## Bytes -/

/-- A line takes no link back to connecting. -/
theorem linkOnLine_held (held : (w.links i).state ≠ .connecting) (line : List Byte) :
    ((linkOnLine c i line w).links i).state ≠ .connecting := by
  simp only [linkOnLine]
  split
  next state =>
    generalize gathered : (if (w.links i).hslines.length < ccccAnswerNfields then
        w.setLink i { w.links i with hslines := (w.links i).hslines ++ [line.take 255] } else w) = v
    have kept : (v.links i).state ≠ .connecting := by
      rw [← gathered]
      split <;> simp [World.setLink, state]
    split
    · simp only [finishOutboundHandshake]
      split
      · rw [teardown_state]
        simp
      · simp [World.emit, Cc2obp.armKeepalive, timerAfter, World.onLoop, World.setLink]
    · exact kept
  · unfold dispatchEstablishedLine
    split <;> exact held
  · exact held

theorem linkFed (unread : Unread w) (held : (w.links i).state ≠ .connecting) (bytes : List Byte) :
    Unread (feedBytes (linkBuffer i) rxbufCap (linkOnLine c i) bytes w) := by
  -- no byte takes the link back to connecting
  have after : ((feedBytes (linkBuffer i) rxbufCap (linkOnLine c i) bytes w).links i).state ≠ .connecting := by
    refine feedBytes_invariant (linkBuffer i) rxbufCap _ (fun v => (v.links i).state ≠ .connecting)
      (fun v b before => ?_) bytes w held
    have buffered : ∀ (rx : List Byte) (u : World), (u.links i).state ≠ .connecting →
        (((linkBuffer i).put rx u).links i).state ≠ .connecting := by
      intro rx u here
      simpa [linkBuffer, World.setLink] using here
    simp only [feedByte]
    split
    · exact buffered _ _ (linkOnLine_held c (buffered _ _ before) _)
    · exact buffered _ _ before
  have works : WorksFor (some i) 0 w (feedBytes (linkBuffer i) rxbufCap (linkOnLine c i) bytes w) := .linkFed c i bytes w
  intro k
  by_cases here : k = i
  · rw [here]
    exact blank_of_ne after
  · rw [works.links k fun same => here (by simpa using same.symm)]
    exact unread k

theorem freePending {s : Nat} (unread : Unread w) (alsoClose : Bool) : Unread (freePending s alsoClose w) := by
  simp only [Cc2obp.freePending]
  split <;> exact unread

theorem takeOver {s : Nat} (unread : Unread w) : Unread (takeOver c s i w) := by
  simp only [Cc2obp.takeOver]
  generalize emptied : (if (w.links i).state ≠ .down then teardownLinkConnection c i w else w) = v
  have vacated : Unread v := by
    rw [← emptied]
    split
    · exact unread.teardown c
    · exact unread
  have taken : Unread (v.setLink i { v.links i with
      fd := (w.pending s).fd, rxbuf := [], hslines := [], syncSource := questionSsrc (w.pending s).qlines,
      hasSyncSource := true, state := .up }) := vacated.setLink (blank_of_ne (by simp))
  apply emit
  apply freePending
  apply setPending
  apply armKeepalive
  apply tcpSend
  exact taken.onLoop _

theorem handleQuestionComplete {s : Nat} (unread : Unread w) : Unread (handleQuestionComplete c s w) := by
  simp only [Cc2obp.handleQuestionComplete]
  split
  · apply freePending
    exact (unread.onLoop _).setPending _ _
  · apply takeOver
    exact (unread.onLoop _).setPending _ _

theorem pendingReadable {s : Nat} (unread : Unread w) (r : RecvResult) : Unread (onPendingReadable c s r w) := by
  cases r with
  | data bytes =>
    refine feedBytes_invariant (pendingBuffer s) rxbufCap _ Unread (fun v b before => ?_) bytes w unread
    simp only [feedByte]
    split
    · have line : Unread (pendingOnLine c s (lineOf ((pendingBuffer s).get ((pendingBuffer s).put
          (push rxbufCap ((pendingBuffer s).get v) b) v))) ((pendingBuffer s).put (push rxbufCap ((pendingBuffer s).get v) b) v)) := by
        simp only [pendingOnLine]
        split <;> split
        · apply handleQuestionComplete
          exact (before.setPending _ _).setPending _ _
        · exact before
        · apply handleQuestionComplete
          exact before.setPending _ _
        · exact before
      exact line
    · exact before
  | wouldBlock => exact unread
  | closed => exact unread.freePending true
  | error => exact unread.freePending true

theorem listenReadable (unread : Unread w) (conns : List (List Byte)) : Unread (onListenReadable c conns w) := by
  unfold onListenReadable
  induction conns generalizing w with
  | nil => exact unread
  | cons srcIp rest ih =>
    refine ih ?_
    simp only [acceptOne]
    split <;> exact unread

theorem voiceReadable (unread : Unread w) (datagram srcIp : List Byte) (srcPort : Int) :
    Unread (onVoiceReadable c datagram srcIp srcPort w) := by
  obtain ⟨heard, links⟩ := onVoiceReadable_links c datagram srcIp srcPort w
  intro k
  rw [links]
  exact unread k

/-! ## Events -/

theorem reconcileLink (unread : Unread w) : Unread (reconcileLink c w i) := by
  simp only [Cc2obp.reconcileLink]
  split
  · split
    · apply dial
      exact unread.setLink (unread i)
    · split
      · have off : Unread ((w.onLoop (evTimerCancel (w.links i).reconnectTimer)).setLink i
            { w.links i with active := false, reconnectTimer := none }) := (unread.onLoop _).setLink (unread i)
        split
        · exact off.teardown c
        · exact off
      · exact unread
  · have switched : Unread (w.setLink i { w.links i with active := (w.cfg.linkAt i).enabled }) :=
      unread.setLink (unread i)
    split
    · exact switched.teardown c
    · exact switched

theorem reconciled (unread : Unread w) : Unread (ccccMuxReconcile c w) := by
  have turn := List.foldl_turns (Cc2obp.reconcileLink c) (fun _ v => Unread v) fun i _ v before => before.reconcileLink c (i := i)
  exact turn _ w unread

theorem started (cfg : Config) : Unread (World.start c cfg) := by
  have sockets : Unread (obpMuxStart c { cfg }) := by
    have blank : (obpMuxStart c { cfg }).links = fun _ => {} :=
      List.foldl_turns _ (fun _ (v : World) => v.links = fun _ => {}) (fun peer rest v same => by
        split
        · exact (Wf.bindPeer_frame c peer v).2.1.trans same
        · exact same) _ _ rfl
    intro k
    rw [blank]
    exact blank_of_ne (by simp)
  unfold World.start ccccMuxStart
  dsimp only
  refine List.foldl_turns _ (fun _ (v : World) => Unread v) (fun i rest v before => ?_) _ _ sockets
  split
  · apply dial
    exact before.setLink (before i)
  · exact before.setLink (before i)

theorem readable {ph : Phase} (wf : Wf ph w) (unread : Unread w) (fd : Int) (input : FdInput) :
    Unread (World.readable c fd input w) := by
  unfold World.readable
  split
  · exact unread
  next nonneg =>
    split
    · exact unread.voiceReadable c _ _ _
    · unfold onTrialReadable
      dsimp only
      split <;> exact unread
    · exact unread.listenReadable c _
    · unfold onObpReadable
      split <;> exact unread
    · exact unread.pendingReadable c _
    next i r found =>
      cases r with
      | data bytes =>
        refine unread.linkFed c ?_ bytes
        obtain ⟨h, owns⟩ := wf.owner_of_read (not_lt.mp nonneg) found
        -- a connecting link waits to write
        intro connecting
        rcases Wf.own_cases owns with ⟨t, -, other, -⟩ | ⟨j, rfl, inside, -, -, same⟩ | other
        · simp at other
        · obtain rfl : i = j := by simpa using same
          simp [own_link w inside, linkOwn, connecting] at owns
        · simp at other
      | wouldBlock => exact unread
      | closed => exact unread.teardown c
      | error => exact unread.teardown c
    · exact unread

theorem writable (unread : Unread w) (fd : Int) (connected : Bool) : Unread (World.writable c fd connected w) := by
  unfold World.writable
  split
  · exact unread
  · split
    · exact unread.connectWritable c fd connected
    · exact unread

theorem fired (unread : Unread w) (id : Nat) : Unread (World.fire c id w) := by
  unfold World.fire
  split
  next cb _ =>
    cases cb with
    | reconnect i => exact (unread.onLoop _).reconnectCb c
    | keepalive i => exact (unread.onLoop _).keepaliveCb c
    | pendingTimeout s =>
      apply freePending
      exact (unread.onLoop _).setPending _ _
  · exact unread

theorem of_core {w' : World} (unread : Unread w) (same : w'.core = w.core) : Unread w' := by
  intro k
  rw [links_of_core same]
  exact unread k

end Unread

namespace System

/-- In every reachable state a link that is connecting has read nothing. -/
theorem unread_run (c : Ctx) (cfg : Config) (accepted : cfg.Accepted) (es : List (Ctx × Event)) :
    Unread (Machine.run step (start c cfg) es).1.world := by
  -- what an open descriptor is registered for comes from the other invariant
  have kept : Wf { orphans := True } (Machine.run step (start c cfg) es).1.world ∧
      Unread (Machine.run step (start c cfg) es).1.world := by
    refine Machine.run_state_invariant step (fun s => Wf { orphans := True } s.world ∧ Unread s.world)
      (fun s e both (_ : True) => ⟨wf_step both.1 e (by simp), ?_⟩) _ es (Machine.meets_of_forall _ _ _ _ fun _ _ _ => trivial)
      ⟨wf_run c cfg accepted True [] (by simp), .started c cfg⟩
    obtain ⟨wf, unread⟩ := both
    obtain ⟨c, event⟩ := e
    have reacted : Unread (s.cleared.react c event).world := by
      cases event with
      | readable fd input =>
        exact (Unread.readable c (w := s.world.unlogged) (wf_unlogged wf) unread fd input).of_core (core_callback c _ s.cleared)
      | writable fd connected =>
        exact (Unread.writable c (w := s.world.unlogged) unread fd connected).of_core (core_callback c _ s.cleared)
      | timer id => exact (Unread.fired c (w := s.world.unlogged) unread id).of_core (core_callback c _ s.cleared)
      | tick fresh =>
        have ticked : Unread (s.cleared.translate c .tick).world :=
          Unread.of_core unread (core_translate c .tick s.cleared)
        cases fresh with
        | none => exact ticked
        | some fresh =>
          have reloaded : Unread (((s.cleared.translate c .tick).world.reload fresh).unlogged) := ticked
          have links := (reloaded.reconciled c).of_core (core_callback c (ccccMuxReconcile c)
            { s.cleared.translate c .tick with world := (s.cleared.translate c .tick).world.reload fresh })
          refine Unread.of_core ?_ (core_callback c (obpMuxReconcile c) _)
          intro k
          rw [(SocketsOnly.reconcile c _).links]
          exact links k
    exact reacted
  exact kept.2

end System

end Cc2obp
