import Cc2obp.Cccc.Traffic
import Cc2obp.System.Live

/-!
# The moments of an event

An event of the composed system is a chain of moments: the CC-CC mux sends
something of its own, or one of the protocol modules calls the translator and
what the translator sends comes right behind the call. Every moment knows which
links are UP.
-/
namespace Cc2obp

open World

/-! ## What the translator's calls add to the log -/

/-- What the calls of the translator write, in order. -/
def World.messages (w : World) (outs : List TrOut) : List Out := (outs.foldl World.perform w.unlogged).out

section Messages
variable (w : World)

theorem perform_out (o : TrOut) : (w.perform o).out = w.out ++ (w.unlogged.perform o).out ∧
    (w.perform o).unlogged = (w.unlogged.perform o).unlogged := by
  cases o with
  | obpSendDmrd link peer body =>
    by_cases closed : w.cfg.nOpenbridge ≤ peer ∨ w.obpFd peer < 0
    · simp [World.perform, obpSendDmrd, World.unlogged, closed]
    · simp [World.perform, obpSendDmrd, World.unlogged, closed, World.emit]
  | ccccSendBon link radio peer srcLid tgid callType =>
    by_cases up : (w.links link).state = .up
    · simp [World.perform, ccccSendBon, World.unlogged, up, tcpSend, World.emit]
    · simp [World.perform, ccccSendBon, World.unlogged, up]
  | ccccSendBoff link lost total rssi =>
    by_cases up : (w.links link).state = .up
    · simp [World.perform, ccccSendBoff, World.unlogged, up, tcpSend, World.emit]
    · simp [World.perform, ccccSendBoff, World.unlogged, up]
  | ccccSendVoice link seq timestamp marker ambe21 =>
    by_cases up : (w.links link).state = .up
    · simp [World.perform, ccccSendVoice, World.unlogged, up, udpSendToLink, World.emit]
    · simp [World.perform, ccccSendVoice, World.unlogged, up]

theorem performAll_out (outs : List TrOut) : (outs.foldl World.perform w).out = w.out ++ w.messages outs := by
  induction outs generalizing w with
  | nil => simp [World.messages]
  | cons o rest ih =>
    obtain ⟨out, same⟩ := perform_out w o
    have messages : w.messages (o :: rest) = (w.unlogged.perform o).out ++ (w.unlogged.perform o).messages rest := by
      rw [World.messages, List.foldl_cons, ih]
    rw [List.foldl_cons, ih, out, messages, List.append_assoc]
    simp only [World.messages, same]

/-- What `obp_send_dmrd` writes. -/
def World.datagram (w : World) : TrOut → List Out
  | .obpSendDmrd link peer body =>
    if w.cfg.nOpenbridge ≤ peer ∨ w.obpFd peer < 0 then []
    else [.udp (w.obpFd peer) (.dmrd link peer) (signDmrd (w.cfg.openbridgeAt peer)
      (outgoingBody (w.cfg.openbridgeAt peer) body)) (w.cfg.openbridgeAt peer).peerIp
      (w.cfg.openbridgeAt peer).peerPort]
  | _ => []

/-- Frames toward OpenBridge leave by the peers' sockets whatever the state of the links. -/
theorem messages_frames (outs : List TrOut) (frames : ∀ o ∈ outs, o.isCc = false) :
    w.messages outs = outs.flatMap w.datagram := by
  induction outs generalizing w with
  | nil => rfl
  | cons o rest ih =>
    have first := frames o (by simp)
    cases o with
    | obpSendDmrd link peer body =>
      have here : (w.unlogged.perform (.obpSendDmrd link peer body)).out =
          w.datagram (.obpSendDmrd link peer body) := by
        by_cases closed : w.cfg.nOpenbridge ≤ peer ∨ w.obpFd peer < 0
        · simp [World.perform, obpSendDmrd, World.datagram, World.unlogged, closed]
        · simp [World.perform, obpSendDmrd, World.datagram, World.unlogged, closed, World.emit]
      have kept : (w.unlogged.perform (.obpSendDmrd link peer body)).unlogged = w.unlogged := by
        simp only [World.perform, obpSendDmrd]
        split <;> rfl
      have later : (w.unlogged.perform (.obpSendDmrd link peer body)).messages rest = w.messages rest := by
        simp only [World.messages, kept]
      rw [World.messages, List.foldl_cons, performAll_out, here, later,
        ih w fun o member => frames o (by simp [member]), List.flatMap_cons]
    | _ => cases first

/-- A message of the log and the call of the translator behind it. -/
inductive Writes (w : World) : TrOut → Out → Prop
  | dmrd (link peer : Nat) (body : DmrdBody) (known : peer < w.cfg.nOpenbridge) (bound : 0 ≤ w.obpFd peer) :
      Writes w (.obpSendDmrd link peer body)
        (.udp (w.obpFd peer) (.dmrd link peer) (signDmrd (w.cfg.openbridgeAt peer)
          (outgoingBody (w.cfg.openbridgeAt peer) body)) (w.cfg.openbridgeAt peer).peerIp
          (w.cfg.openbridgeAt peer).peerPort)
  | bon (link : Nat) (radio peer : BitVec 32) (srcLid tgid : Int) (callType : Byte) (bytes : List Byte)
      (up : w.isUp link = true) :
      Writes w (.ccccSendBon link radio peer srcLid tgid callType)
        (.tcp link (w.links link).fd (.bon radio peer srcLid tgid callType) bytes)
  | boff (link : Nat) (lost total rssi : Int) (bytes : List Byte) (up : w.isUp link = true) :
      Writes w (.ccccSendBoff link lost total rssi) (.tcp link (w.links link).fd (.boff lost total rssi) bytes)
  | voice (link : Nat) (seq : BitVec 16) (timestamp : BitVec 32) (marker : Bool) (ambe21 : Bytes 21)
      (bytes : List Byte) (up : w.isUp link = true) :
      Writes w (.ccccSendVoice link seq timestamp marker ambe21)
        (.udp w.voiceFd (.voice link seq timestamp marker ambe21) bytes (w.cfg.linkAt link).ccRemoteIp
          (w.cfg.linkAt link).ccRemoteVoicePort)

theorem writes_of_core {w w' : World} (same : w.core = w'.core) {t : TrOut} {o : Out} (writes : Writes w t o) :
    Writes w' t o := by
  obtain ⟨cfg, -, -, voiceFd, -, -, links, -, obpFd, -⟩ := (core_eq_iff w w').mp same
  have isUp : w.isUp = w'.isUp := by
    funext j
    simp [World.isUp, links]
  cases writes with
  | dmrd link peer body known bound =>
    rw [cfg, obpFd] at *
    exact .dmrd link peer body known bound
  | bon link _ _ _ _ _ bytes up =>
    rw [links, isUp] at *
    exact .bon link _ _ _ _ _ bytes up
  | boff link _ _ _ bytes up =>
    rw [links, isUp] at *
    exact .boff link _ _ _ bytes up
  | voice link _ _ _ _ bytes up =>
    rw [cfg, voiceFd, isUp] at *
    exact .voice link _ _ _ _ bytes up

theorem writes_of_perform {t : TrOut} {o : Out} (member : o ∈ (w.unlogged.perform t).out) : Writes w t o := by
  cases t with
  | obpSendDmrd link peer body =>
    simp only [World.perform, obpSendDmrd] at member
    split at member
    · simp at member
    next open_ =>
      simp only [World.emit, World.unlogged, List.nil_append, List.mem_singleton] at member
      subst member
      have bounds : peer < w.cfg.nOpenbridge ∧ 0 ≤ w.obpFd peer := by simpa [World.unlogged] using open_
      exact .dmrd link peer body bounds.1 bounds.2
  | ccccSendBon link radio peer srcLid tgid callType =>
    simp only [World.perform, ccccSendBon] at member
    split at member
    · simp at member
    next up =>
      simp only [tcpSend, World.emit, World.unlogged, List.nil_append, List.mem_singleton] at member
      subst member
      exact .bon link _ _ _ _ _ _ (by simpa [World.isUp] using up)
  | ccccSendBoff link lost total rssi =>
    simp only [World.perform, ccccSendBoff] at member
    split at member
    · simp at member
    next up =>
      simp only [tcpSend, World.emit, World.unlogged, List.nil_append, List.mem_singleton] at member
      subst member
      exact .boff link _ _ _ _ (by simpa [World.isUp] using up)
  | ccccSendVoice link seq timestamp marker ambe21 =>
    simp only [World.perform, ccccSendVoice] at member
    split at member
    · simp at member
    next up =>
      simp only [udpSendToLink, World.emit, World.unlogged, List.nil_append, List.mem_singleton] at member
      subst member
      exact .voice link _ _ _ _ _ (by simpa [World.isUp] using up)

theorem mem_messages {outs : List TrOut} {o : Out} (member : o ∈ w.messages outs) : ∃ t ∈ outs, Writes w t o := by
  induction outs generalizing w with
  | nil => simp [World.messages] at member
  | cons t rest ih =>
    rw [World.messages, List.foldl_cons, performAll_out] at member
    rcases List.mem_append.mp member with first | later
    · exact ⟨t, by simp, writes_of_perform w first⟩
    · obtain ⟨t', member', writes⟩ := ih _ later
      refine ⟨t', by simp [member'], writes_of_core ?_ writes⟩
      rw [core_perform]
      rfl

/-- What sees nothing of the translator's messages sees nothing of a list of them. -/
theorem filterMap_messages {β : Type} {obs : Out → Option β} (silent : ∀ w t o, Writes w t o → obs o = none)
    (outs : List TrOut) : (w.messages outs).filterMap obs = [] := by
  refine List.filterMap_eq_nil_iff.mpr fun o member => ?_
  obtain ⟨t, -, writes⟩ := mem_messages w member
  exact silent w t o writes

end Messages

/-! ## Moments -/

/-- Which links are UP, and the translator. -/
structure Stage where
  up : Nat → Bool
  tr : Translator

/-- A moment whose event for the translator is one of those that may occur. -/
inductive Moment (c : Ctx) (w : World) (ok : TrEvent → Prop) : Stage → List Out → Stage → Prop
  | send {g : Stage} (o : Out) (plain : o.plain) : Moment c w ok g [o] g
  | call {up up' : Nat → Bool} {tr : Translator} (call : TrCall) (rand : Bytes 4)
      (move : MuxMove up [.call call] up') (fits : ok (call.event rand)) :
      Moment c w ok ⟨up, tr⟩
        (.call call :: w.messages (translatorStep (w.env c.now) (call.event rand) tr).2)
        ⟨up', (translatorStep (w.env c.now) (call.event rand) tr).1⟩
  | frame {tr : Translator} (peer : Nat) (body : DmrdBody) (arrived : ok (.obpDmrdReceived peer body)) :
      Moment c w ok ⟨w.isUp, tr⟩
        (.call (.dmrd peer body) :: w.messages (translatorStep (w.env c.now) (.obpDmrdReceived peer body) tr).2)
        ⟨w.isUp, (translatorStep (w.env c.now) (.obpDmrdReceived peer body) tr).1⟩
  | tick {tr : Translator} (now : ok .tick) :
      Moment c w ok ⟨w.isUp, tr⟩ (w.messages (translatorStep (w.env c.now) .tick tr).2)
        ⟨w.isUp, (translatorStep (w.env c.now) .tick tr).1⟩

theorem sendDmrd_isCc (env : Env) (i : Nat) (flags : Byte) (payload33 : Bytes 33) (tr : Translator) :
    ∀ o ∈ (sendDmrd env i flags payload33 tr).2, o.isCc = false := by
  cases resolved : (env.cfg.linkAt i).openbridgeIdx with
  | none => simp [sendDmrd_none env i flags payload33 resolved]
  | some peer => simp [sendDmrd_some env i flags payload33 resolved, TrOut.isCc]

/-- The CC-CC mux's calls make the translator send toward OpenBridge only. -/
theorem muxMove_frames {up up' : Nat → Bool} {call : TrCall} (move : MuxMove up [.call call] up')
    (env : Env) (rand : Bytes 4) (tr : Translator) :
    ∀ o ∈ (translatorStep env (call.event rand) tr).2, o.isCc = false := by
  -- no handler of a CC-CC call writes to the CC-CC side
  cases move with
  | send _ plain => exact absurd plain id
  | linkUp i => simp [TrCall.event, translatorStep, translatorCcccLinkUp]
  | linkDown i =>
    simp only [TrCall.event, translatorStep, translatorCcccLinkDown]
    split
    · exact sendDmrd_isCc _ _ _ _ _
    · simp
  | bon i radio peer srcLid tgid callType =>
    simp only [TrCall.event, translatorStep, translatorCcccBon]
    split
    · simp
    · split
      · simp
      · split
        · simp
        · split
          · simp
          · exact sendDmrd_isCc _ _ _ _ _
  | boff i lost total =>
    simp only [TrCall.event, translatorStep, translatorCcccBoff, endCcOriginCall]
    split
    · exact sendDmrd_isCc _ _ _ _ _
    · simp
  | voice i seq timestamp marker ambe21 =>
    simp only [TrCall.event, translatorStep, translatorCcccVoice]
    split
    · simp
    · split
      · simp
      · exact sendDmrd_isCc _ _ _ _ _

namespace System

theorem translate_out (c : Ctx) (ev : TrEvent) (s : System) : (s.translate c ev).world.out =
    s.world.out ++ s.world.messages (translatorStep (s.world.env c.now) ev s.tr).2 :=
  performAll_out _ _

/-- The items a callback records stand in the log beside the translator's messages. -/
theorem filterMap_callback {β : Type} {obs : Out → Option β} (silent : ∀ w t o, Writes w t o → obs o = none) (c : Ctx)
    (f : World → World) (s : System) : (s.callback c f).world.out.filterMap obs =
      s.world.out.filterMap obs ++ (f s.world.unlogged).out.filterMap obs := by
  have replayed : ∀ (items : List (Out × Nat)) (s : System), (items.foldl (replay c) s).world.out.filterMap obs =
      s.world.out.filterMap obs ++ (items.map Prod.fst).filterMap obs := by
    intro items
    induction items with
    | nil => intro s; simp
    | cons item rest ih =>
      obtain ⟨o, k⟩ := item
      intro s
      have first : (s.replay c (o, k)).world.out.filterMap obs = s.world.out.filterMap obs ++ [o].filterMap obs := by
        cases o with
        | call call =>
          have out := translate_out c (call.event (c.rand k)) { s with world := s.world.emit (.call call) }
          have item : (s.replay c (.call call, k)).world.out = _ := out
          rw [item, List.filterMap_append, filterMap_messages _ silent, List.append_nil]
          exact List.filterMap_append
        | _ => exact List.filterMap_append
      rw [List.foldl_cons, ih, first, List.map_cons, List.append_assoc, ← List.filterMap_append]
      rfl
  have all := replayed (f s.world.unlogged).out.zipIdx { s with world := { f s.world.unlogged with out := s.world.out } }
  rw [List.zipIdx_map_fst] at all
  exact all

theorem replay_plain (c : Ctx) (s : System) {o : Out} (plain : o.plain) (k : Nat) :
    s.replay c (o, k) = { s with world := s.world.emit o } := by
  cases o with
  | call => exact absurd plain id
  | _ => rfl

/-- Every move of the mux is one item: something of its own, or a call. -/
theorem muxMove_single {up up' : Nat → Bool} {out : List Out} (move : MuxMove up out up') :
    (∃ o, out = [o] ∧ o.plain ∧ up' = up) ∨ ∃ call, out = [.call call] := by
  cases move with
  | send o plain => exact .inl ⟨o, rfl, plain, rfl⟩
  | _ => exact .inr ⟨_, rfl⟩

/-- What a moment reads of the world: not the log, not the links. -/
structure SameNet (w w' : World) : Prop where
  cfg : w'.cfg = w.cfg
  obpFd : w'.obpFd = w.obpFd
  obpActive : w'.obpActive = w.obpActive

theorem SameNet.env {w w' : World} (same : SameNet w w') (now : Rat) : w'.env now = w.env now := by
  have enabled : obpPeerIsEnabled w' = obpPeerIsEnabled w := by
    funext peer
    simp [obpPeerIsEnabled, same.cfg, same.obpActive]
  simp [World.env, same.cfg, enabled]

theorem SameNet.datagram {w w' : World} (same : SameNet w w') : w'.datagram = w.datagram := by
  funext o
  cases o <;> simp [World.datagram, same.cfg, same.obpFd]

theorem SameNet.of_core {w w' w'' : World} (same : SameNet w w') (core : w''.core = w'.core) : SameNet w w'' := by
  obtain ⟨cfg, -, -, -, -, -, -, -, obpFd, obpActive⟩ := (core_eq_iff w'' w').mp core
  exact ⟨cfg.trans same.cfg, obpFd.trans same.obpFd, obpActive.trans same.obpActive⟩

/-- The calls of a mux function, carried out one after the other. -/
theorem replay_moments (c : Ctx) {w : World} {ok : TrEvent → Prop} {up up' : Nat → Bool}
    {os : List Out} (moves : Trace MuxMove up os up')
    (fits : ∀ call, .call call ∈ os → ∀ rand, ok (call.event rand)) (s : System) (k : Nat)
    (same : SameNet w s.world) :
    ∃ log, ((os.zipIdx k).foldl (replay c) s).world.out = s.world.out ++ log ∧
      Trace (Moment c w ok) ⟨up, s.tr⟩ log ⟨up', ((os.zipIdx k).foldl (replay c) s).tr⟩ := by
  induction moves generalizing s k with
  | nil up => exact ⟨[], by simp, .nil _⟩
  | @cons up₀ up₁ up₂ out rest first later ih =>
    -- the items go one by one, each with what it makes the translator send
    rcases muxMove_single first with ⟨o, rfl, plain, rfl⟩ | ⟨call, rfl⟩
    · obtain ⟨log, logged, moments⟩ := ih (fun call member => fits call (by simp [member]))
        { s with world := s.world.emit o } (k + 1) (same.of_core rfl)
      refine ⟨[o] ++ log, ?_, .cons (.send o plain) ?_⟩
      · rw [List.cons_append, List.nil_append, List.zipIdx_cons, List.foldl_cons, replay_plain c s plain, logged]
        simp [World.emit]
      · rw [List.cons_append, List.nil_append, List.zipIdx_cons, List.foldl_cons, replay_plain c s plain]
        exact moments
    · -- the call is logged and what it makes the translator send comes behind it
      have called : s.replay c (.call call, k) =
          System.translate c (call.event (c.rand k)) { s with world := s.world.emit (.call call) } := rfl
      have env : (s.world.emit (.call call)).env c.now = w.env c.now := (same.of_core rfl : SameNet w (s.world.emit (.call call))).env c.now
      have sent : (s.world.emit (.call call)).messages
            (translatorStep (w.env c.now) (call.event (c.rand k)) s.tr).2 =
          w.messages (translatorStep (w.env c.now) (call.event (c.rand k)) s.tr).2 := by
        have frames := muxMove_frames first (w.env c.now) (c.rand k) s.tr
        rw [messages_frames _ _ frames, messages_frames _ _ frames,
          (same.of_core rfl : SameNet w (s.world.emit (.call call))).datagram]
      obtain ⟨log, logged, moments⟩ := ih (fun call member => fits call (by simp [member]))
        (s.replay c (.call call, k)) (k + 1) (same.of_core (core_replay c s (.call call, k)))
      have tr : (s.replay c (.call call, k)).tr =
          (translatorStep (w.env c.now) (call.event (c.rand k)) s.tr).1 := by
        rw [called, System.translate, env]
      rw [tr] at moments
      refine ⟨_, ?_, .cons (.call call (c.rand k) first (fits call (by simp) _)) moments⟩
      rw [List.cons_append, List.nil_append, List.zipIdx_cons, List.foldl_cons, logged, called, translate_out]
      dsimp only
      rw [env, sent]
      simp [World.emit]

/-- A callback of the mux. -/
theorem callback_moments (c : Ctx) {w : World} {ok : TrEvent → Prop} {s : System} {f : World → World}
    (same : SameNet w s.world) (works : Works s.world.unlogged (f s.world.unlogged))
    (fits : ∀ call, .call call ∈ (f s.world.unlogged).out → ∀ rand, ok (call.event rand)) :
    ∃ log, (s.callback c f).world.out = s.world.out ++ log ∧
      Trace (Moment c w ok) ⟨s.world.isUp, s.tr⟩ log ⟨(s.callback c f).world.isUp, (s.callback c f).tr⟩ := by
  obtain ⟨os, out, moves⟩ := works.log
  have own : (f s.world.unlogged).out = os := by simpa using out
  have isUp : (s.callback c f).world.isUp = (f s.world.unlogged).isUp := by
    funext j
    simp [World.isUp, links_of_core (core_callback c f s)]
  have kept : SameNet w { f s.world.unlogged with out := s.world.out } :=
    ⟨works.cfg.trans same.cfg, works.obpFd.trans same.obpFd, works.obpActive.trans same.obpActive⟩
  obtain ⟨log, logged, moments⟩ := replay_moments c moves (own ▸ fits)
    { s with world := { f s.world.unlogged with out := s.world.out } } 0 kept
  refine ⟨log, ?_, ?_⟩
  · rw [callback, own]
    exact logged
  · rw [isUp, callback, own]
    exact moments

theorem callback_net (c : Ctx) {s : System} {f : World → World}
    (works : Works s.world.unlogged (f s.world.unlogged)) : SameNet s.world (s.callback c f).world :=
  SameNet.of_core ⟨works.cfg, works.obpFd, works.obpActive⟩ (core_callback c f s)

/-- A callback that logs nothing calls nobody. -/
theorem callback_silent (c : Ctx) {s : System} {f : World → World} (silent : (f s.world.unlogged).out = []) :
    s.callback c f = { s with world := { f s.world.unlogged with out := s.world.out } } := by
  simp [callback, silent]

end System

/-! ## Events -/

/-- The frame a datagram at a peer's socket carries. -/
def System.Event.delivers (w : World) : System.Event → Nat → DmrdBody → Prop
  | .readable fd (.datagram bytes srcIp srcPort), peer, body =>
    0 ≤ fd ∧ FdTable.lookup w.loop.fds fd = some (.obp peer) ∧
      acceptDmrd (w.cfg.openbridgeAt peer) bytes srcIp srcPort = some body
  | _, _, _ => False

/-- What the translator may be called for in an event: a frame only if it arrives, a tick only at one. -/
def System.Event.permits (w : World) (e : System.Event) : TrEvent → Prop
  | .obpDmrdReceived peer body => e.delivers w peer body
  | .tick => ∃ fresh, e = .tick fresh
  | _ => True

/-- The event is a link-down call. -/
def TrEvent.isDown (ev : TrEvent) : Prop := ∃ i, ev = .ccccLinkDown i

section Dispatch
variable (c : Ctx) {w : World} {ph : Phase}

theorem readable_works (fd : Int) (input : FdInput) : Works w (World.readable c fd input w) ∨
    ∃ peer body, System.Event.delivers w (.readable fd input) peer body ∧
      World.readable c fd input w = w.emit (.call (.dmrd peer body)) := by
  unfold World.readable
  split
  · exact .inl (.refl w)
  next nonneg =>
    split
    · exact .inl (.voiceReadable c _ _ _ w)
    · exact .inl (.trialReadable _ _ _ w)
    · exact .inl (.listenReadable c _ w)
    next peer bytes srcIp srcPort found =>
      unfold onObpReadable
      split
      next body accepted => exact .inr ⟨peer, body, ⟨not_lt.mp nonneg, found, accepted⟩, rfl⟩
      next => exact .inl (.refl w)
    · exact .inl (.pendingReadable c _ _ w)
    · exact .inl (.linkReadable c _ _ w)
    · exact .inl (.refl w)

theorem writable_works (wf : Wf ph w) (fd : Int) (connected : Bool) : Works w (World.writable c fd connected w) := by
  unfold World.writable
  split
  · exact .refl w
  next nonneg =>
    split
    next i found =>
      obtain ⟨inside, owns⟩ := wf.link_of_write (not_lt.mp nonneg) found
      refine .connectWritable c i fd connected fun up => ?_
      rw [own_link w inside, linkOwn, up] at owns
      dsimp only at owns
      split at owns <;> simp at owns
    · exact .refl w

theorem fire_works (wf : Wf ph w) (id : Nat) : Works w (World.fire c id w) := by
  unfold World.fire
  split
  next cb due =>
    have handle := wf.armed.handle_of_live (evLive_of_due due)
    have inactive : Works w (w.onLoop (evTimerCancel (some id))) := .onLoop w _
    cases cb with
    | reconnect i =>
      have has : (w.links i).reconnectTimer = some id := handle
      have down := ((wf.links i).waiting.mp (by simp [has])).1
      exact inactive.trans (.reconnectCb c i (by simp [World.onLoop, down]))
    | keepalive i => exact inactive.trans (.keepaliveCb c i _)
    | pendingTimeout s => exact inactive.trans (.pendingTimeoutCb s _)
  · exact .refl w

theorem reconcile_works (wf : Wf ph w) : Works w (ccccMuxReconcile c w) := by
  -- a link that has not had its turn stands as the old toggles say
  have turns := List.foldl_turns (reconcileLink c)
    (fun rest v => Wf { ph with stale := fun _ => True } v ∧ Works w v ∧ ∀ i ∈ rest, i < v.cfg.nLink) ?_
    (List.range w.cfg.nLink) w ⟨wf.weaken id (.inr rfl) (by simp), .refl w, by simp⟩
  · exact turns.2.1
  · rintro i rest v ⟨kept, works, inside⟩
    refine ⟨kept.linkReconciled c (fun _ => True) (inside i (by simp)) (by simp), works.trans ?_, fun j member => ?_⟩
    · refine .reconcileLink c i fun outbound off up => ?_
      have active := (kept.links i).trying outbound (by simp [up])
      rw [off] at active
      cases active
    · rw [reconcileLink_cfg]
      exact inside j (by simp [member])

section CloseShared
variable (fd : Int) (v : World)

theorem closeShared_cfg : (closeShared fd v).cfg = v.cfg := by
  unfold closeShared
  split <;> rfl

theorem closeShared_obpFd : (closeShared fd v).obpFd = v.obpFd := by
  unfold closeShared
  split <;> rfl

theorem closeShared_obpActive : (closeShared fd v).obpActive = v.obpActive := by
  unfold closeShared
  split <;> rfl

theorem closeShared_out : (closeShared fd v).out = v.out := by
  unfold closeShared
  split <;> rfl

theorem closeShared_links : (closeShared fd v).links = v.links := by
  unfold closeShared
  split <;> rfl

end CloseShared

theorem Works.stopLink (i : Nat) (w : World) : Works w (stopLink c w i) := by
  have off : Works w ((w.onLoop (evTimerCancel (w.links i).reconnectTimer)).setLink i
      { w.links i with active := false, reconnectTimer := none }) := (onLoop w _).trans (setLink Iff.rfl)
  simp only [Cc2obp.stopLink]
  split
  · exact off.trans (teardown c i _)
  · exact off

theorem stop_works (w : World) : Works w (ccccMuxStop c w) := by
  have links := List.foldl_turns (stopLink c) (fun _ v => Works w v)
    (fun i rest v works => works.trans (.stopLink c i v)) (List.range w.cfg.nLink) w (.refl w)
  have slots := List.foldl_turns stopPending (fun _ v => Works w v) (fun s rest v works => by
    refine works.trans ?_
    unfold stopPending
    split
    · exact .freePending s true v
    · exact .refl v) (List.range maxPending) _ links
  simp only [ccccMuxStop]
  refine slots.trans (.quiet ?_ ?_ ?_ ?_ (funext fun i => ?_))
  · simp only [closeShared_cfg]
  · simp only [closeShared_obpFd]
  · simp only [closeShared_obpActive]
  · simp only [closeShared_out]
  · simp only [World.isUp, closeShared_links]

end Dispatch

/-! ## Which calls an event makes -/

/-- The mux never passes on a frame of its own. -/
theorem muxMoves_calls {up up' : Nat → Bool} {os : List Out} (moves : Trace MuxMove up os up') :
    ∀ call, .call call ∈ os → ∀ peer body, call ≠ .dmrd peer body := by
  induction moves with
  | nil => simp
  | cons first rest ih =>
    rintro call member peer body rfl
    rcases List.mem_append.mp member with here | later
    · cases first with
      | send o plain =>
        obtain rfl := List.mem_singleton.mp here
        exact plain
      | _ => simp at here
    · exact ih _ later peer body rfl

/-- A call the CC-CC mux may make. -/
def TrEvent.ofMux : TrEvent → Prop
  | .obpDmrdReceived .. => False
  | .tick => False
  | _ => True

theorem ofMux_of_works {w w' : World} (works : Works w w') (empty : w.out = []) :
    ∀ call, .call call ∈ w'.out → ∀ rand, (call.event rand).ofMux := by
  obtain ⟨os, out, moves⟩ := works.log
  rw [out, empty, List.nil_append]
  intro call member rand
  have noFrame := muxMoves_calls moves call member
  cases call with
  | dmrd peer body => exact absurd rfl (noFrame peer body)
  | _ => trivial

theorem TrEvent.ofMux.permits {ev : TrEvent} (ofMux : ev.ofMux) (e : System.Event) (w : World) : e.permits w ev := by
  cases ev <;> first | exact ofMux.elim | trivial

theorem Moment.mono {c : Ctx} {w : World} {ok ok' : TrEvent → Prop} (weaker : ∀ ev, ok ev → ok' ev) {g g' : Stage}
    {out : List Out} (moment : Moment c w ok g out g') : Moment c w ok' g out g' := by
  cases moment with
  | send o plain => exact .send o plain
  | call call rand move fits => exact .call call rand move (weaker _ fits)
  | frame peer body arrived => exact .frame peer body (weaker _ arrived)
  | tick now => exact .tick (weaker _ now)

/-- All that is logged is link-down calls. -/
def Downs (w w' : World) : Prop := ∃ os, w'.out = w.out ++ os ∧ ∀ o ∈ os, ∃ i, o = .call (.linkDown i)

namespace Downs

variable {w w' w'' : World} (c : Ctx)

theorem silent (out : w'.out = w.out) : Downs w w' := ⟨[], by simp [out], by simp⟩

theorem trans (first : Downs w w') (second : Downs w' w'') : Downs w w'' := by
  obtain ⟨os, out, downs⟩ := first
  obtain ⟨os', out', downs'⟩ := second
  refine ⟨os ++ os', by rw [out', out, List.append_assoc], fun o member => ?_⟩
  rcases List.mem_append.mp member with here | later
  · exact downs o here
  · exact downs' o later

theorem teardown (i : Nat) (w : World) : Downs w (teardownLinkConnection c i w) := by
  refine ⟨_, teardown_out c i w, fun o member => ?_⟩
  split at member
  · exact ⟨i, List.mem_singleton.mp member⟩
  · simp at member

theorem dial (i : Nat) (w : World) : Downs w (ccccStartOutboundConnect c i w) := by
  refine silent ?_
  simp only [ccccStartOutboundConnect]
  split
  · rfl
  · split <;> rfl

theorem reconcile (w : World) : Downs w (ccccMuxReconcile c w) :=
  List.foldl_turns (reconcileLink c) (fun _ v => Downs w v) (fun i rest v downs => by
    refine downs.trans ?_
    simp only [reconcileLink]
    split
    · split
      · exact dial c i _
      · split
        · split
          · exact teardown c i _
          · exact silent rfl
        · exact silent rfl
    · split
      · exact teardown c i _
      · exact silent rfl) _ w (silent rfl)

theorem stop (w : World) : Downs w (ccccMuxStop c w) := by
  have links : Downs w ((List.range w.cfg.nLink).foldl (stopLink c) w) :=
    List.foldl_turns (stopLink c) (fun _ v => Downs w v) (fun i rest v downs => by
      refine downs.trans ?_
      simp only [stopLink]
      split
      · exact teardown c i _
      · exact silent rfl) _ w (silent rfl)
  have slots := List.foldl_turns stopPending
    (fun _ v => Downs ((List.range w.cfg.nLink).foldl (stopLink c) w) v) (fun s rest v downs => by
      refine downs.trans (silent ?_)
      unfold stopPending
      split
      · simp only [freePending]
        split <;> rfl
      · rfl) (List.range maxPending) _ (silent rfl)
  refine (links.trans slots).trans (silent ?_)
  simp only [ccccMuxStop, closeShared_out]

end Downs

theorem isDown_of_downs {w w' : World} (downs : Downs w.unlogged w') :
    ∀ call, .call call ∈ w'.out → ∀ rand, (call.event rand).isDown := by
  obtain ⟨os, out, all⟩ := downs
  rw [out]
  intro call member rand
  obtain ⟨i, down⟩ := all _ (by simpa using member)
  cases down
  exact ⟨i, rfl⟩

/-! ## OpenBridge sockets -/

/-- What a change of a peer's socket leaves alone. -/
structure SocketsOnly (w w' : World) : Prop where
  cfg : w'.cfg = w.cfg
  links : w'.links = w.links
  out : w'.out = w.out

namespace SocketsOnly

variable {w w' w'' : World}

theorem refl (w : World) : SocketsOnly w w := ⟨rfl, rfl, rfl⟩

theorem trans (first : SocketsOnly w w') (second : SocketsOnly w' w'') : SocketsOnly w w'' :=
  ⟨second.cfg.trans first.cfg, second.links.trans first.links, second.out.trans first.out⟩

theorem bindPeer (c : Ctx) (peer : Nat) (w : World) : SocketsOnly w (bindPeer c peer w) := by
  unfold Cc2obp.bindPeer
  split <;> exact ⟨rfl, rfl, rfl⟩

theorem unbindPeer (peer : Nat) (w : World) : SocketsOnly w (unbindPeer peer w) := by
  by_cases bound : 0 ≤ w.obpFd peer
  · simp only [Cc2obp.unbindPeer, bound, if_true]
    exact ⟨rfl, rfl, rfl⟩
  · simp only [Cc2obp.unbindPeer, bound, if_false]
    exact ⟨rfl, rfl, rfl⟩

theorem reconcile (c : Ctx) (w : World) : SocketsOnly w (obpMuxReconcile c w) :=
  List.foldl_turns (reconcilePeer c) (fun _ v => SocketsOnly w v) (fun peer rest v kept => by
    refine kept.trans ?_
    simp only [reconcilePeer]
    split
    · exact bindPeer c peer v
    · split
      · exact unbindPeer peer v
      · exact refl v) _ w (refl w)

theorem stop (w : World) : SocketsOnly w (obpMuxStop w) :=
  List.foldl_turns _ (fun _ v => SocketsOnly w v) (fun peer rest v kept => by
    refine kept.trans ?_
    split
    · exact unbindPeer peer v
    · exact refl v) _ w (refl w)

theorem isUp (only : SocketsOnly w w') : w'.isUp = w.isUp := by
  funext i
  simp [World.isUp, only.links]

end SocketsOnly

namespace System

variable {s : System}

/-- A callback that concerns the peers' sockets only. -/
theorem callback_sockets (c : Ctx) {f : World → World} (only : SocketsOnly s.world.unlogged (f s.world.unlogged)) :
    (s.callback c f).world.out = s.world.out ∧ (s.callback c f).world.isUp = s.world.isUp ∧
      (s.callback c f).tr = s.tr ∧ (s.callback c f).world.cfg = s.world.cfg := by
  rw [callback_silent c only.out]
  exact ⟨rfl, only.isUp, rfl, only.cfg⟩

/-- The configuration the event leaves behind. -/
def Event.reloads (e : Event) (w : World) : World :=
  match e with
  | .tick (some fresh) => w.reload fresh
  | _ => w

theorem step_out (c : Ctx) (e : Event) : (s.step (c, e)).2 = (s.cleared.react c e).world.out := rfl

theorem step_state (c : Ctx) (e : Event) : (s.step (c, e)).1 = (s.cleared.react c e).cleared := rfl

theorem step_stage (c : Ctx) (e : Event) : Stage.mk (s.step (c, e)).1.world.isUp (s.step (c, e)).1.tr =
    ⟨(s.cleared.react c e).world.isUp, (s.cleared.react c e).tr⟩ := rfl

/-- The tick, before any reload. -/
theorem tick_moment (c : Ctx) (s : System) (fresh : Option Config) :
    (s.cleared.translate c .tick).world.core = s.world.core ∧
      (s.cleared.translate c .tick).world.out = s.world.messages (translatorStep (s.world.env c.now) .tick s.tr).2 ∧
      Trace (Moment c s.world ((Event.tick fresh).permits s.world)) ⟨s.world.isUp, s.tr⟩
        (s.cleared.translate c .tick).world.out
        ⟨(s.cleared.translate c .tick).world.isUp, (s.cleared.translate c .tick).tr⟩ := by
  have core : (s.cleared.translate c .tick).world.core = s.world.core := core_translate c .tick s.cleared
  have sent : (s.cleared.translate c .tick).world.out =
      s.world.messages (translatorStep (s.world.env c.now) .tick s.tr).2 := translate_out c .tick s.cleared
  have isUp : (s.cleared.translate c .tick).world.isUp = s.world.isUp := by
    funext j
    simp only [World.isUp, links_of_core core]
  refine ⟨core, sent, ?_⟩
  rw [sent, isUp]
  exact .single (.tick ⟨fresh, rfl⟩)

section Reload
variable {ph : Phase}

theorem wf_beforeReconcile (wf : Wf ph s.world) (fresh : Config) :
    Wf { ph with stale := fun _ => True } (s.world.reload fresh).unlogged :=
  wf_unlogged (s := { s with world := s.world.reload fresh }) (wf.reloaded fresh)

theorem reload_cfg (wf : Wf ph s.world) (c : Ctx) (fresh : Config) :
    (s.doReload c fresh).world.cfg = configReloadToggles fresh s.world.cfg := by
  obtain ⟨-, -, -, same⟩ := callback_sockets c (s := s.midReload c fresh) (SocketsOnly.reconcile c _)
  have links := callback_net c (s := { s with world := s.world.reload fresh })
    (reconcile_works c (wf_beforeReconcile wf fresh))
  rw [doReload_eq]
  exact same.trans links.cfg

/-- Of the links and the calls a reload changes nothing but what link-down calls change. -/
theorem reload_moments (wf : Wf ph s.world) (c : Ctx) (fresh : Config) {w : World}
    (net : SameNet w (s.world.reload fresh)) :
    ∃ log, (s.doReload c fresh).world.out = s.world.out ++ log ∧
      Trace (Moment c w TrEvent.isDown) ⟨s.world.isUp, s.tr⟩ log
        ⟨(s.doReload c fresh).world.isUp, (s.doReload c fresh).tr⟩ := by
  obtain ⟨log, logged, moments⟩ := callback_moments c (s := { s with world := s.world.reload fresh }) net
    (reconcile_works c (wf_beforeReconcile wf fresh)) (isDown_of_downs (.reconcile c _))
  obtain ⟨out, same, tr, -⟩ := callback_sockets c (s := s.midReload c fresh) (SocketsOnly.reconcile c _)
  rw [doReload_eq]
  refine ⟨log, out.trans logged, ?_⟩
  rw [same, tr]
  exact moments

end Reload

/-- A frame handed to the translator, with what it wrote. -/
def frameStep (c : Ctx) (peer : Nat) (body : DmrdBody) (s : System) : System × List Out :=
  let s := System.translate c (.obpDmrdReceived peer body)
    { s with world := s.world.unlogged.emit (.call (.dmrd peer body)) }
  (s.cleared, s.world.out)

theorem frameStep_out (c : Ctx) (peer : Nat) (body : DmrdBody) (s : System) : (s.frameStep c peer body).2 =
    .call (.dmrd peer body) :: s.world.messages (translatorStep (s.world.env c.now) (.obpDmrdReceived peer body) s.tr).2 := by
  have env : (s.world.unlogged.emit (.call (.dmrd peer body))).env c.now = s.world.env c.now := rfl
  simp only [frameStep, translate_out, env]
  rfl

theorem frameStep_isUp (c : Ctx) (peer : Nat) (body : DmrdBody) (s : System) :
    (s.frameStep c peer body).1.world.isUp = s.world.isUp := by
  funext j
  have core : (s.frameStep c peer body).1.world.core = s.world.core := core_translate c _ _
  simp only [World.isUp, links_of_core core]

theorem frameStep_tr (c : Ctx) (peer : Nat) (body : DmrdBody) (s : System) : (s.frameStep c peer body).1.tr =
    (translatorStep (s.world.env c.now) (.obpDmrdReceived peer body) s.tr).1 := rfl

/-- A datagram that is accepted is that frame, whatever else it says. -/
theorem step_frame (c : Ctx) {fd : Int} {bytes srcIp : List Byte} {srcPort : Int} {peer : Nat} {body : DmrdBody}
    (nonneg : 0 ≤ fd) (found : FdTable.lookup s.world.loop.fds fd = some (.obp peer))
    (accepted : acceptDmrd (s.world.cfg.openbridgeAt peer) bytes srcIp srcPort = some body) :
    s.step (c, .readable fd (.datagram bytes srcIp srcPort)) = s.frameStep c peer body := by
  have called : World.readable c fd (.datagram bytes srcIp srcPort) s.cleared.world.unlogged =
      s.cleared.world.unlogged.emit (.call (.dmrd peer body)) := by
    have here : FdTable.lookup s.cleared.world.unlogged.loop.fds fd = some (.obp peer) := found
    have passes : acceptDmrd (s.cleared.world.unlogged.cfg.openbridgeAt peer) bytes srcIp srcPort = some body := accepted
    simp only [World.readable, not_lt.mpr nonneg, if_false, here, onObpReadable, passes]
  have turn : s.cleared.react c (.readable fd (.datagram bytes srcIp srcPort)) =
      System.translate c (.obpDmrdReceived peer body)
        { s with world := s.world.unlogged.emit (.call (.dmrd peer body)) } := by
    rw [react, callback, called]
    rfl
  rw [step, turn]
  rfl

/-- What happens in an event: a frame arrives at a peer's socket, the CC-CC mux is called back, or the clock
ticks and a reload may follow. -/
inductive StepKind (c : Ctx) (s : System) (e : Event) : Prop
  | frame (peer : Nat) (body : DmrdBody) (delivers : e.delivers s.world peer body)
      (logged : (s.step (c, e)).2 = .call (.dmrd peer body) ::
        s.world.messages (translatorStep (s.world.env c.now) (.obpDmrdReceived peer body) s.tr).2)
      (isUp : (s.step (c, e)).1.world.isUp = s.world.isUp)
      (tr : (s.step (c, e)).1.tr = (translatorStep (s.world.env c.now) (.obpDmrdReceived peer body) s.tr).1)
  | mux (moments : Trace (Moment c s.world TrEvent.ofMux) ⟨s.world.isUp, s.tr⟩ (s.step (c, e)).2
      ⟨(s.step (c, e)).1.world.isUp, (s.step (c, e)).1.tr⟩)
  | tick (fresh : Option Config) (here : e = .tick fresh) (log : List Out)
      (logged : (s.step (c, e)).2 = s.world.messages (translatorStep (s.world.env c.now) .tick s.tr).2 ++ log)
      (moments : Trace (Moment c (e.reloads s.world) TrEvent.isDown)
        ⟨s.world.isUp, (translatorStep (s.world.env c.now) .tick s.tr).1⟩ log
        ⟨(s.step (c, e)).1.world.isUp, (s.step (c, e)).1.tr⟩)

theorem step_kind {orphans : Prop} (wf : Wf { orphans } s.world) (c : Ctx) (e : Event) : StepKind c s e := by
  have here : SameNet s.world s.cleared.world := ⟨rfl, rfl, rfl⟩
  have unlogged : Wf { orphans } s.cleared.world.unlogged := wf_unlogged (wf_unlogged wf)
  -- an event that is one callback of the mux
  have byMux : ∀ f : World → World, Works s.cleared.world.unlogged (f s.cleared.world.unlogged) →
      s.cleared.react c e = s.cleared.callback c f → StepKind c s e := by
    intro f works reacts
    obtain ⟨log, logged, moments⟩ := callback_moments c here works (ofMux_of_works works rfl)
    refine .mux ?_
    have own : (s.cleared.callback c f).world.out = log := by simpa [System.cleared] using logged
    rw [step_out, step_stage, reacts, own]
    exact moments
  cases e with
  | readable fd input =>
    rcases readable_works c (w := s.cleared.world.unlogged) fd input with works | ⟨peer, body, delivers, called⟩
    · exact byMux _ works rfl
    · -- the datagram's event is the frame's
      cases input with
      | datagram bytes srcIp srcPort =>
        have frame : s.step (c, .readable fd (.datagram bytes srcIp srcPort)) = s.frameStep c peer body :=
          step_frame c delivers.1 delivers.2.1 delivers.2.2
        refine .frame peer body delivers ?_ ?_ ?_
        · rw [frame, frameStep_out]
        · rw [frame, frameStep_isUp]
        · rw [frame, frameStep_tr]
      | recv => exact delivers.elim
      | accepted => exact delivers.elim
  | writable fd connected => exact byMux _ (writable_works c unlogged fd connected) rfl
  | timer id => exact byMux _ (fire_works c unlogged id) rfl
  | tick fresh =>
    obtain ⟨core, sent, -⟩ := tick_moment c s fresh
    have tr : (s.cleared.translate c .tick).tr = (translatorStep (s.world.env c.now) .tick s.tr).1 := rfl
    have isUp : (s.cleared.translate c .tick).world.isUp = s.world.isUp := by
      funext j
      simp only [World.isUp, links_of_core core]
    have idles : s.cleared.react c (.tick none) = s.cleared.translate c .tick := rfl
    have reloads : ∀ fresh, s.cleared.react c (.tick (some fresh)) = (s.cleared.translate c .tick).doReload c fresh :=
      fun _ => rfl
    generalize s.cleared.translate c .tick = ticked at core sent tr isUp idles reloads
    cases fresh with
    | none =>
      refine .tick none rfl [] ?_ ?_
      · rw [step_out, idles, sent, List.append_nil]
      · rw [step_stage, idles, isUp, tr]
        exact .nil _
    | some fresh =>
      have net : SameNet (s.world.reload fresh) (ticked.world.reload fresh) := by
        obtain ⟨cfg, -, -, -, -, -, -, -, obpFd, obpActive⟩ := (core_eq_iff _ _).mp core
        exact ⟨by simp only [World.reload, cfg], obpFd, obpActive⟩
      obtain ⟨log, logged, moments⟩ := reload_moments (s := ticked) (wf.of_core core.symm) c fresh net
      rw [isUp, tr] at moments
      refine .tick (some fresh) rfl log ?_ ?_
      · rw [step_out, reloads, logged, sent]
      · rw [step_stage, reloads]
        exact moments

/-- An event is a chain of moments, under the old toggles and then under those it loads. -/
theorem step_moments {orphans : Prop} (wf : Wf { orphans } s.world) (c : Ctx) (e : Event) :
    ∃ mid before after, (s.step (c, e)).2 = before ++ after ∧
      Trace (Moment c s.world (e.permits s.world)) ⟨s.world.isUp, s.tr⟩ before mid ∧
      Trace (Moment c (e.reloads s.world) TrEvent.isDown) mid after
        ⟨(s.step (c, e)).1.world.isUp, (s.step (c, e)).1.tr⟩ := by
  cases step_kind wf c e with
  | frame peer body delivers logged isUp tr =>
    rw [logged, isUp, tr]
    exact ⟨_, _, [], (List.append_nil _).symm, .single (.frame peer body delivers), .nil _⟩
  | mux moments =>
    refine ⟨_, _, [], (List.append_nil _).symm, moments.mono ?_, .nil _⟩
    exact fun _ _ _ moment => moment.mono fun _ ofMux => ofMux.permits e s.world
  | tick fresh here log logged moments =>
    subst here
    rw [logged]
    exact ⟨_, _, _, rfl, .single (.tick ⟨fresh, rfl⟩), moments⟩

/-- Only a reload changes toggles or sockets. -/
theorem step_net {orphans : Prop} (wf : Wf { orphans } s.world) (c : Ctx) (e : Event)
    (noReload : ∀ fresh, e ≠ .tick (some fresh)) : SameNet s.world (s.step (c, e)).1.world := by
  have unlogged : Wf { orphans } s.cleared.world.unlogged := wf_unlogged (wf_unlogged wf)
  have reacted : SameNet s.cleared.world (s.cleared.react c e).world := by
    cases e with
    | readable fd input =>
      rcases readable_works c (w := s.cleared.world.unlogged) fd input with works | ⟨peer, body, -, called⟩
      · exact callback_net c works
      · refine SameNet.of_core (w := s.cleared.world) ⟨rfl, rfl, rfl⟩ ?_
        rw [react, core_callback, called]
        rfl
    | writable fd connected => exact callback_net c (writable_works c unlogged fd connected)
    | timer id => exact callback_net c (fire_works c unlogged id)
    | tick fresh =>
      cases fresh with
      | none => exact .of_core ⟨rfl, rfl, rfl⟩ (core_translate c .tick s.cleared)
      | some fresh => exact absurd rfl (noReload fresh)
  exact ⟨reacted.cfg, reacted.obpFd, reacted.obpActive⟩

theorem step_cfg {orphans : Prop} (wf : Wf { orphans } s.world) (c : Ctx) (e : Event) :
    (s.step (c, e)).1.world.cfg = (e.reloads s.world).cfg := by
  by_cases reload : ∃ fresh, e = .tick (some fresh)
  · obtain ⟨fresh, rfl⟩ := reload
    obtain ⟨core, -, -⟩ := tick_moment c s none
    have cleared : ∀ s' : System, s'.cleared.world.cfg = s'.world.cfg := fun _ => rfl
    rw [step_state, cleared]
    simp only [react, tickCb]
    generalize s.cleared.translate c .tick = ticked at core
    have cfg : ticked.world.cfg = s.world.cfg := ((core_eq_iff _ _).mp core).1
    have kept : Wf { orphans } ticked.world := wf.of_core core.symm
    rw [reload_cfg kept c fresh, cfg]
    rfl
  · have kept : e.reloads s.world = s.world := by
      cases e with
      | tick fresh =>
        cases fresh with
        | none => rfl
        | some fresh => exact absurd ⟨fresh, rfl⟩ reload
      | _ => rfl
    rw [kept, (step_net wf c e fun fresh here => reload ⟨fresh, here⟩).cfg]

/-- A reload leaves everything but the toggles alone. -/
theorem reloads_fixed (e : Event) (w : World) : (e.reloads w).cfg.fixed = w.cfg.fixed := by
  cases e with
  | tick fresh =>
    cases fresh with
    | none => rfl
    | some fresh => exact fixed_configReloadToggles fresh w.cfg
  | _ => rfl

/-- So is the shutdown. -/
theorem shutdown_moments (c : Ctx) (s : System) :
    Trace (Moment c s.world TrEvent.isDown) ⟨s.world.isUp, s.tr⟩ (s.shutdown c).2
      ⟨(s.shutdown c).1.world.isUp, (s.shutdown c).1.tr⟩ := by
  have here : SameNet s.world s.cleared.world := ⟨rfl, rfl, rfl⟩
  obtain ⟨log, logged, moments⟩ := callback_moments c here (stop_works c s.cleared.world.unlogged)
    (isDown_of_downs (.stop c _))
  obtain ⟨out, same, tr, -⟩ := callback_sockets c (s := s.cleared.callback c (ccccMuxStop c)) (SocketsOnly.stop _)
  have closed : ∀ s' : System, Stage.mk s'.cleared.world.isUp s'.cleared.tr = ⟨s'.world.isUp, s'.tr⟩ := fun _ => rfl
  simp only [shutdown]
  rw [closed, out, same, tr, logged]
  exact moments

end System

end Cc2obp
