import Cc2obp.System.CcCalls

/-!
# A closed gate

While a link is disabled, does not cross-connect or has no socket toward its
peer, no event starts anything for it in either direction: what is still sent for
the link closes a call that was open before.
-/
namespace Cc2obp

open World

/-- The gate of a link is closed for one of its three reasons. -/
def World.GateClosed (w : World) (i : Nat) : Prop :=
  (w.cfg.linkAt i).enabled = false ∨ (w.cfg.linkAt i).crossConnectActive = false ∨
    ∀ peer, (w.cfg.linkAt i).openbridgeIdx = some peer → w.cfg.nOpenbridge ≤ peer ∨ w.obpFd peer < 0

/-- A message for the link is a VOICE_TERM or a B-off that closes the call on record. -/
def Out.ClosingOnly (i : Nat) (lr : LinkRuntime) : Out → Prop
  | .tcp link _ (.bon ..) _ => link ≠ i
  | .tcp link _ (.boff ..) _ => link = i → lr.inCall .obp = true
  | .udp _ (.voice link ..) .. => link ≠ i
  | .udp _ (.dmrd link _) bytes _ _ => link = i → lr.inCall .cc = true ∧
    (datagramBody bytes).flags = vtermFlags ∧ (datagramBody bytes).stream = lr.call.streamId
  | _ => True

/-- A call on record was on record before. -/
def Older (before lr : LinkRuntime) : Prop :=
  ∀ origin, lr.inCall origin = true → before.inCall origin = true ∧ lr.call.streamId = before.call.streamId

/-- What a call of the translator for a link may be while the gate is closed. -/
def TrOut.ClosingOnly (w : World) (lr : LinkRuntime) : TrOut → Prop
  | .obpSendDmrd _ peer body =>
    (w.cfg.nOpenbridge ≤ peer ∨ w.obpFd peer < 0) ∨
      lr.inCall .cc = true ∧ body.flags = vtermFlags ∧ body.stream = lr.call.streamId
  | .ccccSendBoff .. => lr.inCall .obp = true
  | _ => False

/-- An event starts no call of the link and sends no burst of a running one. -/
structure Barred (w : World) (now : Rat) (i : Nat) (lr : LinkRuntime) (ev : TrEvent) : Prop where
  start : ∀ radioId peerId srcLid tgid callType rand, ev = .ccccBon i radioId peerId srcLid tgid callType rand →
    (w.cfg.linkAt i).enabled = true → obpGateOpen (w.env now) i = false
  frame : ∀ peer body, ev = .obpDmrdReceived peer body → ¬Admitted (w.env now) i peer body
  burst : ∀ seq timestamp marker ambe21, ev = .ccccVoice i seq timestamp marker ambe21 →
    lr.inCall .cc = true → (w.cfg.linkAt i).crossConnectActive = true →
    ∀ peer, (w.cfg.linkAt i).openbridgeIdx = some peer → w.cfg.nOpenbridge ≤ peer ∨ w.obpFd peer < 0

/-- What remains of the steps of a link are the ends of its calls. -/
theorem LinkStep.closing {w : World} {now : Rat} {i : Nat} {ev : TrEvent} {lr lr' : LinkRuntime}
    {out : List TrOut} (step : LinkStep (w.env now) i ev lr out lr') (barred : Barred w now i lr ev)
    (enabled : ∀ radioId peerId srcLid tgid callType rand,
      ev = .ccccBon i radioId peerId srcLid tgid callType rand → (w.cfg.linkAt i).enabled = true) :
    (∀ o ∈ out, o.ClosingOnly w lr) ∧ Older lr lr' := by
  cases step with
  | quiet => exact ⟨by simp, fun origin active => ⟨active, rfl⟩⟩
  | ccStart _ _ _ _ _ _ _ _ gate =>
    rw [barred.start _ _ _ _ _ _ rfl (enabled _ _ _ _ _ _ rfl)] at gate
    cases gate
  | ccBurst _ _ _ _ _ resolved crossConnect active =>
    refine ⟨fun o member => ?_, fun origin active => ⟨active, rfl⟩⟩
    rw [List.mem_singleton.mp member]
    exact .inl (barred.burst _ _ _ _ rfl active crossConnect _ resolved)
  | ccEnd _ resolved active ending =>
    refine ⟨fun o member => ?_, fun origin active => by cases active⟩
    rw [List.mem_singleton.mp member]
    exact .inr ⟨active, by simp [fillDmrd], by simp [fillDmrd]⟩
  | obpStart _ peer body admitted => exact absurd admitted (barred.frame peer body rfl)
  | obpOrphan _ peer body admitted => exact absurd admitted (barred.frame peer body rfl)
  | obpBurst _ peer body admitted => exact absurd admitted (barred.frame peer body rfl)
  | obpEnd _ active ending =>
    refine ⟨fun o member => ?_, fun origin active => by cases active⟩
    rw [List.mem_singleton.mp member]
    exact active
  | cleared => exact ⟨by simp, fun origin active => by cases active⟩

theorem Older.refl (lr : LinkRuntime) : Older lr lr := fun _ active => ⟨active, rfl⟩

theorem Older.trans {a b c : LinkRuntime} (first : Older a b) (second : Older b c) : Older a c := by
  intro origin active
  obtain ⟨before, stream⟩ := second origin active
  obtain ⟨start, stream'⟩ := first origin before
  exact ⟨start, stream.trans stream'⟩

/-- What closes a call of the later record closes one of the earlier. -/
theorem Older.closing {i : Nat} {before lr : LinkRuntime} (older : Older before lr) {o : Out}
    (closing : o.ClosingOnly i lr) : o.ClosingOnly i before := by
  cases o with
  | call => trivial
  | tcp link fd msg bytes =>
    cases msg with
    | boff => exact fun here => (older .obp (closing here)).1
    | bon => exact closing
    | question => trivial
    | answer => trivial
  | udp fd msg bytes ip port =>
    cases msg with
    | dmrd link peer =>
      intro here
      obtain ⟨active, flags, stream⟩ := closing here
      exact ⟨(older .cc active).1, flags, stream.trans (older .cc active).2⟩
    | voice => exact closing
    | keepalive => trivial
    | reflect => trivial
    | trial => trivial

/-- A message is as closing as the call behind it. -/
theorem Writes.closing {w : World} {i : Nat} {lr : LinkRuntime} {t : TrOut} {o : Out} (writes : Writes w t o)
    (closing : t.link = i → t.eraseSeq.ClosingOnly w lr) : o.ClosingOnly i lr := by
  cases writes with
  | dmrd link peer body known bound =>
    intro here
    rcases closing here with unbound | ⟨active, flags, stream⟩
    · omega
    · exact ⟨active, by simpa using flags, by simpa using stream⟩
  | bon link => exact fun here => closing here
  | boff link => exact fun here => closing here
  | voice link => exact fun here => closing here

section Event
variable {w : World} {now : Rat} {i : Nat} {tr : Translator} {ev : TrEvent}

theorem bon_disabled (radioId peerId : BitVec 32) (srcLid tgid : Int) (callType : Byte) (rand : Bytes 4)
    (disabled : (w.cfg.linkAt i).enabled = false) :
    translatorStep (w.env now) (.ccccBon i radioId peerId srcLid tgid callType rand) tr = (tr, []) := by
  simp [translatorStep, translatorCcccBon, World.env, disabled]

/-- The messages of a barred event close calls on record, and it leaves no younger call. -/
theorem closing_event (resolved : Resolved w.cfg tr) (barred : Barred w now i (tr.link i) ev) :
    (∀ o ∈ w.messages (translatorStep (w.env now) ev tr).2, o.ClosingOnly i (tr.link i)) ∧
      Older (tr.link i) ((translatorStep (w.env now) ev tr).1.link i) := by
  by_cases off : ∃ radioId peerId srcLid tgid callType rand,
      ev = .ccccBon i radioId peerId srcLid tgid callType rand ∧ (w.cfg.linkAt i).enabled = false
  · -- a disabled link's B-on goes no further
    obtain ⟨radioId, peerId, srcLid, tgid, callType, rand, rfl, disabled⟩ := off
    rw [bon_disabled radioId peerId srcLid tgid callType rand disabled]
    exact ⟨by simp [World.messages], .refl _⟩
  · have step := translatorStep_link (w.env now) ev resolved i
    obtain ⟨closing, older⟩ := step.closing barred fun radioId peerId srcLid tgid callType rand bon => by
      by_contra disabled
      exact off ⟨_, _, _, _, _, _, bon, by simpa using disabled⟩
    refine ⟨fun o member => ?_, older⟩
    obtain ⟨t, sent, writes⟩ := mem_messages w member
    refine writes.closing fun here => closing _ ?_
    exact List.mem_map.mpr ⟨t, List.mem_filter.mpr ⟨sent, by simp [here]⟩, rfl⟩

end Event

theorem closing_plain {i : Nat} {lr : LinkRuntime} {o : Out} (plain : o.plain) : o.ClosingOnly i lr := by
  cases o with
  | call => trivial
  | tcp link fd msg bytes => cases msg <;> trivial
  | udp fd msg bytes ip port => cases msg <;> trivial

theorem Moment.closing {c : Ctx} {w : World} {ok : TrEvent → Prop} {g g' : Stage} {out : List Out} {i : Nat}
    (moment : Moment c w ok g out g') (resolved : Resolved w.cfg g.tr)
    (barred : ∀ ev, ok ev → Barred w c.now i (g.tr.link i) ev) :
    (∀ o ∈ out, o.ClosingOnly i (g.tr.link i)) ∧ Older (g.tr.link i) (g'.tr.link i) := by
  have behind : ∀ (call : TrCall) (log : List Out), (∀ o ∈ log, o.ClosingOnly i (g.tr.link i)) →
      ∀ o ∈ .call call :: log, o.ClosingOnly i (g.tr.link i) := by
    intro call log closing o member
    rcases List.mem_cons.mp member with rfl | later
    · trivial
    · exact closing o later
  cases moment with
  | send o plain =>
    refine ⟨fun o' member => ?_, .refl _⟩
    rw [List.mem_singleton.mp member]
    exact closing_plain plain
  | call call rand move fits =>
    obtain ⟨closing, older⟩ := closing_event resolved (barred _ fits)
    exact ⟨behind call _ closing, older⟩
  | frame peer body arrived =>
    obtain ⟨closing, older⟩ := closing_event resolved (barred _ arrived)
    exact ⟨behind _ _ closing, older⟩
  | tick now => exact closing_event resolved (barred _ now)

/-- A chain of barred moments sends nothing for the link but the ends of the calls it found. -/
theorem closing_trace {c : Ctx} {w : World} {ok : TrEvent → Prop} {g g' : Stage} {out : List Out} {i : Nat}
    {lr : LinkRuntime} (moments : Trace (Moment c w ok) g out g') (calls : CallsUp w.cfg g)
    (older : Older lr (g.tr.link i))
    (barred : ∀ record, Older lr record → ∀ ev, ok ev → Barred w c.now i record ev) :
    (∀ o ∈ out, o.ClosingOnly i lr) ∧ Older lr (g'.tr.link i) := by
  have whole := moments.invariant
    (fun g log => CallsUp w.cfg g ∧ Older lr (g.tr.link i) ∧ ∀ o ∈ log, o.ClosingOnly i lr) ?_ []
    ⟨calls, older, by simp⟩
  · exact ⟨by simpa using whole.2.2, whole.2.1⟩
  · rintro g before out g' ⟨calls, older, closed⟩ moment
    obtain ⟨closing, younger⟩ := moment.closing calls.resolved (barred _ older)
    refine ⟨calls.moment moment, older.trans younger, fun o member => ?_⟩
    rcases List.mem_append.mp member with old | new
    · exact closed o old
    · exact older.closing (closing o new)

theorem barred_down {w : World} {now : Rat} {i : Nat} {lr : LinkRuntime} {ev : TrEvent} (down : ev.isDown) :
    Barred w now i lr ev := by
  obtain ⟨j, rfl⟩ := down
  exact ⟨by simp, by simp, by simp⟩

namespace System

variable {s : System}

/-- A closed gate bars every event. -/
theorem Sound.barred (sound : Sound s) {i : Nat} (closed : s.world.GateClosed i) (now : Rat)
    {record : LinkRuntime} (older : Older (s.tr.link i) record) (ev : TrEvent) :
    Barred s.world now i record ev := by
  have gate : (s.world.cfg.linkAt i).enabled = true → obpGateOpen (s.world.env now) i = false := by
    intro enabled
    rcases closed with disabled | cross | unbound
    · rw [enabled] at disabled
      cases disabled
    · simp [obpGateOpen, World.env, cross]
    · have shut : (s.world.cfg.linkAt i).openbridgeIdx.any (obpPeerIsEnabled s.world) = false := by
        rw [Option.any_eq_false]
        intro peer resolved
        rcases unbound peer resolved with beyond | negative
        · simp [obpPeerIsEnabled, Nat.not_lt.mpr beyond]
        · simp [obpPeerIsEnabled, sound.wf.sockets, not_le.mpr negative]
      simp [obpGateOpen, World.env, shut]
  refine ⟨fun _ _ _ _ _ _ _ enabled => gate enabled, fun peer body _ admitted => ?_, fun _ _ _ _ _ active cross => ?_⟩
  · obtain ⟨-, -, enabled, open_⟩ := admitted
    rw [gate enabled] at open_
    cases open_
  · rcases closed with disabled | off | unbound
    · -- a disabled link is DOWN and has no cc-origin call
      have up := sound.calls.up i (older .cc active).1
      have down := ((sound.wf.links i).settled id).2 disabled
      simp [World.isUp, down] at up
    · rw [cross] at off
      cases off
    · exact unbound

/-- Whatever happens while the gate of a link is closed. -/
theorem Sound.closed_step (sound : Sound s) {i : Nat} (closed : s.world.GateClosed i) (e : Ctx × Event) :
    ∀ o ∈ (s.step e).2, o.ClosingOnly i (s.tr.link i) := by
  obtain ⟨c, e⟩ := e
  obtain ⟨mid, before, after, logged, first, second⟩ := step_moments sound.wf c e
  obtain ⟨closing, older⟩ := closing_trace first sound.calls (.refl _)
    fun record older ev _ => sound.barred closed c.now older ev
  obtain ⟨closing', -⟩ := closing_trace second
    (callsUp_of_fixed (reloads_fixed e s.world).symm (.trace first sound.calls)) older
    fun _ _ ev down => barred_down down
  intro o member
  rw [logged] at member
  rcases List.mem_append.mp member with early | late
  · exact closing o early
  · exact closing' o late

theorem Sound.closed_shutdown (sound : Sound s) (i : Nat) (c : Ctx) :
    ∀ o ∈ (s.shutdown c).2, o.ClosingOnly i (s.tr.link i) :=
  (closing_trace (shutdown_moments c s) sound.calls (.refl _) fun _ _ _ down => barred_down down).1

end System

/-- In every state a run reaches, while a link's gate is closed, no event and no shutdown writes a B-on or
a voice packet to the link or a VOICE_HEAD or voice frame for it to its peer; a VOICE_TERM or B-off is of a
call that was open. -/
theorem closed_gate (c : Ctx) (cfg : Config) (accepted : cfg.Accepted) (es : List (Ctx × System.Event)) :
    let s := (Machine.run System.step (System.start c cfg) es).1
    ∀ i, s.world.GateClosed i →
      (∀ e, ∀ o ∈ (s.step e).2, o.ClosingOnly i (s.tr.link i)) ∧
        ∀ c', ∀ o ∈ (s.shutdown c').2, o.ClosingOnly i (s.tr.link i) := by
  intro s i closed
  have sound : s.Sound := System.sound_run c cfg accepted es
  exact ⟨fun e => sound.closed_step closed e, fun c' => sound.closed_shutdown i c'⟩

/-- An UP link that does not cross-connect. -/
theorem closed_gate_inbound :
    let s := (Machine.run System.step (System.start { now := 0 } inboundCfg) (connectAndSend shortQuestion)).1
    (∀ e, ∀ o ∈ (s.step e).2, o.ClosingOnly 0 (s.tr.link 0)) ∧
      ∀ c', ∀ o ∈ (s.shutdown c').2, o.ClosingOnly 0 (s.tr.link 0) :=
  closed_gate { now := 0 } inboundCfg (by decide) (connectAndSend shortQuestion) 0
    (.inr (.inl (by decide +kernel)))

end Cc2obp
