import Cc2obp.Cccc.Schedule
import Cc2obp.System.Registrations

/-!
# Timers of the composed system

What an event does to the timers, translator and all. Two systems that differ only in
timers that can no longer fire answer every event alike, so it makes no difference when
the loop reaps them.
-/
namespace Cc2obp

open World

/-- The event loop's timers. -/
def System.timers : Component System (List (EvTimer TimerCb)) where
  get s := s.world.loop.timers
  put s timers := { s with world := World.timers.put s.world timers }
  put_get _ := rfl
  get_put _ _ := rfl
  put_put _ _ _ := rfl

namespace System

variable {s s' : System} {k : Rat} {c : Ctx}

/-- An event's work cancels timers and arms timers for their delays. -/
abbrev Arms (k : Rat) (c : Ctx) (f : System → System) (s : System) : Prop :=
  timers.Does TimerOp.apply (TimerOp.After (timerDelay k) c.now) f s

/-! ## Calls into the translator -/

theorem perform_untimed (w : World) (o : TrOut) (ts : List (EvTimer TimerCb)) :
    (World.timers.put w ts).perform o = World.timers.put (w.perform o) ts := by
  have links : (World.timers.put w ts).links = w.links := rfl
  have cfg : (World.timers.put w ts).cfg = w.cfg := rfl
  have obpFd : (World.timers.put w ts).obpFd = w.obpFd := rfl
  cases o with
  | obpSendDmrd =>
    simp only [World.perform, obpSendDmrd, cfg, obpFd]
    split <;> rfl
  | ccccSendBon =>
    simp only [World.perform, ccccSendBon, links]
    split <;> rfl
  | ccccSendBoff =>
    simp only [World.perform, ccccSendBoff, links]
    split <;> rfl
  | ccccSendVoice =>
    simp only [World.perform, ccccSendVoice, links]
    split <;> rfl

theorem performAll_untimed (out : List TrOut) (w : World) (ts : List (EvTimer TimerCb)) :
    out.foldl World.perform (World.timers.put w ts) = World.timers.put (out.foldl World.perform w) ts := by
  induction out generalizing w with
  | nil => rfl
  | cons o out ih => rw [List.foldl_cons, perform_untimed, ih, List.foldl_cons]

theorem translate_untimed (c : Ctx) (ev : TrEvent) (s : System) (ts : List (EvTimer TimerCb)) :
    (timers.put s ts).translate c ev = timers.put (s.translate c ev) ts := by
  have same : (timers.put s ts).world.env c.now = s.world.env c.now := rfl
  have performed := performAll_untimed (translatorStep (s.world.env c.now) ev s.tr).2 s.world ts
  simp only [translate, same]
  exact congrArg (fun world => ({ world, tr := (translatorStep (s.world.env c.now) ev s.tr).1 } : System)) performed

theorem replayAll_untimed (c : Ctx) (items : List (Out × Nat)) (s : System) (ts : List (EvTimer TimerCb)) :
    items.foldl (replay c) (timers.put s ts) = timers.put (items.foldl (replay c) s) ts := by
  induction items generalizing s with
  | nil => rfl
  | cons item items ih =>
    have one : (timers.put s ts).replay c item = timers.put (s.replay c item) ts := by
      obtain ⟨o, n⟩ := item
      cases o with
      | call call => exact translate_untimed c _ { s with world := s.world.emit (.call call) } ts
      | tcp => rfl
      | udp => rfl
    rw [List.foldl_cons, one, ih, List.foldl_cons]

theorem timers_replayAll (c : Ctx) (items : List (Out × Nat)) (s : System) :
    (items.foldl (replay c) s).world.loop.timers = s.world.loop.timers := by
  have same := replayAll_untimed c items s s.world.loop.timers
  exact (congrArg (fun s : System => s.world.loop.timers) same).trans rfl

/-- A callback does what its function does. -/
theorem arms_callback {f : World → World} (arms : World.Arms k c f s.world.unlogged) : Arms k c (callback c f) s := by
  obtain ⟨ops, performs, meets⟩ := arms
  refine ⟨ops, fun ts => ?_, meets⟩
  have called : f (timers.put s ts).world.unlogged = _ := performs ts
  simp only [callback, called]
  exact replayAll_untimed c (f s.world.unlogged).out.zipIdx { s with world := { f s.world.unlogged with out := s.world.out } }
    (ops.foldl TimerOp.apply ts)

/-! ## Events -/

theorem arms_serve (beats : s.world.cfg.Beats k) (c : Ctx) (input : FdInput) (cb : Option FdCb) :
    World.Arms k c (World.serve c input cb) s.world.unlogged := by
  have beats' : s.world.unlogged.cfg.Beats k := beats
  have rest : World.Arms k c id s.world.unlogged := .blind fun _ => rfl
  cases cb with
  | none => exact rest
  | some cb =>
    cases cb with
    | voice =>
      cases input with
      | datagram bytes srcIp srcPort => exact World.Arms.voiceReadable bytes srcIp srcPort
      | _ => exact rest
    | trial =>
      cases input with
      | datagram bytes srcIp srcPort => exact World.Arms.trialReadable bytes srcIp srcPort
      | _ => exact rest
    | listen =>
      cases input with
      | accepted srcIps => exact World.Arms.listenReadable srcIps
      | _ => exact rest
    | obp peer =>
      cases input with
      | datagram bytes srcIp srcPort => exact World.Arms.obpReadable peer bytes srcIp srcPort
      | _ => exact rest
    | pending slot =>
      cases input with
      | recv r => exact World.Arms.pendingReadable beats' slot r
      | _ => exact rest
    | link i =>
      cases input with
      | recv r => exact World.Arms.linkReadable beats' i r
      | _ => exact rest
    | connect i => cases input <;> exact rest

theorem arms_serveWrite (c : Ctx) (fd : Int) (connected : Bool) (cb : Option FdCb) :
    World.Arms k c (World.serveWrite c fd connected cb) s.world.unlogged := by
  have rest : World.Arms k c id s.world.unlogged := .blind fun _ => rfl
  cases cb with
  | none => exact rest
  | some cb =>
    cases cb with
    | connect i => exact World.Arms.connectWritable i fd connected
    | _ => exact rest

theorem arms_timerCb {w : World} (beats : w.cfg.Beats k) (c : Ctx) (cb : TimerCb) : World.Arms k c (timerCb c cb) w := by
  cases cb with
  | reconnect i => exact World.Arms.reconnect i
  | keepalive i => exact World.Arms.keepalive beats i
  | pendingTimeout slot => exact World.Arms.pendingTimeout slot

/-- A timer that fires: it is taken from the active ones, and its callback runs. -/
theorem arms_fired (beats : s.world.cfg.Beats k) (c : Ctx) (id : Nat) (cb : TimerCb) :
    World.Arms k c (fun w => timerCb c cb (w.onLoop (evTimerCancel (some id)))) s.world.unlogged := by
  have cancelled : World.Arms k c (fun w => w.onLoop (evTimerCancel (some id))) s.world.unlogged :=
    World.Arms.timerCancel (some id)
  have beats' : (s.world.unlogged.onLoop (evTimerCancel (some id))).cfg.Beats k := beats
  exact cancelled.comp (arms_timerCb beats' c cb)

theorem arms_tickCb (c : Ctx) (fresh : Option Config) : Arms k c (tickCb c fresh) s := by
  have ticked : Arms k c (translate c .tick) s := .blind fun ts => translate_untimed c .tick s ts
  cases fresh with
  | none => exact ticked
  | some fresh =>
    have read : ∀ t : System, Arms k c (fun t => { t with world := t.world.reload fresh }) t := fun t => .blind fun _ => rfl
    have links : ∀ t : System, Arms k c (callback c (ccccMuxReconcile c)) t := fun t => arms_callback World.Arms.linksReconcile
    have peers : ∀ t : System, Arms k c (callback c (obpMuxReconcile c)) t := fun t => arms_callback World.Arms.peersReconcile
    exact (((ticked.comp (read _)).comp (links _)).comp (peers _)).congr fun _ => rfl

/-- A timer that is not due does nothing. -/
theorem fire_of_not_due {id : Nat} {w : World} (early : evDue id c.now w.loop = none) : World.fire c id w = w := by
  simp only [World.fire, early]

theorem fire_of_due {id : Nat} {w : World} {cb : TimerCb} (due : evDue id c.now w.loop = some cb) :
    World.fire c id w = timerCb c cb (w.onLoop (evTimerCancel (some id))) := by
  simp only [World.fire, due]

/-- What an event does in a state to the timers, which of them fires being known. -/
theorem react_arms (beats : s.world.cfg.Beats k) (c : Ctx) (e : Event) : ∃ f, s.react c e = f s ∧ Arms k c f s := by
  have rest : World.Arms k c id s.world.unlogged := .blind fun _ => rfl
  cases e with
  | readable fd input =>
    refine ⟨_, react_eq c (.readable fd input) s, arms_callback ?_⟩
    split
    · exact rest
    · exact arms_serve beats c input _
  | writable fd connected =>
    refine ⟨_, react_eq c (.writable fd connected) s, arms_callback ?_⟩
    split
    · exact rest
    · exact arms_serveWrite c fd connected _
  | timer id =>
    cases found : evDue id c.now s.world.unlogged.loop with
    | none =>
      refine ⟨callback c fun w => w, ?_, arms_callback rest⟩
      simp only [react, callback, fire_of_not_due found]
    | some cb =>
      refine ⟨callback c fun w => timerCb c cb (w.onLoop (evTimerCancel (some id))), ?_, arms_callback (arms_fired beats c id cb)⟩
      simp only [react, callback, fire_of_due found]
  | tick fresh => exact ⟨_, rfl, arms_tickCb c fresh⟩

/-! ## Systems that differ in dead timers -/

/-- The same but for timers that can no longer fire. -/
def AlikeTo (s s' : System) : Prop := ∃ ts, s' = timers.put s ts ∧ Alike s.world.loop.timers ts

theorem alikeTo_refl (s : System) : AlikeTo s s := ⟨s.world.loop.timers, rfl, alike_refl _⟩

theorem AlikeTo.trans {s'' : System} (first : AlikeTo s s') (second : AlikeTo s' s'') : AlikeTo s s'' := by
  obtain ⟨ts, rfl, alike⟩ := first
  obtain ⟨ts', rfl, alike'⟩ := second
  exact ⟨ts', rfl, alike.trans alike'⟩

theorem AlikeTo.does (alike : AlikeTo s s') {f : System → System} (arms : Arms k c f s) : AlikeTo (f s) (f s') := by
  obtain ⟨ts, rfl, same⟩ := alike
  obtain ⟨ts', after, same'⟩ := arms.related (R := Alike) (fun _ _ op _ same => same.apply op) same
  exact ⟨ts', after, same'⟩

theorem AlikeTo.out (alike : AlikeTo s s') : s'.world.out = s.world.out := by
  obtain ⟨ts, rfl, -⟩ := alike
  rfl

theorem AlikeTo.cleared (alike : AlikeTo s s') : AlikeTo s.cleared s'.cleared := by
  obtain ⟨ts, rfl, same⟩ := alike
  exact ⟨ts, rfl, same⟩

/-- They answer every event alike. -/
theorem AlikeTo.step (alike : AlikeTo s s') (beats : s.world.cfg.Beats k) (c : Ctx) (e : Event) :
    AlikeTo (s.step (c, e)).1 (s'.step (c, e)).1 ∧ (s'.step (c, e)).2 = (s.step (c, e)).2 := by
  have cleared := alike.cleared
  have beats' : s.cleared.world.cfg.Beats k := beats
  suffices reacted : AlikeTo (s.cleared.react c e) (s'.cleared.react c e) from ⟨reacted.cleared, reacted.out⟩
  have same : s'.cleared.world.loop.fds = s.cleared.world.loop.fds ∧ s'.cleared.world.loop.wfds = s.cleared.world.loop.wfds := by
    obtain ⟨ts, rfl, -⟩ := alike
    exact ⟨rfl, rfl⟩
  have rest : ∀ t : System, World.Arms k c id t.world.unlogged := fun t => .blind fun _ => rfl
  cases e with
  | readable fd input =>
    rw [react_eq, react_eq]
    simp only [turn, same.1]
    refine cleared.does (k := k) (arms_callback ?_)
    split
    · exact rest s.cleared
    · exact arms_serve beats' c input _
  | writable fd connected =>
    rw [react_eq, react_eq]
    simp only [turn, same.2]
    refine cleared.does (k := k) (arms_callback ?_)
    split
    · exact rest s.cleared
    · exact arms_serveWrite c fd connected _
  | timer id =>
    -- the same timer is due, or none is
    have due : evDue id c.now s'.cleared.world.unlogged.loop = evDue id c.now s.cleared.world.unlogged.loop := by
      obtain ⟨ts, rfl, alike⟩ := alike
      have alike' : Alike (timers.put s ts).world.loop.timers s.world.loop.timers := alike.symm
      exact evDue_alike alike' id c.now
    simp only [react]
    cases found : evDue id c.now s.cleared.world.unlogged.loop with
    | none =>
      have early : ∀ t : System, evDue id c.now t.world.unlogged.loop = none →
          callback c (World.fire c id) t = callback c (fun w => w) t := by
        intro t none
        simp only [callback, fire_of_not_due none]
      rw [early _ found, early _ (due.trans found)]
      exact cleared.does (k := k) (arms_callback (rest s.cleared))
    | some cb =>
      have fires : ∀ t : System, evDue id c.now t.world.unlogged.loop = some cb →
          callback c (World.fire c id) t = callback c (fun w => timerCb c cb (w.onLoop (evTimerCancel (some id)))) t := by
        intro t some
        simp only [callback, fire_of_due some]
      rw [fires _ found, fires _ (due.trans found)]
      exact cleared.does (k := k) (arms_callback (arms_fired beats' c id cb))
  | tick fresh => exact cleared.does (k := k) (arms_tickCb c fresh)

end System

end Cc2obp
