import Cc2obp.Eventloop.Run
import Mathlib.Algebra.Order.Field.Rat

/-!
# The timers of a pass

The callbacks may add timers that are due later and cancel any. Then what is due only
shrinks: every round of the firing loop takes its timer out of it and those its callback
cancels, whatever the callback adds.
-/
namespace Cc2obp

variable {κ τ ρ : Type}

/-- The timers that are active and due. -/
def EvLoop.due (now : Rat) (l : EvLoop κ τ) : List (EvTimer τ) :=
  l.timers.filter fun t => t.active && decide (t.due ≤ now)

theorem mem_due {now : Rat} {l : EvLoop κ τ} {t : EvTimer τ} :
    t ∈ l.due now ↔ t ∈ l.timers ∧ t.active = true ∧ t.due ≤ now := by
  simp [EvLoop.due]

/-! ## The soonest -/

/-- The candidate after one more timer that could fire. -/
def sooner (fire : Option (EvTimer τ)) (t : EvTimer τ) : Option (EvTimer τ) :=
  match fire with
  | none => some t
  | some f => if t.due < f.due then some t else some f

theorem evSoonest_eq (now : Rat) (l : EvLoop κ τ) : evSoonest now l = (l.due now).foldl sooner none := by
  rw [evSoonest, EvLoop.due, List.foldl_filter]
  congr 1
  funext fire t
  simp only [Bool.and_eq_true, decide_eq_true_eq]
  cases fire <;> rfl

/-- One that is at most as late as the candidate and as every timer scanned. -/
theorem foldl_sooner (timers : List (EvTimer τ)) (f : EvTimer τ) :
    ∃ t, timers.foldl sooner (some f) = some t ∧ t ∈ f :: timers ∧ ∀ t' ∈ f :: timers, t.due ≤ t'.due := by
  induction timers generalizing f with
  | nil => exact ⟨f, rfl, by simp, by simp⟩
  | cons t timers ih =>
    simp only [List.foldl_cons, sooner]
    by_cases earlier : t.due < f.due
    · obtain ⟨first, found, member, least⟩ := ih t
      refine ⟨first, ?_, List.mem_cons_of_mem f member, ?_⟩
      · rw [if_pos earlier, found]
      · intro t' here
        rcases List.mem_cons.mp here with rfl | scanned
        · exact (least t List.mem_cons_self).trans earlier.le
        · exact least t' scanned
    · obtain ⟨first, found, member, least⟩ := ih f
      refine ⟨first, ?_, ?_, ?_⟩
      · rw [if_neg earlier, found]
      · rcases List.mem_cons.mp member with rfl | scanned
        · exact List.mem_cons_self
        · exact List.mem_cons_of_mem _ (List.mem_cons_of_mem _ scanned)
      · intro t' here
        rcases List.mem_cons.mp here with rfl | here
        · exact least _ List.mem_cons_self
        · rcases List.mem_cons.mp here with rfl | scanned
          · exact (least f List.mem_cons_self).trans (not_lt.mp earlier)
          · exact least t' (List.mem_cons_of_mem _ scanned)

theorem evSoonest_none {now : Rat} {l : EvLoop κ τ} (idle : evSoonest now l = none) : l.due now = [] := by
  rw [evSoonest_eq] at idle
  cases timers : l.due now with
  | nil => rfl
  | cons f rest =>
    rw [timers, List.foldl_cons] at idle
    obtain ⟨t, found, -⟩ := foldl_sooner rest f
    exact absurd (idle.symm.trans found) (by simp)

theorem evSoonest_some {now : Rat} {l : EvLoop κ τ} {t : EvTimer τ} (soonest : evSoonest now l = some t) :
    t ∈ l.due now ∧ ∀ t' ∈ l.due now, t.due ≤ t'.due := by
  rw [evSoonest_eq] at soonest
  cases timers : l.due now with
  | nil => simp [timers] at soonest
  | cons f rest =>
    rw [timers, List.foldl_cons] at soonest
    obtain ⟨first, found, facts⟩ := foldl_sooner rest f
    obtain rfl : first = t := Option.some.inj (found.symm.trans soonest)
    exact facts

/-! ## What a callback does to them -/

/-- Whatever it adds is due after `now`. -/
def EvOp.AddsLater (now : Rat) : EvOp κ τ → Prop
  | .timerAt due _ => now < due
  | _ => True

def EvOp.cancels (id : Nat) : EvOp κ τ → Bool
  | .timerCancel handle => handle == some id
  | _ => false

theorem due_timerCancel (now : Rat) (id : Nat) (l : EvLoop κ τ) :
    (evTimerCancel (some id) l).due now = (l.due now).filter fun t => t.id != id := by
  simp only [EvLoop.due, evTimerCancel]
  induction l.timers with
  | nil => rfl
  | cons t timers ih =>
    rw [List.map_cons, List.filter_cons, List.filter_cons, ih]
    by_cases here : t.id = id
    · cases passes : t.active && decide (t.due ≤ now) <;> simp [evDeactivate, here]
    · cases passes : t.active && decide (t.due ≤ now) <;> simp [evDeactivate, here, passes]

theorem due_apply {now : Rat} {op : EvOp κ τ} (later : op.AddsLater now) (l : EvLoop κ τ) :
    (op.apply l).due now = (l.due now).filter fun t => !op.cancels t.id := by
  have all : ∀ timers : List (EvTimer τ), timers.filter (fun _ => true) = timers := fun timers => List.filter_true timers
  cases op with
  | timerAt due cb =>
    have early : ¬due ≤ now := not_le.mpr later
    simp [EvOp.apply, evTimerAt, EvLoop.due, EvOp.cancels, early]
  | timerCancel handle =>
    cases handle with
    | none => simp [EvOp.apply, EvOp.cancels]
    | some id =>
      rw [EvOp.apply, due_timerCancel]
      refine List.filter_congr fun t _ => ?_
      simp [EvOp.cancels, bne, eq_comm]
  | _ => exact (all _).symm

theorem due_foldl {now : Rat} (ops : List (EvOp κ τ)) (later : ∀ op ∈ ops, op.AddsLater now) (l : EvLoop κ τ) :
    (ops.foldl EvOp.apply l).due now = (l.due now).filter fun t => !ops.any (EvOp.cancels t.id) := by
  induction ops generalizing l with
  | nil => simp
  | cons op ops ih =>
    rw [List.foldl_cons, ih (fun op member => later op (List.mem_cons_of_mem _ member)),
      due_apply (later op List.mem_cons_self), List.filter_filter]
    refine List.filter_congr fun t _ => ?_
    simp [Bool.and_comm]

/-- A timer no operation cancels stays as it is. -/
theorem mem_timers_apply {l : EvLoop κ τ} {t : EvTimer τ} (member : t ∈ l.timers) {op : EvOp κ τ}
    (kept : op.cancels t.id = false) : t ∈ (op.apply l).timers := by
  cases op with
  | timerAt due cb => exact List.mem_cons_of_mem _ member
  | timerCancel handle =>
    cases handle with
    | none => exact member
    | some id =>
      have other : t.id ≠ id := by
        rintro rfl
        simp [EvOp.cancels] at kept
      exact List.mem_map.mpr ⟨t, member, if_neg other⟩
  | _ => exact member

theorem mem_timers_foldl {t : EvTimer τ} (ops : List (EvOp κ τ)) (kept : ops.any (EvOp.cancels t.id) = false)
    {l : EvLoop κ τ} (member : t ∈ l.timers) : t ∈ (ops.foldl EvOp.apply l).timers := by
  induction ops generalizing l with
  | nil => exact member
  | cons op ops ih =>
    rw [List.any_cons, Bool.or_eq_false_iff] at kept
    exact ih kept.2 (mem_timers_apply member kept.1)

theorem TimersWf.apply {l : EvLoop κ τ} (wf : TimersWf l) (op : EvOp κ τ) : TimersWf (op.apply l) := by
  cases op with
  | timerAt due cb => exact wf.timerAt due cb
  | timerCancel handle => exact wf.timerCancel handle
  | _ => exact ⟨wf.distinct, wf.below⟩

theorem TimersWf.foldl {l : EvLoop κ τ} (wf : TimersWf l) (ops : List (EvOp κ τ)) :
    TimersWf (ops.foldl EvOp.apply l) := by
  induction ops generalizing l with
  | nil => exact wf
  | cons op ops ih => exact ih (wf.apply op)

theorem TimersWf.reap {l : EvLoop κ τ} (wf : TimersWf l) : TimersWf (reapInactive l) :=
  ⟨wf.distinct.sublist (List.filter_sublist.map EvTimer.id), fun t member => wf.below t (List.mem_filter.mp member).1⟩

theorem TimersWf.eq_of_id {l : EvLoop κ τ} (wf : TimersWf l) {t t' : EvTimer τ} (member : t ∈ l.timers)
    (member' : t' ∈ l.timers) (same : t.id = t'.id) : t = t' :=
  List.inj_on_of_nodup_map wf.distinct member member' same

/-- A timer that is active and due is what its number stands for. -/
theorem TimersWf.evDue_eq {l : EvLoop κ τ} (wf : TimersWf l) {t : EvTimer τ} {now : Rat} (due : t ∈ l.due now) :
    evDue t.id now l = some t.cb := by
  obtain ⟨member, active, early⟩ := mem_due.mp due
  have passes : (t.id == t.id && t.active && decide (t.due ≤ now)) = true := by simp [active, early]
  obtain ⟨t', found⟩ : ∃ t', l.timers.find? (fun t' => t'.id == t.id && t'.active && decide (t'.due ≤ now)) = some t' :=
    Option.isSome_iff_exists.mp (List.find?_isSome.mpr ⟨t, member, passes⟩)
  have holds := List.find?_some found
  simp only [Bool.and_eq_true, beq_iff_eq] at holds
  obtain rfl := wf.eq_of_id (List.mem_of_find?_eq_some found) member holds.1.1
  rw [evDue, found]
  rfl

/-! ## The firing loop -/

/-- A timer that fired, and what its callback did. -/
structure Firing (κ τ : Type) where
  timer : EvTimer τ
  did : List (EvOp κ τ)

namespace Firing

def cancels (f : Firing κ τ) (id : Nat) : Bool := f.did.any (EvOp.cancels id)

/-- What a firing leaves of the loop. -/
def apply (l : EvLoop κ τ) (f : Firing κ τ) : EvLoop κ τ :=
  f.did.foldl EvOp.apply (evTimerCancel (some f.timer.id) l)

end Firing

/-- What `fireDue` fires, in order. -/
def firings (cbs : EvCallbacks κ τ ρ) (now : Rat) : Nat → EvRun κ τ ρ → List (Firing κ τ)
  | 0, _ => []
  | fuel + 1, s =>
    match evSoonest now s.loop with
    | none => []
    | some t =>
      let s := s.onLoop (evTimerCancel (some t.id))
      let did := cbs.onTimer t.cb s
      let s := s.after did
      ⟨t, did.2⟩ :: if s.running then firings cbs now fuel s else []

/-- The firings of a pass that finds the timers of `l`, and the loop after it. -/
structure FiringPass (now : Rat) (l : EvLoop κ τ) (log : List (Firing κ τ)) (after : EvRun κ τ ρ) : Prop where
  loop : after.loop = log.foldl Firing.apply l
  /-- Only timers that were due fire. -/
  wasDue : ∀ f ∈ log, f.timer ∈ l.due now
  /-- No timer twice, none before a sooner one, none that an earlier callback has cancelled. -/
  order : log.Pairwise fun earlier f =>
    earlier.timer.id ≠ f.timer.id ∧ earlier.timer.due ≤ f.timer.due ∧ earlier.cancels f.timer.id = false
  /-- Unless the loop was stopped, every timer that was due has fired or been cancelled. -/
  complete : after.running = true → ∀ t ∈ l.due now, (∃ f ∈ log, f.timer = t) ∨ ∃ f ∈ log, f.cancels t.id = true
  /-- Unless the loop was stopped, nothing is due. -/
  idle : after.running = true → after.loop.due now = []
  /-- What has neither fired nor been cancelled is still there. -/
  kept : ∀ t ∈ l.timers, (∀ f ∈ log, f.timer ≠ t ∧ f.cancels t.id = false) → t ∈ after.loop.timers

section FiringLoop
variable {cbs : EvCallbacks κ τ ρ} {now : Rat}

theorem due_firing {f : Firing κ τ} (later : ∀ op ∈ f.did, op.AddsLater now) (l : EvLoop κ τ) :
    (f.apply l).due now = (l.due now).filter fun t => t.id != f.timer.id && !f.cancels t.id := by
  rw [Firing.apply, due_foldl f.did later, due_timerCancel, List.filter_filter]
  refine List.filter_congr fun t _ => ?_
  rw [Bool.and_comm]
  rfl

/-- Firing makes what is due fewer. -/
theorem length_due_firing {f : Firing κ τ} (later : ∀ op ∈ f.did, op.AddsLater now) {l : EvLoop κ τ}
    (due : f.timer ∈ l.due now) : ((f.apply l).due now).length < (l.due now).length := by
  rw [due_firing later, List.length_filter_lt_length_iff_exists]
  exact ⟨f.timer, due, by simp⟩

/-- One round, and what the rounds after it make of the loop it leaves. -/
theorem FiringPass.cons {l : EvLoop κ τ} {f : Firing κ τ} {log : List (Firing κ τ)} {after : EvRun κ τ ρ}
    (wf : TimersWf l) (later : ∀ op ∈ f.did, op.AddsLater now) (due : f.timer ∈ l.due now)
    (least : ∀ t ∈ l.due now, f.timer.due ≤ t.due) (rest : FiringPass now (f.apply l) log after) :
    FiringPass now l (f :: log) after := by
  have left : ∀ t, t ∈ (f.apply l).due now → t ∈ l.due now ∧ t.id ≠ f.timer.id ∧ f.cancels t.id = false := by
    intro t member
    rw [due_firing later] at member
    simpa using member
  constructor
  case loop => exact rest.loop
  case wasDue =>
    intro f' member
    rcases List.mem_cons.mp member with rfl | member
    · exact due
    · exact (left _ (rest.wasDue f' member)).1
  case order =>
    refine List.pairwise_cons.mpr ⟨fun f' member => ?_, rest.order⟩
    obtain ⟨old, other, uncancelled⟩ := left _ (rest.wasDue f' member)
    exact ⟨other.symm, least _ old, uncancelled⟩
  case complete =>
    intro running t member
    by_cases same : t.id = f.timer.id
    · have timer : f.timer = t := wf.eq_of_id (mem_due.mp due).1 (mem_due.mp member).1 same.symm
      exact .inl ⟨f, List.mem_cons_self, timer⟩
    · cases cancelled : f.cancels t.id with
      | true => exact .inr ⟨f, List.mem_cons_self, cancelled⟩
      | false =>
        have still : t ∈ (f.apply l).due now := by
          rw [due_firing later]
          simp [member, same, cancelled]
        rcases rest.complete running t still with ⟨f', here, timer⟩ | ⟨f', here, cancels⟩
        · exact .inl ⟨f', List.mem_cons_of_mem _ here, timer⟩
        · exact .inr ⟨f', List.mem_cons_of_mem _ here, cancels⟩
  case idle => exact rest.idle
  case kept =>
    intro t member untouched
    obtain ⟨other, uncancelled⟩ := untouched f List.mem_cons_self
    have apart : t.id ≠ f.timer.id := fun same => other (wf.eq_of_id (mem_due.mp due).1 member same.symm)
    have through : t ∈ (f.apply l).timers := by
      refine mem_timers_foldl f.did uncancelled ?_
      exact List.mem_map.mpr ⟨t, member, if_neg apart⟩
    exact rest.kept t through fun f' here => untouched f' (List.mem_cons_of_mem _ here)

theorem TimersWf.firing {l : EvLoop κ τ} (wf : TimersWf l) (f : Firing κ τ) : TimersWf (f.apply l) :=
  (wf.timerCancel _).foldl _

theorem fireDue_pass (later : ∀ cb s, ∀ op ∈ (cbs.onTimer cb s).2, op.AddsLater now) (s : EvRun κ τ ρ)
    (wf : TimersWf s.loop) : ∃ after log, FiringPass now s.loop log after ∧ ∀ fuel, (s.loop.due now).length < fuel →
      fireDue cbs now fuel s = some after ∧ firings cbs now fuel s = log := by
  induction size : (s.loop.due now).length using Nat.strong_induction_on generalizing s with
  | h n ih =>
    cases soonest : evSoonest now s.loop with
    | none =>
      have idle := evSoonest_none soonest
      refine ⟨s, [], ⟨rfl, by simp, .nil, by simp [idle], fun _ => idle, fun t member _ => member⟩, ?_⟩
      intro fuel enough
      obtain ⟨fuel, rfl⟩ := Nat.exists_eq_succ_of_ne_zero (show fuel ≠ 0 by omega)
      simp only [fireDue, firings, soonest, and_self]
    | some t =>
      obtain ⟨due, least⟩ := evSoonest_some soonest
      let s₁ := s.onLoop (evTimerCancel (some t.id))
      let f : Firing κ τ := ⟨t, (cbs.onTimer t.cb s₁).2⟩
      let s₂ := s₁.after (cbs.onTimer t.cb s₁)
      have later : ∀ op ∈ f.did, op.AddsLater now := later t.cb s₁
      have round : s₂.loop = f.apply s.loop := rfl
      have rounds : ∀ fuel, fireDue cbs now (fuel + 1) s = (if s₂.running then fireDue cbs now fuel s₂ else some s₂) ∧
          firings cbs now (fuel + 1) s = f :: if s₂.running then firings cbs now fuel s₂ else [] := by
        intro fuel
        simp only [fireDue, firings, soonest]
        exact ⟨rfl, rfl⟩
      cases running : s₂.running with
      | false =>
        refine ⟨s₂, [f], .cons wf later due least ⟨round, by simp, .nil, by simp [running], by simp [running], ?_⟩, ?_⟩
        · exact fun t member _ => round ▸ member
        · intro fuel enough
          obtain ⟨fuel, rfl⟩ := Nat.exists_eq_succ_of_ne_zero (show fuel ≠ 0 by omega)
          simpa [running] using rounds fuel
      | true =>
        have fewer : (s₂.loop.due now).length < n := by
          rw [round, ← size]
          exact length_due_firing later due
        obtain ⟨after, log, pass, enough⟩ := ih _ fewer s₂ (round ▸ wf.firing f) rfl
        refine ⟨after, f :: log, .cons wf later due least (round ▸ pass), ?_⟩
        intro fuel more
        obtain ⟨fuel, rfl⟩ := Nat.exists_eq_succ_of_ne_zero (show fuel ≠ 0 by omega)
        obtain ⟨ends, logged⟩ := enough fuel (by omega)
        obtain ⟨goesOn, logs⟩ := rounds fuel
        rw [goesOn, logs, if_pos running, if_pos running, ends, logged]
        exact ⟨rfl, rfl⟩

theorem FiringPass.wf {l : EvLoop κ τ} {log : List (Firing κ τ)} {after : EvRun κ τ ρ} (pass : FiringPass now l log after)
    (wf : TimersWf l) : TimersWf after.loop := by
  rw [pass.loop]
  clear pass
  induction log generalizing l with
  | nil => exact wf
  | cons f log ih => exact ih (wf.firing f)

end FiringLoop

/-- With callbacks that add nothing due yet, a number of rounds that depends only on what is due ends the firing loop.
It has fired, each once and the sooner ones first, the timers that were due and that no callback before them had
cancelled; and what is left after reaping is active and not due, unless the loop was stopped. -/
theorem timer_pass (cbs : EvCallbacks κ τ ρ) (now : Rat) (s : EvRun κ τ ρ) (wf : TimersWf s.loop)
    (later : ∀ cb s, ∀ op ∈ (cbs.onTimer cb s).2, op.AddsLater now) :
    ∃ (after : EvRun κ τ ρ) (log : List (Firing κ τ)),
      (∀ fuel, (s.loop.due now).length < fuel → fireDue cbs now fuel s = some after ∧ firings cbs now fuel s = log) ∧
      FiringPass now s.loop log after ∧
      (∀ t, t ∈ (reapInactive after.loop).timers ↔ t ∈ after.loop.timers ∧ t.active = true) ∧
      (after.running = true → ∀ t ∈ (reapInactive after.loop).timers, now < t.due) ∧
      TimersWf (reapInactive after.loop) := by
  obtain ⟨after, log, pass, enough⟩ := fireDue_pass later s wf
  refine ⟨after, log, enough, pass, fun t => List.mem_filter, ?_, (pass.wf wf).reap⟩
  intro running t member
  obtain ⟨member, active⟩ := List.mem_filter.mp member
  by_contra early
  have due : t ∈ after.loop.due now := mem_due.mpr ⟨member, active, not_lt.mp early⟩
  rw [pass.idle running] at due
  exact List.not_mem_nil due

/-- The callback of `true` cancels the first timer made and arms another of its own. -/
def cancelFirst : EvCallbacks Unit Bool Unit where
  onFd _ _ _ := ((), [])
  onTimer cb _ := ((), if cb then [.timerCancel (some 0), .timerAt 9 true] else [])

/-- Two timers due at one time, of which the one that fires cancels the other. -/
theorem timer_pass_cancels :
    let s : EvRun Unit Bool Unit := { loop := evTimerAt 1 true (evTimerAt 1 false {}), rest := () }
    ∃ after, fireDue cancelFirst 5 3 s = some after ∧ TimersWf (reapInactive after.loop) := by
  intro s
  have empty : TimersWf ({} : EvLoop Unit Bool) := ⟨.nil, by simp⟩
  have later : ∀ cb s, ∀ op ∈ (cancelFirst.onTimer cb s).2, op.AddsLater 5 := by
    intro cb s op member
    cases cb with
    | false => cases member
    | true =>
      rcases List.mem_cons.mp member with rfl | member
      · trivial
      · rw [List.mem_singleton.mp member]
        exact (by decide : (5 : Rat) < 9)
  have wf : TimersWf s.loop := (empty.timerAt 1 false).timerAt 1 true
  obtain ⟨after, log, enough, -, -, -, wf⟩ := timer_pass cancelFirst 5 s wf later
  exact ⟨after, (enough 3 (by decide)).1, wf⟩

end Cc2obp
