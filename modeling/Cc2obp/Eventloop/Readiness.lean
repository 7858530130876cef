import Cc2obp.Eventloop.Run

/-!
# Stale readiness

Between `poll()` and the turn of a ready entry, timers and other callbacks run.
An entry is dispatched when its index holds its descriptor's number, so a
descriptor that was closed and opened again in between is taken for the one that
was polled as soon as it comes to the same index.
-/
namespace Cc2obp

variable {κ τ ρ : Type}

/-- The operation ends a registration: it is deleted, replaced by another, or its descriptor closed. -/
def EvOp.Ends (write : Bool) (fd : Int) (cb : κ) : EvOp κ τ → Prop
  | .addFd fd' cb' => write = false ∧ fd' = fd ∧ cb' ≠ cb
  | .delFd fd' => write = false ∧ fd' = fd
  | .addFdWrite fd' cb' => write = true ∧ fd' = fd ∧ cb' ≠ cb
  | .delFdWrite fd' => write = true ∧ fd' = fd
  | .close fd' => fd' = fd
  | _ => False

/-- The callback was registered for the descriptor when `poll()` was called, has been ever since, and
`poll()` said the descriptor was ready. -/
structure Fresh (polled : EvLoop κ τ) (ready : Nat → Bool) (v : Invocation κ τ) : Prop where
  registered : (v.fd, v.cb) ∈ polled.table v.write
  kept : ∀ op ∈ v.since, ¬op.Ends v.write v.fd v.cb
  ready : ∃ e, (e, true) ∈ readyFds polled ready ∧ e.write = v.write ∧ e.fd = v.fd

/-- If what a ready entry stands for has ended by its turn, its index no longer holds its descriptor. -/
def NotReused (s : EvRun κ τ ρ) (e : PollFd κ × Bool) : Prop :=
  s.running = true → e.2 = true → (∃ op ∈ s.since, op.Ends e.1.write e.1.fd e.1.cb) →
    ((s.loop.table e.1.write)[e.1.idx]?).map Prod.fst ≠ some e.1.fd

/-- Every entry's turn in a pass meets the condition in the state it comes in. -/
def EveryTurn (cbs : EvCallbacks κ τ ρ) (now : Rat) (fuel : Nat) (ready : Nat → Bool) (s : EvRun κ τ ρ)
    (ok : EvRun κ τ ρ → PollFd κ × Bool → Prop) : Prop :=
  ∀ fired ∈ fireDue cbs now fuel s.polled,
    Machine.Meets (dispatch cbs) ok (fired.onLoop reapInactive) (readyFds s.polled.loop ready)

/-! ## Tables -/

/-- Every descriptor is in each table once. -/
def EvLoop.Distinct (l : EvLoop κ τ) : Prop := ∀ write, (l.table write).Distinct

/-- The tables are what the loop's own functions have made of empty ones. -/
def EvLoop.Built (l : EvLoop κ τ) : Prop :=
  ∃ history : List (EvOp κ τ), ∀ write, l.table write = (history.foldl EvOp.apply {}).table write

theorem apply_table (l : EvLoop κ τ) (op : EvOp κ τ) (write : Bool) : (op.apply l).table write =
    match op with
    | .addFd fd cb => if write = false then FdTable.add maxFds (l.table write) fd cb else l.table write
    | .delFd fd => if write = false then FdTable.del (l.table write) fd else l.table write
    | .addFdWrite fd cb => if write = true then FdTable.add maxFds (l.table write) fd cb else l.table write
    | .delFdWrite fd => if write = true then FdTable.del (l.table write) fd else l.table write
    | _ => l.table write := by
  cases op <;> cases write <;> simp [EvOp.apply, EvLoop.table, evAddFd, evDelFd, evAddFdWrite, evDelFdWrite, evTimerAt]

theorem EvLoop.Distinct.apply {l : EvLoop κ τ} (distinct : l.Distinct) (op : EvOp κ τ) : (op.apply l).Distinct := by
  intro write
  rw [apply_table]
  cases op with
  | addFd => dsimp only; split <;> first | exact FdTable.distinct_add (distinct write) | exact distinct write
  | delFd => dsimp only; split <;> first | exact FdTable.distinct_del (distinct write) | exact distinct write
  | addFdWrite => dsimp only; split <;> first | exact FdTable.distinct_add (distinct write) | exact distinct write
  | delFdWrite => dsimp only; split <;> first | exact FdTable.distinct_del (distinct write) | exact distinct write
  | _ => exact distinct write

theorem EvLoop.Built.distinct {l : EvLoop κ τ} (built : l.Built) : l.Distinct := by
  obtain ⟨history, tables⟩ := built
  have all : ∀ (ops : List (EvOp κ τ)) (l : EvLoop κ τ), l.Distinct → (ops.foldl EvOp.apply l).Distinct := by
    intro ops
    induction ops with
    | nil => exact fun l before => before
    | cons op ops ih => exact fun l before => ih _ (before.apply op)
  have empty : ({} : EvLoop κ τ).Distinct := by
    intro write
    cases write <;> exact FdTable.distinct_nil
  intro write
  rw [tables write]
  exact all history {} empty write

/-- An entry of a table stays through an addition that does not replace it. -/
theorem FdTable.mem_add_of_mem {t : FdTable κ} (distinct : t.Distinct) {fd : Int} {cb : κ} (member : (fd, cb) ∈ t)
    {cap : Nat} {fd' : Int} {cb' : κ} (other : fd' = fd → cb' = cb) : (fd, cb) ∈ FdTable.add cap t fd' cb' := by
  by_cases same : fd' = fd
  · obtain rfl := same
    obtain rfl := other rfl
    exact (FdTable.mem_add distinct (.inl ⟨_, member, rfl⟩) _).mpr (.inl rfl)
  · by_cases room : FdTable.Room cap t fd'
    · exact (FdTable.mem_add distinct room _).mpr (.inr ⟨member, fun here => same here.symm⟩)
    · rw [FdTable.add_full room]
      exact member

theorem mem_apply {l : EvLoop κ τ} (distinct : l.Distinct) {write : Bool} {fd : Int} {cb : κ}
    (member : (fd, cb) ∈ l.table write) {op : EvOp κ τ} (kept : ¬op.Ends write fd cb) : (fd, cb) ∈ (op.apply l).table write := by
  rw [apply_table]
  cases op with
  | addFd fd' cb' =>
    dsimp only
    split
    next here =>
      apply FdTable.mem_add_of_mem (distinct write) member
      intro same
      by_contra other
      exact kept ⟨here, same, other⟩
    · exact member
  | delFd fd' =>
    dsimp only
    split
    next here => exact (FdTable.mem_del (distinct write) _).mpr ⟨member, fun same => kept ⟨here, same.symm⟩⟩
    · exact member
  | addFdWrite fd' cb' =>
    dsimp only
    split
    next here =>
      apply FdTable.mem_add_of_mem (distinct write) member
      intro same
      by_contra other
      exact kept ⟨here, same, other⟩
    · exact member
  | delFdWrite fd' =>
    dsimp only
    split
    next here => exact (FdTable.mem_del (distinct write) _).mpr ⟨member, fun same => kept ⟨here, same.symm⟩⟩
    · exact member
  | _ => exact member

/-! ## A pass -/

/-- What was registered at `poll()` and has not ended is registered. -/
structure Tracks (polled : EvLoop κ τ) (s : EvRun κ τ ρ) : Prop where
  distinct : s.loop.Distinct
  kept : ∀ write fd cb, (fd, cb) ∈ polled.table write → (∀ op ∈ s.since, ¬op.Ends write fd cb) →
    (fd, cb) ∈ s.loop.table write

namespace Tracks
variable {polled : EvLoop κ τ} {s : EvRun κ τ ρ}

theorem onLoop (tracks : Tracks polled s) {f : EvLoop κ τ → EvLoop κ τ}
    (same : ∀ l write, (f l).table write = l.table write) : Tracks polled (s.onLoop f) := by
  constructor
  case distinct => exact fun write => (same s.loop write).symm ▸ tracks.distinct write
  case kept => exact fun write fd cb member kept => (same s.loop write).symm ▸ tracks.kept write fd cb member kept

/-- Through everything a callback does. -/
theorem after (tracks : Tracks polled s) (did : ρ × List (EvOp κ τ)) : Tracks polled (s.after did) := by
  obtain ⟨rest, ops⟩ := did
  have both : ∀ (ops : List (EvOp κ τ)) (l : EvLoop κ τ), l.Distinct → (ops.foldl EvOp.apply l).Distinct ∧
      ∀ write fd cb, (fd, cb) ∈ l.table write → (∀ op ∈ ops, ¬op.Ends write fd cb) →
        (fd, cb) ∈ (ops.foldl EvOp.apply l).table write := by
    intro ops
    induction ops with
    | nil => exact fun l distinct => ⟨distinct, fun _ _ _ member _ => member⟩
    | cons op ops ih =>
      intro l distinct
      obtain ⟨distinct', kept'⟩ := ih (op.apply l) (distinct.apply op)
      refine ⟨distinct', fun write fd cb member kept => ?_⟩
      have stays := mem_apply distinct member (kept op (by simp))
      exact kept' write fd cb stays fun op' later => kept op' (by simp [later])
  obtain ⟨distinct, kept⟩ := both ops s.loop tracks.distinct
  constructor
  case distinct => exact distinct
  case kept =>
    intro write fd cb member none
    have before := tracks.kept write fd cb member fun op earlier => none op (List.mem_append_left _ earlier)
    exact kept write fd cb before fun op later => none op (List.mem_append_right _ later)

theorem fireDue {cbs : EvCallbacks κ τ ρ} {now : Rat} {fuel : Nat} (tracks : Tracks polled s) {fired : EvRun κ τ ρ}
    (ran : fireDue cbs now fuel s = some fired) : Tracks polled fired := by
  induction fuel generalizing s with
  | zero => cases ran
  | succ fuel ih =>
    simp only [Cc2obp.fireDue] at ran
    split at ran
    · exact Option.some.inj ran ▸ tracks
    next t _ =>
      have cancelled : Tracks polled (s.onLoop (evTimerCancel (some t.id))) :=
        tracks.onLoop fun l write => by cases write <;> simp [EvLoop.table]
      split at ran
      · exact ih (cancelled.after _) ran
      · exact Option.some.inj ran ▸ cancelled.after _

theorem dispatch (tracks : Tracks polled s) (cbs : EvCallbacks κ τ ρ) (e : PollFd κ × Bool) :
    Tracks polled (dispatch cbs s e).1 := by
  unfold Cc2obp.dispatch
  split
  · split
    · split
      · exact tracks.after _
      · exact tracks
    · exact tracks
  · exact tracks

end Tracks

theorem mem_pollFds {l : EvLoop κ τ} {e : PollFd κ} (member : e ∈ pollFds l) :
    (l.table e.write)[e.idx]? = some (e.fd, e.cb) := by
  rcases List.mem_append.mp member with read | write
  · obtain ⟨⟨entry, idx⟩, here, rfl⟩ := List.mem_map.mp read
    exact List.mem_zipIdx_iff_getElem?.mp here
  · obtain ⟨⟨entry, idx⟩, here, rfl⟩ := List.mem_map.mp write
    exact List.mem_zipIdx_iff_getElem?.mp here

theorem FdTable.cb_unique {t : FdTable κ} (distinct : t.Distinct) {fd : Int} {cb cb' : κ} (first : (fd, cb) ∈ t)
    (second : (fd, cb') ∈ t) : cb = cb' := by
  have one := (FdTable.lookup_eq_some distinct).mpr first
  have two := (FdTable.lookup_eq_some distinct).mpr second
  exact Option.some.inj (one.symm.trans two)

/-- One turn calls nothing stale if and only if the entry's index was not reused. -/
theorem dispatch_fresh_iff {polled : EvLoop κ τ} (distinct : polled.Distinct) (ready : Nat → Bool)
    (cbs : EvCallbacks κ τ ρ) {s : EvRun κ τ ρ} (tracks : Tracks polled s) {e : PollFd κ × Bool}
    (member : e ∈ readyFds polled ready) :
    (∀ v ∈ (dispatch cbs s e).2, Fresh polled ready v) ↔ NotReused s e := by
  obtain ⟨e, isReady⟩ := e
  have listed : e ∈ pollFds polled := by
    obtain ⟨⟨_, k⟩, here, same⟩ := List.mem_map.mp member
    cases same
    exact List.mem_of_getElem? (List.mem_zipIdx_iff_getElem?.mp here)
  -- what poll reported was registered when it was called
  have registered : (e.fd, e.cb) ∈ polled.table e.write := List.mem_of_getElem? (mem_pollFds listed)
  unfold dispatch NotReused
  split
  next turn =>
    obtain ⟨running, here⟩ := turn
    dsimp only at here
    subst here
    cases occupant : (s.loop.table e.write)[e.idx]? with
    | none => simp
    | some entry =>
      obtain ⟨fd, cb⟩ := entry
      by_cases same : fd = e.fd
      · obtain rfl := same
        have now : (e.fd, cb) ∈ s.loop.table e.write := List.mem_of_getElem? occupant
        simp only [if_true, List.mem_singleton, forall_eq, Option.map_some, ne_eq, not_true_eq_false, imp_false,
          running, true_implies]
        constructor
        · -- a registration that has ended is not the one that was polled
          rintro fresh ⟨op, did, ends⟩
          have polledCb : cb = e.cb := FdTable.cb_unique (distinct e.write) fresh.registered registered
          exact fresh.kept op did (polledCb ▸ ends)
        · intro none
          have still := tracks.kept e.write e.fd e.cb registered fun op did ends => none ⟨op, did, ends⟩
          obtain rfl : cb = e.cb := FdTable.cb_unique (tracks.distinct e.write) now still
          exact ⟨registered, fun op did ends => none ⟨op, did, ends⟩, e, member, rfl, rfl⟩
      · simp [same]
  next idle => simp_all

end Cc2obp
