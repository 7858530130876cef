import Cc2obp.Lib.FdTable
import Mathlib.Data.List.Perm.Subperm
import Mathlib.Logic.Function.Basic

/-!
# Tables under calls

A sequence of additions and deletions is a map of descriptors, and what it makes
of a table. The two agree while there is room for every addition. A function on a
state with two tables in it makes a sequence of calls if it does to any tables
what the calls do, and nothing else depends on them.
-/
namespace FdTable

inductive Op (κ : Type*) where
  | add (fd : Int) (cb : κ)
  | del (fd : Int)

variable {κ : Type*} {cap : Nat} {t : FdTable κ} {ops ops' : List (Op κ)} {names : List Int}

/-! ## Calls -/

/-- What a call makes of a table. -/
def Op.apply (cap : Nat) (t : FdTable κ) : Op κ → FdTable κ
  | .add fd cb => FdTable.add cap t fd cb
  | .del fd => FdTable.del t fd

/-- What a call makes of the map of what is registered. -/
def Op.record (m : Int → Option κ) : Op κ → Int → Option κ
  | .add fd cb => Function.update m fd (some cb)
  | .del fd => Function.update m fd none

def applied (cap : Nat) (t : FdTable κ) (ops : List (Op κ)) : FdTable κ := ops.foldl (Op.apply cap) t

/-- The map a sequence of calls defines. -/
def recorded (ops : List (Op κ)) : Int → Option κ := ops.foldl Op.record fun _ => none

/-- At every moment of the calls the table has fewer entries than it holds. -/
def Fits (cap : Nat) (t : FdTable κ) (ops : List (Op κ)) : Prop :=
  ∀ early late, ops = early ++ late → (applied cap t early).length < cap

/-- The additions are of these descriptors. -/
def Names (names : List Int) (ops : List (Op κ)) : Prop := ∀ fd cb, .add fd cb ∈ ops → fd ∈ names

@[simp] theorem applied_nil : applied cap t [] = t := rfl

@[simp] theorem applied_append : applied cap t (ops ++ ops') = applied cap (applied cap t ops) ops' :=
  List.foldl_append

theorem Fits.append (first : Fits cap t ops) (rest : Fits cap (applied cap t ops) ops') : Fits cap t (ops ++ ops') := by
  intro early late same
  rcases List.append_eq_append_iff.mp same with ⟨middle, past, later⟩ | ⟨middle, within, -⟩
  · rw [past, applied_append]
    exact rest middle late later
  · exact first early middle within

theorem Fits.before (fits : Fits cap t (ops ++ ops')) : Fits cap t ops := by
  rintro early late rfl
  exact fits early (late ++ ops') (List.append_assoc _ _ _)

theorem fits_nil (short : t.length < cap) : Fits cap t ([] : List (Op κ)) := by
  intro early late same
  rw [(List.append_eq_nil_iff.mp same.symm).1]
  exact short

theorem Names.append (first : Names names ops) (rest : Names names ops') : Names names (ops ++ ops') := by
  intro fd cb member
  rcases List.mem_append.mp member with early | late
  · exact first fd cb early
  · exact rest fd cb late

theorem Names.mono {names' : List Int} (named : Names names ops) (within : names ⊆ names') : Names names' ops :=
  fun fd cb member => within (named fd cb member)

theorem distinct_apply (distinct : Distinct t) (op : Op κ) : Distinct (op.apply cap t) := by
  cases op with
  | add fd cb => exact distinct_add distinct
  | del fd => exact distinct_del distinct

theorem distinct_applied (distinct : Distinct t) (ops : List (Op κ)) : Distinct (applied cap t ops) := by
  induction ops generalizing t with
  | nil => exact distinct
  | cons op ops ih => exact ih (distinct_apply distinct op)

/-! ## The map -/

/-- A table without repetitions is a map, and the call does to it what it does to the map. -/
theorem lookup_apply (distinct : Distinct t) (short : t.length < cap) (op : Op κ) :
    lookup (op.apply cap t) = op.record (lookup t) := by
  funext fd
  refine Option.ext fun cb => ?_
  rw [lookup_eq_some (distinct_apply distinct op)]
  cases op with
  | add fd' cb' =>
    simp only [Op.apply, Op.record, mem_add distinct (.inr short)]
    by_cases here : fd = fd'
    · subst here
      simp [eq_comm]
    · rw [Function.update_of_ne here, lookup_eq_some distinct]
      simp [here]
  | del fd' =>
    simp only [Op.apply, Op.record, mem_del distinct]
    by_cases here : fd = fd'
    · subst here
      simp
    · rw [Function.update_of_ne here, lookup_eq_some distinct]
      simp [here]

theorem Fits.tail {op : Op κ} (fits : Fits cap t (op :: ops)) : Fits cap (op.apply cap t) ops := by
  intro early late same
  exact fits (op :: early) late (by rw [same, List.cons_append])

theorem Fits.short (fits : Fits cap t ops) : t.length < cap := fits [] ops rfl

theorem lookup_applied (distinct : Distinct t) (fits : Fits cap t ops) :
    lookup (applied cap t ops) = ops.foldl Op.record (lookup t) := by
  induction ops generalizing t with
  | nil => rfl
  | cons op ops ih =>
    have next := ih (distinct_apply distinct op) fits.tail
    rw [lookup_apply distinct fits.short op] at next
    exact next

/-- No addition is dropped. -/
theorem Fits.room {fd : Int} {cb : κ} (fits : Fits cap t (ops ++ .add fd cb :: ops')) : Room cap (applied cap t ops) fd :=
  .inr (fits ops (.add fd cb :: ops') rfl)

/-- A table is the map that a sequence of calls defines, and was never full while they were made. -/
structure Mirrors (cap : Nat) (t : FdTable κ) (ops : List (Op κ)) : Prop where
  made : t = applied cap [] ops
  distinct : Distinct t
  agrees : ∀ fd, lookup t fd = recorded ops fd
  fits : Fits cap [] ops
  room : ∀ early fd cb late, ops = early ++ .add fd cb :: late → Room cap (applied cap [] early) fd

theorem Fits.mirrors (fits : Fits cap [] ops) : Mirrors cap (applied cap [] ops) ops := by
  refine ⟨rfl, distinct_applied distinct_nil ops, fun fd => ?_, fits, ?_⟩
  · rw [lookup_applied distinct_nil fits]
    rfl
  · rintro early fd cb late rfl
    exact fits.room

/-! ## Room -/

theorem map_fst_apply (distinct : Distinct t) (op : Op κ) {fd : Int} (member : fd ∈ (op.apply cap t).map Prod.fst) :
    fd ∈ t.map Prod.fst ∨ ∃ cb, op = .add fd cb := by
  obtain ⟨e, inTable, rfl⟩ := List.mem_map.mp member
  cases op with
  | add fd' cb' =>
    by_cases room : Room cap t fd'
    · rcases (mem_add distinct room e).mp inTable with rfl | ⟨old, -⟩
      · exact .inr ⟨cb', rfl⟩
      · exact .inl (List.mem_map_of_mem old)
    · rw [Op.apply, add_full room] at inTable
      exact .inl (List.mem_map_of_mem inTable)
  | del fd' => exact .inl (List.mem_map_of_mem ((mem_del distinct e).mp inTable).1)

/-- A table names what it named and what was added. -/
theorem map_fst_applied (distinct : Distinct t) (named : Names names ops) :
    (applied cap t ops).map Prod.fst ⊆ t.map Prod.fst ++ names := by
  induction ops generalizing t with
  | nil => exact List.subset_append_left _ _
  | cons op ops ih =>
    intro fd member
    have rest := ih (distinct_apply distinct op) (fun fd cb later => named fd cb (List.mem_cons_of_mem _ later)) member
    rcases List.mem_append.mp rest with earlier | new
    · rcases map_fst_apply distinct op earlier with old | ⟨cb, rfl⟩
      · exact List.mem_append_left _ old
      · exact List.mem_append_right _ (named fd cb List.mem_cons_self)
    · exact List.mem_append_right _ new

/-- There is room for all additions of so few descriptors. -/
theorem Names.fits (named : Names names ops) (distinct : Distinct t) (few : t.length + names.length < cap) :
    Fits cap t ops := by
  rintro early late rfl
  have named' : Names names early := fun fd cb member => named fd cb (List.mem_append_left _ member)
  have distinct' : Distinct (applied cap t early) := distinct_applied distinct early
  have covered := List.subperm_of_subset distinct' (map_fst_applied distinct named')
  have length := covered.length_le
  rw [List.length_map, List.length_append, List.length_map] at length
  omega

end FdTable

/-! ## Functions that make calls -/

/-- Where the two tables are in a state. -/
structure TwoTables (σ κ : Type*) where
  fds : σ → FdTable κ
  wfds : σ → FdTable κ
  put : σ → FdTable κ → FdTable κ → σ
  put_self : ∀ s, put s (fds s) (wfds s) = s
  fds_put : ∀ s r w, fds (put s r w) = r
  wfds_put : ∀ s r w, wfds (put s r w) = w

namespace TwoTables

open FdTable

variable {σ α κ : Type*} (T : TwoTables σ κ) (cap : Nat)

/-- A function does to the tables, whatever they hold, what the calls do, and all else regardless of them. -/
def Makes (f : σ → σ) (s : σ) (reads writes : List (Op κ)) : Prop :=
  ∀ r w, f (T.put s r w) = T.put (f s) (applied cap r reads) (applied cap w writes)

/-- It makes calls that add only these descriptors. -/
def Adds (names : List Int) (f : σ → σ) (s : σ) : Prop :=
  ∃ reads writes, T.Makes cap f s reads writes ∧ Names names reads ∧ Names names writes

/-- It makes calls for which there is room. -/
def Keeps (f : σ → σ) (s : σ) : Prop :=
  ∃ reads writes, T.Makes cap f s reads writes ∧ Fits cap (T.fds s) reads ∧ Fits cap (T.wfds s) writes

variable {T cap} {f g : σ → σ} {s : σ} {reads writes : List (Op κ)} {names : List Int}

theorem Makes.fds (makes : T.Makes cap f s reads writes) : T.fds (f s) = applied cap (T.fds s) reads := by
  have here := congrArg T.fds (makes (T.fds s) (T.wfds s))
  rwa [T.put_self, T.fds_put] at here

theorem Makes.wfds (makes : T.Makes cap f s reads writes) : T.wfds (f s) = applied cap (T.wfds s) writes := by
  have here := congrArg T.wfds (makes (T.fds s) (T.wfds s))
  rwa [T.put_self, T.wfds_put] at here

theorem Makes.comp {reads' writes' : List (Op κ)} (first : T.Makes cap f s reads writes)
    (rest : T.Makes cap g (f s) reads' writes') : T.Makes cap (fun s => g (f s)) s (reads ++ reads') (writes ++ writes') := by
  intro r w
  simp only [first r w, rest _ _, applied_append]

theorem Adds.comp (first : T.Adds cap names f s) (rest : T.Adds cap names g (f s)) :
    T.Adds cap names (fun s => g (f s)) s := by
  obtain ⟨reads, writes, makes, named, named'⟩ := first
  obtain ⟨reads', writes', makes', more, more'⟩ := rest
  exact ⟨_, _, makes.comp makes', named.append more, named'.append more'⟩

theorem Keeps.comp (first : T.Keeps cap f s) (rest : T.Keeps cap g (f s)) : T.Keeps cap (fun s => g (f s)) s := by
  obtain ⟨reads, writes, makes, fits, fits'⟩ := first
  obtain ⟨reads', writes', makes', more, more'⟩ := rest
  rw [makes.fds] at more
  rw [makes.wfds] at more'
  exact ⟨_, _, makes.comp makes', fits.append more, fits'.append more'⟩

theorem Adds.mono {names' : List Int} (adds : T.Adds cap names f s) (within : names ⊆ names') : T.Adds cap names' f s := by
  obtain ⟨reads, writes, makes, named, named'⟩ := adds
  exact ⟨reads, writes, makes, named.mono within, named'.mono within⟩

/-- A function that does not look at the tables makes no calls. -/
theorem Adds.blind (blind : ∀ r w, f (T.put s r w) = T.put (f s) r w) : T.Adds cap names f s :=
  ⟨[], [], blind, by simp [Names], by simp [Names]⟩

/-- Functions that do the same whatever the tables hold make the same calls. -/
theorem Adds.congr (adds : T.Adds cap names g s) (same : ∀ r w, f (T.put s r w) = g (T.put s r w)) :
    T.Adds cap names f s := by
  obtain ⟨reads, writes, makes, named⟩ := adds
  have here := same (T.fds s) (T.wfds s)
  rw [T.put_self] at here
  refine ⟨reads, writes, fun r w => ?_, named⟩
  rw [same, here]
  exact makes r w

theorem Keeps.congr (keeps : T.Keeps cap g s) (same : ∀ r w, f (T.put s r w) = g (T.put s r w)) : T.Keeps cap f s := by
  obtain ⟨reads, writes, makes, fits⟩ := keeps
  have here := same (T.fds s) (T.wfds s)
  rw [T.put_self] at here
  refine ⟨reads, writes, fun r w => ?_, fits⟩
  rw [same, here]
  exact makes r w

/-- A choice that does not depend on the tables. -/
theorem Adds.ite {p : σ → Prop} [DecidablePred p] (blind : ∀ r w, p (T.put s r w) ↔ p s)
    (yes : p s → T.Adds cap names f s) (no : ¬p s → T.Adds cap names g s) :
    T.Adds cap names (fun s => if p s then f s else g s) s := by
  by_cases here : p s
  · exact (yes here).congr fun r w => if_pos ((blind r w).mpr here)
  · exact (no here).congr fun r w => if_neg (mt (blind r w).mp here)

/-- A choice between functions that make no calls. -/
theorem Adds.choice {p : σ → Prop} [DecidablePred p] (blind : ∀ r w, p (T.put s r w) ↔ p s)
    (yes : ∀ r w, f (T.put s r w) = T.put (f s) r w) (no : ∀ r w, g (T.put s r w) = T.put (g s) r w) :
    T.Adds cap names (fun s => if p s then f s else g s) s :=
  .ite blind (fun _ => .blind yes) fun _ => .blind no

/-- A turn of each element, with a condition that the turns preserve. -/
theorem Adds.foldl (turn : σ → α → σ) (inv : σ → Prop)
    (step : ∀ s a, inv s → inv (turn s a) ∧ T.Adds cap names (fun s => turn s a) s) (l : List α) (s : σ) (start : inv s) :
    T.Adds cap names (fun s => l.foldl turn s) s := by
  induction l generalizing s with
  | nil => exact .blind fun _ _ => rfl
  | cons a l ih =>
    obtain ⟨next, adds⟩ := step s a start
    exact adds.comp (ih _ next)

/-- Turns that add a descriptor each. -/
theorem Adds.foldl_each (turn : σ → α → σ) (step : ∀ s a, ∃ fd, T.Adds cap [fd] (fun s => turn s a) s) (l : List α)
    (s : σ) : ∃ names : List Int, names.length = l.length ∧ T.Adds cap names (fun s => l.foldl turn s) s := by
  induction l generalizing s with
  | nil => exact ⟨[], rfl, .blind fun _ _ => rfl⟩
  | cons a l ih =>
    obtain ⟨fd, adds⟩ := step s a
    obtain ⟨names, length, rest⟩ := ih (turn s a)
    refine ⟨fd :: names, by simp [length], ?_⟩
    exact (adds.mono (by simp)).comp (rest.mono (List.subset_cons_self fd names))

/-- The same with what the elements still to come have to do with the condition, as long as there is room. -/
theorem Keeps.foldl (turn : σ → α → σ) (inv : List α → σ → Prop) (step : ∀ a rest s, inv (a :: rest) s →
      inv rest (turn s a) ∧ T.Keeps cap (fun s => turn s a) s)
    (last : ∀ s, inv [] s → (T.fds s).length < cap ∧ (T.wfds s).length < cap) (l : List α) (s : σ) (start : inv l s) :
    T.Keeps cap (fun s => l.foldl turn s) s := by
  induction l generalizing s with
  | nil =>
    obtain ⟨short, short'⟩ := last s start
    exact ⟨[], [], fun _ _ => rfl, fits_nil short, fits_nil short'⟩
  | cons a l ih =>
    obtain ⟨next, keeps⟩ := step a l s start
    exact keeps.comp (ih _ next)

theorem Adds.keeps (adds : T.Adds cap names f s) (distinct : Distinct (T.fds s)) (distinct' : Distinct (T.wfds s))
    (few : (T.fds s).length + names.length < cap) (few' : (T.wfds s).length + names.length < cap) : T.Keeps cap f s := by
  obtain ⟨reads, writes, makes, named, named'⟩ := adds
  exact ⟨reads, writes, makes, named.fits distinct few, named'.fits distinct' few'⟩

end TwoTables
