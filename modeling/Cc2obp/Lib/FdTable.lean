import Mathlib.Data.List.Nodup
import Mathlib.Data.List.Perm.Basic

/-!
# Registration tables

A bounded array of (descriptor, registration) entries: adding overwrites the
entry of a descriptor already there and appends while there is room, deleting
moves the last entry into the gap. Everything later is stated by membership in a
table whose descriptors are distinct.
-/

abbrev FdTable (κ : Type*) := List (Int × κ)

namespace FdTable

variable {κ : Type*}

/-- Replace the first entry of the descriptor. -/
def overwrite (fd : Int) (cb : κ) : FdTable κ → FdTable κ
  | [] => []
  | e :: t => if e.1 = fd then (fd, cb) :: t else e :: overwrite fd cb t

def add (cap : Nat) (t : FdTable κ) (fd : Int) (cb : κ) : FdTable κ :=
  if t.any fun e => e.1 == fd then overwrite fd cb t
  else if t.length < cap then t ++ [(fd, cb)]
  else t

def del (t : FdTable κ) (fd : Int) : FdTable κ :=
  match t.findIdx? (fun e => e.1 == fd), t.getLast? with
  | some i, some last => (t.set i last).dropLast
  | _, _ => t

/-- The entry of a descriptor. -/
def lookup (t : FdTable κ) (fd : Int) : Option κ := (t.find? fun e => e.1 == fd).map Prod.snd

def Distinct (t : FdTable κ) : Prop := (t.map Prod.fst).Nodup

variable {t : FdTable κ} {fd : Int} {cb : κ}

theorem distinct_nil : Distinct ([] : FdTable κ) := List.nodup_nil

theorem map_fst_overwrite (t : FdTable κ) : (overwrite fd cb t).map Prod.fst = t.map Prod.fst := by
  induction t with
  | nil => rfl
  | cons e t ih =>
    simp only [overwrite]
    split
    next here => simp [here]
    next => simp [ih]

theorem mem_overwrite (distinct : Distinct t) (known : ∃ e ∈ t, e.1 = fd) (e : Int × κ) :
    e ∈ overwrite fd cb t ↔ e = (fd, cb) ∨ e ∈ t ∧ e.1 ≠ fd := by
  induction t with
  | nil => simp at known
  | cons first t ih =>
    obtain ⟨fresh, distinct'⟩ := List.nodup_cons.mp distinct
    simp only [overwrite]
    split
    next here =>
      -- the entry is the first, and by distinctness the only one
      have others : ∀ x ∈ t, x.1 ≠ fd := by
        intro x member same
        exact fresh (List.mem_map.mpr ⟨x, member, same.trans here.symm⟩)
      constructor
      · intro member
        rcases List.mem_cons.mp member with new | old
        · exact .inl new
        · exact .inr ⟨List.mem_cons_of_mem _ old, others e old⟩
      · rintro (new | ⟨old, apart⟩)
        · exact List.mem_cons.mpr (.inl new)
        · rcases List.mem_cons.mp old with same | rest
          · exact absurd (same ▸ here) apart
          · exact List.mem_cons_of_mem _ rest
    next apart =>
      -- the entry is further down
      have known' : ∃ e ∈ t, e.1 = fd := by
        obtain ⟨x, member, same⟩ := known
        rcases List.mem_cons.mp member with rfl | rest
        · exact absurd same apart
        · exact ⟨x, rest, same⟩
      rw [List.mem_cons, ih distinct' known', List.mem_cons]
      constructor
      · rintro (same | new | ⟨old, other⟩)
        · exact .inr ⟨.inl same, same ▸ apart⟩
        · exact .inl new
        · exact .inr ⟨.inr old, other⟩
      · rintro (new | ⟨same | old, other⟩)
        · exact .inr (.inl new)
        · exact .inl same
        · exact .inr (.inr ⟨old, other⟩)

/-- There is room for the descriptor: it is known, or the table is not full. -/
def Room (cap : Nat) (t : FdTable κ) (fd : Int) : Prop := (∃ e ∈ t, e.1 = fd) ∨ t.length < cap

theorem any_iff : (t.any fun e => e.1 == fd) = true ↔ ∃ e ∈ t, e.1 = fd := by
  simp only [List.any_eq_true, beq_iff_eq]

theorem add_known {cap : Nat} (known : ∃ e ∈ t, e.1 = fd) : add cap t fd cb = overwrite fd cb t := by
  have found := any_iff.mpr known
  simp [add, found]

theorem add_new {cap : Nat} (new : ¬∃ e ∈ t, e.1 = fd) (room : t.length < cap) :
    add cap t fd cb = t ++ [(fd, cb)] := by
  have missing := Bool.eq_false_iff.mpr (mt any_iff.mp new)
  simp [add, missing, room]

theorem add_full {cap : Nat} (full : ¬Room cap t fd) : add cap t fd cb = t := by
  obtain ⟨unknown, crowded⟩ := not_or.mp full
  have missing := Bool.eq_false_iff.mpr (mt any_iff.mp unknown)
  simp [add, missing, crowded]

theorem mem_add {cap : Nat} (distinct : Distinct t) (room : Room cap t fd) (e : Int × κ) :
    e ∈ add cap t fd cb ↔ e = (fd, cb) ∨ e ∈ t ∧ e.1 ≠ fd := by
  by_cases known : ∃ e ∈ t, e.1 = fd
  · rw [add_known known, mem_overwrite distinct known]
  · rw [add_new known (room.resolve_left known), List.mem_append, List.mem_singleton]
    have others : ∀ x ∈ t, x.1 ≠ fd := fun x member same => known ⟨x, member, same⟩
    constructor
    · rintro (old | new)
      · exact .inr ⟨old, others e old⟩
      · exact .inl new
    · rintro (new | ⟨old, -⟩)
      · exact .inr new
      · exact .inl old

theorem distinct_add {cap : Nat} (distinct : Distinct t) : Distinct (add cap t fd cb) := by
  by_cases known : ∃ e ∈ t, e.1 = fd
  · rw [add_known known, Distinct, map_fst_overwrite]
    exact distinct
  · by_cases room : t.length < cap
    · rw [add_new known room, Distinct, List.map_append, List.nodup_append]
      refine ⟨distinct, by simp, ?_⟩
      intro a member b last
      obtain ⟨e, member', rfl⟩ := List.mem_map.mp member
      have here : b = fd := by simpa using last
      exact fun same => known ⟨e, member', same.trans here⟩
    · have missing := Bool.eq_false_iff.mpr (mt any_iff.mp known)
      simpa [add, missing, room] using distinct

/-- Moving the last entry into a gap is removing the gap, up to order. -/
theorem set_dropLast_perm (t : FdTable κ) (i : Nat) (inside : i < t.length) (last : Int × κ)
    (isLast : t.getLast? = some last) : (t.set i last).dropLast.Perm (t.eraseIdx i) := by
  induction t generalizing i with
  | nil => simp at inside
  | cons first t ih =>
    cases t with
    | nil =>
      have zero : i = 0 := by simpa using inside
      simp [zero]
    | cons second t =>
      have isLast' : (second :: t).getLast? = some last := by simpa using isLast
      cases i with
      | zero =>
        have split := List.dropLast_append_getLast? last isLast'
        have tail : (last :: (second :: t).dropLast).Perm (second :: t) := by
          conv => rhs; rw [← split]
          exact @List.perm_append_comm _ [last] _
        simpa using tail
      | succ i =>
        have rest := ih i (by simpa using inside) isLast'
        have keep : (first :: (second :: t).set i last).dropLast =
            first :: ((second :: t).set i last).dropLast :=
          List.dropLast_cons_of_ne_nil (by simp)
        simpa [List.set_cons_succ, keep] using rest.cons first

theorem del_unknown (unknown : ¬∃ e ∈ t, e.1 = fd) : del t fd = t := by
  have none : t.findIdx? (fun e => e.1 == fd) = none := by
    rw [List.findIdx?_eq_none_iff]
    intro x member
    simpa using fun same => unknown ⟨x, member, same⟩
  simp [del, none]

/-- Deleting a known descriptor leaves the rest of the table, up to order. -/
theorem del_perm (known : ∃ e ∈ t, e.1 = fd) : ∃ e, e.1 = fd ∧ (e :: del t fd).Perm t := by
  obtain ⟨i, found⟩ : ∃ i, t.findIdx? (fun e => e.1 == fd) = some i := by
    rw [← Option.isSome_iff_exists, List.findIdx?_isSome]
    simpa using known
  obtain ⟨inside, here, -⟩ := List.findIdx?_eq_some_iff_getElem.mp found
  have nonempty : t ≠ [] := List.ne_nil_of_length_pos (by omega)
  obtain ⟨last, isLast⟩ : ∃ last, t.getLast? = some last :=
    ⟨_, List.getLast?_eq_some_getLast nonempty⟩
  refine ⟨t[i], by simpa using here, ?_⟩
  have moved := set_dropLast_perm t i inside last isLast
  have erased := List.getElem_cons_eraseIdx_perm inside
  simpa [del, found, isLast] using (moved.cons t[i]).trans erased

theorem distinct_del (distinct : Distinct t) : Distinct (del t fd) := by
  by_cases known : ∃ e ∈ t, e.1 = fd
  · obtain ⟨e, -, perm⟩ := del_perm known
    exact (List.nodup_cons.mp ((perm.map Prod.fst).nodup_iff.mpr distinct)).2
  · rwa [del_unknown known]

theorem mem_del (distinct : Distinct t) (e : Int × κ) : e ∈ del t fd ↔ e ∈ t ∧ e.1 ≠ fd := by
  by_cases known : ∃ e ∈ t, e.1 = fd
  · obtain ⟨gone, here, perm⟩ := del_perm known
    have fresh := (List.nodup_cons.mp ((perm.map Prod.fst).nodup_iff.mpr distinct)).1
    have others : ∀ x ∈ del t fd, x.1 ≠ fd := by
      intro x member same
      exact fresh (List.mem_map.mpr ⟨x, member, same.trans here.symm⟩)
    rw [← perm.mem_iff, List.mem_cons]
    constructor
    · exact fun member => ⟨.inr member, others e member⟩
    · rintro ⟨same | member, apart⟩
      · exact absurd (same ▸ here) apart
      · exact member
  · rw [del_unknown known]
    exact ⟨fun member => ⟨member, fun same => known ⟨e, member, same⟩⟩, And.left⟩

theorem lookup_eq_some (distinct : Distinct t) : lookup t fd = some cb ↔ (fd, cb) ∈ t := by
  simp only [lookup, Option.map_eq_some_iff]
  constructor
  · rintro ⟨e, found, rfl⟩
    have here : e.1 = fd := by simpa using List.find?_some found
    exact here ▸ List.mem_of_find?_eq_some found
  · intro member
    obtain ⟨e, found⟩ : ∃ e, t.find? (fun e => e.1 == fd) = some e := by
      rw [← Option.isSome_iff_exists, List.find?_isSome]
      exact ⟨_, member, by simp⟩
    refine ⟨e, found, ?_⟩
    have here : e.1 = fd := by simpa using List.find?_some found
    have same := List.inj_on_of_nodup_map distinct (List.mem_of_find?_eq_some found) member here
    rw [same]

end FdTable
