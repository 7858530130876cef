import Cc2obp.Lib.FdTable
import Mathlib.Data.List.Perm.Subperm
import Mathlib.Logic.Function.Basic
import Mathlib.Order.Basic

/-!
# Who owns a descriptor

Holders own open descriptors, each watched for reading or for writing with a
callback of the holder's. No descriptor has two owners, none but the reserved
ones is open without one, and the two registration tables hold exactly the owned
descriptors, and at most a stray entry for the descriptor -1, which is never
ready; so the tables never overflow while there are fewer holders than entries.
Descriptors are acquired, released, watched otherwise and handed over.
-/

/-- The table a descriptor is registered in, with its callback. -/
inductive Watch (κ : Type*) where
  | read (cb : κ)
  | write (cb : κ)

variable {H κ : Type*} [DecidableEq H]

namespace Watch

-- what an owned descriptor contributes to the read table and to the write table
def reads : Option (Int × Watch κ) → Option (Int × κ)
  | some (fd, .read cb) => some (fd, cb)
  | _ => none

def writes : Option (Int × Watch κ) → Option (Int × κ)
  | some (fd, .write cb) => some (fd, cb)
  | _ => none

theorem of_reads {o : Option (Int × Watch κ)} {fd : Int} {cb : κ} (watched : reads o = some (fd, cb)) :
    o = some (fd, .read cb) := by
  unfold reads at watched
  split at watched <;> simp_all

theorem of_writes {o : Option (Int × Watch κ)} {fd : Int} {cb : κ} (watched : writes o = some (fd, cb)) :
    o = some (fd, .write cb) := by
  unfold writes at watched
  split at watched <;> simp_all

end Watch

/-! ## One table -/

/-- The table holds one entry for every holder in view and no other, a stray one for -1 apart. -/
structure Registered (view : H → Option (Int × κ)) (t : FdTable κ) : Prop where
  distinct : FdTable.Distinct t
  entries : ∀ e : Int × κ, 0 ≤ e.1 → (e ∈ t ↔ ∃ h, view h = some e)
  strays : ∀ e ∈ t, e.1 < 0 → e.1 = -1

namespace Registered

variable {view : H → Option (Int × κ)} {t : FdTable κ} {cap : Nat} {h h' : H} {fd : Int} {cb cb' : κ}

omit [DecidableEq H] in
theorem nil : Registered (fun _ : H => (none : Option (Int × κ))) [] :=
  ⟨FdTable.distinct_nil, by simp, by simp⟩

omit [DecidableEq H] in
theorem strays_add (reg : Registered view t) (room : FdTable.Room cap t fd) (nonneg : 0 ≤ fd) :
    ∀ e ∈ FdTable.add cap t fd cb, e.1 < 0 → e.1 = -1 := by
  intro e member negative
  rcases (FdTable.mem_add reg.distinct room e).mp member with rfl | ⟨old, -⟩
  · exact absurd nonneg (by simpa using negative)
  · exact reg.strays e old negative

omit [DecidableEq H] in
theorem strays_del (reg : Registered view t) : ∀ e ∈ FdTable.del t fd, e.1 < 0 → e.1 = -1 := by
  intro e member negative
  exact reg.strays e ((FdTable.mem_del reg.distinct e).mp member).1 negative

omit [DecidableEq H] in
/-- Registering -1 adds nothing that counts. -/
theorem stray (reg : Registered view t) : Registered view (FdTable.add cap t (-1) cb) := by
  by_cases room : FdTable.Room cap t (-1)
  · refine ⟨FdTable.distinct_add reg.distinct, fun e nonneg => ?_, fun e member negative => ?_⟩
    · rw [FdTable.mem_add reg.distinct room, ← reg.entries e nonneg]
      constructor
      · rintro (rfl | ⟨old, -⟩)
        · simp at nonneg
        · exact old
      · intro old
        exact .inr ⟨old, by omega⟩
    · rcases (FdTable.mem_add reg.distinct room e).mp member with rfl | ⟨old, -⟩
      · rfl
      · exact reg.strays e old negative
  · rw [FdTable.add_full room]
    exact reg

theorem add (reg : Registered view t) (absent : view h = none) (nonneg : 0 ≤ fd)
    (fresh : ∀ h' fd' cb', view h' = some (fd', cb') → fd' ≠ fd) (room : t.length < cap) :
    Registered (Function.update view h (some (fd, cb))) (FdTable.add cap t fd cb) := by
  refine ⟨FdTable.distinct_add reg.distinct, fun e counts => ?_, reg.strays_add (.inr room) nonneg⟩
  rw [FdTable.mem_add reg.distinct (.inr room), reg.entries e counts]
  constructor
  · rintro (rfl | ⟨⟨h', inView⟩, -⟩)
    · exact ⟨h, by simp⟩
    · have other : h' ≠ h := by
        rintro rfl
        simp [absent] at inView
      exact ⟨h', by simp [other, inView]⟩
  · rintro ⟨h', inView⟩
    by_cases same : h' = h
    · subst same
      simp at inView
      exact .inl inView.symm
    · simp [same] at inView
      exact .inr ⟨⟨h', inView⟩, fresh h' e.1 e.2 inView⟩

/-- Deleting a descriptor takes its only holder out of view. -/
theorem del (reg : Registered view t) (mine : view h = none ∨ ∃ cb, view h = some (fd, cb))
    (only : ∀ h' cb, view h' = some (fd, cb) → h' = h) :
    Registered (Function.update view h none) (FdTable.del t fd) := by
  refine ⟨FdTable.distinct_del reg.distinct, fun e counts => ?_, reg.strays_del⟩
  rw [FdTable.mem_del reg.distinct, reg.entries e counts]
  constructor
  · rintro ⟨⟨h', inView⟩, other⟩
    have apart : h' ≠ h := by
      rintro rfl
      rcases mine with absent | ⟨cb, here⟩
      · simp [absent] at inView
      · rw [here] at inView
        cases inView
        exact other rfl
    exact ⟨h', by simp [apart, inView]⟩
  · rintro ⟨h', inView⟩
    by_cases same : h' = h
    · simp [same] at inView
    · simp [same] at inView
      refine ⟨⟨h', inView⟩, ?_⟩
      rintro rfl
      exact same (only h' e.2 inView)

/-- The entry of a descriptor is overwritten: it changes hands. -/
theorem move (reg : Registered view t) (mine : view h = some (fd, cb)) (nonneg : 0 ≤ fd)
    (absent : view h' = none) (only : ∀ h₁ cb, view h₁ = some (fd, cb) → h₁ = h) :
    Registered (Function.update (Function.update view h none) h' (some (fd, cb')))
      (FdTable.add cap t fd cb') := by
  have apart : h' ≠ h := by
    rintro rfl
    simp [absent] at mine
  have inTable : (fd, cb) ∈ t := (reg.entries _ nonneg).mpr ⟨h, mine⟩
  have known : FdTable.Room cap t fd := .inl ⟨_, inTable, rfl⟩
  refine ⟨FdTable.distinct_add reg.distinct, fun e counts => ?_, reg.strays_add known nonneg⟩
  rw [FdTable.mem_add reg.distinct known, reg.entries e counts]
  constructor
  · rintro (rfl | ⟨⟨h₁, inView⟩, other⟩)
    · exact ⟨h', by simp⟩
    · have first : h₁ ≠ h := by
        rintro rfl
        rw [mine] at inView
        cases inView
        exact other rfl
      have second : h₁ ≠ h' := by
        rintro rfl
        simp [absent] at inView
      exact ⟨h₁, by simp [first, second, inView]⟩
  · rintro ⟨h₁, inView⟩
    -- the new holder has the new entry, the old one has none
    by_cases second : h₁ = h'
    · subst second
      simp at inView
      exact .inl inView.symm
    · by_cases first : h₁ = h
      · subst first
        simp [second] at inView
      · simp [first, second] at inView
        refine .inr ⟨⟨h₁, inView⟩, ?_⟩
        rintro rfl
        exact first (only h₁ e.2 inView)

omit [DecidableEq H] in
/-- There are no more entries than holders in view, the stray one apart. -/
theorem length_le {known : List H} (reg : Registered view t) (viewed : ∀ h, view h ≠ none → h ∈ known) :
    t.length ≤ known.length + 1 := by
  have covered : t.map Prod.fst ⊆ -1 :: known.filterMap fun h => (view h).map Prod.fst := by
    intro fd inTable
    obtain ⟨e, here, rfl⟩ := List.mem_map.mp inTable
    by_cases nonneg : 0 ≤ e.1
    · obtain ⟨h, inView⟩ := (reg.entries e nonneg).mp here
      refine List.mem_cons_of_mem _ (List.mem_filterMap.mpr ⟨h, viewed h ?_, ?_⟩) <;> simp [inView]
    · exact List.mem_cons.mpr (.inl (reg.strays e here (by omega)))
  have short := (List.subperm_of_subset reg.distinct covered).length_le
  have fewer : (known.filterMap fun h => (view h).map Prod.fst).length ≤ known.length := List.length_filterMap_le _ _
  rw [List.length_map, List.length_cons] at short
  omega

end Registered

/-! ## Owners -/

structure Owned (cap : Nat) (reserved : List Int) (holders : List H) (own : H → Option (Int × Watch κ))
    (opened : List Int) (fds wfds : FdTable κ) : Prop where
  known : ∀ h, own h ≠ none → h ∈ holders
  few : holders.length < cap
  apart : ∀ h h' fd m m', own h = some (fd, m) → own h' = some (fd, m') → h = h'
  isOpen : ∀ h fd m, own h = some (fd, m) → 0 ≤ fd ∧ fd ∈ opened
  claimed : ∀ fd ∈ opened, fd ∈ reserved ∨ ∃ h m, own h = some (fd, m)
  reading : Registered (fun h => Watch.reads (own h)) fds
  writing : Registered (fun h => Watch.writes (own h)) wfds

namespace Owned

variable {cap : Nat} {reserved : List Int} {holders : List H} {own : H → Option (Int × Watch κ)} {opened : List Int}
  {fds wfds : FdTable κ} {h h' : H} {fd : Int} {cb cb' : κ} {m : Watch κ}

/-- A table of owned descriptors has room for a holder that has no entry in it. -/
theorem room {view : H → Option (Int × κ)} {t : FdTable κ} (reg : Registered view t)
    (owned : Owned cap reserved holders own opened fds wfds)
    (viewed : ∀ h fd cb, view h = some (fd, cb) → ∃ m, own h = some (fd, m))
    (member : h ∈ holders) (absent : view h = none) : t.length < cap := by
  have others : ∀ h', view h' ≠ none → h' ∈ holders.erase h := by
    intro h' some_
    obtain ⟨⟨fd, cb⟩, inView⟩ := Option.ne_none_iff_exists'.mp some_
    obtain ⟨m, owns⟩ := viewed h' fd cb inView
    have apart : h' ≠ h := by
      rintro rfl
      exact some_ absent
    exact (List.mem_erase_of_ne apart).mpr (owned.known h' (by simp [owns]))
  have short := reg.length_le others
  have few := owned.few
  have positive := List.length_pos_of_mem member
  rw [List.length_erase_of_mem member] at short
  omega

omit [DecidableEq H] in
/-- Both tables have an entry for each holder at most, and the stray one. -/
theorem length_le (owned : Owned cap reserved holders own opened fds wfds) :
    fds.length ≤ holders.length + 1 ∧ wfds.length ≤ holders.length + 1 := by
  refine ⟨owned.reading.length_le fun h some_ => owned.known h ?_, owned.writing.length_le fun h some_ => owned.known h ?_⟩
  all_goals
    intro none_
    exact some_ (by rw [none_]; rfl)

theorem room_reading (owned : Owned cap reserved holders own opened fds wfds) (member : h ∈ holders)
    (absent : Watch.reads (own h) = none) : fds.length < cap :=
  room owned.reading owned (fun _ _ _ watched => ⟨_, Watch.of_reads watched⟩) member absent

theorem room_writing (owned : Owned cap reserved holders own opened fds wfds) (member : h ∈ holders)
    (absent : Watch.writes (own h) = none) : wfds.length < cap :=
  room owned.writing owned (fun _ _ _ watched => ⟨_, Watch.of_writes watched⟩) member absent

/-- The holders in view of a table after one of them has changed. -/
theorem reads_update (x : Option (Int × Watch κ)) :
    (fun h' => Watch.reads (Function.update own h x h')) =
      Function.update (fun h' => Watch.reads (own h')) h (Watch.reads x) := by
  funext h'
  by_cases same : h' = h
  · subst same
    simp
  · simp [same]

theorem writes_update (x : Option (Int × Watch κ)) :
    (fun h' => Watch.writes (Function.update own h x h')) =
      Function.update (fun h' => Watch.writes (own h')) h (Watch.writes x) := by
  funext h'
  by_cases same : h' = h
  · subst same
    simp
  · simp [same]

theorem known_update {x : Option (Int × Watch κ)} (owned : Owned cap reserved holders own opened fds wfds)
    (member : x ≠ none → h ∈ holders) : ∀ h', Function.update own h x h' ≠ none → h' ∈ holders := by
  intro h' owns
  by_cases same : h' = h
  · subst same
    exact member (by simpa using owns)
  · exact owned.known h' (by simpa [same] using owns)

/-- A holder without a descriptor opens one. -/
theorem fresh_parts (owned : Owned cap reserved holders own opened fds wfds) (closed : fd ∉ opened)
    (nonneg : 0 ≤ fd) (m : Watch κ) :
    (∀ h₁ h₂ fd' m₁ m₂, Function.update own h (some (fd, m)) h₁ = some (fd', m₁) →
      Function.update own h (some (fd, m)) h₂ = some (fd', m₂) → h₁ = h₂) ∧
    ∀ h₁ fd' m₁, Function.update own h (some (fd, m)) h₁ = some (fd', m₁) →
      0 ≤ fd' ∧ fd' ∈ fd :: opened := by
  have others : ∀ h' fd' m', own h' = some (fd', m') → fd' ≠ fd := by
    rintro h' fd' m' owns rfl
    exact closed (owned.isOpen h' _ _ owns).2
  constructor
  · intro h₁ h₂ fd' m₁ m₂ owns₁ owns₂
    by_cases first : h₁ = h <;> by_cases second : h₂ = h
    · rw [first, second]
    · simp [first, second] at owns₁ owns₂
      exact absurd owns₁.1.symm (others h₂ fd' m₂ owns₂)
    · simp [first, second] at owns₁ owns₂
      exact absurd owns₂.1.symm (others h₁ fd' m₁ owns₁)
    · simp [first, second] at owns₁ owns₂
      exact owned.apart h₁ h₂ fd' m₁ m₂ owns₁ owns₂
  · intro h₁ fd' m₁ owns
    by_cases first : h₁ = h
    · simp [first] at owns
      simp [← owns.1, nonneg]
    · simp [first] at owns
      have isOpen := owned.isOpen h₁ fd' m₁ owns
      simp [isOpen]

theorem claimed_fresh (owned : Owned cap reserved holders own opened fds wfds) (free : own h = none)
    (m : Watch κ) : ∀ fd' ∈ fd :: opened, fd' ∈ reserved ∨
      ∃ h' m', Function.update own h (some (fd, m)) h' = some (fd', m') := by
  intro fd' member
  rcases List.mem_cons.mp member with rfl | old
  · exact .inr ⟨h, m, by simp⟩
  · rcases owned.claimed fd' old with kept | ⟨h', m', owns⟩
    · exact .inl kept
    · have other : h' ≠ h := by
        rintro rfl
        simp [free] at owns
      exact .inr ⟨h', m', by simpa [other] using owns⟩

/-- Open a descriptor and watch it for reading. -/
theorem acquire_read (owned : Owned cap reserved holders own opened fds wfds) (free : own h = none)
    (member : h ∈ holders) (closed : fd ∉ opened) (nonneg : 0 ≤ fd) :
    Owned cap reserved holders (Function.update own h (some (fd, .read cb))) (fd :: opened)
      (FdTable.add cap fds fd cb) wfds := by
  have absent : Watch.reads (own h) = none := by rw [free]; rfl
  have absent' : Watch.writes (own h) = none := by rw [free]; rfl
  obtain ⟨apart, isOpen⟩ := owned.fresh_parts (h := h) closed nonneg (.read cb)
  refine ⟨owned.known_update fun _ => member, owned.few, apart, isOpen, owned.claimed_fresh free _, ?_, ?_⟩
  · rw [reads_update]
    refine owned.reading.add absent nonneg (fun h' fd' cb' watched => ?_) (owned.room_reading member absent)
    rintro rfl
    exact closed (owned.isOpen h' _ _ (Watch.of_reads watched)).2
  · rw [writes_update, show Watch.writes (some (fd, Watch.read cb)) = Watch.writes (own h) from
      absent'.symm, Function.update_eq_self]
    exact owned.writing

/-- Open a descriptor and watch it for writing. -/
theorem acquire_write (owned : Owned cap reserved holders own opened fds wfds) (cb : κ) (free : own h = none)
    (member : h ∈ holders) (closed : fd ∉ opened) (nonneg : 0 ≤ fd) :
    Owned cap reserved holders (Function.update own h (some (fd, .write cb))) (fd :: opened) fds
      (FdTable.add cap wfds fd cb) := by
  have absent : Watch.reads (own h) = none := by rw [free]; rfl
  have absent' : Watch.writes (own h) = none := by rw [free]; rfl
  obtain ⟨apart, isOpen⟩ := owned.fresh_parts (h := h) closed nonneg (.write cb)
  refine ⟨owned.known_update fun _ => member, owned.few, apart, isOpen, owned.claimed_fresh free _, ?_, ?_⟩
  · rw [reads_update, show Watch.reads (some (fd, Watch.write cb)) = Watch.reads (own h) from
      absent.symm, Function.update_eq_self]
    exact owned.reading
  · rw [writes_update]
    refine owned.writing.add absent' nonneg (fun h' fd' cb' watched => ?_) (owned.room_writing member absent')
    rintro rfl
    exact closed (owned.isOpen h' _ _ (Watch.of_writes watched)).2

omit [DecidableEq H] in
/-- The one table's entry of an owned descriptor is not in the other table. -/
theorem del_writing (owned : Owned cap reserved holders own opened fds wfds)
    (owns : own h = some (fd, .read cb)) : FdTable.del wfds fd = wfds := by
  refine FdTable.del_unknown ?_
  rintro ⟨e, inTable, rfl⟩
  obtain ⟨h', watched⟩ := (owned.writing.entries e (owned.isOpen _ _ _ owns).1).mp inTable
  have owns' := Watch.of_writes watched
  rw [← owned.apart h h' _ _ _ owns owns', owns] at owns'
  cases owns'

omit [DecidableEq H] in
theorem del_reading (owned : Owned cap reserved holders own opened fds wfds)
    (owns : own h = some (fd, .write cb)) : FdTable.del fds fd = fds := by
  refine FdTable.del_unknown ?_
  rintro ⟨e, inTable, rfl⟩
  obtain ⟨h', watched⟩ := (owned.reading.entries e (owned.isOpen _ _ _ owns).1).mp inTable
  have owns' := Watch.of_reads watched
  rw [← owned.apart h h' _ _ _ owns owns', owns] at owns'
  cases owns'

/-- Unregister a descriptor everywhere and close it. -/
theorem release (owned : Owned cap reserved holders own opened fds wfds) (owns : own h = some (fd, m)) :
    Owned cap reserved holders (Function.update own h none) (opened.filter (· ≠ fd)) (FdTable.del fds fd)
      (FdTable.del wfds fd) := by
  -- who owns something afterwards owned it before and is somebody else
  have keeps : ∀ h' fd' m', Function.update own h none h' = some (fd', m') →
      h' ≠ h ∧ own h' = some (fd', m') := by
    intro h' fd' m' owns'
    by_cases same : h' = h
    · simp [same] at owns'
    · exact ⟨same, by simpa [same] using owns'⟩
  refine ⟨owned.known_update fun some => absurd rfl some, owned.few, ?_, ?_, ?_, ?_, ?_⟩
  · intro h₁ h₂ fd' m₁ m₂ owns₁ owns₂
    exact owned.apart h₁ h₂ fd' m₁ m₂ (keeps _ _ _ owns₁).2 (keeps _ _ _ owns₂).2
  · intro h' fd' m' owns'
    obtain ⟨other, owns'⟩ := keeps _ _ _ owns'
    obtain ⟨nonneg, isOpen⟩ := owned.isOpen h' fd' m' owns'
    have differs : fd' ≠ fd := by
      rintro rfl
      exact other (owned.apart h' h _ _ _ owns' owns)
    exact ⟨nonneg, by simp [isOpen, differs]⟩
  · -- the descriptor is closed, so nobody has to claim it
    intro fd' member
    simp only [List.mem_filter, decide_eq_true_eq] at member
    rcases owned.claimed fd' member.1 with kept | ⟨h', m', owns'⟩
    · exact .inl kept
    · have other : h' ≠ h := by
        rintro rfl
        rw [owns] at owns'
        cases owns'
        exact member.2 rfl
      exact .inr ⟨h', m', by simpa [other] using owns'⟩
  · rw [reads_update]
    refine owned.reading.del ?_ fun h' cb watched => owned.apart h' h _ _ _ (Watch.of_reads watched) owns
    cases m with
    | read cb => exact .inr ⟨cb, by rw [owns]; rfl⟩
    | write cb => exact .inl (by rw [owns]; rfl)
  · rw [writes_update]
    refine owned.writing.del ?_ fun h' cb watched => owned.apart h' h _ _ _ (Watch.of_writes watched) owns
    cases m with
    | read cb => exact .inl (by rw [owns]; rfl)
    | write cb => exact .inr ⟨cb, by rw [owns]; rfl⟩

/-- A descriptor watched for writing is watched for reading from now on. -/
theorem promote (owned : Owned cap reserved holders own opened fds wfds)
    (owns : own h = some (fd, .write cb)) :
    Owned cap reserved holders (Function.update own h (some (fd, .read cb'))) opened
      (FdTable.add cap fds fd cb') (FdTable.del wfds fd) := by
  have member := owned.known h (by simp [owns])
  have nonneg := (owned.isOpen _ _ _ owns).1
  have absent : Watch.reads (own h) = none := by rw [owns]; rfl
  -- the descriptors are claimed by the same holders as before
  have back : ∀ h' fd' m', Function.update own h (some (fd, .read cb')) h' = some (fd', m') →
      ∃ m'', own h' = some (fd', m'') := by
    intro h' fd' m' owns'
    by_cases same : h' = h
    · subst same
      simp at owns'
      exact ⟨_, owns'.1 ▸ owns⟩
    · exact ⟨m', by simpa [same] using owns'⟩
  refine ⟨owned.known_update fun _ => member, owned.few, ?_, ?_, ?_, ?_, ?_⟩
  · intro h₁ h₂ fd' m₁ m₂ owns₁ owns₂
    obtain ⟨_, before₁⟩ := back _ _ _ owns₁
    obtain ⟨_, before₂⟩ := back _ _ _ owns₂
    exact owned.apart h₁ h₂ fd' _ _ before₁ before₂
  · intro h' fd' m' owns'
    obtain ⟨_, before⟩ := back _ _ _ owns'
    exact owned.isOpen h' fd' _ before
  · intro fd' member
    rcases owned.claimed fd' member with kept | ⟨h', m', owns'⟩
    · exact .inl kept
    · by_cases same : h' = h
      · subst same
        rw [owns] at owns'
        cases owns'
        exact .inr ⟨h', .read cb', by simp⟩
      · exact .inr ⟨h', m', by simpa [same] using owns'⟩
  · rw [reads_update]
    refine owned.reading.add absent nonneg (fun h' fd' cb' watched => ?_) (owned.room_reading member absent)
    rintro rfl
    have owns' := Watch.of_reads watched
    rw [← owned.apart h h' _ _ _ owns owns', owns] at owns'
    cases owns'
  · rw [writes_update]
    exact owned.writing.del (.inr ⟨cb, by rw [owns]; rfl⟩)
      fun h' cb watched => owned.apart h' h _ _ _ (Watch.of_writes watched) owns

/-- A descriptor watched for reading is handed over to a holder without one. -/
theorem hand_over (owned : Owned cap reserved holders own opened fds wfds)
    (owns : own h = some (fd, .read cb)) (free : own h' = none) (member : h' ∈ holders) :
    Owned cap reserved holders (Function.update (Function.update own h none) h' (some (fd, .read cb'))) opened
      (FdTable.add cap fds fd cb') wfds := by
  have apart : h' ≠ h := by
    rintro rfl
    simp [free] at owns
  -- what is owned afterwards is the descriptor, by its new holder, or owned by a third as before
  have back : ∀ h₁ fd' m', Function.update (Function.update own h none) h' (some (fd, .read cb')) h₁ =
      some (fd', m') → (h₁ = h' ∧ fd' = fd) ∨ h₁ ≠ h' ∧ h₁ ≠ h ∧ own h₁ = some (fd', m') := by
    intro h₁ fd' m' owns'
    by_cases new : h₁ = h'
    · subst new
      simp at owns'
      exact .inl ⟨rfl, owns'.1.symm⟩
    · by_cases old : h₁ = h
      · subst old
        simp [new] at owns'
      · simp [new, old] at owns'
        exact .inr ⟨new, old, owns'⟩
  refine ⟨?_, owned.few, ?_, ?_, ?_, ?_, ?_⟩
  · intro h₁ owns'
    by_cases new : h₁ = h'
    · exact new ▸ member
    · by_cases old : h₁ = h
      · subst old
        simp [new] at owns'
      · exact owned.known h₁ (by simpa [new, old] using owns')
  · intro h₁ h₂ fd' m₁ m₂ owns₁ owns₂
    rcases back _ _ _ owns₁ with ⟨rfl, rfl⟩ | ⟨new₁, old₁, before₁⟩ <;>
      rcases back _ _ _ owns₂ with ⟨rfl, same⟩ | ⟨new₂, old₂, before₂⟩
    · rfl
    · exact absurd (owned.apart h₂ h _ _ _ before₂ owns) old₂
    · exact absurd (owned.apart h₁ h _ _ _ (same ▸ before₁) owns) old₁
    · exact owned.apart h₁ h₂ fd' _ _ before₁ before₂
  · intro h₁ fd' m₁ owns₁
    rcases back _ _ _ owns₁ with ⟨-, rfl⟩ | ⟨-, -, before⟩
    · exact owned.isOpen h _ _ owns
    · exact owned.isOpen h₁ fd' _ before
  · intro fd' opened'
    rcases owned.claimed fd' opened' with kept | ⟨h₁, m₁, owns₁⟩
    · exact .inl kept
    · by_cases old : h₁ = h
      · subst old
        rw [owns] at owns₁
        cases owns₁
        exact .inr ⟨h', .read cb', by simp⟩
      · have new : h₁ ≠ h' := by
          rintro rfl
          simp [free] at owns₁
        exact .inr ⟨h₁, m₁, by simpa [old, new] using owns₁⟩
  · rw [reads_update, reads_update]
    exact owned.reading.move (show Watch.reads (own h) = some (fd, cb) by rw [owns]; rfl) (owned.isOpen _ _ _ owns).1 (by rw [free]; rfl)
      fun h₁ cb watched => owned.apart h₁ h _ _ _ (Watch.of_reads watched) owns
  · -- neither holder was writing
    have silent : Watch.writes (own h) = none := by rw [owns]; rfl
    have silent' : Watch.writes (own h') = none := by rw [free]; rfl
    have same : (fun h₁ => Watch.writes (Function.update (Function.update own h none) h'
        (some (fd, .read cb')) h₁)) = fun h₁ => Watch.writes (own h₁) := by
      funext h₁
      by_cases new : h₁ = h'
      · subst new
        rw [silent', Function.update_self]
        rfl
      · by_cases old : h₁ = h
        · subst old
          rw [silent, Function.update_of_ne new, Function.update_self]
          rfl
        · simp [new, old]
    rw [same]
    exact owned.writing

omit [DecidableEq H] in
/-- Registering -1 for reading changes nobody's descriptor. -/
theorem stray (owned : Owned cap reserved holders own opened fds wfds) :
    Owned cap reserved holders own opened (FdTable.add cap fds (-1) cb) wfds :=
  { owned with reading := owned.reading.stray }

end Owned
