import Cc2obp.Config.Entries
import Cc2obp.Cccc.CcccLink
import Cc2obp.Translate.Routing

/-!
# Routing keys

At most one link has a peer and talkgroup, and at most one inbound link an address
and LID: the checks across entries compare what the lookups compare. A reload
changes neither, and loading the `[[link]]` tables in another order gives the same
links in another order, so every lookup finds the same link.
-/
namespace Cc2obp

/-! ## Lookups that one entry can satisfy -/

section Lookup
variable {α : Type} {p : α → Bool} {l l' : List α}

/-- No two entries satisfy the predicate. -/
def AtMostOne (p : α → Bool) (l : List α) : Prop := l.Pairwise fun a b => p a = true → p b = false

theorem atMostOne_index (unique : AtMostOne p l) {i j : Nat} (hi : i < l.length) (hj : j < l.length)
    (first : p l[i] = true) (second : p l[j] = true) : i = j := by
  rw [AtMostOne, List.pairwise_iff_getElem] at unique
  rcases lt_trichotomy i j with before | same | after
  · have apart := unique i j hi hj before first
    simp [second] at apart
  · exact same
  · have apart := unique j i hj hi after second
    simp [first] at apart

theorem AtMostOne.perm (unique : AtMostOne p l) (order : l'.Perm l) : AtMostOne p l' := by
  refine (order.pairwise_iff ?_).mpr unique
  intro a b apart hb
  by_contra ha
  have clash := apart (by simpa using ha)
  simp [hb] at clash

/-- The first match does not depend on the order. -/
theorem AtMostOne.find?_eq (unique : AtMostOne p l) (order : l'.Perm l) : l'.find? p = l.find? p := by
  cases found : l.find? p with
  | none =>
    rw [List.find?_eq_none] at found ⊢
    exact fun a member => found a (order.mem_iff.mp member)
  | some a =>
    have holds := List.find?_some found
    have member := order.mem_iff.mpr (List.mem_of_find?_eq_some found)
    have some_match : l'.find? p ≠ none := by
      rw [Ne, List.find?_eq_none]
      exact fun none => none a member holds
    obtain ⟨b, here⟩ := Option.ne_none_iff_exists'.mp some_match
    have holds' := List.find?_some here
    obtain ⟨i, hi, rfl⟩ := List.mem_iff_getElem.mp member
    obtain ⟨j, hj, rfl⟩ := List.mem_iff_getElem.mp (List.mem_of_find?_eq_some here)
    have same := atMostOne_index (unique.perm order) hi hj holds holds'
    subst same
    exact here

/-- The entry at the first index that matches. -/
theorem findIdx?_entry (d : α) : (l.findIdx? p).map (fun i => l.getD i d) = l.find? p := by
  induction l with
  | nil => rfl
  | cons a l ih =>
    rw [List.findIdx?_cons, List.find?_cons]
    cases p a with
    | true => rfl
    | false =>
      rw [← ih]
      simp [Option.map_map, Function.comp_def]

end Lookup

/-! ## Loads alike but for the section -/

section Alike
variable {α β : Type}

/-- The same value, and both without errors or both with some. -/
structure Load.Alike (x y : Load α) : Prop where
  value : x.value = y.value
  silent : x.errors = [] ↔ y.errors = []

theorem Load.Alike.refl (x : Load α) : x.Alike x := ⟨rfl, Iff.rfl⟩

theorem Load.Alike.bind {x y : Load α} {f g : α → Load β} (first : x.Alike y) (second : ∀ a, (f a).Alike (g a)) :
    (x >>= f).Alike (y >>= g) := by
  constructor
  · rw [Load.value_bind, Load.value_bind, first.value]
    exact (second _).value
  · rw [Load.errors_bind, Load.errors_bind, List.append_eq_nil_iff, List.append_eq_nil_iff, first.silent, first.value]
    exact and_congr_right' (second _).silent

theorem missing_alike (required : Bool) (sec sec' key : List Byte) :
    missing required sec' key = [] ↔ missing required sec key = [] := by
  cases required <;> simp [missing]

variable {t t' : Toml} {sec sec' key : List Byte} (same : t'.get sec' key = t.get sec key)
include same

theorem getStr_alike (required : Bool) (deflt : List Byte) (cap : Nat) :
    (getStr t' sec' key required deflt cap).Alike (getStr t sec key required deflt cap) := by
  unfold getStr
  rw [same]
  split
  · exact ⟨rfl, missing_alike required _ _ _⟩
  · exact .refl _
  · exact ⟨rfl, by simp⟩

theorem getChoice_alike (required : Bool) (deflt : List Byte) (choices : List (List Byte)) :
    (getChoice t' sec' key required deflt choices).Alike (getChoice t sec key required deflt choices) := by
  unfold getChoice
  rw [same]
  split
  · exact ⟨rfl, missing_alike required _ _ _⟩
  · split
    · exact .refl _
    · exact ⟨rfl, by simp⟩
  · exact ⟨rfl, by simp⟩

theorem getInt_alike (required : Bool) (deflt : Int) (mn mx : Option Int) :
    (getInt t' sec' key required deflt mn mx).Alike (getInt t sec key required deflt mn mx) := by
  unfold getInt
  rw [same]
  split
  · exact ⟨rfl, missing_alike required _ _ _⟩
  · exact ⟨rfl, by simp⟩
  · exact ⟨rfl, by simp⟩

theorem getBool_alike (required deflt : Bool) :
    (getBool t' sec' key required deflt).Alike (getBool t sec key required deflt) := by
  unfold getBool
  rw [same]
  split
  · exact ⟨rfl, missing_alike required _ _ _⟩
  · exact .refl _
  · exact ⟨rfl, by simp⟩

end Alike

theorem report_alike {errors errors' : List ConfigError} (same : errors = [] ↔ errors' = []) :
    (report errors).Alike (report errors') := ⟨rfl, same⟩

theorem loadRemotePort_alike {t t' : Toml} {sec sec' : List Byte} (role : CcRole)
    (same : t'.get sec' (ascii "cc_remote_port") = t.get sec (ascii "cc_remote_port")) :
    (loadRemotePort t' sec' role).Alike (loadRemotePort t sec role) := by
  unfold loadRemotePort
  split
  · exact getInt_alike same true 0 (some 1) (some 65535)
  · exact .refl _

/-- A link is loaded the same from another table with the same keys. -/
theorem loadLink_alike {t t' : Toml} {i j : Nat} (peers : List ObpPeerConfig)
    (same : ∀ key, t'.get (sectionName (ascii "link") j) key = t.get (sectionName (ascii "link") i) key) :
    (loadLink t' peers j).Alike (loadLink t peers i) := by
  unfold loadLink
  refine .bind (getStr_alike (same _) true [] 64) fun name => ?_
  refine .bind (getBool_alike (same _) false true) fun enabled => ?_
  refine .bind (getBool_alike (same _) false true) fun active => ?_
  refine .bind (getInt_alike (same _) true 0 (some 0) none) fun tgid => ?_
  refine .bind (getStr_alike (same _) true [] 64) fun system => ?_
  refine .bind (report_alike (by split <;> simp)) fun _ => ?_
  refine .bind (getChoice_alike (same _) true _ _) fun role => ?_
  refine .bind (getInt_alike (same _) true 0 (some 0) none) fun lid => ?_
  refine .bind (getStr_alike (same _) true [] 64) fun ip => ?_
  refine .bind (report_alike (by simp only [ipv4Errors_nil_iff])) fun _ => ?_
  refine .bind (loadRemotePort_alike _ (same _)) fun port => ?_
  refine .bind (getInt_alike (same _) true 0 (some 1) (some 65535)) fun voice => ?_
  exact .bind (getStr_alike (same _) _ [] 128) fun channel => .refl _

/-! ## The tables in another order -/

/-- The same file with its `[[link]]` tables in another order. -/
structure LinksReordered (t t' : Toml) : Prop where
  links : ∃ order : List Nat, order.Perm (List.range (t.arrayLen (ascii "link"))) ∧
    t'.arrayLen (ascii "link") = order.length ∧ ∀ j (inside : j < order.length), ∀ key,
      t'.get (sectionName (ascii "link") j) key = t.get (sectionName (ascii "link") order[j]) key
  peers : t'.arrayLen (ascii "openbridge") = t.arrayLen (ascii "openbridge")
  others : ∀ sec key, (∀ i, sec ≠ sectionName (ascii "link") i) → t'.get sec key = t.get sec key

theorem LinksReordered.refl (t : Toml) : LinksReordered t t := by
  refine ⟨⟨List.range (t.arrayLen (ascii "link")), .refl _, by simp, fun j inside key => ?_⟩, rfl, fun _ _ _ => rfl⟩
  rw [List.getElem_range]

section Reordered
variable {t t' : Toml} {cfg : Config}

/-- A section that starts differently is no table of links. -/
theorem ne_linkSection {sec : List Byte} (other : sec.take 4 ≠ ascii "link") (i : Nat) :
    sec ≠ sectionName (ascii "link") i := by
  rintro rfl
  exact other rfl

theorem LinksReordered.loadPeer (order : LinksReordered t t') (i : Nat) : loadPeer t' i = loadPeer t i := by
  have same : ∀ key, t'.get (sectionName (ascii "openbridge") i) key = t.get (sectionName (ascii "openbridge") i) key :=
    fun key => order.others _ key (ne_linkSection (by simp [sectionName, ascii]))
  simp only [Cc2obp.loadPeer, getStr, getBool, getInt, same]

theorem LinksReordered.loadOpenbridge (order : LinksReordered t t') : loadOpenbridge t' = loadOpenbridge t := by
  have peer : Cc2obp.loadPeer t' = Cc2obp.loadPeer t := funext order.loadPeer
  simp only [Cc2obp.loadOpenbridge, entryCount, order.peers, peer]

/-- The links are the links of the file, in the order of the tables. -/
theorem LinksReordered.link_perm (order : LinksReordered t t') (peers : List ObpPeerConfig)
    (few : t.arrayLen (ascii "link") ≤ cfgMaxLinks) :
    (loadLinks t' peers).value.Perm (loadLinks t peers).value := by
  obtain ⟨is, perm, count, keys⟩ := order.links
  have length : is.length = t.arrayLen (ascii "link") := by simpa using perm.length_eq
  have values : (loadLinks t' peers).value = is.map fun i => (loadLink t peers i).value := by
    rw [loadLinks_value]
    simp only [entryCount, count, length, min_eq_left few]
    apply List.ext_getElem
    · simp [length]
    · intro j hj hj'
      simp only [List.getElem_map, List.getElem_range]
      exact (loadLink_alike peers (keys j (by simpa using hj'))).value
  rw [values, loadLinks_value]
  simp only [entryCount, min_eq_left few]
  exact perm.map _

theorem sameName_comm (a b : List Byte) : sameName a b = sameName b a := by
  by_cases same : a = b
  · rw [same]
  · rw [sameName, sameName, beq_eq_false_iff_ne.mpr same, beq_eq_false_iff_ne.mpr (Ne.symm same), Bool.and_false,
      Bool.and_false]

theorem sameRoute_comm (a b : LinkConfig) (apart : sameRoute a b = false) : sameRoute b a = false := by
  simp only [sameRoute, Bool.and_eq_false_iff, beq_eq_false_iff_ne] at apart ⊢
  rcases apart with (unresolved | peers) | tgids
  · by_cases same : b.openbridgeIdx = a.openbridgeIdx
    · exact .inl (.inl (by rw [same, unresolved]))
    · exact .inl (.inr same)
  · exact .inl (.inr (Ne.symm peers))
  · exact .inr (Ne.symm tgids)

theorem sameInbound_comm (a b : LinkConfig) (apart : sameInbound a b = false) : sameInbound b a = false := by
  simp only [sameInbound, Bool.and_eq_false_iff, beq_eq_false_iff_ne] at apart ⊢
  rcases apart with ((first | second) | ips) | lids
  · exact .inl (.inl (.inr first))
  · exact .inl (.inl (.inl second))
  · exact .inl (.inr (Ne.symm ips))
  · exact .inr (Ne.symm lids)

/-- Nothing is reported of the links in another order either. -/
theorem LinksReordered.links_silent (order : LinksReordered t t') (peers : List ObpPeerConfig)
    (silent : (loadLinks t peers).errors = []) : (loadLinks t' peers).errors = [] := by
  have value := loadLinks_value (t := t) peers
  have value' := loadLinks_value (t := t') peers
  simp only [loadLinks, Load.errors_bind, Load.errors_pure, errors_report, List.append_eq_nil_iff,
    mapM_load, List.flatMap_eq_nil_iff, pairErrors_nil_iff] at silent ⊢
  obtain ⟨count, entries, names, routes, inbound, -⟩ := silent
  have few : t.arrayLen (ascii "link") ≤ cfgMaxLinks := by
    by_contra many
    simp [entryCount, not_le.mp many] at count
  have perm := order.link_perm peers few
  obtain ⟨is, indices, length, keys⟩ := order.links
  have sameCount : is.length = t.arrayLen (ascii "link") := by simpa using indices.length_eq
  rw [← value] at names routes inbound
  rw [← value']
  refine ⟨?_, ?_, ?_, ?_, ?_, trivial⟩
  · simp [entryCount, length, sameCount, few]
  · intro j inside
    have hj : j < is.length := by
      have below : j < min (t'.arrayLen (ascii "link")) cfgMaxLinks := by simpa [entryCount] using inside
      omega
    rw [(loadLink_alike peers (keys j hj)).silent]
    apply entries
    have member := indices.mem_iff.mp (List.getElem_mem hj)
    simpa [entryCount, min_eq_left few] using member
  · exact (perm.pairwise_iff fun apart => by rw [sameName_comm]; exact apart).mpr names
  · exact (perm.pairwise_iff fun apart => sameRoute_comm _ _ apart).mpr routes
  · exact (perm.pairwise_iff fun apart => sameInbound_comm _ _ apart).mpr inbound

/-- The file in another order loads as well, with its links in that order. -/
theorem LinksReordered.loads (order : LinksReordered t t') (loaded : configLoad t = .ok cfg) :
    ∃ cfg', configLoad t' = .ok cfg' ∧ cfg'.link.Perm cfg.link := by
  obtain ⟨silent, rfl⟩ := configLoad_eq_ok loaded
  have few : t.arrayLen (ascii "link") ≤ cfgMaxLinks := by
    have entries := (configLoad_loaded loaded).nLink
    have accepted := (configLoad_rules loaded).accepted.2.1
    rw [← entries]
    exact accepted
  have glob : ∀ key, t'.get (ascii "global") key = t.get (ascii "global") key :=
    fun key => order.others _ key (ne_linkSection (by decide))
  refine ⟨(loadConfig t').value, ?_, ?_⟩
  · have silent' : (loadConfig t').errors = [] := by
      simp only [loadConfig, Load.errors_bind, Load.errors_pure, List.append_eq_nil_iff, order.loadOpenbridge] at silent ⊢
      simp only [getStr, getChoice, getInt, glob] at silent ⊢
      obtain ⟨a, b, c, d, e, f, g, h, peers, links, -⟩ := silent
      exact ⟨a, b, c, d, e, f, g, h, peers, order.links_silent _ links, trivial⟩
    unfold configLoad
    rw [silent']
  · have link : ∀ t, (loadConfig t).value.link = (loadLinks t (Cc2obp.loadOpenbridge t).value).value := fun _ => rfl
    rw [link, link, order.loadOpenbridge]
    exact order.link_perm _ few

end Reordered

/-! ## After any reloads -/

/-- A configuration after reloads of some files, by what they load to. -/
def reloads (files : List Config) (cfg : Config) : Config := files.foldl (fun cfg fresh => configReloadToggles fresh cfg) cfg

theorem fixed_reloads (files : List Config) (cfg : Config) : (reloads files cfg).fixed = cfg.fixed := by
  induction files generalizing cfg with
  | nil => rfl
  | cons fresh files ih =>
    have rest := ih (configReloadToggles fresh cfg)
    rw [fixed_configReloadToggles] at rest
    exact rest

/-- Reloads keep a change of order. -/
theorem reloads_perm (files : List Config) {cfg cfg' : Config} (perm : cfg'.link.Perm cfg.link) :
    (reloads files cfg').link.Perm (reloads files cfg).link := by
  induction files generalizing cfg cfg' with
  | nil => exact perm
  | cons fresh files ih =>
    have once : (configReloadToggles fresh cfg').link.Perm (configReloadToggles fresh cfg).link := perm.map _
    exact ih once

/-- The match of `translator_obp_dmrd_received`. -/
def routesTo (peerIdx : Nat) (dstId : BitVec 32) (l : LinkConfig) : Bool :=
  l.openbridgeIdx == some peerIdx && u32 l.tgid == dstId

/-- The match of `handle_question_complete`. -/
def acceptsQuestion (srcIp : List Byte) (lid : Int) (l : LinkConfig) : Bool :=
  l.ccRole == .inbound && l.enabled && l.ccRemoteIp == srcIp && l.ccLid == lid

section Running
variable {cfg running : Config}

/-- What a loaded configuration has checked of its links holds of them after reloads. -/
theorem atMostOne_routesTo (rules : cfg.Rules) (same : running.fixed = cfg.fixed) (peer : Nat) (dst : BitVec 32) :
    AtMostOne (routesTo peer dst) running.link := by
  have fixedLinks : running.link.map LinkConfig.fixed = cfg.link.map LinkConfig.fixed := congrArg Config.link same
  obtain ⟨-, -, -, -, -, -, routes, -⟩ := rules.accepted
  have unique : AtMostOne (routesTo peer dst) cfg.link := by
    refine (List.Pairwise.and_mem.mp routes).imp ?_
    rintro a b ⟨ha, hb, hab⟩ first
    by_contra second
    simp only [routesTo, Bool.and_eq_true, beq_iff_eq, Bool.not_eq_false] at first second
    have tgids := u32_inj (rules.links a ha).tgid (rules.links b hb).tgid (first.2.trans second.2.symm)
    exact hab (by simp [first.1]) (first.1.trans second.1.symm) tgids
  -- the match looks at fields that no toggle is among
  have byFixed : ∀ l : List LinkConfig, AtMostOne (routesTo peer dst) (l.map LinkConfig.fixed) ↔
      AtMostOne (routesTo peer dst) l := fun l => List.pairwise_map
  rw [← byFixed, fixedLinks, byFixed]
  exact unique

theorem atMostOne_acceptsQuestion (rules : cfg.Rules) (same : running.fixed = cfg.fixed) (ip : List Byte) (lid : Int) :
    AtMostOne (acceptsQuestion ip lid) running.link := by
  have fixedLinks : running.link.map LinkConfig.fixed = cfg.link.map LinkConfig.fixed := congrArg Config.link same
  obtain ⟨-, -, -, -, -, -, -, inbound⟩ := rules.accepted
  -- the key alone, whatever the toggles are
  let key : LinkConfig → Bool := fun l => l.ccRole == .inbound && l.ccRemoteIp == ip && l.ccLid == lid
  have unique : AtMostOne key cfg.link := by
    refine inbound.imp ?_
    intro a b apart first
    by_contra second
    simp only [key, Bool.and_eq_true, beq_iff_eq, Bool.not_eq_false] at first second
    exact apart first.1.1 second.1.1 (first.1.2.trans second.1.2.symm) (first.2.trans second.2.symm)
  have byFixed : ∀ l : List LinkConfig, AtMostOne key (l.map LinkConfig.fixed) ↔ AtMostOne key l :=
    fun l => List.pairwise_map
  rw [← byFixed, ← fixedLinks, byFixed] at unique
  refine unique.imp ?_
  intro a b apart first
  by_contra second
  simp only [acceptsQuestion, Bool.and_eq_true, beq_iff_eq, Bool.not_eq_false] at first second
  have keyA : key a = true := by simp [key, first]
  have keyB : key b = true := by simp [key, second]
  simp [apart keyA] at keyB

theorem routeObp_entry (cfg : Config) (peer : Nat) (dst : BitVec 32) :
    (routeObp cfg peer dst).map cfg.linkAt = cfg.link.find? (routesTo peer dst) :=
  findIdx?_entry (p := routesTo peer dst) (l := cfg.link) {}

theorem matchInbound_entry (cfg : Config) (ip : List Byte) (lid : Int) :
    (matchInbound cfg ip lid).map cfg.linkAt = cfg.link.find? (acceptsQuestion ip lid) :=
  findIdx?_entry (p := acceptsQuestion ip lid) (l := cfg.link) {}

end Running

end Cc2obp
