import Cc2obp.Config.Entries

/-!
# What a reload of a file changes

A reload takes the toggles of the first entry of each name and nothing else, or
fails and takes nothing. Entries go by their names, and a name of blanks is an
empty one, which several entries may have: the file a configuration was loaded
from changes it exactly when such entries differ in a toggle.
-/
namespace Cc2obp

/-! ## First entries of a name -/

section Named
variable {α τ : Type} (name : α → List Byte) {l : List α}

/-- The first entry of a name. -/
def IsFirst (l : List α) (key : List Byte) (f : α) : Prop :=
  ∃ before after, l = before ++ f :: after ∧ name f = key ∧ ∀ g ∈ before, name g ≠ key

theorem find_named_iff (key : List Byte) (f : α) :
    (l.find? fun g => name g == key) = some f ↔ IsFirst name l key f := by
  rw [List.find?_eq_some_iff_append]
  constructor
  · rintro ⟨same, before, after, split, earlier⟩
    exact ⟨before, after, split, by simpa using same, fun g member => by simpa using earlier g member⟩
  · rintro ⟨before, after, split, same, earlier⟩
    exact ⟨by simpa using same, before, after, split, fun g member => by simpa using earlier g member⟩

theorem find_named_none (key : List Byte) :
    (l.find? fun g => name g == key) = none ↔ ∀ g ∈ l, name g ≠ key := by
  simp

/-- Among entries whose written names are distinct, a named entry is the first of its name. -/
theorem find_own (distinct : l.Pairwise fun a b => name a ≠ [] → name a ≠ name b) {o : α} (member : o ∈ l)
    (named : name o ≠ []) : (l.find? fun f => name f == name o) = some o := by
  obtain ⟨before, after, rfl⟩ := List.append_of_mem member
  rw [find_named_iff]
  refine ⟨before, after, rfl, rfl, fun g earlier same => ?_⟩
  have apart := (List.pairwise_append.mp distinct).2.2 g earlier o (by simp)
  exact apart (same ▸ named) same

/-- Entries that take the toggles of the first of their name stay as they are if and only if the
nameless ones agree. -/
theorem take_own_iff (distinct : l.Pairwise fun a b => name a ≠ [] → name a ≠ name b) (toggles : α → τ)
    (take : α → α → α) (takes : ∀ f o, take f o = o ↔ toggles f = toggles o) :
    (∀ o ∈ l, ∀ f, IsFirst name l (name o) f → take f o = o) ↔
      ∀ a ∈ l, ∀ b ∈ l, name a = [] → name b = [] → toggles a = toggles b := by
  constructor
  · intro kept a first b second nameless nameless'
    -- both agree with the first nameless entry
    have found : (l.find? fun f => name f == []) ≠ none := by
      rw [Ne, find_named_none]
      exact fun none => none a first nameless
    obtain ⟨f, here⟩ := Option.ne_none_iff_exists'.mp found
    have isFirst := (find_named_iff name [] f).mp here
    have agrees := (takes f a).mp (kept a first f (nameless ▸ isFirst))
    have agrees' := (takes f b).mp (kept b second f (nameless' ▸ isFirst))
    exact agrees.symm.trans agrees'
  · intro agree o member f isFirst
    by_cases nameless : name o = []
    · obtain ⟨before, after, split, same, -⟩ := isFirst
      have inside : f ∈ l := by simp [split]
      exact (takes f o).mpr (agree f inside o member (same.trans nameless) nameless)
    · have own := find_own name distinct member nameless
      rw [(find_named_iff name _ f).mpr isFirst] at own
      rw [Option.some.inj own]
      exact (takes o o).mpr rfl

end Named

/-! ## Atomic reloads -/

section Take
variable {fresh : List ObpPeerConfig} {freshLinks : List LinkConfig}

theorem ObpPeerConfig.reload_named {o f : ObpPeerConfig} (first : IsFirst ObpPeerConfig.name fresh o.name f) :
    o.reload fresh = { o with enabled := f.enabled } := by
  simp only [ObpPeerConfig.reload, (find_named_iff ObpPeerConfig.name o.name f).mpr first]

theorem ObpPeerConfig.reload_absent {o : ObpPeerConfig} (absent : ∀ f ∈ fresh, f.name ≠ o.name) :
    o.reload fresh = o := by
  simp only [ObpPeerConfig.reload, (find_named_none ObpPeerConfig.name o.name).mpr absent]

theorem LinkConfig.reload_named {l f : LinkConfig} (first : IsFirst LinkConfig.name freshLinks l.name f) :
    l.reload freshLinks = { l with enabled := f.enabled, crossConnectActive := f.crossConnectActive } := by
  simp only [LinkConfig.reload, (find_named_iff LinkConfig.name l.name f).mpr first]

theorem LinkConfig.reload_absent {l : LinkConfig} (absent : ∀ f ∈ freshLinks, f.name ≠ l.name) :
    l.reload freshLinks = l := by
  simp only [LinkConfig.reload, (find_named_none LinkConfig.name l.name).mpr absent]

theorem ObpPeerConfig.reload_name (o : ObpPeerConfig) : (o.reload fresh).name = o.name := by
  unfold ObpPeerConfig.reload
  split <;> rfl

theorem LinkConfig.reload_name (l : LinkConfig) : (l.reload freshLinks).name = l.name := by
  unfold LinkConfig.reload
  split <;> rfl

theorem ObpPeerConfig.reload_reload (o : ObpPeerConfig) : (o.reload fresh).reload fresh = o.reload fresh := by
  conv_lhs => rw [ObpPeerConfig.reload]
  rw [ObpPeerConfig.reload_name]
  unfold ObpPeerConfig.reload
  split <;> rfl

theorem LinkConfig.reload_reload (l : LinkConfig) : (l.reload freshLinks).reload freshLinks = l.reload freshLinks := by
  conv_lhs => rw [LinkConfig.reload]
  rw [LinkConfig.reload_name]
  unfold LinkConfig.reload
  split <;> rfl

end Take

/-- The same file twice does what it does once. -/
theorem configReloadToggles_twice (fresh cfg : Config) :
    configReloadToggles fresh (configReloadToggles fresh cfg) = configReloadToggles fresh cfg := by
  simp [configReloadToggles, Function.comp_def, ObpPeerConfig.reload_reload, LinkConfig.reload_reload]

/-- A configuration after a reload: all of it but the toggles, and these by the first entry of each name. -/
structure TogglesTaken (fresh cfg cfg' : Config) : Prop where
  fixed : cfg'.fixed = cfg.fixed
  peerNamed : ∀ (p : Nat) (o f : ObpPeerConfig), cfg.openbridge[p]? = some o → IsFirst ObpPeerConfig.name fresh.openbridge o.name f →
    cfg'.openbridge[p]? = some { o with enabled := f.enabled }
  peerAbsent : ∀ (p : Nat) (o : ObpPeerConfig), cfg.openbridge[p]? = some o → (∀ f ∈ fresh.openbridge, f.name ≠ o.name) →
    cfg'.openbridge[p]? = some o
  linkNamed : ∀ (i : Nat) (l f : LinkConfig), cfg.link[i]? = some l → IsFirst LinkConfig.name fresh.link l.name f →
    cfg'.link[i]? = some { l with enabled := f.enabled, crossConnectActive := f.crossConnectActive }
  linkAbsent : ∀ (i : Nat) (l : LinkConfig), cfg.link[i]? = some l → (∀ f ∈ fresh.link, f.name ≠ l.name) →
    cfg'.link[i]? = some l

theorem togglesTaken (fresh cfg : Config) : TogglesTaken fresh cfg (configReloadToggles fresh cfg) := by
  constructor
  case fixed => exact fixed_configReloadToggles fresh cfg
  case peerNamed =>
    intro p o f here first
    simp [configReloadToggles, here, ObpPeerConfig.reload_named first]
  case peerAbsent =>
    intro p o here absent
    simp [configReloadToggles, here, ObpPeerConfig.reload_absent absent]
  case linkNamed =>
    intro i l f here first
    simp [configReloadToggles, here, LinkConfig.reload_named first]
  case linkAbsent =>
    intro i l here absent
    simp [configReloadToggles, here, LinkConfig.reload_absent absent]

/-- A reload that fails changes nothing, one that succeeds changes toggles only, and doing it again does nothing. -/
theorem reload_atomic (path : List Byte) (file : Option (List Byte)) (cfg : Config) :
    let result := configReloadFile path file cfg
    (result.1 = -1 ∨ result.1 = 0) ∧ (result.1 = -1 → result.2 = cfg) ∧
      (result.1 = 0 → ∃ fresh, configLoadFile path file = .ok fresh ∧ TogglesTaken fresh cfg result.2) ∧
      configReloadFile path file result.2 = result := by
  unfold configReloadFile
  cases loaded : configLoadFile path file with
  | error error => simp
  | ok fresh =>
    refine ⟨.inr rfl, fun failed => ?_, fun _ => ⟨fresh, rfl, togglesTaken fresh cfg⟩, ?_⟩
    · simp at failed
    · simp only [configReloadToggles_twice]

/-! ## The same file again -/

/-- The i-th table of an array has the toggle on, as it is unless the file says otherwise. -/
def Toml.toggle (t : Toml) (array : List Byte) (i : Nat) (key : List Byte) : Bool :=
  (getBool t (sectionName array i) key false true).value

/-- Tables with nothing but blanks for a name agree in their toggles. -/
structure Toml.BlanksAgree (t : Toml) : Prop where
  peers : ∀ p q, p < q → q < t.arrayLen (ascii "openbridge") → t.Blank (ascii "openbridge") p (ascii "name") →
    t.Blank (ascii "openbridge") q (ascii "name") →
    t.toggle (ascii "openbridge") p (ascii "enabled") = t.toggle (ascii "openbridge") q (ascii "enabled")
  links : ∀ i j, i < j → j < t.arrayLen (ascii "link") → t.Blank (ascii "link") i (ascii "name") →
    t.Blank (ascii "link") j (ascii "name") →
    t.toggle (ascii "link") i (ascii "enabled") = t.toggle (ascii "link") j (ascii "enabled") ∧
      t.toggle (ascii "link") i (ascii "cross_connect_active") =
        t.toggle (ascii "link") j (ascii "cross_connect_active")

/-- What holds of any two nameless entries is what holds of them in order. -/
theorem nameless_agree_iff {α τ : Type} (l : List α) (nameless : α → Prop) (toggles : α → τ) :
    (∀ a ∈ l, ∀ b ∈ l, nameless a → nameless b → toggles a = toggles b) ↔
      ∀ i j (inside : i < l.length) (inside' : j < l.length), i < j → nameless l[i] → nameless l[j] →
        toggles l[i] = toggles l[j] := by
  constructor
  · intro agree i j inside inside' before first second
    exact agree _ (List.getElem_mem inside) _ (List.getElem_mem inside') first second
  · intro agree a member b member' first second
    obtain ⟨i, inside, rfl⟩ := List.mem_iff_getElem.mp member
    obtain ⟨j, inside', rfl⟩ := List.mem_iff_getElem.mp member'
    rcases lt_trichotomy i j with before | rfl | after
    · exact agree i j inside inside' before first second
    · rfl
    · exact (agree j i inside' inside after second first).symm

/-- The reload of a list by itself, entry by entry. -/
theorem map_eq_self_iff {α : Type} (f : α → α) (l : List α) : l.map f = l ↔ ∀ o ∈ l, f o = o := by
  constructor
  · intro same o member
    have here : l.map f = l.map id := by rw [same, List.map_id]
    exact List.map_inj_left.mp here o member
  · intro kept
    rw [List.map_congr_left kept, List.map_id']

section Own
variable {cfg : Config} {t : Toml}

theorem peers_reload_own_iff (accepted : cfg.Accepted) :
    cfg.openbridge.map (ObpPeerConfig.reload cfg.openbridge) = cfg.openbridge ↔
      ∀ a ∈ cfg.openbridge, ∀ b ∈ cfg.openbridge, a.name = [] → b.name = [] → a.enabled = b.enabled := by
  obtain ⟨-, -, names, -⟩ := accepted
  rw [map_eq_self_iff, ← take_own_iff ObpPeerConfig.name names ObpPeerConfig.enabled
    (fun f o => { o with enabled := f.enabled }) (fun f o => by cases o; simp)]
  constructor
  · intro kept o member f first
    rw [← ObpPeerConfig.reload_named first]
    exact kept o member
  · intro kept o member
    obtain ⟨f, found⟩ := Option.ne_none_iff_exists'.mp (fun none =>
      (find_named_none ObpPeerConfig.name o.name).mp none o member rfl)
    have first := (find_named_iff ObpPeerConfig.name o.name f).mp found
    rw [ObpPeerConfig.reload_named first]
    exact kept o member f first

theorem links_reload_own_iff (accepted : cfg.Accepted) :
    cfg.link.map (LinkConfig.reload cfg.link) = cfg.link ↔
      ∀ a ∈ cfg.link, ∀ b ∈ cfg.link, a.name = [] → b.name = [] →
        (a.enabled, a.crossConnectActive) = (b.enabled, b.crossConnectActive) := by
  obtain ⟨-, -, -, -, -, names, -⟩ := accepted
  rw [map_eq_self_iff, ← take_own_iff LinkConfig.name names (fun l => (l.enabled, l.crossConnectActive))
    (fun f l => { l with enabled := f.enabled, crossConnectActive := f.crossConnectActive })
    (fun f l => by cases l; simp)]
  constructor
  · intro kept l member f first
    rw [← LinkConfig.reload_named first]
    exact kept l member
  · intro kept l member
    obtain ⟨f, found⟩ := Option.ne_none_iff_exists'.mp (fun none =>
      (find_named_none LinkConfig.name l.name).mp none l member rfl)
    have first := (find_named_iff LinkConfig.name l.name f).mp found
    rw [LinkConfig.reload_named first]
    exact kept l member f first

theorem reload_own_iff (file : configLoad t = .ok cfg) : configReloadToggles cfg cfg = cfg ↔ t.BlanksAgree := by
  have accepted := (configLoad_rules file).accepted
  have blanks := configLoad_blanks file
  have loaded := configLoad_loaded file
  have parts : configReloadToggles cfg cfg = cfg ↔
      cfg.openbridge.map (ObpPeerConfig.reload cfg.openbridge) = cfg.openbridge ∧
        cfg.link.map (LinkConfig.reload cfg.link) = cfg.link := by
    constructor
    · intro same
      exact ⟨congrArg Config.openbridge same, congrArg Config.link same⟩
    · rintro ⟨peers, links⟩
      rw [configReloadToggles, peers, links]
  have peerToggle : ∀ p (inside : p < cfg.openbridge.length),
      cfg.openbridge[p].enabled = t.toggle (ascii "openbridge") p (ascii "enabled") := by
    intro p inside
    rw [loaded.peer p inside]
    rfl
  have linkToggles : ∀ i (inside : i < cfg.link.length),
      (cfg.link[i].enabled, cfg.link[i].crossConnectActive) =
        (t.toggle (ascii "link") i (ascii "enabled"), t.toggle (ascii "link") i (ascii "cross_connect_active")) := by
    intro i inside
    rw [loaded.link i inside]
    rfl
  rw [parts, peers_reload_own_iff accepted, links_reload_own_iff accepted,
    nameless_agree_iff cfg.openbridge (fun o => o.name = []) ObpPeerConfig.enabled,
    nameless_agree_iff cfg.link (fun l => l.name = []) fun l => (l.enabled, l.crossConnectActive)]
  constructor
  · rintro ⟨peers, links⟩
    constructor
    case peers =>
      intro p q before inside first second
      rw [← loaded.nOpenbridge] at inside
      rw [← peerToggle p (by omega), ← peerToggle q inside]
      exact peers p q (by omega) inside before ((blanks.peer p (by omega)).name.mpr first)
        ((blanks.peer q inside).name.mpr second)
    case links =>
      intro i j before inside first second
      rw [← loaded.nLink] at inside
      have agree := links i j (by omega) inside before ((blanks.link i (by omega)).name.mpr first)
        ((blanks.link j inside).name.mpr second)
      rw [linkToggles i (by omega), linkToggles j inside] at agree
      exact Prod.mk.inj agree
  · intro agree
    constructor
    · intro p q inside inside' before first second
      rw [peerToggle p inside, peerToggle q inside']
      exact agree.peers p q before (loaded.nOpenbridge ▸ inside') ((blanks.peer p inside).name.mp first)
        ((blanks.peer q inside').name.mp second)
    · intro i j inside inside' before first second
      rw [linkToggles i inside, linkToggles j inside']
      obtain ⟨enabled, active⟩ := agree.links i j before (loaded.nLink ▸ inside') ((blanks.link i inside).name.mp first)
        ((blanks.link j inside').name.mp second)
      rw [enabled, active]

end Own

/-- Two peers with blanks for a name; the second has the toggle as given. -/
def blankPeers (enabled : String) : List Byte :=
  ascii "[[openbridge]]\nname = \" \"\npeer_ip = \"10.0.0.1\"\npeer_port = 62031\nbind_port = 62031\n" ++
    ascii "network_id = 1\npassphrase = \"a\"\n[[openbridge]]\nname = \"\"\nenabled = " ++ ascii enabled ++
    ascii "\npeer_ip = \"10.0.0.2\"\npeer_port = 62031\nbind_port = 62032\nnetwork_id = 2\npassphrase = \"b\"\n"

def blankPeersConfig (enabled : Bool) : Config where
  ccSiteName := ascii "cc2obp"
  ccMacAddress := ascii "000000000000"
  ccCodeRevision := ascii "10252"
  ccVersion := ascii "cc2obp"
  ccOsVersion := ascii "Linux"
  ccKeepaliveInterval := 10
  ccLinkTimeout := 35
  openbridge :=
    [{ enabled := true, peerIp := ascii "10.0.0.1", peerPort := 62031, bindPort := 62031, networkId := 1, passphrase := ascii "a" },
      { enabled, peerIp := ascii "10.0.0.2", peerPort := 62031, bindPort := 62032, networkId := 2, passphrase := ascii "b" }]

end Cc2obp
