import Cc2obp.Config.Rules
import Mathlib.Data.List.TakeWhile

/-!
# The documented rules

What the configuration guide promises of a file that is not refused. The checks
are skipped for empty values, and a value of blanks is an empty one, so a loaded
file keeps the promise exactly when it has no blanks where they matter.
-/
namespace Cc2obp

open CString

structure Config.Documented (cfg : Config) : Prop where
  systems : ∀ l ∈ cfg.link, ∃ p, l.openbridgeIdx = some p ∧ p < cfg.nOpenbridge ∧
    (cfg.openbridgeAt p).name = l.openbridgeSystem
  remoteIps : ∀ l ∈ cfg.link, isValidIpv4 l.ccRemoteIp = true
  peerIps : ∀ o ∈ cfg.openbridge, isValidIpv4 o.peerIp = true
  linkNames : cfg.link.Pairwise fun a b => a.name ≠ b.name
  peerNames : cfg.openbridge.Pairwise fun a b => a.name ≠ b.name
  bindPorts : cfg.openbridge.Pairwise fun a b => a.enabled → b.enabled → a.bindPort ≠ b.bindPort

/-- The file has the key in the i-th table of an array, with nothing but blanks in its string. -/
def Toml.Blank (t : Toml) (array : List Byte) (i : Nat) (key : List Byte) : Prop :=
  ∃ s, t.get (sectionName array i) key = some (.string s) ∧ s.all isSpace = true

/-- No blanks where an entry is checked or looked up by its text; a blank system may stand for a peer
whose name is blank. -/
structure Toml.FilledIn (t : Toml) : Prop where
  systems : ∀ i < t.arrayLen (ascii "link"), t.Blank (ascii "link") i (ascii "openbridge_system") →
    ∃ p < t.arrayLen (ascii "openbridge"), t.Blank (ascii "openbridge") p (ascii "name")
  remoteIps : ∀ i < t.arrayLen (ascii "link"), ¬t.Blank (ascii "link") i (ascii "cc_remote_ip")
  peerIps : ∀ p < t.arrayLen (ascii "openbridge"), ¬t.Blank (ascii "openbridge") p (ascii "peer_ip")
  linkNames : ∀ i j, i < j → j < t.arrayLen (ascii "link") →
    t.Blank (ascii "link") i (ascii "name") → ¬t.Blank (ascii "link") j (ascii "name")
  peerNames : ∀ p q, p < q → q < t.arrayLen (ascii "openbridge") →
    t.Blank (ascii "openbridge") p (ascii "name") → ¬t.Blank (ascii "openbridge") q (ascii "name")

/-! ## Blank strings -/

theorem dropWhile_eq_nil_iff_all {p : Byte → Bool} {s : List Byte} : s.dropWhile p = [] ↔ s.all p = true := by
  rw [List.dropWhile_eq_nil_iff, List.all_eq_true]

/-- Only blanks are trimmed to nothing. -/
theorem trimcpy_eq_nil_iff (cap : Nat) (room : 2 ≤ cap) (s : List Byte) :
    trimcpy cap s = [] ↔ s.all isSpace = true := by
  have front : (s.dropWhile isSpace).reverse.dropWhile isSpace = [] ↔ s.dropWhile isSpace = [] := by
    constructor
    · intro empty
      -- a front without a leading blank that is all blanks is empty
      rw [dropWhile_eq_nil_iff_all, List.all_reverse] at empty
      cases rest : s.dropWhile isSpace with
      | nil => rfl
      | cons c cs =>
        have lead : isSpace c = false := by
          have head := List.head_dropWhile_not isSpace (show s.dropWhile isSpace ≠ [] by simp [rest])
          simpa [rest] using head
        simp [rest, lead] at empty
    · intro empty
      simp [empty]
  rw [trimcpy, List.take_eq_nil_iff]
  simp only [show ¬cap - 1 = 0 by omega, false_or, List.reverse_eq_nil_iff]
  rw [front, dropWhile_eq_nil_iff_all]

variable {t : Toml}

/-- A required string that is read without an error is empty if the file has blanks for it. -/
theorem getStr_eq_nil_iff {array key : List Byte} {i cap : Nat} (room : 2 ≤ cap)
    (silent : (getStr t (sectionName array i) key true [] cap).errors = []) :
    (getStr t (sectionName array i) key true [] cap).value = [] ↔ t.Blank array i key := by
  unfold getStr at silent ⊢
  unfold Toml.Blank
  split at silent
  · simp [missing] at silent
  next s here => simp [here, trimcpy_eq_nil_iff cap room]
  · simp at silent

/-! ## The entries of a loaded file -/

/-- Which fields of a peer are empty. -/
structure PeerBlanks (t : Toml) (i : Nat) (o : ObpPeerConfig) : Prop where
  name : o.name = [] ↔ t.Blank (ascii "openbridge") i (ascii "name")
  peerIp : o.peerIp = [] ↔ t.Blank (ascii "openbridge") i (ascii "peer_ip")

structure LinkBlanks (t : Toml) (i : Nat) (l : LinkConfig) : Prop where
  name : l.name = [] ↔ t.Blank (ascii "link") i (ascii "name")
  openbridgeSystem : l.openbridgeSystem = [] ↔ t.Blank (ascii "link") i (ascii "openbridge_system")
  ccRemoteIp : l.ccRemoteIp = [] ↔ t.Blank (ascii "link") i (ascii "cc_remote_ip")

theorem loadPeer_blanks {i : Nat} (silent : (loadPeer t i).errors = []) : PeerBlanks t i (loadPeer t i).value := by
  simp only [loadPeer, Load.errors_bind, Load.errors_pure, errors_report, List.append_eq_nil_iff] at silent
  obtain ⟨name, -, peerIp, -⟩ := silent
  constructor
  case name => exact getStr_eq_nil_iff (by decide) name
  case peerIp => exact getStr_eq_nil_iff (by decide) peerIp

theorem loadLink_blanks {peers : List ObpPeerConfig} {i : Nat} (silent : (loadLink t peers i).errors = []) :
    LinkBlanks t i (loadLink t peers i).value := by
  simp only [loadLink, Load.errors_bind, Load.errors_pure, errors_report, List.append_eq_nil_iff] at silent
  obtain ⟨name, -, -, -, system, -, -, -, ccRemoteIp, -⟩ := silent
  constructor
  case name => exact getStr_eq_nil_iff (by decide) name
  case openbridgeSystem => exact getStr_eq_nil_iff (by decide) system
  case ccRemoteIp => exact getStr_eq_nil_iff (by decide) ccRemoteIp

theorem entryCount_value {array : List Byte} {max : Nat} (silent : (entryCount t array max).errors = []) :
    (entryCount t array max).value = t.arrayLen array := by
  unfold entryCount at silent ⊢
  split at silent
  · cases silent
  · simp only
    omega

/-- The entries of the file in order, each with the blanks its table has. -/
structure Blanks (t : Toml) (cfg : Config) : Prop where
  nOpenbridge : cfg.openbridge.length = t.arrayLen (ascii "openbridge")
  nLink : cfg.link.length = t.arrayLen (ascii "link")
  peer : ∀ p (inside : p < cfg.openbridge.length), PeerBlanks t p cfg.openbridge[p]
  link : ∀ i (inside : i < cfg.link.length), LinkBlanks t i cfg.link[i]

theorem configLoad_blanks {cfg : Config} (loaded : configLoad t = .ok cfg) : Blanks t cfg := by
  obtain ⟨silent, rfl⟩ := configLoad_eq_ok loaded
  simp only [loadConfig, Load.errors_bind, Load.errors_pure, List.append_eq_nil_iff] at silent
  obtain ⟨-, -, -, -, -, -, -, -, openbridge, links, -⟩ := silent
  simp only [loadOpenbridge, Load.errors_bind, List.append_eq_nil_iff, mapM_load, List.flatMap_eq_nil_iff] at openbridge
  simp only [loadLinks, Load.errors_bind, List.append_eq_nil_iff, mapM_load, List.flatMap_eq_nil_iff] at links
  obtain ⟨peerCount, peerEntries, -⟩ := openbridge
  obtain ⟨linkCount, linkEntries, -⟩ := links
  have peers : (loadConfig t).value.openbridge = (loadOpenbridge t).value := rfl
  have entries : (loadConfig t).value.link = (loadLinks t (loadOpenbridge t).value).value := rfl
  constructor
  case nOpenbridge => simp [peers, loadOpenbridge_value, entryCount_value peerCount]
  case nLink => simp [entries, loadLinks_value, entryCount_value linkCount]
  case peer =>
    intro p inside
    simp only [peers, loadOpenbridge_value, List.getElem_map, List.getElem_range]
    apply loadPeer_blanks
    exact peerEntries p (by simpa [peers, loadOpenbridge_value] using inside)
  case link =>
    intro i inside
    simp only [entries, loadLinks_value, List.getElem_map, List.getElem_range]
    apply loadLink_blanks
    exact linkEntries i (by simpa [entries, loadLinks_value] using inside)

/-! ## The promise, rule by rule -/

/-- A checked address is one unless it is empty. -/
theorem isValidIpv4_iff {ip : List Byte} (checked : ip = [] ∨ isValidIpv4 ip = true) :
    isValidIpv4 ip = true ↔ ip ≠ [] := by
  constructor
  · rintro valid rfl
    revert valid
    decide
  · intro filled
    exact checked.resolve_left filled

theorem findOpenbridge_named {peers : List ObpPeerConfig} {name : List Byte} {p : Nat}
    (found : findOpenbridge peers name = some p) : ∃ inside : p < peers.length, peers[p].name = name := by
  obtain ⟨inside, same, -⟩ := List.findIdx?_eq_some_iff_getElem.mp found
  exact ⟨inside, by simpa using same⟩

/-- A link has its peer unless its system is empty and every peer has a name. -/
theorem resolved_iff {cfg : Config} {l : LinkConfig}
    (checked : l.openbridgeIdx = findOpenbridge cfg.openbridge l.openbridgeSystem ∧
      (l.openbridgeSystem ≠ [] → l.openbridgeIdx ≠ none)) :
    (∃ p, l.openbridgeIdx = some p ∧ p < cfg.nOpenbridge ∧ (cfg.openbridgeAt p).name = l.openbridgeSystem) ↔
      (l.openbridgeSystem = [] → ∃ p, ∃ inside : p < cfg.openbridge.length, cfg.openbridge[p].name = []) := by
  obtain ⟨looked, named⟩ := checked
  constructor
  · rintro ⟨p, found, inside, same⟩ empty
    have here : p < cfg.openbridge.length := inside
    exact ⟨p, here, by simpa [Config.openbridgeAt, here, empty] using same⟩
  · intro standIn
    have some_peer : l.openbridgeIdx ≠ none := by
      by_cases empty : l.openbridgeSystem = []
      · obtain ⟨p, inside, blank⟩ := standIn empty
        rw [looked, empty, findOpenbridge, Ne, List.findIdx?_eq_none_iff]
        exact fun all => absurd (all _ (List.getElem_mem inside)) (by simp [blank])
      · exact named empty
    obtain ⟨p, found⟩ := Option.ne_none_iff_exists'.mp some_peer
    obtain ⟨inside, same⟩ := findOpenbridge_named (looked.symm.trans found)
    exact ⟨p, found, inside, by simpa [Config.openbridgeAt, inside] using same⟩

/-- Names of which the written ones are checked are distinct unless two are empty. -/
theorem names_iff {α : Type} {l : List α} {name : α → List Byte}
    (checked : l.Pairwise fun a b => name a ≠ [] → name a ≠ name b) :
    (l.Pairwise fun a b => name a ≠ name b) ↔
      ∀ i j (before : i < j) (inside : j < l.length), name l[i] = [] → name l[j] ≠ [] := by
  rw [List.pairwise_iff_getElem] at checked ⊢
  constructor
  · intro distinct i j before inside first second
    exact distinct i j (by omega) inside before (first.trans second.symm)
  · intro apart i j hi hj before same
    by_cases empty : name l[i] = []
    · exact apart i j before hj empty (same.symm.trans empty)
    · exact checked i j hi hj before empty same

/-- A loaded file keeps what the guide promises if and only if it has no blanks where they matter. -/
theorem documented_iff_filled_in (t : Toml) (cfg : Config) (loaded : configLoad t = .ok cfg) :
    cfg.Documented ↔ t.FilledIn := by
  have rules := configLoad_rules loaded
  have blanks := configLoad_blanks loaded
  obtain ⟨-, -, peerNames, bindPorts, resolved, linkNames, -⟩ := rules.accepted
  -- each rule fails on blanks only, and a blank field is a blank in the file
  have systems : (∀ l ∈ cfg.link, ∃ p, l.openbridgeIdx = some p ∧ p < cfg.nOpenbridge ∧
      (cfg.openbridgeAt p).name = l.openbridgeSystem) ↔ _ := forall₂_congr fun l member => resolved_iff (resolved l member)
  have remoteIps := forall₂_congr fun l member => isValidIpv4_iff (rules.links l member).ccRemoteIp
  have peerIps := forall₂_congr fun o member => isValidIpv4_iff (rules.peers o member).peerIp
  constructor
  · intro documented
    constructor
    case systems =>
      intro i inside blank
      rw [← blanks.nLink] at inside
      have empty := (blanks.link i inside).openbridgeSystem.mpr blank
      obtain ⟨p, here, unnamed⟩ := systems.mp documented.systems _ (List.getElem_mem inside) empty
      exact ⟨p, blanks.nOpenbridge ▸ here, (blanks.peer p here).name.mp unnamed⟩
    case remoteIps =>
      intro i inside blank
      rw [← blanks.nLink] at inside
      exact remoteIps.mp documented.remoteIps _ (List.getElem_mem inside) ((blanks.link i inside).ccRemoteIp.mpr blank)
    case peerIps =>
      intro p inside blank
      rw [← blanks.nOpenbridge] at inside
      exact peerIps.mp documented.peerIps _ (List.getElem_mem inside) ((blanks.peer p inside).peerIp.mpr blank)
    case linkNames =>
      intro i j before inside first second
      rw [← blanks.nLink] at inside
      have apart := (names_iff linkNames).mp documented.linkNames i j before inside
      exact apart ((blanks.link i (by omega)).name.mpr first) ((blanks.link j inside).name.mpr second)
    case peerNames =>
      intro p q before inside first second
      rw [← blanks.nOpenbridge] at inside
      have apart := (names_iff peerNames).mp documented.peerNames p q before inside
      exact apart ((blanks.peer p (by omega)).name.mpr first) ((blanks.peer q inside).name.mpr second)
  · intro filled
    constructor
    case systems =>
      apply systems.mpr
      intro l member empty
      obtain ⟨i, inside, rfl⟩ := List.mem_iff_getElem.mp member
      obtain ⟨p, here, unnamed⟩ :=
        filled.systems i (blanks.nLink ▸ inside) ((blanks.link i inside).openbridgeSystem.mp empty)
      rw [← blanks.nOpenbridge] at here
      exact ⟨p, here, (blanks.peer p here).name.mpr unnamed⟩
    case remoteIps =>
      apply remoteIps.mpr
      intro l member empty
      obtain ⟨i, inside, rfl⟩ := List.mem_iff_getElem.mp member
      exact filled.remoteIps i (blanks.nLink ▸ inside) ((blanks.link i inside).ccRemoteIp.mp empty)
    case peerIps =>
      apply peerIps.mpr
      intro o member empty
      obtain ⟨p, inside, rfl⟩ := List.mem_iff_getElem.mp member
      exact filled.peerIps p (blanks.nOpenbridge ▸ inside) ((blanks.peer p inside).peerIp.mp empty)
    case linkNames =>
      apply (names_iff linkNames).mpr
      intro i j before inside first second
      exact filled.linkNames i j before (blanks.nLink ▸ inside) ((blanks.link i (by omega)).name.mp first)
        ((blanks.link j inside).name.mp second)
    case peerNames =>
      apply (names_iff peerNames).mpr
      intro p q before inside first second
      exact filled.peerNames p q before (blanks.nOpenbridge ▸ inside) ((blanks.peer p (by omega)).name.mp first)
        ((blanks.peer q inside).name.mp second)
    -- the load checks this one in full
    case bindPorts => exact bindPorts

/-- A file with one peer, named hub, and one link to a system. -/
def systemFile (system : List Byte) : Toml where
  entries := peer.map (fun e => ⟨ascii "openbridge#0", e.1, e.2⟩) ++ link.map (fun e => ⟨ascii "link#0", e.1, e.2⟩)
  atables := [(ascii "openbridge", 1), (ascii "link", 1)]
where
  peer : List (List Byte × TomlValue) :=
    [(ascii "name", .string (ascii "hub")), (ascii "peer_ip", .string (ascii "10.0.0.1")),
      (ascii "peer_port", .int 62032), (ascii "bind_port", .int 62031), (ascii "network_id", .int 7),
      (ascii "passphrase", .string (ascii "secret"))]
  link : List (List Byte × TomlValue) :=
    [(ascii "name", .string (ascii "one")), (ascii "tgid", .int 9), (ascii "openbridge_system", .string system),
      (ascii "cc_role", .string (ascii "inbound")), (ascii "cc_lid", .int 1),
      (ascii "cc_remote_ip", .string (ascii "10.0.0.2")), (ascii "cc_remote_voice_port", .int 42422)]

theorem documented_iff_filled_in_hub :
    (loadConfig (systemFile (ascii "hub"))).value.Documented ↔ (systemFile (ascii "hub")).FilledIn :=
  documented_iff_filled_in (systemFile (ascii "hub")) _ (by decide +kernel)

/-- A link with an empty system loads, and has no peer. -/
theorem empty_system_loads : ¬∀ (t : Toml) (cfg : Config), configLoad t = .ok cfg → cfg.Documented := by
  intro documented
  have loads : configLoad (systemFile []) = .ok (loadConfig (systemFile [])).value := by decide +kernel
  have unresolved : ∃ l ∈ (loadConfig (systemFile [])).value.link, l.openbridgeIdx = none := by decide +kernel
  obtain ⟨l, member, absent⟩ := unresolved
  obtain ⟨p, found, -⟩ := (documented _ _ loads).systems l member
  rw [absent] at found
  cases found

end Cc2obp
