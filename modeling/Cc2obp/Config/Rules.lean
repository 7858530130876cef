import Cc2obp.Config.Load

/-!
# The rules of a loaded configuration

What a successful load has checked, of each entry and across entries.
-/
namespace Cc2obp

def PortRange (port : Int) : Prop := 1 ≤ port ∧ port ≤ 65535

/-- Values of a C `int`. -/
def InCInt (x : Int) : Prop := -(2 ^ 31) ≤ x ∧ x < 2 ^ 31

structure PeerRules (o : ObpPeerConfig) : Prop where
  peerIp : o.peerIp = [] ∨ isValidIpv4 o.peerIp = true
  peerPort : PortRange o.peerPort
  bindPort : PortRange o.bindPort

structure LinkRules (l : LinkConfig) : Prop where
  tgid : InCInt l.tgid
  ccLid : InCInt l.ccLid
  ccRemoteIp : l.ccRemoteIp = [] ∨ isValidIpv4 l.ccRemoteIp = true
  ccRemotePort : if l.ccRole = .outbound then PortRange l.ccRemotePort else l.ccRemotePort = -1
  ccRemoteVoicePort : PortRange l.ccRemoteVoicePort

structure Config.Rules (cfg : Config) : Prop where
  accepted : cfg.Accepted
  peers : ∀ o ∈ cfg.openbridge, PeerRules o
  links : ∀ l ∈ cfg.link, LinkRules l
  interval : 1 ≤ cfg.ccKeepaliveInterval ∧ cfg.ccKeepaliveInterval ≤ 300
  timeout : 1 ≤ cfg.ccLinkTimeout ∧ cfg.ccLinkTimeout ≤ 3600

/-! ## What no error means -/

theorem pairErrors_nil_iff {α : Type} (bad : α → α → Bool) (err : Nat → Nat → α → α → ConfigError)
    (l : List α) : pairErrors bad err l = [] ↔ l.Pairwise fun a b => bad a b = false := by
  rw [List.pairwise_iff_getElem, pairErrors, List.flatMap_eq_nil_iff]
  constructor
  · intro none i j hi hj before
    have row := none (l[i], i) (by simp [List.mem_zipIdx_iff_getElem?, hi])
    rw [List.filterMap_eq_nil_iff] at row
    have inRow : (l[j], j) ∈ l.zipIdx.drop (i + 1) := by
      rw [List.mem_drop_iff_getElem]
      have offset : i + 1 + (j - (i + 1)) = j := by omega
      exact ⟨j - (i + 1), by simp; omega, by simp [offset]⟩
    simpa using row _ inRow
  · rintro pairwise ⟨a, i⟩ first
    rw [List.filterMap_eq_nil_iff]
    rintro ⟨b, j⟩ second
    rw [List.mem_zipIdx_iff_getElem?] at first
    simp only at first second ⊢
    obtain ⟨hi, rfl⟩ := List.getElem?_eq_some_iff.mp first
    obtain ⟨k, inside, here⟩ := List.mem_drop_iff_getElem.mp second
    simp only [List.getElem_zipIdx, Prod.mk.injEq] at here
    obtain ⟨rfl, rfl⟩ := here
    have fits : i + 1 + k < l.length := by simpa [Nat.add_comm] using inside
    simp [pairwise i (i + 1 + k) hi fits (by omega)]

theorem ipv4Errors_nil_iff (sec key ip : List Byte) :
    ipv4Errors sec key ip = [] ↔ ip = [] ∨ isValidIpv4 ip = true := by
  unfold ipv4Errors
  split
  next bad => simpa [bad.1] using bad.2
  next fine =>
    simp only [true_iff]
    by_cases empty : ip = []
    · exact .inl empty
    · exact .inr (by simpa [empty] using fine)

/-- An integer that is reported nowhere is within its bounds. -/
theorem getInt_bounds {t : Toml} {sec key : List Byte} {required : Bool} {deflt lo hi : Int}
    (silent : (getInt t sec key required deflt (some lo) (some hi)).errors = [])
    (fallback : required = true ∨ lo ≤ deflt ∧ deflt ≤ hi) :
    lo ≤ (getInt t sec key required deflt (some lo) (some hi)).value ∧
      (getInt t sec key required deflt (some lo) (some hi)).value ≤ hi := by
  unfold getInt at silent ⊢
  split at silent
  · rcases fallback with here | within
    · simp [missing, here] at silent
    · exact within
  next i _ =>
    simp only [List.append_eq_nil_iff, List.map_eq_nil_iff, Option.toList_some] at silent
    obtain ⟨low, high⟩ := silent
    constructor
    · by_contra below
      simp [not_le.mp below] at low
    · by_contra above
      simp [not_le.mp above] at high
  · simp at silent

theorem toCInt_of_range {x : Int} (low : -(2 ^ 31) ≤ x) (high : x < 2 ^ 31) : toCInt x = x := by
  unfold toCInt
  rw [BitVec.toInt_ofInt]
  exact Int.bmod_eq_of_le (by omega) (by omega)

theorem inCInt_toCInt (x : Int) : InCInt (toCInt x) := by
  have low := BitVec.le_toInt (BitVec.ofInt 32 x)
  have high := BitVec.toInt_lt (x := BitVec.ofInt 32 x)
  exact ⟨by simpa [toCInt] using low, by simpa [toCInt] using high⟩

/-- The 32 bits of an `int` determine it. -/
theorem u32_inj {x y : Int} (hx : InCInt x) (hy : InCInt y) (same : u32 x = u32 y) : x = y := by
  have ints := congrArg BitVec.toInt same
  have back : ∀ z : Int, InCInt z → (u32 z).toInt = z := fun z hz => toCInt_of_range hz.1 hz.2
  rwa [back x hx, back y hy] at ints

theorem portRange_toCInt {x : Int} (within : 1 ≤ x ∧ x ≤ 65535) : PortRange (toCInt x) := by
  rw [toCInt_of_range (by omega) (by omega)]
  exact within

/-- Loading a list of entries collects the entries and their errors. -/
theorem mapM_load {α : Type} (f : Nat → Load α) (is : List Nat) :
    (is.mapM f).value = is.map (fun i => (f i).value) ∧
      (is.mapM f).errors = is.flatMap (fun i => (f i).errors) := by
  induction is with
  | nil => exact ⟨rfl, rfl⟩
  | cons i is ih =>
    obtain ⟨values, errors⟩ := ih
    rw [List.mapM_cons]
    simp [values, errors]

/-! ## A load without errors -/

section
variable {t : Toml}

theorem loadPeer_rules {i : Nat} (silent : (loadPeer t i).errors = []) : PeerRules (loadPeer t i).value := by
  simp only [loadPeer, Load.errors_bind, Load.errors_pure, errors_report, List.append_eq_nil_iff] at silent
  obtain ⟨-, -, -, peerIp, peerPort, bindPort, -⟩ := silent
  constructor
  case peerIp => exact (ipv4Errors_nil_iff _ _ _).mp peerIp
  case peerPort => exact portRange_toCInt (getInt_bounds peerPort (.inl rfl))
  case bindPort => exact portRange_toCInt (getInt_bounds bindPort (.inl rfl))

theorem loadRemotePort_rules {sec : List Byte} {role : CcRole} (silent : (loadRemotePort t sec role).errors = []) :
    if role = .outbound then PortRange (toCInt (loadRemotePort t sec role).value)
    else toCInt (loadRemotePort t sec role).value = -1 := by
  unfold loadRemotePort at silent ⊢
  split
  next outbound =>
    rw [if_pos outbound] at silent
    exact portRange_toCInt (getInt_bounds silent (.inl rfl))
  · rfl

theorem loadLink_rules {peers : List ObpPeerConfig} {i : Nat} (silent : (loadLink t peers i).errors = []) :
    LinkRules (loadLink t peers i).value := by
  simp only [loadLink, Load.errors_bind, Load.errors_pure, errors_report, List.append_eq_nil_iff] at silent
  obtain ⟨-, -, -, -, -, -, -, -, -, ccRemoteIp, ccRemotePort, ccRemoteVoicePort, -⟩ := silent
  constructor
  case tgid => exact inCInt_toCInt _
  case ccLid => exact inCInt_toCInt _
  case ccRemoteIp => exact (ipv4Errors_nil_iff _ _ _).mp ccRemoteIp
  case ccRemotePort => exact loadRemotePort_rules ccRemotePort
  case ccRemoteVoicePort => exact portRange_toCInt (getInt_bounds ccRemoteVoicePort (.inl rfl))

/-- The system of a link names a peer, unless it is empty. -/
theorem loadLink_resolved {peers : List ObpPeerConfig} {i : Nat} (silent : (loadLink t peers i).errors = []) :
    (loadLink t peers i).value.openbridgeIdx =
      findOpenbridge peers (loadLink t peers i).value.openbridgeSystem ∧
    ((loadLink t peers i).value.openbridgeSystem ≠ [] → (loadLink t peers i).value.openbridgeIdx ≠ none) := by
  simp only [loadLink, Load.errors_bind, Load.errors_pure, errors_report, List.append_eq_nil_iff] at silent
  obtain ⟨-, -, -, -, -, resolved, -⟩ := silent
  refine ⟨rfl, fun named unresolved => ?_⟩
  simp only [loadLink, Load.value_bind, Load.value_pure] at named unresolved
  rw [if_pos ⟨named, unresolved⟩] at resolved
  cases resolved

theorem loadOpenbridge_value :
    (loadOpenbridge t).value =
      (List.range (entryCount t (ascii "openbridge") cfgMaxOpenbridge).value).map fun i =>
        (loadPeer t i).value := by
  simp [loadOpenbridge, (mapM_load _ _).1]

theorem loadLinks_value (peers : List ObpPeerConfig) :
    (loadLinks t peers).value =
      (List.range (entryCount t (ascii "link") cfgMaxLinks).value).map fun i =>
        (loadLink t peers i).value := by
  simp [loadLinks, (mapM_load _ _).1]

/-- What an array of tables satisfies when its load reports nothing. -/
structure PeersLoaded (peers : List ObpPeerConfig) : Prop where
  few : peers.length ≤ cfgMaxOpenbridge
  rules : ∀ o ∈ peers, PeerRules o
  names : peers.Pairwise fun a b => sameName a.name b.name = false
  ports : peers.Pairwise fun a b => sharesBindPort a b = false

structure LinksLoaded (peers : List ObpPeerConfig) (links : List LinkConfig) : Prop where
  few : links.length ≤ cfgMaxLinks
  rules : ∀ l ∈ links, LinkRules l
  resolved : ∀ l ∈ links, l.openbridgeIdx = findOpenbridge peers l.openbridgeSystem ∧
    (l.openbridgeSystem ≠ [] → l.openbridgeIdx ≠ none)
  names : links.Pairwise fun a b => sameName a.name b.name = false
  routes : links.Pairwise fun a b => sameRoute a b = false
  inbound : links.Pairwise fun a b => sameInbound a b = false

theorem loadOpenbridge_loaded (silent : (loadOpenbridge t).errors = []) :
    PeersLoaded (loadOpenbridge t).value := by
  have value := loadOpenbridge_value (t := t)
  simp only [loadOpenbridge, Load.errors_bind, Load.errors_pure, errors_report, List.append_eq_nil_iff,
    mapM_load, List.flatMap_eq_nil_iff, pairErrors_nil_iff] at silent
  obtain ⟨-, entries, names, ports, -⟩ := silent
  rw [value]
  constructor
  case few => simp [entryCount]
  case rules =>
    intro o member
    obtain ⟨i, inside, rfl⟩ := List.mem_map.mp member
    exact loadPeer_rules (entries i inside)
  case names => exact names
  case ports => exact ports

theorem loadLinks_loaded {peers : List ObpPeerConfig} (silent : (loadLinks t peers).errors = []) :
    LinksLoaded peers (loadLinks t peers).value := by
  have value := loadLinks_value (t := t) peers
  simp only [loadLinks, Load.errors_bind, Load.errors_pure, errors_report, List.append_eq_nil_iff,
    mapM_load, List.flatMap_eq_nil_iff, pairErrors_nil_iff] at silent
  obtain ⟨-, entries, names, routes, inbound, -⟩ := silent
  rw [value]
  constructor
  case few => simp [entryCount]
  case rules =>
    intro l member
    obtain ⟨i, inside, rfl⟩ := List.mem_map.mp member
    exact loadLink_rules (entries i inside)
  case resolved =>
    intro l member
    obtain ⟨i, inside, rfl⟩ := List.mem_map.mp member
    exact loadLink_resolved (entries i inside)
  case names => exact names
  case routes => exact routes
  case inbound => exact inbound

end

theorem sameName_false {a b : List Byte} (apart : sameName a b = false) (named : a ≠ []) : a ≠ b := by
  rintro rfl
  simp [sameName, named] at apart

/-- The rules across entries, as the load checks them. -/
theorem accepted_of_loaded (cfg : Config) (peers : PeersLoaded cfg.openbridge)
    (links : LinksLoaded cfg.openbridge cfg.link) : cfg.Accepted := by
  refine ⟨peers.few, links.few, ?_, ?_, links.resolved, ?_, ?_, ?_⟩
  · exact peers.names.imp sameName_false
  · exact peers.ports.imp fun apart on on' same => by simp [sharesBindPort, on, on', same] at apart
  · exact links.names.imp sameName_false
  · exact links.routes.imp fun apart known same same' => by
      rw [same] at known
      simp [sameRoute, same, same'] at apart
      exact known apart
  · exact links.inbound.imp fun apart first second same same' => by
      simp [sameInbound, first, second, same, same'] at apart

theorem configLoad_eq_ok {t : Toml} {cfg : Config} (loaded : configLoad t = .ok cfg) :
    (loadConfig t).errors = [] ∧ (loadConfig t).value = cfg := by
  unfold configLoad at loaded
  split at loaded
  next silent => exact ⟨silent, Except.ok.inj loaded⟩
  · cases loaded

/-- An accepted file gives a configuration that follows every rule. -/
theorem configLoad_rules {t : Toml} {cfg : Config} (loaded : configLoad t = .ok cfg) : cfg.Rules := by
  obtain ⟨silent, rfl⟩ := configLoad_eq_ok loaded
  simp only [loadConfig, Load.errors_bind, Load.errors_pure, List.append_eq_nil_iff] at silent
  obtain ⟨-, -, -, -, -, -, interval, timeout, openbridge, links, -⟩ := silent
  have peers := loadOpenbridge_loaded openbridge
  have links := loadLinks_loaded links
  constructor
  case accepted => exact accepted_of_loaded _ peers links
  case peers => exact peers.rules
  case links => exact links.rules
  case interval =>
    have within := getInt_bounds interval (.inr (by decide))
    simp only [loadConfig, Load.value_bind, Load.value_pure]
    exact ⟨by exact_mod_cast within.1, by exact_mod_cast within.2⟩
  case timeout =>
    have within := getInt_bounds timeout (.inr (by decide))
    simp only [loadConfig, Load.value_bind, Load.value_pure]
    exact ⟨by exact_mod_cast within.1, by exact_mod_cast within.2⟩

end Cc2obp
