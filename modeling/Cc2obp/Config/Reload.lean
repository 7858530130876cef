import Cc2obp.Config.Rules

/-!
# Reloading

Of the rules of a loaded configuration a reload can break one: it merges the
toggles of a valid file into fields of an older one, and two peers that come out
enabled may share the local port they have had since the start.
-/
namespace Cc2obp

/-- A configuration the process runs with: loaded at the start, then reloaded any number of times. -/
inductive Running : Config → Prop where
  | loaded {t : Toml} {cfg : Config} (file : configLoad t = .ok cfg) : Running cfg
  | reloaded {t : Toml} {cfg fresh : Config} (before : Running cfg) (file : configLoad t = .ok fresh) :
      Running (configReloadToggles fresh cfg)

/-- No two enabled peers share a local port. -/
def PortsApart (peers : List ObpPeerConfig) : Prop :=
  peers.Pairwise fun a b => a.enabled → b.enabled → a.bindPort ≠ b.bindPort

instance (peers : List ObpPeerConfig) : Decidable (PortsApart peers) :=
  inferInstanceAs (Decidable (List.Pairwise _ _))

/-! ## What the toggles decide -/

section Fixed
variable {cfg : Config}

theorem findOpenbridge_fixed (peers : List ObpPeerConfig) (name : List Byte) :
    findOpenbridge (peers.map ObpPeerConfig.fixed) name = findOpenbridge peers name := by
  rw [findOpenbridge, List.findIdx?_map]
  rfl

/-- Of the rules across entries only the one about local ports looks at a toggle. -/
theorem accepted_iff_fixed : cfg.Accepted ↔ cfg.fixed.Accepted ∧ PortsApart cfg.openbridge := by
  have off : cfg.fixed.openbridge.Pairwise fun a b => a.enabled → b.enabled → a.bindPort ≠ b.bindPort := by
    rw [Config.fixed, List.pairwise_map]
    exact List.pairwise_of_forall fun a b on => absurd on (by simp [ObpPeerConfig.fixed])
  constructor
  · rintro ⟨fewPeers, fewLinks, peerNames, ports, resolved, linkNames, routes, inbound⟩
    refine ⟨⟨?_, ?_, ?_, off, ?_, ?_, ?_, ?_⟩, ports⟩
    · simpa [Config.nOpenbridge, Config.fixed] using fewPeers
    · simpa [Config.nLink, Config.fixed] using fewLinks
    · rw [Config.fixed, List.pairwise_map]
      exact peerNames
    · intro l' member
      obtain ⟨l, here, rfl⟩ := List.mem_map.mp member
      rw [Config.fixed, findOpenbridge_fixed]
      exact resolved l here
    · rw [Config.fixed, List.pairwise_map]
      exact linkNames
    · rw [Config.fixed, List.pairwise_map]
      exact routes
    · rw [Config.fixed, List.pairwise_map]
      exact inbound
  · rintro ⟨⟨fewPeers, fewLinks, peerNames, -, resolved, linkNames, routes, inbound⟩, ports⟩
    rw [Config.fixed, List.pairwise_map] at peerNames linkNames routes inbound
    refine ⟨?_, ?_, peerNames, ports, ?_, linkNames, routes, inbound⟩
    · simpa [Config.nOpenbridge, Config.fixed] using fewPeers
    · simpa [Config.nLink, Config.fixed] using fewLinks
    · intro l member
      have here := resolved l.fixed (List.mem_map.mpr ⟨l, member, rfl⟩)
      rw [Config.fixed, findOpenbridge_fixed] at here
      exact here

theorem peerRules_fixed (o : ObpPeerConfig) : PeerRules o.fixed ↔ PeerRules o :=
  ⟨fun ⟨peerIp, peerPort, bindPort⟩ => ⟨peerIp, peerPort, bindPort⟩,
    fun ⟨peerIp, peerPort, bindPort⟩ => ⟨peerIp, peerPort, bindPort⟩⟩

theorem linkRules_fixed (l : LinkConfig) : LinkRules l.fixed ↔ LinkRules l :=
  ⟨fun ⟨tgid, ccLid, ccRemoteIp, ccRemotePort, ccRemoteVoicePort⟩ =>
      ⟨tgid, ccLid, ccRemoteIp, ccRemotePort, ccRemoteVoicePort⟩,
    fun ⟨tgid, ccLid, ccRemoteIp, ccRemotePort, ccRemoteVoicePort⟩ =>
      ⟨tgid, ccLid, ccRemoteIp, ccRemotePort, ccRemoteVoicePort⟩⟩

theorem rules_iff_fixed : cfg.Rules ↔ cfg.fixed.Rules ∧ PortsApart cfg.openbridge := by
  have peers : (∀ o ∈ cfg.fixed.openbridge, PeerRules o) ↔ ∀ o ∈ cfg.openbridge, PeerRules o := by
    simp [Config.fixed, peerRules_fixed]
  have links : (∀ l ∈ cfg.fixed.link, LinkRules l) ↔ ∀ l ∈ cfg.link, LinkRules l := by
    simp [Config.fixed, linkRules_fixed]
  constructor
  · intro rules
    obtain ⟨accepted, ports⟩ := accepted_iff_fixed.mp rules.accepted
    exact ⟨⟨accepted, peers.mpr rules.peers, links.mpr rules.links, rules.interval, rules.timeout⟩, ports⟩
  · rintro ⟨rules, ports⟩
    exact ⟨accepted_iff_fixed.mpr ⟨rules.accepted, ports⟩, peers.mp rules.peers, links.mp rules.links,
      rules.interval, rules.timeout⟩

end Fixed

/-- Toggles apart, a running configuration follows every rule. -/
theorem Running.fixed_rules {cfg : Config} (running : Running cfg) : cfg.fixed.Rules := by
  induction running with
  | loaded file => exact (rules_iff_fixed.mp (configLoad_rules file)).1
  | reloaded before file ih =>
    rw [fixed_configReloadToggles]
    exact ih

/-! ## One reload -/

/-- The file switches the peer on, or does not mention it and it is on already. -/
def SwitchedOn (fresh : List ObpPeerConfig) (o : ObpPeerConfig) : Prop :=
  match fresh.find? fun f => f.name == o.name with
  | some f => f.enabled = true
  | none => o.enabled = true

/-- No two of the running peers that the file leaves switched on have had the same local port. -/
def NoClash (fresh cfg : Config) : Prop :=
  cfg.openbridge.Pairwise fun a b =>
    SwitchedOn fresh.openbridge a → SwitchedOn fresh.openbridge b → a.bindPort ≠ b.bindPort

theorem enabled_reload (fresh : List ObpPeerConfig) (o : ObpPeerConfig) :
    (o.reload fresh).enabled = true ↔ SwitchedOn fresh o := by
  unfold ObpPeerConfig.reload SwitchedOn
  cases fresh.find? fun f => f.name == o.name <;> rfl

theorem bindPort_reload (fresh : List ObpPeerConfig) (o : ObpPeerConfig) :
    (o.reload fresh).bindPort = o.bindPort := by
  unfold ObpPeerConfig.reload
  split <;> rfl

theorem portsApart_reload (fresh cfg : Config) :
    PortsApart (configReloadToggles fresh cfg).openbridge ↔ NoClash fresh cfg := by
  rw [PortsApart, configReloadToggles, List.pairwise_map]
  simp only [enabled_reload, bindPort_reload]
  rfl

/-- A reload keeps every rule exactly when it leaves no two peers on that have had the same local port. -/
theorem Running.rules_reload {cfg fresh : Config} (running : Running cfg) :
    (configReloadToggles fresh cfg).Rules ↔ NoClash fresh cfg := by
  rw [rules_iff_fixed, fixed_configReloadToggles, portsApart_reload]
  exact and_iff_right running.fixed_rules

end Cc2obp
