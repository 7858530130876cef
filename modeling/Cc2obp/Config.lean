import Cc2obp.Lib.Bytes

/-!
# Runtime configuration

The validated `Config` and the toggles a reload may change. C strings are byte
lists without their terminator; entries past the configured ones are zeroed.
-/
namespace Cc2obp

def cfgMaxOpenbridge : Nat := 32
def cfgMaxLinks : Nat := 128

inductive LogLevel where
  | debug
  | info
  | warning
  | error
deriving DecidableEq

inductive CcRole where
  | outbound
  | inbound
deriving DecidableEq

structure ObpPeerConfig where
  name : List Byte := []
  enabled : Bool := false
  peerIp : List Byte := []
  /-- The remote's port: send-to and expected source port. -/
  peerPort : Int := 0
  bindPort : Int := 0
  networkId : BitVec 32 := 0
  passphrase : List Byte := []
  preserveSourcePeer : Bool := false
deriving DecidableEq

structure LinkConfig where
  name : List Byte := []
  enabled : Bool := false
  crossConnectActive : Bool := false
  tgid : Int := 0
  openbridgeSystem : List Byte := []
  /-- Index into the peers, `none` until resolved. -/
  openbridgeIdx : Option Nat := some 0
  ccRole : CcRole := .outbound
  ccLid : Int := 0
  ccRemoteIp : List Byte := []
  ccRemotePort : Int := 0
  ccRemoteVoicePort : Int := 0
  ccChannelName : List Byte := []
deriving DecidableEq

structure Config where
  logLevel : LogLevel := .info
  ccSiteName : List Byte := []
  ccMacAddress : List Byte := []
  ccCodeRevision : List Byte := []
  ccVersion : List Byte := []
  ccOsVersion : List Byte := []
  ccKeepaliveInterval : Rat := 0
  ccLinkTimeout : Rat := 0
  openbridge : List ObpPeerConfig := []
  link : List LinkConfig := []
deriving DecidableEq

/-- `cfg->link[i]`. -/
def Config.linkAt (cfg : Config) (i : Nat) : LinkConfig := cfg.link.getD i {}

/-- `cfg->openbridge[i]`. -/
def Config.openbridgeAt (cfg : Config) (i : Nat) : ObpPeerConfig := cfg.openbridge.getD i {}

def Config.nLink (cfg : Config) : Nat := cfg.link.length
def Config.nOpenbridge (cfg : Config) : Nat := cfg.openbridge.length

theorem Config.linkAt_beyond {cfg : Config} {i : Nat} (outside : cfg.nLink ≤ i) : cfg.linkAt i = {} := by
  have past : cfg.link.length ≤ i := outside
  simp [Config.linkAt, past]

/-- `(uint32_t)` of a C `int`. -/
def u32 (x : Int) : BitVec 32 := BitVec.ofInt 32 x

/-! ## What loading checks -/

def findOpenbridge (peers : List ObpPeerConfig) (name : List Byte) : Option Nat :=
  peers.findIdx? fun o => o.name == name

/-- The rules across entries that a successful load has checked. -/
def Config.Accepted (cfg : Config) : Prop :=
  cfg.nOpenbridge ≤ cfgMaxOpenbridge ∧ cfg.nLink ≤ cfgMaxLinks ∧
  cfg.openbridge.Pairwise (fun a b => a.name ≠ [] → a.name ≠ b.name) ∧
  cfg.openbridge.Pairwise (fun a b => a.enabled → b.enabled → a.bindPort ≠ b.bindPort) ∧
  (∀ l ∈ cfg.link, l.openbridgeIdx = findOpenbridge cfg.openbridge l.openbridgeSystem ∧
    (l.openbridgeSystem ≠ [] → l.openbridgeIdx ≠ none)) ∧
  cfg.link.Pairwise (fun a b => a.name ≠ [] → a.name ≠ b.name) ∧
  cfg.link.Pairwise (fun a b =>
    a.openbridgeIdx ≠ none → a.openbridgeIdx = b.openbridgeIdx → a.tgid ≠ b.tgid) ∧
  cfg.link.Pairwise (fun a b => a.ccRole = .inbound → b.ccRole = .inbound →
    a.ccRemoteIp = b.ccRemoteIp → a.ccLid ≠ b.ccLid)

instance (cfg : Config) : Decidable cfg.Accepted :=
  inferInstanceAs (Decidable (_ ∧ _ ∧ _ ∧ _ ∧ _ ∧ _ ∧ _ ∧ _))

/-! ## Reload -/

/-- A running peer takes the toggle of the first entry of its name in the file. -/
def ObpPeerConfig.reload (fresh : List ObpPeerConfig) (o : ObpPeerConfig) : ObpPeerConfig :=
  match fresh.find? fun f => f.name == o.name with
  | some f => { o with enabled := f.enabled }
  | none => o

def LinkConfig.reload (fresh : List LinkConfig) (l : LinkConfig) : LinkConfig :=
  match fresh.find? fun f => f.name == l.name with
  | some f => { l with enabled := f.enabled, crossConnectActive := f.crossConnectActive }
  | none => l

/-- `config_reload_toggles` with the result of loading the file. -/
def configReloadToggles (fresh cfg : Config) : Config :=
  { cfg with
    openbridge := cfg.openbridge.map (ObpPeerConfig.reload fresh.openbridge)
    link := cfg.link.map (LinkConfig.reload fresh.link) }

def ObpPeerConfig.fixed (o : ObpPeerConfig) : ObpPeerConfig := { o with enabled := false }

def LinkConfig.fixed (l : LinkConfig) : LinkConfig :=
  { l with enabled := false, crossConnectActive := false }

/-- The configuration with every toggle off: what no reload changes. -/
def Config.fixed (cfg : Config) : Config :=
  { cfg with
    openbridge := cfg.openbridge.map ObpPeerConfig.fixed
    link := cfg.link.map LinkConfig.fixed }

theorem ObpPeerConfig.fixed_reload (fresh : List ObpPeerConfig) (o : ObpPeerConfig) :
    (o.reload fresh).fixed = o.fixed := by
  unfold ObpPeerConfig.reload
  split <;> rfl

theorem LinkConfig.fixed_reload (fresh : List LinkConfig) (l : LinkConfig) :
    (l.reload fresh).fixed = l.fixed := by
  unfold LinkConfig.reload
  split <;> rfl

/-- A reload changes toggles only. -/
@[simp] theorem fixed_configReloadToggles (fresh cfg : Config) :
    (configReloadToggles fresh cfg).fixed = cfg.fixed := by
  simp [Config.fixed, configReloadToggles, Function.comp_def, ObpPeerConfig.fixed_reload,
    LinkConfig.fixed_reload]

section Fixed
variable {a b : Config}

theorem Config.nLink_of_fixed (same : a.fixed = b.fixed) : a.nLink = b.nLink := by
  have links := congrArg (fun c => c.link.length) same
  simpa [Config.fixed, Config.nLink] using links

theorem Config.nOpenbridge_of_fixed (same : a.fixed = b.fixed) : a.nOpenbridge = b.nOpenbridge := by
  have peers := congrArg (fun c => c.openbridge.length) same
  simpa [Config.fixed, Config.nOpenbridge] using peers

theorem Config.linkAt_fixed (cfg : Config) (i : Nat) :
    (cfg.linkAt i).fixed = cfg.fixed.linkAt i := by
  by_cases inside : i < cfg.link.length
  · simp [Config.linkAt, Config.fixed, inside]
  · have outside : cfg.link.length ≤ i := by omega
    simp [Config.linkAt, Config.fixed, outside]
    rfl

/-- Two configurations that differ in toggles only have the same link, toggles apart. -/
theorem Config.linkAt_of_fixed (same : a.fixed = b.fixed) (i : Nat) :
    (a.linkAt i).fixed = (b.linkAt i).fixed := by
  rw [Config.linkAt_fixed, Config.linkAt_fixed, same]

theorem LinkConfig.openbridgeIdx_of_fixed {l m : LinkConfig} (same : l.fixed = m.fixed) :
    l.openbridgeIdx = m.openbridgeIdx := by
  have fields := congrArg LinkConfig.openbridgeIdx same
  exact fields

theorem LinkConfig.tgid_of_fixed {l m : LinkConfig} (same : l.fixed = m.fixed) :
    l.tgid = m.tgid := by
  have fields := congrArg LinkConfig.tgid same
  exact fields

end Fixed

end Cc2obp
