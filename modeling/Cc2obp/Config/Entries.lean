import Cc2obp.Config.Documented
import Cc2obp.Config.LoadFile

/-!
# The entries of a loaded file

The i-th peer or link of the configuration comes from the i-th table of its array,
and nothing was reported for any of them. Across entries the load checks exactly
what `PeersLoaded` and `LinksLoaded` say.
-/
namespace Cc2obp

/-- A configuration with the tables its entries were read from. -/
structure Loaded (t : Toml) (cfg : Config) : Prop where
  nOpenbridge : cfg.openbridge.length = t.arrayLen (ascii "openbridge")
  nLink : cfg.link.length = t.arrayLen (ascii "link")
  peer : ∀ p (inside : p < cfg.openbridge.length), cfg.openbridge[p] = (loadPeer t p).value
  link : ∀ i (inside : i < cfg.link.length), cfg.link[i] = (loadLink t cfg.openbridge i).value
  peerSilent : ∀ p < cfg.openbridge.length, (loadPeer t p).errors = []
  linkSilent : ∀ i < cfg.link.length, (loadLink t cfg.openbridge i).errors = []

variable {t : Toml} {cfg : Config}

theorem configLoad_loaded (file : configLoad t = .ok cfg) : Loaded t cfg := by
  obtain ⟨silent, rfl⟩ := configLoad_eq_ok file
  simp only [loadConfig, Load.errors_bind, Load.errors_pure, List.append_eq_nil_iff] at silent
  obtain ⟨-, -, -, -, -, -, -, -, openbridge, links, -⟩ := silent
  simp only [loadOpenbridge, Load.errors_bind, List.append_eq_nil_iff, mapM_load, List.flatMap_eq_nil_iff] at openbridge
  simp only [loadLinks, Load.errors_bind, List.append_eq_nil_iff, mapM_load, List.flatMap_eq_nil_iff] at links
  obtain ⟨peerCount, peerEntries, -⟩ := openbridge
  obtain ⟨linkCount, linkEntries, -⟩ := links
  have peers : (loadConfig t).value.openbridge = (loadOpenbridge t).value := rfl
  have entries : (loadConfig t).value.link = (loadLinks t (loadOpenbridge t).value).value := rfl
  constructor
  case nOpenbridge => simp [peers, loadOpenbridge_value, entryCount_value peerCount]
  case nLink => simp [entries, loadLinks_value, entryCount_value linkCount]
  case peer =>
    intro p inside
    simp [peers, loadOpenbridge_value]
  case link =>
    intro i inside
    simp [entries, peers, loadLinks_value]
  case peerSilent =>
    intro p inside
    exact peerEntries p (by simpa [peers, loadOpenbridge_value] using inside)
  case linkSilent =>
    intro i inside
    exact linkEntries i (by simpa [entries, loadLinks_value] using inside)

theorem configLoadFile_eq_ok {path file : List Byte} (loaded : configLoadFile path (some file) = .ok cfg) :
    ∃ t, tomlParseFile path (some file) = .ok t ∧ configLoad t = .ok cfg := by
  unfold configLoadFile at loaded
  split at loaded
  · cases loaded
  next t parsed =>
    refine ⟨t, parsed, ?_⟩
    cases result : configLoad t with
    | error errors => simp [result, Except.mapError] at loaded
    | ok fresh => simpa [result, Except.mapError] using loaded

theorem configLoadFile_of_parsed {path file : List Byte} (parsed : tomlParseFile path (some file) = .ok t) :
    configLoadFile path (some file) = (configLoad t).mapError .invalid := by
  simp [configLoadFile, parsed]

end Cc2obp
