import Cc2obp.Cccc.Handshake
import Cc2obp.Config.Entries

/-!
# The fields of a handshake

A Question and an Answer paste strings of the configuration between newlines. Each
string fits the buffers it goes through, so both messages are whole for every file
that loads; their fields are the configured ones exactly when no string that goes
into them has a newline of its own, which a basic string of the file can write.
-/
namespace Cc2obp

open CString Lines TextFile

/-! ## Texts on lines -/

section Texts
variable {texts : List (List Byte)}

theorem count_onLines (texts : List (List Byte)) :
    (onLines texts).count 0x0A = texts.length + (texts.map (List.count 0x0A)).sum := by
  induction texts with
  | nil => rfl
  | cons text texts ih =>
    have split : onLines (text :: texts) = text ++ [0x0A] ++ onLines texts := by simp [onLines, newline]
    have one : ([0x0A] : List Byte).count 0x0A = 1 := by decide
    rw [split, List.count_append, List.count_append, ih, one]
    simp only [List.length_cons, List.map_cons, List.sum_cons]
    omega

/-- There are as many newlines as texts if and only if no text has one. -/
theorem count_onLines_iff : (onLines texts).count 0x0A = texts.length ↔ ∀ text ∈ texts, (0x0A : Byte) ∉ text := by
  rw [count_onLines]
  have none : (texts.map (List.count 0x0A)).sum = 0 ↔ ∀ text ∈ texts, (0x0A : Byte) ∉ text := by
    rw [List.sum_eq_zero_iff_forall_eq_nat, List.forall_mem_map]
    exact forall₂_congr fun text _ => List.count_eq_zero
  rw [← none]
  omega

/-- Texts without a newline are what is between the newlines. -/
theorem linesOf_onLines (inLine : ∀ text ∈ texts, (0x0A : Byte) ∉ text) : linesOf (onLines texts) = texts ++ [[]] := by
  induction texts with
  | nil => rfl
  | cons text texts ih =>
    have split : onLines (text :: texts) = text ++ 0x0A :: onLines texts := by simp [onLines, newline]
    rw [split, linesOf, List.splitOn_append_cons_self_of_not_mem (inLine text (by simp)), List.cons_append]
    exact congrArg (text :: ·) (ih fun later member => inLine later (List.mem_cons_of_mem text member))

end Texts

/-- A message that is not cut and whose newlines are those behind its fields. -/
structure Fielded (size : Nat) (message : List Byte) (fields : List (List Byte)) : Prop where
  newlines : message.count 0x0A = fields.length
  whole : message.length < size
  split : linesOf message = fields ++ [[]]

theorem fielded_iff {size : Nat} {fields : List (List Byte)} (whole : (onLines fields).length < size) :
    Fielded size (onLines fields) fields ↔ ∀ text ∈ fields, (0x0A : Byte) ∉ text := by
  constructor
  · intro fielded
    exact count_onLines_iff.mp fielded.newlines
  · intro inLine
    exact ⟨count_onLines_iff.mpr inLine, whole, linesOf_onLines inLine⟩

/-! ## The strings of a file -/

/-- A string of the file that comes out of the load with a newline in it. -/
def Toml.Breaks (t : Toml) (sec key : List Byte) (cap : Nat) : Prop :=
  ∃ s, t.get sec key = some (.string s) ∧ (0x0A : Byte) ∈ trimcpy cap s

/-- The i-th link of the file dials out. -/
def Toml.Outbound (t : Toml) (i : Nat) : Prop :=
  ∃ s, t.get (sectionName (ascii "link") i) (ascii "cc_role") = some (.string s) ∧
    (trimcpy 64 s).map toUpper = ascii "OUTBOUND"

/-- No newline within a string that goes into a message. -/
structure Toml.OnLines (t : Toml) : Prop where
  siteName : ¬t.Breaks (ascii "global") (ascii "cc_site_name") 128
  osVersion : ¬t.Breaks (ascii "global") (ascii "cc_os_version") 128
  version : ¬t.Breaks (ascii "global") (ascii "cc_version") 128
  outbound : ∀ i < t.arrayLen (ascii "link"), t.Outbound i →
    ¬t.Breaks (ascii "global") (ascii "cc_mac_address") 32 ∧
      ¬t.Breaks (ascii "global") (ascii "cc_code_revision") 32 ∧
      ¬t.Breaks (sectionName (ascii "link") i) (ascii "cc_channel_name") 128

section Strings
variable {t : Toml} {sec key deflt : List Byte} {required : Bool} {cap : Nat}

theorem newline_mem_getStr (silent : (getStr t sec key required deflt cap).errors = [])
    (fallback : (0x0A : Byte) ∉ deflt) :
    (0x0A : Byte) ∈ (getStr t sec key required deflt cap).value ↔ t.Breaks sec key cap := by
  unfold getStr at silent ⊢
  unfold Toml.Breaks
  split at silent
  next absent =>
    simp only [absent, reduceCtorEq, false_and, exists_false, iff_false]
    exact fallback
  next s here => simp [here]
  · simp at silent

theorem length_getStr (room : deflt.length < cap) : (getStr t sec key required deflt cap).value.length < cap := by
  unfold getStr
  split
  · exact room
  · simp only [trimcpy, List.length_take]
    omega
  · exact room

end Strings

section Loaded
variable {t : Toml} {cfg : Config}

/-- The strings of the global table, as they were read. -/
structure Identity (t : Toml) (cfg : Config) : Prop where
  siteName : (0x0A : Byte) ∈ cfg.ccSiteName ↔ t.Breaks (ascii "global") (ascii "cc_site_name") 128
  macAddress : (0x0A : Byte) ∈ cfg.ccMacAddress ↔ t.Breaks (ascii "global") (ascii "cc_mac_address") 32
  codeRevision : (0x0A : Byte) ∈ cfg.ccCodeRevision ↔ t.Breaks (ascii "global") (ascii "cc_code_revision") 32
  version : (0x0A : Byte) ∈ cfg.ccVersion ↔ t.Breaks (ascii "global") (ascii "cc_version") 128
  osVersion : (0x0A : Byte) ∈ cfg.ccOsVersion ↔ t.Breaks (ascii "global") (ascii "cc_os_version") 128
  siteFits : cfg.ccSiteName.length < 128
  macFits : cfg.ccMacAddress.length < 32
  revisionFits : cfg.ccCodeRevision.length < 32
  versionFits : cfg.ccVersion.length < 128
  osFits : cfg.ccOsVersion.length < 128

theorem configLoad_identity (loaded : configLoad t = .ok cfg) : Identity t cfg := by
  obtain ⟨silent, rfl⟩ := configLoad_eq_ok loaded
  simp only [loadConfig, Load.errors_bind, Load.errors_pure, List.append_eq_nil_iff] at silent
  obtain ⟨-, site, mac, revision, version, os, -⟩ := silent
  constructor
  case siteName => exact newline_mem_getStr site (by decide)
  case macAddress => exact newline_mem_getStr mac (by decide)
  case codeRevision => exact newline_mem_getStr revision (by decide)
  case version => exact newline_mem_getStr version (by decide)
  case osVersion => exact newline_mem_getStr os (by decide)
  case siteFits => exact length_getStr (by decide)
  case macFits => exact length_getStr (by decide)
  case revisionFits => exact length_getStr (by decide)
  case versionFits => exact length_getStr (by decide)
  case osFits => exact length_getStr (by decide)

/-- The role and the channel name of a link, as they were read. -/
structure Dialled (t : Toml) (i : Nat) (l : LinkConfig) : Prop where
  role : l.ccRole = .outbound ↔ t.Outbound i
  channel : (0x0A : Byte) ∈ l.ccChannelName ↔ t.Breaks (sectionName (ascii "link") i) (ascii "cc_channel_name") 128
  channelFits : l.ccChannelName.length < 128

theorem getChoice_role {sec key : List Byte}
    (silent : (getChoice t sec key true (ascii "OUTBOUND") [ascii "OUTBOUND", ascii "INBOUND"]).errors = []) :
    (getChoice t sec key true (ascii "OUTBOUND") [ascii "OUTBOUND", ascii "INBOUND"]).value ≠ ascii "INBOUND" ↔
      ∃ s, t.get sec key = some (.string s) ∧ (trimcpy 64 s).map toUpper = ascii "OUTBOUND" := by
  have differ : ascii "OUTBOUND" ≠ ascii "INBOUND" := by decide
  unfold getChoice at silent ⊢
  split at silent
  · simp [missing] at silent
  next s here =>
    split at silent
    next c found =>
      have chosen := List.find?_some found
      have listed := List.mem_of_find?_eq_some found
      simp only [beq_iff_eq] at chosen
      simp only [List.mem_cons, List.not_mem_nil, or_false] at listed
      simp only [here, Option.some.injEq, TomlValue.string.injEq, ← chosen, exists_eq_left']
      rcases listed with rfl | rfl
      · simp [differ]
      · simp [differ.symm]
    · simp at silent
  · simp at silent

theorem loadLink_dialled {peers : List ObpPeerConfig} {i : Nat} (silent : (loadLink t peers i).errors = []) :
    Dialled t i (loadLink t peers i).value := by
  simp only [loadLink, Load.errors_bind, Load.errors_pure, errors_report, List.append_eq_nil_iff] at silent
  obtain ⟨-, -, -, -, -, -, role, -, -, -, -, -, channel, -⟩ := silent
  constructor
  case role =>
    rw [Toml.Outbound, ← getChoice_role role]
    simp only [loadLink, Load.value_bind, Load.value_pure]
    split <;> simp_all
  case channel => exact newline_mem_getStr channel (by simp)
  case channelFits => exact length_getStr (by decide)

end Loaded

/-! ## The messages -/

/-- Every message a configuration's handshakes send is whole and has its fields. -/
structure Config.Handshakes (cfg : Config) : Prop where
  question : ∀ l ∈ cfg.link, l.ccRole = .outbound → ∀ ssrc : BitVec 32,
    Fielded 512
      (buildQuestion ssrc l.ccLid l.ccChannelName cfg.ccSiteName cfg.ccMacAddress cfg.ccCodeRevision cfg.ccOsVersion)
      (questionTexts ssrc l.ccLid l.ccChannelName cfg.ccSiteName cfg.ccMacAddress cfg.ccCodeRevision cfg.ccOsVersion)
  answer : ∀ wallSec wallUsec : Int, wallSec.natAbs ≤ 2 ^ 63 → wallUsec.natAbs < 10 ^ 6 →
    Fielded 512 (buildAnswer wallSec wallUsec cfg.ccSiteName cfg.ccOsVersion cfg.ccVersion)
      (answerTexts wallSec wallUsec cfg.ccSiteName cfg.ccOsVersion cfg.ccVersion)

section Messages
variable {cfg : Config} {t : Toml}

theorem newline_notMem_fmtInt (x : Int) : (0x0A : Byte) ∉ fmtInt x := fun member => absurd (mem_fmtInt member) (by decide)

theorem question_iff (identity : Identity t cfg) {l : LinkConfig} (lid : InCInt l.ccLid)
    (channelFits : l.ccChannelName.length < 128) (ssrc : BitVec 32) :
    Fielded 512
      (buildQuestion ssrc l.ccLid l.ccChannelName cfg.ccSiteName cfg.ccMacAddress cfg.ccCodeRevision cfg.ccOsVersion)
      (questionTexts ssrc l.ccLid l.ccChannelName cfg.ccSiteName cfg.ccMacAddress cfg.ccCodeRevision cfg.ccOsVersion) ↔
    (0x0A : Byte) ∉ l.ccChannelName ∧ (0x0A : Byte) ∉ cfg.ccSiteName ∧ (0x0A : Byte) ∉ cfg.ccMacAddress ∧
      (0x0A : Byte) ∉ cfg.ccCodeRevision ∧ (0x0A : Byte) ∉ cfg.ccOsVersion := by
  have hexShort : (fmtNat 16 ssrc.toNat).length ≤ 8 := length_fmtNat_le (by decide) (by decide) ssrc.isLt
  have lidShort : (fmtInt l.ccLid).length ≤ 11 := by
    obtain ⟨low, high⟩ := lid
    exact length_fmtInt_le (by decide) (by omega)
  have conntype : ccccConntypeServerInbound.length = 14 := rfl
  obtain ⟨-, -, -, -, -, site, mac, revision, -, os⟩ := identity
  rw [buildQuestion_eq, fielded_iff]
  · have hex : (0x0A : Byte) ∉ fmtNat 16 ssrc.toNat := fun member =>
      absurd (mem_fmtNat (by decide) (by decide) member) (by decide)
    have lidLine : (0x0A : Byte) ∉ fmtInt l.ccLid ++ space := by
      simp only [List.mem_append, not_or]
      exact ⟨newline_notMem_fmtInt _, by decide⟩
    have typeLine : (0x0A : Byte) ∉ ccccConntypeServerInbound := by decide
    simp only [questionTexts, List.forall_mem_cons, List.not_mem_nil, false_implies, implies_true, and_true, hex, lidLine,
      typeLine, not_false_eq_true, true_and]
  · rw [length_onLines]
    simp [questionTexts, space, conntype]
    omega

theorem answer_iff (identity : Identity t cfg) {wallSec wallUsec : Int} (seconds : wallSec.natAbs ≤ 2 ^ 63)
    (micros : wallUsec.natAbs < 10 ^ 6) :
    Fielded 512 (buildAnswer wallSec wallUsec cfg.ccSiteName cfg.ccOsVersion cfg.ccVersion)
      (answerTexts wallSec wallUsec cfg.ccSiteName cfg.ccOsVersion cfg.ccVersion) ↔
    (0x0A : Byte) ∉ cfg.ccVersion ∧ (0x0A : Byte) ∉ cfg.ccSiteName ∧ (0x0A : Byte) ∉ cfg.ccOsVersion := by
  have secondsShort : (fmtInt wallSec).length ≤ 20 := length_fmtInt_le (by decide) (by omega)
  have microsShort : (fmtInt wallUsec).length ≤ 7 := length_fmtInt_le (by decide) micros
  have frame : (fmtInt ccccMsPerFrame).length = 2 := by decide
  have codec : ccccCodecAmbe.length = 4 := rfl
  have zero : (ascii "0").length = 1 := by decide
  obtain ⟨-, -, -, -, -, site, -, -, version, os⟩ := identity
  rw [buildAnswer_eq, fielded_iff]
  · have codecLine : (0x0A : Byte) ∉ ccccCodecAmbe := by decide
    have clock : (0x0A : Byte) ∉ fmtInt wallSec ++ space ++ fmtInt wallUsec := by
      simp only [List.mem_append, not_or]
      exact ⟨⟨newline_notMem_fmtInt _, by decide⟩, newline_notMem_fmtInt _⟩
    have zeroLine : (0x0A : Byte) ∉ ascii "0" := by decide
    simp only [answerTexts, List.forall_mem_cons, List.not_mem_nil, false_implies, implies_true, and_true, codecLine,
      newline_notMem_fmtInt, clock, zeroLine, not_false_eq_true, true_and]
  · rw [length_onLines]
    simp [answerTexts, space, codec, frame, zero]
    omega

end Messages

/-- The handshakes of a loaded file have their fields exactly when no string that goes into them has a
newline within. -/
theorem handshakes_iff (t : Toml) (cfg : Config) (loaded : configLoad t = .ok cfg) : cfg.Handshakes ↔ t.OnLines := by
  have identity := configLoad_identity loaded
  have entries := configLoad_loaded loaded
  have rules := configLoad_rules loaded
  have dialled : ∀ i (inside : i < cfg.link.length), Dialled t i cfg.link[i] := by
    intro i inside
    rw [entries.link i inside]
    exact loadLink_dialled (entries.linkSilent i inside)
  constructor
  · intro handshakes
    obtain ⟨version, site, os⟩ := (answer_iff identity (by decide) (by decide)).mp (handshakes.answer 0 0 (by decide) (by decide))
    constructor
    case siteName => exact fun breaks => site (identity.siteName.mpr breaks)
    case osVersion => exact fun breaks => os (identity.osVersion.mpr breaks)
    case version => exact fun breaks => version (identity.version.mpr breaks)
    case outbound =>
      intro i inside outbound
      rw [← entries.nLink] at inside
      have here := dialled i inside
      have member := List.getElem_mem inside
      have asked := handshakes.question _ member (here.role.mpr outbound) 0
      obtain ⟨channel, -, mac, revision, -⟩ := (question_iff identity (rules.links _ member).ccLid here.channelFits 0).mp asked
      exact ⟨fun breaks => mac (identity.macAddress.mpr breaks), fun breaks => revision (identity.codeRevision.mpr breaks),
        fun breaks => channel (here.channel.mpr breaks)⟩
  · intro onLines
    have site : (0x0A : Byte) ∉ cfg.ccSiteName := fun member => onLines.siteName (identity.siteName.mp member)
    have os : (0x0A : Byte) ∉ cfg.ccOsVersion := fun member => onLines.osVersion (identity.osVersion.mp member)
    have version : (0x0A : Byte) ∉ cfg.ccVersion := fun member => onLines.version (identity.version.mp member)
    constructor
    case question =>
      intro l member role ssrc
      obtain ⟨i, inside, rfl⟩ := List.mem_iff_getElem.mp member
      have here := dialled i inside
      obtain ⟨mac, revision, channel⟩ := onLines.outbound i (entries.nLink ▸ inside) (here.role.mp role)
      rw [question_iff identity (rules.links _ member).ccLid here.channelFits]
      exact ⟨fun bad => channel (here.channel.mp bad), site, fun bad => mac (identity.macAddress.mp bad),
        fun bad => revision (identity.codeRevision.mp bad), os⟩
    case answer =>
      intro wallSec wallUsec seconds micros
      exact (answer_iff identity seconds micros).mpr ⟨version, site, os⟩

theorem handshakes_iff_hub :
    (loadConfig (systemFile (ascii "hub"))).value.Handshakes ↔ (systemFile (ascii "hub")).OnLines :=
  handshakes_iff (systemFile (ascii "hub")) _ (by decide +kernel)

/-- A site name with a newline that the file writes as an escape. -/
def brokenSite : List Byte := ascii "[global]\ncc_site_name = \"north\\nsouth\"\n"

def brokenSiteConfig : Config where
  ccSiteName := ascii "north\nsouth"
  ccMacAddress := ascii "000000000000"
  ccCodeRevision := ascii "10252"
  ccVersion := ascii "cc2obp"
  ccOsVersion := ascii "Linux"
  ccKeepaliveInterval := 10
  ccLinkTimeout := 35

/-- It loads, and every Answer has a field too many. -/
theorem broken_site_loads : ¬∀ (path file : List Byte) (cfg : Config),
    configLoadFile path (some file) = .ok cfg → cfg.Handshakes := by
  intro handshakes
  have loaded : configLoadFile [] (some brokenSite) = .ok brokenSiteConfig := by decide +kernel
  have newlines := ((handshakes [] brokenSite brokenSiteConfig loaded).answer 0 0 (by decide) (by decide)).newlines
  revert newlines
  decide +kernel

end Cc2obp
