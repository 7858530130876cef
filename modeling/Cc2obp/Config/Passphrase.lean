import Cc2obp.Config.Entries
import Cc2obp.Config.Tables
import Cc2obp.Config.Written

/-!
# The passphrase as it is written

A file that is accepted with one passphrase is accepted with any other, and the key
is what the four layers leave of it: all of it exactly when it has no blank at either
end and no hash behind an odd number of quotes.
-/
namespace Cc2obp

open CString TextFile

/-! ## Another value of one entry -/

/-- The same file with another passphrase of the i-th peer. -/
structure Rekeyed (t t' : Toml) (i : Nat) (new : List Byte) : Prop where
  atables : t'.atables = t.atables
  old : ∃ s, t.get (sectionName (ascii "openbridge") i) (ascii "passphrase") = some (.string s)
  new : t'.get (sectionName (ascii "openbridge") i) (ascii "passphrase") = some (.string new)
  keys : ∀ sec key, key ≠ ascii "passphrase" → t'.get sec key = t.get sec key
  peers : ∀ j ≠ i, t'.get (sectionName (ascii "openbridge") j) (ascii "passphrase") =
    t.get (sectionName (ascii "openbridge") j) (ascii "passphrase")

/-- A peer but for its passphrase. -/
def ObpPeerConfig.unkeyed (o : ObpPeerConfig) : ObpPeerConfig := { o with passphrase := [] }

section Rekeyed
variable {t t' : Toml} {i : Nat} {new : List Byte} {cfg : Config}

theorem Rekeyed.arrayLen (rekeyed : Rekeyed t t' i new) (name : List Byte) : t'.arrayLen name = t.arrayLen name := by
  rw [Toml.arrayLen, Toml.arrayLen, rekeyed.atables]

/-- A string in both files is reported in neither. -/
theorem Rekeyed.passphrase_errors (rekeyed : Rekeyed t t' i new) (j : Nat) :
    (getStr t' (sectionName (ascii "openbridge") j) (ascii "passphrase") true [] 256).errors =
      (getStr t (sectionName (ascii "openbridge") j) (ascii "passphrase") true [] 256).errors := by
  by_cases here : j = i
  · subst here
    obtain ⟨s, old⟩ := rekeyed.old
    rw [getStr, getStr, rekeyed.new, old]
  · rw [getStr, getStr, rekeyed.peers j here]

theorem Rekeyed.loadPeer (rekeyed : Rekeyed t t' i new) (j : Nat) :
    (Cc2obp.loadPeer t' j).errors = (Cc2obp.loadPeer t j).errors ∧
      (Cc2obp.loadPeer t' j).value.unkeyed = (Cc2obp.loadPeer t j).value.unkeyed := by
  have silent := rekeyed.passphrase_errors j
  have name := rekeyed.keys (sectionName (ascii "openbridge") j) (ascii "name") (by decide)
  have enabled := rekeyed.keys (sectionName (ascii "openbridge") j) (ascii "enabled") (by decide)
  have peerIp := rekeyed.keys (sectionName (ascii "openbridge") j) (ascii "peer_ip") (by decide)
  have peerPort := rekeyed.keys (sectionName (ascii "openbridge") j) (ascii "peer_port") (by decide)
  have bindPort := rekeyed.keys (sectionName (ascii "openbridge") j) (ascii "bind_port") (by decide)
  have networkId := rekeyed.keys (sectionName (ascii "openbridge") j) (ascii "network_id") (by decide)
  have preserve := rekeyed.keys (sectionName (ascii "openbridge") j) (ascii "preserve_source_peer") (by decide)
  constructor
  · simp only [Cc2obp.loadPeer, Load.errors_bind, Load.errors_pure, silent]
    simp only [getStr, getBool, getInt, name, enabled, peerIp, peerPort, bindPort, networkId, preserve]
  · simp only [Cc2obp.loadPeer, Load.value_bind, Load.value_pure, ObpPeerConfig.unkeyed, getStr, getBool, getInt, name,
      enabled, peerIp, peerPort, bindPort, networkId, preserve]

/-- A check of pairs that does not look at the passphrase. -/
theorem pairwise_unkeyed {peers peers' : List ObpPeerConfig} {p : ObpPeerConfig → ObpPeerConfig → Prop}
    (blind : ∀ a b, p a b ↔ p a.unkeyed b.unkeyed)
    (same : peers'.map ObpPeerConfig.unkeyed = peers.map ObpPeerConfig.unkeyed) : peers'.Pairwise p ↔ peers.Pairwise p := by
  have through : ∀ l : List ObpPeerConfig, l.Pairwise p ↔ (l.map ObpPeerConfig.unkeyed).Pairwise p := by
    intro l
    rw [List.pairwise_map]
    exact List.Pairwise.iff blind
  rw [through, same, ← through]

theorem findOpenbridge_unkeyed (peers : List ObpPeerConfig) (name : List Byte) :
    findOpenbridge (peers.map ObpPeerConfig.unkeyed) name = findOpenbridge peers name := by
  rw [findOpenbridge, List.findIdx?_map]
  rfl

theorem Rekeyed.peers_unkeyed (rekeyed : Rekeyed t t' i new) :
    (loadOpenbridge t').value.map ObpPeerConfig.unkeyed = (loadOpenbridge t).value.map ObpPeerConfig.unkeyed := by
  rw [loadOpenbridge_value, loadOpenbridge_value, List.map_map, List.map_map, entryCount, entryCount, rekeyed.arrayLen]
  exact List.map_congr_left fun j _ => (rekeyed.loadPeer j).2

theorem Rekeyed.openbridge_silent (rekeyed : Rekeyed t t' i new) (silent : (loadOpenbridge t).errors = []) :
    (loadOpenbridge t').errors = [] := by
  have same := rekeyed.peers_unkeyed
  rw [loadOpenbridge_value, loadOpenbridge_value] at same
  simp only [loadOpenbridge, Load.errors_bind, Load.errors_pure, errors_report, List.append_eq_nil_iff,
    mapM_load, List.flatMap_eq_nil_iff, pairErrors_nil_iff] at silent ⊢
  obtain ⟨count, entries, names, ports, -⟩ := silent
  refine ⟨?_, fun j inside => ?_, ?_, ?_, trivial⟩
  · rwa [entryCount, rekeyed.arrayLen]
  · rw [(rekeyed.loadPeer j).1]
    apply entries
    rwa [entryCount, rekeyed.arrayLen] at inside
  · exact (pairwise_unkeyed (fun a b => Iff.rfl) same).mpr names
  · exact (pairwise_unkeyed (fun a b => Iff.rfl) same).mpr ports

theorem Rekeyed.loadLink (rekeyed : Rekeyed t t' i new) (j : Nat) :
    Cc2obp.loadLink t' (loadOpenbridge t').value j = Cc2obp.loadLink t (loadOpenbridge t).value j := by
  have found : ∀ name, findOpenbridge (loadOpenbridge t').value name = findOpenbridge (loadOpenbridge t).value name := by
    intro name
    rw [← findOpenbridge_unkeyed, rekeyed.peers_unkeyed, findOpenbridge_unkeyed]
  simp (disch := decide) only [Cc2obp.loadLink, loadRemotePort, getStr, getBool, getInt, getChoice, found, rekeyed.keys]

/-- A file that loads with one passphrase loads with another, which is trimmed like the first. -/
theorem Rekeyed.loads (rekeyed : Rekeyed t t' i new) (loaded : configLoad t = .ok cfg) :
    ∃ cfg', configLoad t' = .ok cfg' ∧ cfg'.openbridge.length = cfg.openbridge.length ∧
      ∀ inside : i < cfg'.openbridge.length, cfg'.openbridge[i].passphrase = trimcpy 256 new := by
  obtain ⟨silent, rfl⟩ := configLoad_eq_ok loaded
  have links : loadLinks t' (loadOpenbridge t').value = loadLinks t (loadOpenbridge t).value := by
    have link : Cc2obp.loadLink t' (loadOpenbridge t').value = Cc2obp.loadLink t (loadOpenbridge t).value :=
      funext rekeyed.loadLink
    simp only [loadLinks, entryCount, rekeyed.arrayLen, link]
  have silent' : (loadConfig t').errors = [] := by
    simp only [loadConfig, Load.errors_bind, Load.errors_pure, List.append_eq_nil_iff, links] at silent ⊢
    simp (disch := decide) only [getStr, getChoice, getInt, rekeyed.keys] at silent ⊢
    obtain ⟨a, b, c, d, e, f, g, h, peers, rest⟩ := silent
    exact ⟨a, b, c, d, e, f, g, h, rekeyed.openbridge_silent peers, rest⟩
  have loaded' : configLoad t' = .ok (loadConfig t').value := by
    unfold configLoad
    rw [silent']
  refine ⟨(loadConfig t').value, loaded', ?_, fun inside => ?_⟩
  · rw [(configLoad_loaded loaded').nOpenbridge, (configLoad_loaded loaded).nOpenbridge, rekeyed.arrayLen]
  · rw [(configLoad_loaded loaded').peer i inside]
    simp [Cc2obp.loadPeer, getStr, rekeyed.new]

end Rekeyed

/-! ## The line in its file -/

/-- Printable ASCII of a length that fits the field. -/
structure Passphrase (p : List Byte) : Prop where
  filled : p ≠ []
  fits : p.length ≤ 255
  printable : ∀ c ∈ p, 0x20 ≤ c ∧ c ≤ 0x7E

/-- A place in a file at the start of a line in the i-th peer's table, before its passphrase. -/
structure InPeer (before : List Byte) (i : Nat) : Prop where
  start : AtLine before
  opened : ∃ p, TomlParser.readAll {} (readings before) = .ok p ∧
    p.curSection = sectionName (ascii "openbridge") i ∧ p.toml.get p.curSection (ascii "passphrase") = none

/-- A file that sets a passphrase, written as a basic string. -/
def settingPassphrase (before : List Byte) (style : KeyStyle) (w rest : List Byte) : List Byte :=
  before ++ (style.line (ascii "passphrase") (basicString w) ++ rest)

/-- A passphrase with the line that sets it. -/
structure Written (style : KeyStyle) (w : List Byte) : Prop where
  passphrase : Passphrase w
  short : (style.line (ascii "passphrase") (basicString w)).length < 1023

section File
variable {path before rest : List Byte} {style : KeyStyle} {i : Nat} {w : List Byte} {t : Toml}

theorem bareKey_passphrase : BareKey (ascii "passphrase") := ⟨by decide, by decide⟩

theorem Passphrase.notMem (passphrase : Passphrase w) {c : Byte} (other : c < 0x20) : c ∉ w := by
  intro member
  have low := (passphrase.printable c member).1
  exact absurd other (BitVec.not_lt.mpr low)

/-- The file is the lines before, the pair, and the lines behind it. -/
theorem parse_setting (path : List Byte) (start : AtLine before) (ends : AtEnd rest) (written : Written style w) :
    ∃ val, (∀ k, parseValue k val = .ok (.string (readString w))) ∧ ∀ t,
      (tomlParseFile path (some (settingPassphrase before style w rest)) = .ok t ↔ ∃ q, TomlParser.readAll {}
        (readings before ++ .pair (ascii "passphrase") val :: readings rest.tail) = .ok q ∧ q.toml = t) := by
  have nonzero : (0 : Byte) ∉ w := written.passphrase.notMem (by decide)
  have inLine := style.inLine_line bareKey_passphrase
    (newline_notMem_basicString (written.passphrase.notMem (c := 0x0A) (by decide)))
  obtain ⟨val, read, value⟩ := style.reading_string bareKey_passphrase nonzero
  refine ⟨val, value, fun t => ?_⟩
  have run : TomlParser.readAll {} (readings (settingPassphrase before style w rest)) =
      TomlParser.readAll {} (readings before ++ .pair (ascii "passphrase") val :: readings rest.tail) := by
    rw [settingPassphrase, readAll_line start inLine ends, TomlParser.readAll_append, TomlParser.readAll_append]
    congr 1
    funext q
    rw [readAll_short inLine written.short, read]
  rw [tomlParseFile_ok_iff, run]

/-- What is looked up around one entry. -/
theorem get_around (entries added : List TomlEntry) (e : TomlEntry) (atables : List (List Byte × Nat)) (sec key : List Byte) :
    Toml.get ⟨entries ++ [e] ++ added, atables⟩ sec key = (Toml.get ⟨entries, atables⟩ sec key).or
      (if e.sec = sec ∧ e.key = key then some e.val else Toml.get ⟨added, atables⟩ sec key) := by
  simp only [Toml.get, List.find?_append, Option.map_or, Option.or_assoc]
  by_cases here : e.sec = sec ∧ e.key = key
  · simp [here]
  · have other : (e.sec == sec && e.key == key) = false := by
      rw [← Bool.not_eq_true]
      simpa using here
    simp [here, other]

/-- The entry of a passphrase in the open section. -/
def passphraseEntry (p : TomlParser) (s : List Byte) : TomlEntry := ⟨p.curSection, ascii "passphrase", .string s⟩

/-- A file that is accepted with one passphrase is accepted with another. -/
theorem rekeyed_of_parsed {old : List Byte} (place : InPeer before i) (ends : AtEnd rest) (oldWritten : Written style old)
    (written : Written style w) (parsed : tomlParseFile path (some (settingPassphrase before style old rest)) = .ok t) :
    ∃ t', tomlParseFile path (some (settingPassphrase before style w rest)) = .ok t' ∧ Rekeyed t t' i (readString w) := by
  obtain ⟨p, front, opened, unset⟩ := place.opened
  obtain ⟨oldVal, oldValue, accepts⟩ := parse_setting path place.start ends oldWritten
  obtain ⟨val, value, accepts'⟩ := parse_setting path place.start ends written
  obtain ⟨q, run, rfl⟩ := (accepts t).mp parsed
  obtain ⟨p', front', behind⟩ := TomlParser.readAll_append_ok.mp run
  obtain rfl : p = p' := Except.ok.inj (front.symm.trans front')
  obtain ⟨p₁, step, tail⟩ := TomlParser.readAll_cons_ok.mp behind
  simp only [TomlParser.read, oldValue] at step
  split at step
  next room =>
    cases step
    obtain ⟨added, grown, again⟩ := readAll_entries tail
    have rerun := again (p.toml.entries ++ [passphraseEntry p (readString w)]) (by simp)
    have rerun' : p.readAll (.pair (ascii "passphrase") val :: readings rest.tail) =
        .ok { q with toml.entries := p.toml.entries ++ [passphraseEntry p (readString w)] ++ added } := by
      refine TomlParser.readAll_cons_ok.mpr ⟨_, ?_, rerun⟩
      simp only [TomlParser.read, value, if_pos room]
      rfl
    refine ⟨_, (accepts' _).mpr ⟨_, TomlParser.readAll_append_ok.mpr ⟨p, front, rerun'⟩, rfl⟩, ?_⟩
    · have sec : p.curSection = sectionName (ascii "openbridge") i := opened
      have before' : q.toml = ⟨p.toml.entries ++ [passphraseEntry p (readString old)] ++ added, q.toml.atables⟩ := by
        have whole : (ascii "passphrase").take 63 = ascii "passphrase" := by decide
        rw [whole] at grown
        rw [passphraseEntry, ← grown]
      have unset' : Toml.get ⟨p.toml.entries, q.toml.atables⟩ p.curSection (ascii "passphrase") = none := unset
      constructor
      case atables => rfl
      case old =>
        refine ⟨readString old, ?_⟩
        rw [before', get_around, ← sec, unset']
        simp [passphraseEntry]
      case new =>
        rw [get_around, ← sec, unset']
        simp [passphraseEntry]
      case keys =>
        intro sec' key' other
        rw [before', get_around, get_around]
        simp [passphraseEntry, Ne.symm other]
      case peers =>
        intro j other
        have apart : p.curSection ≠ sectionName (ascii "openbridge") j := by
          rw [sec]
          intro same
          exact other (sectionName_inj same).2.symm
        rw [before', get_around, get_around]
        simp [passphraseEntry, apart]
  · cases step

/-- A comment takes something off. -/
theorem length_stripFrom_lt {q : Quoting} (comment : hasComment q w = true) : (stripFrom q w).length < w.length := by
  induction w generalizing q with
  | nil => cases comment
  | cons c w ih =>
    rw [stripFrom]
    split
    · simp
    next other =>
      have later : hasComment (q.next c) w = true := by
        simp only [hasComment, Bool.or_eq_true] at comment
        exact comment.resolve_left (by simpa using other)
      have shorter := ih later
      simpa using shorter

theorem length_trim_le (s : List Byte) : (trim s).length ≤ s.length := by
  obtain ⟨front, back, split, -, -⟩ := trim_split s
  have lengths := congrArg List.length split
  simp only [List.length_append] at lengths
  omega

/-- What is loaded of a passphrase is the passphrase if no layer takes anything off. -/
theorem trimcpy_readString_iff (passphrase : Passphrase w) :
    trimcpy 256 (readString w) = w ↔ Trimmed w ∧ hasComment .basic w = false := by
  have fits := passphrase.fits
  unfold readString
  split
  next comment =>
    -- what is behind the hash is lost
    have shorter := length_stripFrom_lt comment
    have kept := ( List.rdropWhile_prefix isSpace (stripFrom .basic w)).length_le
    have trimmed := length_trim_le (((stripFrom .basic w).rdropWhile isSpace).take 511)
    have less : (trimcpy 256 (((stripFrom .basic w).rdropWhile isSpace).take 511)).length < w.length := by
      rw [trimcpy_eq, List.length_take]
      rw [List.length_take] at trimmed
      omega
    constructor
    · intro same
      rw [same] at less
      omega
    · rintro ⟨-, none⟩
      rw [comment] at none
      cases none
  next none =>
    have unseen : hasComment .basic w = false := by simpa using none
    have short := length_trim_le w
    rw [List.take_of_length_le (by omega), trimcpy_eq, List.take_of_length_le (by omega)]
    constructor
    · intro same
      exact ⟨same ▸ trimmed_trim w, unseen⟩
    · rintro ⟨trimmed, -⟩
      exact trim_of_trimmed trimmed

end File

/-! ## The key -/

/-- The file around a passphrase of the i-th peer is accepted with some passphrase. -/
structure OtherwiseValid (path before : List Byte) (style : KeyStyle) (rest : List Byte) (i : Nat) : Prop where
  place : InPeer before i
  ends : AtEnd rest
  accepted : ∃ other cfg, Written style other ∧
    configLoadFile path (some (settingPassphrase before style other rest)) = .ok cfg ∧ i < cfg.openbridge.length

/-- The file is accepted, and the i-th peer's HMAC key is the text. -/
def LoadsKey (path file : List Byte) (i : Nat) (w : List Byte) : Prop :=
  ∃ cfg, configLoadFile path (some file) = .ok cfg ∧ ∃ inside : i < cfg.openbridge.length, cfg.openbridge[i].passphrase = w

/-- A passphrase is the key it sets exactly when it has no blank at either end and no hash that is taken for a
comment. -/
theorem passphrase_is_key_iff (path before rest w : List Byte) (style : KeyStyle) (i : Nat)
    (valid : OtherwiseValid path before style rest i) (written : Written style w) :
    LoadsKey path (settingPassphrase before style w rest) i w ↔ Trimmed w ∧ hasComment .basic w = false := by
  obtain ⟨other, cfg, otherWritten, accepted, inside⟩ := valid.accepted
  obtain ⟨t, parsed, loaded⟩ := configLoadFile_eq_ok accepted
  obtain ⟨t', parsed', rekeyed⟩ := rekeyed_of_parsed valid.place valid.ends otherWritten written parsed
  obtain ⟨cfg', loaded', peers, key⟩ := rekeyed.loads loaded
  have accepted' : configLoadFile path (some (settingPassphrase before style w rest)) = .ok cfg' := by
    rw [configLoadFile_of_parsed parsed', loaded']
    rfl
  have inside' : i < cfg'.openbridge.length := by omega
  rw [← trimcpy_readString_iff written.passphrase, ← key inside']
  constructor
  · rintro ⟨again, same, _, is⟩
    cases accepted'.symm.trans same
    exact is
  · intro is
    exact ⟨cfg', accepted', inside', is⟩

/-- A peer around the line of its passphrase. -/
def peerHead : List Byte := ascii "[[openbridge]]\n"

def peerRest : List Byte :=
  ascii "\nname = \"a\"\npeer_ip = \"10.0.0.1\"\npeer_port = 62031\nbind_port = 62031\nnetwork_id = 1\n"

def keyedConfig (passphrase : List Byte) : Config where
  ccSiteName := ascii "cc2obp"
  ccMacAddress := ascii "000000000000"
  ccCodeRevision := ascii "10252"
  ccVersion := ascii "cc2obp"
  ccOsVersion := ascii "Linux"
  ccKeepaliveInterval := 10
  ccLinkTimeout := 35
  openbridge :=
    [{ name := ascii "a", enabled := true, peerIp := ascii "10.0.0.1", peerPort := 62031, bindPort := 62031
       networkId := 1, passphrase }]

theorem otherwiseValid_peer : OtherwiseValid [] peerHead plainStyle peerRest 0 := by
  constructor
  case place =>
    refine ⟨.inr (by decide), ⟨{ atables := [(ascii "openbridge", 1)] }, ascii "openbridge#0"⟩, ?_, ?_, ?_⟩
    all_goals decide +kernel
  case ends => exact .inr (by decide)
  case accepted =>
    refine ⟨ascii "x", keyedConfig (ascii "x"), ⟨⟨by decide, by decide, by decide⟩, by decide⟩, ?_, by decide⟩
    decide +kernel

theorem passphrase_is_key_iff_peer : LoadsKey [] (settingPassphrase peerHead plainStyle (ascii "a#b") peerRest) 0 (ascii "a#b") ↔
    Trimmed (ascii "a#b") ∧ hasComment .basic (ascii "a#b") = false :=
  passphrase_is_key_iff [] peerHead peerRest (ascii "a#b") plainStyle 0 otherwiseValid_peer
    ⟨⟨by decide, by decide, by decide⟩, by decide⟩

/-- A hash behind a quote cuts the key short. -/
theorem quoted_hash_cut : ¬∀ (path before rest w : List Byte) (style : KeyStyle) (i : Nat),
    OtherwiseValid path before style rest i → Written style w → LoadsKey path (settingPassphrase before style w rest) i w := by
  intro loads
  have written : Written plainStyle (ascii "a\"#b") := ⟨⟨by decide, by decide, by decide⟩, by decide⟩
  obtain ⟨cfg, loaded, inside, is⟩ := loads [] peerHead peerRest (ascii "a\"#b") plainStyle 0 otherwiseValid_peer written
  have cut : configLoadFile [] (some (settingPassphrase peerHead plainStyle (ascii "a\"#b") peerRest)) =
      .ok (keyedConfig (ascii "a\"")) := by decide +kernel
  cases cut.symm.trans loaded
  have keyed : ((keyedConfig (ascii "a\"")).openbridge[0]?).map ObpPeerConfig.passphrase = some (ascii "a\"#b") := by
    rw [List.getElem?_eq_getElem inside, Option.map_some, is]
  revert keyed
  decide

end Cc2obp
