import Cc2obp.Config.Blocks
import Cc2obp.Config.Entries

/-!
# Files within the limits

Blocks with legal values that break none of the documented rules. Their file loads as
long as the parser has an entry for each key and the names, as far as they are kept,
are still as distinct as they were written.
-/
namespace Cc2obp

open CString

/-! ## Legal blocks -/

/-- A string that is there, with a legal text. -/
def Block.HasString (b : Block) (key : List Byte) (legal : List Byte → Prop) : Prop :=
  ∃ w, b.get key = some (.string w) ∧ legal w

/-- An integer that is there, with a legal value. -/
def Block.HasInt (b : Block) (key : List Byte) (legal : Int → Prop) : Prop :=
  ∃ text i, b.get key = some (.int text) ∧ denoted text = some i ∧ legal i

/-- A toggle, if it is there. -/
def Block.MayBool (b : Block) (key : List Byte) : Prop := ∀ v, b.get key = some v → ∃ on, v = .bool on

def Block.text (b : Block) (key : List Byte) : List Byte :=
  match b.get key with
  | some (.string w) => w
  | _ => []

def Block.int (b : Block) (key : List Byte) : Int :=
  match b.get key with
  | some (.int text) => (denoted text).getD 0
  | _ => 0

def Block.bool (b : Block) (key : List Byte) (deflt : Bool) : Bool :=
  match b.get key with
  | some (.bool on) => on
  | _ => deflt

def Block.inbound (b : Block) : Bool := (b.text (ascii "cc_role")).map toUpper == ascii "INBOUND"

structure Block.LegalPeer (b : Block) : Prop where
  name : b.HasString (ascii "name") fun _ => True
  enabled : b.MayBool (ascii "enabled")
  peerIp : b.HasString (ascii "peer_ip") fun w => isValidIpv4 w = true
  peerPort : b.HasInt (ascii "peer_port") PortRange
  bindPort : b.HasInt (ascii "bind_port") PortRange
  networkId : b.HasInt (ascii "network_id") fun i => 0 ≤ i ∧ i ≤ 2 ^ 32 - 1
  preserveSourcePeer : b.MayBool (ascii "preserve_source_peer")
  passphrase : b.HasString (ascii "passphrase") fun _ => True

structure Block.LegalLink (b : Block) : Prop where
  name : b.HasString (ascii "name") fun _ => True
  enabled : b.MayBool (ascii "enabled")
  crossConnectActive : b.MayBool (ascii "cross_connect_active")
  tgid : b.HasInt (ascii "tgid") fun i => 0 ≤ i ∧ i ≤ intMax
  openbridgeSystem : b.HasString (ascii "openbridge_system") fun _ => True
  ccRole : b.HasString (ascii "cc_role") fun w => w.map toUpper = ascii "OUTBOUND" ∨ w.map toUpper = ascii "INBOUND"
  ccLid : b.HasInt (ascii "cc_lid") fun i => 0 ≤ i ∧ i ≤ intMax
  ccRemoteIp : b.HasString (ascii "cc_remote_ip") fun w => isValidIpv4 w = true
  ccRemotePort : b.inbound = false → b.HasInt (ascii "cc_remote_port") PortRange
  ccRemoteVoicePort : b.HasInt (ascii "cc_remote_voice_port") PortRange
  ccChannelName : b.inbound = false → b.HasString (ascii "cc_channel_name") fun _ => True
  inboundName : ∀ v, b.get (ascii "cc_channel_name") = some v → ∃ w, v = .string w

/-- Within the declared limits, with required fields and legal values, and none of the documented rules broken. -/
structure WithinLimits (blocks : List Block) : Prop where
  wellFormed : ∀ b ∈ blocks, b.WellFormed
  fewPeers : (blocksOf .openbridge blocks).length ≤ cfgMaxOpenbridge
  fewLinks : (blocksOf .link blocks).length ≤ cfgMaxLinks
  peers : ∀ b ∈ blocksOf .openbridge blocks, b.LegalPeer
  links : ∀ b ∈ blocksOf .link blocks, b.LegalLink
  peerNames : (blocksOf .openbridge blocks).Pairwise fun a b => a.text (ascii "name") ≠ b.text (ascii "name")
  bindPorts : (blocksOf .openbridge blocks).Pairwise fun a b =>
    a.bool (ascii "enabled") true → b.bool (ascii "enabled") true → a.int (ascii "bind_port") ≠ b.int (ascii "bind_port")
  linkNames : (blocksOf .link blocks).Pairwise fun a b => a.text (ascii "name") ≠ b.text (ascii "name")
  systems : ∀ l ∈ blocksOf .link blocks, ∃ p ∈ blocksOf .openbridge blocks,
    p.text (ascii "name") = l.text (ascii "openbridge_system")
  routes : (blocksOf .link blocks).Pairwise fun a b =>
    a.text (ascii "openbridge_system") = b.text (ascii "openbridge_system") → a.int (ascii "tgid") ≠ b.int (ascii "tgid")
  inbound : (blocksOf .link blocks).Pairwise fun a b => a.inbound → b.inbound →
    a.text (ascii "cc_remote_ip") = b.text (ascii "cc_remote_ip") → a.int (ascii "cc_lid") ≠ b.int (ascii "cc_lid")

/-- What is loaded of a written string. -/
def Block.loadedText (b : Block) (key : List Byte) (cap : Nat) : List Byte := trimcpy cap (readString (b.text key))

/-- As many keys as the parser has entries, and names and systems that are still distinct as they are loaded. -/
structure Loadable (blocks : List Block) : Prop where
  entries : (blocks.map fun b => b.lines.length).sum ≤ maxEntries
  peerNames : (blocksOf .openbridge blocks).Pairwise fun a b =>
    sameName (a.loadedText (ascii "name") 64) (b.loadedText (ascii "name") 64) = false
  linkNames : (blocksOf .link blocks).Pairwise fun a b =>
    sameName (a.loadedText (ascii "name") 64) (b.loadedText (ascii "name") 64) = false
  routes : (blocksOf .link blocks).Pairwise fun a b =>
    a.loadedText (ascii "openbridge_system") 64 = b.loadedText (ascii "openbridge_system") 64 →
      a.int (ascii "tgid") ≠ b.int (ascii "tgid")

/-! ## Texts that are loaded whole -/

section Plain
variable {w : List Byte}

theorem loaded_plain (visible : ∀ c ∈ w, isSpace c = false ∧ c ≠ 0x23) (short : w.length ≤ 63) :
    trimcpy 64 (readString w) = w := by
  have absent : (0x23 : Byte) ∉ w := fun member => (visible _ member).2 rfl
  have none : ¬hasComment .basic w = true := by
    rw [hasComment_of_absent absent]
    exact Bool.false_ne_true
  have trimmed : Trimmed w := by
    constructor
    · exact fun c here => (visible c (List.mem_of_mem_head? here)).1
    · exact fun c here => (visible c (List.mem_of_mem_getLast? here)).1
  rw [readString, if_neg none, List.take_of_length_le (by omega), trimcpy_eq, trim_of_trimmed trimmed,
    List.take_of_length_le (by omega)]

/-- An octet has at most three digits. -/
theorem length_octet (octet : isOctet w = true) : w.length ≤ 3 := by
  simp only [isOctet, Bool.and_eq_true, Bool.or_eq_true, decide_eq_true_eq, bne_iff_ne, beq_iff_eq, ne_eq] at octet
  obtain ⟨⟨⟨filled, digits⟩, small⟩, lead⟩ := octet
  have run : IsDigits 10 w := isDigits_iff_all.mpr digits
  rw [scanDigits_digits run] at small
  rcases lead with single | nonzero
  · omega
  · by_contra long
    obtain ⟨d, rest, rfl⟩ := List.exists_cons_of_ne_nil filled
    -- a leading digit that is not zero weighs at least a thousand
    have positive : ∀ d : Byte, (digitVal 10 d).isSome = true → d ≠ 0x30 → 1 ≤ digitsValue 10 0 [d] := by decide
    have lead := positive d (run d (by simp)) (by simpa using nonzero)
    have power : 10 ^ 3 ≤ 10 ^ rest.length := by
      rw [List.length_cons] at long
      exact Nat.pow_le_pow_right (by decide) (by omega)
    have value := digitsValue_append 10 [d] rest
    rw [List.singleton_append] at value
    have thousand := Nat.mul_le_mul lead power
    simp only at small
    omega

theorem visible_octet (octet : isOctet w = true) : ∀ c ∈ w, isSpace c = false ∧ c ≠ 0x23 := by
  simp only [isOctet, Bool.and_eq_true] at octet
  have visible : ∀ c : Byte, (digitVal 10 c).isSome = true → isSpace c = false ∧ c ≠ 0x23 := by decide
  exact fun c member => visible c (List.all_eq_true.mp octet.1.1.2 c member)

/-- An address has only digits and dots, and at most fifteen of them. -/
theorem visible_ipv4 (valid : isValidIpv4 w = true) : (∀ c ∈ w, isSpace c = false ∧ c ≠ 0x23) ∧ w.length ≤ 63 := by
  simp only [isValidIpv4, Bool.and_eq_true, beq_iff_eq, List.all_eq_true] at valid
  obtain ⟨four, octets⟩ := valid
  have whole : [0x2E].intercalate (w.splitOn 0x2E) = w := List.intercalate_splitOn 0x2E
  obtain ⟨a, b, c, d, split⟩ := List.length_eq_four.mp four
  rw [split] at octets whole
  simp only [List.forall_mem_cons, List.not_mem_nil, false_implies, implies_true, and_true] at octets
  obtain ⟨ha, hb, hc, hd⟩ := octets
  have shape : w = a ++ 0x2E :: (b ++ 0x2E :: (c ++ 0x2E :: d)) := by
    rw [← whole]
    simp [List.intercalate]
  constructor
  · intro e member
    rw [shape] at member
    simp only [List.mem_append, List.mem_cons] at member
    rcases member with first | rfl | second | rfl | third | rfl | fourth
    · exact visible_octet ha e first
    · decide
    · exact visible_octet hb e second
    · decide
    · exact visible_octet hc e third
    · decide
    · exact visible_octet hd e fourth
  · have la := length_octet ha
    have lb := length_octet hb
    have lc := length_octet hc
    have ld := length_octet hd
    rw [shape]
    simp only [List.length_append, List.length_cons]
    omega

theorem loaded_ipv4 (valid : isValidIpv4 w = true) : trimcpy 64 (readString w) = w := by
  obtain ⟨visible, short⟩ := visible_ipv4 valid
  exact loaded_plain visible short

/-- A role is loaded as it is written. -/
theorem loaded_role (role : w.map toUpper = ascii "OUTBOUND" ∨ w.map toUpper = ascii "INBOUND") :
    trimcpy 64 (readString w) = w := by
  have letters : ∀ c ∈ w.map toUpper, 0x41 ≤ c ∧ c ≤ 0x5A := by
    rcases role with outbound | inbound
    · rw [outbound]
      decide
    · rw [inbound]
      decide
  have upper : ∀ c : Byte, 0x41 ≤ toUpper c ∧ toUpper c ≤ 0x5A → isSpace c = false ∧ c ≠ 0x23 := by decide
  refine loaded_plain (fun c member => upper c (letters _ (List.mem_map_of_mem member))) ?_
  have length : w.length = 8 ∨ w.length = 7 := by
    rcases role with outbound | inbound
    · have lengths := congrArg List.length outbound
      rw [List.length_map] at lengths
      exact .inl lengths
    · have lengths := congrArg List.length inbound
      rw [List.length_map] at lengths
      exact .inr lengths
  omega

end Plain

/-! ## Reading one block -/

/-- A section in which the getters see the keys of a block. -/
def Sees (t : Toml) (sec : List Byte) (b : Block) : Prop :=
  ∀ key : List Byte, key.length < 63 → t.get sec key = (b.get key).map Literal.read

section Getters
variable {t : Toml} {sec key : List Byte} {b : Block} (sees : Sees t sec b) (short : key.length < 63)
include sees short

theorem getStr_block {legal : List Byte → Prop} (has : b.HasString key legal) (required : Bool) (deflt : List Byte) (cap : Nat) :
    getStr t sec key required deflt cap = ⟨b.loadedText key cap, []⟩ := by
  obtain ⟨w, here, -⟩ := has
  rw [getStr, sees key short, here, Block.loadedText, Block.text, here]
  rfl

theorem getInt_block {legal : Int → Prop} (has : b.HasInt key legal) (required : Bool) (deflt : Int) {mn mx : Option Int}
    (bounds : ∀ i, legal i → -(2 ^ 63) ≤ i ∧ i < 2 ^ 63 ∧ (∀ m ∈ mn, m ≤ i) ∧ ∀ m ∈ mx, i ≤ m) :
    getInt t sec key required deflt mn mx = ⟨b.int key, []⟩ := by
  obtain ⟨text, i, here, denotes, good⟩ := has
  obtain ⟨low, high, above, below⟩ := bounds i good
  have value : b.int key = i := by
    rw [Block.int, here]
    simp [denotes]
  have clamped : clamp64 i = i := by
    unfold clamp64
    omega
  have noneBelow : mn.toList.filter (i < ·) = [] := by
    simpa [List.filter_eq_nil_iff] using above
  have noneAbove : mx.toList.filter (· < i) = [] := by
    simpa [List.filter_eq_nil_iff] using below
  rw [getInt, sees key short, here, value]
  simp only [Option.map_some, Literal.read, denotes, Option.getD_some, clamped, noneBelow, noneAbove, List.map_nil,
    List.append_nil]

theorem getBool_block (may : b.MayBool key) (deflt : Bool) :
    getBool t sec key false deflt = ⟨b.bool key deflt, []⟩ := by
  rw [getBool, sees key short]
  cases here : b.get key with
  | none => simp [Block.bool, here, missing]
  | some v =>
    obtain ⟨on, rfl⟩ := may v here
    simp [Block.bool, here, Literal.read]

end Getters

theorem portRange_bounds : ∀ i, PortRange i → -(2 ^ 63) ≤ i ∧ i < 2 ^ 63 ∧ (∀ m ∈ some (1 : Int), m ≤ i) ∧
    ∀ m ∈ some (65535 : Int), i ≤ m := by
  rintro i ⟨low, high⟩
  simp only [Option.mem_some_iff, forall_eq']
  omega

theorem natural_bounds {top : Int} (small : top < 2 ^ 63) : ∀ i, 0 ≤ i ∧ i ≤ top → -(2 ^ 63) ≤ i ∧ i < 2 ^ 63 ∧
    (∀ m ∈ some (0 : Int), m ≤ i) ∧ ∀ m ∈ (none : Option Int), i ≤ m := by
  rintro i ⟨low, high⟩
  simp only [Option.mem_some_iff, forall_eq', Option.not_mem_none, false_implies, implies_true, and_true]
  omega

theorem Block.HasInt.value {b : Block} {key : List Byte} {legal : Int → Prop} (has : b.HasInt key legal) :
    legal (b.int key) := by
  obtain ⟨text, i, here, denotes, good⟩ := has
  simpa [Block.int, here, denotes] using good

theorem Block.HasString.value {b : Block} {key : List Byte} {legal : List Byte → Prop} (has : b.HasString key legal) :
    legal (b.text key) := by
  obtain ⟨w, here, good⟩ := has
  simpa [Block.text, here] using good

section Entries
variable {t : Toml} {b : Block} {i : Nat}

/-- A legal peer is loaded without an error. -/
theorem loadPeer_block (sees : Sees t (sectionName (ascii "openbridge") i) b) (legal : b.LegalPeer) :
    (loadPeer t i).errors = [] ∧ (loadPeer t i).value.name = b.loadedText (ascii "name") 64 ∧
      (loadPeer t i).value.enabled = b.bool (ascii "enabled") true ∧
      (loadPeer t i).value.bindPort = b.int (ascii "bind_port") := by
  have name := getStr_block sees (by decide) legal.name true [] 64
  have enabled := getBool_block sees (by decide) legal.enabled true
  have peerIp := getStr_block sees (by decide) legal.peerIp true [] 64
  have checked : ipv4Errors (sectionName (ascii "openbridge") i) (ascii "peer_ip") (b.loadedText (ascii "peer_ip") 64) = [] := by
    rw [ipv4Errors_nil_iff, Block.loadedText, loaded_ipv4 legal.peerIp.value]
    exact .inr legal.peerIp.value
  have peerPort := getInt_block sees (by decide) legal.peerPort true 0 portRange_bounds
  have bindPort := getInt_block sees (by decide) legal.bindPort true 0 portRange_bounds
  have networkId := getInt_block sees (by decide) legal.networkId true 0 (natural_bounds (by decide))
  have preserve := getBool_block sees (by decide) legal.preserveSourcePeer false
  have passphrase := getStr_block sees (by decide) legal.passphrase true [] 256
  have port : toCInt (b.int (ascii "bind_port")) = b.int (ascii "bind_port") := by
    obtain ⟨low, high⟩ := legal.bindPort.value
    exact toCInt_small _ (by omega) (by unfold intMax; omega)
  simp [loadPeer, name, enabled, peerIp, checked, peerPort, bindPort, networkId, preserve, passphrase, port]

theorem getChoice_block (sees : Sees t (sectionName (ascii "link") i) b) (legal : b.LegalLink) :
    getChoice t (sectionName (ascii "link") i) (ascii "cc_role") true (ascii "OUTBOUND") [ascii "OUTBOUND", ascii "INBOUND"] =
      ⟨if b.inbound then ascii "INBOUND" else ascii "OUTBOUND", []⟩ := by
  obtain ⟨w, here, role⟩ := legal.ccRole
  have written : b.text (ascii "cc_role") = w := by simp [Block.text, here]
  rw [getChoice, sees _ (by decide), here, Block.inbound, written]
  simp only [Option.map_some, Literal.read, loaded_role role]
  rcases role with outbound | inbound
  · rw [outbound]
    rfl
  · rw [inbound]
    rfl

/-- What a link that is loaded without an error has of its block. -/
structure LinkOf (peers : List ObpPeerConfig) (b : Block) (l : LinkConfig) : Prop where
  name : l.name = b.loadedText (ascii "name") 64
  tgid : l.tgid = b.int (ascii "tgid")
  openbridgeIdx : l.openbridgeIdx = findOpenbridge peers (b.loadedText (ascii "openbridge_system") 64)
  ccRole : l.ccRole = if b.inbound then .inbound else .outbound
  ccLid : l.ccLid = b.int (ascii "cc_lid")
  ccRemoteIp : l.ccRemoteIp = b.text (ascii "cc_remote_ip")

/-- A legal link is loaded without an error once its system is found. -/
theorem loadLink_block {peers : List ObpPeerConfig} (sees : Sees t (sectionName (ascii "link") i) b) (legal : b.LegalLink)
    (found : findOpenbridge peers (b.loadedText (ascii "openbridge_system") 64) ≠ none) :
    (loadLink t peers i).errors = [] ∧ LinkOf peers b (loadLink t peers i).value := by
  have name := getStr_block sees (by decide) legal.name true [] 64
  have enabled := getBool_block sees (by decide) legal.enabled true
  have active := getBool_block sees (by decide) legal.crossConnectActive true
  have tgid := getInt_block sees (by decide) legal.tgid true 0 (natural_bounds (by decide))
  have system := getStr_block sees (by decide) legal.openbridgeSystem true [] 64
  have role := getChoice_block sees legal
  have lid := getInt_block sees (by decide) legal.ccLid true 0 (natural_bounds (by decide))
  have ip := getStr_block sees (by decide) legal.ccRemoteIp true [] 64
  have whole : b.loadedText (ascii "cc_remote_ip") 64 = b.text (ascii "cc_remote_ip") := loaded_ipv4 legal.ccRemoteIp.value
  have checked : ipv4Errors (sectionName (ascii "link") i) (ascii "cc_remote_ip") (b.text (ascii "cc_remote_ip")) = [] :=
    (ipv4Errors_nil_iff _ _ _).mpr (.inr legal.ccRemoteIp.value)
  have voice := getInt_block sees (by decide) legal.ccRemoteVoicePort true 0 portRange_bounds
  have small : ∀ {key}, b.HasInt key (fun i => 0 ≤ i ∧ i ≤ intMax) → toCInt (b.int key) = b.int key :=
    fun has => toCInt_small _ has.value.1 has.value.2
  rw [whole] at ip
  cases inbound : b.inbound with
  | true =>
    have channel : (getStr t (sectionName (ascii "link") i) (ascii "cc_channel_name") false [] 128).errors = [] := by
      rw [getStr, sees _ (by decide)]
      cases here : b.get (ascii "cc_channel_name") with
      | none => rfl
      | some v =>
        obtain ⟨w, rfl⟩ := legal.inboundName v here
        rfl
    rw [inbound, if_pos rfl] at role
    have optional : (CcRole.inbound == CcRole.outbound) = false := by decide
    constructor
    · simp [loadLink, name, enabled, active, tgid, system, found, role, lid, ip, checked, loadRemotePort, voice, optional, channel]
    · constructor
      case name => simp [loadLink, name]
      case tgid => simp [loadLink, tgid, small legal.tgid]
      case openbridgeIdx => simp [loadLink, system]
      case ccRole => simp [loadLink, role, inbound]
      case ccLid => simp [loadLink, lid, small legal.ccLid]
      case ccRemoteIp => simp [loadLink, ip]
  | false =>
    have remotePort := getInt_block sees (by decide) (legal.ccRemotePort inbound) true 0 portRange_bounds
    have channel := getStr_block sees (by decide) (legal.ccChannelName inbound) true [] 128
    rw [inbound, if_neg Bool.false_ne_true] at role
    have other : ascii "OUTBOUND" ≠ ascii "INBOUND" := by decide
    constructor
    · simp [loadLink, name, enabled, active, tgid, system, found, role, other, lid, ip, checked, loadRemotePort, remotePort,
        voice, channel]
    · constructor
      case name => simp [loadLink, name]
      case tgid => simp [loadLink, tgid, small legal.tgid]
      case openbridgeIdx => simp [loadLink, system]
      case ccRole => simp [loadLink, role, other, inbound]
      case ccLid => simp [loadLink, lid, small legal.ccLid]
      case ccRemoteIp => simp [loadLink, ip]

end Entries

/-! ## The whole file -/

/-- Two lists whose entries go together are pairwise related together. -/
theorem pairwise_aligned {α β : Type} {as : List α} {bs : List β} {P : α → α → Prop} {Q : β → β → Prop}
    (length : as.length = bs.length)
    (related : ∀ i j (hi : i < as.length) (hj : j < as.length) (hi' : i < bs.length) (hj' : j < bs.length),
      P as[i] as[j] ↔ Q bs[i] bs[j]) : as.Pairwise P ↔ bs.Pairwise Q := by
  rw [List.pairwise_iff_getElem, List.pairwise_iff_getElem]
  constructor
  · intro first i j hi hj before
    exact (related i j (by omega) (by omega) hi hj).mp (first i j (by omega) (by omega) before)
  · intro second i j hi hj before
    exact (related i j hi hj (by omega) (by omega)).mpr (second i j (by omega) (by omega) before)

section File
variable {t : Toml} {blocks : List Block}

theorem Parsed.sees (parsed : Parsed t blocks) (kind : BlockKind) {i : Nat} (inside : i < (blocksOf kind blocks).length)
    (few : (blocksOf kind blocks).length ≤ 2 ^ 31) : Sees t (sectionName kind.name i) (blocksOf kind blocks)[i] :=
  fun key whole => parsed.keys kind i inside (by omega) key whole

section Peers
variable (parsed : Parsed t blocks) (limits : WithinLimits blocks)
include parsed limits

theorem peer_of_block {i : Nat} (inside : i < (blocksOf .openbridge blocks).length) :
    (loadPeer t i).errors = [] ∧
      (loadPeer t i).value.name = (blocksOf .openbridge blocks)[i].loadedText (ascii "name") 64 ∧
      (loadPeer t i).value.enabled = (blocksOf .openbridge blocks)[i].bool (ascii "enabled") true ∧
      (loadPeer t i).value.bindPort = (blocksOf .openbridge blocks)[i].int (ascii "bind_port") := by
  have few : (blocksOf .openbridge blocks).length ≤ 2 ^ 31 := limits.fewPeers.trans (by decide)
  exact loadPeer_block (parsed.sees .openbridge inside few) (limits.peers _ (List.getElem_mem inside))

theorem openbridge_value :
    (loadOpenbridge t).value = (List.range (blocksOf .openbridge blocks).length).map fun i => (loadPeer t i).value := by
  have count : t.arrayLen (ascii "openbridge") = (blocksOf .openbridge blocks).length := parsed.count .openbridge
  rw [loadOpenbridge_value, entryCount, count, min_eq_left limits.fewPeers]

/-- The peers load exactly when no two names are loaded alike. -/
theorem openbridge_silent_iff : (loadOpenbridge t).errors = [] ↔ (blocksOf .openbridge blocks).Pairwise fun a b =>
    sameName (a.loadedText (ascii "name") 64) (b.loadedText (ascii "name") 64) = false := by
  have count : t.arrayLen (ascii "openbridge") = (blocksOf .openbridge blocks).length := parsed.count .openbridge
  have fits := limits.fewPeers
  have names : ((List.range (blocksOf .openbridge blocks).length).map fun i => (loadPeer t i).value).Pairwise
      (fun a b => sameName a.name b.name = false) ↔ (blocksOf .openbridge blocks).Pairwise fun a b =>
        sameName (a.loadedText (ascii "name") 64) (b.loadedText (ascii "name") 64) = false := by
    refine pairwise_aligned (by simp) fun i j _ _ hi hj => ?_
    rw [List.getElem_map, List.getElem_map, List.getElem_range, List.getElem_range,
      (peer_of_block parsed limits hi).2.1, (peer_of_block parsed limits hj).2.1]
  have ports : ((List.range (blocksOf .openbridge blocks).length).map fun i => (loadPeer t i).value).Pairwise
      fun a b => sharesBindPort a b = false := by
    refine (pairwise_aligned (by simp) fun i j _ _ hi hj => ?_).mpr limits.bindPorts
    obtain ⟨-, -, enabled, port⟩ := peer_of_block parsed limits hi
    obtain ⟨-, -, enabled', port'⟩ := peer_of_block parsed limits hj
    rw [List.getElem_map, List.getElem_map, List.getElem_range, List.getElem_range, sharesBindPort, enabled, enabled', port,
      port']
    simp only [Bool.and_eq_false_iff, beq_eq_false_iff_ne, ne_eq]
    cases (blocksOf .openbridge blocks)[i].bool (ascii "enabled") true <;>
      cases (blocksOf .openbridge blocks)[j].bool (ascii "enabled") true <;> simp
  have entries : ∀ i ∈ List.range (blocksOf .openbridge blocks).length, (loadPeer t i).errors = [] :=
    fun i member => (peer_of_block parsed limits (List.mem_range.mp member)).1
  have counted : entryCount t (ascii "openbridge") cfgMaxOpenbridge = ⟨(blocksOf .openbridge blocks).length, []⟩ := by
    rw [entryCount, count, min_eq_left fits, if_neg (by omega)]
  simp only [loadOpenbridge, counted, Load.errors_bind, Load.errors_pure, errors_report, List.append_eq_nil_iff,
    mapM_load, List.flatMap_eq_nil_iff, pairErrors_nil_iff, names]
  simp only [ports, and_true, true_and]
  exact and_iff_right entries

theorem system_found {l : Block} (member : l ∈ blocksOf .link blocks) :
    findOpenbridge (loadOpenbridge t).value (l.loadedText (ascii "openbridge_system") 64) ≠ none := by
  obtain ⟨p, inside, same⟩ := limits.systems l member
  obtain ⟨i, hi, rfl⟩ := List.mem_iff_getElem.mp inside
  rw [findOpenbridge, Ne, List.findIdx?_eq_none_iff, openbridge_value parsed limits]
  intro none
  have other := none (loadPeer t i).value (List.mem_map_of_mem (List.mem_range.mpr hi))
  rw [(peer_of_block parsed limits hi).2.1, Block.loadedText, same, Block.loadedText] at other
  simp at other

theorem link_of_block {i : Nat} (inside : i < (blocksOf .link blocks).length) :
    (loadLink t (loadOpenbridge t).value i).errors = [] ∧
      LinkOf (loadOpenbridge t).value (blocksOf .link blocks)[i] (loadLink t (loadOpenbridge t).value i).value := by
  have few : (blocksOf .link blocks).length ≤ 2 ^ 31 := limits.fewLinks.trans (by decide)
  have member := List.getElem_mem inside
  exact loadLink_block (parsed.sees .link inside few) (limits.links _ member) (system_found parsed limits member)

end Peers

/-- Systems that are found are the same peer exactly when they are the same name. -/
theorem findOpenbridge_inj {peers : List ObpPeerConfig} {s s' : List Byte} (found : findOpenbridge peers s ≠ none) :
    findOpenbridge peers s = findOpenbridge peers s' ↔ s = s' := by
  constructor
  · intro same
    obtain ⟨p, here⟩ := Option.ne_none_iff_exists'.mp found
    obtain ⟨inside, name⟩ := findOpenbridge_named here
    obtain ⟨_, name'⟩ := findOpenbridge_named (same ▸ here)
    exact name.symm.trans name'
  · rintro rfl
    rfl

/-- The links load exactly when no two names and no two routes are loaded alike. -/
theorem links_silent_iff (parsed : Parsed t blocks) (limits : WithinLimits blocks) :
    (loadLinks t (loadOpenbridge t).value).errors = [] ↔
      ((blocksOf .link blocks).Pairwise fun a b =>
        sameName (a.loadedText (ascii "name") 64) (b.loadedText (ascii "name") 64) = false) ∧
      (blocksOf .link blocks).Pairwise fun a b =>
        a.loadedText (ascii "openbridge_system") 64 = b.loadedText (ascii "openbridge_system") 64 →
          a.int (ascii "tgid") ≠ b.int (ascii "tgid") := by
  have count : t.arrayLen (ascii "link") = (blocksOf .link blocks).length := parsed.count .link
  have fits := limits.fewLinks
  have link := fun i hi => link_of_block (i := i) parsed limits hi
  have names : ((List.range (blocksOf .link blocks).length).map fun i => (loadLink t (loadOpenbridge t).value i).value).Pairwise
      (fun a b => sameName a.name b.name = false) ↔ (blocksOf .link blocks).Pairwise fun a b =>
        sameName (a.loadedText (ascii "name") 64) (b.loadedText (ascii "name") 64) = false := by
    refine pairwise_aligned (by simp) fun i j _ _ hi hj => ?_
    rw [List.getElem_map, List.getElem_map, List.getElem_range, List.getElem_range, (link i hi).2.name, (link j hj).2.name]
  have routes : ((List.range (blocksOf .link blocks).length).map fun i => (loadLink t (loadOpenbridge t).value i).value).Pairwise
      (fun a b => sameRoute a b = false) ↔ (blocksOf .link blocks).Pairwise fun a b =>
        a.loadedText (ascii "openbridge_system") 64 = b.loadedText (ascii "openbridge_system") 64 →
          a.int (ascii "tgid") ≠ b.int (ascii "tgid") := by
    refine pairwise_aligned (by simp) fun i j _ _ hi hj => ?_
    have found := system_found parsed limits (List.getElem_mem hi)
    rw [List.getElem_map, List.getElem_map, List.getElem_range, List.getElem_range, sameRoute, (link i hi).2.openbridgeIdx,
      (link j hj).2.openbridgeIdx, (link i hi).2.tgid, (link j hj).2.tgid, ← findOpenbridge_inj found]
    obtain ⟨p, here⟩ := Option.ne_none_iff_exists'.mp found
    rw [here]
    simp only [Option.isSome_some, Bool.true_and, Bool.and_eq_false_iff, beq_eq_false_iff_ne, ne_eq, imp_iff_not_or]
  have inbound : ((List.range (blocksOf .link blocks).length).map fun i =>
      (loadLink t (loadOpenbridge t).value i).value).Pairwise fun a b => sameInbound a b = false := by
    refine (pairwise_aligned (by simp) fun i j _ _ hi hj => ?_).mpr limits.inbound
    rw [List.getElem_map, List.getElem_map, List.getElem_range, List.getElem_range, sameInbound, (link i hi).2.ccRole,
      (link j hj).2.ccRole, (link i hi).2.ccRemoteIp, (link j hj).2.ccRemoteIp, (link i hi).2.ccLid, (link j hj).2.ccLid]
    cases (blocksOf .link blocks)[i].inbound <;> cases (blocksOf .link blocks)[j].inbound <;> simp [imp_iff_not_or]
  have entries : ∀ i ∈ List.range (blocksOf .link blocks).length, (loadLink t (loadOpenbridge t).value i).errors = [] :=
    fun i member => (link i (List.mem_range.mp member)).1
  have counted : entryCount t (ascii "link") cfgMaxLinks = ⟨(blocksOf .link blocks).length, []⟩ := by
    rw [entryCount, count, min_eq_left fits, if_neg (by omega)]
  simp only [loadLinks, counted, Load.errors_bind, Load.errors_pure, errors_report, List.append_eq_nil_iff,
    mapM_load, List.flatMap_eq_nil_iff, pairErrors_nil_iff, names, routes]
  simp only [inbound, and_true, true_and]
  exact and_iff_right entries

/-- A file of blocks, once parsed, loads exactly when nothing is reported of its peers and links. -/
theorem configLoad_blocks_iff (parsed : Parsed t blocks) :
    (∃ cfg, configLoad t = .ok cfg ∧ cfg.openbridge.length = (blocksOf .openbridge blocks).length ∧
        cfg.link.length = (blocksOf .link blocks).length) ↔
      (loadOpenbridge t).errors = [] ∧ (loadLinks t (loadOpenbridge t).value).errors = [] := by
  have silent : (loadConfig t).errors = (loadOpenbridge t).errors ++ (loadLinks t (loadOpenbridge t).value).errors := by
    simp [loadConfig, getStr, getChoice, getInt, parsed.glob, missing]
  constructor
  · rintro ⟨cfg, loaded, -⟩
    have none := (configLoad_eq_ok loaded).1
    rwa [silent, List.append_eq_nil_iff] at none
  · rintro ⟨peers, links⟩
    have loaded : configLoad t = .ok (loadConfig t).value := by
      have none : (loadConfig t).errors = [] := by rw [silent, peers, links, List.nil_append]
      unfold configLoad
      rw [none]
    have entries := configLoad_loaded loaded
    exact ⟨_, loaded, entries.nOpenbridge.trans (parsed.count .openbridge), entries.nLink.trans (parsed.count .link)⟩

end File

/-- A file of blocks within the limits loads, with all its peers and links, exactly when the parser has room for its
keys and the names are still distinct as they are loaded. -/
theorem within_limits_loads_iff (path : List Byte) (blocks : List Block) (limits : WithinLimits blocks) :
    (∃ cfg, configLoadFile path (some (fileOf blocks)) = .ok cfg ∧
        cfg.openbridge.length = (blocksOf .openbridge blocks).length ∧
        cfg.link.length = (blocksOf .link blocks).length) ↔ Loadable blocks := by
  have wellFormed := limits.wellFormed
  constructor
  · rintro ⟨cfg, accepted, counts⟩
    obtain ⟨t, parse, loaded⟩ := configLoadFile_eq_ok accepted
    have parsed := parsed_of_parse wellFormed parse
    obtain ⟨peers, links⟩ := (configLoad_blocks_iff parsed).mp ⟨cfg, loaded, counts⟩
    obtain ⟨linkNames, routes⟩ := (links_silent_iff parsed limits).mp links
    exact ⟨(parse_fileOf_iff path wellFormed).mp ⟨t, parse⟩, (openbridge_silent_iff parsed limits).mp peers, linkNames, routes⟩
  · rintro ⟨room, peerNames, linkNames, routes⟩
    obtain ⟨t, parse⟩ := (parse_fileOf_iff path wellFormed).mpr room
    have parsed := parsed_of_parse wellFormed parse
    obtain ⟨cfg, loaded, counts⟩ := (configLoad_blocks_iff parsed).mpr
      ⟨(openbridge_silent_iff parsed limits).mpr peerNames, (links_silent_iff parsed limits).mpr ⟨linkNames, routes⟩⟩
    refine ⟨cfg, ?_, counts⟩
    rw [configLoadFile_of_parsed parse, loaded]
    rfl

/-! ## Links with every key -/

def hubPeer : Block where
  kind := .openbridge
  style := plainStyle
  lines :=
    [⟨ascii "name", .string (ascii "hub"), plainStyle⟩, ⟨ascii "peer_ip", .string (ascii "10.0.0.1"), plainStyle⟩,
      ⟨ascii "peer_port", .int (ascii "62031"), plainStyle⟩, ⟨ascii "bind_port", .int (ascii "62031"), plainStyle⟩,
      ⟨ascii "network_id", .int (ascii "1"), plainStyle⟩, ⟨ascii "passphrase", .string (ascii "x"), plainStyle⟩]

/-- An outbound link with all of its keys, as in the sample. -/
def fullLink (i : Nat) : Block where
  kind := .link
  style := plainStyle
  lines :=
    [⟨ascii "name", .string (fmtNat 10 i), plainStyle⟩, ⟨ascii "enabled", .bool true, plainStyle⟩,
      ⟨ascii "cross_connect_active", .bool true, plainStyle⟩, ⟨ascii "tgid", .int (fmtInt i), plainStyle⟩,
      ⟨ascii "openbridge_system", .string (ascii "hub"), plainStyle⟩,
      ⟨ascii "cc_role", .string (ascii "outbound"), plainStyle⟩, ⟨ascii "cc_lid", .int (ascii "1"), plainStyle⟩,
      ⟨ascii "cc_remote_ip", .string (ascii "10.0.0.1"), plainStyle⟩,
      ⟨ascii "cc_remote_port", .int (ascii "42421"), plainStyle⟩,
      ⟨ascii "cc_remote_voice_port", .int (ascii "42422"), plainStyle⟩,
      ⟨ascii "cc_channel_name", .string (ascii "c"), plainStyle⟩]

def manyLinks (n : Nat) : List Block := hubPeer :: (List.range n).map fullLink

theorem blocksOf_openbridge_manyLinks (n : Nat) : blocksOf .openbridge (manyLinks n) = [hubPeer] := by
  have none : ((List.range n).map fullLink).filter (fun b => b.kind == .openbridge) = [] := by
    rw [List.filter_eq_nil_iff]
    intro b member
    obtain ⟨i, -, rfl⟩ := List.mem_map.mp member
    simp [fullLink]
  rw [blocksOf, manyLinks, List.filter_cons, none]
  rfl

theorem blocksOf_link_manyLinks (n : Nat) : blocksOf .link (manyLinks n) = (List.range n).map fullLink := by
  have all : ((List.range n).map fullLink).filter (fun b => b.kind == .link) = (List.range n).map fullLink := by
    rw [List.filter_eq_self]
    intro b member
    obtain ⟨i, -, rfl⟩ := List.mem_map.mp member
    rfl
  rw [blocksOf, manyLinks, List.filter_cons, all]
  rfl

theorem legalPeer_hubPeer : hubPeer.LegalPeer := by
  constructor
  case name => exact ⟨_, rfl, trivial⟩
  case enabled => exact fun v here => by cases here
  case peerIp => exact ⟨_, rfl, by decide⟩
  case peerPort => exact ⟨_, 62031, rfl, by decide, ⟨by decide, by decide⟩⟩
  case bindPort => exact ⟨_, 62031, rfl, by decide, ⟨by decide, by decide⟩⟩
  case networkId => exact ⟨_, 1, rfl, by decide, by decide⟩
  case preserveSourcePeer => exact fun v here => by cases here
  case passphrase => exact ⟨_, rfl, trivial⟩

theorem wellFormed_hubPeer : hubPeer.WellFormed := ⟨by decide, by decide, by decide⟩

theorem fmtNat_byte {i : Nat} : ∀ c ∈ fmtNat 10 i, c ≠ 0 ∧ c ≠ 0x0A ∧ c ≠ 0x5F ∧ integerByte c = true := by
  have digits : IsDigits 10 (fmtNat 10 i) := isDigits_fmtNat (by decide) (by decide) i
  have plain : ∀ c : Byte, (digitVal 10 c).isSome = true → c ≠ 0 ∧ c ≠ 0x0A ∧ c ≠ 0x5F ∧ integerByte c = true := by decide
  exact fun c member => plain c (digits c member)

theorem significant_fmtInt (i : Nat) : fmtInt i = fmtNat 10 i ∧ significant (fmtInt i) = fmtInt i := by
  have printed : fmtInt i = fmtNat 10 i := by
    rw [fmtInt, if_neg (by omega), Int.natAbs_natCast]
  refine ⟨printed, ?_⟩
  rw [printed, significant, List.filter_eq_self]
  intro c member
  simpa using (fmtNat_byte c member).2.2.1

theorem denoted_fmtInt (i : Nat) : denoted (fmtInt i) = some (i : Int) := by
  rw [denoted, (significant_fmtInt i).2, exactInt_fmtInt]

theorem length_fmtInt_small {i : Nat} (small : i < 1000) : (fmtInt i).length ≤ 3 := by
  rw [(significant_fmtInt i).1]
  exact length_fmtNat_le (by decide) (by decide) small

theorem wellFormed_fmtInt {i : Nat} (small : i < 1000) : (Literal.int (fmtInt i)).WellFormed := by
  have length := length_fmtInt_small small
  refine ⟨?_, ?_, ?_⟩
  · rw [(significant_fmtInt i).1]
    exact fun c member => (fmtNat_byte c member).2.2.2
  · rw [(significant_fmtInt i).2]
    omega
  · rw [denoted_fmtInt]
    rfl

theorem length_escape_le (w : List Byte) : (escape w).length ≤ 2 * w.length := by
  induction w with
  | nil => exact le_rfl
  | cons c w ih =>
    have one : (escapeByte c).length ≤ 2 := by
      unfold escapeByte
      split <;> simp
    rw [escape_cons, List.length_append, List.length_cons]
    omega

theorem length_plainLine (key literal : List Byte) : (plainStyle.line key literal).length = key.length + literal.length + 3 := by
  simp only [KeyStyle.line, plainStyle, List.length_append, List.length_cons, List.length_nil]
  omega

theorem wellFormed_fullLink {i : Nat} (small : i < 1000) : (fullLink i).WellFormed := by
  have length := length_fmtInt_small small
  have name : (Literal.string (fmtNat 10 i)).WellFormed :=
    ⟨fun member => (fmtNat_byte _ member).1 rfl, fun member => (fmtNat_byte _ member).2.1 rfl⟩
  have tgid := wellFormed_fmtInt small
  constructor
  case keys =>
    simp only [fullLink, List.forall_mem_cons]
    decide
  case values =>
    simp only [fullLink, List.forall_mem_cons]
    refine ⟨name, by decide, by decide, tgid, ?_⟩
    decide
  case short =>
    have escaped := length_escape_le (fmtNat 10 i)
    rw [(significant_fmtInt i).1] at length
    have nameLine : (plainStyle.line (ascii "name") (basicString (fmtNat 10 i))).length < 1023 := by
      have key : (ascii "name").length = 4 := by decide
      rw [length_plainLine, key, basicString, List.length_cons, List.length_append, List.length_singleton]
      omega
    have tgidLine : (plainStyle.line (ascii "tgid") (fmtInt i)).length < 1023 := by
      have key : (ascii "tgid").length = 4 := by decide
      rw [length_plainLine, key, (significant_fmtInt i).1]
      omega
    have header : (fullLink i).header.length < 1023 := by
      have same : (fullLink i).header = ascii "[[link]]" := rfl
      rw [same]
      decide
    refine List.forall_mem_cons.mpr ⟨header, ?_⟩
    simp only [fullLink, List.map_cons, List.forall_mem_cons]
    refine ⟨nameLine, by decide, by decide, tgidLine, ?_⟩
    decide

theorem legalLink_fullLink {i : Nat} (small : i < 1000) : (fullLink i).LegalLink := by
  constructor
  case name => exact ⟨_, rfl, trivial⟩
  case enabled => exact fun v here => ⟨true, (Option.some.inj here).symm⟩
  case crossConnectActive => exact fun v here => ⟨true, (Option.some.inj here).symm⟩
  case tgid => exact ⟨_, i, rfl, denoted_fmtInt i, by omega, by unfold intMax; omega⟩
  case openbridgeSystem => exact ⟨_, rfl, trivial⟩
  case ccRole => exact ⟨_, rfl, by decide⟩
  case ccLid => exact ⟨_, 1, rfl, by decide, by decide, by decide⟩
  case ccRemoteIp => exact ⟨_, rfl, by decide⟩
  case ccRemotePort => exact fun _ => ⟨_, 42421, rfl, by decide, ⟨by decide, by decide⟩⟩
  case ccRemoteVoicePort => exact ⟨_, 42422, rfl, by decide, ⟨by decide, by decide⟩⟩
  case ccChannelName => exact fun _ => ⟨_, rfl, trivial⟩
  case inboundName => exact fun v here => ⟨_, (Option.some.inj here).symm⟩

theorem fmtNat_inj {i j : Nat} (same : fmtNat 10 i = fmtNat 10 j) : i = j := by
  have values := congrArg (digitsValue 10 0) same
  rwa [digitsValue_fmtNat (by decide) (by decide), digitsValue_fmtNat (by decide) (by decide)] at values

theorem withinLimits_manyLinks {n : Nat} (few : n ≤ cfgMaxLinks) : WithinLimits (manyLinks n) := by
  have small : ∀ i ∈ List.range n, i < 1000 := by
    intro i member
    have below := List.mem_range.mp member
    unfold cfgMaxLinks at few
    omega
  have peers := blocksOf_openbridge_manyLinks n
  have links := blocksOf_link_manyLinks n
  have distinct : (List.range n).Pairwise (· ≠ ·) := List.nodup_range
  have single : ∀ {p : Block → Block → Prop}, [hubPeer].Pairwise p := List.pairwise_singleton _ _
  constructor
  case wellFormed =>
    refine List.forall_mem_cons.mpr ⟨wellFormed_hubPeer, fun b member => ?_⟩
    obtain ⟨i, inside, rfl⟩ := List.mem_map.mp member
    exact wellFormed_fullLink (small i inside)
  case fewPeers =>
    rw [peers]
    decide
  case fewLinks =>
    rw [links, List.length_map, List.length_range]
    exact few
  case peers =>
    rw [peers]
    exact List.forall_mem_singleton.mpr legalPeer_hubPeer
  case links =>
    rw [links]
    intro b member
    obtain ⟨i, inside, rfl⟩ := List.mem_map.mp member
    exact legalLink_fullLink (small i inside)
  case peerNames => exact peers ▸ single
  case bindPorts => exact peers ▸ single
  case linkNames =>
    rw [links, List.pairwise_map]
    exact distinct.imp fun other same => other (fmtNat_inj same)
  case systems =>
    rw [links, peers]
    intro l member
    obtain ⟨i, -, rfl⟩ := List.mem_map.mp member
    exact ⟨hubPeer, by simp, rfl⟩
  case routes =>
    have tgid : ∀ i, (fullLink i).int (ascii "tgid") = i := by
      intro i
      have here : (fullLink i).get (ascii "tgid") = some (.int (fmtInt i)) := rfl
      rw [Block.int, here]
      simp [denoted_fmtInt]
    rw [links, List.pairwise_map]
    refine distinct.imp fun other _ same => ?_
    rw [tgid, tgid] at same
    omega
  case inbound =>
    have outbound : ∀ i, (fullLink i).inbound = false := fun _ => rfl
    rw [links, List.pairwise_map]
    refine distinct.imp fun _ inbound => ?_
    rw [outbound] at inbound
    cases inbound

theorem within_limits_loads_iff_manyLinks :
    (∃ cfg, configLoadFile [] (some (fileOf (manyLinks 2))) = .ok cfg ∧
        cfg.openbridge.length = (blocksOf .openbridge (manyLinks 2)).length ∧
        cfg.link.length = (blocksOf .link (manyLinks 2)).length) ↔ Loadable (manyLinks 2) :=
  within_limits_loads_iff [] (manyLinks 2) (withinLimits_manyLinks (by decide))

/-- Ninety-four links with all their keys are too many for the parser. -/
theorem full_links_refused : ¬∀ (path : List Byte) (blocks : List Block), WithinLimits blocks →
    ∃ cfg, configLoadFile path (some (fileOf blocks)) = .ok cfg ∧
      cfg.openbridge.length = (blocksOf .openbridge blocks).length ∧ cfg.link.length = (blocksOf .link blocks).length := by
  intro loads
  have limits : WithinLimits (manyLinks 94) := withinLimits_manyLinks (by decide)
  obtain ⟨cfg, accepted, -⟩ := loads [] (manyLinks 94) limits
  obtain ⟨t, parsed, -⟩ := configLoadFile_eq_ok accepted
  have fits := (parse_fileOf_iff [] limits.wellFormed).mp ⟨t, parsed⟩
  have keys : ((manyLinks 94).map fun b => b.lines.length).sum = 6 + 94 * 11 := by decide +kernel
  rw [keys] at fits
  exact absurd fits (by decide)

end Cc2obp
