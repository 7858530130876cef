import Cc2obp.Config
import Cc2obp.Lib.CString

/-!
# Loading the configuration

`config_load` on a parsed file: typed getters that report into an error
accumulator, the two arrays of tables, and the rules across entries. A file is
accepted when nothing was reported.
-/
namespace Cc2obp

open CString

/-! ## The parsed file -/

inductive TomlScalar where
  | string (s : List Byte)
  | int (i : Int)
  | bool (b : Bool)
deriving DecidableEq

inductive TomlValue where
  | string (s : List Byte)
  | int (i : Int)
  | bool (b : Bool)
  | array (elems : List TomlScalar)
deriving DecidableEq

structure TomlEntry where
  sec : List Byte
  key : List Byte
  val : TomlValue
deriving DecidableEq

/-- The entries of a file in order, and how many tables each array of tables has. -/
structure Toml where
  entries : List TomlEntry := []
  atables : List (List Byte × Nat) := []
deriving DecidableEq

/-- `toml_get`: the first entry of the key counts. -/
def Toml.get (t : Toml) (sec key : List Byte) : Option TomlValue :=
  (t.entries.find? fun e => e.sec == sec && e.key == key).map TomlEntry.val

/-- `toml_array_len`. -/
def Toml.arrayLen (t : Toml) (name : List Byte) : Nat :=
  ((t.atables.find? fun a => a.1 == name).map Prod.snd).getD 0

/-! ## The error accumulator -/

inductive ConfigError where
  | required (sec key : List Byte)
  | notString (sec key : List Byte)
  | notInteger (sec key : List Byte)
  | notBool (sec key : List Byte)
  | badChoice (sec key value : List Byte)
  | below (sec key : List Byte) (bound got : Int)
  | above (sec key : List Byte) (bound got : Int)
  | notIpv4 (sec key value : List Byte)
  | tooMany (array : List Byte) (count max : Nat)
  | duplicateName (array name : List Byte) (i j : Nat)
  | sharedBindPort (name name' : List Byte) (port : Int)
  | noOpenbridge (sec name : List Byte)
  | duplicateRoute (system : List Byte) (tgid : Int) (name name' : List Byte)
  | duplicateInbound (ip : List Byte) (lid : Int) (name name' : List Byte)
deriving DecidableEq

/-- A dash and the blanks around it, as the source file encodes them. -/
def dash : List Byte := [0x20, 0xE2, 0x80, 0x94, 0x20]

/-- The line `adderr` writes, before its 256-byte buffer cuts it. -/
def ConfigError.text : ConfigError → List Byte
  | .required sec key => field sec key ++ ascii "required"
  | .notString sec key => field sec key ++ ascii "must be a string"
  | .notInteger sec key => field sec key ++ ascii "must be an integer"
  | .notBool sec key => field sec key ++ ascii "must be true or false"
  | .badChoice sec key value => field sec key ++ ascii "invalid value '" ++ value ++ ascii "'"
  | .below sec key bound got =>
    field sec key ++ ascii "must be >= " ++ fmtInt bound ++ ascii ", got " ++ fmtInt got
  | .above sec key bound got =>
    field sec key ++ ascii "must be <= " ++ fmtInt bound ++ ascii ", got " ++ fmtInt got
  | .notIpv4 sec key value => field sec key ++ ascii "not a valid IPv4 address: " ++ value
  | .tooMany array count max =>
    table array ++ fmtNat 10 count ++ ascii " entries exceeds maximum of " ++ fmtNat 10 max
  | .duplicateName array name i j =>
    table array ++ ascii "duplicate name '" ++ name ++ ascii "' (entries " ++ fmtNat 10 i ++
      ascii " and " ++ fmtNat 10 j ++ ascii ")"
  | .sharedBindPort name name' port =>
    table (ascii "openbridge") ++ ascii "'" ++ name ++ ascii "' and '" ++ name' ++
      ascii "' both use bind_port " ++ fmtInt port ++ dash ++
      ascii "two enabled peers cannot bind the same local port"
  | .noOpenbridge sec name =>
    field sec (ascii "openbridge_system") ++ ascii "no [[openbridge]] named '" ++ name ++ ascii "'"
  | .duplicateRoute system tgid name name' =>
    table (ascii "link") ++ ascii "duplicate (openbridge_system, tgid) = ('" ++ system ++ ascii "', " ++
      fmtInt tgid ++ ascii ")" ++ dash ++ ascii "links '" ++ name ++ ascii "' and '" ++ name' ++ ascii "'"
  | .duplicateInbound ip lid name name' =>
    table (ascii "link") ++ ascii "duplicate inbound (cc_remote_ip, cc_lid) = ('" ++ ip ++ ascii "', " ++
      fmtInt lid ++ ascii ")" ++ dash ++ ascii "links '" ++ name ++ ascii "' and '" ++ name' ++ ascii "'"
where
  field (sec key : List Byte) : List Byte := ascii "[" ++ sec ++ ascii "] " ++ key ++ ascii ": "
  table (array : List Byte) : List Byte := ascii "[[" ++ array ++ ascii "]]: "

/-- A value and what was reported on the way to it. -/
@[ext] structure Load (α : Type) where
  value : α
  errors : List ConfigError

instance : Monad Load where
  pure a := ⟨a, []⟩
  bind x f := ⟨(f x.value).value, x.errors ++ (f x.value).errors⟩

def report (errors : List ConfigError) : Load Unit := ⟨(), errors⟩

section
variable {α β : Type}

@[simp] theorem Load.value_pure (a : α) : (pure a : Load α).value = a := rfl

@[simp] theorem Load.errors_pure (a : α) : (pure a : Load α).errors = [] := rfl

@[simp] theorem Load.value_bind (x : Load α) (f : α → Load β) : (x >>= f).value = (f x.value).value := rfl

@[simp] theorem Load.errors_bind (x : Load α) (f : α → Load β) :
    (x >>= f).errors = x.errors ++ (f x.value).errors := rfl

@[simp] theorem Load.value_map (f : α → β) (x : Load α) : (f <$> x).value = f x.value := rfl

@[simp] theorem Load.errors_map (f : α → β) (x : Load α) : (f <$> x).errors = x.errors :=
  List.append_nil x.errors

@[simp] theorem errors_report (errors : List ConfigError) : (report errors).errors = errors := rfl

end

instance : LawfulMonad Load := LawfulMonad.mk' Load
  (fun x => by cases x; simp [Functor.map]) (fun a f => by simp [Load.ext_iff])
  (fun x f g => by simp [Load.ext_iff])

/-! ## Getters -/

/-- `trimcpy`: blanks off both ends, then cut to the buffer. -/
def trimcpy (cap : Nat) (src : List Byte) : List Byte :=
  let front := src.dropWhile isSpace
  ((front.reverse.dropWhile isSpace).reverse).take (cap - 1)

def toUpper (c : Byte) : Byte := if 0x61 ≤ c && c ≤ 0x7A then c - 0x20 else c

/-- The error of a missing key. -/
def missing (required : Bool) (sec key : List Byte) : List ConfigError :=
  if required then [.required sec key] else []

def getStr (t : Toml) (sec key : List Byte) (required : Bool) (deflt : List Byte) (cap : Nat) :
    Load (List Byte) :=
  match t.get sec key with
  | none => ⟨deflt, missing required sec key⟩
  | some (.string s) => ⟨trimcpy cap s, []⟩
  | some _ => ⟨deflt, [.notString sec key]⟩

def getChoice (t : Toml) (sec key : List Byte) (required : Bool) (deflt : List Byte)
    (choices : List (List Byte)) : Load (List Byte) :=
  match t.get sec key with
  | none => ⟨deflt, missing required sec key⟩
  | some (.string s) =>
    match choices.find? fun c => c == (trimcpy 64 s).map toUpper with
    | some c => ⟨c, []⟩
    | none => ⟨deflt, [.badChoice sec key s]⟩
  | some _ => ⟨deflt, [.notString sec key]⟩

/-- An integer with its bounds; one out of them is reported and still returned. -/
def getInt (t : Toml) (sec key : List Byte) (required : Bool) (deflt : Int) (mn mx : Option Int) : Load Int :=
  match t.get sec key with
  | none => ⟨deflt, missing required sec key⟩
  | some (.int i) =>
    ⟨i, (mn.toList.filter (i < ·)).map (.below sec key · i) ++
      (mx.toList.filter (· < i)).map (.above sec key · i)⟩
  | some _ => ⟨deflt, [.notInteger sec key]⟩

def getBool (t : Toml) (sec key : List Byte) (required : Bool) (deflt : Bool) : Load Bool :=
  match t.get sec key with
  | none => ⟨deflt, missing required sec key⟩
  | some (.bool b) => ⟨b, []⟩
  | some _ => ⟨deflt, [.notBool sec key]⟩

/-- One decimal octet of `inet_pton`: up to 255, no leading zero. -/
def isOctet (s : List Byte) : Bool :=
  s != [] && s.all (fun c => (digitVal 10 c).isSome) && decide ((scanDigits 10 0 s).1 ≤ 255) &&
    (s.length == 1 || s.head? != some 0x30)

/-- `inet_pton(AF_INET, …)` succeeds. -/
def isValidIpv4 (s : List Byte) : Bool :=
  let octets := s.splitOn 0x2E
  octets.length == 4 && octets.all isOctet

/-- An address is checked unless it is empty. -/
def ipv4Errors (sec key ip : List Byte) : List ConfigError :=
  if ip ≠ [] ∧ !isValidIpv4 ip then [.notIpv4 sec key ip] else []

/-- `(int)` of a `long long`. -/
def toCInt (x : Int) : Int := (BitVec.ofInt 32 x).toInt

/-- What a double loop over the entries reports. -/
def pairErrors {α : Type} (bad : α → α → Bool) (err : Nat → Nat → α → α → ConfigError) (l : List α) :
    List ConfigError :=
  l.zipIdx.flatMap fun a => (l.zipIdx.drop (a.2 + 1)).filterMap fun b =>
    if bad a.1 b.1 then some (err a.2 b.2 a.1 b.1) else none

def sectionName (array : List Byte) (i : Nat) : List Byte := array ++ ascii "#" ++ fmtNat 10 i

/-- The number of entries that are read, and the error of too many. -/
def entryCount (t : Toml) (array : List Byte) (max : Nat) : Load Nat :=
  ⟨min (t.arrayLen array) max,
    if max < t.arrayLen array then [.tooMany array (t.arrayLen array) max] else []⟩

/-! ## Peers -/

def loadPeer (t : Toml) (i : Nat) : Load ObpPeerConfig := do
  let sec := sectionName (ascii "openbridge") i
  let name ← getStr t sec (ascii "name") true [] 64
  let enabled ← getBool t sec (ascii "enabled") false true
  let peerIp ← getStr t sec (ascii "peer_ip") true [] 64
  report (ipv4Errors sec (ascii "peer_ip") peerIp)
  let peerPort ← getInt t sec (ascii "peer_port") true 0 (some 1) (some 65535)
  let bindPort ← getInt t sec (ascii "bind_port") true 0 (some 1) (some 65535)
  let networkId ← getInt t sec (ascii "network_id") true 0 (some 0) none
  let preserveSourcePeer ← getBool t sec (ascii "preserve_source_peer") false false
  let passphrase ← getStr t sec (ascii "passphrase") true [] 256
  pure
    { name, enabled, peerIp, peerPort := toCInt peerPort, bindPort := toCInt bindPort
      networkId := u32 networkId, passphrase, preserveSourcePeer }

def sameName (a b : List Byte) : Bool := a != [] && a == b

def sharesBindPort (a b : ObpPeerConfig) : Bool := a.enabled && b.enabled && a.bindPort == b.bindPort

def loadOpenbridge (t : Toml) : Load (List ObpPeerConfig) := do
  let n ← entryCount t (ascii "openbridge") cfgMaxOpenbridge
  let peers ← (List.range n).mapM (loadPeer t)
  report (pairErrors (fun a b => sameName a.name b.name)
    (fun i j a _ => .duplicateName (ascii "openbridge") a.name i j) peers)
  report (pairErrors sharesBindPort (fun _ _ a b => .sharedBindPort a.name b.name a.bindPort) peers)
  pure peers

/-! ## Links -/

/-- The remote port is read for an outbound link only. -/
def loadRemotePort (t : Toml) (sec : List Byte) (ccRole : CcRole) : Load Int :=
  if ccRole = .outbound then getInt t sec (ascii "cc_remote_port") true 0 (some 1) (some 65535)
  else pure (-1)

def loadLink (t : Toml) (peers : List ObpPeerConfig) (i : Nat) : Load LinkConfig := do
  let sec := sectionName (ascii "link") i
  let name ← getStr t sec (ascii "name") true [] 64
  let enabled ← getBool t sec (ascii "enabled") false true
  let crossConnectActive ← getBool t sec (ascii "cross_connect_active") false true
  let tgid ← getInt t sec (ascii "tgid") true 0 (some 0) none
  let openbridgeSystem ← getStr t sec (ascii "openbridge_system") true [] 64
  let openbridgeIdx := findOpenbridge peers openbridgeSystem
  report (if openbridgeSystem ≠ [] ∧ openbridgeIdx = none then [.noOpenbridge sec openbridgeSystem] else [])
  let role ← getChoice t sec (ascii "cc_role") true (ascii "OUTBOUND") [ascii "OUTBOUND", ascii "INBOUND"]
  let ccRole := if role = ascii "INBOUND" then CcRole.inbound else CcRole.outbound
  let ccLid ← getInt t sec (ascii "cc_lid") true 0 (some 0) none
  let ccRemoteIp ← getStr t sec (ascii "cc_remote_ip") true [] 64
  report (ipv4Errors sec (ascii "cc_remote_ip") ccRemoteIp)
  let ccRemotePort ← loadRemotePort t sec ccRole
  let ccRemoteVoicePort ← getInt t sec (ascii "cc_remote_voice_port") true 0 (some 1) (some 65535)
  let ccChannelName ← getStr t sec (ascii "cc_channel_name") (ccRole == .outbound) [] 128
  pure
    { name, enabled, crossConnectActive, tgid := toCInt tgid, openbridgeSystem, openbridgeIdx, ccRole
      ccLid := toCInt ccLid, ccRemoteIp, ccRemotePort := toCInt ccRemotePort
      ccRemoteVoicePort := toCInt ccRemoteVoicePort, ccChannelName }

def sameRoute (a b : LinkConfig) : Bool :=
  a.openbridgeIdx.isSome && a.openbridgeIdx == b.openbridgeIdx && a.tgid == b.tgid

def sameInbound (a b : LinkConfig) : Bool :=
  a.ccRole == .inbound && b.ccRole == .inbound && a.ccRemoteIp == b.ccRemoteIp && a.ccLid == b.ccLid

def loadLinks (t : Toml) (peers : List ObpPeerConfig) : Load (List LinkConfig) := do
  let n ← entryCount t (ascii "link") cfgMaxLinks
  let links ← (List.range n).mapM (loadLink t peers)
  report (pairErrors (fun a b => sameName a.name b.name)
    (fun i j a _ => .duplicateName (ascii "link") a.name i j) links)
  report (pairErrors sameRoute
    (fun _ _ a b => .duplicateRoute a.openbridgeSystem a.tgid a.name b.name) links)
  report (pairErrors sameInbound
    (fun _ _ a b => .duplicateInbound a.ccRemoteIp a.ccLid a.name b.name) links)
  pure links

/-! ## The file -/

/-- `log_level_from_str`, which ignores case. -/
def logLevelFromStr (s : List Byte) : Option LogLevel :=
  let s := s.map toUpper
  if s = ascii "DEBUG" then some .debug
  else if s = ascii "INFO" then some .info
  else if s = ascii "WARNING" then some .warning
  else if s = ascii "ERROR" then some .error
  else none

def loadConfig (t : Toml) : Load Config := do
  let glob := ascii "global"
  let level ← getChoice t glob (ascii "log_level") false (ascii "INFO")
    [ascii "DEBUG", ascii "INFO", ascii "WARNING", ascii "ERROR"]
  let ccSiteName ← getStr t glob (ascii "cc_site_name") false (ascii "cc2obp") 128
  let ccMacAddress ← getStr t glob (ascii "cc_mac_address") false (ascii "000000000000") 32
  let ccCodeRevision ← getStr t glob (ascii "cc_code_revision") false (ascii "10252") 32
  let ccVersion ← getStr t glob (ascii "cc_version") false (ascii "cc2obp") 128
  let ccOsVersion ← getStr t glob (ascii "cc_os_version") false (ascii "Linux") 128
  let interval ← getInt t glob (ascii "cc_keepalive_interval") false 10 (some 1) (some 300)
  let timeout ← getInt t glob (ascii "cc_link_timeout") false 35 (some 1) (some 3600)
  let openbridge ← loadOpenbridge t
  let link ← loadLinks t openbridge
  pure
    { logLevel := (logLevelFromStr level).getD .info
      ccSiteName, ccMacAddress, ccCodeRevision, ccVersion, ccOsVersion
      ccKeepaliveInterval := interval, ccLinkTimeout := timeout, openbridge, link }

/-- `config_load`: the configuration, or everything that was reported. -/
def configLoad (t : Toml) : Except (List ConfigError) Config :=
  match (loadConfig t).errors with
  | [] => .ok (loadConfig t).value
  | errors => .error errors

end Cc2obp
