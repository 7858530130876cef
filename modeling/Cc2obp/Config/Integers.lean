import Cc2obp.Config.Entries
import Cc2obp.Config.TomlLines
import Cc2obp.Lib.Decimal

/-!
# Integers as they are written

A literal goes through a buffer that drops what does not fit it, through `strtoll`,
which saturates, past the bounds of its field and through a cast. An integer field
holds the integer its literal denotes exactly when the literal fits the buffer, or
is zero, and the field's type holds the integer.
-/
namespace Cc2obp

open CString TextFile

/-! ## The pairs of a file as they are written -/

/-- A pair with the section it goes to. -/
structure TomlText where
  sec : List Byte
  key : List Byte
  val : List Byte

/-- The pairs of some lines, read behind a state of the parser. -/
def TomlParser.texts (p : TomlParser) : List TomlLine → List TomlText
  | [] => []
  | line :: lines =>
    match p.read line with
    | .error _ => []
    | .ok q =>
      match line with
      | .pair key val => ⟨p.curSection, key.take 63, val⟩ :: q.texts lines
      | _ => q.texts lines

/-- The first pair of a key in a section. -/
def findText (texts : List TomlText) (sec key : List Byte) : Option (List Byte) :=
  (texts.find? fun x => x.sec == sec && x.key == key).map TomlText.val

/-- The literal behind a key of a file. -/
def literalOf (file sec key : List Byte) : Option (List Byte) := findText (TomlParser.texts {} (readings file)) sec key

/-- What a literal is read as. -/
def valueOf (val : List Byte) : Option TomlValue := (parseValue [] val).toOption

theorem toOption_parseValue (key val : List Byte) : (parseValue key val).toOption = valueOf val := by
  unfold valueOf parseValue
  split
  · split
    · rfl
    · split <;> rfl
  · split <;> rfl

section Texts
variable {p q : TomlParser} {lines : List TomlLine}

/-- What is looked up is read from the first pair of the key; every pair is read as something. -/
theorem get_texts (run : p.readAll lines = .ok q) (sec key : List Byte) :
    q.toml.get sec key = (p.toml.get sec key).or ((findText (p.texts lines) sec key).bind valueOf) ∧
      ∀ x ∈ p.texts lines, (valueOf x.val).isSome = true := by
  induction lines generalizing p with
  | nil =>
    cases run
    simp [TomlParser.texts, findText]
  | cons line lines ih =>
    obtain ⟨p', step, rest⟩ := TomlParser.readAll_cons_ok.mp run
    obtain ⟨looked, parse⟩ := ih rest
    cases line with
    | pair k val =>
      have texts : p.texts (.pair k val :: lines) = ⟨p.curSection, k.take 63, val⟩ :: p'.texts lines := by
        simp only [TomlParser.texts, step]
      simp only [TomlParser.read] at step
      split at step
      next room =>
        cases value : parseValue k val with
        | error fault => simp [value] at step
        | ok v =>
          simp only [value, Except.ok.injEq] at step
          have read : valueOf val = some v := by rw [← toOption_parseValue k, value]; rfl
          have kept : p'.toml.get sec key =
              (p.toml.get sec key).or (if p.curSection = sec ∧ k.take 63 = key then some v else none) := by
            simp only [← step, Toml.get, List.find?_append, Option.map_or]
            by_cases here : p.curSection = sec ∧ k.take 63 = key <;> simp [here]
          constructor
          · rw [looked, kept, texts, Option.or_assoc]
            by_cases here : p.curSection = sec ∧ k.take 63 = key <;> simp [findText, here, read]
          · rw [texts]
            exact List.forall_mem_cons.mpr ⟨by simp [read], parse⟩
      · cases step
    | blank =>
      have same : p' = p := (Except.ok.inj step).symm
      subst same
      simpa only [TomlParser.texts, step] using ⟨looked, parse⟩
    | tables n =>
      have same : p'.toml.get sec key = p.toml.get sec key := by
        simp only [TomlParser.read] at step
        split at step
        · rw [← Except.ok.inj step]
          rfl
        · cases step
      rw [same] at looked
      simpa only [TomlParser.texts, step] using ⟨looked, parse⟩
    | «section» n =>
      have same : p'.toml.get sec key = p.toml.get sec key := by
        rw [← Except.ok.inj step]
      rw [same] at looked
      simpa only [TomlParser.texts, step] using ⟨looked, parse⟩
    | malformed fault => cases step

/-- A key of an accepted file is read from its literal. -/
theorem get_literalOf {path file : List Byte} {t : Toml} (parsed : tomlParseFile path (some file) = .ok t)
    {sec key text : List Byte} (written : literalOf file sec key = some text) :
    ∃ v, t.get sec key = some v ∧ valueOf text = some v := by
  obtain ⟨q, run, rfl⟩ := tomlParseFile_ok_iff.mp parsed
  obtain ⟨looked, parse⟩ := get_texts run sec key
  obtain ⟨x, found, rfl⟩ := Option.map_eq_some_iff.mp written
  obtain ⟨v, read⟩ := Option.isSome_iff_exists.mp (parse x (List.mem_of_find?_eq_some found))
  have there : findText (TomlParser.texts {} (readings file)) sec key = some x.val := written
  refine ⟨v, ?_, read⟩
  rw [looked, there]
  simp [Toml.get, read]

end Texts

/-! ## One literal -/

/-- No quote and no bracket in front. -/
def IsToken (val : List Byte) : Prop := ∀ d ∈ val.head?, d ≠ 0x22 ∧ d ≠ 0x27 ∧ d ≠ 0x5B

theorem parseScalar_token {val : List Byte} (token : IsToken val) : parseScalar val =
    if val = ascii "true" then some (.bool true)
    else if val = ascii "false" then some (.bool false)
    else (parseInteger val).map .int := by
  cases val with
  | nil => rfl
  | cons d s =>
    obtain ⟨double, single, -⟩ := token d rfl
    unfold parseScalar
    split
    next same => exact absurd (List.cons.inj same).1 double
    next same => exact absurd (List.cons.inj same).1 single
    · rfl

theorem parseValue_token {val : List Byte} (token : IsToken val) (key : List Byte) (v : TomlValue) :
    parseValue key val = .ok v ↔ ∃ s, parseScalar val = some s ∧ s.value = v := by
  unfold parseValue
  split
  next rest => exact absurd rfl (token _ rfl).2.2
  · cases parseScalar val with
    | none => simp
    | some s => simp

theorem TomlScalar.value_inj {s s' : TomlScalar} (same : s.value = s'.value) : s = s' := by
  cases s <;> cases s' <;> cases same <;> rfl

/-- The literal without its underscores. -/
def significant (text : List Byte) : List Byte := text.filter (· != 0x5F)

/-- The integer a literal denotes. -/
def denoted (text : List Byte) : Option Int := exactInt (significant text)

/-- The literal denotes an integer that a field with this maximum holds, and fits the buffer or is zero. -/
def LiteralFits (max : Int) (text : List Byte) : Prop :=
  ∃ v, denoted text = some v ∧ v ≤ max ∧ ((significant text).length ≤ 63 ∨ v = 0)

section Literal
variable {text : List Byte} {i max : Int}

theorem parseInteger_of_valueOf (read : valueOf text = some (.int i)) : parseInteger text = some i := by
  unfold valueOf parseValue at read
  split at read
  · split at read
    · simp [Except.toOption] at read
    · split at read <;> simp [Except.toOption] at read
  · split at read
    · simp [Except.toOption] at read
    next v scalar =>
      simp only [Except.toOption, Option.some.injEq] at read
      unfold parseScalar at scalar
      split at scalar
      · rw [← Option.some.inj scalar] at read
        cases read
      · rw [← Option.some.inj scalar] at read
        cases read
      · split at scalar
        · rw [← Option.some.inj scalar] at read
          cases read
        · split at scalar
          · rw [← Option.some.inj scalar] at read
            cases read
          · obtain ⟨j, parsed, rfl⟩ := Option.map_eq_some_iff.mp scalar
            cases read
            exact parsed

/-- A literal that fits the buffer is read as what it denotes, as far as 64 bits go. -/
theorem parseInteger_of_denoted (short : (significant text).length ≤ 63) (denotes : denoted text = some i) :
    parseInteger text = some (clamp64 i) := by
  have whole : (significant text).take 63 = significant text := List.take_of_length_le short
  have filled : significant text ≠ [] := by
    intro empty
    rw [denoted, empty] at denotes
    cases denotes
  have exact : exactInt (significant text) = some i := denotes
  unfold parseInteger
  rw [show text.filter (· != 0x5F) = significant text from rfl]
  simp only [whole, if_neg filled, strtoll_of_exactInt exact, if_true]

/-- The buffer's part of a literal that is read denotes the integer it is read as, as far as 64 bits go. -/
theorem exactInt_of_parseInteger (read : parseInteger text = some i) :
    ∃ a, exactInt ((significant text).take 63) = some a ∧ i = clamp64 a := by
  unfold parseInteger at read
  rw [show text.filter (· != 0x5F) = significant text from rfl] at read
  simp only at read
  split at read
  · cases read
  next filled =>
    split at read
    next ends =>
      obtain ⟨a, exact, clamped⟩ := (strtoll_whole_iff filled).mp ends
      exact ⟨a, exact, (Option.some.inj read).symm.trans clamped⟩
    · cases read

/-- What a field stores of a literal is what the literal denotes if and only if the literal fits. -/
theorem denoted_iff_fits {stored : Rat} (some_room : 0 ≤ max) (small : max < 2 ^ 63 - 1) (read : parseInteger text = some i) (positive : 0 ≤ i)
    (holds : i ≤ max → stored = i) (top : stored ≤ max) :
    (denoted text).map Int.cast = some stored ↔ LiteralFits max text := by
  obtain ⟨a, exact, clamped⟩ := exactInt_of_parseInteger read
  have split : significant text = (significant text).take 63 ++ (significant text).drop 63 := by simp
  unfold clamp64 at clamped
  constructor
  · intro same
    obtain ⟨v, denotes, rfl⟩ := Option.map_eq_some_iff.mp same
    have within : v ≤ max := by exact_mod_cast top
    refine ⟨v, denotes, within, ?_⟩
    by_cases short : (significant text).length ≤ 63
    · exact .inl short
    · right
      have more : (significant text).drop 63 ≠ [] := by
        rw [Ne, List.drop_eq_nil_iff]
        omega
      rw [denoted, split] at denotes
      obtain ⟨grows, zero⟩ := exactInt_append more exact denotes
      -- what was dropped makes the number larger than what is stored
      by_contra nonzero
      by_cases large : a ≤ max
      · have stored_whole : v = i := by exact_mod_cast holds (by omega)
        by_cases some_value : 0 < a
        · have tenfold := grows some_value
          omega
        · omega
      · have tenfold := grows (by omega)
        omega
  · rintro ⟨v, denotes, within, short | zero⟩
    · have whole : (significant text).take 63 = significant text := List.take_of_length_le short
      rw [whole, ← denoted, denotes, Option.some.injEq] at exact
      subst exact
      have same : i = v := by omega
      rw [denotes, Option.map_some, holds (by omega), same]
    · subst zero
      have none_left : a = 0 := by
        by_cases short : (significant text).length ≤ 63
        · have whole : (significant text).take 63 = significant text := List.take_of_length_le short
          rw [whole, ← denoted, denotes, Option.some.injEq] at exact
          exact exact.symm
        · have more : (significant text).drop 63 ≠ [] := by
            rw [Ne, List.drop_eq_nil_iff]
            omega
          rw [denoted, split] at denotes
          exact (exactInt_append more exact denotes).2 rfl
      have same : i = 0 := by omega
      rw [denotes, Option.map_some, holds (by omega), same]

end Literal

/-! ## The integer fields -/

/-- An integer field: where its literal is, what is stored, and the largest integer its type holds. -/
structure IntField where
  sec : List Byte
  key : List Byte
  stored : Rat
  max : Int

def intMax : Int := 2 ^ 31 - 1

def ObpPeerConfig.intFields (o : ObpPeerConfig) (p : Nat) : List IntField :=
  [⟨sectionName (ascii "openbridge") p, ascii "peer_port", o.peerPort, intMax⟩,
    ⟨sectionName (ascii "openbridge") p, ascii "bind_port", o.bindPort, intMax⟩,
    ⟨sectionName (ascii "openbridge") p, ascii "network_id", o.networkId.toNat, 2 ^ 32 - 1⟩]

/-- The remote port is a field of an outbound link only. -/
def LinkConfig.intFields (l : LinkConfig) (i : Nat) : List IntField :=
  [⟨sectionName (ascii "link") i, ascii "tgid", l.tgid, intMax⟩,
    ⟨sectionName (ascii "link") i, ascii "cc_lid", l.ccLid, intMax⟩,
    ⟨sectionName (ascii "link") i, ascii "cc_remote_voice_port", l.ccRemoteVoicePort, intMax⟩] ++
  if l.ccRole = .outbound then [⟨sectionName (ascii "link") i, ascii "cc_remote_port", l.ccRemotePort, intMax⟩] else []

/-- The timers are stored in a `double`. -/
def Config.intFields (cfg : Config) : List IntField :=
  [⟨ascii "global", ascii "cc_keepalive_interval", cfg.ccKeepaliveInterval, 2 ^ 53⟩,
    ⟨ascii "global", ascii "cc_link_timeout", cfg.ccLinkTimeout, 2 ^ 53⟩] ++
  (cfg.openbridge.zipIdx.flatMap fun o => o.1.intFields o.2) ++ cfg.link.zipIdx.flatMap fun l => l.1.intFields l.2

/-- What an integer field stores of a value it is read from. -/
def IntField.ReadFrom (f : IntField) (t : Toml) : Prop :=
  ∀ v, t.get f.sec f.key = some v → ∃ i, v = .int i ∧ 0 ≤ i ∧ (i ≤ f.max → f.stored = i) ∧ f.stored ≤ f.max

section Fields
variable {t : Toml}

theorem getInt_read {sec key : List Byte} {required : Bool} {deflt : Int} {mn mx : Option Int}
    (silent : (getInt t sec key required deflt mn mx).errors = []) {v : TomlValue} (here : t.get sec key = some v) :
    ∃ i, v = .int i ∧ (getInt t sec key required deflt mn mx).value = i ∧ (∀ m ∈ mn, m ≤ i) ∧ ∀ m ∈ mx, i ≤ m := by
  unfold getInt at silent ⊢
  rw [here] at silent ⊢
  cases v with
  | int i =>
    simp only [List.append_eq_nil_iff, List.map_eq_nil_iff, List.filter_eq_nil_iff, Option.mem_toList, decide_eq_true_eq,
      not_lt] at silent
    exact ⟨i, rfl, rfl, silent.1, silent.2⟩
  | string s => simp at silent
  | bool b => simp at silent
  | array elems => simp at silent

/-- A field between bounds is stored as it is. -/
theorem readFrom_bounded {sec key : List Byte} {required : Bool} {deflt lo hi max : Int}
    (silent : (getInt t sec key required deflt (some lo) (some hi)).errors = []) (positive : 0 ≤ lo) (room : hi ≤ max)
    {stored : Rat} (same : ∀ i, (getInt t sec key required deflt (some lo) (some hi)).value = i → lo ≤ i → i ≤ hi → stored = i) :
    IntField.ReadFrom ⟨sec, key, stored, max⟩ t := by
  intro v here
  obtain ⟨i, rfl, value, low, high⟩ := getInt_read silent here
  have above := low lo rfl
  have below := high hi rfl
  have is := same i value above below
  refine ⟨i, rfl, by omega, fun _ => is, ?_⟩
  simp only [is]
  exact_mod_cast below.trans room

/-- A field without an upper bound is cast to its type. -/
theorem readFrom_cast {sec key : List Byte} {required : Bool} {deflt max : Int} {cast : Int → Int}
    (silent : (getInt t sec key required deflt (some 0) none).errors = []) (small : ∀ i, 0 ≤ i → i ≤ max → cast i = i)
    (top : ∀ i, cast i ≤ max) {stored : Rat} (same : stored = cast (getInt t sec key required deflt (some 0) none).value) :
    IntField.ReadFrom ⟨sec, key, stored, max⟩ t := by
  intro v here
  obtain ⟨i, rfl, value, low, -⟩ := getInt_read silent here
  have positive := low 0 rfl
  rw [value] at same
  refine ⟨i, rfl, positive, fun fits => ?_, ?_⟩
  · simp only [same, small i positive fits]
  · simp only [same]
    exact_mod_cast top i

theorem toCInt_small (i : Int) (positive : 0 ≤ i) (fits : i ≤ intMax) : toCInt i = i := by
  unfold intMax at fits
  exact toCInt_of_range (by omega) (by omega)

theorem toCInt_le (i : Int) : toCInt i ≤ intMax := by
  have within := (inCInt_toCInt i).2
  unfold intMax
  omega

theorem u32_small (i : Int) (positive : 0 ≤ i) (fits : i ≤ 2 ^ 32 - 1) : ((u32 i).toNat : Int) = i := by
  rw [u32, BitVec.toNat_ofInt]
  omega

theorem u32_le (i : Int) : ((u32 i).toNat : Int) ≤ 2 ^ 32 - 1 := by
  have within := (u32 i).isLt
  omega

theorem loadPeer_readFrom {p : Nat} (silent : (loadPeer t p).errors = []) :
    ∀ f ∈ (loadPeer t p).value.intFields p, f.ReadFrom t := by
  simp only [loadPeer, Load.errors_bind, Load.errors_pure, errors_report, List.append_eq_nil_iff] at silent
  obtain ⟨-, -, -, -, peerPort, bindPort, networkId, -⟩ := silent
  have port : ∀ {key : List Byte} (i : Int),
      (getInt t (sectionName (ascii "openbridge") p) key true 0 (some 1) (some 65535)).value = i → 1 ≤ i → i ≤ 65535 →
      ((toCInt (getInt t (sectionName (ascii "openbridge") p) key true 0 (some 1) (some 65535)).value : Int) : Rat) = i := by
    intro key i value low high
    rw [value, toCInt_small i (by omega) (by unfold intMax; omega)]
  simp only [ObpPeerConfig.intFields, List.forall_mem_cons, List.not_mem_nil, false_implies, implies_true, and_true]
  refine ⟨?_, ?_, ?_⟩
  · exact readFrom_bounded peerPort (by decide) (by decide) port
  · exact readFrom_bounded bindPort (by decide) (by decide) port
  · exact readFrom_cast networkId u32_small u32_le (by simp [loadPeer])

theorem loadLink_readFrom {peers : List ObpPeerConfig} {i : Nat} (silent : (loadLink t peers i).errors = []) :
    ∀ f ∈ (loadLink t peers i).value.intFields i, f.ReadFrom t := by
  simp only [loadLink, Load.errors_bind, Load.errors_pure, errors_report, List.append_eq_nil_iff] at silent
  obtain ⟨-, -, -, tgid, -, -, -, lid, -, -, remotePort, voicePort, -⟩ := silent
  have port : ∀ {key : List Byte} (x : Int),
      (getInt t (sectionName (ascii "link") i) key true 0 (some 1) (some 65535)).value = x → 1 ≤ x → x ≤ 65535 →
      ((toCInt (getInt t (sectionName (ascii "link") i) key true 0 (some 1) (some 65535)).value : Int) : Rat) = x := by
    intro key x value low high
    rw [value, toCInt_small x (by omega) (by unfold intMax; omega)]
  simp only [LinkConfig.intFields, List.forall_mem_append, List.forall_mem_cons, List.not_mem_nil, false_implies,
    implies_true, and_true]
  refine ⟨⟨?_, ?_, ?_⟩, ?_⟩
  · exact readFrom_cast tgid toCInt_small toCInt_le rfl
  · exact readFrom_cast lid toCInt_small toCInt_le rfl
  · exact readFrom_bounded voicePort (by decide) (by decide) port
  · split
    next outbound =>
      simp only [List.forall_mem_cons, List.not_mem_nil, false_implies, implies_true, and_true]
      have role : (if (getChoice t (sectionName (ascii "link") i) (ascii "cc_role") true (ascii "OUTBOUND")
          [ascii "OUTBOUND", ascii "INBOUND"]).value = ascii "INBOUND" then CcRole.inbound else CcRole.outbound) =
          .outbound := outbound
      rw [loadRemotePort, if_pos role] at remotePort
      refine readFrom_bounded remotePort (by decide) (by decide) fun x value low high => ?_
      simp only [loadLink, Load.value_bind, Load.value_pure, loadRemotePort, role, if_true]
      exact port x value low high
    · simp

theorem configLoad_readFrom {cfg : Config} (loaded : configLoad t = .ok cfg) : ∀ f ∈ cfg.intFields, f.ReadFrom t := by
  have entries := configLoad_loaded loaded
  obtain ⟨silent, rfl⟩ := configLoad_eq_ok loaded
  simp only [loadConfig, Load.errors_bind, Load.errors_pure, List.append_eq_nil_iff] at silent
  obtain ⟨-, -, -, -, -, -, interval, timeout, -⟩ := silent
  have timer : ∀ {key : List Byte} {deflt hi : Int} (i : Int),
      (getInt t (ascii "global") key false deflt (some 1) (some hi)).value = i → 1 ≤ i → i ≤ hi →
      ((getInt t (ascii "global") key false deflt (some 1) (some hi)).value : Rat) = i :=
    fun i value _ _ => by rw [value]
  simp only [Config.intFields, List.forall_mem_append, List.forall_mem_cons, List.not_mem_nil, false_implies, implies_true,
    and_true, List.forall_mem_flatMap]
  refine ⟨⟨⟨?_, ?_⟩, ?_⟩, ?_⟩
  · exact readFrom_bounded interval (by decide) (by decide) timer
  · exact readFrom_bounded timeout (by decide) (by decide) timer
  · rintro ⟨o, p⟩ member
    have here := List.mem_zipIdx_iff_getElem?.mp member
    simp only at here ⊢
    obtain ⟨inside, rfl⟩ := List.getElem?_eq_some_iff.mp here
    rw [entries.peer p inside]
    exact loadPeer_readFrom (entries.peerSilent p inside)
  · rintro ⟨l, i⟩ member
    have here := List.mem_zipIdx_iff_getElem?.mp member
    simp only at here ⊢
    obtain ⟨inside, rfl⟩ := List.getElem?_eq_some_iff.mp here
    rw [entries.link i inside]
    exact loadLink_readFrom (entries.linkSilent i inside)

end Fields

/-- Every integer field that the file has a literal for holds the integer the literal denotes. -/
def IntegersAsWritten (file : List Byte) (cfg : Config) : Prop :=
  ∀ f ∈ cfg.intFields, ∀ text, literalOf file f.sec f.key = some text → (denoted text).map Int.cast = some f.stored

/-- Every literal of an integer field fits it. -/
def LiteralsFit (file : List Byte) (cfg : Config) : Prop :=
  ∀ f ∈ cfg.intFields, ∀ text, literalOf file f.sec f.key = some text → LiteralFits f.max text

theorem intFields_max (cfg : Config) : ∀ f ∈ cfg.intFields, 0 ≤ f.max ∧ f.max < 2 ^ 63 - 1 := by
  have peer : ∀ (o : ObpPeerConfig) p, ∀ f ∈ o.intFields p, 0 ≤ f.max ∧ f.max < 2 ^ 63 - 1 := by
    intro o p
    simp [ObpPeerConfig.intFields, intMax]
  have link : ∀ (l : LinkConfig) i, ∀ f ∈ l.intFields i, 0 ≤ f.max ∧ f.max < 2 ^ 63 - 1 := by
    intro l i
    simp only [LinkConfig.intFields, List.forall_mem_append]
    constructor
    · simp [intMax]
    · split <;> simp [intMax]
  simp only [Config.intFields, List.forall_mem_append, List.forall_mem_cons, List.not_mem_nil, false_implies, implies_true,
    and_true, List.forall_mem_flatMap]
  exact ⟨⟨⟨by decide, by decide⟩, fun o _ => peer o.1 o.2⟩, fun l _ => link l.1 l.2⟩

/-- An accepted file's integers are stored as written exactly when its literals fit their fields. -/
theorem integers_as_written_iff (path file : List Byte) (cfg : Config)
    (loaded : configLoadFile path (some file) = .ok cfg) : IntegersAsWritten file cfg ↔ LiteralsFit file cfg := by
  obtain ⟨t, parsed, entries⟩ := configLoadFile_eq_ok loaded
  unfold IntegersAsWritten LiteralsFit
  refine forall₂_congr fun f member => forall₂_congr fun text written => ?_
  obtain ⟨v, looked, read⟩ := get_literalOf parsed written
  obtain ⟨i, rfl, positive, holds, top⟩ := configLoad_readFrom entries f member v looked
  obtain ⟨some_room, small⟩ := intFields_max cfg f member
  exact denoted_iff_fits some_room small (parseInteger_of_valueOf read) positive holds top

/-- A file with one peer and its configuration. -/
def onePeer (networkId : String) : List Byte :=
  ascii "[[openbridge]]\nname = \"a\"\npeer_ip = \"10.0.0.1\"\npeer_port = 62_031\nbind_port = 62031\n" ++
    ascii "network_id = " ++ ascii networkId ++ ascii "\npassphrase = \"a\"\n"

def onePeerConfig (networkId : BitVec 32) : Config where
  ccSiteName := ascii "cc2obp"
  ccMacAddress := ascii "000000000000"
  ccCodeRevision := ascii "10252"
  ccVersion := ascii "cc2obp"
  ccOsVersion := ascii "Linux"
  ccKeepaliveInterval := 10
  ccLinkTimeout := 35
  openbridge :=
    [{ name := ascii "a", enabled := true, peerIp := ascii "10.0.0.1", peerPort := 62031, bindPort := 62031, networkId,
       passphrase := ascii "a" }]

theorem integers_as_written_iff_onePeer :
    IntegersAsWritten (onePeer "3_120_001") (onePeerConfig 3120001) ↔
      LiteralsFit (onePeer "3_120_001") (onePeerConfig 3120001) :=
  integers_as_written_iff [] (onePeer "3_120_001") (onePeerConfig 3120001) (by decide +kernel)

/-- A network id above 32 bits is accepted and cut. -/
theorem network_id_wraps : ¬∀ (path file : List Byte) (cfg : Config),
    configLoadFile path (some file) = .ok cfg → IntegersAsWritten file cfg := by
  intro as_written
  have file : configLoadFile [] (some (onePeer "4294967297")) = .ok (onePeerConfig 1) := by decide +kernel
  have literal : literalOf (onePeer "4294967297") (sectionName (ascii "openbridge") 0) (ascii "network_id") =
      some (ascii "4294967297") := by decide +kernel
  have field : (⟨sectionName (ascii "openbridge") 0, ascii "network_id", 1, 2 ^ 32 - 1⟩ : IntField) ∈
      (onePeerConfig 1).intFields := by
    simp [Config.intFields, ObpPeerConfig.intFields, onePeerConfig]
  have same := as_written [] (onePeer "4294967297") (onePeerConfig 1) file _ field _ literal
  have denotes : denoted (ascii "4294967297") = some 4294967297 := by decide +kernel
  rw [denotes] at same
  norm_num at same

end Cc2obp
