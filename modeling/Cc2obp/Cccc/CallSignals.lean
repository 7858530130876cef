import Cc2obp.Cccc.CcccLink
import Cc2obp.Config.Rules
import Cc2obp.Lib.Text

/-!
# Call signalling on the wire

The lines of `build_bon` and `build_boff` come out of the parsers as they went
into the builders, whatever the numbers in them.
-/
namespace Cc2obp

open CString Lines

/-- A call into `cccc_send_bon` or `cccc_send_boff`. -/
inductive Signal where
  | bon (radio peer : BitVec 32) (srcLid tgid : Int) (callType : Byte)
  | boff (lost total rssi : Int)

namespace Signal

/-- What the callers pass: a source LID of two digits, a printable call type, C numbers. -/
def Sendable : Signal → Prop
  | bon _ _ srcLid tgid callType => (0 ≤ srcLid ∧ srcLid ≤ 99) ∧ (0 ≤ tgid ∧ tgid < 2 ^ 31) ∧ 0x21 ≤ callType ∧ callType ≤ 0x7E
  | boff lost total rssi => InCInt lost ∧ InCInt total ∧ InCInt rssi

def out (link : Nat) : Signal → TrOut
  | bon radio peer srcLid tgid callType => .ccccSendBon link radio peer srcLid tgid callType
  | boff lost total rssi => .ccccSendBoff link lost total rssi

/-- The call the other end makes of it. -/
def call (link : Nat) : Signal → TrCall
  | bon radio peer srcLid tgid callType => .bon link radio peer srcLid tgid callType
  | boff lost total _ => .boff link lost total

/-- The bytes sent, with the link's LID and the user counter. -/
def built (lid user : Int) : Signal → List Byte
  | bon radio peer srcLid tgid callType => buildBon lid user radio peer srcLid tgid callType
  | boff lost total rssi => buildBoff lid lost total rssi

end Signal

/-! ## The B-on line -/

section Bon
variable (lid user : Int) (radio peer : BitVec 32) (srcLid tgid : Int) (callType : Byte)

/-- The first word, and what stands behind it up to the marker. -/
def bonWord : List Byte := ascii "B01" ++ fmtPadded 2 lid ++ fmtPadded 3 user

def bonFront : List Byte :=
  space ++ (fmtNat 10 radio.toNat ++ (space ++ (fmtNat 10 peer.toNat ++ (ascii " 0.0 radioid=" ++
    fmtNat 10 radio.toNat ++ ascii " peerid=" ++ fmtNat 10 peer.toNat ++ space))))

def bonTail : List Byte := fmtPadded 2 srcLid ++ (fmtPadded 3 tgid ++ [callType])

def bonLine : List Byte :=
  bonWord lid user ++ (bonFront radio peer ++ (ascii "Bee=" ++ (ascii "B01" ++ bonTail srcLid tgid callType)))

theorem buildBon_eq : buildBon lid user radio peer srcLid tgid callType =
    bonLine lid user radio peer srcLid tgid callType ++ [0x0A] := by
  have marker : ascii " Bee=B01" = space ++ ascii "Bee=" ++ ascii "B01" := by decide
  simp [buildBon, bonLine, bonWord, bonFront, bonTail, newline, marker]

variable {lid user radio peer srcLid tgid callType}

theorem isDigits_radio (x : BitVec 32) : IsDigits 10 (fmtNat 10 x.toNat) :=
  isDigits_fmtNat (by decide) (by decide) _

/-- What holds of digits and of the fixed text holds of a whole line. -/
theorem bonFront_all {p : Byte → Bool} (digit : ∀ c, (digitVal 10 c).isSome = true → p c = true)
    (text : (space ++ ascii " 0.0 radioid=" ++ ascii " peerid=").all p = true) :
    (bonFront radio peer).all p = true := by
  simp only [List.all_append, Bool.and_eq_true] at text
  obtain ⟨⟨blank, first⟩, second⟩ := text
  simp [bonFront, List.all_append, blank, first, second, (isDigits_radio radio).all digit, (isDigits_radio peer).all digit]

theorem bonWord_all (hlid : 0 ≤ lid) (huser : 0 ≤ user) {p : Byte → Bool}
    (digit : ∀ c, (digitVal 10 c).isSome = true → p c = true) (text : (ascii "B01").all p = true) :
    (bonWord lid user).all p = true := by
  simp [bonWord, List.all_append, text, (isDigits_fmtPadded hlid).all digit, (isDigits_fmtPadded huser).all digit]

theorem bonTail_all (hsrc : 0 ≤ srcLid) (htgid : 0 ≤ tgid) {p : Byte → Bool}
    (digit : ∀ c, (digitVal 10 c).isSome = true → p c = true) (type : p callType = true) :
    (bonTail srcLid tgid callType).all p = true := by
  simp [bonTail, List.all_append, type, (isDigits_fmtPadded hsrc).all digit, (isDigits_fmtPadded htgid).all digit]

/-- The marker is found where it was put. -/
theorem strstr_bonLine (hlid : 0 ≤ lid) (huser : 0 ≤ user) :
    strstr (ascii "Bee=") (bonLine lid user radio peer srcLid tgid callType) =
      some (ascii "Bee=" ++ (ascii "B01" ++ bonTail srcLid tgid callType)) := by
  have marker : ascii "Bee=" = 0x42 :: 0x65 :: ascii "e=" := by decide
  have noB : ∀ s : List Byte, s.all (fun c => c != 0x42) = true → (0x42 : Byte) ∉ s := by
    intro s all member
    simpa using List.all_eq_true.mp all _ member
  have digit : ∀ c : Byte, (digitVal 10 c).isSome = true → (c != 0x42) = true := by decide +kernel
  have word : (0x42 : Byte) ∉ ascii "01" ++ fmtPadded 2 lid ++ fmtPadded 3 user := by
    apply noB
    simp only [List.all_append, (isDigits_fmtPadded hlid).all digit, (isDigits_fmtPadded huser).all digit, Bool.and_true]
    decide
  have front : (0x42 : Byte) ∉ bonFront radio peer := noB _ (bonFront_all digit (by decide))
  have split : bonLine lid user radio peer srcLid tgid callType = 0x42 :: (ascii "01" ++ fmtPadded 2 lid ++ fmtPadded 3 user ++
      (bonFront radio peer ++ (ascii "Bee=" ++ (ascii "B01" ++ bonTail srcLid tgid callType)))) := rfl
  -- the line's own first byte is no marker, and there is no other before the one that was put there
  rw [split, marker, strstr_cons_of_ne, strstr_skip word, strstr_skip front, strstr_here]
  intro b member
  obtain rfl : 0x30 = b := by simpa [ascii] using member
  decide

theorem length_digits_le (x : BitVec 32) : (fmtNat 10 x.toNat).length ≤ 10 :=
  length_fmtNat_le (by decide) (by decide) (by have := x.isLt; omega)

/-- The two identities are the second and third word. -/
theorem parseBon_bonLine (hlid : 0 ≤ lid) (lidFits : lid < 2 ^ 31) (huser : 0 ≤ user) (userFits : user < 1000) :
    parseBon (bonLine lid user radio peer srcLid tgid callType) =
      parseBee radio peer (ascii "B01" ++ bonTail srcLid tgid callType) := by
  have digit : ∀ c : Byte, (digitVal 10 c).isSome = true → (!isSpace c) = true := by decide +kernel
  have inside : ∀ s : List Byte, s.all (fun c => !isSpace c) = true → ∀ c ∈ s, isSpace c = false := by
    intro s all c member
    simpa using List.all_eq_true.mp all c member
  have ten : ∀ x : BitVec 32, (fmtNat 10 x.toNat).length ≤ 31 := fun x => le_trans (length_digits_le x) (by decide)
  have wordLength : (bonWord lid user).length ≤ 63 := by
    have first : (fmtPadded 2 lid).length ≤ 10 := length_fmtPadded_le hlid (by decide) (by decide) (by omega)
    have second : (fmtPadded 3 user).length ≤ 3 := length_fmtPadded_le huser (by decide) (by decide) (by omega)
    have three : (ascii "B01").length = 3 := rfl
    simp only [bonWord, List.length_append]
    omega
  -- the three words, and whatever is behind the second blank
  obtain ⟨behind, words⟩ : ∃ behind, bonLine lid user radio peer srcLid tgid callType =
      [] ++ (bonWord lid user ++ (space ++ (fmtNat 10 radio.toNat ++ (space ++ (fmtNat 10 peer.toNat ++ 0x20 :: behind))))) := by
    refine ⟨ascii "0.0 radioid=" ++ fmtNat 10 radio.toNat ++ ascii " peerid=" ++ fmtNat 10 peer.toNat ++ space ++
      (ascii "Bee=" ++ (ascii "B01" ++ bonTail srcLid tgid callType)), ?_⟩
    have marker : ascii " 0.0 radioid=" = 0x20 :: ascii "0.0 radioid=" := by decide
    simp [bonLine, bonFront, marker]
  have blank : ∀ c ∈ space, isSpace c = true := by decide
  have ends : ∀ s : List Byte, ∀ c ∈ (space ++ s).head?, isSpace c = true := by
    intro s c member
    obtain rfl : 0x20 = c := by simpa [space] using member
    decide
  -- each scan stops at the blank behind its word, before the width does
  have first : scanWord 63 (bonLine lid user radio peer srcLid tgid callType) = some (bonWord lid user,
      space ++ (fmtNat 10 radio.toNat ++ (space ++ (fmtNat 10 peer.toNat ++ 0x20 :: behind)))) := by
    rw [words]
    exact scanWord_word (by simp) (inside _ (bonWord_all hlid huser digit (by decide))) (by simp [bonWord, ascii]) wordLength
      (ends _)
  have second := scanWord_word blank (inside _ ((isDigits_radio radio).all digit)) (fmtNat_ne_nil (by decide) _)
    (ten radio) (ends (fmtNat 10 peer.toNat ++ 0x20 :: behind))
  have third := scanWord_word blank (inside _ ((isDigits_radio peer).all digit)) (fmtNat_ne_nil (by decide) _)
    (ten peer) (ends behind)
  have skip : (ascii "Bee=" ++ (ascii "B01" ++ bonTail srcLid tgid callType)).drop 4 = ascii "B01" ++ bonTail srcLid tgid callType := rfl
  simp only [parseBon, strstr_bonLine hlid huser, Option.bind_eq_bind, Option.bind_some, first, second]
  rw [show (space ++ (fmtNat 10 peer.toNat ++ 0x20 :: behind)) = space ++ (fmtNat 10 peer.toNat ++ (space ++ behind)) from rfl, third]
  simp only [Option.bind_some, skip, strtoul32_fmtNat 10 (by decide) (by decide)]

theorem trimTail_concat {front : List Byte} (type : 0x21 ≤ callType) : trimTail (front ++ [callType]) = front ++ [callType] := by
  have kept : (callType == 0x0D || callType == 0x0A || callType == 0x20) = false := by
    simp only [Bool.or_eq_false_iff, beq_eq_false_iff_ne]
    exact ⟨⟨by bv_omega, by bv_omega⟩, by bv_omega⟩
  rw [trimTail, List.reverse_concat, List.dropWhile_cons_of_neg (by rw [kept]; exact Bool.false_ne_true), List.reverse_cons,
    List.reverse_reverse]

/-- The LID comes off the front, the call type off the end, and the talkgroup is what is left. -/
theorem parseBee_bonTail (hsrc : 0 ≤ srcLid) (srcFits : srcLid ≤ 99) (htgid : 0 ≤ tgid) (tgidFits : tgid < 2 ^ 31)
    (type : 0x21 ≤ callType) : parseBee radio peer (ascii "B01" ++ bonTail srcLid tgid callType) =
      some { radio, peer, srcLid, tgid, callType } := by
  have two : (fmtPadded 2 srcLid).length = 2 := length_fmtPadded hsrc (by decide) (by omega)
  have some_digit : 0 < (fmtPadded 3 tgid).length := List.length_pos_iff.mpr (fmtPadded_ne_nil htgid)
  have ten : (fmtPadded 3 tgid).length ≤ 10 := length_fmtPadded_le htgid (by decide) (by decide) (by omega)
  have trimmed : trimTail (bonTail srcLid tgid callType) = bonTail srcLid tgid callType := by
    rw [bonTail, ← List.append_assoc]
    exact trimTail_concat type
  have length : (bonTail srcLid tgid callType).length = (fmtPadded 3 tgid).length + 3 := by
    simp [bonTail, two]
    omega
  have lid : atoi ((bonTail srcLid tgid callType).take 2) = srcLid := by
    have value : digitsValue 10 0 (fmtPadded 2 srcLid) = srcLid.natAbs := digitsValue_fmtPadded hsrc
    rw [bonTail, List.take_left' two, ← List.append_nil (fmtPadded 2 srcLid),
      atoi_digits (isDigits_fmtPadded hsrc) (fmtPadded_ne_nil hsrc) (by simp [Stops]) (by omega), value]
    omega
  have group : atoi (((bonTail srcLid tgid callType).drop 2).take (min (fmtPadded 3 tgid).length 15)) = tgid := by
    have value : digitsValue 10 0 (fmtPadded 3 tgid) = tgid.natAbs := digitsValue_fmtPadded htgid
    rw [bonTail, List.drop_left' two, min_eq_left (by omega), List.take_left' rfl, ← List.append_nil (fmtPadded 3 tgid),
      atoi_digits (isDigits_fmtPadded htgid) (fmtPadded_ne_nil htgid) (by simp [Stops]) (by omega), value]
    omega
  have last : (bonTail srcLid tgid callType).getLastD 0 = callType := by
    rw [bonTail, ← List.append_assoc, List.getLastD_concat]
  have marked : (ascii "B01").isPrefixOf (ascii "B01" ++ bonTail srcLid tgid callType) = true := by
    rw [List.isPrefixOf_iff_prefix]
    exact List.prefix_append _ _
  have behind : (ascii "B01" ++ bonTail srcLid tgid callType).drop 3 = bonTail srcLid tgid callType := rfl
  have places : (bonTail srcLid tgid callType).length - 3 = (fmtPadded 3 tgid).length := by omega
  simp only [parseBee, marked, behind, trimmed, places, lid, group, last]
  simp [length]

theorem signalOf_bonLine (link : Nat) (hlid : 0 ≤ lid) (lidFits : lid < 2 ^ 31) (huser : 0 ≤ user) (userFits : user < 1000)
    (sendable : (Signal.bon radio peer srcLid tgid callType).Sendable) :
    signalOf link (bonLine lid user radio peer srcLid tgid callType) = some (.bon link radio peer srcLid tgid callType) := by
  obtain ⟨⟨hsrc, srcFits⟩, ⟨htgid, tgidFits⟩, type, -⟩ := sendable
  simp [signalOf, strstr_bonLine hlid huser, parseBon_bonLine hlid lidFits huser userFits,
    parseBee_bonTail hsrc srcFits htgid tgidFits type]

theorem isLine_bonLine (hlid : 0 ≤ lid) (huser : 0 ≤ user)
    (sendable : (Signal.bon radio peer srcLid tgid callType).Sendable) :
    IsLine (bonLine lid user radio peer srcLid tgid callType) := by
  obtain ⟨⟨hsrc, -⟩, ⟨htgid, -⟩, type, -⟩ := sendable
  have all : ∀ p : Byte → Bool, (∀ c, (digitVal 10 c).isSome = true → p c = true) → p callType = true →
      (space ++ ascii " 0.0 radioid=" ++ ascii " peerid=").all p = true → (ascii "B01").all p = true →
      (ascii "Bee=").all p = true → (bonLine lid user radio peer srcLid tgid callType).all p = true := by
    intro p digit kind text start marker
    simp only [bonLine, List.all_append, bonWord_all hlid huser digit start, bonFront_all digit text, marker, start,
      bonTail_all hsrc htgid digit kind, Bool.and_true]
  have absent : ∀ b : Byte, (∀ c : Byte, (digitVal 10 c).isSome = true → (c != b) = true) → (callType != b) = true →
      (space ++ ascii " 0.0 radioid=" ++ ascii " peerid=").all (fun c => c != b) = true →
      (ascii "B01").all (fun c => c != b) = true → (ascii "Bee=").all (fun c => c != b) = true →
      b ∉ bonLine lid user radio peer srcLid tgid callType := by
    intro b digit kind text start marker member
    simpa using List.all_eq_true.mp (all _ digit kind text start marker) b member
  have printable : ∀ b : Byte, b < 0x21 → (callType != b) = true := by
    intro b low
    simp only [bne_iff_ne]
    bv_omega
  constructor
  case inLine => exact absent 0x0A (by decide +kernel) (printable _ (by decide)) (by decide) (by decide) (by decide)
  case noNul => exact absent 0 (by decide +kernel) (printable _ (by decide)) (by decide) (by decide) (by decide)
  case noCr =>
    intro last
    have member := List.mem_of_getLast? last
    exact absent 0x0D (by decide +kernel) (printable _ (by decide)) (by decide) (by decide) (by decide) member

/-- It is far shorter than any buffer on its way. -/
theorem length_bonLine (hlid : 0 ≤ lid) (lidFits : lid < 2 ^ 31) (huser : 0 ≤ user) (userFits : user < 1000)
    (sendable : (Signal.bon radio peer srcLid tgid callType).Sendable) :
    (bonLine lid user radio peer srcLid tgid callType).length < 128 := by
  obtain ⟨⟨hsrc, srcFits⟩, ⟨htgid, tgidFits⟩, -⟩ := sendable
  have first : (fmtPadded 2 lid).length ≤ 10 := length_fmtPadded_le hlid (by decide) (by decide) (by omega)
  have second : (fmtPadded 3 user).length ≤ 3 := length_fmtPadded_le huser (by decide) (by decide) (by omega)
  have third : (fmtPadded 2 srcLid).length ≤ 2 := length_fmtPadded_le hsrc (by decide) (by decide) (by omega)
  have fourth : (fmtPadded 3 tgid).length ≤ 10 := length_fmtPadded_le htgid (by decide) (by decide) (by omega)
  have radios := length_digits_le radio
  have peers := length_digits_le peer
  have text : (ascii "B01").length = 3 ∧ (ascii "Bee=").length = 4 ∧ (ascii " 0.0 radioid=").length = 13 ∧
      (ascii " peerid=").length = 8 ∧ space.length = 1 := by decide
  simp only [bonLine, bonWord, bonFront, bonTail, List.length_append, List.length_singleton, text]
  omega

end Bon

/-! ## The B-off line -/

section Boff
variable (lid lost total rssi : Int)

def boffTail : List Byte := fmtInt lost ++ (ascii "/" ++ (fmtInt total ++ (ascii " RSSI=" ++ fmtInt rssi)))

def boffLine : List Byte :=
  ascii "B" ++ (fmtPadded 2 lid ++ (ascii "00000  " ++ (ascii "LOSS=" ++ boffTail lost total rssi)))

theorem buildBoff_eq : buildBoff lid lost total rssi = boffLine lid lost total rssi ++ [0x0A] := by
  have marker : ascii "00000  LOSS=" = ascii "00000  " ++ ascii "LOSS=" := by decide
  simp [buildBoff, boffLine, boffTail, newline, marker]

variable {lid lost total rssi}

theorem fmtInt_all {p : Byte → Bool} (digit : ∀ c, (digitVal 10 c).isSome = true → p c = true) (minus : p 0x2D = true)
    (x : Int) : (fmtInt x).all p = true := by
  have digits : (fmtNat 10 x.natAbs).all p = true := (isDigits_fmtNat (by decide) (by decide) _).all digit
  unfold fmtInt
  split
  · rw [List.all_cons, minus, digits, Bool.and_true]
  · exact digits

theorem boffLine_all (hlid : 0 ≤ lid) {p : Byte → Bool} (digit : ∀ c, (digitVal 10 c).isSome = true → p c = true)
    (minus : p 0x2D = true) (text : (ascii "00000  " ++ ascii "LOSS=" ++ ascii "/" ++ ascii " RSSI=").all p = true) :
    (fmtPadded 2 lid ++ (ascii "00000  " ++ (ascii "LOSS=" ++ boffTail lost total rssi))).all p = true := by
  simp only [List.all_append, Bool.and_eq_true] at text
  obtain ⟨⟨⟨zeros, marker⟩, slash⟩, last⟩ := text
  simp [boffTail, List.all_append, (isDigits_fmtPadded hlid).all digit, zeros, marker, slash, last, fmtInt_all digit minus]

/-- No B-off is taken for a B-on. -/
theorem strstr_bee_boffLine (hlid : 0 ≤ lid) : strstr (ascii "Bee=") (boffLine lid lost total rssi) = none := by
  have marker : ascii "Bee=" = 0x42 :: 0x65 :: ascii "e=" := by decide
  have digit : ∀ c : Byte, (digitVal 10 c).isSome = true → (c != 0x42) = true := by decide +kernel
  have absent : (0x42 : Byte) ∉ fmtPadded 2 lid ++ (ascii "00000  " ++ (ascii "LOSS=" ++ boffTail lost total rssi)) := by
    intro member
    simpa using List.all_eq_true.mp (boffLine_all hlid digit (by decide) (by decide)) _ member
  have split : boffLine lid lost total rssi =
      0x42 :: (fmtPadded 2 lid ++ (ascii "00000  " ++ (ascii "LOSS=" ++ boffTail lost total rssi))) := rfl
  rw [split, marker, strstr_cons_of_ne, strstr_eq_none absent]
  -- the first byte is followed by a digit
  intro b member same
  have lead : b ∈ fmtPadded 2 lid := by
    obtain ⟨d, ds, digits⟩ := List.exists_cons_of_ne_nil (show fmtPadded 2 lid ≠ [] from fmtPadded_ne_nil hlid)
    rw [digits] at member ⊢
    obtain rfl : d = b := by simpa using member
    simp
  have here := isDigits_fmtPadded hlid b lead
  subst same
  cases here

theorem strstr_loss_boffLine (hlid : 0 ≤ lid) :
    strstr (ascii "LOSS=") (boffLine lid lost total rssi) = some (ascii "LOSS=" ++ boffTail lost total rssi) := by
  have marker : ascii "LOSS=" = 0x4C :: ascii "OSS=" := by decide
  have digit : ∀ c : Byte, (digitVal 10 c).isSome = true → (c != 0x4C) = true := by decide +kernel
  have absent : (0x4C : Byte) ∉ ascii "B" ++ (fmtPadded 2 lid ++ ascii "00000  ") := by
    intro member
    have all : (ascii "B" ++ (fmtPadded 2 lid ++ ascii "00000  ")).all (fun c => c != 0x4C) = true := by
      simp only [List.all_append, (isDigits_fmtPadded hlid).all digit, Bool.true_and]
      decide
    simpa using List.all_eq_true.mp all _ member
  have split : boffLine lid lost total rssi =
      (ascii "B" ++ (fmtPadded 2 lid ++ ascii "00000  ")) ++ (ascii "LOSS=" ++ boffTail lost total rssi) := by
    simp [boffLine]
  rw [split, marker, strstr_skip absent, strstr_here]

theorem signalOf_boffLine (link : Nat) (hlid : 0 ≤ lid) (sendable : (Signal.boff lost total rssi).Sendable) :
    signalOf link (boffLine lid lost total rssi) = some (.boff link lost total) := by
  obtain ⟨⟨lostLow, lostHigh⟩, ⟨totalLow, totalHigh⟩, -⟩ := sendable
  have skip : (ascii "LOSS=" ++ boffTail lost total rssi).drop 5 =
      fmtInt lost ++ (0x2F :: (fmtInt total ++ (ascii " RSSI=" ++ fmtInt rssi))) := rfl
  have slash : Stops 10 (0x2F :: (fmtInt total ++ (ascii " RSSI=" ++ fmtInt rssi))) := by
    intro c member
    obtain rfl : 0x2F = c := by simpa using member
    rfl
  have blank : Stops 10 (ascii " RSSI=" ++ fmtInt rssi) := by
    intro c member
    obtain rfl : 0x20 = c := by simpa [ascii] using member
    rfl
  have parsed : parseBoff (boffLine lid lost total rssi) = some (lost, total) := by
    have second := scanInt_fmtInt totalLow totalHigh blank
    simp only [parseBoff, strstr_loss_boffLine hlid, Option.bind_eq_bind, Option.bind_some, skip,
      scanInt_fmtInt lostLow lostHigh slash]
    exact (congrArg (fun scanned => scanned.bind fun a : Int × List Byte => some (lost, a.1)) second).trans rfl
  simp [signalOf, strstr_bee_boffLine hlid, strstr_loss_boffLine hlid, parsed]

theorem isLine_boffLine (hlid : 0 ≤ lid) : IsLine (boffLine lid lost total rssi) := by
  have absent : ∀ b : Byte, (∀ c : Byte, (digitVal 10 c).isSome = true → (c != b) = true) → (0x2D != b) = true → 0x42 ≠ b →
      (ascii "00000  " ++ ascii "LOSS=" ++ ascii "/" ++ ascii " RSSI=").all (fun c => c != b) = true →
      b ∉ boffLine lid lost total rssi := by
    intro b digit minus first text member
    have rest : b ∈ fmtPadded 2 lid ++ (ascii "00000  " ++ (ascii "LOSS=" ++ boffTail lost total rssi)) := by
      rcases List.mem_cons.mp (show b ∈ 0x42 :: _ from member) with same | later
      · exact absurd same.symm first
      · exact later
    simpa using List.all_eq_true.mp (boffLine_all hlid digit minus text) b rest
  constructor
  case inLine => exact absent 0x0A (by decide +kernel) (by decide) (by decide) (by decide)
  case noNul => exact absent 0 (by decide +kernel) (by decide) (by decide) (by decide)
  case noCr =>
    intro last
    exact absent 0x0D (by decide +kernel) (by decide) (by decide) (by decide) (List.mem_of_getLast? last)

theorem length_fmtInt {x : Int} (fits : InCInt x) : (fmtInt x).length ≤ 11 := by
  have digits : (fmtNat 10 x.natAbs).length ≤ 10 := by
    apply length_fmtNat_le (by decide) (by decide)
    obtain ⟨low, high⟩ := fits
    omega
  unfold fmtInt
  split
  · simp
    omega
  · omega

theorem length_boffLine (hlid : 0 ≤ lid) (lidFits : lid < 2 ^ 31) (sendable : (Signal.boff lost total rssi).Sendable) :
    (boffLine lid lost total rssi).length < 128 := by
  obtain ⟨hlost, htotal, hrssi⟩ := sendable
  have first : (fmtPadded 2 lid).length ≤ 10 := length_fmtPadded_le hlid (by decide) (by decide) (by omega)
  have losts := length_fmtInt hlost
  have totals := length_fmtInt htotal
  have rssis := length_fmtInt hrssi
  have text : (ascii "B").length = 1 ∧ (ascii "00000  ").length = 7 ∧ (ascii "LOSS=").length = 5 ∧ (ascii "/").length = 1 ∧
      (ascii " RSSI=").length = 6 := by decide
  simp only [boffLine, boffTail, List.length_append, text]
  omega

end Boff

/-! ## Either of them -/

/-- Every signal is a line that fits and that the other end reads as the same call. -/
theorem Signal.read_back {signal : Signal} (sendable : signal.Sendable) {lid user : Int} (hlid : 0 ≤ lid) (lidFits : lid < 2 ^ 31)
    (huser : 0 ≤ user) (userFits : user < 1000) :
    ∃ line, signal.built lid user = line ++ [0x0A] ∧ IsLine line ∧ line.length < 128 ∧
      ∀ link, signalOf link line = some (signal.call link) := by
  cases signal with
  | bon radio peer srcLid tgid callType =>
    exact ⟨_, buildBon_eq .., isLine_bonLine hlid huser sendable, length_bonLine hlid lidFits huser userFits sendable,
      fun link => signalOf_bonLine link hlid lidFits huser userFits sendable⟩
  | boff lost total rssi =>
    exact ⟨_, buildBoff_eq .., isLine_boffLine hlid, length_boffLine hlid lidFits sendable,
      fun link => signalOf_boffLine link hlid sendable⟩

end Cc2obp
