import Cc2obp.Cccc.CallSignals
import Cc2obp.Cccc.Question

/-!
# The texts of a handshake

A Question is read back to the sync source and the LID it was built from, and an
Answer to the codec and the frame time, whatever the other fields hold.
-/
namespace Cc2obp

open World CString Lines

/-- Texts with a newline behind each. -/
def onLines (texts : List (List Byte)) : List Byte := (texts.map (· ++ newline)).flatten

/-- A configured text: it fits its field and has no newline and no NUL. -/
structure FieldText (size : Nat) (text : List Byte) : Prop where
  fits : text.length < size
  inLine : (0x0A : Byte) ∉ text
  noNul : (0 : Byte) ∉ text

/-- What is read of a text that was sent on a line of its own. -/
def received (text : List Byte) : List Byte := (lineOf (text ++ [0x0A])).take 255

theorem received_line {text : List Byte} (isLine : IsLine text) (short : text.length ≤ 255) : received text = text := by
  rw [received, lineOf_line isLine, List.take_of_length_le short]

/-! ## Reading texts line by line -/

section Reading
variable {rx : List Byte} {qlines : List (List Byte)}

theorem readQuestion_inLine {text : List Byte} (inLine : (0x0A : Byte) ∉ text) (room : rx.length + text.length < rxbufCap)
    (more : List Byte) : readQuestion rx qlines (text ++ more) = readQuestion (rx ++ text) qlines more := by
  induction text generalizing rx with
  | nil => simp
  | cons b text ih =>
    have other : b ≠ 0x0A := fun same => inLine (by simp [same])
    have inLine' : (0x0A : Byte) ∉ text := fun later => inLine (List.mem_cons_of_mem b later)
    simp only [List.length_cons] at room
    have kept : push rxbufCap rx b = rx ++ [b] := if_pos (by omega)
    rw [List.cons_append, readQuestion, if_neg other, kept, ih inLine' (by simp; omega)]
    simp

/-- Each text is a line of the Question, which is complete with the last. -/
theorem readQuestion_texts {texts : List (List Byte)} (some_text : texts ≠ [])
    (fit : ∀ text ∈ texts, (0x0A : Byte) ∉ text ∧ text.length + 1 < rxbufCap)
    (whole : qlines.length + texts.length = ccccQuestionNfields) :
    ∃ rx, readQuestion [] qlines (onLines texts) = .complete rx (qlines ++ texts.map received) [] := by
  induction texts generalizing qlines with
  | nil => exact absurd rfl some_text
  | cons text texts ih =>
    obtain ⟨inLine, room⟩ := fit text (by simp)
    have kept : push rxbufCap text 0x0A = text ++ [0x0A] := if_pos (by omega)
    -- the text fills the buffer and its newline hands it over
    have here : readQuestion [] qlines (onLines (text :: texts)) =
        if (qlines ++ [received text]).length = ccccQuestionNfields then
          .complete (text ++ [0x0A]) (qlines ++ [received text]) (onLines texts)
        else readQuestion [] (qlines ++ [received text]) (onLines texts) := by
      rw [onLines, List.map_cons, List.flatten_cons, List.append_assoc, readQuestion_inLine inLine (by simpa using by omega),
        newline, List.singleton_append, readQuestion]
      simp only [List.nil_append, kept, if_true]
      rfl
    rw [here]
    simp only [List.length_cons] at whole
    -- the Question is complete with the last text and not before
    cases texts with
    | nil =>
      rw [if_pos (by simpa using whole)]
      exact ⟨text ++ [0x0A], by simp [onLines]⟩
    | cons next texts =>
      simp only [List.length_cons] at whole
      rw [if_neg (by simp; omega)]
      obtain ⟨rx, reading⟩ := @ih (qlines ++ [received text]) (by simp)
        (fun later member => fit later (List.mem_cons_of_mem text member)) (by simp; omega)
      exact ⟨rx, by rw [reading]; simp⟩

theorem cut_texts {texts : List (List Byte)} (fit : ∀ text ∈ texts, (0x0A : Byte) ∉ text ∧ text.length + 1 < rxbufCap) :
    (cut rxbufCap [] (onLines texts)).1.map (List.take 255) = texts.map received := by
  induction texts with
  | nil => rfl
  | cons text texts ih =>
    obtain ⟨inLine, room⟩ := fit text (by simp)
    have rest := ih fun later member => fit later (List.mem_cons_of_mem text member)
    rw [onLines, List.map_cons, List.flatten_cons, List.append_assoc, newline, List.singleton_append,
      cut_text _ inLine room, List.map_cons, List.map_cons]
    exact congrArg _ rest

end Reading

/-! ## The Question -/

theorem mem_fmtNat {base : Nat} (wide : 2 ≤ base) (narrow : base ≤ 16) {n : Nat} {c : Byte} (member : c ∈ fmtNat base n) :
    0x30 ≤ c :=
  (digit_range (isDigits_widen narrow (isDigits_fmtNat wide narrow n) c member)).1

theorem mem_fmtInt {x : Int} {c : Byte} (member : c ∈ fmtInt x) : 0x2D ≤ c := by
  have digit : c ∈ fmtNat 10 x.natAbs → 0x2D ≤ c := by
    intro member
    have low := mem_fmtNat (by decide) (by decide) member
    bv_omega
  unfold fmtInt at member
  split at member
  · rcases List.mem_cons.mp member with rfl | later
    · decide
    · exact digit later
  · exact digit member

theorem isLine_of_low {text : List Byte} (low : ∀ c ∈ text, 0x20 ≤ c) : IsLine text := by
  constructor
  case inLine => exact fun member => absurd (low _ member) (by decide)
  case noNul => exact fun member => absurd (low _ member) (by decide)
  case noCr => exact fun last => absurd (low _ (List.mem_of_getLast? last)) (by decide)

theorem length_fmtInt_le {x : Int} {k : Nat} (some_digit : 1 ≤ k) (fits : x.natAbs < 10 ^ k) : (fmtInt x).length ≤ k + 1 := by
  have short : (fmtNat 10 x.natAbs).length ≤ k := length_fmtNat_le (by decide) some_digit fits
  unfold fmtInt
  split <;> simp <;> omega

/-- The texts of a Question. -/
def questionTexts (ssrc : BitVec 32) (lid : Int) (channel sitename mac coderev os : List Byte) : List (List Byte) :=
  [fmtNat 16 ssrc.toNat, fmtInt lid ++ space, channel, sitename, ccccConntypeServerInbound, mac, coderev, os]

/-- The texts of an Answer. -/
def answerTexts (wallSec wallUsec : Int) (sitename os version : List Byte) : List (List Byte) :=
  [ccccCodecAmbe, fmtInt ccccMsPerFrame, fmtInt wallSec ++ space ++ fmtInt wallUsec, version, sitename, ascii "0", os]

theorem buildQuestion_eq (ssrc : BitVec 32) (lid : Int) (channel sitename mac coderev os : List Byte) :
    buildQuestion ssrc lid channel sitename mac coderev os = onLines (questionTexts ssrc lid channel sitename mac coderev os) := by
  simp [buildQuestion, questionTexts, onLines]

theorem buildAnswer_eq (wallSec wallUsec : Int) (sitename os version : List Byte) :
    buildAnswer wallSec wallUsec sitename os version = onLines (answerTexts wallSec wallUsec sitename os version) := by
  simp [buildAnswer, answerTexts, onLines]

theorem length_onLines (texts : List (List Byte)) : (onLines texts).length = (texts.map fun text => text.length + 1).sum := by
  simp [onLines, newline, Function.comp_def]

section Question
variable (ssrc : BitVec 32) {lid : Int} {channel sitename mac coderev os : List Byte}

theorem isLine_lid (nonneg : 0 ≤ lid) (fits : lid < 2 ^ 31) : IsLine (fmtInt lid ++ space) ∧ (fmtInt lid).length ≤ 11 := by
  refine ⟨isLine_of_low fun c member => ?_, length_fmtInt_le (by decide) (by omega)⟩
  rcases List.mem_append.mp member with digit | blank
  · have low := mem_fmtInt digit
    bv_omega
  · rw [List.mem_singleton.mp blank]
    decide

/-- A Question fits its buffer and reads back as the sync source and the LID it was built from. -/
theorem readQuestion_built (nonneg : 0 ≤ lid) (lidFits : lid < 2 ^ 31) (hchannel : FieldText 128 channel)
    (hsitename : FieldText 128 sitename) (hmac : FieldText 32 mac) (hcoderev : FieldText 32 coderev) (hos : FieldText 128 os) :
    (buildQuestion ssrc lid channel sitename mac coderev os).length < 512 ∧
      ∃ rx qlines, readQuestion [] [] (buildQuestion ssrc lid channel sitename mac coderev os) = .complete rx qlines [] ∧
        questionSsrc qlines = ssrc ∧ questionLid qlines = lid := by
  obtain ⟨lidLine, lidShort⟩ := isLine_lid nonneg lidFits
  have hexLine : IsLine (fmtNat 16 ssrc.toNat) := isLine_of_low fun c member => by
    have low := mem_fmtNat (by decide) (by decide) member
    bv_omega
  have hexShort : (fmtNat 16 ssrc.toNat).length ≤ 8 := length_fmtNat_le (by decide) (by decide) ssrc.isLt
  -- the sync source has at most eight hex digits, the LID ten digits and a blank
  have conntype : ccccConntypeServerInbound.length = 14 := rfl
  constructor
  · rw [buildQuestion_eq, length_onLines]
    have channelFits := hchannel.fits
    have sitenameFits := hsitename.fits
    have macFits := hmac.fits
    have coderevFits := hcoderev.fits
    have osFits := hos.fits
    simp [questionTexts, space, conntype]
    omega
  · rw [buildQuestion_eq]
    have fit : ∀ text ∈ questionTexts ssrc lid channel sitename mac coderev os,
        (0x0A : Byte) ∉ text ∧ text.length + 1 < rxbufCap := by
      -- a configured text is shorter than the line buffer
      have field : ∀ {size : Nat} {text : List Byte}, size ≤ 128 → FieldText size text →
          (0x0A : Byte) ∉ text ∧ text.length + 1 < rxbufCap := by
        intro size text small fieldText
        have fits := fieldText.fits
        exact ⟨fieldText.inLine, by simp only [rxbufCap]; omega⟩
      simp only [questionTexts, List.forall_mem_cons, List.not_mem_nil, false_implies, implies_true, and_true]
      refine ⟨⟨hexLine.inLine, ?_⟩, ⟨lidLine.inLine, ?_⟩, field (by decide) hchannel, field (by decide) hsitename, by decide,
        field (by decide) hmac, field (by decide) hcoderev, field (by decide) hos⟩
      · simp only [rxbufCap]
        omega
      · simp only [rxbufCap, List.length_append, space, List.length_singleton]
        omega
    have eight : ([] : List (List Byte)).length + (questionTexts ssrc lid channel sitename mac coderev os).length =
        ccccQuestionNfields := rfl
    obtain ⟨rx, reading⟩ := readQuestion_texts (by simp [questionTexts]) fit eight
    refine ⟨rx, _, reading, ?_, ?_⟩
    · have first : questionSsrc ([] ++ (questionTexts ssrc lid channel sitename mac coderev os).map received) =
          strtoul32 16 (received (fmtNat 16 ssrc.toNat)) := rfl
      rw [first, received_line hexLine (by omega), strtoul32_fmtNat 16 (by decide) (by decide)]
    · have second : questionLid ([] ++ (questionTexts ssrc lid channel sitename mac coderev os).map received) =
          atoi (received (fmtInt lid ++ space)) := rfl
      have value : digitsValue 10 0 (fmtNat 10 lid.natAbs) = lid.natAbs := digitsValue_fmtNat (by decide) (by decide) _
      have unsigned : fmtInt lid = fmtNat 10 lid.natAbs := if_neg (by omega)
      rw [second, received_line lidLine (by simp [space]; omega), unsigned, atoi_digits (isDigits_fmtNat (by decide) (by decide) _)
        (fmtNat_ne_nil (by decide) _) (by simp [Stops, space]; rfl) (by rw [value]; omega), value]
      omega

end Question

/-! ## The Answer -/

/-- The wall clock as it comes from `clock_gettime`. -/
structure Ctx.Clocked (c : Ctx) : Prop where
  seconds : c.wallSec.natAbs ≤ 2 ^ 63
  micros : c.wallUsec.natAbs < 10 ^ 6

/-- The lines a link takes for an Answer it can work with. -/
structure Agreed (lines : List (List Byte)) : Prop where
  whole : lines.length = ccccAnswerNfields
  codec : lines.getD 0 [] = ccccCodecAmbe
  frame : atoi (lines.getD 1 []) = ccccMsPerFrame

/-- An Answer fits its buffer, ends with a newline and is one the other end can work with. -/
theorem cut_built {c : Ctx} (clocked : c.Clocked) {sitename os version : List Byte} (hsitename : FieldText 128 sitename)
    (hos : FieldText 128 os) (hversion : FieldText 128 version) :
    let answer := buildAnswer c.wallSec c.wallUsec sitename os version
    answer.length < 512 ∧ answer.getLast? = some 0x0A ∧ Agreed ((cut rxbufCap [] answer).1.map (List.take 255)) := by
  intro answer
  have secondsShort : (fmtInt c.wallSec).length ≤ 20 := by
    have seconds := clocked.seconds
    exact length_fmtInt_le (by decide) (by omega)
  have microsShort : (fmtInt c.wallUsec).length ≤ 7 := length_fmtInt_le (by decide) clocked.micros
  have frame : (fmtInt ccccMsPerFrame).length = 2 := by decide
  have sitenameFits := hsitename.fits
  have osFits := hos.fits
  have versionFits := hversion.fits
  have codec : ccccCodecAmbe.length = 4 := rfl
  have zero : (ascii "0").length = 1 := by decide
  refine ⟨?_, ?_, ?_⟩
  · show (buildAnswer c.wallSec c.wallUsec sitename os version).length < 512
    rw [buildAnswer_eq, length_onLines]
    simp [answerTexts, space, codec, frame, zero]
    omega
  · exact List.getLast?_concat
  · have fit : ∀ text ∈ answerTexts c.wallSec c.wallUsec sitename os version, (0x0A : Byte) ∉ text ∧ text.length + 1 < rxbufCap := by
      have clock : (0x0A : Byte) ∉ fmtInt c.wallSec ++ space ++ fmtInt c.wallUsec := by
        intro member
        simp only [List.mem_append] at member
        rcases member with (digit | blank) | digit
        · exact absurd (mem_fmtInt digit) (by decide)
        · exact absurd blank (by decide)
        · exact absurd (mem_fmtInt digit) (by decide)
      simp only [answerTexts, List.forall_mem_cons, List.not_mem_nil, false_implies, implies_true, and_true]
      refine ⟨by decide, by decide, ⟨clock, ?_⟩, ⟨hversion.inLine, ?_⟩, ⟨hsitename.inLine, ?_⟩, by decide, hos.inLine, ?_⟩
      · simp only [rxbufCap, space, List.length_append, List.length_singleton]
        omega
      all_goals
        simp only [rxbufCap]
        omega
    have lines : (cut rxbufCap [] answer).1.map (List.take 255) =
        (answerTexts c.wallSec c.wallUsec sitename os version).map received := by
      rw [← cut_texts fit, ← buildAnswer_eq]
    have first : received ccccCodecAmbe = ccccCodecAmbe := by decide
    have second : atoi (received (fmtInt ccccMsPerFrame)) = ccccMsPerFrame := by decide
    rw [lines]
    exact ⟨rfl, first, second⟩

/-! ## Reading an Answer -/

@[simp] theorem links_setLink (w : World) (i : Nat) (lk : CcLink) : (w.setLink i lk).links i = lk := by
  simp [World.setLink]

/-- The Question of a link with a sync source. -/
def Config.questionAt (cfg : Config) (j : Nat) (ssrc : BitVec 32) : List Byte :=
  buildQuestion ssrc (cfg.linkAt j).ccLid (cfg.linkAt j).ccChannelName cfg.ccSiteName cfg.ccMacAddress cfg.ccCodeRevision
    cfg.ccOsVersion

/-- The record of a link that has written its Question. -/
def CcLink.asking (ssrc : BitVec 32) (lk : CcLink) : CcLink :=
  { lk with state := .handshaking, syncSource := ssrc, hasSyncSource := true }

/-- A link whose connection is there writes its Question. -/
theorem onConnectWritable_asks {c : Ctx} {j : Nat} {w : World} {ssrc : BitVec 32} (fd : Int)
    (minted : mintSyncSource w c.draws = some ssrc) :
    (onConnectWritable c j fd true w).links j = (w.links j).asking ssrc ∧
      (onConnectWritable c j fd true w).out = w.out ++ [.tcp j (w.links j).fd .question (w.cfg.questionAt j ssrc)] := by
  have minted' : mintSyncSource (w.onLoop (evDelFdWrite fd)) c.draws = some ssrc := minted
  simp only [onConnectWritable, Bool.not_true, Bool.false_eq_true, if_false, minted']
  simp [tcpSend, World.emit, World.onLoop, World.setLink, CcLink.asking, Config.questionAt]

section Feed
variable (c : Ctx) (j : Nat)

/-- The record of a link that has read some more of its Answer. -/
def CcLink.reads (lk : CcLink) (data : List Byte) : CcLink :=
  { lk with
    rxbuf := (cut rxbufCap lk.rxbuf data).2
    hslines := lk.hslines ++ (cut rxbufCap lk.rxbuf data).1.map (List.take 255) }

/-- A newline hands over the next line of the Answer. -/
theorem feedByte_handshaking (w : World) (state : (w.links j).state = .handshaking)
    (short : (w.links j).hslines.length < ccccAnswerNfields) {text : List Byte}
    (here : lineOf (push rxbufCap (w.links j).rxbuf 0x0A) = text) :
    feedByte (linkBuffer j) rxbufCap (linkOnLine c j) w 0x0A =
      let gathered := w.setLink j { w.links j with
        rxbuf := push rxbufCap (w.links j).rxbuf 0x0A, hslines := (w.links j).hslines ++ [text.take 255] }
      (linkBuffer j).put []
        (if (w.links j).hslines.length + 1 = ccccAnswerNfields then finishOutboundHandshake c j gathered else gathered) := by
  simp only [feedByte, if_true, linkBuffer, World.setLink, Function.update_self, linkOnLine, state, here, short,
    List.length_append, List.length_singleton, Function.update_idem]

/-- Up to the last line an Answer is only collected. -/
theorem feedBytes_handshaking (data : List Byte) (w : World) (state : (w.links j).state = .handshaking)
    (few : (w.links j).hslines.length + data.count 0x0A < ccccAnswerNfields) :
    feedBytes (linkBuffer j) rxbufCap (linkOnLine c j) data w = w.setLink j ((w.links j).reads data) := by
  induction data generalizing w with
  | nil => simp [CcLink.reads, cut, World.setLink]
  | cons b data ih =>
    rw [feedBytes_cons]
    by_cases ends : b = 0x0A
    · subst ends
      rw [List.count_cons_self] at few
      obtain ⟨text, here⟩ : ∃ text, lineOf (push rxbufCap (w.links j).rxbuf 0x0A) = text := ⟨_, rfl⟩
      have notLast : ¬(w.links j).hslines.length + 1 = ccccAnswerNfields := by omega
      have line : feedByte (linkBuffer j) rxbufCap (linkOnLine c j) w 0x0A =
          w.setLink j { w.links j with rxbuf := [], hslines := (w.links j).hslines ++ [text.take 255] } := by
        rw [feedByte_handshaking c j w state (by omega) here]
        simp only [notLast, if_false, linkBuffer, World.setLink, Function.update_self, Function.update_idem]
      have few' : ((w.links j).hslines ++ [text.take 255]).length + data.count 0x0A < ccccAnswerNfields := by
        rw [List.length_append, List.length_singleton]
        omega
      rw [line, ih _ (by simp [World.setLink, state]) (by simpa only [World.setLink, Function.update_self] using few')]
      simp only [CcLink.reads, cut, if_true, here]
      simp [World.setLink]
    · rw [List.count_cons_of_ne ends] at few
      have kept : feedByte (linkBuffer j) rxbufCap (linkOnLine c j) w b =
          w.setLink j { w.links j with rxbuf := push rxbufCap (w.links j).rxbuf b } := by
        simp only [feedByte, ends, if_false]
        rfl
      rw [kept, ih _ (by simp [World.setLink, state]) (by simpa [World.setLink] using few)]
      simp only [CcLink.reads, cut, ends, if_false]
      simp [World.setLink]

/-- The record of a link whose Answer was right. -/
def CcLink.opened (c : Ctx) (timer : Nat) (lk : CcLink) : CcLink :=
  { lk with rxbuf := [], hslines := [], state := .up, keepaliveTimer := some timer, lastKeepaliveRecv := c.now }

/-- The last newline of an Answer the link can work with takes it UP. -/
theorem feedBytes_answered (front : List Byte) (w : World) (state : (w.links j).state = .handshaking)
    (last : (w.links j).hslines.length + front.count 0x0A + 1 = ccccAnswerNfields)
    (agreed : Agreed ((w.links j).reads (front ++ newline)).hslines) :
    let after := feedBytes (linkBuffer j) rxbufCap (linkOnLine c j) (front ++ newline) w
    after.links j = (w.links j).opened c w.loop.nextTimer ∧ after.out = w.out ++ [.call (.linkUp j)] ∧
      after.loop.fds = w.loop.fds := by
  intro after
  have collected := feedBytes_handshaking c j front w state (by omega)
  obtain ⟨text, here⟩ : ∃ text, lineOf (push rxbufCap ((w.links j).reads front).rxbuf 0x0A) = text := ⟨_, rfl⟩
  have lines : ((w.links j).reads (front ++ newline)).hslines = ((w.links j).reads front).hslines ++ [text.take 255] := by
    have end_line : (cut rxbufCap ((w.links j).reads front).rxbuf newline).1 = [text] := by
      simp only [newline, cut, if_true, here]
    simp only [CcLink.reads, cut_append, List.map_append, List.append_assoc] at end_line ⊢
    rw [end_line]
    rfl
  rw [lines] at agreed
  -- six lines are in, so the newline brings the seventh
  have six : ((w.links j).reads front).hslines.length + 1 = ccccAnswerNfields := by
    simp only [CcLink.reads, List.length_append, List.length_map, length_cut]
    exact last
  have split : after = feedByte (linkBuffer j) rxbufCap (linkOnLine c j) (w.setLink j ((w.links j).reads front)) 0x0A := by
    rw [← collected]
    exact feedBytes_append _ _ _ front newline w
  have here' : lineOf (push rxbufCap ((w.setLink j ((w.links j).reads front)).links j).rxbuf 0x0A) = text := by
    rw [links_setLink]
    exact here
  rw [split, feedByte_handshaking c j (w.setLink j ((w.links j).reads front)) (by rw [links_setLink]; exact state)
    (by rw [links_setLink]; omega) here']
  simp only [World.setLink, Function.update_self, six, if_true, Function.update_idem]
  simp only [finishOutboundHandshake, World.setLink, Function.update_self, agreed.codec, agreed.frame, ne_eq, not_true, or_self,
    if_false, linkBuffer, armKeepalive, World.timerAfter, World.emit, World.onLoop, Function.update_idem]
  exact ⟨rfl, trivial, rfl⟩

end Feed

end Cc2obp
