import Cc2obp.Crypto
import Cc2obp.World

/-!
# The OpenBridge mux

Datagrams of `obp_link.c`: a 53-byte DMRD body and its HMAC-SHA1, one UDP socket
for each enabled peer.
-/
namespace Cc2obp

open World

def obpDmrdBodyLen : Nat := 53
def obpHmacLen : Nat := 20
def obpDmrdPktLen : Nat := 73
def obpNetidOff : Nat := 11

/-- `ct_eq`: the differences of all byte pairs, gathered before the one comparison. -/
def ctEq (a b : List Byte) : Bool := (List.zipWith (· ^^^ ·) a b).foldl (· ||| ·) 0 == 0

/-- The body of a datagram that passes every check of the socket it arrived on. -/
def acceptDmrd (o : ObpPeerConfig) (datagram srcIp : List Byte) (srcPort : Int) : Option DmrdBody :=
  let buf := datagram.take 128
  let body := buf.take obpDmrdBodyLen
  if buf.length < 4 ∨ buf.take 4 ≠ dmrdMagic then none
  else if buf.length ≠ obpDmrdPktLen then none
  else if srcIp ≠ o.peerIp ∨ srcPort ≠ o.peerPort then none
  else if !ctEq (hmacSha1 o.passphrase body).toList (buf.drop obpDmrdBodyLen) then none
  else if DmrdBody.flags (ofList 53 body) &&& obpfSlot2 ≠ 0 then none
  else some (ofList 53 body)

def onObpReadable (peer : Nat) (datagram srcIp : List Byte) (srcPort : Int) (w : World) : World :=
  match acceptDmrd (w.cfg.openbridgeAt peer) datagram srcIp srcPort with
  | some body => w.emit (.call (.dmrd peer body))
  | none => w

def bindPeer (c : Ctx) (peer : Nat) (w : World) : World :=
  if c.bindOk peer then
    let (fd, w) := w.openFd
    let w := { w with
      obpFd := Function.update w.obpFd peer fd, obpActive := Function.update w.obpActive peer true }
    w.onLoop (evAddFd fd (.obp peer))
  else { w with obpFd := Function.update w.obpFd peer (-1) }

def unbindPeer (peer : Nat) (w : World) : World :=
  let fd := w.obpFd peer
  let w :=
    if 0 ≤ fd then
      let w := (w.onLoop (evDelFd fd)).closeFd fd
      { w with obpFd := Function.update w.obpFd peer (-1) }
    else w
  { w with obpActive := Function.update w.obpActive peer false }

def obpPeerIsEnabled (w : World) (peer : Nat) : Bool :=
  decide (peer < w.cfg.nOpenbridge) && w.obpActive peer

/-- The body with the network id in its source peer field. -/
def stampNetid (networkId : BitVec 32) (body : DmrdBody) : DmrdBody :=
  ofList 53 (body.toList.take obpNetidOff ++ wr32 networkId ++ body.toList.drop (obpNetidOff + 4))

/-- The body as the peer is sent it: our own network id, unless the source peer is preserved. -/
def outgoingBody (o : ObpPeerConfig) (body : DmrdBody) : DmrdBody :=
  if o.preserveSourcePeer then body else stampNetid o.networkId body

/-- The body and its HMAC. -/
def signDmrd (o : ObpPeerConfig) (body : DmrdBody) : List Byte :=
  body.toList ++ (hmacSha1 o.passphrase body.toList).toList

def obpSendDmrd (w : World) (link peer : Nat) (body : DmrdBody) : World :=
  if w.cfg.nOpenbridge ≤ peer ∨ w.obpFd peer < 0 then w
  else
    let o := w.cfg.openbridgeAt peer
    w.emit (.udp (w.obpFd peer) (.dmrd link peer) (signDmrd o (outgoingBody o body)) o.peerIp
      o.peerPort)

/-- The sockets of the enabled peers; a peer that fails to bind stays without one. -/
def obpMuxStart (c : Ctx) (w : World) : World :=
  (List.range w.cfg.nOpenbridge).foldl (fun w i =>
    if (w.cfg.openbridgeAt i).enabled then bindPeer c i w else w) w

/-- One peer's turn in `obp_mux_reconcile`. -/
def reconcilePeer (c : Ctx) (w : World) (i : Nat) : World :=
  let enabled := (w.cfg.openbridgeAt i).enabled
  if enabled ∧ !w.obpActive i then bindPeer c i w
  else if !enabled ∧ w.obpActive i then unbindPeer i w
  else w

def obpMuxReconcile (c : Ctx) (w : World) : World :=
  (List.range w.cfg.nOpenbridge).foldl (reconcilePeer c) w

def obpMuxStop (w : World) : World :=
  (List.range w.cfg.nOpenbridge).foldl (fun w i => if w.obpActive i then unbindPeer i w else w) w

theorem ctEq_self (l : List Byte) : ctEq l l = true := by
  have zeros : (List.zipWith (· ^^^ ·) l l).foldl (· ||| ·) 0#8 = 0 := by
    induction l with
    | nil => rfl
    | cons b l ih => simpa using ih
  simpa [ctEq] using zeros

theorem foldl_or_eq_zero (l : List Byte) (a : Byte) : l.foldl (· ||| ·) a = 0 ↔ a = 0 ∧ ∀ b ∈ l, b = 0 := by
  induction l generalizing a with
  | nil => simp
  | cons b l ih =>
    have both : a ||| b = 0 ↔ a = 0 ∧ b = 0 := BitVec.or_eq_zero_iff
    rw [List.foldl_cons, ih, both]
    simp [and_assoc]

/-- Of digests of one length, only equal ones pass. -/
theorem ctEq_iff {a b : List Byte} (length : a.length = b.length) : ctEq a b = true ↔ a = b := by
  constructor
  · intro equal
    have zeros := ((foldl_or_eq_zero _ _).mp (beq_iff_eq.mp equal)).2
    apply List.ext_getElem length
    intro k inside inside'
    have zero := zeros (a[k] ^^^ b[k]) (List.mem_iff_getElem.mpr ⟨k, by simp [inside, inside'], by simp⟩)
    exact BitVec.xor_eq_zero_iff.mp zero
  · rintro rfl
    exact ctEq_self a

/-- A datagram that fails one of the checks of the peer's socket. -/
inductive FailsDmrd (o : ObpPeerConfig) (datagram srcIp : List Byte) (srcPort : Int) : Prop where
  | length (other : datagram.length ≠ obpDmrdPktLen)
  | magic (other : datagram.take 4 ≠ dmrdMagic)
  | source (other : srcIp ≠ o.peerIp ∨ srcPort ≠ o.peerPort)
  | hmac (other : datagram.drop obpDmrdBodyLen ≠ (hmacSha1 o.passphrase (datagram.take obpDmrdBodyLen)).toList)
  | slot (two : DmrdBody.flags (ofList 53 (datagram.take obpDmrdBodyLen)) &&& obpfSlot2 ≠ 0)

/-- It gets no further. -/
theorem FailsDmrd.dropped {o : ObpPeerConfig} {datagram srcIp : List Byte} {srcPort : Int}
    (fails : FailsDmrd o datagram srcIp srcPort) : acceptDmrd o datagram srcIp srcPort = none := by
  by_cases length : datagram.length = 73
  · -- nothing of it is cut off by the buffer
    have whole : datagram.take 128 = datagram := List.take_of_length_le (by omega)
    cases fails with
    | length other => exact absurd length other
    | magic other => simp [acceptDmrd, whole, other]
    | source other => simp [acceptDmrd, whole, other]
    | hmac other =>
      have unequal : ctEq (hmacSha1 o.passphrase (datagram.take obpDmrdBodyLen)).toList
          (datagram.drop obpDmrdBodyLen) = false := by
        rw [Bool.eq_false_iff, Ne, ctEq_iff (by simp [length, obpDmrdBodyLen])]
        exact Ne.symm other
      simp [acceptDmrd, whole, unequal]
    | slot two =>
      simp only [acceptDmrd, whole]
      simp only [ne_eq, two, not_false_eq_true, if_true, ite_self]
  · have cut : (datagram.take 128).length ≠ obpDmrdPktLen := by
      simp only [List.length_take, obpDmrdPktLen]
      omega
    simp only [acceptDmrd]
    rw [if_pos (show (datagram.take 128).length ≠ obpDmrdPktLen from cut), ite_self]

/-- A signed body without the slot bit is accepted by a socket that expects its sender. -/
theorem acceptDmrd_signDmrd (o o' : ObpPeerConfig) (body : DmrdBody)
    (magic : body.toList.take 4 = dmrdMagic) (slot : body.flags &&& obpfSlot2 = 0)
    (key : o.passphrase = o'.passphrase) :
    acceptDmrd o (signDmrd o' body) o.peerIp o.peerPort = some body := by
  have length : (signDmrd o' body).length = 73 := by simp [signDmrd]
  have whole : (signDmrd o' body).take 128 = signDmrd o' body := List.take_of_length_le (by omega)
  have front : (signDmrd o' body).take 53 = body.toList := by
    rw [signDmrd, List.take_left' (by simp)]
  have back : (signDmrd o' body).drop 53 = (hmacSha1 o'.passphrase body.toList).toList := by
    rw [signDmrd, List.drop_left' (by simp)]
  have start : (signDmrd o' body).take 4 = dmrdMagic := by
    rw [← magic, ← front, List.take_take]
    rfl
  simp only [acceptDmrd, obpDmrdBodyLen, obpDmrdPktLen, whole, length, front, back, start, key,
    ctEq_self, ofList_toList, slot]
  simp

/-! ## What a datagram says -/

/-- The body in the first 53 bytes of a datagram. -/
def datagramBody (bytes : List Byte) : DmrdBody := ofList 53 bytes

@[simp] theorem datagramBody_signDmrd (o : ObpPeerConfig) (body : DmrdBody) :
    datagramBody (signDmrd o body) = body := by
  refine Vector.ext fun k h => ?_
  simp [datagramBody, signDmrd, List.getElem?_append, h]

/-- The network id takes the place of four bytes and the others stay. -/
theorem getElem_stampNetid (networkId : BitVec 32) (body : DmrdBody) (k : Nat) (h : k < 53) :
    (stampNetid networkId body)[k] =
      if k < 11 then body[k] else if k < 15 then (wr32 networkId).getD (k - 11) 0 else body[k] := by
  have front : (body.toList.take 11).length = 11 := by simp
  have word : (wr32 networkId).length = 4 := rfl
  simp only [stampNetid, obpNetidOff, getElem_ofList, List.append_assoc, List.getD_eq_getElem?_getD]
  split
  next early => simp [List.getElem?_append, early]
  next late =>
    rw [List.getElem?_append_right (by rw [front]; omega), front]
    split
    next inside => rw [List.getElem?_append_left (by rw [word]; omega)]
    next past =>
      rw [List.getElem?_append_right (by rw [word]; omega), word]
      have place : 15 + (k - 11 - 4) = k := by omega
      simp [place, h]

section Outgoing
variable (o : ObpPeerConfig) (body : DmrdBody)

@[simp] theorem seq_outgoingBody : (outgoingBody o body).seq = body.seq := by
  unfold outgoingBody
  split <;> simp [DmrdBody.seq, getElem_stampNetid]

@[simp] theorem src_outgoingBody : (outgoingBody o body).src = body.src := by
  unfold outgoingBody
  split <;> simp [DmrdBody.src, getElem_stampNetid]

@[simp] theorem dst_outgoingBody : (outgoingBody o body).dst = body.dst := by
  unfold outgoingBody
  split <;> simp [DmrdBody.dst, getElem_stampNetid]

@[simp] theorem flags_outgoingBody : (outgoingBody o body).flags = body.flags := by
  unfold outgoingBody
  split <;> simp [DmrdBody.flags, getElem_stampNetid]

@[simp] theorem stream_outgoingBody : (outgoingBody o body).stream = body.stream := by
  unfold outgoingBody
  split
  · rfl
  · refine Vector.ext fun k h => ?_
    simp [DmrdBody.stream, getElem_stampNetid, show ¬16 + k < 11 by omega, show ¬16 + k < 15 by omega]

@[simp] theorem payload_outgoingBody : (outgoingBody o body).payload = body.payload := by
  unfold outgoingBody
  split
  · rfl
  · refine Vector.ext fun k h => ?_
    simp [DmrdBody.payload, getElem_stampNetid, show ¬20 + k < 11 by omega, show ¬20 + k < 15 by omega]

theorem netid_outgoingBody :
    (outgoingBody o body).netid = if o.preserveSourcePeer then body.netid else o.networkId := by
  unfold outgoingBody
  split
  · rfl
  · simp [DmrdBody.netid, getElem_stampNetid, wr32, rd32_wr32]

/-- The first four bytes stay. -/
theorem magic_outgoingBody : (outgoingBody o body).toList.take 4 = body.toList.take 4 := by
  unfold outgoingBody
  split
  · rfl
  · apply List.ext_getElem (by simp)
    intro k h _
    have early : k < 4 := by simpa using h
    have within : k < 53 := by omega
    simp [getElem_stampNetid, show k < 11 by omega]

end Outgoing

end Cc2obp
