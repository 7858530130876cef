import Cc2obp.Lib.Bytes

/-!
# OpenBridge DMRD layout

The 53-byte body by its fixed offsets, and the meaning of the flags byte.
-/
namespace Cc2obp

def obpfSlot2 : Byte := 0x80
def obpfCallUnit : Byte := 0x40
def obpfFrametypeMask : Byte := 0x30
def obpfFrametypeVoice : Byte := 0x00
def obpfFrametypeVoicesync : Byte := 0x10
def obpfFrametypeDatasync : Byte := 0x20
def obpfDtypeMask : Byte := 0x0F
def obpfSltVhead : Byte := 0x01
def obpfSltVterm : Byte := 0x02
def obpfVcsbkMask : Byte := 0x23

abbrev DmrdBody := Bytes 53

def dmrdMagic : List Byte := [0x44, 0x4D, 0x52, 0x44]

/-- The body `send_dmrd` fills in, field by field. -/
def dmrdBody (seq : Byte) (rfSrc dst netId : BitVec 32) (flags : Byte) (stream : Bytes 4)
    (payload : Bytes 33) : DmrdBody :=
  ofList 53 (dmrdMagic ++ [seq] ++ wr24 rfSrc ++ wr24 dst ++ wr32 netId ++ [flags] ++
    stream.toList ++ payload.toList)

namespace DmrdBody

def seq (body : DmrdBody) : Byte := body[4]
def src (body : DmrdBody) : BitVec 32 := rd24 body[5] body[6] body[7]
def dst (body : DmrdBody) : BitVec 32 := rd24 body[8] body[9] body[10]
def netid (body : DmrdBody) : BitVec 32 := rd32 body[11] body[12] body[13] body[14]
def flags (body : DmrdBody) : Byte := body[15]
def stream (body : DmrdBody) : Bytes 4 := slice body 16 4
def payload (body : DmrdBody) : Bytes 33 := slice body 20 33

/-- The body up to its sequence byte. -/
def eraseSeq (body : DmrdBody) : DmrdBody := body.set 4 0

end DmrdBody

section Fields
variable (seq : Byte) (rfSrc dst netId : BitVec 32) (flags : Byte) (stream : Bytes 4)
  (payload : Bytes 33)

@[simp] theorem seq_dmrdBody : DmrdBody.seq (dmrdBody seq rfSrc dst netId flags stream payload) = seq := by
  simp [DmrdBody.seq, dmrdBody, dmrdMagic]

@[simp] theorem src_dmrdBody : DmrdBody.src (dmrdBody seq rfSrc dst netId flags stream payload) =
    rfSrc &&& 0xFFFFFF#32 := by
  simp [DmrdBody.src, dmrdBody, dmrdMagic, wr24, rd24_wr24]

@[simp] theorem dst_dmrdBody : DmrdBody.dst (dmrdBody seq rfSrc dst netId flags stream payload) =
    dst &&& 0xFFFFFF#32 := by
  simp [DmrdBody.dst, dmrdBody, dmrdMagic, wr24, rd24_wr24]

@[simp] theorem netid_dmrdBody :
    DmrdBody.netid (dmrdBody seq rfSrc dst netId flags stream payload) = netId := by
  simp [DmrdBody.netid, dmrdBody, dmrdMagic, wr24, wr32, rd32_wr32]

@[simp] theorem flags_dmrdBody :
    DmrdBody.flags (dmrdBody seq rfSrc dst netId flags stream payload) = flags := by
  simp [DmrdBody.flags, dmrdBody, dmrdMagic, wr24, wr32]

@[simp] theorem stream_dmrdBody :
    DmrdBody.stream (dmrdBody seq rfSrc dst netId flags stream payload) = stream := by
  ext i h
  simp [DmrdBody.stream, dmrdBody, dmrdMagic, wr24, wr32, List.getElem?_append, h, Nat.add_comm 16]

@[simp] theorem payload_dmrdBody :
    DmrdBody.payload (dmrdBody seq rfSrc dst netId flags stream payload) = payload := by
  ext i h
  simp [DmrdBody.payload, dmrdBody, dmrdMagic, wr24, wr32, List.getElem?_append, h, Nat.add_comm 20]

@[simp] theorem eraseSeq_dmrdBody :
    DmrdBody.eraseSeq (dmrdBody seq rfSrc dst netId flags stream payload) =
      dmrdBody 0 rfSrc dst netId flags stream payload := by
  rw [DmrdBody.eraseSeq, dmrdBody, set_ofList _ _ _ _ (by simp [dmrdMagic])]
  rfl

/-- A body starts with the magic. -/
theorem magic_dmrdBody : (dmrdBody seq rfSrc dst netId flags stream payload).toList.take 4 = dmrdMagic := by
  apply List.ext_getElem (by simp [dmrdMagic])
  intro k h _
  have early : k < 4 := by
    simp at h
    omega
  interval_cases k <;> simp [dmrdBody, dmrdMagic]

end Fields

end Cc2obp
