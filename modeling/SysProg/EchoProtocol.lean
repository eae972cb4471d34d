import Mathlib.Data.UInt
import SysProg.Lib.CString
import SysProg.Lib.LittleEndian

/-! `protocol.h` and `protocol.c`: the messages of the echo demo, on the wire
and in memory. A pointer to a message is modelled by what it points to, the
header and whatever memory follows it. -/
namespace SysProg.EchoProtocol
open CString LittleEndian

/-- `proto_header_t`; five 16-bit fields leave no padding. -/
structure ProtoHeader where
  protoId : UInt16
  protoVer : UInt16
  protoWorkSim : UInt16
  msgDir : UInt16
  msgLen : UInt16
  deriving DecidableEq

/-- `sizeof(proto_header_t)`. -/
def protoHeaderSize : Nat := 10

def maxMsgBuff : Nat := 2048
def maxPayloadSz : Nat := maxMsgBuff - protoHeaderSize

def protoIdentity : UInt16 := 0x0808
def protoVersion : UInt16 := 1
def protoDirReq : UInt16 := 1
def protoDirRsp : UInt16 := 2

namespace ProtoHeader

def toBytes (header : ProtoHeader) : List UInt8 :=
  encodeUInt16 header.protoId ++ encodeUInt16 header.protoVer ++ encodeUInt16 header.protoWorkSim ++
    encodeUInt16 header.msgDir ++ encodeUInt16 header.msgLen

def ofBytes (bytes : List UInt8) : ProtoHeader where
  protoId := decodeUInt16 (bytes.take 2)
  protoVer := decodeUInt16 ((bytes.drop 2).take 2)
  protoWorkSim := decodeUInt16 ((bytes.drop 4).take 2)
  msgDir := decodeUInt16 ((bytes.drop 6).take 2)
  msgLen := decodeUInt16 ((bytes.drop 8).take 2)

end ProtoHeader

/-- `proto_msg_t` in some memory: `payload` is all of it behind the header, of
which the message claims `msgLen` bytes. -/
structure ProtoMsg where
  protoHeader : ProtoHeader
  payload : List UInt8
  deriving DecidableEq

namespace ProtoMsg

def toBytes (msg : ProtoMsg) : List UInt8 := msg.protoHeader.toBytes ++ msg.payload

/-- The cast of a buffer to `proto_msg_t *`. -/
def ofBytes (buff : List UInt8) : ProtoMsg := ⟨ProtoHeader.ofBytes buff, buff.drop protoHeaderSize⟩

end ProtoMsg

/-! ### The functions of `protocol.c` -/

/-- `none` is NULL; otherwise the message that `msg_buff` then holds. The size
is added in `int`, where it cannot overflow. -/
def buildMsg (data : List UInt8) (len : UInt16) (msgBuff : List UInt8) (msgBuffLen : UInt16) : Option ProtoMsg :=
  let bytesNeeded := len.toNat + protoHeaderSize
  if msgBuffLen.toNat < bytesNeeded then none
  else
    let msg := ProtoMsg.ofBytes (memcpy msgBuff (List.replicate msgBuffLen.toNat 0))
    some {
      protoHeader := { msg.protoHeader with
        protoId := protoIdentity
        protoVer := protoVersion
        msgDir := protoDirReq
        msgLen := len }
      payload := memcpy msg.payload (data.take len.toNat) }

/-- The sum is squeezed into 16 bits. -/
def getMsgLen (msg : ProtoMsg) : UInt16 := msg.protoHeader.msgLen + UInt16.ofNat protoHeaderSize

def extractMsg (rawBuff : List UInt8) (buffSz : UInt16) : Option ProtoMsg :=
  let msg := ProtoMsg.ofBytes rawBuff
  if buffSz < UInt16.ofNat protoHeaderSize then none
  else
    let lengthNeeded := msg.protoHeader.msgLen + UInt16.ofNat protoHeaderSize
    if lengthNeeded < buffSz then none
    else some msg

/-! ### Bytes and messages -/

@[simp] theorem length_header (header : ProtoHeader) : header.toBytes.length = protoHeaderSize := by
  simp [ProtoHeader.toBytes, protoHeaderSize]

private theorem field_at (before field after : List UInt8) (place : before.length = n) (wide : field.length = 2) :
    ((before ++ (field ++ after)).drop n).take 2 = field := by
  rw [List.drop_left' place, List.take_left' wide]

/-- A header is read back from its bytes, whatever follows them. -/
@[simp] theorem headerOfBytes_append (header : ProtoHeader) (rest : List UInt8) :
    ProtoHeader.ofBytes (header.toBytes ++ rest) = header := by
  obtain ⟨id, ver, workSim, dir, len⟩ := header
  have first : (encodeUInt16 id ++ (encodeUInt16 ver ++ (encodeUInt16 workSim ++ (encodeUInt16 dir ++
      (encodeUInt16 len ++ rest))))).take 2 = encodeUInt16 id := List.take_left' (by simp)
  have second := field_at (n := 2) (encodeUInt16 id) (encodeUInt16 ver)
    (encodeUInt16 workSim ++ (encodeUInt16 dir ++ (encodeUInt16 len ++ rest))) (by simp) (by simp)
  have third := field_at (n := 4) (encodeUInt16 id ++ encodeUInt16 ver) (encodeUInt16 workSim)
    (encodeUInt16 dir ++ (encodeUInt16 len ++ rest)) (by simp) (by simp)
  have fourth := field_at (n := 6) (encodeUInt16 id ++ encodeUInt16 ver ++ encodeUInt16 workSim)
    (encodeUInt16 dir) (encodeUInt16 len ++ rest) (by simp) (by simp)
  have fifth := field_at (n := 8) (encodeUInt16 id ++ encodeUInt16 ver ++ encodeUInt16 workSim ++ encodeUInt16 dir)
    (encodeUInt16 len) rest (by simp) (by simp)
  simp only [List.append_assoc] at third fourth fifth
  simp only [ProtoHeader.ofBytes, ProtoHeader.toBytes, List.append_assoc, first, second, third, fourth, fifth,
    decode_encodeUInt16]

/-- A copy of the first bytes of a message is a message with the same header
and the first bytes of its payload. -/
theorem ofBytes_copy (msg : ProtoMsg) (n : Nat) :
    ProtoMsg.ofBytes (msg.toBytes.take (protoHeaderSize + n)) = ⟨msg.protoHeader, msg.payload.take n⟩ := by
  have cut : msg.toBytes.take (protoHeaderSize + n) = msg.protoHeader.toBytes ++ msg.payload.take n := by
    rw [ProtoMsg.toBytes, List.take_append, length_header, Nat.add_sub_cancel_left,
      List.take_of_length_le (by simp)]
  rw [cut, ProtoMsg.ofBytes, headerOfBytes_append, List.drop_left' (length_header _)]

theorem protoHeaderSize_toNat : (UInt16.ofNat protoHeaderSize).toNat = protoHeaderSize := by decide

/-- The length of a message is that of its parts, unless the sum wraps around. -/
theorem getMsgLen_toNat (msg : ProtoMsg) :
    (getMsgLen msg).toNat = (msg.protoHeader.msgLen.toNat + protoHeaderSize) % 2 ^ 16 := by
  rw [getMsgLen, UInt16.toNat_add, protoHeaderSize_toNat]

end SysProg.EchoProtocol
