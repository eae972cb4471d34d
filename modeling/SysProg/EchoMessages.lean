import SysProg.EchoProtocol

/-! What the decoder of the echo protocol makes of the bytes received. It
undoes the encoder, but it compares the length it needs with the bytes it has
the wrong way round: incomplete messages pass, and complete messages with
bytes behind them do not. -/
namespace SysProg.EchoMessages
open CString EchoProtocol

/-- The decoder takes complete messages and no others. The length of the
message is the 16-bit sum of the code. -/
structure AcceptsComplete (rawBuff : List UInt8) (buffSz : UInt16) : Prop where
  sound : ∀ msg, extractMsg rawBuff buffSz = some msg →
    protoHeaderSize ≤ buffSz.toNat ∧ getMsgLen msg ≤ buffSz
  complete : protoHeaderSize + (ProtoMsg.ofBytes rawBuff).protoHeader.msgLen.toNat ≤ buffSz.toNat →
    ∃ msg, extractMsg rawBuff buffSz = some msg

/-- The test of the source: whole headers, and at most the bytes declared. -/
theorem extractMsg_eq_some_iff {rawBuff : List UInt8} {buffSz : UInt16} {msg : ProtoMsg} :
    extractMsg rawBuff buffSz = some msg ↔
      msg = ProtoMsg.ofBytes rawBuff ∧ protoHeaderSize ≤ buffSz.toNat ∧
        buffSz.toNat ≤ (getMsgLen (ProtoMsg.ofBytes rawBuff)).toNat := by
  show (if buffSz < UInt16.ofNat protoHeaderSize then none
    else if getMsgLen (ProtoMsg.ofBytes rawBuff) < buffSz then none else some (ProtoMsg.ofBytes rawBuff)) = _ ↔ _
  by_cases small : buffSz < UInt16.ofNat protoHeaderSize
  · rw [if_pos small]
    rw [UInt16.lt_iff_toNat_lt, protoHeaderSize_toNat] at small
    exact iff_of_false (by simp) fun accepted => absurd accepted.2.1 (Nat.not_le.mpr small)
  · rw [if_neg small]
    rw [UInt16.lt_iff_toNat_lt, protoHeaderSize_toNat, Nat.not_lt] at small
    by_cases more : getMsgLen (ProtoMsg.ofBytes rawBuff) < buffSz
    · rw [if_pos more]
      rw [UInt16.lt_iff_toNat_lt] at more
      exact iff_of_false (by simp) fun accepted => absurd accepted.2.2 (Nat.not_le.mpr more)
    · rw [if_neg more]
      rw [UInt16.lt_iff_toNat_lt, Nat.not_lt] at more
      constructor
      · intro same
        exact ⟨(Option.some.inj same).symm, small, more⟩
      · rintro ⟨rfl, -, -⟩
        rfl

/-- The decoder is right about buffers without a whole header, about messages
of exactly the bytes received, and about lengths that no 16 bits can hold. -/
theorem accepts_complete_iff (rawBuff : List UInt8) (buffSz : UInt16) :
    AcceptsComplete rawBuff buffSz ↔
      buffSz.toNat < protoHeaderSize ∨
      buffSz.toNat = protoHeaderSize + (ProtoMsg.ofBytes rawBuff).protoHeader.msgLen.toNat ∨
      2 ^ 16 ≤ protoHeaderSize + (ProtoMsg.ofBytes rawBuff).protoHeader.msgLen.toNat := by
  have declared := (ProtoMsg.ofBytes rawBuff).protoHeader.msgLen.toNat_lt
  have received := buffSz.toNat_lt
  have needed := getMsgLen_toNat (ProtoMsg.ofBytes rawBuff)
  simp only [protoHeaderSize] at needed ⊢
  constructor
  · rintro ⟨sound, complete⟩
    by_contra other
    have whole : protoHeaderSize ≤ buffSz.toNat := by simp only [protoHeaderSize]; omega
    by_cases less : (getMsgLen (ProtoMsg.ofBytes rawBuff)).toNat < buffSz.toNat
    · obtain ⟨msg, accepted⟩ := complete (by simp only [protoHeaderSize]; omega)
      exact absurd (extractMsg_eq_some_iff.mp accepted).2.2 (Nat.not_le.mpr less)
    · have accepted := extractMsg_eq_some_iff.mpr ⟨rfl, whole, Nat.not_lt.mp less⟩
      have inside := UInt16.le_iff_toNat_le.mp (sound _ accepted).2
      omega
  · intro fits
    constructor
    · intro msg accepted
      obtain ⟨rfl, whole, enough⟩ := extractMsg_eq_some_iff.mp accepted
      refine ⟨whole, UInt16.le_iff_toNat_le.mpr ?_⟩
      simp only [protoHeaderSize] at whole
      omega
    · intro holds
      simp only [protoHeaderSize] at holds
      refine ⟨_, extractMsg_eq_some_iff.mpr ⟨rfl, ?_, ?_⟩⟩
      · simp only [protoHeaderSize]; omega
      · omega

/-- The header of a message of five bytes, none of which has arrived. -/
def headerOnly : List UInt8 := (ProtoHeader.mk protoIdentity protoVersion 0 protoDirReq 5).toBytes

theorem incomplete_message_accepted : ¬ AcceptsComplete headerOnly 10 := by
  rintro ⟨sound, -⟩
  have accepted : extractMsg headerOnly 10 = some (ProtoMsg.ofBytes headerOnly) := by decide
  exact absurd (sound _ accepted).2 (by decide)

/-! ### Decoding undoes encoding -/

theorem buildMsg_eq_none_iff (data : List UInt8) (len : UInt16) (msgBuff : List UInt8) (msgBuffLen : UInt16) :
    buildMsg data len msgBuff msgBuffLen = none ↔ msgBuffLen.toNat < len.toNat + protoHeaderSize := by
  simp only [buildMsg]
  split
  · rename_i small
    exact iff_of_true rfl small
  · rename_i room
    exact iff_of_false (by simp) room

/-- The memory a message is built in is cleared, so every field of the header
is known. -/
theorem buildMsg_eq_some {data msgBuff : List UInt8} {len msgBuffLen : UInt16} {msg : ProtoMsg}
    (wide : data.length = len.toNat) (built : buildMsg data len msgBuff msgBuffLen = some msg) :
    len.toNat + protoHeaderSize ≤ msgBuffLen.toNat ∧
      msg.protoHeader = ⟨protoIdentity, protoVersion, 0, protoDirReq, len⟩ ∧
      msg.payload.take len.toNat = data := by
  simp only [buildMsg] at built
  split at built
  · cases built
  · rename_i room
    rw [Nat.not_lt] at room
    obtain rfl := Option.some.inj built
    have cleared : ((memcpy msgBuff (List.replicate msgBuffLen.toNat 0)).drop 4).take 2 = [0, 0] := by
      rw [memcpy, List.drop_append_of_le_length (by simp [protoHeaderSize] at room ⊢; omega), List.drop_replicate,
        List.take_append_of_le_length (by simp [protoHeaderSize] at room ⊢; omega), List.take_replicate,
        Nat.min_eq_left (by simp only [protoHeaderSize] at room; omega)]
      rfl
    have zero : (ProtoMsg.ofBytes (memcpy msgBuff (List.replicate msgBuffLen.toNat 0))).protoHeader.protoWorkSim =
        0 := by
      simp only [ProtoMsg.ofBytes, ProtoHeader.ofBytes, cleared]
      decide
    have whole : data.take len.toNat = data := List.take_of_length_le (Nat.le_of_eq wide)
    refine ⟨room, ?_, ?_⟩
    · simp only [zero]
    · simp only [whole, memcpy]
      exact List.take_left' wide

/-- A message that was built has the length of its parts. -/
theorem built_length {data msgBuff : List UInt8} {len msgBuffLen : UInt16} {msg : ProtoMsg}
    (wide : data.length = len.toNat) (built : buildMsg data len msgBuff msgBuffLen = some msg) :
    (getMsgLen msg).toNat = len.toNat + protoHeaderSize := by
  obtain ⟨room, header, -⟩ := buildMsg_eq_some wide built
  have bound := msgBuffLen.toNat_lt
  have declared : msg.protoHeader.msgLen = len := by rw [header]
  rw [getMsgLen_toNat, declared]
  exact Nat.mod_eq_of_lt (by omega)

/-- `build_msg` refuses exactly the payloads that do not fit, and what it builds
is decoded again from a copy of the bytes of the message. -/
structure RoundTrips (data : List UInt8) (len : UInt16) (msgBuff : List UInt8) (msgBuffLen : UInt16) : Prop where
  refused : buildMsg data len msgBuff msgBuffLen = none ↔ msgBuffLen.toNat < len.toNat + protoHeaderSize
  length : ∀ msg, buildMsg data len msgBuff msgBuffLen = some msg →
    (getMsgLen msg).toNat = len.toNat + protoHeaderSize
  decoded : ∀ msg, buildMsg data len msgBuff msgBuffLen = some msg →
    ∃ received, extractMsg (msg.toBytes.take (getMsgLen msg).toNat) (getMsgLen msg) = some received ∧
      received.protoHeader.protoId = protoIdentity ∧ received.protoHeader.protoVer = protoVersion ∧
      received.protoHeader.msgDir = protoDirReq ∧ received.protoHeader.msgLen = len ∧ received.payload = data

theorem decoding_undoes_encoding (data : List UInt8) (len : UInt16) (msgBuff : List UInt8) (msgBuffLen : UInt16)
    (wide : data.length = len.toNat) : RoundTrips data len msgBuff msgBuffLen := by
  refine ⟨buildMsg_eq_none_iff .., fun msg built => built_length wide built, fun msg built => ?_⟩
  obtain ⟨-, header, payload⟩ := buildMsg_eq_some wide built
  have length := built_length wide built
  have copy : ProtoMsg.ofBytes (msg.toBytes.take (getMsgLen msg).toNat) = ⟨msg.protoHeader, data⟩ := by
    rw [length, Nat.add_comm, ofBytes_copy, payload]
  have sameLength : getMsgLen ⟨msg.protoHeader, data⟩ = getMsgLen msg := rfl
  refine ⟨⟨msg.protoHeader, data⟩, extractMsg_eq_some_iff.mpr ⟨copy.symm, ?_, ?_⟩, ?_⟩
  · rw [length]
    exact Nat.le_add_left ..
  · rw [copy, sameLength]
  · rw [header]
    exact ⟨rfl, rfl, rfl, rfl, rfl⟩

/-- The message of `proto_test.c` in a buffer of `BUFF_SZ` bytes. -/
theorem test_message_round_trips : RoundTrips (text "TEST MESSAGE") 12 (List.replicate 1024 0) 1024 :=
  decoding_undoes_encoding (text "TEST MESSAGE") 12 (List.replicate 1024 0) 1024 (by decide)

end SysProg.EchoMessages
