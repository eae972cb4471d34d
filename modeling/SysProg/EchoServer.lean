import SysProg.EchoProtocol

/-! `server-proto.c`: one request of the echo server. The response is printed
into a buffer of fixed size, but its length field takes what `snprintf` would
have printed, and `send` follows that field. -/
namespace SysProg.EchoServer
open CString EchoProtocol

/-- What `"ECHO:[%.*s]"` prints for a request. The precision stops the string
after `msg_len` bytes; nothing but a NUL stops it at the end of the buffer. -/
def echoText (reqMessage : ProtoMsg) : List UInt8 :=
  text "ECHO:[" ++ cString (reqMessage.payload.take reqMessage.protoHeader.msgLen.toNat) ++ text "]"

def buildRspFromReq (reqMessage rspMsg : ProtoMsg) : ProtoMsg :=
  let printed := snprintf maxPayloadSz rspMsg.payload (echoText reqMessage)
  { protoHeader :=
      { protoId := reqMessage.protoHeader.protoId
        protoVer := reqMessage.protoHeader.protoVer
        protoWorkSim := reqMessage.protoHeader.protoWorkSim
        msgDir := protoDirRsp
        -- an `int` squeezed into 16 bits
        msgLen := UInt16.ofNat printed.1 }
    payload := printed.2 }

/-- One turn of `process_requests`: what `recv` has put into the zeroed receive
buffer is answered in the zeroed send buffer. `beyond` is the memory that
happens to follow the receive buffer. -/
def respond (received beyond : List UInt8) : ProtoMsg :=
  let recvBuffer := memcpy (List.replicate maxMsgBuff 0) received
  buildRspFromReq (ProtoMsg.ofBytes (recvBuffer ++ beyond)) (ProtoMsg.ofBytes (List.replicate maxMsgBuff 0))

/-- The part of the payload a request really brings: its first `msg_len` bytes
among those received, up to a NUL. -/
def requestText (received : List UInt8) : List UInt8 :=
  let request := ProtoMsg.ofBytes (memcpy (List.replicate maxMsgBuff 0) received)
  cString ((received.drop protoHeaderSize).take request.protoHeader.msgLen.toNat)

/-- The response fits its buffer, and its header and payload are right. The
NUL of `snprintf` takes one byte of the space for the payload. -/
structure StaysInBuffer (received beyond : List UInt8) : Prop where
  fits : (getMsgLen (respond received beyond)).toNat ≤ maxMsgBuff
  counted : (respond received beyond).protoHeader.msgLen.toNat = (cString (respond received beyond).payload).length
  echoed : cString (respond received beyond).payload =
    (text "ECHO:[" ++ requestText received ++ text "]").take (maxPayloadSz - 1)

/-! ### What is read of the request -/

/-- A string of a bounded part of memory goes on where the memory does, unless
it has ended. -/
theorem cString_append (memory rest : List UInt8) :
    cString (memory ++ rest) = cString memory ∨
      cString memory = memory ∧ cString (memory ++ rest) = memory ++ cString rest := by
  induction memory with
  | nil => exact .inr ⟨rfl, rfl⟩
  | cons byte memory ih =>
    by_cases nul : byte = 0
    · exact .inl (by simp [cString, nul])
    · have step (bytes : List UInt8) : cString (byte :: bytes) = byte :: cString bytes := by simp [cString, nul]
      simp only [List.cons_append, step, List.cons.injEq, true_and]
      exact ih

/-- The bytes that were not received are NULs, so only a request that fills the
buffer with text is read past it. -/
theorem text_read (payload beyond : List UInt8) (n count : Nat) :
    cString ((payload ++ (List.replicate count 0 ++ beyond)).take n) = cString (payload.take n) ∨
      count = 0 ∧ cString (payload.take n) = payload ∧
        payload.length ≤ (cString ((payload ++ (List.replicate count 0 ++ beyond)).take n)).length := by
  rw [List.take_append]
  rcases cString_append (payload.take n) ((List.replicate count 0 ++ beyond).take (n - payload.length))
    with same | ⟨unended, longer⟩
  · exact .inl same
  · by_cases short : n ≤ payload.length
    · rw [Nat.sub_eq_zero_of_le short, List.take_zero, List.append_nil]
      exact .inl rfl
    · have all : payload.take n = payload := List.take_of_length_le (by omega)
      cases count with
      | zero =>
        refine .inr ⟨rfl, unended.trans all, ?_⟩
        rw [longer, all, List.length_append]
        exact Nat.le_add_right ..
      | succ count =>
        obtain ⟨left, positive⟩ : ∃ left, n - payload.length = left + 1 := ⟨n - payload.length - 1, by omega⟩
        left
        rw [longer, unended, positive, List.replicate_succ, List.cons_append, List.take_succ_cons]
        simp [cString]

theorem header_received (received beyond : List UInt8) (bounded : received.length ≤ maxMsgBuff) :
    (ProtoMsg.ofBytes (memcpy (List.replicate maxMsgBuff 0) received ++ beyond)).protoHeader =
      (ProtoMsg.ofBytes (memcpy (List.replicate maxMsgBuff 0) received)).protoHeader := by
  have whole : (memcpy (List.replicate maxMsgBuff 0) received).length = maxMsgBuff := by
    simp only [memcpy, List.length_append, List.length_drop, List.length_replicate]
    omega
  have field (i : Nat) (inside : i + 2 ≤ maxMsgBuff) :
      ((memcpy (List.replicate maxMsgBuff 0) received ++ beyond).drop i).take 2 =
        ((memcpy (List.replicate maxMsgBuff 0) received).drop i).take 2 := by
    rw [List.drop_append_of_le_length (by omega), List.take_append_of_le_length (by rw [List.length_drop]; omega)]
  have first := field 0 (by decide)
  rw [List.drop_zero, List.drop_zero] at first
  simp only [ProtoMsg.ofBytes, ProtoHeader.ofBytes, first, field 2 (by decide), field 4 (by decide),
    field 6 (by decide), field 8 (by decide)]

/-- Behind the payload that was received come the NULs of the buffer and what
follows it in memory. -/
theorem payload_received (received beyond : List UInt8) :
    (ProtoMsg.ofBytes (memcpy (List.replicate maxMsgBuff 0) received ++ beyond)).payload =
      received.drop protoHeaderSize ++
        (List.replicate (maxMsgBuff - received.length - (protoHeaderSize - received.length)) 0 ++ beyond) := by
  have wide : protoHeaderSize ≤ (received ++ List.replicate (maxMsgBuff - received.length) (0 : UInt8)).length := by
    simp only [List.length_append, List.length_replicate, protoHeaderSize, maxMsgBuff]
    omega
  simp only [ProtoMsg.ofBytes, memcpy, List.drop_replicate]
  rw [List.drop_append_of_le_length wide, List.drop_append, List.drop_replicate, List.append_assoc]

theorem length_echo (printed : List UInt8) :
    (text "ECHO:[" ++ printed ++ text "]").length = 7 + printed.length := by
  have six : (text "ECHO:[").length = 6 := by decide
  have one : (text "]").length = 1 := by decide
  rw [List.length_append, List.length_append, six, one]
  omega

/-- The string printed is the text of the request, or the request fills the
whole buffer with text and the string is at least that long. -/
theorem printed_text (received beyond : List UInt8) (bounded : received.length ≤ maxMsgBuff) :
    ∃ printed, (respond received beyond).protoHeader.msgLen = UInt16.ofNat (7 + printed.length) ∧
      cString (respond received beyond).payload =
        (text "ECHO:[" ++ printed ++ text "]").take (maxPayloadSz - 1) ∧
      printed.length < 2 ^ 16 ∧
      (printed = requestText received ∨
        (requestText received).length = maxPayloadSz ∧ maxPayloadSz ≤ printed.length) := by
  let request := ProtoMsg.ofBytes (memcpy (List.replicate maxMsgBuff 0) received ++ beyond)
  have sameHeader : request.protoHeader =
      (ProtoMsg.ofBytes (memcpy (List.replicate maxMsgBuff 0) received)).protoHeader :=
    header_received received beyond bounded
  have payload : request.payload = received.drop protoHeaderSize ++
      (List.replicate (maxMsgBuff - received.length - (protoHeaderSize - received.length)) 0 ++ beyond) :=
    payload_received received beyond
  let printed := cString (request.payload.take request.protoHeader.msgLen.toNat)
  have free : NulFree (text "ECHO:[" ++ printed ++ text "]") :=
    nulFree_append.mpr ⟨nulFree_append.mpr ⟨by decide, nulFree_cString _⟩, by decide⟩
  have room : 0 < maxPayloadSz := by decide
  refine ⟨printed, ?_, ?_, ?_, ?_⟩
  · exact congrArg UInt16.ofNat (length_echo printed)
  · exact cString_snprintf _ room free
  · have bound := request.protoHeader.msgLen.toNat_lt
    have part : printed.length ≤ (request.payload.take request.protoHeader.msgLen.toNat).length := length_cString_le _
    rw [List.length_take] at part
    omega
  · rcases text_read (received.drop protoHeaderSize) beyond request.protoHeader.msgLen.toNat
      (maxMsgBuff - received.length - (protoHeaderSize - received.length)) with same | ⟨filled, unended, longer⟩
    · left
      simp only [printed, payload, same]
      rw [requestText, sameHeader]
    · right
      have whole : (received.drop protoHeaderSize).length = maxPayloadSz := by
        simp only [maxMsgBuff, protoHeaderSize, maxPayloadSz, List.length_drop] at filled bounded ⊢
        omega
      refine ⟨?_, ?_⟩
      · rw [requestText, ← sameHeader, unended, whole]
      · rw [← whole]
        simpa only [printed, payload] using longer

/-! ### When the response is right -/

/-- The response is right exactly for texts that leave room for `ECHO:[`, `]`
and the NUL. -/
theorem stays_in_buffer_iff (received beyond : List UInt8) (bounded : received.length ≤ maxMsgBuff) :
    StaysInBuffer received beyond ↔ (requestText received).length + 8 ≤ maxPayloadSz := by
  obtain ⟨printed, counter, written, small, same⟩ := printed_text received beyond bounded
  have printedLength : (cString (respond received beyond).payload).length =
      min (maxPayloadSz - 1) (7 + printed.length) := by
    rw [written, List.length_take, length_echo]
  have counted : (respond received beyond).protoHeader.msgLen.toNat = (7 + printed.length) % 2 ^ 16 := by
    rw [counter, UInt16.toNat_ofNat']
  simp only [maxPayloadSz, maxMsgBuff, protoHeaderSize] at printedLength same
  constructor
  · rintro ⟨-, right, -⟩
    rw [counted, printedLength] at right
    simp only [maxPayloadSz, maxMsgBuff, protoHeaderSize]
    rcases same with rfl | ⟨-, long⟩
    · omega
    · omega
  · intro room
    simp only [maxPayloadSz, maxMsgBuff, protoHeaderSize] at room
    obtain rfl : printed = requestText received := same.resolve_right fun long => by omega
    refine ⟨?_, ?_, written⟩
    · rw [getMsgLen_toNat, counted]
      simp only [maxMsgBuff, protoHeaderSize]
      omega
    · rw [counted, printedLength]
      omega

/-- A request for the default message of the client. -/
def defaultRequest : List UInt8 :=
  (ProtoHeader.mk protoIdentity protoVersion 0 protoDirReq 39).toBytes ++ text "DEFAULT MESSAGE - USE ARGV[1] TO CHANGE"

theorem default_request_stays : StaysInBuffer defaultRequest [] :=
  (stays_in_buffer_iff defaultRequest [] (by decide +kernel)).mpr (by decide +kernel)

/-- A request that fills the receive buffer with text. -/
def fullRequest : List UInt8 :=
  (ProtoHeader.mk protoIdentity protoVersion 0 protoDirReq 2038).toBytes ++ List.replicate 2038 97

/-- Seven bytes from behind the send buffer are sent to the client. -/
theorem full_request_overruns : ¬ StaysInBuffer fullRequest [] := by
  rintro ⟨fits, -, -⟩
  exact absurd fits (by decide +kernel)

end SysProg.EchoServer
