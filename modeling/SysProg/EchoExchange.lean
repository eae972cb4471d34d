import SysProg.EchoServer
import SysProg.Lib.Atoi

/-! `client-proto.c` against `server-proto.c`: one message, its echo, and what
the client prints of it. Each side calls `recv` once, and takes what has come by
then for the whole message. -/
namespace SysProg.EchoExchange
open CString EchoProtocol EchoServer Atoi

/-! ### The client -/

def defaultMsg : List UInt8 := text "DEFAULT MESSAGE - USE ARGV[1] TO CHANGE"

def usage (exeName : List UInt8) : List UInt8 :=
  text "usage:  " ++ exeName ++ text " [-h] | \"message\" [work_sim_amount]\n" ++
  text "where:\n\n" ++
  text "               -h:   Print this usage message\n" ++
  text "        \"message\":   Set the message to send\n" ++
  text "  work_sim_amount:   Simulates work on server (in seconds)\n" ++
  text "\nIf message not provided, a default message will be sent!\n"

/-- How `main` begins: it prints its usage, overruns its buffer with `strcpy`,
or has a message to send. -/
inductive Start where
  | usage (printed : List UInt8)
  | overrun
  | send (sendMsg : ProtoMsg)
  deriving DecidableEq

/-- The arguments of the command line but for the name of the program. -/
def main (exeName : List UInt8) (args : List (List UInt8)) : Start :=
  if args = [text "-h"] then .usage (usage exeName)
  else
    let msg := args.head?.getD defaultMsg
    match strcpy (List.replicate maxPayloadSz 0) msg with
    | none => .overrun
    | some payload => .send {
        protoHeader :=
          { protoId := protoIdentity
            protoVer := protoVersion
            protoWorkSim :=
              match args with
              | [_, amount] => UInt16.ofInt (atoi amount).toInt
              | _ => 0
            msgDir := protoDirReq
            msgLen := UInt16.ofNat msg.length }
        payload := payload }

/-- What `"%.*s"` prints of a message. -/
def payloadText (msg : ProtoMsg) : List UInt8 := cString (msg.payload.take msg.protoHeader.msgLen.toNat)

/-- `%d` of a field. -/
def decimal (field : UInt16) : List UInt8 := text (toString field.toNat)

def printProtoMsg (label : List UInt8) (msg : ProtoMsg) : List UInt8 :=
  text "Debug Label: " ++ label ++ text ".  PROTOCOL INFORMATION:\n" ++
  text "\t       ID: " ++ decimal msg.protoHeader.protoId ++ text "\n" ++
  text "\t  Version: " ++ decimal msg.protoHeader.protoVer ++ text "\n" ++
  (if msg.protoHeader.protoId = protoIdentity then text "\t     Name: CLASS_ECHO_PROTOCOL\n" else []) ++
  text "\t  Version: " ++ decimal msg.protoHeader.protoVer ++ text "\n" ++
  text "\t Sim Work: " ++ decimal msg.protoHeader.protoWorkSim ++ text " seconds\n" ++
  text "\t   Length: " ++ decimal msg.protoHeader.msgLen ++ text " bytes\n" ++
  text "\tDirection: " ++ decimal msg.protoHeader.msgDir ++
    (if msg.protoHeader.msgDir = protoDirReq then text " - REQUEST\n"
    else if msg.protoHeader.msgDir = protoDirRsp then text " - RESPONSE\n"
    else text " - UNKNOWN\n") ++
  text "PAYLOAD\n-------\n" ++ payloadText msg ++ text "\n\n"

/-- What is sent of a message: `get_msg_len` bytes from its beginning on, with
`after` behind its buffer. -/
def sent (msg : ProtoMsg) (after : List UInt8) : List UInt8 :=
  (msg.toBytes ++ after).take (getMsgLen msg).toNat

/-- One `recv`: the first bytes that have come, and no more than fit. -/
def recv (bytes : List UInt8) (come : Nat) : List UInt8 := bytes.take (min come maxMsgBuff)

/-- The memory around the buffers of both programs. -/
structure Surroundings where
  serverRecv : List UInt8
  serverSend : List UInt8
  clientSend : List UInt8
  clientRecv : List UInt8

/-- The server's turn and the client's receive buffer behind it, when `n` bytes
of the request and `m` bytes of the response have come. -/
def reply (around : Surroundings) (sendMsg : ProtoMsg) (n m : Nat) : ProtoMsg :=
  let response := respond (recv (sent sendMsg around.clientSend) n) around.serverRecv
  ProtoMsg.ofBytes
    (memcpy (List.replicate maxMsgBuff 0) (recv (sent response around.serverSend) m) ++ around.clientRecv)

/-- The output of `start_client` once it is connected. -/
def startClient (around : Surroundings) (sendMsg : ProtoMsg) (n m : Nat) : List UInt8 :=
  printProtoMsg (text "client-send") sendMsg ++ text "\nREQUEST SENT.... WAITING FOR CLIENT RESPONSE...\n\n" ++
    printProtoMsg (text "client-recv") (reply around sendMsg n m)

/-! ### Strings in buffers -/

theorem cString_take (memory : List UInt8) (n : Nat) : cString (memory.take n) = (cString memory).take n := by
  induction memory generalizing n with
  | nil => simp [cString]
  | cons byte memory ih =>
    cases n with
    | zero => simp [cString]
    | succ n =>
      by_cases nul : byte = 0
      · simp [cString, nul]
      · have first (rest : List UInt8) : cString (byte :: rest) = byte :: cString rest := by simp [cString, nul]
        rw [List.take_succ_cons, first, first, List.take_succ_cons, ih]

theorem cString_nul (memory rest : List UInt8) : cString (memory ++ 0 :: rest) = cString memory := by
  rcases cString_append memory (0 :: rest) with same | ⟨unended, longer⟩
  · exact same
  · rw [longer, unended]
    simp [cString]

/-- A string that is shorter than its memory ends with a NUL. -/
theorem cString_split {memory : List UInt8} (shorter : (cString memory).length < memory.length) :
    ∃ rest, memory = cString memory ++ 0 :: rest := by
  induction memory with
  | nil => cases shorter
  | cons byte memory ih =>
    by_cases nul : byte = 0
    · exact ⟨memory, by simp [cString, nul]⟩
    · have first : cString (byte :: memory) = byte :: cString memory := by simp [cString, nul]
      rw [first, List.length_cons, List.length_cons, Nat.add_lt_add_iff_right] at shorter
      obtain ⟨rest, split⟩ := ih shorter
      exact ⟨rest, by rw [first, List.cons_append, ← split]⟩

/-! ### The request -/

/-- What `main` sends is its message. -/
structure Carries (sendMsg : ProtoMsg) (message : List UInt8) : Prop where
  fits : message.length < maxPayloadSz
  counted : sendMsg.protoHeader.msgLen.toNat = message.length
  copied : ∃ rest, sendMsg.payload = message ++ rest

theorem main_carries (sends : main exeName args = .send sendMsg) : Carries sendMsg (args.head?.getD defaultMsg) := by
  unfold main at sends
  split at sends
  · cases sends
  · simp only [strcpy, List.length_replicate] at sends
    split at sends
    next => cases sends
    next payload copied =>
      split at copied
      next fits =>
        cases sends
        cases copied
        have small : (args.head?.getD defaultMsg).length < 2 ^ 16 := by
          simp only [maxPayloadSz, maxMsgBuff, protoHeaderSize] at fits
          omega
        exact ⟨fits, UInt16.toNat_ofNat_of_lt' small, _, rfl⟩
      next => cases copied

theorem sent_request {sendMsg : ProtoMsg} {message after : List UInt8} (carries : Carries sendMsg message) :
    sent sendMsg after = sendMsg.protoHeader.toBytes ++ message := by
  obtain ⟨fits, counted, rest, copied⟩ := carries
  have total : (getMsgLen sendMsg).toNat = (sendMsg.protoHeader.toBytes ++ message).length := by
    rw [getMsgLen_toNat, counted, List.length_append, length_header]
    simp only [maxPayloadSz, maxMsgBuff, protoHeaderSize] at fits ⊢
    omega
  have split : sendMsg.toBytes ++ after = (sendMsg.protoHeader.toBytes ++ message) ++ (rest ++ after) := by
    simp only [ProtoMsg.toBytes, copied, List.append_assoc]
  rw [sent, total, split]
  exact List.take_left' rfl

/-- Of the request the server sees as much as has come. -/
theorem requestText_recv (header : ProtoHeader) {message : List UInt8} (free : NulFree message)
    (fits : message.length < maxPayloadSz) (counted : header.msgLen.toNat = message.length) (n : Nat) :
    requestText (recv (header.toBytes ++ message) n) = message.take (n - protoHeaderSize) := by
  have whole : (header.toBytes ++ message).length ≤ maxMsgBuff := by
    rw [List.length_append, length_header]
    simp only [maxPayloadSz, maxMsgBuff, protoHeaderSize] at fits ⊢
    omega
  have received : recv (header.toBytes ++ message) n = (header.toBytes ++ message).take n := by
    rcases Nat.le_total n maxMsgBuff with few | many
    · rw [recv, Nat.min_eq_left few]
    · rw [recv, Nat.min_eq_right many, List.take_of_length_le whole, List.take_of_length_le (whole.trans many)]
  have payload : ((header.toBytes ++ message).take n).drop protoHeaderSize = message.take (n - protoHeaderSize) := by
    rw [List.drop_take, List.drop_left' (length_header header)]
  rw [requestText, received, payload]
  rcases Nat.lt_or_ge n protoHeaderSize with short | long
  · rw [Nat.sub_eq_zero_of_le (Nat.le_of_lt short), List.take_zero, List.take_nil]
    rfl
  · have split : (header.toBytes ++ message).take n = header.toBytes ++ message.take (n - protoHeaderSize) := by
      rw [List.take_append, length_header, List.take_of_length_le (by rw [length_header]; exact long)]
    have sameHeader : (ProtoMsg.ofBytes (memcpy (List.replicate maxMsgBuff 0)
        (header.toBytes ++ message.take (n - protoHeaderSize)))).protoHeader = header := by
      rw [memcpy, List.append_assoc]
      exact headerOfBytes_append header _
    rw [split, sameHeader, counted, List.take_of_length_le (List.length_take_le' ..), cString_of_nulFree free.take]

/-! ### The response -/

/-- The echo of a text. -/
def echo (message : List UInt8) : List UInt8 := text "ECHO:[" ++ message ++ text "]"

theorem echo_nulFree {message : List UInt8} (free : NulFree message) : NulFree (echo message) :=
  nulFree_append.mpr ⟨nulFree_append.mpr ⟨by decide, free⟩, by decide⟩

theorem length_payload (received beyond : List UInt8) : (respond received beyond).payload.length = maxPayloadSz := by
  have room : maxPayloadSz ≠ 0 := by decide
  simp only [respond, buildRspFromReq, snprintf, if_neg room, memcpy, ProtoMsg.ofBytes, List.length_append,
    List.length_take, List.length_drop, List.length_replicate, List.length_singleton]
  simp only [maxPayloadSz, maxMsgBuff, protoHeaderSize]
  omega

/-- The response to a text that is shorter than the buffer. -/
theorem respond_text {received text : List UInt8} (beyond : List UInt8) (bounded : received.length ≤ maxMsgBuff)
    (asked : requestText received = text) (fits : text.length < maxPayloadSz) :
    (respond received beyond).protoHeader.msgLen.toNat = (echo text).length ∧
      ∃ rest, (respond received beyond).payload = (echo text).take (maxPayloadSz - 1) ++ 0 :: rest := by
  obtain ⟨printed, counter, written, -, same⟩ := printed_text received beyond bounded
  obtain rfl : printed = text := by
    rcases same with same | ⟨full, -⟩
    · exact same.trans asked
    · rw [asked] at full
      omega
  have length : (echo printed).length = 7 + printed.length := length_echo printed
  refine ⟨?_, ?_⟩
  · rw [counter, length]
    refine UInt16.toNat_ofNat_of_lt' ?_
    simp only [maxPayloadSz, maxMsgBuff, protoHeaderSize] at fits
    show 7 + printed.length < 2 ^ 16
    omega
  · have shorter : (cString (respond received beyond).payload).length < (respond received beyond).payload.length := by
      rw [written, length_payload, List.length_take]
      simp only [maxPayloadSz, maxMsgBuff, protoHeaderSize]
      omega
    obtain ⟨rest, split⟩ := cString_split shorter
    exact ⟨rest, by rw [split, written]; rfl⟩

/-- A string that ends inside its memory, of which `count` bytes have come into
a cleared buffer. -/
theorem cString_recv {string rest beyond : List UInt8} (free : NulFree string) (count : Nat)
    (room : (string ++ 0 :: rest).length ≤ size) :
    cString ((string ++ 0 :: rest).take count ++
      (List.replicate (size - ((string ++ 0 :: rest).take count).length) 0 ++ beyond)) = string.take count := by
  have ends : cString (string ++ 0 :: rest) = string := cString_terminated free
  have front : cString ((string ++ 0 :: rest).take count) = string.take count := by rw [cString_take, ends]
  rcases Nat.lt_or_ge string.length count with more | few
  · -- the NUL has come
    have split : (string ++ 0 :: rest).take count = string ++ 0 :: rest.take (count - string.length - 1) := by
      obtain ⟨left, more⟩ := Nat.exists_eq_add_of_lt more
      rw [List.take_append, List.take_of_length_le (by omega), more,
        show string.length + left + 1 - string.length = left + 1 by omega, List.take_succ_cons, Nat.add_sub_cancel]
    rw [split, List.append_assoc, List.cons_append, cString_terminated free, List.take_of_length_le (by omega)]
  · -- the buffer has one
    obtain ⟨zeros, some⟩ : ∃ zeros, size - ((string ++ 0 :: rest).take count).length = zeros + 1 := by
      refine ⟨size - ((string ++ 0 :: rest).take count).length - 1, ?_⟩
      simp only [List.length_append, List.length_cons, List.length_take] at room ⊢
      omega
    rw [some, List.replicate_succ, List.cons_append, cString_nul, front]

/-- The header in a cleared buffer that enough of a message has come into. -/
theorem header_recv {msg : ProtoMsg} (after beyond : List UInt8)
    (short : (getMsgLen msg).toNat = protoHeaderSize + msg.protoHeader.msgLen.toNat) (come : protoHeaderSize ≤ m) :
    (ProtoMsg.ofBytes (memcpy (List.replicate maxMsgBuff 0) (recv (sent msg after) m) ++ beyond)).protoHeader =
      msg.protoHeader := by
  have front (n : Nat) (behind : List UInt8) (enough : protoHeaderSize ≤ n) :
      (msg.protoHeader.toBytes ++ behind).take n = msg.protoHeader.toBytes ++ behind.take (n - protoHeaderSize) := by
    rw [List.take_append, length_header, List.take_of_length_le (by rw [length_header]; exact enough)]
  have large : protoHeaderSize ≤ min m maxMsgBuff := le_min come (by decide)
  rw [recv, sent, ProtoMsg.toBytes, List.append_assoc, front _ _ (short ▸ Nat.le_add_right ..),
    front _ _ large, memcpy, List.append_assoc, List.append_assoc]
  exact headerOfBytes_append ..

/-- The payload in a cleared buffer that `m` bytes of a message have come into. -/
theorem payload_recv {msg : ProtoMsg} {string rest : List UInt8} (after beyond : List UInt8) (free : NulFree string)
    (payload : msg.payload = string ++ 0 :: rest) (whole : msg.payload.length = maxPayloadSz)
    (short : (getMsgLen msg).toNat = protoHeaderSize + msg.protoHeader.msgLen.toNat) (m : Nat) :
    cString (ProtoMsg.ofBytes (memcpy (List.replicate maxMsgBuff 0) (recv (sent msg after) m) ++ beyond)).payload =
      string.take (min msg.protoHeader.msgLen.toNat (min m maxMsgBuff - protoHeaderSize)) := by
  let received := recv (sent msg after) m
  have come : received.drop protoHeaderSize =
      msg.payload.take (min msg.protoHeader.msgLen.toNat (min m maxMsgBuff - protoHeaderSize)) := by
    simp only [received, recv, sent, ProtoMsg.toBytes, short, List.append_assoc]
    rw [List.drop_take, List.drop_take, Nat.add_sub_cancel_left, List.drop_left' (length_header _), List.take_take,
      Nat.min_comm, List.take_append_of_le_length]
    rw [whole]
    simp only [maxPayloadSz]
    omega
  have zeros : maxMsgBuff - received.length - (protoHeaderSize - received.length) =
      maxPayloadSz - (received.drop protoHeaderSize).length := by
    simp only [List.length_drop, maxPayloadSz]
    omega
  rw [payload_received, zeros, come, payload]
  exact cString_recv free _ (by rw [← payload, whole])

/-! ### What the client shows -/

/-- The client shows the beginning of an echo, whatever has come on either
side. -/
theorem reply_text (around : Surroundings) {sendMsg : ProtoMsg} {message : List UInt8}
    (carries : Carries sendMsg message) (free : NulFree message) (n m : Nat) :
    payloadText (reply around sendMsg n m) =
      (echo (message.take (n - protoHeaderSize))).take (min (maxPayloadSz - 1) (m - protoHeaderSize)) := by
  let received := recv (sent sendMsg around.clientSend) n
  let response := respond received around.serverRecv
  have asked : requestText received = message.take (n - protoHeaderSize) := by
    simp only [received, sent_request carries]
    exact requestText_recv sendMsg.protoHeader free carries.fits carries.counted n
  have bounded : received.length ≤ maxMsgBuff := (List.length_take_le ..).trans (Nat.min_le_right ..)
  have fits : (message.take (n - protoHeaderSize)).length < maxPayloadSz :=
    lt_of_le_of_lt (List.length_take_le' ..) carries.fits
  obtain ⟨counted, rest, payload⟩ := respond_text around.serverRecv bounded asked fits
  have length : (echo (message.take (n - protoHeaderSize))).length = 7 + (message.take (n - protoHeaderSize)).length :=
    length_echo _
  have short : (getMsgLen response).toNat = protoHeaderSize + response.protoHeader.msgLen.toNat := by
    rw [getMsgLen_toNat, counted, length]
    simp only [maxPayloadSz, maxMsgBuff, protoHeaderSize] at fits ⊢
    omega
  have shown : cString (reply around sendMsg n m).payload = _ :=
    payload_recv around.serverSend around.clientRecv (echo_nulFree free.take).take payload (length_payload ..) short m
  rw [payloadText, cString_take, shown, counted, List.take_take, List.take_take]
  rcases Nat.lt_or_ge m protoHeaderSize with none | some
  · rw [Nat.sub_eq_zero_of_le (Nat.le_of_lt none),
      Nat.sub_eq_zero_of_le ((Nat.min_le_left ..).trans (Nat.le_of_lt none))]
    simp
  · have header : (reply around sendMsg n m).protoHeader = response.protoHeader :=
      header_recv around.serverSend around.clientRecv short some
    rw [header, counted, List.take_eq_take_iff]
    simp only [maxPayloadSz, maxMsgBuff, protoHeaderSize]
    omega

theorem payloadText_sent {sendMsg : ProtoMsg} {message : List UInt8} (carries : Carries sendMsg message)
    (free : NulFree message) : payloadText sendMsg = message := by
  obtain ⟨-, counted, rest, copied⟩ := carries
  rw [payloadText, counted, copied, List.take_left' rfl, cString_of_nulFree free]

/-- The client prints its message behind one heading and the beginning of the
echo behind another. -/
theorem startClient_shows (around : Surroundings) {sendMsg : ProtoMsg} {message : List UInt8}
    (carries : Carries sendMsg message) (free : NulFree message) (n m : Nat) : ∃ request response,
    startClient around sendMsg n m =
      request ++ text "PAYLOAD\n-------\n" ++ message ++ text "\n\n" ++
        text "\nREQUEST SENT.... WAITING FOR CLIENT RESPONSE...\n\n" ++
        response ++ text "PAYLOAD\n-------\n" ++
        (echo (message.take (n - protoHeaderSize))).take (min (maxPayloadSz - 1) (m - protoHeaderSize)) ++
        text "\n\n" := by
  have printed (label : List UInt8) (msg : ProtoMsg) : ∃ fields,
      printProtoMsg label msg = fields ++ text "PAYLOAD\n-------\n" ++ payloadText msg ++ text "\n\n" := ⟨_, rfl⟩
  obtain ⟨request, sent⟩ := printed (text "client-send") sendMsg
  obtain ⟨response, received⟩ := printed (text "client-recv") (reply around sendMsg n m)
  refine ⟨request, response, ?_⟩
  rw [startClient, sent, received, payloadText_sent carries free, reply_text around carries free]
  simp only [List.append_assoc]

/-- For any message of the command line that `strcpy` can take: the client shows
the beginning of the echo of a beginning of it; all of the echo exactly if the
request and the response have come whole, and the echo fits the buffer of the
server with its NUL. -/
theorem echo_shown_iff (exeName : List UInt8) (args : List (List UInt8)) (strings : ∀ arg ∈ args, NulFree arg)
    {sendMsg : ProtoMsg} (sends : main exeName args = .send sendMsg) (around : Surroundings) (n m : Nat) :
    (∃ k, payloadText (reply around sendMsg n m) <+: echo ((args.head?.getD defaultMsg).take k)) ∧
      (payloadText (reply around sendMsg n m) = echo (args.head?.getD defaultMsg) ↔
        (args.head?.getD defaultMsg).length + 8 ≤ maxPayloadSz ∧
        (args.head?.getD defaultMsg = [] ∨ protoHeaderSize + (args.head?.getD defaultMsg).length ≤ n) ∧
        protoHeaderSize + (args.head?.getD defaultMsg).length + 7 ≤ m) := by
  have carries := main_carries sends
  have free : NulFree (args.head?.getD defaultMsg) := by
    cases args with
    | nil => exact (by decide : NulFree defaultMsg)
    | cons arg others => exact strings arg (by simp)
  generalize args.head?.getD defaultMsg = message at carries free
  rw [reply_text around carries free]
  refine ⟨⟨_, List.take_prefix ..⟩, ?_⟩
  have length (message : List UInt8) : (echo message).length = 7 + message.length := length_echo message
  constructor
  · intro same
    have lengths := congrArg List.length same
    rw [List.length_take, length, length, List.length_take] at lengths
    simp only [maxPayloadSz, maxMsgBuff, protoHeaderSize, ← List.length_eq_zero_iff] at lengths ⊢
    omega
  · rintro ⟨room, request, response⟩
    have all : message.take (n - protoHeaderSize) = message := by
      rcases request with rfl | come
      · exact List.take_nil
      · exact List.take_of_length_le (by omega)
    rw [all]
    refine List.take_of_length_le ?_
    rw [length]
    simp only [maxPayloadSz, maxMsgBuff, protoHeaderSize] at room response ⊢
    omega

/-- A client that sends `hi` and gets all of everything. -/
theorem hi_shown : payloadText (reply ⟨[], [], [], []⟩
    ⟨⟨protoIdentity, protoVersion, 0, protoDirReq, 2⟩, text "hi" ++ List.replicate 2036 0⟩ 12 19) =
      text "ECHO:[hi]" :=
  (echo_shown_iff (text "client") [text "hi"] (by decide) (by decide +kernel) ⟨[], [], [], []⟩ 12 19).2.mpr
    (by decide)

end SysProg.EchoExchange
