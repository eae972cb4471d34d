import SysProg.Dshlib
import SysProg.Lib.Interleave

/-! `rsh_server.c`: one client session of the remote shell. Each turn of the
session takes everything the environment decides in that turn: what `recv`
returns, the allocations, whether `pipe` and `fork` succeed, how every stage of
the pipeline ends and in which order the stages' writes reach the socket. -/
namespace SysProg.RshServer
open CString Interleave Dshlib

/-! ### Constants of `rshlib.h` and the messages of the server -/

def rdshCommBuffSz : Nat := 1024 * 64
def rdshEofChar : UInt8 := 4
def errRdshCommunication : Int := -50
def errRdshServer : Int := -51

def tooLong : List UInt8 := text "Error: Command too long. Input rejected.\n"
def invalidFormat : List UInt8 := text "Error: Invalid command format.\n"
def exiting : List UInt8 := text "Exiting client session.\n"
def stopping : List UInt8 := text "Server stopping.\n"
def failedToExecute : List UInt8 := text "Error: Command not found or failed to execute.\n"
def notFound : List UInt8 := text "command not found\n"

/-! ### Sending -/

/-- One `send`, and what it puts on the socket as one write; `sends` tells for
each call whether it goes through. One that does not returns an error, unless the
client has closed the connection: SIGPIPE, which the server neither handles nor
ignores, then kills the process. `BreaksOff` tells in which turns it can. -/
def send (bytes : List UInt8) (sends : List Bool) : Bool × List (List UInt8) × List Bool :=
  if sends.headD true then (true, [bytes], sends.tail) else (false, [], sends.tail)

def sendMessageEof (sends : List Bool) : Int × List (List UInt8) × List Bool :=
  let (whole, sent, sends) := send [rdshEofChar] sends
  if whole then (ok, sent, sends) else (errRdshCommunication, sent, sends)

/-- The terminating NUL of the string is sent as well. -/
def sendMessageString (buff : List UInt8) (sends : List Bool) : Int × List (List UInt8) × List Bool :=
  let (whole, message, sends) := send (buff ++ [0]) sends
  if whole then
    let (rc, eof, sends) := sendMessageEof sends
    if rc ≠ ok then (errRdshCommunication, message ++ eof, sends) else (ok, message ++ eof, sends)
  else (errRdshCommunication, message, sends)

theorem send_whole {sends : List Bool} (whole : sends.headD true = true) (bytes : List UInt8) :
    send bytes sends = (true, [bytes], sends.tail) := if_pos whole

theorem send_failed {sends : List Bool} (failed : sends.headD true = false) (bytes : List UInt8) :
    send bytes sends = (false, [], sends.tail) := by
  simp only [send, failed, Bool.false_eq_true, if_false]

theorem sendMessageEof_whole {sends : List Bool} (whole : sends.headD true = true) :
    sendMessageEof sends = (ok, [[rdshEofChar]], sends.tail) := by
  simp only [sendMessageEof, send_whole whole, if_true]

theorem sendMessageEof_failed {sends : List Bool} (failed : sends.headD true = false) :
    sendMessageEof sends = (errRdshCommunication, [], sends.tail) := by
  simp only [sendMessageEof, send_failed failed, Bool.false_eq_true, if_false]

/-! ### Running a pipeline -/

inductive WaitStatus where
  | exited (code : UInt8)
  | signaled (signal : Fin 127) (core : Bool)
  deriving DecidableEq

/-- The `int` that `waitpid` stores. -/
def WaitStatus.raw : WaitStatus → Nat
  | .exited code => 256 * code.toNat
  | .signaled signal core => signal.val + if core then 128 else 0

/-- `WEXITSTATUS`: bits 8 to 15, whether or not the process exited. -/
def wexitstatus (status : Nat) : Nat := status / 256 % 256

/-- How one stage of a pipeline goes. A stage that runs makes its writes to its
standard output, none of them with the end marker, and ends. The first stage has
the client's socket as its standard input; here it takes nothing from there, and
`RemoteShell` has the reads. A stage whose `execvp` fails comes back into the
server's code, where `perror` writes something before the message and `exit`
flushes the copied stdio buffers behind it. -/
inductive Stage where
  | ran (writes : List (List UInt8)) (status : WaitStatus) (noEof : ∀ bytes ∈ writes, rdshEofChar ∉ bytes)
  | execFailed (before flushed : List UInt8)

/-- What a stage writes to the client's socket: only the last stage has its
output there, but the failure message of any stage goes to it. -/
def Stage.writes (stage : Stage) (last : Bool) : List (List UInt8) :=
  match stage with
  | .ran writes _ _ => if last then writes else []
  | .execFailed before flushed => [before, notFound ++ [0], [rdshEofChar], flushed]

/-- `exit(ERR_EXEC_CMD)` ends a stage that could not be executed. -/
def Stage.status : Stage → WaitStatus
  | .ran _ status _ => status
  | .execFailed _ _ => .exited 250

/-- Steps 8 and 9 of `rsh_execute_pipeline`: the result once all stages have
been waited for. -/
def pipelineResult (statuses : List WaitStatus) : Int :=
  let exitCode := wexitstatus (statuses.getLast?.getD (.exited 0)).raw
  if statuses.any fun status => wexitstatus status.raw ≠ 0 then errExecCmd else exitCode

/-- Whether all stages get started, a `pipe` fails before the first or a
`fork` fails after some of them. -/
inductive Launch where
  | all
  | pipeFailed
  | forkFailed (started : Nat)
  deriving DecidableEq

/-- What the environment decides in one turn of the session. `recv` is `none`
for an error and no bytes for a closed connection. -/
structure Turn where
  recv : Option (List UInt8)
  heap : Heap
  launch : Launch
  stage : Nat → Stage
  schedule : List Nat
  sends : List Bool
  fits : ∀ bytes ∈ recv, bytes.length ≤ rdshCommBuffSz - 1

/-- How many of `num` stages are started. -/
def Launch.started (launch : Launch) (num : Nat) : Nat :=
  match launch with
  | .all => num
  | .pipeFailed => 0
  | .forkFailed started => min started (num - 1)

/-- `rsh_execute_pipeline`: its result, and for each started stage what that
stage writes to the socket. -/
def rshExecutePipeline (e : Turn) (clist : List CmdBuff) : Int × List (List (List UInt8)) :=
  let writes := (List.range (e.launch.started clist.length)).map fun i =>
    (e.stage i).writes (i + 1 = clist.length)
  if e.launch = .all then
    (pipelineResult ((List.range clist.length).map fun i => (e.stage i).status), writes)
  else (errExecCmd, writes)

/-- `rsh_match_command`, `none` being a NULL pointer. -/
def rshMatchCommand (input : Option (List UInt8)) : BuiltInCmds :=
  match input with
  | none => .notBi
  | some input =>
    if input = text "exit" then .exit
    else if input = text "dragon" then .dragon
    else if input = text "cd" then .cd
    else if input = text "stop-server" then .stopSvr
    else if input = text "rc" then .rc
    else .notBi

/-! ### The session -/

/-- How a turn ends: the loop goes on, the function returns, or a command
buffer was overrun and nothing is known from there on. -/
inductive Next where
  | again
  | leave (rc : Int)
  | overrun
  deriving DecidableEq

/-- The command string a turn took from the client, if it took one, the bytes
sent in answer to it, and how the turn ends. -/
structure Reply where
  taken : Option (List UInt8)
  sent : List UInt8
  next : Next
  deriving DecidableEq

/-- The first command of a list as `exec_client_requests` looks it up. -/
def firstCommand (clist : List CmdBuff) : BuiltInCmds :=
  match clist with
  | [] => .notBi
  | cmd :: _ => rshMatchCommand (cmd.arg 0)

/-- What the client gets to see of an executed pipeline: the server's own
writes follow those of the stages it waited for, and race with those of the
stages it did not. -/
def Turn.output (e : Turn) (stages : List (List (List UInt8))) (own : List (List UInt8)) : List UInt8 :=
  if e.launch = .all then interleave e.schedule stages ++ own.flatten
  else interleave e.schedule (stages ++ [own])

/-- One turn of the loop of `exec_client_requests`. -/
def clientRequest (e : Turn) : Reply :=
  match e.recv with
  | none => ⟨none, [], .leave errRdshCommunication⟩
  | some [] => ⟨none, [], .leave ok⟩
  | some ioBuff =>
    if rdshCommBuffSz - 1 ≤ ioBuff.length then
      let (_, sent, _) := sendMessageString tooLong e.sends
      ⟨some ioBuff, sent.flatten, .again⟩
    else match buildCmdList (cString ioBuff) [] e.heap with
    | none => ⟨some (cString ioBuff), [], .overrun⟩
    | some (rc, cmdList, _) =>
      if rc ≠ ok then
        let (_, sent, _) := sendMessageString invalidFormat e.sends
        ⟨some (cString ioBuff), sent.flatten, .leave errRdshCommunication⟩
      else if firstCommand cmdList = .exit then
        let (_, sent, _) := sendMessageString exiting e.sends
        ⟨some (cString ioBuff), sent.flatten, .leave ok⟩
      else if firstCommand cmdList = .stopSvr then
        let (_, sent, _) := sendMessageString stopping e.sends
        ⟨some (cString ioBuff), sent.flatten, .leave okExit⟩
      else
        let (rc, stages) := rshExecutePipeline e cmdList
        if rc ≠ 0 then
          let (_, sent, _) := sendMessageString failedToExecute e.sends
          ⟨some (cString ioBuff), e.output stages sent, .leave errExecCmd⟩
        else
          let (rc, sent, _) := sendMessageEof e.sends
          if rc ≠ ok then ⟨some (cString ioBuff), e.output stages sent, .leave errRdshCommunication⟩
          else ⟨some (cString ioBuff), e.output stages sent, .again⟩

/-- How many sends the server makes itself in a turn if they go through. -/
def sendCalls (e : Turn) : Nat :=
  match e.recv with
  | none | some [] => 0
  | some ioBuff =>
    if rdshCommBuffSz - 1 ≤ ioBuff.length then 2
    else match buildCmdList (cString ioBuff) [] e.heap with
    | none => 0
    | some (rc, cmdList, _) =>
      if rc = ok ∧ firstCommand cmdList ≠ .exit ∧ firstCommand cmdList ≠ .stopSvr ∧
        (rshExecutePipeline e cmdList).1 = 0 then 1 else 2

/-- A send of the turn does not go through. If it hits a connection that the
client has closed, the turn may end there, and the whole server with it. -/
def BreaksOff (e : Turn) : Prop := false ∈ e.sends.take (sendCalls e)

instance (e : Turn) : Decidable (BreaksOff e) := inferInstanceAs (Decidable (_ ∈ _))

/-- Data that was received is taken for one command, whatever comes of it. -/
theorem taken_of_data {e : Turn} (received : e.recv = some (byte :: rest)) :
    (clientRequest e).taken = some
      (if rdshCommBuffSz - 1 ≤ (byte :: rest).length then byte :: rest else cString (byte :: rest)) := by
  simp only [clientRequest, received]
  split
  · rfl
  cases buildCmdList (cString (byte :: rest)) [] e.heap with
  | none => rfl
  | some parsed =>
    obtain ⟨rc, clist, after⟩ := parsed
    dsimp only
    split
    · rfl
    split
    · rfl
    split
    · rfl
    split
    · rfl
    split <;> rfl

/-- The replies of a session, and the turn in which it ended, if it has. -/
structure Session where
  replies : List Reply
  ended : Option (Turn × Next)

/-- The loop of `exec_client_requests`. -/
def session : List Turn → Session
  | [] => ⟨[], none⟩
  | e :: rest =>
    let reply := clientRequest e
    if reply.next = .again then
      let later := session rest
      ⟨reply :: later.replies, later.ended⟩
    else ⟨[reply], some (e, reply.next)⟩

/-- What `exec_client_requests` returns, if it has returned. Without its buffer
it returns before the first turn. -/
def execClientRequests (allocated : Bool) (turns : List Turn) : Option Next :=
  if allocated then (session turns).ended.map Prod.snd else some (.leave errRdshServer)

/-- Every turn that the session gets to meets a condition. -/
def AlongSession (P : Turn → Prop) : List Turn → Prop
  | [] => True
  | e :: rest => P e ∧ ((clientRequest e).next = .again → AlongSession P rest)

/-- A turn in which everything the environment decides goes well. -/
def quietTurn (message : List UInt8) (fits : message.length ≤ rdshCommBuffSz - 1) : Turn where
  recv := some message
  heap := ⟨[], [], 0, 0⟩
  launch := .all
  stage := fun _ => .ran [] (.exited 0) (by simp)
  schedule := []
  sends := []
  fits := by simpa using fits

end SysProg.RshServer
