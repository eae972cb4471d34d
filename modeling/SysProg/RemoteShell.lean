import SysProg.AnswerSync
import SysProg.RequestFraming
import SysProg.LineReading
import SysProg.Lib.Transition

/-! `exec_remote_cmd_loop` of `rsh_cli.c` and `exec_client_requests` of
`rsh_server.c` on one connection: the client reads standard input to its end, the
server answers what it receives, and the network carries the bytes of either
direction in order but cuts them as it likes. The first stage of a pipeline has
the socket as its standard input, so it may take bytes that were meant for the
server, or wait for some while the server waits for it. -/
namespace SysProg.RemoteShell
open CString Transition Dshlib LineReading RshServer AnswerSync

/-! ### The two programs and the bytes between them -/

/-- The client stands at its prompt, in its receive loop for a line of which
`sent` was sent, or has returned and closed its socket. -/
inductive Client where
  | prompting
  | waiting (sent : List UInt8)
  | returned (rc : Int)
  deriving DecidableEq

/-- The server stands at `recv`, has bytes of an answer to send before it goes
on, has closed the socket, or has overrun a command buffer. As long as the first
stage of a pipeline has `reads` of its standard input to make, the connection
stays open, and the last `held` bytes, which the server sends when it has waited
for the stages, stay back. -/
inductive Server where
  | receiving
  | answering (unsent : List UInt8) (reads held : Nat) (next : Next)
  | closed
  | overrun
  deriving DecidableEq

/-- The last five fields are what has happened so far: what the client sent for
each line, the bytes it got back and the text it printed, the commands the server
took and what it sent for each of them. -/
structure Connection where
  stdin : List UInt8
  client : Client
  server : Server
  requests : List UInt8
  answers : List UInt8
  typed : List (List UInt8)
  received : List UInt8
  shown : List UInt8
  taken : List (List UInt8)
  replies : List (List UInt8)
  deriving DecidableEq

/-- `recv` of the client fails, and its `send`, only once the server has closed.
A `read` of the first stage returns bytes, or finds that the client has gone. -/
inductive Action where
  | type
  | sendFails
  | recv (count : Nat)
  | disconnected
  | recvFails
  | request (count : Nat) (e : Turn) (reads : Nat)
  | stageReads (count : Nat)
  | inputEnds
  | answer (count : Nat)
  | next
  | clientGone

def Server.unsent : Server → List UInt8
  | .answering unsent _ _ _ => unsent
  | .receiving | .closed | .overrun => []

/-- How many reads the first stage has still to make. -/
def Server.reads : Server → Nat
  | .answering _ reads _ _ => reads
  | .receiving | .closed | .overrun => 0

/-- `RDSH_COMM_BUFF_SZ - 1` bytes are asked for on either side. -/
def Fits (count : Nat) (bytes : List UInt8) : Prop :=
  0 < count ∧ count ≤ bytes.length ∧ count ≤ rdshCommBuffSz - 1

instance (count : Nat) (bytes : List UInt8) : Decidable (Fits count bytes) :=
  inferInstanceAs (Decidable (_ ∧ _))

instance : DecidablePred Executed
  | .ran .. => inferInstanceAs (Decidable True)
  | .execFailed .. => inferInstanceAs (Decidable False)

/-- Whether a first stage runs for the request, and how many bytes of the reply
the server sends when it has waited for that stage: its own, if it waits at all. -/
def behindStage (e : Turn) : Option Nat :=
  match e.recv with
  | none => none
  | some ioBuff =>
    if rdshCommBuffSz - 1 ≤ ioBuff.length then none
    else match buildCmdList (cString ioBuff) [] e.heap with
    | none => none
    | some (rc, cmdList, _) =>
      if rc = ok ∧ firstCommand cmdList ≠ .exit ∧ firstCommand cmdList ≠ .stopSvr ∧
          0 < e.launch.started cmdList.length ∧ Executed (e.stage 0) then
        if e.launch ≠ .all then some 0
        else if (rshExecutePipeline e cmdList).1 ≠ 0 then
          some (sendMessageString failedToExecute e.sends).2.1.flatten.length
        else some (sendMessageEof e.sends).2.1.flatten.length
      else none

/-- What becomes of the server with the reply of one turn. -/
def answered (e : Turn) (reads : Nat) : Server :=
  let reply := clientRequest e
  match reply.next with
  | .overrun => .overrun
  | .again => .answering reply.sent reads ((behindStage e).getD 0) .again
  | .leave rc => .answering reply.sent reads ((behindStage e).getD 0) (.leave rc)

def step (s : Connection) : Action → Option Connection
  | .type =>
    match s.client with
    | .prompting =>
      if s.stdin = [] then some { s with client := .returned ok }
      else
        let (cmdBuff, rest) := fgets rdshCommBuffSz s.stdin
        some { s with
          stdin := rest
          client := .waiting (cString cmdBuff)
          requests := s.requests ++ cString cmdBuff
          typed := s.typed ++ [cString cmdBuff] }
    | _ => none
  | .sendFails =>
    if s.client = .prompting ∧ s.stdin ≠ [] ∧ s.server = .closed then
      some { s with stdin := (fgets rdshCommBuffSz s.stdin).2, client := .returned errRdshCommunication }
    else none
  | .recv count =>
    match s.client with
    | .waiting sent =>
      if Fits count s.answers then
        let rspBuff := s.answers.take count
        some { s with
          answers := s.answers.drop count
          received := s.received ++ rspBuff
          shown := s.shown ++ cString rspBuff
          client := if isEof rspBuff then .prompting else .waiting sent }
      else none
    | _ => none
  | .disconnected =>
    match s.client with
    | .waiting _ => if s.answers = [] ∧ s.server = .closed then some { s with client := .returned ok } else none
    | _ => none
  | .recvFails =>
    match s.client with
    | .waiting _ => if s.server = .closed then some { s with client := .returned errRdshCommunication } else none
    | _ => none
  | .request count e reads =>
    if s.server = .receiving ∧ Fits count s.requests ∧ e.recv = some (s.requests.take count) ∧
        (reads = 0 ∨ behindStage e ≠ none) then
      let reply := clientRequest e
      some { s with
        requests := s.requests.drop count
        server := answered e reads
        taken := s.taken ++ reply.taken.toList
        replies := s.replies ++ [reply.sent] }
    else none
  | .stageReads count =>
    match s.server with
    | .answering unsent (reads + 1) held next =>
      if 0 < count ∧ count ≤ s.requests.length then
        some { s with requests := s.requests.drop count, server := .answering unsent reads held next }
      else none
    | _ => none
  | .inputEnds =>
    match s.client, s.server with
    | .returned _, .answering unsent (reads + 1) held next =>
      some { s with server := .answering unsent reads held next }
    | _, _ => none
  | .answer count =>
    match s.server with
    | .answering unsent reads held next =>
      if 0 < count ∧ count ≤ unsent.length ∧ (reads = 0 ∨ count + held ≤ unsent.length) then
        some { s with
          answers := s.answers ++ unsent.take count
          server := .answering (unsent.drop count) reads held next }
      else none
    | _ => none
  | .next =>
    match s.server with
    | .answering [] 0 _ next => some { s with server := if next = .again then .receiving else .closed }
    | _ => none
  | .clientGone =>
    match s.client with
    | .returned _ => if s.server = .receiving then some { s with server := .closed } else none
    | _ => none

/-- No command that is executed reads the socket. -/
def ReadsNothing (_ : Connection) : Action → Prop
  | .request _ _ reads => reads = 0
  | _ => True

/-- Both sides are connected, and nothing has been typed. -/
def start (stdin : List UInt8) : Connection :=
  ⟨stdin, .prompting, .receiving, [], [], [], [], [], [], []⟩

/-- `ls` is typed and answered, and standard input ends. -/
def listingSession : List Action :=
  [.type, .request 3 knownCommand 0, .answer 1, .recv 1, .next, .type, .clientGone]

/-! ### What a step can do -/

section Steps
variable {s next : Connection} {action : Action}

/-- One constructor for each way through a step. -/
inductive Taken (s : Connection) : Action → Connection → Prop where
  | eof (prompting : s.client = .prompting) (ended : s.stdin = []) : Taken s .type { s with client := .returned ok }
  | type (prompting : s.client = .prompting) (more : s.stdin ≠ []) : Taken s .type { s with
      stdin := (fgets rdshCommBuffSz s.stdin).2
      client := .waiting (cString (fgets rdshCommBuffSz s.stdin).1)
      requests := s.requests ++ cString (fgets rdshCommBuffSz s.stdin).1
      typed := s.typed ++ [cString (fgets rdshCommBuffSz s.stdin).1] }
  | sendFails (prompting : s.client = .prompting) (more : s.stdin ≠ []) (gone : s.server = .closed) :
      Taken s .sendFails
        { s with stdin := (fgets rdshCommBuffSz s.stdin).2, client := .returned errRdshCommunication }
  | recv {sent : List UInt8} {count : Nat} (waiting : s.client = .waiting sent) (fits : Fits count s.answers) :
      Taken s (.recv count) { s with
        answers := s.answers.drop count
        received := s.received ++ s.answers.take count
        shown := s.shown ++ cString (s.answers.take count)
        client := if isEof (s.answers.take count) then .prompting else .waiting sent }
  | disconnected {sent : List UInt8} (waiting : s.client = .waiting sent) (none : s.answers = [])
      (gone : s.server = .closed) : Taken s .disconnected { s with client := .returned ok }
  | recvFails {sent : List UInt8} (waiting : s.client = .waiting sent) (gone : s.server = .closed) :
      Taken s .recvFails { s with client := .returned errRdshCommunication }
  | request {count : Nat} {e : Turn} {reads : Nat} (receiving : s.server = .receiving)
      (fits : Fits count s.requests) (recv : e.recv = some (s.requests.take count))
      (stage : reads = 0 ∨ behindStage e ≠ none) : Taken s (.request count e reads) { s with
        requests := s.requests.drop count
        server := answered e reads
        taken := s.taken ++ (clientRequest e).taken.toList
        replies := s.replies ++ [(clientRequest e).sent] }
  | stageReads {unsent : List UInt8} {reads held : Nat} {then_ : Next} {count : Nat}
      (answering : s.server = .answering unsent (reads + 1) held then_) (some : 0 < count)
      (inside : count ≤ s.requests.length) : Taken s (.stageReads count)
        { s with requests := s.requests.drop count, server := .answering unsent reads held then_ }
  | inputEnds {rc : Int} {unsent : List UInt8} {reads held : Nat} {then_ : Next} (gone : s.client = .returned rc)
      (answering : s.server = .answering unsent (reads + 1) held then_) :
      Taken s .inputEnds { s with server := .answering unsent reads held then_ }
  | answer {unsent : List UInt8} {reads held : Nat} {then_ : Next} {count : Nat}
      (answering : s.server = .answering unsent reads held then_) (some : 0 < count)
      (inside : count ≤ unsent.length) (before : reads = 0 ∨ count + held ≤ unsent.length) : Taken s (.answer count)
        { s with answers := s.answers ++ unsent.take count, server := .answering (unsent.drop count) reads held then_ }
  | next {held : Nat} {then_ : Next} (answered : s.server = .answering [] 0 held then_) :
      Taken s .next { s with server := if then_ = .again then .receiving else .closed }
  | clientGone {rc : Int} (gone : s.client = .returned rc) (receiving : s.server = .receiving) :
      Taken s .clientGone { s with server := .closed }

theorem step_taken (taken : step s action = some next) : Taken s action next := by
  cases action with
  | type =>
    simp only [step] at taken
    split at taken
    next prompting =>
      split at taken
      next ended =>
        cases taken
        exact .eof prompting ended
      next more =>
        cases taken
        exact .type prompting more
    next => cases taken
  | sendFails =>
    simp only [step, Option.ite_none_right_eq_some] at taken
    obtain ⟨⟨prompting, more, gone⟩, taken⟩ := taken
    cases taken
    exact .sendFails prompting more gone
  | recv count =>
    simp only [step] at taken
    split at taken
    next waiting =>
      simp only [Option.ite_none_right_eq_some] at taken
      obtain ⟨fits, taken⟩ := taken
      cases taken
      exact .recv waiting fits
    next => cases taken
  | disconnected =>
    simp only [step] at taken
    split at taken
    next waiting =>
      simp only [Option.ite_none_right_eq_some] at taken
      obtain ⟨⟨none, gone⟩, taken⟩ := taken
      cases taken
      exact .disconnected waiting none gone
    next => cases taken
  | recvFails =>
    simp only [step] at taken
    split at taken
    next waiting =>
      simp only [Option.ite_none_right_eq_some] at taken
      obtain ⟨gone, taken⟩ := taken
      cases taken
      exact .recvFails waiting gone
    next => cases taken
  | request count e reads =>
    simp only [step, Option.ite_none_right_eq_some] at taken
    obtain ⟨⟨receiving, fits, recv, stage⟩, taken⟩ := taken
    cases taken
    exact .request receiving fits recv stage
  | stageReads count =>
    simp only [step] at taken
    split at taken
    next answering =>
      simp only [Option.ite_none_right_eq_some] at taken
      obtain ⟨⟨some, inside⟩, taken⟩ := taken
      cases taken
      exact .stageReads answering some inside
    next => cases taken
  | inputEnds =>
    simp only [step] at taken
    split at taken
    next gone answering =>
      cases taken
      exact .inputEnds gone answering
    next => cases taken
  | answer count =>
    simp only [step] at taken
    split at taken
    next answering =>
      simp only [Option.ite_none_right_eq_some] at taken
      obtain ⟨⟨some, inside, before⟩, taken⟩ := taken
      cases taken
      exact .answer answering some inside before
    next => cases taken
  | next =>
    simp only [step] at taken
    split at taken
    next answered =>
      cases taken
      exact .next answered
    next => cases taken
  | clientGone =>
    simp only [step] at taken
    split at taken
    next gone =>
      simp only [Option.ite_none_right_eq_some] at taken
      obtain ⟨receiving, taken⟩ := taken
      cases taken
      exact .clientGone gone receiving
    next => cases taken

theorem reads_step (none : s.server.reads = 0) (quiet : ReadsNothing s action) (taken : step s action = some next) :
    next.server.reads = 0 := by
  cases step_taken taken with
  | eof | type | sendFails | recv | disconnected | recvFails => exact none
  | request =>
    rw [ReadsNothing] at quiet
    simp only [answered]
    split
    · rfl
    · exact quiet
    · exact quiet
  | stageReads answering | inputEnds _ answering =>
    rw [answering, Server.reads] at none
    cases none
  | answer answering => rwa [answering] at none
  | next => split <;> rfl
  | clientGone => rfl

end Steps

/-! ### One reply -/

theorem fgets_some {stdin : List UInt8} (more : stdin ≠ []) : (fgets rdshCommBuffSz stdin).1 ≠ [] := by
  have some := List.length_pos_iff.mpr more
  refine List.ne_nil_of_length_pos ?_
  simp only [fgets, List.length_take, rdshCommBuffSz]
  omega

theorem isEof_append {front back : List UInt8} (some : back ≠ []) : isEof (front ++ back) = isEof back := by
  simp [isEof, List.getLast?_append_of_ne_nil _ some]

section Replies
variable {e : Turn}

theorem overrun_sends_nothing (overrun : (clientRequest e).next = .overrun) : (clientRequest e).sent = [] := by
  cases recv : e.recv with
  | none => simp [clientRequest, recv]
  | some message =>
    cases message with
    | nil => simp [clientRequest, recv]
    | cons byte rest =>
      simp only [clientRequest, recv] at overrun ⊢
      split at overrun
      · cases overrun
      next short =>
        simp only [if_neg short]
        cases parse : buildCmdList (cString (byte :: rest)) [] e.heap with
        | none => rfl
        | some parsed =>
          obtain ⟨rc, clist, after⟩ := parsed
          simp only [parse] at overrun
          repeat' split at overrun
          all_goals cases overrun

/-- The server goes on with a request only behind a reply that ends with the
mark, if its sends go through. -/
theorem again_isEof (delivers : Delivers e) (again : (clientRequest e).next = .again) :
    isEof (clientRequest e).sent = true := by
  cases recv : e.recv with
  | none => simp [clientRequest, recv] at again
  | some message =>
    cases message with
    | nil => simp [clientRequest, recv] at again
    | cons byte rest =>
      simp only [clientRequest, recv] at again ⊢
      split
      · simp [sendMessageString_delivered delivers, isEof]
      next short =>
        simp only [if_neg short] at again
        cases parse : buildCmdList (cString (byte :: rest)) [] e.heap with
        | none => simp [parse] at again
        | some parsed =>
          obtain ⟨rc, clist, after⟩ := parsed
          simp only [parse] at again ⊢
          split at again
          · cases again
          next accepted =>
          split at again
          · cases again
          next stays =>
          split at again
          · cases again
          next serves =>
          split at again
          · cases again
          next succeeded =>
          -- only a pipeline that was started whole succeeds
          have all : e.launch = .all := by
            by_contra failed
            simp [rshExecutePipeline, failed, errExecCmd] at succeeded
          simp [accepted, stays, serves, succeeded, sendMessageEof_whole (headD_of_all delivers), Turn.output, all,
            isEof]

/-- What the server has to send behind a reply, and that it is lost with an
overrun only if there was none. -/
theorem unsent_answered (reads : Nat) : (answered e reads).unsent = (clientRequest e).sent := by
  simp only [answered]
  split
  next overrun => exact (overrun_sends_nothing overrun).symm
  · rfl
  · rfl

/-- The mark is sent only when the server has waited for the stage. -/
theorem behindStage_again {held : Nat} (delivers : Delivers e) (again : (clientRequest e).next = .again)
    (stage : behindStage e = some held) : 0 < held := by
  simp only [behindStage] at stage
  split at stage
  · cases stage
  next ioBuff recv =>
  split at stage
  · cases stage
  next short =>
  split at stage
  · cases stage
  next rc cmdList after parse =>
  split at stage
  next runs =>
    obtain ⟨rfl, stays, serves, -⟩ := runs
    cases ioBuff with
    | nil => simp [clientRequest, recv] at again
    | cons byte rest =>
      have succeeded : (rshExecutePipeline e cmdList).1 = 0 := by
        by_contra failed
        simp only [clientRequest, recv, if_neg short, parse, ne_eq, not_true_eq_false, if_false, stays, serves, failed,
          not_false_eq_true, if_true, reduceCtorEq] at again
      have all : e.launch = .all := by
        by_contra failed
        simp [rshExecutePipeline, failed, errExecCmd] at succeeded
      rw [if_neg (not_not.mpr all), if_neg (not_not.mpr succeeded),
        sendMessageEof_whole (headD_of_all delivers)] at stage
      cases stage
      exact Nat.zero_lt_one
  · cases stage

end Replies

/-! ### Nothing is lost in between -/

/-- The bytes that have been taken for commands or are on their way to the server
are in the order they were typed in, and the others were read by a first stage;
each byte of a reply has been received or is on its way back. What is shown is
what has been received, up to the NULs in it. -/
structure Conserved (s : Connection) : Prop where
  nulFree : NulFree s.requests
  commands : (s.taken.flatten ++ s.requests).Sublist s.typed.flatten
  answers : s.received ++ s.answers ++ s.server.unsent = s.replies.flatten
  replied : s.replies.length = s.taken.length
  printed : NulFree s.shown
  shown : NulFree s.received → s.shown = s.received

section Conservation
variable {s next : Connection} {action : Action}

theorem conserved_start (stdin : List UInt8) : Conserved (start stdin) :=
  ⟨nulFree_nil, .refl _, rfl, rfl, nulFree_nil, fun _ => rfl⟩

/-- The server takes all that `recv` returns for one command. -/
theorem taken_request {e : Turn} (conserved : Conserved s) (fits : Fits count s.requests)
    (recv : e.recv = some (s.requests.take count)) : (clientRequest e).taken = some (s.requests.take count) := by
  have message : RequestFraming.received e = s.requests.take count := by simp [RequestFraming.received, recv]
  have data : s.requests.take count ≠ [] := by
    have within := fits.2.1
    have some := fits.1
    refine List.ne_nil_of_length_pos ?_
    rw [List.length_take]
    omega
  have taken := RequestFraming.taken_eq (e := e) (by rw [message]; exact conserved.nulFree.take)
  rwa [message, if_neg data] at taken

theorem conserved_step (conserved : Conserved s) (taken : step s action = some next) : Conserved next := by
  have kept := conserved.answers
  cases step_taken taken with
  | eof | sendFails | disconnected | recvFails =>
    exact ⟨conserved.nulFree, conserved.commands, conserved.answers, conserved.replied, conserved.printed,
      conserved.shown⟩
  | type =>
    refine ⟨nulFree_append.mpr ⟨conserved.nulFree, nulFree_cString _⟩, ?_, conserved.answers, conserved.replied,
      conserved.printed, conserved.shown⟩
    simpa only [List.flatten_append, List.flatten_cons, List.flatten_nil, List.append_nil, List.append_assoc]
      using conserved.commands.append_right _
  | recv waiting fits =>
    refine ⟨conserved.nulFree, conserved.commands, ?_, conserved.replied,
      nulFree_append.mpr ⟨conserved.printed, nulFree_cString _⟩, fun free => ?_⟩
    · simpa only [List.append_assoc, ← List.append_assoc (List.take _ _), List.take_append_drop] using kept
    · obtain ⟨before, chunk⟩ := nulFree_append.mp free
      simp only [conserved.shown before, cString_of_nulFree chunk]
  | request receiving fits recv =>
    rw [receiving, Server.unsent, List.append_nil] at kept
    have command := taken_request conserved fits recv
    refine ⟨conserved.nulFree.drop, ?_, ?_, ?_, conserved.printed, conserved.shown⟩
    · simpa [command] using conserved.commands
    · simp only [unsent_answered, kept, List.flatten_append, List.flatten_cons, List.flatten_nil, List.append_nil]
    · simp [command, conserved.replied]
  | stageReads answering =>
    rw [answering] at kept
    exact ⟨conserved.nulFree.drop, ((List.drop_sublist _ _).append_left _).trans conserved.commands, kept,
      conserved.replied, conserved.printed, conserved.shown⟩
  | inputEnds _ answering =>
    rw [answering] at kept
    exact ⟨conserved.nulFree, conserved.commands, kept, conserved.replied, conserved.printed, conserved.shown⟩
  | answer answering =>
    rw [answering, Server.unsent] at kept
    refine ⟨conserved.nulFree, conserved.commands, ?_, conserved.replied, conserved.printed, conserved.shown⟩
    simpa only [Server.unsent, List.append_assoc, List.take_append_drop] using kept
  | next answered =>
    rw [answered, Server.unsent] at kept
    refine ⟨conserved.nulFree, conserved.commands, ?_, conserved.replied, conserved.printed, conserved.shown⟩
    split <;> exact kept
  | clientGone gone receiving =>
    rw [receiving, Server.unsent] at kept
    exact ⟨conserved.nulFree, conserved.commands, kept, conserved.replied, conserved.printed, conserved.shown⟩

end Conservation

end SysProg.RemoteShell
