import SysProg.RshServer

/-! Request and response in step. The client takes a chunk that ends with the
end mark for the end of an answer, so each answer must carry exactly one mark,
at its end. A stage that cannot be executed sends a mark of its own before the
server sends the one of the answer. -/
namespace SysProg.AnswerSync
open CString Interleave Dshlib RshServer

/-! ### The client's receive loop -/

/-- The end mark occurs once, as the last byte. -/
def Framed (answer : List UInt8) : Prop := ∃ body, answer = body ++ [rdshEofChar] ∧ rdshEofChar ∉ body

/-- `rsp_buff[io_size - 1] == RDSH_EOF_CHAR`. -/
def isEof (chunk : List UInt8) : Bool := chunk.getLast? = some rdshEofChar

/-- The receive loop of `exec_remote_cmd_loop` on the results of `recv`: the
bytes it takes for the answer, and the results it leaves for later. -/
def receiveAnswer : List (List UInt8) → List UInt8 × List (List UInt8)
  | [] => ([], [])
  | chunk :: rest =>
    if isEof chunk then (chunk, rest)
    else (chunk ++ (receiveAnswer rest).1, (receiveAnswer rest).2)

/-- A way for the network to cut a stream into results of `recv`. -/
structure Divides (chunks : List (List UInt8)) (stream : List UInt8) : Prop where
  nonempty : ∀ chunk ∈ chunks, chunk ≠ []
  bounded : ∀ chunk ∈ chunks, chunk.length ≤ rdshCommBuffSz - 1
  whole : chunks.flatten = stream

/-- However the stream is cut, the client has consumed all of it when it sends
the next request. -/
def InStep : List (List UInt8) → List UInt8 → Prop
  | [], _ => True
  | answer :: rest, unread => ∀ chunks, Divides chunks (unread ++ answer) →
      (receiveAnswer chunks).1 = unread ++ answer ∧ InStep rest (receiveAnswer chunks).2.flatten

/-- A chunk without the mark never ends an answer. -/
theorem isEof_of_notMem {chunk : List UInt8} (inside : rdshEofChar ∉ chunk) : isEof chunk = false := by
  simp only [isEof, decide_eq_false_iff_not]
  exact fun last => inside (List.mem_of_getLast? last)

theorem receiveAnswer_framed {chunks : List (List UInt8)} {body : List UInt8}
    (nonempty : ∀ chunk ∈ chunks, chunk ≠ []) (whole : chunks.flatten = body ++ [rdshEofChar])
    (inside : rdshEofChar ∉ body) : receiveAnswer chunks = (body ++ [rdshEofChar], []) := by
  induction chunks generalizing body with
  | nil => simp at whole
  | cons chunk rest ih =>
    have restNonempty : ∀ other ∈ rest, other ≠ [] := fun other member =>
      nonempty other (List.mem_cons_of_mem _ member)
    rw [List.flatten_cons] at whole
    rcases List.append_eq_append_iff.mp whole with ⟨later, bodySplit, restSplit⟩ | ⟨later, chunkSplit, markSplit⟩
    · -- the chunk lies inside the body
      rw [bodySplit, List.mem_append, not_or] at inside
      simp only [receiveAnswer, isEof_of_notMem inside.1, ih restNonempty restSplit inside.2, bodySplit,
        List.append_assoc, Bool.false_eq_true, if_false]
    · rcases List.append_eq_cons_iff.mp markSplit.symm with ⟨noMore, restSplit⟩ | ⟨tail, mark, restSplit⟩
      · rw [noMore, List.append_nil] at chunkSplit
        have alone : receiveAnswer rest = ([rdshEofChar], []) := ih restNonempty restSplit (List.not_mem_nil)
        simp only [receiveAnswer, chunkSplit, isEof_of_notMem inside, alone, Bool.false_eq_true, if_false]
      · obtain ⟨noTail, noRest⟩ := List.append_eq_nil_iff.mp restSplit.symm
        have last : rest = [] := by
          cases rest with
          | nil => rfl
          | cons other rest =>
            exact absurd (List.append_eq_nil_iff.mp noRest).1 (restNonempty other (by simp))
        have ends : isEof (body ++ [rdshEofChar]) = true := by simp [isEof]
        simp only [receiveAnswer, chunkSplit, mark, noTail, ends, if_true, last]

theorem inStep_of_framed (answers : List (List UInt8)) (framed : ∀ answer ∈ answers, Framed answer) :
    InStep answers [] := by
  induction answers with
  | nil => trivial
  | cons answer rest ih =>
    intro chunks divides
    obtain ⟨body, answerSplit, inside⟩ := framed answer (by simp)
    rw [List.nil_append, answerSplit] at divides
    rw [receiveAnswer_framed divides.nonempty divides.whole inside, answerSplit]
    exact ⟨rfl, ih fun other member => framed other (List.mem_cons_of_mem _ member)⟩

/-! ### The answer of one turn -/

def Executed : Stage → Prop
  | .ran _ _ _ => True
  | .execFailed _ _ => False

/-- Every stage that is started for the request is executed. -/
def Executes (e : Turn) (message : List UInt8) : Prop :=
  match buildCmdList (cString message) [] e.heap with
  | none => False
  | some (rc, clist, _) => rc = ok → firstCommand clist ≠ .exit → firstCommand clist ≠ .stopSvr →
      ∀ i < e.launch.started clist.length, Executed (e.stage i)

/-- The turn serves no request, rejects it as too long or executes all of it. -/
def ServesWhole (e : Turn) : Prop :=
  ∀ message, e.recv = some message → message ≠ [] → message.length < rdshCommBuffSz - 1 → Executes e message

/-- All of the server's own `send` calls go through. -/
def Delivers (e : Turn) : Prop := ∀ whole ∈ e.sends, whole = true

theorem framed_iff_count (answer : List UInt8) :
    Framed answer ↔ answer.count rdshEofChar = 1 ∧ isEof answer = true := by
  constructor
  · rintro ⟨body, rfl, inside⟩
    simp [isEof, List.count_eq_zero.mpr inside]
  · rintro ⟨once, last⟩
    obtain ⟨body, rfl⟩ := List.getLast?_eq_some_iff.mp (by simpa [isEof] using last)
    refine ⟨body, rfl, List.count_eq_zero.mp ?_⟩
    simpa using once

theorem headD_of_all {sends : List Bool} (all : ∀ whole ∈ sends, whole = true) : sends.headD true = true := by
  cases sends with
  | nil => rfl
  | cons first rest => exact all first (by simp)

theorem sendMessageString_delivered {sends : List Bool} (all : ∀ whole ∈ sends, whole = true) (buff : List UInt8) :
    (sendMessageString buff sends).2.1 = [buff ++ [0], [rdshEofChar]] := by
  have allRest : ∀ whole ∈ sends.tail, whole = true := fun whole member => all whole (List.mem_of_mem_tail member)
  simp [sendMessageString, send_whole (headD_of_all all), sendMessageEof_whole (headD_of_all allRest)]

/-- A message without the mark is an answer by itself. -/
theorem message_framed {buff : List UInt8} (inside : rdshEofChar ∉ buff) :
    Framed [buff ++ [0], [rdshEofChar]].flatten :=
  ⟨buff ++ [0], by simp, by simpa using ⟨inside, by decide⟩⟩

/-- Stages that were all executed put no mark on the socket. -/
theorem executed_silent {stages : List (List (List UInt8))}
    (silent : ∀ queue ∈ stages, ∀ bytes ∈ queue, rdshEofChar ∉ bytes) (schedule : List Nat) :
    rdshEofChar ∉ interleave schedule stages := by
  rw [(interleave_perm schedule stages).mem_iff]
  intro mark
  obtain ⟨bytes, inQueues, inBytes⟩ := List.mem_flatten.mp mark
  obtain ⟨queue, member, inQueue⟩ := List.mem_flatten.mp inQueues
  exact silent queue member bytes inQueue inBytes

theorem writes_silent {stage : Stage} (executed : Executed stage) (last : Bool) :
    ∀ bytes ∈ stage.writes last, rdshEofChar ∉ bytes := by
  cases stage with
  | ran writes status noEof =>
    cases last with
    | true => exact noEof
    | false => simp [Stage.writes]
  | execFailed => cases executed

theorem pipeline_writes (e : Turn) (clist : List CmdBuff) :
    (rshExecutePipeline e clist).2 = (List.range (e.launch.started clist.length)).map fun i =>
      (e.stage i).writes (i + 1 = clist.length) := by
  simp only [rshExecutePipeline]
  split <;> rfl

/-- The last stage is started only if all are. -/
theorem started_lt {launch : Launch} (failed : launch ≠ .all) (started : i < launch.started num) :
    i + 1 ≠ num := by
  cases launch with
  | all => exact absurd rfl failed
  | pipeFailed => cases started
  | forkFailed count =>
    simp only [Launch.started] at started
    omega

/-- The output of a request whose started stages were all executed. -/
theorem output_framed {e : Turn} {clist : List CmdBuff} {own : List (List UInt8)} (framed : Framed own.flatten)
    (executed : ∀ i < e.launch.started clist.length, Executed (e.stage i)) :
    Framed (e.output (rshExecutePipeline e clist).2 own) := by
  have silent : ∀ queue ∈ (rshExecutePipeline e clist).2, ∀ bytes ∈ queue, rdshEofChar ∉ bytes := by
    rw [pipeline_writes]
    intro queue member
    obtain ⟨i, started, rfl⟩ := List.mem_map.mp member
    exact writes_silent (executed i (List.mem_range.mp started)) _
  simp only [Turn.output]
  split
  · obtain ⟨body, ownSplit, inside⟩ := framed
    refine ⟨interleave e.schedule (rshExecutePipeline e clist).2 ++ body, ?_, ?_⟩
    · rw [ownSplit, List.append_assoc]
    · rw [List.mem_append, not_or]
      exact ⟨executed_silent silent e.schedule, inside⟩
  · rename_i notAll
    rw [interleave_alone]
    · exact framed
    rw [pipeline_writes]
    intro queue member
    obtain ⟨i, started, rfl⟩ := List.mem_map.mp member
    have runs := executed i (List.mem_range.mp started)
    have notLast := started_lt notAll (List.mem_range.mp started)
    cases stage : e.stage i with
    | ran => simp [Stage.writes, notLast]
    | execFailed => exact absurd runs (by simp [stage, Executed])

/-- The output of a request with a stage that could not be executed has a mark
too many. -/
theorem output_not_framed {e : Turn} {clist : List CmdBuff} {own : List (List UInt8)} (framed : Framed own.flatten)
    (started : i < e.launch.started clist.length) (failed : ¬ Executed (e.stage i)) :
    ¬ Framed (e.output (rshExecutePipeline e clist).2 own) := by
  generalize writes : (rshExecutePipeline e clist).2 = queues
  have all : (e.output queues own).Perm (queues.flatten.flatten ++ own.flatten) := by
    simp only [Turn.output]
    split
    · exact (interleave_perm e.schedule queues).append_right _
    · simpa using interleave_perm e.schedule (queues ++ [own])
  have stray : rdshEofChar ∈ queues.flatten.flatten := by
    have mark : [rdshEofChar] ∈ (e.stage i).writes (i + 1 = clist.length) := by
      cases stage : e.stage i with
      | ran => simp [stage, Executed] at failed
      | execFailed => simp [Stage.writes]
    rw [← writes, pipeline_writes]
    exact List.mem_flatten.mpr ⟨_, List.mem_flatten.mpr
      ⟨_, List.mem_map_of_mem (List.mem_range.mpr started), mark⟩, by simp⟩
  intro framedAll
  have once := ((framed_iff_count _).mp framedAll).1
  have own_once := ((framed_iff_count _).mp framed).1
  have strays := List.count_pos_iff.mpr stray
  rw [all.count_eq, List.count_append] at once
  omega

theorem output_framed_iff {e : Turn} {clist : List CmdBuff} {own : List (List UInt8)}
    (framed : Framed own.flatten) :
    Framed (e.output (rshExecutePipeline e clist).2 own) ↔
      ∀ i < e.launch.started clist.length, Executed (e.stage i) := by
  constructor
  · intro framedAll i started
    by_contra failed
    exact output_not_framed framed started failed framedAll
  · exact output_framed framed

/-- One turn: its answer carries one mark at the end exactly when nothing that
is started for it fails to execute. -/
theorem framed_iff {e : Turn} (delivers : Delivers e) (requested : (clientRequest e).taken.isSome) :
    Framed (clientRequest e).sent ↔ ServesWhole e := by
  cases recv : e.recv with
  | none => simp [clientRequest, recv] at requested
  | some message =>
    cases message with
    | nil => simp [clientRequest, recv] at requested
    | cons byte rest =>
      have inside : ∀ buff ∈ [tooLong, invalidFormat, exiting, stopping, failedToExecute], rdshEofChar ∉ buff := by
        decide +kernel
      have answered (buff : List UInt8) (known : buff ∈ [tooLong, invalidFormat, exiting, stopping, failedToExecute]) :
          Framed (sendMessageString buff e.sends).2.1.flatten := by
        rw [sendMessageString_delivered delivers]
        exact message_framed (inside buff known)
      have served : ServesWhole e ↔ ((byte :: rest).length < rdshCommBuffSz - 1 → Executes e (byte :: rest)) := by
        simp [ServesWhole, recv]
      simp only [clientRequest, served, recv]
      by_cases long : rdshCommBuffSz - 1 ≤ (byte :: rest).length
      · simp only [if_pos long, not_lt.mpr long, false_implies, iff_true]
        exact answered tooLong (by simp)
      simp only [if_neg long, not_le.mp long, true_implies, Executes]
      cases parse : buildCmdList (cString (byte :: rest)) [] e.heap with
      | none =>
        simp only [iff_false]
        rintro ⟨body, empty, _⟩
        simp at empty
      | some parsed =>
        obtain ⟨rc, clist, after⟩ := parsed
        simp only
        by_cases accepted : rc = ok
        swap
        · simp only [accepted, ne_eq, not_false_eq_true, if_true, false_implies, iff_true]
          exact answered invalidFormat (by simp)
        simp only [accepted, ne_eq, not_true_eq_false, if_false, true_implies]
        by_cases exits : firstCommand clist = .exit
        · simp only [exits, if_true, not_true_eq_false, false_implies, iff_true]
          exact answered exiting (by simp)
        by_cases stops : firstCommand clist = .stopSvr
        · simp only [stops, reduceCtorEq, if_false, if_true, not_true_eq_false, false_implies, implies_true, iff_true]
          exact answered stopping (by simp)
        simp only [exits, stops, if_false, not_false_eq_true, true_implies]
        have framed_mark : Framed [[rdshEofChar]].flatten := ⟨[], rfl, by simp⟩
        split
        · exact output_framed_iff (answered failedToExecute (by simp))
        · simp only [sendMessageEof_whole (headD_of_all delivers), not_true_eq_false, if_false]
          exact output_framed_iff framed_mark

/-! ### Sessions of any length -/

/-- The answers to the requests of a session. -/
def answers (turns : List Turn) : List (List UInt8) :=
  ((session turns).replies.filter fun reply => reply.taken.isSome).map Reply.sent

/-- Every answer ends with its only mark, and client and server stay in step
however the network cuts the answers. -/
def Synchronised (turns : List Turn) : Prop :=
  (∀ answer ∈ answers turns, Framed answer) ∧ InStep (answers turns) []

theorem unrequested_served {e : Turn} (unrequested : (clientRequest e).taken = none) : ServesWhole e := by
  intro message recv nonempty
  obtain ⟨byte, rest, rfl⟩ := List.exists_cons_of_ne_nil nonempty
  rw [taken_of_data recv] at unrequested
  cases unrequested

/-- A session stays synchronised exactly when nothing that is started in it
fails to execute and no request overruns a command buffer. -/
theorem synchronised_iff (turns : List Turn) (delivers : ∀ e ∈ turns, Delivers e) :
    Synchronised turns ↔ AlongSession ServesWhole turns := by
  have framed : (∀ answer ∈ answers turns, Framed answer) ↔ AlongSession ServesWhole turns := by
    induction turns with
    | nil => simp [answers, session, AlongSession]
    | cons e rest ih =>
      have later := ih fun other member => delivers other (List.mem_cons_of_mem _ member)
      have first : (∀ answer ∈ ([clientRequest e].filter fun reply => reply.taken.isSome).map Reply.sent,
          Framed answer) ↔ ServesWhole e := by
        cases taken : (clientRequest e).taken with
        | none => simp [taken, unrequested_served taken]
        | some command =>
          have requested : (clientRequest e).taken.isSome := by simp [taken]
          simp [taken, framed_iff (delivers e (by simp)) requested]
      simp only [AlongSession, answers, session] at later ⊢
      by_cases goes : (clientRequest e).next = .again
      · simp only [goes, if_true, true_implies, ← later, ← first]
        rw [← List.singleton_append, List.filter_append, List.map_append]
        simp only [List.mem_append, or_imp, forall_and]
      · simp only [goes, if_false, false_implies, and_true]
        exact first
  rw [← framed, Synchronised, and_iff_left_iff_imp]
  exact inStep_of_framed (answers turns)

theorem servesWhole_of_executed {e : Turn} (inside : (clientRequest e).next ≠ .overrun)
    (executed : ∀ i, Executed (e.stage i)) : ServesWhole e := by
  intro message recv nonempty short
  obtain ⟨byte, rest, rfl⟩ := List.exists_cons_of_ne_nil nonempty
  rw [Executes]
  cases parse : buildCmdList (cString (byte :: rest)) [] e.heap with
  | none =>
    simp only [clientRequest, recv, if_neg (not_le.mpr short), parse] at inside
    exact absurd rfl inside
  | some parsed => exact fun _ _ _ i _ => executed i

def knownCommand : Turn := quietTurn (text "ls\n") (by decide)

/-- A command that writes a line. -/
def listingAnswered : Turn :=
  { quietTurn (text "ls\n") (by decide) with stage := fun _ => .ran [text "notes.txt\n"] (.exited 0) (by decide) }

/-- A pipeline whose first command writes to the second only, which writes twice. -/
def pipelineAnswered : Turn :=
  { quietTurn (text "cat notes.txt | sort\n") (by decide) with
    stage := fun i => .ran (if i = 0 then [text "b\na\n"] else [text "a\n", text "b\n"]) (.exited 0)
      (by split <;> decide) }

theorem executed_session_synchronised :
    answers [listingAnswered, pipelineAnswered] =
        [text "notes.txt\n" ++ [rdshEofChar], text "a\nb\n" ++ [rdshEofChar]] ∧
      Synchronised [listingAnswered, pipelineAnswered] := by
  refine ⟨by decide +kernel, (synchronised_iff _ ?_).mpr ⟨?_, fun _ => ⟨?_, fun _ => trivial⟩⟩⟩
  · simp [Delivers, listingAnswered, pipelineAnswered, quietTurn]
  · exact servesWhole_of_executed (by decide +kernel) (by simp [listingAnswered, Executed])
  · exact servesWhole_of_executed (by decide +kernel) (by simp [pipelineAnswered, Executed])

/-- A request for a command that cannot be executed. -/
def unknownCommand : Turn :=
  { quietTurn (text "nosuchcmd\n") (by decide) with stage := fun _ => .execFailed (text "execvp: No such file\n") [] }

/-- The answer to an unknown command carries two marks, so the client sends its
next request with the second half of the answer unread. -/
theorem unknown_command_desynchronises : ¬ Synchronised [unknownCommand] := by
  intro synchronised
  have answer : answers [unknownCommand] = [text "execvp: No such file\n" ++ notFound ++ [0, rdshEofChar] ++
      failedToExecute ++ [0, rdshEofChar]] := by decide +kernel
  have framed := synchronised.1 _ (answer ▸ List.mem_singleton_self _)
  exact absurd ((framed_iff_count _).mp framed).1 (by decide +kernel)

end SysProg.AnswerSync
