import SysProg.RshServer

/-! What ends a client session. The loop of `exec_client_requests` is meant to
stop for `exit`, `stop-server`, a closed connection and a failing socket call;
it also returns when a request does not parse and when a stage of a pipeline
exits with another status than zero. -/
namespace SysProg.SessionSurvival
open CString Dshlib RshServer

/-! ### One turn -/

/-- The turn's message is short enough to be parsed, and parses into commands. -/
def Parses (e : Turn) (clist : List CmdBuff) : Prop :=
  ∃ message after, e.recv = some message ∧ message ≠ [] ∧ message.length < rdshCommBuffSz - 1 ∧
    buildCmdList (cString message) [] e.heap = some (ok, clist, after)

/-- A `send` that the server makes in answer to the request fails. -/
def SendFails (e : Turn) : Prop := false ∈ e.sends.take 2

/-- The reasons for which a session may end, with the code returned for each. -/
inductive MayLeave (e : Turn) : Int → Prop where
  | exit (parsed : Parses e clist) (first : firstCommand clist = .exit) : MayLeave e ok
  | stopServer (parsed : Parses e clist) (first : firstCommand clist = .stopSvr) : MayLeave e okExit
  | disconnected (closed : e.recv = some []) : MayLeave e ok
  | recvFailed (failed : e.recv = none) : MayLeave e errRdshCommunication
  | sendFailed (failed : SendFails e) : MayLeave e errRdshCommunication

/-- The turn keeps the loop going or leaves it for one of the reasons. -/
def Survives (e : Turn) : Prop :=
  match (clientRequest e).next with
  | .again => True
  | .leave rc => MayLeave e rc
  | .overrun => False

/-- Every stage was started, and exited with status zero or was killed. -/
def PipelineSucceeds (e : Turn) (clist : List CmdBuff) : Prop :=
  e.launch = .all ∧ ∀ i < clist.length, wexitstatus (e.stage i).status.raw = 0

/-- A message that is parsed must parse, and then ask for the end of the
session or run a pipeline that succeeds. -/
def HandlesRequest (e : Turn) (message : List UInt8) : Prop :=
  match buildCmdList (cString message) [] e.heap with
  | none => False
  | some (rc, clist, _) =>
    if rc = ok then firstCommand clist = .exit ∨ firstCommand clist = .stopSvr ∨ PipelineSucceeds e clist
    else SendFails e

def Orderly (e : Turn) : Prop :=
  ∀ message, e.recv = some message → message ≠ [] → message.length < rdshCommBuffSz - 1 → HandlesRequest e message

theorem pipelineResult_zero_iff (statuses : List WaitStatus) :
    pipelineResult statuses = 0 ↔ ∀ status ∈ statuses, wexitstatus status.raw = 0 := by
  simp only [pipelineResult]
  constructor
  · intro zero
    split at zero
    · exact absurd zero (by decide)
    · rename_i none_failed
      simpa using none_failed
  · intro zeros
    have none_failed : ¬ (statuses.any fun status => wexitstatus status.raw ≠ 0) = true := by simpa using zeros
    rw [if_neg none_failed]
    cases last : statuses.getLast? with
    | none => rfl
    | some status =>
      have zero := zeros status (List.mem_of_getLast? last)
      simp [zero]

theorem rshExecutePipeline_zero_iff (e : Turn) (clist : List CmdBuff) :
    (rshExecutePipeline e clist).1 = 0 ↔ PipelineSucceeds e clist := by
  simp only [rshExecutePipeline, PipelineSucceeds]
  by_cases all : e.launch = .all
  · simp [all, pipelineResult_zero_iff]
  · simp only [all, if_false, false_and, iff_false]
    decide

theorem sendFails_of_first {e : Turn} (failed : e.sends.headD true = false) : SendFails e := by
  cases sends : e.sends with
  | nil => simp [sends] at failed
  | cons first rest =>
    have first_failed : first = false := by simpa [sends] using failed
    simp [SendFails, sends, first_failed]

theorem mayLeave_exec (e : Turn) : ¬ MayLeave e errExecCmd := by
  generalize code : errExecCmd = rc
  intro reason
  cases reason <;> exact absurd code (by decide)

/-- A request that was received whole may end the session with a communication
error only for a failing `send`. -/
theorem mayLeave_communication {e : Turn} (received : e.recv = some message) :
    MayLeave e errRdshCommunication ↔ SendFails e := by
  constructor
  · generalize code : errRdshCommunication = rc
    intro reason
    cases reason with
    | exit | stopServer | disconnected => exact absurd code (by decide)
    | recvFailed failed => cases received.symm.trans failed
    | sendFailed failed => exact failed
  · exact .sendFailed

/-- How a turn ends whose request was parsed. -/
theorem next_parsed {e : Turn} (parsed : Parses e clist) : (clientRequest e).next =
    if firstCommand clist = .exit then .leave ok
    else if firstCommand clist = .stopSvr then .leave okExit
    else if (rshExecutePipeline e clist).1 ≠ 0 then .leave errExecCmd
    else if (sendMessageEof e.sends).1 ≠ ok then .leave errRdshCommunication
    else .again := by
  obtain ⟨message, after, received, nonempty, short, parse⟩ := parsed
  obtain ⟨byte, rest, rfl⟩ := List.exists_cons_of_ne_nil nonempty
  simp only [clientRequest, received, if_neg (not_le.mpr short), parse, ne_eq, not_true_eq_false, if_false]
  split
  · rfl
  split
  · rfl
  split
  · rfl
  split <;> rfl

/-- How a turn ends in which no request was parsed. -/
theorem next_unparsed {e : Turn} (unparsed : ∀ clist, ¬ Parses e clist) :
    (clientRequest e).next ∈ [.again, .leave ok, .leave errRdshCommunication, .overrun] := by
  cases received : e.recv with
  | none => simp [clientRequest, received]
  | some message =>
    cases message with
    | nil => simp [clientRequest, received]
    | cons byte rest =>
      simp only [clientRequest, received]
      split
      · simp
      next short =>
        cases parse : buildCmdList (cString (byte :: rest)) [] e.heap with
        | none => simp
        | some parsed =>
          obtain ⟨rc, clist, after⟩ := parsed
          have refused : rc ≠ ok := by
            rintro rfl
            exact unparsed clist ⟨_, after, received, by simp, not_le.mp short, parse⟩
          simp [refused]

/-- A parsed request is survived exactly when it is a built-in that ends the
session or a pipeline that succeeds. -/
theorem parsed_survives_iff {e : Turn} (parses : Parses e clist) :
    Survives e ↔ firstCommand clist = .exit ∨ firstCommand clist = .stopSvr ∨ PipelineSucceeds e clist := by
  simp only [Survives, next_parsed parses]
  by_cases exits : firstCommand clist = .exit
  · simp only [exits, if_true, true_or, iff_true]
    exact .exit parses exits
  by_cases stops : firstCommand clist = .stopSvr
  · simp only [stops, reduceCtorEq, if_false, if_true, true_or, or_true, iff_true]
    exact .stopServer parses stops
  simp only [exits, stops, if_false, false_or]
  by_cases succeeds : PipelineSucceeds e clist
  · have zero := (rshExecutePipeline_zero_iff e clist).mpr succeeds
    simp only [zero, ne_eq, not_true_eq_false, if_false, succeeds, iff_true]
    cases whole : e.sends.headD true with
    | true => simp only [sendMessageEof_whole whole, not_true_eq_false, if_false]
    | false =>
      have failed : errRdshCommunication ≠ ok := by decide
      simp only [sendMessageEof_failed whole, failed, not_false_eq_true, if_true]
      exact .sendFailed (sendFails_of_first whole)
  · have failed : (rshExecutePipeline e clist).1 ≠ 0 :=
      fun zero => succeeds ((rshExecutePipeline_zero_iff e clist).mp zero)
    simp only [if_pos failed, succeeds, iff_false]
    exact mayLeave_exec e

/-- One turn: the session goes on or ends for a reason exactly when the request
is handled in an orderly way. -/
theorem survives_iff (e : Turn) : Survives e ↔ Orderly e := by
  cases received : e.recv with
  | none =>
    have orderly : Orderly e := by simp [Orderly, received]
    simp only [Survives, orderly, clientRequest, received, iff_true]
    exact .recvFailed received
  | some message =>
    cases message with
    | nil =>
      have orderly : Orderly e := by simp [Orderly, received]
      simp only [Survives, orderly, clientRequest, received, iff_true]
      exact .disconnected received
    | cons byte rest =>
      have orderly : Orderly e ↔ ((byte :: rest).length < rdshCommBuffSz - 1 → HandlesRequest e (byte :: rest)) := by
        simp [Orderly, received]
      rw [orderly]
      by_cases long : rdshCommBuffSz - 1 ≤ (byte :: rest).length
      · simp only [Survives, clientRequest, received, if_pos long, not_lt.mpr long, false_implies]
      have short := not_le.mp long
      simp only [short, true_implies, HandlesRequest]
      cases parse : buildCmdList (cString (byte :: rest)) [] e.heap with
      | none => simp only [Survives, clientRequest, received, if_neg long, parse]
      | some parsed =>
        obtain ⟨rc, clist, after⟩ := parsed
        by_cases accepted : rc = ok
        · rw [parsed_survives_iff ⟨_, after, received, by simp, short, accepted ▸ parse⟩]
          simp only [accepted, if_true]
        · simp only [Survives, clientRequest, received, if_neg long, parse, ne_eq, accepted, not_false_eq_true,
            if_true, if_false]
          exact mayLeave_communication received

/-! ### Sessions of any length -/

/-- The function is still running, or had no buffer, or has returned for one
of the reasons for which a session may end. -/
def ReturnsForReason (allocated : Bool) (turns : List Turn) : Prop :=
  match execClientRequests allocated turns with
  | none => True
  | some next => allocated = false ∧ next = .leave errRdshServer ∨
      ∃ e rc, (session turns).ended = some (e, .leave rc) ∧ next = .leave rc ∧ MayLeave e rc

theorem ended_survives (turns : List Turn) :
    ReturnsForReason true turns ↔ AlongSession Survives turns := by
  induction turns with
  | nil => simp [ReturnsForReason, execClientRequests, session, AlongSession]
  | cons e rest ih =>
    simp only [ReturnsForReason, execClientRequests, if_true, AlongSession, session]
    by_cases goes : (clientRequest e).next = .again
    · have survives : Survives e := by simp only [Survives, goes]
      simp only [goes, if_true, survives, true_and, true_implies]
      exact ih
    · simp only [goes, if_false, Option.map_some, Bool.true_eq_false, false_and, false_or, false_implies, and_true,
        Option.some.injEq, Prod.mk.injEq, Survives]
      cases ends : (clientRequest e).next with
      | again => exact absurd ends goes
      | leave rc =>
        constructor
        · rintro ⟨_, _, ⟨rfl, same⟩, _, reason⟩
          cases same
          exact reason
        · intro reason
          exact ⟨e, rc, ⟨rfl, rfl⟩, rfl, reason⟩
      | overrun => simp

/-- A session ends for one of the reasons, whatever is requested in it, exactly
when every request it gets to is handled in an orderly way. -/
theorem session_survives_iff (allocated : Bool) (turns : List Turn) :
    ReturnsForReason allocated turns ↔ (allocated = true → AlongSession Orderly turns) := by
  have everyTurn : AlongSession Survives turns ↔ AlongSession Orderly turns := by
    induction turns with
    | nil => exact Iff.rfl
    | cons e rest ih => exact and_congr (survives_iff e) (imp_congr Iff.rfl ih)
  cases allocated with
  | true => rw [ended_survives, everyTurn, eq_self, true_implies]
  | false => simp [ReturnsForReason, execClientRequests]

/-- A blank line is refused by the parser and ends the session with a
communication error, although the connection is as good as before. -/
theorem blank_line_ends_session :
    ¬ ReturnsForReason true [quietTurn (text " \n") (by decide), quietTurn (text "ls\n") (by decide)] := by
  rw [ended_survives]
  rintro ⟨survives, _⟩
  have ended : (clientRequest (quietTurn (text " \n") (by decide))).next = .leave errRdshCommunication := by
    decide +kernel
  simp only [Survives, ended] at survives
  exact absurd ((mayLeave_communication rfl).mp survives) (by simp [SendFails, quietTurn])

end SysProg.SessionSurvival
