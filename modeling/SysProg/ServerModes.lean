import SysProg.SessionSurvival
import SysProg.Lib.Positions
import SysProg.Lib.Transition

/-! The accept loops of the two server modes. Single-threaded, the loop serves
one client after another and looks at the code of each session; threaded, it
starts a handler for each client, and the handler drops the code. In both modes a
`send` on a connection that its client has closed can kill the process. -/
namespace SysProg.ServerModes
open CString Dshlib Positions RshServer SessionSurvival Transition

inductive Mode where
  | single
  | threaded
  deriving DecidableEq

/-- An accepted connection: its `exec_client_requests` is running, has
returned, or has overrun a command buffer. -/
inductive Client where
  | serving
  | returned (rc : Int)
  | overrun
  deriving DecidableEq

/-- A server behind `boot_server`: how many connections were made to its
listening socket and how many it has accepted, the clients that were given to
`exec_client_requests`, what the accept loop has returned, and whether the
process was killed. `start_server` closes the listening socket as soon as the
loop has returned. -/
structure Server where
  made : Nat
  accepted : Nat
  clients : List Client
  result : Option Int
  killed : Bool
  deriving DecidableEq

def start : Server := ⟨0, 0, [], none, false⟩

/-- What can happen next. The failures of `malloc` and of `pthread_create` are
those of the threaded loop; `buffer` tells whether `exec_client_requests` gets
its buffer. In a turn that is `broken`, a send hits a connection that the client
has closed, and SIGPIPE, which the server neither handles nor ignores, kills it. -/
inductive Event where
  | connect
  | mallocFails
  | acceptFails
  | createFails
  | accept (buffer : Bool)
  | request (i : Nat) (e : Turn)
  | broken (i : Nat) (e : Turn)

/-- The loop stands at `accept`. In single mode it is not there while a client
is served. -/
def Server.AtAccept (s : Server) (mode : Mode) : Prop :=
  s.result = none ∧ (mode = .single → .serving ∉ s.clients)

instance (s : Server) (mode : Mode) : Decidable (s.AtAccept mode) := by
  unfold Server.AtAccept; infer_instance

/-- Client `i` has sent a request. `process_cli_requests` compares what the
session returns with `OK_EXIT`; `handle_client` does not look at it. -/
def Server.handle (s : Server) (mode : Mode) (i : Nat) (e : Turn) : Server :=
  match (clientRequest e).next with
  | .again => s
  | .leave rc => { s with
      clients := s.clients.set i (.returned rc)
      result := if mode = .single ∧ rc = okExit then some rc else s.result }
  | .overrun => { s with clients := s.clients.set i .overrun }

/-- One step of the server; nothing is known about it after an overrun. -/
def step (mode : Mode) (s : Server) (event : Event) : Option Server :=
  if .overrun ∈ s.clients ∨ s.killed then none else
  match event with
  | .connect => if s.result = none then some { s with made := s.made + 1 } else none
  | .mallocFails =>
    if mode = .threaded ∧ s.AtAccept mode then some { s with result := some errRdshServer } else none
  | .acceptFails => if s.AtAccept mode then some { s with result := some errRdshCommunication } else none
  | .createFails =>
    if mode = .threaded ∧ s.AtAccept mode ∧ s.accepted < s.made then
      some { s with accepted := s.accepted + 1, result := some errRdshServer }
    else none
  | .accept buffer =>
    if s.AtAccept mode ∧ s.accepted < s.made then
      some { s with
        accepted := s.accepted + 1
        clients := s.clients ++ [if buffer then .serving else .returned errRdshServer] }
    else none
  | .request i e => if s.clients[i]? = some .serving then some (s.handle mode i e) else none
  | .broken i e => if s.clients[i]? = some .serving ∧ BreaksOff e then some { s with killed := true } else none

/-- The request is parsed, and its first command is `stop-server`. -/
def AsksToStop (e : Turn) : Prop :=
  ∃ cmd others, Parses e (cmd :: others) ∧ cmd.arg 0 = some (text "stop-server")

/-! ### Codes and requests -/

theorem rshMatchCommand_stop_iff (input : Option (List UInt8)) :
    rshMatchCommand input = .stopSvr ↔ input = some (text "stop-server") := by
  constructor
  · intro stops
    cases input with
    | none => cases stops
    | some word =>
      simp only [rshMatchCommand] at stops
      split at stops
      · cases stops
      split at stops
      · cases stops
      split at stops
      · cases stops
      split at stops
      next asked => rw [asked]
      split at stops <;> cases stops
  · rintro rfl
    decide

theorem firstCommand_stop_iff (clist : List CmdBuff) :
    firstCommand clist = .stopSvr ↔ ∃ cmd others, clist = cmd :: others ∧ cmd.arg 0 = some (text "stop-server") := by
  cases clist with
  | nil => simp [firstCommand]
  | cons cmd others =>
    rw [firstCommand, rshMatchCommand_stop_iff]
    constructor
    · exact fun asked => ⟨cmd, others, rfl, asked⟩
    · rintro ⟨_, _, ⟨⟩, asked⟩
      exact asked

/-- Among all the codes of a session, `OK_EXIT` stands for `stop-server`. -/
theorem leaves_okExit_iff (e : Turn) : (clientRequest e).next = .leave okExit ↔ AsksToStop e := by
  have others : Next.leave errRdshCommunication ≠ .leave okExit ∧ Next.leave ok ≠ .leave okExit ∧
      Next.leave errExecCmd ≠ .leave okExit := by decide
  constructor
  · intro leaves
    by_cases parses : ∃ clist, Parses e clist
    · obtain ⟨clist, parsed⟩ := parses
      rw [next_parsed parsed] at leaves
      split at leaves
      · exact absurd leaves others.2.1
      split at leaves
      next stops =>
        obtain ⟨cmd, more, rfl, asked⟩ := (firstCommand_stop_iff clist).mp stops
        exact ⟨cmd, more, parsed, asked⟩
      split at leaves
      · exact absurd leaves others.2.2
      split at leaves
      · exact absurd leaves others.1
      · cases leaves
    · have ends := next_unparsed fun clist parsed => parses ⟨clist, parsed⟩
      rw [leaves] at ends
      exact absurd ends (by decide)
  · rintro ⟨cmd, more, parsed, asked⟩
    have stops : firstCommand (cmd :: more) = .stopSvr := (firstCommand_stop_iff _).mpr ⟨cmd, more, rfl, asked⟩
    rw [next_parsed parsed, stops, if_neg (by decide), if_pos rfl]

/-! ### One step -/

section Steps
variable {mode : Mode} {s next : Server} {event : Event}

/-- What a step is taken from, and what it leads to. -/
def Taken (mode : Mode) (s : Server) (event : Event) (next : Server) : Prop :=
  match event with
  | .connect => s.result = none ∧ next = { s with made := s.made + 1 }
  | .mallocFails => mode = .threaded ∧ s.AtAccept mode ∧ next = { s with result := some errRdshServer }
  | .acceptFails => s.AtAccept mode ∧ next = { s with result := some errRdshCommunication }
  | .createFails => mode = .threaded ∧ s.AtAccept mode ∧ s.accepted < s.made ∧
      next = { s with accepted := s.accepted + 1, result := some errRdshServer }
  | .accept buffer => s.AtAccept mode ∧ s.accepted < s.made ∧ next = { s with
      accepted := s.accepted + 1
      clients := s.clients ++ [if buffer then .serving else .returned errRdshServer] }
  | .request i e => s.clients[i]? = some .serving ∧ next = s.handle mode i e
  | .broken i e => s.clients[i]? = some .serving ∧ BreaksOff e ∧ next = { s with killed := true }

theorem step_taken (taken : step mode s event = some next) : Taken mode s event next := by
  simp only [step] at taken
  split at taken
  · cases taken
  cases event with
  | connect | acceptFails | request =>
    simp only [Option.ite_none_right_eq_some, Option.some.injEq] at taken
    exact ⟨taken.1, taken.2.symm⟩
  | mallocFails | accept | broken =>
    simp only [Option.ite_none_right_eq_some, Option.some.injEq] at taken
    exact ⟨taken.1.1, taken.1.2, taken.2.symm⟩
  | createFails =>
    simp only [Option.ite_none_right_eq_some, Option.some.injEq] at taken
    exact ⟨taken.1.1, taken.1.2.1, taken.1.2.2, taken.2.symm⟩

/-- A request changes nothing but the state of its client and the result. -/
theorem handle_cases (s : Server) (mode : Mode) (i : Nat) (e : Turn) :
    (s.handle mode i e).made = s.made ∧ (s.handle mode i e).accepted = s.accepted ∧
      ((s.handle mode i e).clients = s.clients ∨
        ∃ client, client ≠ .serving ∧ (s.handle mode i e).clients = s.clients.set i client) := by
  rw [Server.handle]
  cases (clientRequest e).next with
  | again => exact ⟨rfl, rfl, .inl rfl⟩
  | leave rc => exact ⟨rfl, rfl, .inr ⟨.returned rc, by simp, rfl⟩⟩
  | overrun => exact ⟨rfl, rfl, .inr ⟨.overrun, by simp, rfl⟩⟩

theorem handle_killed (s : Server) (mode : Mode) (i : Nat) (e : Turn) : (s.handle mode i e).killed = s.killed := by
  rw [Server.handle]
  cases (clientRequest e).next <;> rfl

/-- The request for `stop-server` gets through to the accept loop in single mode. -/
theorem handle_stop {s : Server} (asked : AsksToStop e) :
    (s.handle .single i e).result = some okExit ∧
      (s.handle .single i e).clients = s.clients.set i (.returned okExit) := by
  have next := (leaves_okExit_iff e).mpr asked
  simp only [Server.handle, next, and_self, if_true]

theorem handle_goes_on {s : Server} (other : ¬ (mode = .single ∧ AsksToStop e)) :
    (s.handle mode i e).result = s.result := by
  rw [Server.handle]
  cases next : (clientRequest e).next with
  | again | overrun => rfl
  | leave rc =>
    refine if_neg fun stops => other ⟨stops.1, (leaves_okExit_iff e).mp ?_⟩
    rw [next, stops.2]

/-- The events that end the accept loop, with the result. -/
inductive Ends (mode : Mode) : Event → Int → Prop where
  | malloc (threaded : mode = .threaded) : Ends mode .mallocFails errRdshServer
  | accept : Ends mode .acceptFails errRdshCommunication
  | create (threaded : mode = .threaded) : Ends mode .createFails errRdshServer
  | stop (single : mode = .single) (asked : AsksToStop e) : Ends mode (.request i e) okExit

theorem step_result (taken : step mode s event = some next) :
    (∃ rc, Ends mode event rc ∧ next.result = some rc) ∨ (∀ rc, ¬ Ends mode event rc) ∧ next.result = s.result := by
  have inversion := step_taken taken
  cases event with
  | connect =>
    obtain ⟨-, rfl⟩ := inversion
    exact .inr ⟨fun _ ends => (nomatch ends), rfl⟩
  | mallocFails =>
    obtain ⟨threaded, -, rfl⟩ := inversion
    exact .inl ⟨_, .malloc threaded, rfl⟩
  | acceptFails =>
    obtain ⟨-, rfl⟩ := inversion
    exact .inl ⟨_, .accept, rfl⟩
  | createFails =>
    obtain ⟨threaded, -, -, rfl⟩ := inversion
    exact .inl ⟨_, .create threaded, rfl⟩
  | accept buffer =>
    obtain ⟨-, -, rfl⟩ := inversion
    exact .inr ⟨fun _ ends => (nomatch ends), rfl⟩
  | request i e =>
    obtain ⟨-, rfl⟩ := inversion
    by_cases stops : mode = .single ∧ AsksToStop e
    · obtain ⟨rfl, asked⟩ := stops
      exact .inl ⟨_, .stop rfl asked, (handle_stop asked).1⟩
    · refine .inr ⟨fun _ ends => ?_, handle_goes_on stops⟩
      cases ends with
      | stop single asked => exact stops ⟨single, asked⟩
  | broken i e =>
    obtain ⟨-, -, rfl⟩ := inversion
    exact .inr ⟨fun _ ends => (nomatch ends), rfl⟩

/-- The process goes on after a step as long as no send breaks the turn off. -/
theorem step_killed (taken : step mode s event = some next) :
    s.killed = false ∧ (next.killed = true ↔ ∃ i e, event = .broken i e) := by
  have alive : s.killed = false := by
    simp only [step] at taken
    split at taken
    · cases taken
    next goesOn => exact Bool.eq_false_iff.mpr (not_or.mp goesOn).2
  refine ⟨alive, ?_⟩
  have inversion := step_taken taken
  cases event with
  | connect | acceptFails =>
    obtain ⟨-, rfl⟩ := inversion
    simp [alive]
  | mallocFails | accept =>
    obtain ⟨-, -, rfl⟩ := inversion
    simp [alive]
  | createFails =>
    obtain ⟨-, -, -, rfl⟩ := inversion
    simp [alive]
  | request i e =>
    obtain ⟨-, rfl⟩ := inversion
    simp [handle_killed, alive]
  | broken i e =>
    obtain ⟨-, -, rfl⟩ := inversion
    simp

/-- The process has been killed exactly if some turn was broken off. -/
theorem killed_iff {events : List Event} (ran : run (step mode) start events = some s) :
    s.killed = true ↔ ∃ i e, .broken i e ∈ events := by
  refine run_history (fun events s => s.killed = true ↔ ∃ i e, .broken i e ∈ events) (by simp [start]) ?_ ran
  intro history s event next _ before taken
  obtain ⟨alive, after⟩ := step_killed taken
  rw [alive, Bool.false_eq_true, false_iff] at before
  rw [after]
  constructor
  · rintro ⟨i, e, rfl⟩
    exact ⟨i, e, by simp⟩
  · rintro ⟨i, e, member⟩
    rcases List.mem_append.mp member with earlier | last
    · exact absurd ⟨i, e, earlier⟩ before
    · exact ⟨i, e, (List.mem_singleton.mp last).symm⟩

/-! ### Single mode -/

/-- In single mode only the client accepted last is served, and none any more
once the loop has ended. -/
structure OneByOne (s : Server) : Prop where
  last : ∀ i, s.clients[i]? = some .serving → i + 1 = s.clients.length
  ended : s.result ≠ none → .serving ∉ s.clients

theorem oneByOne_start : OneByOne start := ⟨by simp [start], by simp [start]⟩

theorem oneByOne_step (held : OneByOne s) (taken : step .single s event = some next) : OneByOne next := by
  have inversion := step_taken taken
  cases event with
  | connect =>
    obtain ⟨-, rfl⟩ := inversion
    exact ⟨held.last, held.ended⟩
  | mallocFails | createFails => exact nomatch inversion.1
  | acceptFails =>
    obtain ⟨⟨-, idle⟩, rfl⟩ := inversion
    exact ⟨held.last, fun _ => idle rfl⟩
  | accept buffer =>
    obtain ⟨⟨running, idle⟩, -, rfl⟩ := inversion
    refine ⟨fun i served => ?_, fun ended => absurd running ended⟩
    rcases getElem?_concat_cases served with earlier | ⟨rfl, -⟩
    · exact absurd (List.mem_of_getElem? earlier) (idle rfl)
    · simp
  | request i e =>
    obtain ⟨served, rfl⟩ := inversion
    have running : s.result = none := by
      by_contra ended
      exact held.ended ended (List.mem_of_getElem? served)
    -- a client that has left was the only one
    have idle (client : Client) (left : client ≠ .serving) : .serving ∉ s.clients.set i client := by
      intro member
      obtain ⟨j, other⟩ := List.mem_iff_getElem?.mp member
      rcases getElem?_set_cases other with ⟨-, same⟩ | ⟨different, before⟩
      · exact left same.symm
      · have := held.last i served
        have := held.last j before
        omega
    refine ⟨fun j other => ?_, fun ended => ?_⟩
    · rcases (handle_cases s .single i e).2.2 with same | ⟨client, left, changed⟩
      · rw [same] at other ⊢
        exact held.last j other
      · rw [changed] at other
        exact absurd (List.mem_of_getElem? other) (idle client left)
    · by_cases asked : AsksToStop e
      · rw [(handle_stop asked).2]
        exact idle _ (by simp)
      · rw [handle_goes_on fun stops => asked stops.2] at ended
        exact absurd running ended
  | broken i e =>
    obtain ⟨-, -, rfl⟩ := inversion
    exact ⟨held.last, held.ended⟩

theorem oneByOne_stuck (held : OneByOne s) (ended : s.result ≠ none) (event : Event) : step .single s event = none := by
  by_contra possible
  obtain ⟨next, taken⟩ := Option.ne_none_iff_exists'.mp possible
  have inversion := step_taken taken
  cases event with
  | connect => exact ended inversion.1
  | mallocFails | createFails => exact nomatch inversion.1
  | acceptFails | accept => exact ended inversion.1.1
  | request i e | broken i e => exact held.ended ended (List.mem_of_getElem? inversion.1)

theorem oneByOne_run {events : List Event} (ran : run (step .single) start events = some s) : OneByOne s :=
  run_keeps OneByOne oneByOne_start (fun _ _ _ => oneByOne_step) ran

theorem ends_unique (ends : Ends mode event rc) (again : Ends mode event rc') : rc = rc' := by
  cases ends <;> cases again <;> rfl

/-- The single-threaded loop has returned exactly what an event of the run
makes it return. -/
theorem result_iff {events : List Event} (ran : run (step .single) start events = some s) (rc : Int) :
    s.result = some rc ↔ ∃ event ∈ events, Ends .single event rc := by
  refine run_history (fun events s => s.result = some rc ↔ ∃ event ∈ events, Ends .single event rc) (by simp [start])
    ?_ ran
  intro history s event next reached returned taken
  -- the loop was running, so nothing before has ended it
  have running : s.result = none := by
    by_contra ended
    rw [oneByOne_stuck (oneByOne_run reached) ended event] at taken
    cases taken
  have before : ¬ ∃ event ∈ history, Ends .single event rc := by
    rw [← returned, running]
    simp
  simp only [List.mem_append, List.mem_singleton, or_and_right, exists_or, exists_eq_left, before, false_or]
  rcases step_result taken with ⟨code, ends, result⟩ | ⟨goesOn, result⟩
  · rw [result, Option.some.injEq]
    constructor
    · rintro rfl
      exact ends
    · exact ends_unique ends
  · rw [result, running]
    exact iff_of_false (by simp) (goesOn rc)

end Steps

/-! ### What stops the single-threaded server -/

/-- The turn in which a request was received. -/
def Event.turn : Event → Option Turn
  | .request _ e | .broken _ e => some e
  | .connect | .mallocFails | .acceptFails | .createFails | .accept _ => none

/-- `process_cli_requests` returns `OK_EXIT` when a request for `stop-server` was
received and `ERR_RDSH_COMMUNICATION` when `accept` has failed, and nothing else
makes it return or ends the process. -/
structure OnlyStopServerStops (events : List Event) (s : Server) : Prop where
  stops : s.result = some okExit ↔ ∃ event ∈ events, ∃ e ∈ event.turn, AsksToStop e
  acceptFails : s.result = some errRdshCommunication ↔ .acceptFails ∈ events
  codes : ∀ rc, s.result = some rc → rc = okExit ∨ rc = errRdshCommunication
  alive : s.killed = false

theorem accept_fails_iff {events : List Event} {s : Server} (ran : run (step .single) start events = some s) :
    s.result = some errRdshCommunication ↔ .acceptFails ∈ events := by
  rw [result_iff ran]
  constructor
  · rintro ⟨event, member, ends⟩
    generalize code : errRdshCommunication = rc at ends
    cases ends with
    | malloc threaded | create threaded => exact nomatch threaded
    | accept => exact member
    | stop single asked => exact absurd code (by decide)
  · exact fun member => ⟨_, member, .accept⟩

/-- The loop returns `OK_EXIT` when a request for `stop-server` was answered. -/
theorem stop_server_iff {events : List Event} {s : Server} (ran : run (step .single) start events = some s) :
    s.result = some okExit ↔ ∃ i e, .request i e ∈ events ∧ AsksToStop e := by
  rw [result_iff ran]
  constructor
  · rintro ⟨event, member, ends⟩
    generalize code : okExit = rc at ends
    cases ends with
    | malloc threaded | create threaded => exact nomatch threaded
    | accept => exact absurd code (by decide)
    | stop single asked => exact ⟨_, _, member, asked⟩
  · rintro ⟨i, e, member, asked⟩
    exact ⟨_, member, .stop rfl asked⟩

/-- The turn of a client that stops the server. -/
def stopTurn : Turn := quietTurn (text "stop-server\n") (by decide)

theorem stopTurn_asks : AsksToStop stopTurn := (leaves_okExit_iff stopTurn).mp (by decide +kernel)

/-- A first client sends a blank line, and the next one stops the server. -/
def blankThenStop : List Event :=
  [.connect, .connect, .accept true, .request 0 (quietTurn (text " \n") (by decide)), .accept true,
    .request 1 stopTurn]

/-- The turn of a client that asks the server to stop and closes at once: the
text of the answer is sent, and the end mark hits the closed connection. -/
def hastyStop : Turn := { stopTurn with sends := [true, false] }

/-- The system call of the accept loop that fails in this event. -/
def Event.fails : Event → Bool
  | .mallocFails | .acceptFails | .createFails => true
  | _ => false

/-- The loop takes a connection that has been made. -/
def Event.takes : Event → Bool
  | .createFails | .accept _ => true
  | _ => false

def Event.connects : Event → Bool
  | .connect => true
  | _ => false

/-- After each request for `stop-server` the accept loop has ended, and it has
accepted no connection that was made behind the request. -/
def StopsAsAsked (mode : Mode) (events : List Event) (s : Server) : Prop :=
  ∀ before i e after asked, events = before ++ .request i e :: after → run (step mode) start before = some asked →
    AsksToStop e → s.result.isSome ∧ s.accepted ≤ asked.made

/-- A system call of the threaded loop fails before a connection is accepted
that was made behind a request for `stop-server`. -/
def FailsInTime (events : List Event) : Prop :=
  ∀ before i e after, events = before ++ .request i e :: after → AsksToStop e →
    events.any Event.fails ∧ events.countP Event.takes ≤ before.countP Event.connects

section Modes
variable {mode : Mode} {events : List Event} {s : Server}

/-- The counters of the server count the events. -/
theorem counted (ran : run (step mode) start events = some s) :
    s.made = events.countP Event.connects ∧ s.accepted = events.countP Event.takes ∧ s.accepted ≤ s.made := by
  refine run_history (fun events s =>
    s.made = events.countP Event.connects ∧ s.accepted = events.countP Event.takes ∧ s.accepted ≤ s.made)
    ⟨rfl, rfl, Nat.le_refl _⟩ ?_ ran
  rintro history s event next - ⟨made, accepted, fewer⟩ taken
  have inversion := step_taken taken
  rw [List.countP_append, List.countP_append, List.countP_singleton, List.countP_singleton]
  cases event with
  | connect =>
    obtain ⟨-, rfl⟩ := inversion
    exact ⟨congrArg (· + 1) made, accepted, Nat.le_succ_of_le fewer⟩
  | mallocFails =>
    obtain ⟨-, -, rfl⟩ := inversion
    exact ⟨made, accepted, fewer⟩
  | acceptFails =>
    obtain ⟨-, rfl⟩ := inversion
    exact ⟨made, accepted, fewer⟩
  | createFails =>
    obtain ⟨-, -, waiting, rfl⟩ := inversion
    exact ⟨made, congrArg (· + 1) accepted, waiting⟩
  | accept buffer =>
    obtain ⟨-, waiting, rfl⟩ := inversion
    exact ⟨made, congrArg (· + 1) accepted, waiting⟩
  | request i e =>
    obtain ⟨-, rfl⟩ := inversion
    obtain ⟨sameMade, sameAccepted, -⟩ := handle_cases s mode i e
    rw [sameMade, sameAccepted]
    exact ⟨made, accepted, fewer⟩
  | broken i e =>
    obtain ⟨-, -, rfl⟩ := inversion
    exact ⟨made, accepted, fewer⟩

theorem ends_threaded_iff (event : Event) : (∃ rc, Ends .threaded event rc) ↔ event.fails = true := by
  constructor
  · rintro ⟨rc, ends⟩
    cases ends with
    | malloc | accept | create => rfl
    | stop single => exact nomatch single
  · intro fails
    cases event with
    | mallocFails => exact ⟨_, .malloc rfl⟩
    | acceptFails => exact ⟨_, .accept⟩
    | createFails => exact ⟨_, .create rfl⟩
    | connect | accept | request | broken => exact nomatch fails

/-- Only a failing system call ends the threaded loop. -/
theorem ended_threaded_iff (ran : run (step .threaded) start events = some s) :
    s.result.isSome ↔ events.any Event.fails := by
  refine run_history (fun events s => s.result.isSome ↔ events.any Event.fails) (by simp [start]) ?_ ran
  intro history s event next _ returned taken
  rw [List.any_append, List.any_cons, List.any_nil, Bool.or_false, Bool.or_eq_true, ← returned,
    ← ends_threaded_iff event]
  rcases step_result taken with ⟨rc, ends, result⟩ | ⟨goesOn, result⟩
  · rw [result]
    exact iff_of_true rfl (.inr ⟨rc, ends⟩)
  · rw [result]
    exact ⟨.inl, fun either => either.resolve_right fun ⟨rc, ends⟩ => goesOn rc ends⟩

/-- In single mode nothing happens behind a request for `stop-server`. -/
theorem single_stops (ran : run (step .single) start events = some s) : StopsAsAsked .single events s := by
  rintro before i e after asked rfl reached stops
  obtain ⟨middle, later, first, taken, rest⟩ := run_split ran
  cases reached.symm.trans first
  obtain ⟨-, rfl⟩ := step_taken taken
  have returned : (asked.handle .single i e).result ≠ none := by
    rw [(handle_stop stops).1]
    exact Option.some_ne_none _
  obtain ⟨-, rfl⟩ := run_stuck (oneByOne_stuck (oneByOne_step (oneByOne_run reached) taken) returned) rest
  rw [(handle_cases asked .single i e).2.1]
  exact ⟨Option.isSome_iff_ne_none.mpr returned, (counted reached).2.2⟩

/-- The modes stop alike exactly when the threaded server is not asked to, or
a failing system call stops it in time. -/
theorem stops_as_asked_iff (ran : run (step mode) start events = some s) :
    StopsAsAsked mode events s ↔ mode = .single ∨ FailsInTime events := by
  cases mode with
  | single => exact iff_of_true (single_stops ran) (.inl rfl)
  | threaded =>
    rw [or_iff_right (by simp)]
    constructor
    · rintro agreed before i e after rfl stops
      obtain ⟨asked, -, reached, -⟩ := run_split ran
      rw [← ended_threaded_iff ran, ← (counted ran).2.1, ← (counted reached).1]
      exact agreed before i e after asked rfl reached stops
    · rintro inTime before i e after asked rfl reached stops
      rw [ended_threaded_iff ran, (counted ran).2.1, (counted reached).1]
      exact inTime before i e after rfl stops

end Modes

/-- The threaded server is stopped by an `accept` that fails. -/
theorem failing_accept_stops : ∃ s,
    run (step .threaded) start [.connect, .accept true, .request 0 stopTurn, .acceptFails] = some s ∧
      StopsAsAsked .threaded [.connect, .accept true, .request 0 stopTurn, .acceptFails] s := by
  have ran : run (step .threaded) start [.connect, .accept true, .request 0 stopTurn, .acceptFails] =
      some ⟨1, 1, [.returned okExit], some errRdshCommunication, false⟩ := by decide +kernel
  refine ⟨_, ran, (stops_as_asked_iff ran).mpr (.inr ?_)⟩
  intro before i e after split _
  refine ⟨rfl, ?_⟩
  cases before with
  | nil => cases split
  | cons first before =>
    obtain ⟨rfl, -⟩ := List.cons.inj split
    exact Nat.succ_le_of_lt (List.countP_pos_iff.mpr ⟨.connect, by simp, rfl⟩)

/-- A client stops the threaded server, and another one is accepted. -/
theorem threaded_server_goes_on : ∃ s,
    run (step .threaded) start [.connect, .accept true, .request 0 stopTurn, .connect, .accept true] = some s ∧
      ¬ StopsAsAsked .threaded [.connect, .accept true, .request 0 stopTurn, .connect, .accept true] s := by
  have ran : run (step .threaded) start [.connect, .accept true, .request 0 stopTurn, .connect, .accept true] =
      some ⟨2, 2, [.returned okExit, .serving], none, false⟩ := by decide +kernel
  refine ⟨_, ran, fun agreed => ?_⟩
  obtain ⟨asked, -, reached, -⟩ := (run_split ran :
    ∃ asked later, run (step .threaded) start [.connect, .accept true] = some asked ∧ _)
  exact absurd (agreed _ _ _ _ asked rfl reached stopTurn_asks).1 (by decide)

end SysProg.ServerModes
