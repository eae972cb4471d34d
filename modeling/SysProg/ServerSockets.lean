import SysProg.ServerModes

/-! The descriptors of the server and who closes them. A client's socket is
closed by whoever called `exec_client_requests` for it. The listening socket is
closed by `start_server` when the accept loop has returned; single-threaded,
the loop closes it as well when it is asked to stop, and threaded, nobody
closes a socket for which no thread could be created. -/
namespace SysProg.ServerSockets
open Dshlib RshServer ServerModes Transition

/-- A descriptor of the server: the one `boot_server` has returned, or that of
the `n`-th `accept` to succeed. -/
inductive Socket where
  | listening
  | accepted (n : Nat)
  deriving DecidableEq

/-- What the accept loops and `handle_client` pass to `close` in a step. Client
`i` is the one of the `i`-th `accept`: only the last socket a server accepts can
be without a client. -/
def loopCloses (mode : Mode) (s : Server) : Event → List Socket
  | .connect | .mallocFails | .acceptFails | .createFails => []
  | .accept buffer => if buffer then [] else [.accepted s.accepted]
  | .request i e =>
    match (clientRequest e).next with
    | .again | .overrun => []
    | .leave rc => .accepted i :: if mode = .single ∧ rc = okExit then [.listening] else []
  | .broken _ _ => []

/-- A server with the descriptors it has passed to `close`. -/
structure Sockets where
  server : Server
  closed : List Socket
  deriving DecidableEq

/-- `start_server` calls `stop_server` as soon as the accept loop returns. -/
def socketStep (mode : Mode) (s : Sockets) (event : Event) : Option Sockets :=
  (step mode s.server event).map fun next =>
    ⟨next, s.closed ++ (loopCloses mode s.server event ++
      if s.server.result = none ∧ next.result ≠ none then [.listening] else [])⟩

def booted : Sockets := ⟨start, []⟩

def hasLeft : Client → Bool
  | .returned _ => true
  | _ => false

/-- `start_server` has returned, and no handler is running any more. -/
def Finished (s : Server) : Prop := s.result ≠ none ∧ ∀ client ∈ s.clients, hasLeft client = true

instance (s : Server) : Decidable (Finished s) := by unfold Finished; infer_instance

/-- Every descriptor was passed to `close` once. -/
def ClosedOnce (s : Sockets) : Prop :=
  s.closed.count .listening = 1 ∧ ∀ n < s.server.accepted, s.closed.count (.accepted n) = 1

/-- How often the socket of the `n`-th `accept` should have been closed by now. -/
def due (s : Server) (n : Nat) : Nat := if (s.clients[n]?).any hasLeft then 1 else 0

/-! ### One step -/

/-- The accept loop closes the listening socket itself. -/
def stopsLoop (mode : Mode) : Event → Bool
  | .request _ e => mode = .single ∧ (clientRequest e).next = .leave okExit
  | _ => false

def isCreateFails : Event → Bool
  | .createFails => true
  | _ => false

section Steps
variable {mode : Mode} {s next : Server} {event : Event}

theorem stopsLoop_iff (mode : Mode) (event : Event) :
    stopsLoop mode event = true ↔ mode = .single ∧ ∃ i e, event = .request i e ∧ AsksToStop e := by
  cases event with
  | request i e => simp [stopsLoop, ← leaves_okExit_iff]
  | connect | mallocFails | acceptFails | createFails | accept | broken => simp [stopsLoop]

theorem result_persists (taken : step mode s event = some next) (ended : s.result ≠ none) : next.result ≠ none := by
  rcases step_result taken with ⟨rc, -, result⟩ | ⟨-, result⟩
  · rw [result]
    exact Option.some_ne_none rc
  · rwa [result]

theorem loopCloses_listening (mode : Mode) (s : Server) (event : Event) :
    (loopCloses mode s event).count .listening = if stopsLoop mode event then 1 else 0 := by
  cases event with
  | connect | mallocFails | acceptFails | createFails | broken => rfl
  | accept buffer => cases buffer <;> rfl
  | request i e =>
    cases next : (clientRequest e).next with
    | again | overrun => simp [loopCloses, stopsLoop, next]
    | leave rc =>
      by_cases stops : mode = .single ∧ rc = okExit
      · simp [loopCloses, stopsLoop, next, stops]
      · simp [loopCloses, stopsLoop, next, stops]

/-- A client's socket is closed by the request that makes it leave. -/
theorem loopCloses_request (served : s.clients[i]? = some .serving) (n : Nat) :
    due (s.handle mode i e) n = due s n + (loopCloses mode s (.request i e)).count (.accepted n) := by
  obtain ⟨inside, serving⟩ := List.getElem?_eq_some_iff.mp served
  unfold due loopCloses Server.handle
  cases reply : (clientRequest e).next with
  | again => simp [reply]
  | leave rc =>
    by_cases same : i = n
    · subst same
      by_cases stops : mode = .single ∧ rc = okExit <;> simp [reply, inside, serving, hasLeft, stops]
    · by_cases stops : mode = .single ∧ rc = okExit <;> simp [reply, same, stops]
  | overrun =>
    by_cases same : i = n
    · subst same
      simp [reply, inside, serving, hasLeft]
    · simp [reply, same]

theorem loopCloses_accept (numbered : s.clients.length = s.accepted) (buffer : Bool) (n : Nat) :
    due { s with clients := s.clients ++ [if buffer then .serving else .returned errRdshServer] } n =
      due s n + (loopCloses mode s (.accept buffer)).count (.accepted n) := by
  unfold due loopCloses
  rcases Nat.lt_trichotomy n s.clients.length with earlier | here | later
  · have other : s.accepted ≠ n := by omega
    cases buffer <;> simp [List.getElem?_append_left earlier, other]
  · subst here
    cases buffer <;> simp [hasLeft, numbered]
  · have other : s.accepted ≠ n := by omega
    have none_before : s.clients[n]? = none := List.getElem?_eq_none (by omega)
    have none_after (client : Client) : (s.clients ++ [client])[n]? = none := List.getElem?_eq_none (by simp; omega)
    cases buffer <;> simp [none_before, none_after, other]

end Steps

/-! ### Runs -/

section Runs
variable {mode : Mode} {s : Sockets} {events : List Event}

theorem socketStep_step {next : Sockets} (taken : socketStep mode s event = some next) :
    step mode s.server event = some next.server ∧ next.closed = s.closed ++ (loopCloses mode s.server event ++
      if s.server.result = none ∧ next.server.result ≠ none then [.listening] else []) := by
  obtain ⟨server, stepped, rfl⟩ := Option.map_eq_some_iff.mp taken
  exact ⟨stepped, rfl⟩

/-- With the sockets left out, a run is a run of the server. -/
theorem run_server (ran : run (socketStep mode) booted events = some s) :
    run (step mode) start events = some s.server :=
  run_image Sockets.server (fun _ _ _ taken => (socketStep_step taken).1) ran

/-- The listening socket is closed when the loop has returned, and by a loop
that was asked to stop. -/
theorem count_listening (ran : run (socketStep mode) booted events = some s) : s.closed.count .listening =
    (if s.server.result = none then 0 else 1) + events.countP (stopsLoop mode) := by
  refine run_history (fun events s => s.closed.count .listening =
    (if s.server.result = none then 0 else 1) + events.countP (stopsLoop mode)) rfl ?_ ran
  intro history s event next _ counted taken
  obtain ⟨stepped, closed⟩ := socketStep_step taken
  rw [closed, List.count_append, List.count_append, counted, loopCloses_listening, List.countP_append,
    List.countP_singleton]
  by_cases running : s.server.result = none
  · by_cases goesOn : next.server.result = none
    · simp [running, goesOn]
    · simp [running, goesOn]
      omega
  · have ended := result_persists stepped running
    simp [running, ended, Nat.add_assoc]

theorem countP_createFails (events : List Event) : events.countP isCreateFails = 0 ↔ .createFails ∉ events := by
  rw [List.countP_eq_zero]
  constructor
  · exact fun none_fails member => none_fails _ member rfl
  · intro absent event member isOne
    cases event with
    | createFails => exact absent member
    | connect | mallocFails | acceptFails | accept | request | broken => cases isOne

theorem createFails_ends (ran : run (socketStep mode) booted events = some s) (fails : .createFails ∈ events) :
    s.server.result ≠ none := by
  refine run_history (fun events s => .createFails ∈ events → s.server.result ≠ none) (by simp) ?_ ran fails
  intro history s event next _ ended taken member
  obtain ⟨stepped, -⟩ := socketStep_step taken
  rcases List.mem_append.mp member with earlier | last
  · exact result_persists stepped (ended earlier)
  · obtain rfl := List.mem_singleton.mp last
    obtain ⟨-, -, -, dropping⟩ := step_taken stepped
    rw [dropping]
    exact Option.some_ne_none _

/-- Only a socket whose thread could not be created has no client. -/
theorem accepted_eq (ran : run (socketStep mode) booted events = some s) :
    s.server.accepted = s.server.clients.length + events.countP isCreateFails := by
  refine run_history (fun events s => s.server.accepted = s.server.clients.length + events.countP isCreateFails) rfl
    ?_ ran
  intro history s event next _ numbered taken
  have inversion := step_taken (socketStep_step taken).1
  rw [List.countP_append, List.countP_singleton]
  cases event with
  | connect | acceptFails =>
    obtain ⟨-, unchanged⟩ := inversion
    rw [unchanged]
    exact numbered
  | mallocFails | broken =>
    obtain ⟨-, -, unchanged⟩ := inversion
    rw [unchanged]
    exact numbered
  | createFails =>
    obtain ⟨-, -, -, dropping⟩ := inversion
    rw [dropping]
    exact congrArg (· + 1) numbered
  | accept buffer =>
    obtain ⟨-, -, accepting⟩ := inversion
    rw [accepting]
    simp [numbered, isCreateFails]
    omega
  | request i e =>
    obtain ⟨-, handled⟩ := inversion
    obtain ⟨-, sameAccepted, clients⟩ := handle_cases s.server mode i e
    have sameLength : (s.server.handle mode i e).clients.length = s.server.clients.length := by
      rcases clients with same | ⟨client, -, changed⟩
      · rw [same]
      · rw [changed, List.length_set]
    rw [handled, sameAccepted, sameLength]
    exact numbered

/-- The sockets of clients are closed when these have left. -/
theorem count_accepted (ran : run (socketStep mode) booted events = some s) (n : Nat) :
    s.closed.count (.accepted n) = due s.server n := by
  refine run_history (fun _ s => s.closed.count (.accepted n) = due s.server n) rfl ?_ ran
  intro history s event next ran counted taken
  obtain ⟨stepped, closed⟩ := socketStep_step taken
  have more : next.closed.count (.accepted n) =
      due s.server n + (loopCloses mode s.server event).count (.accepted n) := by
    rw [closed, List.count_append, List.count_append, counted]
    split <;> simp
  have inversion := step_taken stepped
  rw [more]
  cases event with
  | connect | acceptFails =>
    obtain ⟨-, unchanged⟩ := inversion
    rw [unchanged]
    rfl
  | mallocFails | createFails | broken =>
    obtain ⟨-, -, unchanged⟩ := inversion
    simp [unchanged, due, loopCloses]
  | accept buffer =>
    obtain ⟨⟨running, -⟩, -, accepting⟩ := inversion
    have none_dropped : history.countP isCreateFails = 0 :=
      (countP_createFails history).mpr fun member => createFails_ends ran member running
    have numbered := accepted_eq ran
    rw [none_dropped] at numbered
    rw [accepting]
    exact (loopCloses_accept numbered.symm buffer n).symm
  | request i e =>
    obtain ⟨served, handled⟩ := inversion
    rw [handled]
    exact (loopCloses_request served n).symm

/-- When the server has finished, every descriptor was closed once exactly if
the single-threaded loop was not asked to stop and a thread was created for
every connection. -/
theorem sockets_closed_once_iff (ran : run (socketStep mode) booted events = some s) (finished : Finished s.server) :
    ClosedOnce s ↔ (mode = .single → ∀ i e, .request i e ∈ events → ¬ AsksToStop e) ∧ .createFails ∉ events := by
  obtain ⟨ended, gone⟩ := finished
  have numbered := accepted_eq ran
  have listening : s.closed.count .listening = 1 ↔
      (mode = .single → ∀ i e, .request i e ∈ events → ¬ AsksToStop e) := by
    rw [count_listening ran, if_neg ended, Nat.add_eq_left, List.countP_eq_zero]
    constructor
    · exact fun none_stops single i e member asked =>
        none_stops _ member ((stopsLoop_iff mode _).mpr ⟨single, i, e, rfl, asked⟩)
    · intro unasked event member stops
      obtain ⟨single, i, e, rfl, asked⟩ := (stopsLoop_iff mode event).mp stops
      exact unasked single i e member asked
  have closed (n : Nat) : s.closed.count (.accepted n) = if n < s.server.clients.length then 1 else 0 := by
    rw [count_accepted ran, due]
    by_cases inside : n < s.server.clients.length
    · rw [List.getElem?_eq_getElem inside, Option.any_some, if_pos (gone _ (List.getElem_mem inside)), if_pos inside]
    · rw [List.getElem?_eq_none (not_lt.mp inside), Option.any_none, if_neg Bool.false_ne_true, if_neg inside]
  have sockets : (∀ n < s.server.accepted, s.closed.count (.accepted n) = 1) ↔ .createFails ∉ events := by
    rw [← countP_createFails]
    constructor
    · intro all
      by_contra some
      have leaked := all s.server.clients.length (by omega)
      simp [closed] at leaked
    · intro none_dropped n within
      rw [closed, if_pos (by omega)]
  rw [ClosedOnce, listening, sockets]

end Runs

/-- A client asks the threaded server to stop, and the next `accept` fails. -/
theorem failing_accept_closes_once : ∃ s,
    run (socketStep .threaded) booted [.connect, .accept true, .request 0 stopTurn, .acceptFails] = some s ∧
      ClosedOnce s := by
  have ran : run (socketStep .threaded) booted [.connect, .accept true, .request 0 stopTurn, .acceptFails] =
      some ⟨⟨1, 1, [.returned okExit], some errRdshCommunication, false⟩, [.accepted 0, .listening]⟩ := by
    decide +kernel
  exact ⟨_, ran, (sockets_closed_once_iff ran (by decide)).mpr ⟨nofun, by simp⟩⟩

/-- A client stops the single-threaded server. -/
theorem stop_server_closes_twice : ∃ s,
    run (socketStep .single) booted [.connect, .accept true, .request 0 stopTurn] = some s ∧ Finished s.server ∧
      s.closed.count .listening = 2 ∧ ¬ ClosedOnce s := by
  have ran : run (socketStep .single) booted [.connect, .accept true, .request 0 stopTurn] =
      some ⟨⟨1, 1, [.returned okExit], some okExit, false⟩, [.accepted 0, .listening, .listening]⟩ := by decide +kernel
  exact ⟨_, ran, by decide, by decide, fun once => absurd once.1 (by decide)⟩

end SysProg.ServerSockets
