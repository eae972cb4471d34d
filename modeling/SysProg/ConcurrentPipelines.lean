import SysProg.PipelinePlumbing
import SysProg.Lib.Transition

/-! Several `handle_client` threads inside `rsh_execute_pipeline`. They share
one descriptor table; `fork` copies all of it, but a stage closes only the pipe
ends of its own pipeline. -/
namespace SysProg.ConcurrentPipelines
open Descriptors Positions Transition
open PipelinePlumbing (Setup stageCalls ends mem_ends)

variable {ι ε : Type*}

/-! ### The server process -/

/-- An open file: one that was there before, or an end of a pipe that a thread
has created for its client. -/
inductive File (ι ε : Type*) where
  | ext (file : ε)
  | readEnd (owner : ι) (pipe : Nat)
  | writeEnd (owner : ι) (pipe : Nat)
  deriving DecidableEq

def File.owner : File ι ε → Option ι
  | .ext _ => none
  | .readEnd owner _ => some owner
  | .writeEnd owner _ => some owner

/-- The descriptors that are open when the threads begin, the client's socket
of each thread among them. -/
structure Server (ι ε : Type*) where
  initial : Table ε
  cliSock : ι → Nat
  client : ι → ε
  aboveStd : ∀ t, 2 < cliSock t
  connected : ∀ t, initial (cliSock t) = some (client t)

/-- A call of `rsh_execute_pipeline` under way: the pipes it has opened, and
how many stages it has forked and pipe ends it has closed. -/
structure Pipeline where
  num : Nat
  positive : 1 ≤ num
  pipes : List (Nat × Nat)
  started : Nat
  closed : Nat

def Server.setup (c : Server ι ε) (t : ι) (call : Pipeline) : Setup ε where
  num := call.num
  initial := c.initial
  cliSock := c.cliSock t
  client := c.client t
  positive := call.positive
  aboveStd := c.aboveStd t
  connected := c.connected t

/-- A thread is between two pipelines or in one; it is gone once a system call
has failed, since its session ends then. -/
inductive Thread where
  | idle
  | executing (call : Pipeline)
  | gone

/-- A forked child: whose client it serves, its table, the calls it has still
to make before `execvp`, and whether it has ended. -/
structure Stage (ι ε : Type*) where
  owner : ι
  table : Table (File ι ε)
  remaining : List Call
  ended : Bool

structure State (ι ε : Type*) where
  table : Table (File ι ε)
  threads : ι → Thread
  stages : List (Stage ι ε)

def start (c : Server ι ε) : State ι ε := ⟨fun fd => (c.initial fd).map .ext, fun _ => .idle, []⟩

/-- What can happen next: a thread makes a step of its pipeline, a stage makes
its next call, or a stage ends. -/
inductive Action (ι : Type*) where
  | begin (t : ι) (num : Nat)
  | pipe (t : ι) (readFd writeFd : Nat)
  | pipeFails (t : ι)
  | fork (t : ι)
  | forkFails (t : ι)
  | close (t : ι)
  | finish (t : ι)
  | stage (i : Nat)
  | exit (i : Nat)

section Steps
variable [DecidableEq ι]

/-- The thread goes on with its pipeline, or leaves it. -/
def State.goesOn (s : State ι ε) (t : ι) (thread : Thread) : State ι ε :=
  { s with threads := Function.update s.threads t thread }

/-- The pipeline a thread is in. -/
def Thread.call : Thread → Option Pipeline
  | .executing call => some call
  | _ => none

def step (c : Server ι ε) (s : State ι ε) : Action ι → Option (State ι ε)
  | .begin t num => match s.threads t with
    | .idle => if positive : 1 ≤ num then some (s.goesOn t (.executing ⟨num, positive, [], 0, 0⟩)) else none
    | _ => none
  | .pipe t readFd writeFd => (s.threads t).call.bind fun call =>
    if call.pipes.length + 1 < call.num ∧ readFd ≠ writeFd ∧ 2 < readFd ∧ 2 < writeFd ∧
        (s.table readFd).isNone ∧ (s.table writeFd).isNone then
      some { s.goesOn t (.executing { call with pipes := call.pipes ++ [(readFd, writeFd)] }) with
        table := Function.update (Function.update s.table readFd (some (.readEnd t call.pipes.length)))
          writeFd (some (.writeEnd t call.pipes.length)) }
    else none
  -- both failures return at once, with the pipes left open
  | .pipeFails t => (s.threads t).call.bind fun call =>
    if call.pipes.length + 1 < call.num then some (s.goesOn t .gone) else none
  | .forkFails t => (s.threads t).call.bind fun call =>
    if call.pipes.length + 1 = call.num ∧ call.started < call.num then some (s.goesOn t .gone) else none
  | .fork t => (s.threads t).call.bind fun call =>
    if call.pipes.length + 1 = call.num ∧ call.started < call.num then
      some { s.goesOn t (.executing { call with started := call.started + 1 }) with
        stages := s.stages ++ [⟨t, s.table, stageCalls (c.setup t call) call.pipes call.started, false⟩] }
    else none
  | .close t => (s.threads t).call.bind fun call =>
    if call.started = call.num then (ends call.pipes)[call.closed]?.map fun fd =>
      { s.goesOn t (.executing { call with closed := call.closed + 1 }) with
        table := (Call.close fd).apply s.table }
    else none
  | .finish t => (s.threads t).call.bind fun call =>
    if call.started = call.num ∧ call.closed = (ends call.pipes).length ∧
        ∀ stage ∈ s.stages, stage.owner = t → stage.ended = true then some (s.goesOn t .idle)
    else none
  | .stage i => s.stages[i]?.bind fun stage =>
    match stage.ended, stage.remaining with
    | false, call :: rest =>
      some { s with stages := s.stages.set i { stage with table := call.apply stage.table, remaining := rest } }
    | _, _ => none
  | .exit i => s.stages[i]?.map fun stage => { s with stages := s.stages.set i { stage with ended := true } }

end Steps

/-- The file is an end of a pipe that was created for another client. -/
def Foreign (t : ι) (file : File ι ε) : Prop := ∃ u, file.owner = some u ∧ u ≠ t

/-- The stage has made all its calls: the next one is `execvp`. -/
def AtExec (s : State ι ε) (i : Nat) (stage : Stage ι ε) : Prop :=
  s.stages[i]? = some stage ∧ stage.ended = false ∧ stage.remaining = []

/-- No stage that reaches `execvp` has an open pipe end of another client. -/
def Isolated (s : State ι ε) : Prop :=
  ∀ i stage fd file, AtExec s i stage → stage.table fd = some file → ¬ Foreign stage.owner file

/-! ### One step -/

section Inversion
variable [DecidableEq ι] {c : Server ι ε} {s next : State ι ε} {action : Action ι}

/-- What a step is taken from, and what it leads to. -/
def Taken (c : Server ι ε) (s next : State ι ε) : Action ι → Prop
  | .begin t num => ∃ positive, next = s.goesOn t (.executing ⟨num, positive, [], 0, 0⟩)
  | .pipe t readFd writeFd => ∃ call, s.threads t = .executing call ∧ call.pipes.length + 1 < call.num ∧
      readFd ≠ writeFd ∧ 2 < readFd ∧ 2 < writeFd ∧ s.table readFd = none ∧ s.table writeFd = none ∧
      next = { s.goesOn t (.executing { call with pipes := call.pipes ++ [(readFd, writeFd)] }) with
        table := Function.update (Function.update s.table readFd (some (.readEnd t call.pipes.length)))
          writeFd (some (.writeEnd t call.pipes.length)) }
  | .pipeFails t | .forkFails t => next = s.goesOn t .gone
  | .fork t => ∃ call, s.threads t = .executing call ∧ call.pipes.length + 1 = call.num ∧ call.started < call.num ∧
      next = { s.goesOn t (.executing { call with started := call.started + 1 }) with
        stages := s.stages ++ [⟨t, s.table, stageCalls (c.setup t call) call.pipes call.started, false⟩] }
  | .close t => ∃ call fd, s.threads t = .executing call ∧ call.started = call.num ∧
      (ends call.pipes)[call.closed]? = some fd ∧
      next = { s.goesOn t (.executing { call with closed := call.closed + 1 }) with
        table := (Call.close fd).apply s.table }
  | .finish t => next = s.goesOn t .idle
  | .stage i => ∃ stage call rest, s.stages[i]? = some stage ∧ stage.remaining = call :: rest ∧
      next = { s with stages := s.stages.set i { stage with table := call.apply stage.table, remaining := rest } }
  | .exit i => ∃ stage, s.stages[i]? = some stage ∧
      next = { s with stages := s.stages.set i { stage with ended := true } }

theorem call_executing {thread : Thread} (found : thread.call = some call) : thread = .executing call := by
  cases thread with
  | executing => exact congrArg Thread.executing (Option.some.inj found)
  | idle | gone => cases found

theorem step_taken (taken : step c s action = some next) : Taken c s next action := by
  cases action with
  | begin t num =>
    simp only [step] at taken
    split at taken
    · split at taken
      next positive => exact ⟨positive, (Option.some.inj taken).symm⟩
      next => cases taken
    · cases taken
  | pipe t readFd writeFd =>
    obtain ⟨call, found, taken⟩ := Option.bind_eq_some_iff.mp taken
    simp only [Option.ite_none_right_eq_some, Option.some.injEq, Option.isNone_iff_eq_none] at taken
    obtain ⟨⟨more, different, readAbove, writeAbove, readFree, writeFree⟩, rfl⟩ := taken
    exact ⟨call, call_executing found, more, different, readAbove, writeAbove, readFree, writeFree, rfl⟩
  | pipeFails t | forkFails t | finish t =>
    obtain ⟨call, found, taken⟩ := Option.bind_eq_some_iff.mp taken
    simp only [Option.ite_none_right_eq_some, Option.some.injEq] at taken
    exact taken.2.symm
  | fork t =>
    obtain ⟨call, found, taken⟩ := Option.bind_eq_some_iff.mp taken
    simp only [Option.ite_none_right_eq_some, Option.some.injEq] at taken
    obtain ⟨⟨opened, more⟩, rfl⟩ := taken
    exact ⟨call, call_executing found, opened, more, rfl⟩
  | close t =>
    obtain ⟨call, found, taken⟩ := Option.bind_eq_some_iff.mp taken
    simp only [Option.ite_none_right_eq_some] at taken
    obtain ⟨all, taken⟩ := taken
    obtain ⟨fd, nextEnd, rfl⟩ := Option.map_eq_some_iff.mp taken
    exact ⟨call, fd, call_executing found, all, nextEnd, rfl⟩
  | stage i =>
    obtain ⟨stage, found, taken⟩ := Option.bind_eq_some_iff.mp taken
    split at taken
    next call rest running remaining =>
      exact ⟨stage, call, rest, found, remaining, (Option.some.inj taken).symm⟩
    next => cases taken
  | exit i =>
    obtain ⟨stage, found, rfl⟩ := Option.map_eq_some_iff.mp taken
    exact ⟨stage, found, rfl⟩

end Inversion

/-! ### The shared table -/

section Invariant
variable {c : Server ι ε} {s next : State ι ε} {action : Action ι}

/-- A pipeline does its steps in order, and the ends it has not closed are open. -/
structure InOrder (table : Table (File ι ε)) (t : ι) (call : Pipeline) : Prop where
  unforked : call.pipes.length + 1 < call.num → call.started = 0
  unclosed : call.started < call.num → call.closed = 0
  distinct : (ends call.pipes).Nodup
  own : ∀ fd ∈ (ends call.pipes).drop call.closed, ∃ file, table fd = some file ∧ file.owner = some t

structure Shared (c : Server ι ε) (s : State ι ε) : Prop where
  standard : ∀ fd ≤ 2, ∀ file, s.table fd = some file → file.owner = none
  sockets : ∀ t, s.table (c.cliSock t) = some (.ext (c.client t))
  pipelines : ∀ t call, s.threads t = .executing call → InOrder s.table t call

theorem shared_start : Shared c (start c) where
  standard := by
    intro fd low file held
    obtain ⟨_, -, rfl⟩ := Option.map_eq_some_iff.mp held
    rfl
  sockets := fun t => congrArg (Option.map File.ext) (c.connected t)
  pipelines := fun t call executing => nomatch executing

/-- A pipe on two fresh descriptors. -/
theorem InOrder.pipe {table : Table (File ι ε)} {t : ι} {call : Pipeline} (order : InOrder table t call)
    (more : call.pipes.length + 1 < call.num) (different : readFd ≠ writeFd) (readFree : table readFd = none)
    (writeFree : table writeFd = none) :
    InOrder (Function.update (Function.update table readFd (some (.readEnd t call.pipes.length))) writeFd
      (some (.writeEnd t call.pipes.length))) t { call with pipes := call.pipes ++ [(readFd, writeFd)] } := by
  have unstarted := order.unforked more
  have unclosed := order.unclosed (by rw [unstarted]; exact call.positive)
  have longer : ends (call.pipes ++ [(readFd, writeFd)]) = ends call.pipes ++ [readFd, writeFd] := by simp [ends]
  have opened : ∀ fd ∈ ends call.pipes, ∃ file, table fd = some file ∧ file.owner = some t := by
    simpa [unclosed] using order.own
  have fresh : ∀ fd ∈ ends call.pipes, fd ≠ readFd ∧ fd ≠ writeFd := by
    intro fd member
    obtain ⟨file, held, -⟩ := opened fd member
    constructor <;> rintro rfl
    · rw [readFree] at held
      cases held
    · rw [writeFree] at held
      cases held
  refine ⟨fun _ => unstarted, fun _ => unclosed, ?_, ?_⟩
  · rw [longer, List.nodup_append]
    refine ⟨order.distinct, by simpa using different, fun fd member other new => ?_⟩
    rcases List.mem_pair.mp new with rfl | rfl
    · exact (fresh fd member).1
    · exact (fresh fd member).2
  · intro fd member
    simp only [unclosed, List.drop_zero, longer, List.mem_append, List.mem_pair] at member
    rcases member with old | rfl | rfl
    · obtain ⟨file, held, owner⟩ := opened fd old
      refine ⟨file, ?_, owner⟩
      rw [Function.update_of_ne (fresh fd old).2, Function.update_of_ne (fresh fd old).1, held]
    · exact ⟨_, (Function.update_of_ne different ..).trans (Function.update_self ..), rfl⟩
    · exact ⟨_, Function.update_self .., rfl⟩

theorem drop_first {list : List Nat} (first : list[k]? = some fd) : list.drop k = fd :: list.drop (k + 1) := by
  obtain ⟨inside, rfl⟩ := List.getElem?_eq_some_iff.mp first
  exact List.drop_eq_getElem_cons inside

/-- The next end is closed. -/
theorem InOrder.close {table : Table (File ι ε)} {t : ι} {call : Pipeline} (order : InOrder table t call)
    (all : call.started = call.num) (nextEnd : (ends call.pipes)[call.closed]? = some fd) :
    InOrder ((Call.close fd).apply table) t { call with closed := call.closed + 1 } := by
  refine ⟨order.unforked, fun fewer => absurd all (Nat.ne_of_lt fewer), order.distinct, fun other member => ?_⟩
  have unclosed : ((ends call.pipes).drop call.closed).Nodup := order.distinct.sublist (List.drop_sublist ..)
  rw [drop_first nextEnd, List.nodup_cons] at unclosed
  have different : other ≠ fd := fun same => unclosed.1 (same ▸ member)
  obtain ⟨file, held, owner⟩ := order.own other (drop_first nextEnd ▸ List.mem_cons_of_mem _ member)
  exact ⟨file, (Function.update_of_ne different ..).trans held, owner⟩

/-! ### What a stage inherits -/

/-- Of the other clients' pipes a stage has what was open when it was forked,
and none of the calls it has still to make touches them. -/
structure Descends (t : ι) (inherited : Table (File ι ε)) (stage : Stage ι ε) : Prop where
  owner : stage.owner = t
  foreign : SameOn (Foreign t) stage.table inherited
  spares : ∀ call ∈ stage.remaining, Spares (Foreign t) stage.table call

theorem descends_call {t : ι} {inherited : Table (File ι ε)} {stage : Stage ι ε} {call : Call} {rest : List Call}
    (descends : Descends t inherited stage) (remaining : stage.remaining = call :: rest) :
    Descends t inherited { stage with table := call.apply stage.table, remaining := rest } := by
  have first := (descends.spares call (by simp [remaining])).sameOn
  exact ⟨descends.owner, first.trans descends.foreign, fun later member =>
    (descends.spares later (by simp [remaining, member])).of_sameOn first⟩

theorem getD_ends (pipes : List (Nat × Nat)) (k : Nat) :
    (pipes.getD k (0, 0) = (0, 0)) ∨
      (pipes.getD k (0, 0)).1 ∈ ends pipes ∧ (pipes.getD k (0, 0)).2 ∈ ends pipes := by
  rw [List.getD_eq_getElem?_getD]
  cases found : pipes[k]? with
  | none => exact .inl rfl
  | some pipe => exact .inr ⟨mem_ends.mpr ⟨k, pipe, found, .inl rfl⟩, mem_ends.mpr ⟨k, pipe, found, .inr rfl⟩⟩

/-- The calls of a stage are about its own pipes, its client's socket and the
standard descriptors. -/
theorem stage_descriptors {c : Setup ε} {pipes : List (Nat × Nat)} {call : Call} (member : call ∈ stageCalls c pipes i)
    (mentioned : fd ∈ call.descriptors) : fd ≤ 2 ∨ fd = c.cliSock ∨ fd ∈ ends pipes := by
  rw [stageCalls, List.mem_append, List.mem_append] at member
  rcases member with (input | output) | closes
  · rw [List.mem_singleton.mp input, Call.descriptors, List.mem_pair] at mentioned
    rcases mentioned with rfl | rfl
    · split
      · exact .inr (.inl rfl)
      · rcases getD_ends pipes (i - 1) with missing | found
        · exact .inl (by rw [missing]; decide)
        · exact .inr (.inr found.1)
    · exact .inl (by decide)
  · split at output
    · rcases List.mem_pair.mp output with rfl | rfl
      · rcases List.mem_pair.mp mentioned with rfl | rfl
        · exact .inr (.inl rfl)
        · exact .inl (by decide)
      · rcases List.mem_pair.mp mentioned with rfl | rfl
        · exact .inr (.inl rfl)
        · exact .inl (by decide)
    · rw [List.mem_singleton.mp output, Call.descriptors, List.mem_pair] at mentioned
      rcases mentioned with rfl | rfl
      · rcases getD_ends pipes i with missing | found
        · exact .inl (by rw [missing]; decide)
        · exact .inr (.inr found.2)
      · exact .inl (by decide)
  · obtain ⟨closed, inEnds, rfl⟩ := List.mem_map.mp closes
    rw [List.mem_singleton.mp mentioned]
    exact .inr (.inr inEnds)

theorem descends_fork {t : ι} {call : Pipeline} (held : Shared c s) (executing : s.threads t = .executing call)
    (more : call.started < call.num) :
    Descends t s.table ⟨t, s.table, stageCalls (c.setup t call) call.pipes call.started, false⟩ := by
  have order := held.pipelines t call executing
  refine ⟨rfl, SameOn.refl _ _, fun next member fd mentioned file opened => ?_⟩
  rintro ⟨u, owner, other⟩
  rcases stage_descriptors member mentioned with low | rfl | inEnds
  · rw [held.standard fd low file opened] at owner
    cases owner
  · cases (held.sockets t).symm.trans opened
    cases owner
  · obtain ⟨mine, same, ownerMine⟩ := order.own fd (by simpa [order.unclosed more] using inEnds)
    cases same.symm.trans opened
    exact other (Option.some.inj (owner.symm.trans ownerMine))

/-! ### Runs -/

variable [DecidableEq ι]

/-- One thread goes on, and perhaps opens or closes ends of its own. -/
theorem shared_update {t : ι} {thread : Thread} (held : Shared c s)
    (threads : next.threads = Function.update s.threads t thread)
    (standard : ∀ fd ≤ 2, ∀ file, next.table fd = some file → file.owner = none)
    (others : ∀ fd file, s.table fd = some file → file.owner ≠ some t → next.table fd = some file)
    (mine : ∀ call, thread = .executing call → InOrder next.table t call) : Shared c next := by
  refine ⟨standard, fun u => others _ _ (held.sockets u) (by simp [File.owner]), fun u call executing => ?_⟩
  rw [threads, Function.update_apply] at executing
  split at executing
  next same => exact same ▸ mine call executing
  next different =>
    obtain ⟨unforked, unclosed, distinct, own⟩ := held.pipelines u call executing
    refine ⟨unforked, unclosed, distinct, fun fd unclosed => ?_⟩
    obtain ⟨file, opened, owner⟩ := own fd unclosed
    exact ⟨file, others fd file opened (by simpa [owner] using different), owner⟩

/-- A step that leaves the table alone. -/
theorem shared_goesOn {t : ι} {thread : Thread} (held : Shared c s)
    (mine : ∀ call, thread = .executing call → InOrder s.table t call) : Shared c (s.goesOn t thread) :=
  shared_update held rfl held.standard (fun _ _ opened _ => opened) mine

theorem shared_step (held : Shared c s) (taken : step c s action = some next) : Shared c next := by
  have inversion := step_taken taken
  cases action with
  | begin t num =>
    obtain ⟨positive, rfl⟩ := inversion
    refine shared_goesOn held fun call executing => ?_
    cases executing
    exact ⟨fun _ => rfl, fun _ => rfl, List.nodup_nil, fun fd none => nomatch none⟩
  | pipe t readFd writeFd =>
    obtain ⟨call, executing, more, different, readAbove, writeAbove, readFree, writeFree, rfl⟩ := inversion
    have order := held.pipelines t call executing
    have kept (fd : Nat) (file : File ι ε) (opened : s.table fd = some file) :
        Function.update (Function.update s.table readFd (some (.readEnd t call.pipes.length))) writeFd
          (some (.writeEnd t call.pipes.length)) fd = some file := by
      rw [Function.update_of_ne (fun same => by simp [same, writeFree] at opened),
        Function.update_of_ne (fun same => by simp [same, readFree] at opened), opened]
    refine shared_update held rfl ?_ (fun fd file opened _ => kept fd file opened) fun after same => ?_
    · intro fd low file opened
      refine held.standard fd low file ?_
      dsimp only at opened
      rwa [Function.update_of_ne (by omega), Function.update_of_ne (by omega)] at opened
    · cases same
      exact order.pipe more different readFree writeFree
  | pipeFails t | forkFails t | finish t =>
    cases inversion
    exact shared_goesOn held fun call executing => nomatch executing
  | fork t =>
    obtain ⟨call, executing, opened, more, rfl⟩ := inversion
    obtain ⟨unforked, unclosed, distinct, own⟩ := held.pipelines t call executing
    refine shared_update held rfl held.standard (fun _ _ opened _ => opened) fun after same => ?_
    cases same
    exact ⟨fun fewer => absurd fewer (by dsimp only; omega), fun _ => unclosed more, distinct, own⟩
  | close t =>
    obtain ⟨call, fd, executing, all, nextEnd, rfl⟩ := inversion
    have order := held.pipelines t call executing
    obtain ⟨mine, opened, owner⟩ := order.own fd (drop_first nextEnd ▸ List.mem_cons_self)
    refine shared_update held rfl ?_ ?_ fun after same => ?_
    · intro other low file opened
      refine held.standard other low file ?_
      simp only [Call.apply, Function.update_apply] at opened
      split at opened
      · cases opened
      · exact opened
    · intro other file stays foreign
      have different : other ≠ fd := by
        rintro rfl
        rw [opened, Option.some.injEq] at stays
        exact foreign (stays ▸ owner)
      exact (Function.update_of_ne different ..).trans stays
    · cases same
      exact order.close all nextEnd
  | stage i =>
    obtain ⟨stage, call, rest, -, -, rfl⟩ := inversion
    exact ⟨held.standard, held.sockets, held.pipelines⟩
  | exit i =>
    obtain ⟨stage, -, rfl⟩ := inversion
    exact ⟨held.standard, held.sockets, held.pipelines⟩

theorem shared_run {actions : List (Action ι)} (ran : run (step c) (start c) actions = some s) : Shared c s :=
  run_keeps (Shared c) shared_start (fun _ _ _ => shared_step) ran

/-- What a step does to the stages: one is forked, one goes on, or none is
concerned. -/
inductive Moves (c : Server ι ε) (s : State ι ε) : Action ι → List (Stage ι ε) → Prop where
  | forks (t : ι) (call : Pipeline) (executing : s.threads t = .executing call) (more : call.started < call.num) :
      Moves c s (.fork t) (s.stages ++ [⟨t, s.table, stageCalls (c.setup t call) call.pipes call.started, false⟩])
  | goesOn {a : Action ι} (i : Nat) (stage later : Stage ι ε) (here : s.stages[i]? = some stage)
      (keeps : ∀ t inherited, Descends t inherited stage → Descends t inherited later) (other : ∀ t, a ≠ .fork t) :
      Moves c s a (s.stages.set i later)
  | stays {a : Action ι} (other : ∀ t, a ≠ .fork t) : Moves c s a s.stages

theorem step_moves (taken : step c s action = some next) : Moves c s action next.stages := by
  have inversion := step_taken taken
  cases action with
  | begin t num =>
    obtain ⟨positive, rfl⟩ := inversion
    exact .stays fun _ => nofun
  | pipe t readFd writeFd =>
    obtain ⟨call, -, -, -, -, -, -, -, rfl⟩ := inversion
    exact .stays fun _ => nofun
  | pipeFails t | forkFails t | finish t =>
    cases inversion
    exact .stays fun _ => nofun
  | fork t =>
    obtain ⟨call, executing, -, more, rfl⟩ := inversion
    exact .forks t call executing more
  | close t =>
    obtain ⟨call, fd, -, -, -, rfl⟩ := inversion
    exact .stays fun _ => nofun
  | stage i =>
    obtain ⟨stage, call, rest, here, remaining, rfl⟩ := inversion
    exact .goesOn i stage _ here (fun t inherited descends => descends_call descends remaining) fun _ => nofun
  | exit i =>
    obtain ⟨stage, here, rfl⟩ := inversion
    exact .goesOn i stage _ here (fun t inherited descends => ⟨descends.owner, descends.foreign, descends.spares⟩)
      fun _ => nofun

/-- A stage remains in its place, and remains what it was forked as. -/
theorem stage_survives {stage : Stage ι ε} {k : Nat} (taken : step c s action = some next)
    (found : s.stages[k]? = some stage) :
    ∃ later, next.stages[k]? = some later ∧ ∀ t inherited, Descends t inherited stage → Descends t inherited later := by
  obtain ⟨inside, -⟩ := List.getElem?_eq_some_iff.mp found
  have moves := step_moves taken
  generalize next.stages = stages at moves
  cases moves with
  | forks t call => exact ⟨stage, (List.getElem?_append_left inside).trans found, fun _ _ descends => descends⟩
  | goesOn i moved later here keeps =>
    by_cases same : i = k
    · subst same
      cases here.symm.trans found
      exact ⟨later, List.getElem?_set_self inside, keeps⟩
    · exact ⟨stage, (List.getElem?_set_ne same).trans found, fun _ _ descends => descends⟩
  | stays => exact ⟨stage, found, fun _ _ descends => descends⟩

/-- The place `k` belongs to the stage forked in this event of the run. -/
structure ForkedAt (c : Server ι ε) (events : List (Action ι)) (before : List (Action ι)) (t : ι) (mid : State ι ε) :
    Prop where
  here : ∃ after, events = before ++ .fork t :: after
  reached : run (step c) (start c) before = some mid

theorem ForkedAt.extend {events before : List (Action ι)} {t : ι} {mid : State ι ε}
    (forked : ForkedAt c events before t mid) (action : Action ι) : ForkedAt c (events ++ [action]) before t mid := by
  obtain ⟨after, rfl⟩ := forked.here
  exact ⟨⟨after ++ [action], by simp⟩, forked.reached⟩

/-- Each fork of a run has left a stage in the next free place. -/
theorem forked_stays {events before : List (Action ι)} {t : ι} {mid : State ι ε}
    (ran : run (step c) (start c) events = some s) (forked : ForkedAt c events before t mid) :
    ∃ stage, s.stages[mid.stages.length]? = some stage ∧ Descends t mid.table stage := by
  obtain ⟨after, rfl⟩ := forked.here
  obtain ⟨middle, later, first, taken, rest⟩ := run_split ran
  cases forked.reached.symm.trans first
  refine run_keeps (fun s => ∃ stage, s.stages[mid.stages.length]? = some stage ∧ Descends t mid.table stage) ?_ ?_ rest
  · have moves := step_moves taken
    generalize later.stages = stages at moves
    cases moves with
    | forks _ call executing more =>
      exact ⟨_, List.getElem?_concat_length, descends_fork (shared_run first) executing more⟩
    | goesOn i stage later here keeps other => exact absurd rfl (other t)
    | stays other => exact absurd rfl (other t)
  · rintro s action next ⟨stage, found, descends⟩ taken
    obtain ⟨later, foundLater, keeps⟩ := stage_survives taken found
    exact ⟨later, foundLater, keeps t mid.table descends⟩

/-- Each stage of a run was forked in it. -/
theorem stage_forked {events : List (Action ι)} (ran : run (step c) (start c) events = some s) :
    ∀ k < s.stages.length, ∃ before t mid, ForkedAt c events before t mid ∧ mid.stages.length = k := by
  refine run_history (fun events s => ∀ k < s.stages.length, ∃ before t mid, ForkedAt c events before t mid ∧
    mid.stages.length = k) (fun _ inside => absurd inside (Nat.not_lt_zero _)) ?_ ran
  intro history s action next reached earlier taken k inside
  have moves := step_moves taken
  generalize next.stages = stages at moves inside
  have extended (old : k < s.stages.length) : ∃ before t mid, ForkedAt c (history ++ [action]) before t mid ∧
      mid.stages.length = k := by
    obtain ⟨before, t, mid, forked, place⟩ := earlier k old
    exact ⟨before, t, mid, forked.extend action, place⟩
  cases moves with
  | forks t call executing more =>
    rw [List.length_append, List.length_singleton] at inside
    rcases Nat.lt_succ_iff_lt_or_eq.mp inside with old | rfl
    · exact extended old
    · exact ⟨history, t, s, ⟨⟨[], rfl⟩, reached⟩, rfl⟩
  | goesOn i stage later here keeps other => exact extended (by simpa using inside)
  | stays other => exact extended inside

/-- No end of another client's pipe is open. -/
def Private (t : ι) (table : Table (File ι ε)) : Prop := ∀ fd file, table fd = some file → ¬ Foreign t file

/-- No stage that reaches `execvp` holds another client's pipe exactly when no
end of one was open in the server as it was forked. -/
theorem isolated_iff {events : List (Action ι)} (ran : run (step c) (start c) events = some s) :
    Isolated s ↔ ∀ before t mid stage, ForkedAt c events before t mid → AtExec s mid.stages.length stage →
      Private t mid.table := by
  constructor
  · rintro isolated before t mid stage forked exec fd file held foreign
    obtain ⟨same, found, descends⟩ := forked_stays ran forked
    cases exec.1.symm.trans found
    exact isolated _ stage fd file exec ((descends.foreign fd file foreign).mpr held) (descends.owner.symm ▸ foreign)
  · rintro clean k stage fd file exec held foreign
    obtain ⟨inside, -⟩ := List.getElem?_eq_some_iff.mp exec.1
    obtain ⟨before, t, mid, forked, rfl⟩ := stage_forked ran k inside
    obtain ⟨same, found, descends⟩ := forked_stays ran forked
    cases exec.1.symm.trans found
    rw [descends.owner] at foreign
    exact clean before t mid stage forked exec fd file ((descends.foreign fd file foreign).mp held) foreign

end Invariant

/-- Two clients, on the descriptors 3 and 4. -/
def twoClients : Server Bool Unit where
  initial := fun fd => if fd = 3 ∨ fd = 4 then some () else none
  cliSock := fun t => if t then 4 else 3
  client := fun _ => ()
  aboveStd := by decide
  connected := by decide

/-- The single command of one client is forked before the other has a pipe. -/
def forkFirst : List (Action Bool) :=
  [.begin false 2, .begin true 1, .fork true, .pipe false 5 6, .stage 0, .stage 0, .stage 0]

theorem fork_first_isolated : ∃ s, run (step twoClients) (start twoClients) forkFirst = some s ∧ Isolated s := by
  obtain ⟨s, ran⟩ : ∃ s, run (step twoClients) (start twoClients) forkFirst = some s := ⟨_, rfl⟩
  refine ⟨s, ran, (isolated_iff ran).mpr ?_⟩
  rintro before t mid stage ⟨⟨after, split⟩, reached⟩ - fd file held ⟨u, owner, -⟩
  have place : forkFirst[before.length]? = some (.fork t) := by simp [split]
  have third : before.length = 2 := by
    generalize before.length = n at place
    rcases n with _ | _ | _ | _ | _ | _ | _ | n <;> first | rfl | cases place
  have beginning : before = forkFirst.take 2 := by rw [split, ← third, List.take_left]
  subst beginning
  cases reached
  obtain ⟨_, -, rfl⟩ := Option.map_eq_some_iff.mp held
  cases owner

/-- It is forked once the other has one, and holds both ends of it. -/
theorem forked_stage_holds_foreign_pipe : ∃ s,
    run (step twoClients) (start twoClients)
      [.begin false 2, .begin true 1, .pipe false 5 6, .fork true, .stage 0, .stage 0, .stage 0] = some s ∧
      ¬ Isolated s := by
  refine ⟨_, rfl, fun isolated => ?_⟩
  exact isolated 0 _ 6 (.writeEnd false 0) ⟨rfl, rfl, rfl⟩ rfl ⟨false, rfl, by decide⟩

end SysProg.ConcurrentPipelines
