import SysProg.LocalLoop
import SysProg.PipelinePlumbing

/-! The three set-ups of a child process: alone under `exec_cmd`, as a stage of
`exec_pipeline`, and as a stage of `rsh_execute_pipeline`. Only the first looks
at the redirections that `build_cmd_buff` has stored. -/
namespace SysProg.ChildSetup
open CString Descriptors Dshlib PipelinePlumbing ScanAgreement LocalLoop

variable {φ ε : Type}

/-! ### Opening files -/

/-- `O_RDONLY`, `O_WRONLY | O_CREAT | O_TRUNC` and `O_WRONLY | O_CREAT | O_APPEND`. -/
inductive Access where
  | readOnly
  | truncate
  | append
  deriving DecidableEq

structure Redirected where
  path : List UInt8
  access : Access
  deriving DecidableEq

/-- What a descriptor of a child refers to: a file the parent had open, or one
the child has opened for a redirection. -/
inductive Held (φ : Type) where
  | own (file : φ)
  | redirected (file : Redirected)

/-- The outcome of `open`: it fails, or takes a descriptor that is not in use. -/
structure Kernel (φ : Type) where
  openAt : Table (Held φ) → List UInt8 → Access → Option Nat
  unused : openAt table path access = some fd → table fd = none

/-- The descriptors of a child, and the files it has opened. -/
structure Process (φ : Type) where
  table : Table (Held φ)
  opened : List Redirected

/-- A child that has just been forked. -/
def forked (table : Table φ) : Process φ := ⟨fun fd => (table fd).map .own, []⟩

/-- A child ends, or gets as far as `execvp` with these arguments. -/
inductive Child (φ : Type) where
  | exits (code : Nat)
  | execvp (argv : List (Option (List UInt8))) (process : Process φ)

inductive Direction where
  | input
  | output
  deriving DecidableEq

/-- `STDIN_FILENO` and `STDOUT_FILENO`. -/
def Direction.fd : Direction → Nat
  | .input => 0
  | .output => 1

def Direction.other : Direction → Direction
  | .input => .output
  | .output => .input

def Direction.file (cmd : CmdBuff) : Direction → Option (List UInt8)
  | .input => cmd.inputFile
  | .output => cmd.outputFile

def Direction.access (cmd : CmdBuff) : Direction → Access
  | .input => .readOnly
  | .output => if cmd.appendOutput then .append else .truncate

/-- The file a command asks for, if any. -/
def Direction.asked (cmd : CmdBuff) (d : Direction) : List Redirected :=
  (d.file cmd).toList.map fun path => ⟨path, d.access cmd⟩

/-! ### The three children -/

/-- `if (cmd->input_file) { .. }` and `if (cmd->output_file) { .. }` of
`exec_cmd`; `none` when the file cannot be opened. -/
def redirect (kernel : Kernel φ) (cmd : CmdBuff) (d : Direction) (process : Process φ) : Option (Process φ) :=
  match d.file cmd with
  | none => some process
  | some path =>
    match kernel.openAt process.table path (d.access cmd) with
    | none => none
    | some fd => some
      { table := applyAll [.dup2 fd d.fd, .close fd]
          (Function.update process.table fd (some (.redirected ⟨path, d.access cmd⟩)))
        opened := process.opened ++ [⟨path, d.access cmd⟩] }

/-- The child of `exec_cmd`. -/
def execCmdChild (kernel : Kernel φ) (cmd : CmdBuff) (process : Process φ) : Child φ :=
  if cmd.inputFile.isSome ∧ cmd.outputFile.isSome ∧ cmd.inputFile = cmd.outputFile then .exits 1
  else match (redirect kernel cmd .input process).bind (redirect kernel cmd .output) with
    | none => .exits 1
    | some process => .execvp (command cmd).argv process

/-- The calls of stage `i` of `exec_pipeline`. -/
def pipelineCalls (num : Nat) (pipes : List (Nat × Nat)) (i : Nat) : List Call :=
  (if i > 0 then [.dup2 (pipes.getD (i - 1) (0, 0)).1 0] else []) ++
  (if i < num - 1 then [.dup2 (pipes.getD i (0, 0)).2 1] else []) ++
  (ends pipes).map .close

/-- The child that `exec_pipeline` forks for stage `i`; `none` when it returns
before, because of a built-in. A single command is left to `exec_cmd`. -/
def execPipelineChild (kernel : Kernel φ) (commands : List CmdBuff) (pipes : List (Nat × Nat)) (i : Nat)
    (process : Process φ) : Option (Child φ) :=
  if (commands.take (i + 1)).any fun cmd => (execBuiltInCmd cmd).1 ≠ .notBi then none
  else commands[i]?.map fun cmd =>
    if commands.length = 1 then execCmdChild kernel cmd process
    else .execvp (command cmd).argv
      { process with table := applyAll (pipelineCalls commands.length pipes i) process.table }

/-- The child that `rsh_execute_pipeline` forks for stage `i`. -/
def rshStageChild (server : Setup ε) (commands : List CmdBuff) (pipes : List (Nat × Nat)) (i : Nat)
    (process : Process φ) : Option (Child φ) :=
  commands[i]?.map fun cmd =>
    .execvp (command cmd).argv { process with table := applyAll (stageCalls server pipes i) process.table }

/-! ### What a redirection has come to -/

/-- The file a redirection has put behind a descriptor; `none` for the
session's own stream or a pipe. -/
def redirectedAt (table : Table (Held φ)) (fd : Nat) : Option Redirected :=
  match table fd with
  | some (.redirected file) => some file
  | _ => none

def Direction.opens : Direction → Access → Bool
  | .input, access => access = .readOnly
  | .output, access => access ≠ .readOnly

/-- The files a child has opened for one direction, and what the descriptor of
that direction refers to at `execvp`; `none` when it does not get there. -/
def Child.redirection (d : Direction) : Child φ → Option (List Redirected × Option Redirected)
  | .exits _ => none
  | .execvp _ process => some (process.opened.filter fun file => d.opens file.access, redirectedAt process.table d.fd)

/-- A command at the beginning or the end of a pipeline that the shell forks. -/
structure Stage where
  commands : List CmdBuff
  place : Nat
  cmd : CmdBuff
  here : commands[place]? = some cmd
  edge : place = 0 ∨ place + 1 = commands.length
  plain : ∀ earlier ∈ commands.take (place + 1), (execBuiltInCmd earlier).1 = .notBi

/-- The first stage may have its input redirected, the last one its output. -/
def Direction.Concerns (stage : Stage) : Direction → Prop
  | .input => stage.place = 0
  | .output => stage.place + 1 = stage.commands.length

/-- Where the three are run: the shell's descriptors before and after it has
opened its pipes, and a server with its pipes. -/
structure Site (φ ε : Type) (stage : Stage) where
  kernel : Kernel φ
  shell : Table φ
  pipes : List (Nat × Nat)
  piped : Table φ
  alone : stage.commands.length = 1 → piped = shell
  server : Setup ε
  size : server.num = stage.commands.length
  serverPipes : List (Nat × Nat)
  serverTable : Table (File ε)

/-- In the directions that concern a stage, the three children open the same
files in the same mode and reach `execvp` with the same redirection. -/
def HonouredAlike (stage : Stage) (site : Site φ ε stage) : Prop :=
  ∀ d : Direction, d.Concerns stage → ∃ redirection,
    (execCmdChild site.kernel stage.cmd (forked site.shell)).redirection d = redirection ∧
    (execPipelineChild site.kernel stage.commands site.pipes stage.place (forked site.piped)).map (·.redirection d) =
      some redirection ∧
    (rshStageChild site.server stage.commands site.serverPipes stage.place (forked site.serverTable)).map
      (·.redirection d) = some redirection

section Children
variable {kernel : Kernel φ} {cmd : CmdBuff} {process next : Process φ} {d : Direction}

theorem redirect_none (absent : d.file cmd = none) : redirect kernel cmd d process = some process := by
  simp only [redirect, absent]

/-- A redirection opens its file and leaves the other descriptors alone. -/
theorem redirect_some (redirected : redirect kernel cmd d process = some next) :
    next.opened = process.opened ++ d.asked cmd ∧
      ∀ fd ≠ d.fd, next.table fd = process.table fd := by
  cases file : d.file cmd with
  | none =>
    rw [redirect_none file, Option.some.injEq] at redirected
    subst redirected
    simp [Direction.asked, file]
  | some path =>
    simp only [redirect, file] at redirected
    split at redirected
    · cases redirected
    next fresh opened =>
      cases redirected
      refine ⟨by simp [Direction.asked, file], fun fd other => ?_⟩
      have unused := kernel.unused opened
      rw [applyAll_cons, dup2_open (Function.update_self ..), applyAll_cons, applyAll_nil]
      by_cases same : fd = fresh
      · rw [same, unused]
        exact Function.update_self ..
      · exact (Function.update_of_ne same ..).trans
          ((Function.update_of_ne other ..).trans (Function.update_of_ne same ..))

/-- When the descriptor was in use, it refers to the file from then on. -/
theorem redirect_descriptor (redirected : redirect kernel cmd d process = some next) (file : d.file cmd = some path)
    (used : process.table d.fd ≠ none) : next.table d.fd = some (.redirected ⟨path, d.access cmd⟩) := by
  simp only [redirect, file] at redirected
  split at redirected
  · cases redirected
  next fresh opened =>
    cases redirected
    have different : d.fd ≠ fresh := fun same => used (same ▸ kernel.unused opened)
    rw [applyAll_cons, dup2_open (Function.update_self ..), applyAll_cons, applyAll_nil]
    exact (Function.update_of_ne different ..).trans (Function.update_self ..)

theorem redirect_isSome : (redirect kernel cmd d process).isSome ↔
    ∀ path, d.file cmd = some path → (kernel.openAt process.table path (d.access cmd)).isSome := by
  cases file : d.file cmd with
  | none => simp [redirect_none file]
  | some path =>
    cases opened : kernel.openAt process.table path (d.access cmd) with
    | none => simp [redirect, file, opened]
    | some fd => simp [redirect, file, opened]

theorem alone_cases (reached : execCmdChild kernel cmd process = .execvp argv next) :
    ∃ middle, redirect kernel cmd .input process = some middle ∧ redirect kernel cmd .output middle = some next := by
  rw [execCmdChild] at reached
  split at reached
  · cases reached
  split at reached
  · cases reached
  next redirected =>
    cases reached
    exact Option.bind_eq_some_iff.mp redirected

/-- `exec_cmd` opens what the command asks for, the input first. -/
theorem alone_opens (reached : execCmdChild kernel cmd process = .execvp argv next) :
    next.opened = process.opened ++ Direction.input.asked cmd ++ Direction.output.asked cmd := by
  obtain ⟨middle, input, output⟩ := alone_cases reached
  rw [(redirect_some output).1, (redirect_some input).1]

theorem opens_access (d e : Direction) : d.opens (e.access cmd) = decide (d = e) := by
  cases append : cmd.appendOutput <;> cases d <;> cases e <;> simp [Direction.access, Direction.opens, append]

theorem filter_asked (d e : Direction) :
    (e.asked cmd).filter (fun file => d.opens file.access) = if d = e then e.asked cmd else [] := by
  cases file : e.file cmd <;> simp [Direction.asked, file, List.filter_cons, opens_access]

/-- What a new child has opened for one direction is what the command asks for. -/
theorem alone_redirection {table : Table φ} (reached : execCmdChild kernel cmd (forked table) = .execvp argv next) :
    (Child.execvp argv next).redirection d = some (d.asked cmd, redirectedAt next.table d.fd) := by
  have opened : next.opened = Direction.input.asked cmd ++ Direction.output.asked cmd := alone_opens reached
  rw [Child.redirection, opened, List.filter_append, filter_asked, filter_asked]
  cases d <;> simp

/-- Without a redirection of its own a descriptor is what it was. -/
theorem alone_keeps (reached : execCmdChild kernel cmd process = .execvp argv next) (absent : d.file cmd = none) :
    next.table d.fd = process.table d.fd := by
  obtain ⟨middle, input, output⟩ := alone_cases reached
  cases d with
  | input =>
    rw [redirect_none absent, Option.some.injEq] at input
    rw [(redirect_some output).2 _ (by decide), input]
  | output =>
    rw [redirect_none absent, Option.some.injEq] at output
    rw [← output, (redirect_some input).2 _ (by decide)]

/-- Run alone, a redirected command finds its file where it looks for it. -/
theorem alone_honours (reached : execCmdChild kernel cmd process = .execvp argv next) (file : d.file cmd = some path)
    (used : process.table d.fd ≠ none) : next.table d.fd = some (.redirected ⟨path, d.access cmd⟩) := by
  obtain ⟨middle, input, output⟩ := alone_cases reached
  cases d with
  | input => rw [(redirect_some output).2 _ (by decide), redirect_descriptor input file used]
  | output =>
    refine redirect_descriptor output file ?_
    rwa [(redirect_some input).2 _ (by decide)]

/-- With one direction left alone, `exec_cmd` needs nothing but the file of
the other. -/
theorem alone_reaches_iff (absent : d.file cmd = none) :
    (∃ argv next, execCmdChild kernel cmd process = .execvp argv next) ↔
      (redirect kernel cmd d.other process).isSome := by
  have different : ¬ (cmd.inputFile.isSome ∧ cmd.outputFile.isSome ∧ cmd.inputFile = cmd.outputFile) := by
    rintro ⟨input, output, -⟩
    cases d with
    | input => exact absurd absent (Option.isSome_iff_ne_none.mp input)
    | output => exact absurd absent (Option.isSome_iff_ne_none.mp output)
  have both : (redirect kernel cmd .input process).bind (redirect kernel cmd .output) =
      redirect kernel cmd d.other process := by
    cases d with
    | input =>
      rw [redirect_none absent]
      rfl
    | output =>
      cases input : redirect kernel cmd .input process with
      | none => exact input.symm
      | some middle => exact (redirect_none absent).trans input.symm
  rw [execCmdChild, if_neg different, both]
  cases redirect kernel cmd d.other process with
  | none => simp
  | some next => simp

/-- A child that only duplicates and closes holds no redirection. -/
theorem redirectedAt_calls (calls : List Call) (table : Table φ) (fd : Nat) :
    redirectedAt (applyAll calls (forked table).table) fd = none := by
  rw [redirectedAt]
  split
  next file held =>
    obtain ⟨origin, inherited⟩ := applyAll_origin held
    obtain ⟨own, -, same⟩ := Option.map_eq_some_iff.mp inherited
    cases same
  next => rfl

end Children

/-! ### The three set-ups compared -/

section Stages
variable {stage : Stage} {site : Site φ ε stage} {d : Direction}

theorem server_redirection : (rshStageChild site.server stage.commands site.serverPipes stage.place
    (forked site.serverTable)).map (·.redirection d) = some (some ([], none)) := by
  rw [rshStageChild, stage.here, Option.map_some, Option.map_some, Child.redirection, redirectedAt_calls]
  rfl

/-- The child of `exec_pipeline` is that of `exec_cmd`, or opens nothing. -/
theorem pipeline_redirection : (execPipelineChild site.kernel stage.commands site.pipes stage.place
    (forked site.piped)).map (·.redirection d) = some (if stage.commands.length = 1
      then (execCmdChild site.kernel stage.cmd (forked site.shell)).redirection d else some ([], none)) := by
  have plain : ¬ (stage.commands.take (stage.place + 1)).any (fun cmd => (execBuiltInCmd cmd).1 ≠ .notBi) := by
    simpa using stage.plain
  rw [execPipelineChild, if_neg plain, stage.here, Option.map_some, Option.map_some]
  by_cases single : stage.commands.length = 1
  · rw [if_pos single, if_pos single, site.alone single]
  · rw [if_neg single, if_neg single, Child.redirection, redirectedAt_calls]
    rfl

/-- Alone, a command reaches `execvp` without a redirection of one direction
exactly when it asks for none and the file of the other can be opened. -/
theorem alone_plain_iff : (execCmdChild site.kernel stage.cmd (forked site.shell)).redirection d = some ([], none) ↔
    d.file stage.cmd = none ∧ (redirect site.kernel stage.cmd d.other (forked site.shell)).isSome := by
  constructor
  · intro plain
    cases child : execCmdChild site.kernel stage.cmd (forked site.shell) with
    | exits code =>
      rw [child] at plain
      cases plain
    | execvp argv next =>
      rw [child, alone_redirection child] at plain
      have absent : d.file stage.cmd = none := by
        cases file : d.file stage.cmd with
        | none => rfl
        | some path => simp [Direction.asked, file] at plain
      exact ⟨absent, (alone_reaches_iff absent).mp ⟨argv, next, child⟩⟩
  · rintro ⟨absent, granted⟩
    obtain ⟨argv, next, child⟩ := (alone_reaches_iff absent).mpr granted
    have own : redirectedAt (forked site.shell).table d.fd = none := redirectedAt_calls [] site.shell d.fd
    rw [child, alone_redirection child, redirectedAt, alone_keeps child absent]
    exact congrArg some (Prod.ext (by simp [Direction.asked, absent]) own)

theorem other_other (d : Direction) : d.other.other = d := by cases d <;> rfl

/-- At an edge of the pipeline, one direction or the other is concerned. -/
theorem concerns_other (unconcerned : ¬ d.Concerns stage) : d.other.Concerns stage := by
  cases d with
  | input => exact stage.edge.resolve_left unconcerned
  | output => exact stage.edge.resolve_right unconcerned

/-- The redirections of a stage that all three treat alike: those of the other
direction, of files that can be opened. -/
def Untouched (stage : Stage) (site : Site φ ε stage) : Prop :=
  ∀ (d : Direction) (path : List UInt8), d.file stage.cmd = some path → ¬ d.Concerns stage ∧
    (site.kernel.openAt (forked site.shell).table path (d.access stage.cmd)).isSome

/-- The three set-ups treat a stage alike exactly when no redirection concerns
its place in the pipeline and the others can be opened. -/
theorem honoured_alike_iff (stage : Stage) (site : Site φ ε stage) :
    HonouredAlike stage site ↔ Untouched stage site := by
  constructor
  · intro alike d path file
    -- what the server does shows what `exec_cmd` has to do
    have plain (e : Direction) (concerned : e.Concerns stage) :
        (execCmdChild site.kernel stage.cmd (forked site.shell)).redirection e = some ([], none) := by
      obtain ⟨redirection, alone, -, remote⟩ := alike e concerned
      rw [server_redirection] at remote
      rw [alone, Option.some.inj remote]
    have unconcerned : ¬ d.Concerns stage := fun concerned => by
      rw [(alone_plain_iff.mp (plain d concerned)).1] at file
      cases file
    have opposite := alone_plain_iff.mp (plain d.other (concerns_other unconcerned))
    rw [other_other] at opposite
    exact ⟨unconcerned, redirect_isSome.mp opposite.2 path file⟩
  · intro untouched d concerned
    have absent : d.file stage.cmd = none := by
      by_contra some
      obtain ⟨path, file⟩ := Option.ne_none_iff_exists'.mp some
      exact (untouched d path file).1 concerned
    have granted := redirect_isSome.mpr fun path file => (untouched d.other path file).2
    have alone := alone_plain_iff.mpr ⟨absent, granted⟩
    refine ⟨some ([], none), alone, ?_, server_redirection⟩
    rw [pipeline_redirection, alone, ite_self]

end Stages

/-- A line as `build_cmd_buff` parses it into a new buffer. -/
def parsed (line : String) : CmdBuff :=
  ((buildCmdBuff (text line) prompt.cmd prompt.heap).map (·.2.1)).getD vacant

/-- The second stage of `cat fruits.txt | grep apple > output.txt`. -/
def grepApple : Stage where
  commands := [parsed "cat fruits.txt ", parsed " grep apple > output.txt"]
  place := 1
  cmd := parsed " grep apple > output.txt"
  here := rfl
  edge := .inr rfl
  plain := by decide +kernel

/-- Three open descriptors, every file can be opened, and the lowest
descriptors are taken. -/
def terminal : Site Unit Unit grepApple where
  kernel := ⟨fun table _ _ => (List.range 16).find? fun fd => (table fd).isNone,
    fun found => Option.isNone_iff_eq_none.mp (by simpa using List.find?_some found)⟩
  shell := fun fd => if fd < 3 then some () else none
  pipes := [(3, 4)]
  piped := fun fd => if fd < 5 then some () else none
  alone := fun single => absurd single (by decide)
  server := twoStages
  size := rfl
  serverPipes := [(4, 5)]
  serverTable := fun fd => [none, none, none, some (.ext ()), some (.readEnd 0), some (.writeEnd 0)].getD fd none

/-- As a stage `grep` does not write to the file it writes to when run alone. -/
theorem piped_output_not_redirected :
    (execCmdChild terminal.kernel grepApple.cmd (forked terminal.shell)).redirection .output =
      some ([⟨text "output.txt", .truncate⟩], some ⟨text "output.txt", .truncate⟩) ∧
    ¬ HonouredAlike grepApple terminal := by
  have alone : (execCmdChild terminal.kernel grepApple.cmd (forked terminal.shell)).redirection .output =
      some ([⟨text "output.txt", .truncate⟩], some ⟨text "output.txt", .truncate⟩) := by decide +kernel
  refine ⟨alone, fun alike => ?_⟩
  obtain ⟨redirection, same, -, remote⟩ := alike .output rfl
  rw [server_redirection, ← same, alone, Option.some.injEq] at remote
  cases remote

end SysProg.ChildSetup
