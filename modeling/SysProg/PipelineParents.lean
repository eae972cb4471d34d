import SysProg.LocalLoop
import SysProg.PipelinePlumbing
import SysProg.SessionSurvival

/-! The shell's own side of a pipeline: the pipes `exec_pipeline` and
`rsh_execute_pipeline` open, the children they fork and wait for, and what
either has done by the time it returns, early or not. Both loops stop in the
middle when a call fails; only the one of `exec_pipeline` also meets built-in
commands, which it detects by executing them. -/
namespace SysProg.PipelineParents
open CString Descriptors Dshlib
open PipelinePlumbing (File ends)
open RshServer (WaitStatus Launch pipelineResult)

variable {ε δ : Type*}

/-- What a call finds and what the kernel decides while it runs: the open files
and the working directory of the shell, the descriptors that the calls of
`pipe` return until one fails, how many forks succeed, and the directory that
`chdir` ends in, if it succeeds. -/
structure Setting (ε δ : Type*) where
  files : Table ε
  directory : δ
  pipes : List (Nat × Nat)
  forks : Nat
  chdir : δ → List UInt8 → Option δ
  distinct : (ends pipes).Nodup
  free : ∀ fd ∈ ends pipes, files fd = none

inductive Notice where
  | perror (call : List UInt8)
  | failedToCreate (command : List UInt8)
  | builtInInPipeline
  deriving DecidableEq

/-- The shell during a call. `pipes` and `children` are the arrays of the
function as far as they are filled; a child is `true` once it has been waited
for. -/
structure Parent (ε δ : Type*) where
  table : Table (File ε)
  directory : δ
  pipes : List (Nat × Nat)
  children : List Bool
  console : List Notice

namespace Parent

def say (s : Parent ε δ) (notice : Notice) : Parent ε δ := { s with console := s.console ++ [notice] }

def openPipe (s : Parent ε δ) (pipe : Nat × Nat) : Parent ε δ :=
  { s with
    table := Function.update (Function.update s.table pipe.1 (some (.readEnd s.pipes.length)))
      pipe.2 (some (.writeEnd s.pipes.length))
    pipes := s.pipes ++ [pipe] }

/-- `close` on both ends of every pipe. -/
def closePipes (s : Parent ε δ) : Parent ε δ :=
  { s with table := applyAll ((ends s.pipes).map Call.close) s.table }

/-- `fork`, `none` when it fails. -/
def fork (c : Setting ε δ) (s : Parent ε δ) : Option (Parent ε δ) :=
  if s.children.length < c.forks then some { s with children := s.children ++ [false] } else none

/-- `waitpid` for every child. -/
def waitAll (s : Parent ε δ) : Parent ε δ := { s with children := s.children.map fun _ => true }

/-- `exec_built_in_cmd` with its `chdir`. -/
def execBuiltIn (c : Setting ε δ) (s : Parent ε δ) (cmd : CmdBuff) : BuiltInCmds × Parent ε δ :=
  match execBuiltInCmd cmd with
  | (biRc, none) => (biRc, s)
  | (biRc, some path) =>
    match c.chdir s.directory path with
    | none => (biRc, s.say (.perror (text "cd")))
    | some directory => (biRc, { s with directory := directory })

end Parent

/-- The loop over `pipe`, with `left` calls to go; `false` when one fails. -/
def pipeLoop (c : Setting ε δ) : Nat → Parent ε δ → Bool × Parent ε δ
  | 0, s => (true, s)
  | left + 1, s =>
    match c.pipes[s.pipes.length]? with
    | none => (false, s.say (.perror (text "pipe")))
    | some pipe => pipeLoop c left (s.openPipe pipe)

/-! ### `exec_pipeline` -/

def execCmd (c : Setting ε δ) (cmd : CmdBuff) (s : Parent ε δ) : Int × Parent ε δ :=
  match s.fork c with
  | none => (errExecCmd, (s.say (.perror (text "fork"))).say (.failedToCreate ((cmd.arg 0).getD [])))
  | some s => (ok, s.waitAll)

/-- The loop over the commands from the `i`-th on. It returns early with a
code, or leaves all of them forked. `exec_built_in_cmd` has no other results
than `exit`, `executed` and `notBi`. -/
def stageLoop (c : Setting ε δ) : Nat → List CmdBuff → Parent ε δ → Option Int × Parent ε δ
  | _, [], s => (none, s)
  | i, cmd :: rest, s =>
    let (biRc, s) := s.execBuiltIn c cmd
    if i = 0 ∧ biRc = .exit then (some okExit, s.closePipes)
    else if biRc ≠ .notBi then (some errExecCmd, (s.say .builtInInPipeline).closePipes)
    else match s.fork c with
    | none => (some errExecCmd, (s.say (.perror (text "fork"))).closePipes)
    | some s => stageLoop c (i + 1) rest s

/-- A list holds at most `CMD_MAX` commands, for which the arrays of the
function are sized. -/
def execPipeline (c : Setting ε δ) (clist : List CmdBuff) : Int × Parent ε δ :=
  let s := ⟨fun fd => (c.files fd).map .ext, c.directory, [], [], []⟩
  match clist with
  | [] => (warnNoCmds, s)
  | [cmd] =>
    match s.execBuiltIn c cmd with
    | (.exit, s) => (okExit, s)
    | (.executed, s) => (ok, s)
    | (_, s) => execCmd c cmd s
  | _ :: _ :: _ =>
    match pipeLoop c (clist.length - 1) s with
    | (false, s) => (errExecCmd, s)
    | (true, s) =>
      match stageLoop c 0 clist s with
      | (some rc, s) => (rc, s)
      | (none, s) => (ok, s.closePipes.waitAll)

/-! ### `rsh_execute_pipeline` -/

def forkLoop (c : Setting ε δ) : Nat → Parent ε δ → Bool × Parent ε δ
  | 0, s => (true, s)
  | left + 1, s =>
    match s.fork c with
    | none => (false, s.say (.perror (text "fork")))
    | some s => forkLoop c left s

/-- `pidsSt` is what `waitpid` stores for each child. -/
def rshExecutePipeline (c : Setting ε δ) (clist : List CmdBuff) (pidsSt : Nat → WaitStatus) :
    Int × Parent ε δ :=
  let s := ⟨fun fd => (c.files fd).map .ext, c.directory, [], [], []⟩
  match pipeLoop c (clist.length - 1) s with
  | (false, s) => (errExecCmd, s)
  | (true, s) =>
    match forkLoop c clist.length s with
    | (false, s) => (errExecCmd, s)
    | (true, s) => (pipelineResult ((List.range clist.length).map pidsSt), s.closePipes.waitAll)

/-! ### The pipes -/

/-- The shell's table after the first `k` calls of `pipe`. -/
def Setting.table (c : Setting ε δ) : Nat → Table (File ε)
  | 0 => fun fd => (c.files fd).map .ext
  | k + 1 =>
    match c.pipes[k]? with
    | none => c.table k
    | some pipe => Function.update (Function.update (c.table k) pipe.1 (some (.readEnd k))) pipe.2 (some (.writeEnd k))

/-- The shell after the first `k` calls of `pipe`. -/
def Setting.opened (c : Setting ε δ) (k : Nat) : Parent ε δ := ⟨c.table k, c.directory, c.pipes.take k, [], []⟩

section Pipes
variable {c : Setting ε δ} {s : Parent ε δ}

/-- The shell as the call finds it. -/
theorem opened_zero (c : Setting ε δ) :
    c.opened 0 = ⟨fun fd => (c.files fd).map .ext, c.directory, [], [], []⟩ := rfl

theorem openPipe_opened (found : c.pipes[k]? = some pipe) : (c.opened k).openPipe pipe = c.opened (k + 1) := by
  have inside : k < c.pipes.length := (List.getElem?_eq_some_iff.mp found).1
  have filled : (c.pipes.take k).length = k := by simp; omega
  simp only [Setting.opened, Setting.table, Parent.openPipe, filled, found, List.take_add_one, Option.toList_some]

theorem pipeLoop_opened (bound : k ≤ c.pipes.length) : pipeLoop c left (c.opened k) =
    if k + left ≤ c.pipes.length then (true, c.opened (k + left))
    else (false, (c.opened c.pipes.length).say (.perror (text "pipe"))) := by
  induction left generalizing k with
  | zero => simp [pipeLoop, bound]
  | succ left ih =>
    have filled : (c.opened k).pipes.length = k := by simp [Setting.opened, bound]
    unfold pipeLoop
    rw [filled]
    cases found : c.pipes[k]? with
    | none =>
      have last : k = c.pipes.length := Nat.le_antisymm bound (List.getElem?_eq_none_iff.mp found)
      rw [if_neg (by omega), ← last]
    | some pipe =>
      have inside := (List.getElem?_eq_some_iff.mp found).1
      dsimp only
      rw [openPipe_opened found, ih inside, Nat.succ_add_eq_add_succ]

/-- The ends of the pipes are open, and nothing else has changed. -/
theorem table_ends (c : Setting ε δ) (k fd : Nat) :
    (fd ∈ ends (c.pipes.take k) → c.table k fd ≠ none) ∧
      (fd ∉ ends (c.pipes.take k) → c.table k fd = (c.files fd).map .ext) := by
  induction k with
  | zero => simp [ends, Setting.table]
  | succ k ih =>
    unfold Setting.table
    cases found : c.pipes[k]? with
    | none => simpa [List.take_add_one, found] using ih
    | some pipe =>
      have more : ends (c.pipes.take (k + 1)) = ends (c.pipes.take k) ++ [pipe.1, pipe.2] := by
        simp [ends, List.take_add_one, found]
      rw [more]
      simp only [List.mem_append, List.mem_cons, List.not_mem_nil, or_false, not_or, Function.update_apply]
      constructor
      · intro member
        split
        · simp
        split
        · simp
        · rename_i notWrite notRead
          exact ih.1 (by simpa [notWrite, notRead] using member)
      · rintro ⟨old, notRead, notWrite⟩
        rw [if_neg notWrite, if_neg notRead]
        exact ih.2 old

/-- Closing the pipes gives back the table the call has found. -/
theorem closePipes_table (table : s.table = c.table k) (pipes : s.pipes = c.pipes.take k) :
    s.closePipes.table = c.table 0 := by
  funext fd
  rw [Parent.closePipes, table, pipes]
  simp only [close_all]
  split
  · rename_i member
    obtain ⟨pipe, among, isEnd⟩ := List.mem_flatMap.mp member
    have old : fd ∈ ends c.pipes := List.mem_flatMap.mpr ⟨pipe, List.mem_of_mem_take among, isEnd⟩
    simp [Setting.table, c.free fd old]
  · rename_i outside
    exact (table_ends c k fd).2 outside

/-- The table is the one the call has found while there is no pipe, and only
then. -/
theorem table_found_iff (bound : k ≤ c.pipes.length) : c.table k = c.table 0 ↔ k = 0 := by
  constructor
  · intro same
    by_contra more
    obtain ⟨pipe, rest, pipes⟩ := List.exists_cons_of_length_pos (show 0 < c.pipes.length by omega)
    have member : pipe.1 ∈ ends (c.pipes.take k) := by
      obtain ⟨k, rfl⟩ := Nat.exists_eq_succ_of_ne_zero more
      simp [pipes, ends]
    have free := c.free pipe.1 (by simp [pipes, ends])
    apply (table_ends c k pipe.1).1 member
    simp [same, Setting.table, free]
  · rintro rfl
    rfl

end Pipes

/-! ### The loops that fork -/

/-- The command is not a built-in, so looking whether it is has no effect. -/
def Plain (cmd : CmdBuff) : Prop := (execBuiltInCmd cmd).1 = .notBi

instance : DecidablePred Plain := fun cmd => inferInstanceAs (Decidable ((execBuiltInCmd cmd).1 = .notBi))

/-- The shell once it has forked `n` more children. -/
def Parent.launched (s : Parent ε δ) (n : Nat) : Parent ε δ :=
  { s with children := s.children ++ List.replicate n false }

section Forks
variable {c : Setting ε δ} {s : Parent ε δ} {cmd : CmdBuff}

theorem launched_succ (s : Parent ε δ) (n : Nat) : (s.launched 1).launched n = s.launched (n + 1) := by
  simp [Parent.launched, List.replicate_succ]

theorem fork_some (enough : s.children.length < c.forks) : s.fork c = some (s.launched 1) := if_pos enough

theorem fork_none (few : c.forks ≤ s.children.length) : s.fork c = none := if_neg (not_lt.mpr few)

theorem execBuiltIn_plain (plain : Plain cmd) (c : Setting ε δ) (s : Parent ε δ) :
    s.execBuiltIn c cmd = (.notBi, s) := by
  have noPath : execBuiltInCmd cmd = (.notBi, none) := by
    unfold Plain execBuiltInCmd at plain
    unfold execBuiltInCmd
    split at plain
    · rename_i empty
      rw [if_pos empty]
    · rename_i nonempty
      rw [if_neg nonempty]
      cases known : matchCommand ((cmd.arg 0).getD []) <;> simp_all
  simp only [Parent.execBuiltIn, noPath]

theorem execBuiltInCmd_codes (cmd : CmdBuff) : (execBuiltInCmd cmd).1 = .notBi ∨ (execBuiltInCmd cmd).1 = .exit ∨
    (execBuiltInCmd cmd).1 = .executed := by
  unfold execBuiltInCmd
  split
  · simp
  · cases matchCommand ((cmd.arg 0).getD []) <;> simp

theorem execBuiltIn_code (c : Setting ε δ) (s : Parent ε δ) (cmd : CmdBuff) :
    (s.execBuiltIn c cmd).1 = (execBuiltInCmd cmd).1 := by
  unfold Parent.execBuiltIn
  rcases execBuiltInCmd cmd with ⟨biRc, _ | path⟩
  · rfl
  · dsimp only
    split <;> rfl

/-- A built-in touches neither descriptors nor children. -/
theorem execBuiltIn_keeps (c : Setting ε δ) (s : Parent ε δ) (cmd : CmdBuff) :
    (s.execBuiltIn c cmd).2.table = s.table ∧ (s.execBuiltIn c cmd).2.pipes = s.pipes ∧
      (s.execBuiltIn c cmd).2.children = s.children := by
  unfold Parent.execBuiltIn
  rcases execBuiltInCmd cmd with ⟨biRc, _ | path⟩
  · exact ⟨rfl, rfl, rfl⟩
  · dsimp only
    split <;> exact ⟨rfl, rfl, rfl⟩

/-- The commands in front of the one that stops the loop are forked. -/
theorem stageLoop_front {front : List CmdBuff} (plain : ∀ cmd ∈ front, Plain cmd)
    (enough : s.children.length + front.length ≤ c.forks) : stageLoop c i (front ++ rest) s =
      stageLoop c (i + front.length) rest (s.launched front.length) := by
  induction front generalizing i s with
  | nil => simp [Parent.launched]
  | cons cmd front ih =>
    simp only [List.length_cons] at enough ⊢
    have forked := fork_some (c := c) (s := s) (by omega)
    have later := ih (i := i + 1) (s := s.launched 1) (fun other member => plain other (by simp [member]))
      (by simp [Parent.launched]; omega)
    rw [launched_succ, Nat.succ_add_eq_add_succ] at later
    simp only [List.cons_append, stageLoop, execBuiltIn_plain (plain cmd (by simp)), forked, later]
    simp

theorem stageLoop_fork_fails (plain : Plain cmd) (few : c.forks ≤ s.children.length) :
    stageLoop c i (cmd :: rest) s = (some errExecCmd, (s.say (.perror (text "fork"))).closePipes) := by
  simp [stageLoop, execBuiltIn_plain plain, fork_none few]

theorem stageLoop_builtIn (builtIn : ¬ Plain cmd) (refused : ¬ (i = 0 ∧ (execBuiltInCmd cmd).1 = .exit)) :
    stageLoop c i (cmd :: rest) s =
      (some errExecCmd, ((s.execBuiltIn c cmd).2.say .builtInInPipeline).closePipes) := by
  have code := execBuiltIn_code c s cmd
  have known : (s.execBuiltIn c cmd).1 ≠ .notBi := by rwa [code]
  rw [← code] at refused
  simp only [stageLoop, if_neg refused, if_pos known]

theorem stageLoop_exit (exits : (execBuiltInCmd cmd).1 = .exit) :
    stageLoop c 0 (cmd :: rest) s = (some okExit, (s.execBuiltIn c cmd).2.closePipes) := by
  have code := execBuiltIn_code c s cmd
  rw [exits] at code
  simp [stageLoop, code]

/-- A list of commands is forked as a whole, or there is a first one that stops
the loop. -/
theorem first_stop (clist : List CmdBuff) (forks : Nat) :
    ((∀ cmd ∈ clist, Plain cmd) ∧ clist.length ≤ forks) ∨
    ∃ front cmd rest, clist = front ++ cmd :: rest ∧ (∀ cmd ∈ front, Plain cmd) ∧ front.length ≤ forks ∧
      (¬ Plain cmd ∨ Plain cmd ∧ front.length = forks) := by
  induction clist generalizing forks with
  | nil => simp
  | cons cmd clist ih =>
    by_cases plain : Plain cmd
    · cases forks with
      | zero => exact .inr ⟨[], cmd, clist, rfl, by simp, Nat.le_refl 0, .inr ⟨plain, rfl⟩⟩
      | succ forks =>
        rcases ih forks with ⟨all, few⟩ | ⟨front, stop, rest, rfl, all, few, why⟩
        · exact .inl ⟨by simpa [plain] using all, Nat.succ_le_succ few⟩
        · refine .inr ⟨cmd :: front, stop, rest, rfl, by simpa [plain] using all, Nat.succ_le_succ few, ?_⟩
          simpa using why
    · exact .inr ⟨[], cmd, clist, rfl, by simp, Nat.zero_le _, .inl plain⟩

theorem forkLoop_eq (started : s.children.length ≤ c.forks) : forkLoop c left s =
    if s.children.length + left ≤ c.forks then (true, s.launched left)
    else (false, (s.launched (c.forks - s.children.length)).say (.perror (text "fork"))) := by
  induction left generalizing s with
  | zero => simp [forkLoop, Parent.launched, started]
  | succ left ih =>
    unfold forkLoop
    rcases Nat.lt_or_ge s.children.length c.forks with enough | few
    · have count : (s.launched 1).children.length = s.children.length + 1 := by simp [Parent.launched]
      have less : c.forks - (s.children.length + 1) + 1 = c.forks - s.children.length := by omega
      rw [fork_some enough]
      dsimp only
      rw [ih (by omega), count, launched_succ, launched_succ, less, Nat.succ_add_eq_add_succ]
    · have exhausted : c.forks - s.children.length = 0 := by omega
      rw [fork_none few, if_neg (by omega), exhausted]
      simp [Parent.launched]

end Forks

/-! ### The whole functions -/

section Results
variable {c : Setting ε δ} {clist : List CmdBuff} {cmd : CmdBuff}

/-- Steps of `exec_pipeline` once the pipes are open. -/
def afterPipes (c : Setting ε δ) (clist : List CmdBuff) : Int × Parent ε δ :=
  match stageLoop c 0 clist (c.opened (clist.length - 1)) with
  | (some rc, s) => (rc, s)
  | (none, s) => (ok, s.closePipes.waitAll)

theorem execPipeline_one (plain : Plain cmd) : execPipeline c [cmd] = execCmd c cmd (c.opened 0) := by
  simp only [execPipeline, ← opened_zero, execBuiltIn_plain plain]

theorem execPipeline_several (several : 2 ≤ clist.length) : execPipeline c clist =
    if clist.length ≤ c.pipes.length + 1 then afterPipes c clist
    else (errExecCmd, (c.opened c.pipes.length).say (.perror (text "pipe"))) := by
  match clist, several with
  | first :: second :: rest, several =>
    unfold execPipeline
    dsimp only
    rw [← opened_zero, pipeLoop_opened (Nat.zero_le _), Nat.zero_add]
    by_cases enough : (first :: second :: rest).length - 1 ≤ c.pipes.length
    · rw [if_pos enough, if_pos (by omega)]
      rfl
    · rw [if_neg enough, if_neg (by omega)]

/-- How a call ends whose loop is stopped by a command. -/
theorem afterPipes_stopped {front rest : List CmdBuff} (plain : ∀ cmd ∈ front, Plain cmd)
    (enough : front.length ≤ c.forks) : afterPipes c (front ++ cmd :: rest) =
      match stageLoop c front.length (cmd :: rest)
        ((c.opened (front.length + rest.length)).launched front.length) with
      | (some rc, s) => (rc, s)
      | (none, s) => (ok, s.closePipes.waitAll) := by
  have count : (front ++ cmd :: rest).length - 1 = front.length + rest.length := by simp
  unfold afterPipes
  rw [count, stageLoop_front plain (by simpa [Setting.opened] using enough), Nat.zero_add]

theorem afterPipes_all (plain : ∀ cmd ∈ clist, Plain cmd) (enough : clist.length ≤ c.forks) : afterPipes c clist =
    (ok, (((c.opened (clist.length - 1)).launched clist.length).closePipes).waitAll) := by
  have all : stageLoop c 0 (clist ++ []) (c.opened (clist.length - 1)) =
      stageLoop c (0 + clist.length) [] ((c.opened (clist.length - 1)).launched clist.length) :=
    stageLoop_front plain (by simpa [Setting.opened] using enough)
  rw [List.append_nil] at all
  simp only [afterPipes, all, stageLoop]

/-- Once the pipes are open, an `exit` in front ends the shell, and otherwise a
call succeeds for which nothing stops the loop. -/
theorem afterPipes_code (c : Setting ε δ) (first : CmdBuff) (others : List CmdBuff) :
    (afterPipes c (first :: others)).1 =
      if (execBuiltInCmd first).1 = .exit then okExit
      else if (∀ cmd ∈ first :: others, Plain cmd) ∧ (first :: others).length ≤ c.forks then ok
      else errExecCmd := by
  rcases first_stop (first :: others) c.forks with all | ⟨front, cmd, rest, split, plain, enough, why⟩
  · have notExit : (execBuiltInCmd first).1 ≠ .exit := by
      rw [all.1 first (by simp)]
      decide
    rw [afterPipes_all all.1 all.2, if_neg notExit, if_pos all]
  · have stopped : ¬ ((∀ cmd ∈ first :: others, Plain cmd) ∧ (first :: others).length ≤ c.forks) := by
      rw [split]
      rintro ⟨all, few⟩
      rcases why with builtIn | ⟨-, last⟩
      · exact builtIn (all cmd (by simp))
      · simp only [List.length_append, List.length_cons] at few
        omega
    rw [if_neg stopped, split, afterPipes_stopped plain enough]
    by_cases leaves : front.length = 0 ∧ (execBuiltInCmd cmd).1 = .exit
    · obtain rfl : front = [] := List.eq_nil_of_length_eq_zero leaves.1
      obtain ⟨rfl, rfl⟩ := List.cons.inj split
      rw [List.length_nil, stageLoop_exit leaves.2, if_pos leaves.2]
    · have notExit : (execBuiltInCmd first).1 ≠ .exit := by
        intro exits
        cases front with
        | nil =>
          obtain ⟨rfl, rfl⟩ := List.cons.inj split
          exact leaves ⟨rfl, exits⟩
        | cons other front =>
          obtain ⟨rfl, rfl⟩ := List.cons.inj split
          cases exits.symm.trans (plain first (by simp))
      rw [if_neg notExit]
      rcases why with builtIn | ⟨own, last⟩
      · rw [stageLoop_builtIn builtIn leaves]
      · rw [stageLoop_fork_fails own (by simp [Parent.launched, Setting.opened, last])]

theorem rshExecutePipeline_eq (c : Setting ε δ) (clist : List CmdBuff) (pidsSt : Nat → WaitStatus) :
    rshExecutePipeline c clist pidsSt =
      if clist.length - 1 ≤ c.pipes.length then
        if clist.length ≤ c.forks then (pipelineResult ((List.range clist.length).map pidsSt),
          ((c.opened (clist.length - 1)).launched clist.length).closePipes.waitAll)
        else (errExecCmd, ((c.opened (clist.length - 1)).launched c.forks).say (.perror (text "fork")))
      else (errExecCmd, (c.opened c.pipes.length).say (.perror (text "pipe"))) := by
  have none_yet : (c.opened (clist.length - 1)).children.length = 0 := rfl
  unfold rshExecutePipeline
  dsimp only
  rw [← opened_zero, pipeLoop_opened (Nat.zero_le _), Nat.zero_add]
  by_cases piped : clist.length - 1 ≤ c.pipes.length
  · rw [if_pos piped, if_pos piped]
    dsimp only
    rw [forkLoop_eq (by omega), none_yet, Nat.zero_add, Nat.sub_zero]
    by_cases forked : clist.length ≤ c.forks
    · rw [if_pos forked, if_pos forked]
    · rw [if_neg forked, if_neg forked]
  · rw [if_neg piped, if_neg piped]

/-- What happened to the calls of `pipe` and `fork`, as the session's model of
the same function has it. -/
def Setting.launch (c : Setting ε δ) (num : Nat) : Launch :=
  if c.pipes.length < num - 1 then .pipeFailed
  else if c.forks < num then .forkFailed c.forks
  else .all

/-- The result is the one that the session gets to see. -/
theorem rshExecutePipeline_result (c : Setting ε δ) (clist : List CmdBuff) (e : RshServer.Turn)
    (launch : e.launch = c.launch clist.length) :
    (rshExecutePipeline c clist fun i => (e.stage i).status).1 = (RshServer.rshExecutePipeline e clist).1 := by
  rw [rshExecutePipeline_eq]
  unfold Setting.launch at launch
  by_cases piped : clist.length - 1 ≤ c.pipes.length
  · rw [if_neg (not_lt.mpr piped)] at launch
    by_cases forked : clist.length ≤ c.forks
    · rw [if_neg (not_lt.mpr forked)] at launch
      simp only [RshServer.rshExecutePipeline, launch, piped, forked, if_true]
    · rw [if_pos (not_le.mp forked)] at launch
      simp [RshServer.rshExecutePipeline, launch, piped, forked]
  · rw [if_pos (not_le.mp piped)] at launch
    simp [RshServer.rshExecutePipeline, launch, piped]

/-- The result is the one that the loop of the local shell gets to see. -/
theorem execPipeline_result (c : Setting ε δ) (clist : List CmdBuff) (input : LocalLoop.Input)
    (pipes : input.pipes = decide (clist.length ≤ c.pipes.length + 1))
    (forks : input.forks = decide (clist.length ≤ c.forks)) :
    (execPipeline c clist).1 = LocalLoop.execPipeline clist input := by
  match clist with
  | [] => rfl
  | [cmd] =>
    have code := execBuiltIn_code c (c.opened 0) cmd
    have children := (execBuiltIn_keeps c (c.opened 0) cmd).2.2
    have result (s : Parent ε δ) (none_yet : s.children = []) : (execCmd c cmd s).1 = LocalLoop.execCmd input := by
      rw [LocalLoop.execCmd, forks]
      unfold execCmd Parent.fork
      by_cases enough : 0 < c.forks
      · simp [none_yet, enough, Nat.one_le_iff_ne_zero, Nat.pos_iff_ne_zero.mp enough]
      · simp [none_yet, not_not.mp (mt Nat.pos_of_ne_zero enough)]
    simp only [execPipeline, ← opened_zero]
    cases known : (c.opened 0).execBuiltIn c cmd with
    | mk biRc s =>
      rw [known] at code children
      simp only [LocalLoop.execPipeline, ← code]
      cases biRc <;> first | rfl | exact result s children
  | first :: second :: rest =>
    have any_builtIn : ((second :: rest).any fun cmd => (execBuiltInCmd cmd).1 ≠ .notBi) = true ↔
        ¬ ∀ cmd ∈ second :: rest, Plain cmd := by
      simp [Plain, imp_iff_not_or]
    rw [execPipeline_several (by simp)]
    simp only [LocalLoop.execPipeline, pipes, forks, decide_eq_true_eq, any_builtIn]
    by_cases piped : (first :: second :: rest).length ≤ c.pipes.length + 1
    · rw [if_pos piped, if_neg (not_not.mpr piped), afterPipes_code]
      rcases execBuiltInCmd_codes first with plain | exits | executes
      · have notExit : (execBuiltInCmd first).1 ≠ .exit := by
          rw [plain]
          decide
        have all : (∀ cmd ∈ first :: second :: rest, Plain cmd) ↔ ∀ cmd ∈ second :: rest, Plain cmd :=
          List.forall_mem_cons.trans (and_iff_right plain)
        rw [if_neg notExit]
        simp only [plain, all]
        by_cases forked : (first :: second :: rest).length ≤ c.forks
        · by_cases rest_plain : ∀ cmd ∈ second :: rest, Plain cmd
          · rw [if_pos ⟨rest_plain, forked⟩, if_neg (not_not.mpr forked), if_neg (not_not.mpr rest_plain)]
          · rw [if_neg fun both => rest_plain both.1, if_neg (not_not.mpr forked), if_pos rest_plain]
        · rw [if_neg fun both => forked both.2, if_pos forked]
      · simp only [exits, if_true]
      · simp [executes, Plain]
    · rw [if_neg piped, if_pos piped]

end Results

end SysProg.PipelineParents
