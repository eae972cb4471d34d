import SysProg.PipelineParents

/-! What a pipeline leaves behind in the shell when it does not run: after a
`pipe` or a `fork` that fails, and after a built-in command among its stages.
Only the normal return of either function closes every pipe and waits for every
child. Where a pipeline does run, the result is not the one of its last stage. -/
namespace SysProg.PipelineFailures
open CString Dshlib PipelineParents
open RshServer (WaitStatus wexitstatus pipelineResult)

variable {ε δ : Type*}

/-! ### Calls that fail -/

/-- The call that fails: one of `pipe` or of `fork`, after so many that
succeeded. -/
inductive Failure where
  | pipe (opened : Nat)
  | fork (started : Nat)
  deriving DecidableEq

/-- The call is one of those made for `num` commands, and the first to fail. -/
def FailsAt (c : Setting ε δ) (num : Nat) : Failure → Prop
  | .pipe opened => c.pipes.length = opened ∧ opened + 1 < num
  | .fork started => num ≤ c.pipes.length + 1 ∧ c.forks = started ∧ started < num

/-- `exec_pipeline` gets to the call: no built-in command stops it before. -/
def Reaches (clist : List CmdBuff) : Failure → Prop
  | .pipe _ => True
  | .fork started => ∀ cmd ∈ clist.take (started + 1), Plain cmd

/-- The call returns `ERR_EXEC_CMD` with the table it has found and no child
left to be waited for. -/
def LeavesNothing (c : Setting ε δ) (outcome : Int × Parent ε δ) : Prop :=
  outcome.1 = errExecCmd ∧ outcome.2.table = c.table 0 ∧ ∀ child ∈ outcome.2.children, child = true

section Failures
variable {c : Setting ε δ} {clist : List CmdBuff} {s : Parent ε δ}

/-- A failing `pipe` leaves the pipes before it open. -/
theorem leavesNothing_pipe (c : Setting ε δ) (notice : Notice) :
    LeavesNothing c (errExecCmd, (c.opened c.pipes.length).say notice) ↔ c.pipes.length = 0 := by
  have table : ((c.opened c.pipes.length).say notice).table = c.table c.pipes.length := rfl
  have children : ((c.opened c.pipes.length).say notice).children = [] := rfl
  unfold LeavesNothing
  rw [table, children, table_found_iff (Nat.le_refl _)]
  simp

/-- Nobody waits for the children that were forked before a failing `fork`. -/
theorem unwaited_iff (c : Setting ε δ) (k n : Nat) :
    (∀ child ∈ ((c.opened k).launched n).children, child = true) ↔ n = 0 := by
  have children : ((c.opened k).launched n).children = List.replicate n false := List.nil_append _
  rw [children]
  constructor
  · intro waited
    by_contra some
    cases waited false (List.mem_replicate.mpr ⟨some, rfl⟩)
  · rintro rfl
    simp

/-- `exec_pipeline` closes the pipes after a failing `fork`. -/
theorem leavesNothing_fork_closed (c : Setting ε δ) (k n : Nat) (notice : Notice) :
    LeavesNothing c (errExecCmd, (((c.opened k).launched n).say notice).closePipes) ↔ n = 0 := by
  have table : (((c.opened k).launched n).say notice).closePipes.table = c.table 0 :=
    closePipes_table (k := k) rfl rfl
  have children : (((c.opened k).launched n).say notice).closePipes.children = ((c.opened k).launched n).children := rfl
  unfold LeavesNothing
  rw [table, children, unwaited_iff]
  simp

/-- `rsh_execute_pipeline` does not. -/
theorem leavesNothing_fork_open (bound : k ≤ c.pipes.length) (notice : Notice) :
    LeavesNothing c (errExecCmd, ((c.opened k).launched n).say notice) ↔ k = 0 ∧ n = 0 := by
  have table : (((c.opened k).launched n).say notice).table = c.table k := rfl
  have children : (((c.opened k).launched n).say notice).children = ((c.opened k).launched n).children := rfl
  unfold LeavesNothing
  rw [table, children, unwaited_iff, table_found_iff bound]
  simp

/-- The command whose `fork` fails, behind those that were forked. -/
theorem split_reached (within : started < clist.length) (reaches : Reaches clist (.fork started)) :
    ∃ front cmd rest, clist = front ++ cmd :: rest ∧ front.length = started ∧ (∀ cmd ∈ front, Plain cmd) ∧
      Plain cmd := by
  refine ⟨clist.take started, clist[started], clist.drop (started + 1), ?_, ?_, fun cmd member => ?_, ?_⟩
  · rw [List.getElem_cons_drop, List.take_append_drop]
  · rw [List.length_take]
    omega
  · exact reaches cmd (List.take_subset_take_left clist (Nat.le_succ _) member)
  · exact reaches _ (List.mem_take_iff_getElem.mpr ⟨started, by omega, rfl⟩)

theorem execPipeline_fails {failure : Failure} (fails : FailsAt c clist.length failure)
    (reaches : Reaches clist failure) :
    LeavesNothing c (execPipeline c clist) ↔ failure = .pipe 0 ∨ failure = .fork 0 := by
  cases failure with
  | pipe opened =>
    obtain ⟨rfl, more⟩ := fails
    rw [execPipeline_several (by omega), if_neg (by omega), leavesNothing_pipe]
    simp
  | fork started =>
    obtain ⟨piped, rfl, within⟩ := fails
    obtain ⟨front, cmd, rest, rfl, last, plain, own⟩ := split_reached within reaches
    simp only [reduceCtorEq, Failure.fork.injEq, false_or]
    have started : c.forks ≤ ((c.opened (front.length + rest.length)).launched front.length).children.length := by
      simp [Parent.launched, Setting.opened, last]
    by_cases several : 2 ≤ (front ++ cmd :: rest).length
    · rw [execPipeline_several several, if_pos piped, afterPipes_stopped plain (Nat.le_of_eq last),
        stageLoop_fork_fails own started]
      dsimp only
      rw [leavesNothing_fork_closed, last]
    · simp only [List.length_append, List.length_cons] at several
      obtain rfl : front = [] := List.eq_nil_of_length_eq_zero (by omega)
      obtain rfl : rest = [] := List.eq_nil_of_length_eq_zero (by omega)
      have none_left : (c.opened 0).fork c = none := fork_none (by simp [Setting.opened, ← last])
      rw [List.nil_append, execPipeline_one own, execCmd, none_left]
      exact iff_of_true ⟨rfl, rfl, by simp [Parent.say, Setting.opened]⟩ last.symm

theorem rshExecutePipeline_fails {failure : Failure} (fails : FailsAt c clist.length failure)
    (pidsSt : Nat → WaitStatus) :
    LeavesNothing c (rshExecutePipeline c clist pidsSt) ↔
      failure = .pipe 0 ∨ failure = .fork 0 ∧ clist.length = 1 := by
  rw [rshExecutePipeline_eq]
  cases failure with
  | pipe opened =>
    obtain ⟨rfl, more⟩ := fails
    rw [if_neg (by omega), leavesNothing_pipe]
    simp
  | fork started =>
    obtain ⟨piped, rfl, within⟩ := fails
    rw [if_pos (by omega), if_neg (by omega), leavesNothing_fork_open (by omega)]
    simp only [reduceCtorEq, Failure.fork.injEq, false_or]
    omega

/-- A call that fails is undone exactly when it is the first one of its kind,
and in `rsh_execute_pipeline` no pipe may be open for a `fork` that fails. -/
theorem failed_call_undone_iff (c : Setting ε δ) (clist : List CmdBuff) (failure : Failure)
    (fails : FailsAt c clist.length failure) :
    (Reaches clist failure →
      (LeavesNothing c (execPipeline c clist) ↔ failure = .pipe 0 ∨ failure = .fork 0)) ∧
    ∀ pidsSt, LeavesNothing c (rshExecutePipeline c clist pidsSt) ↔
      failure = .pipe 0 ∨ failure = .fork 0 ∧ clist.length = 1 :=
  ⟨execPipeline_fails fails, rshExecutePipeline_fails fails⟩

end Failures

/-! A shell with its three standard descriptors open, in which two pipes can be
created. -/

def openStd (fd : Nat) : Option Unit := if fd ≤ 2 then some () else none

/-- `cd` takes the shell to any directory it is given. -/
def shell (forks : Nat) : Setting Unit (List UInt8) where
  files := openStd
  directory := text "/home"
  pipes := [(3, 4), (5, 6)]
  forks := forks
  chdir := fun _ path => some path
  distinct := by decide
  free := by decide

def ls : CmdBuff := ⟨1, noArgv.set 0 (some 0), text "ls\x00", none, none, false⟩
def wc : CmdBuff := ⟨1, noArgv.set 0 (some 0), text "wc\x00", none, none, false⟩

theorem first_fork_undone : LeavesNothing (shell 0) (execPipeline (shell 0) [ls, wc]) :=
  ((failed_call_undone_iff (shell 0) [ls, wc] (.fork 0) ⟨by decide, rfl, by decide⟩).1
    (show ∀ cmd ∈ [ls], Plain cmd by decide)).mpr (.inr rfl)

/-- The second `fork` of two fails: nobody waits for the first child. -/
theorem second_fork_not_undone : ¬ LeavesNothing (shell 1) (execPipeline (shell 1) [ls, wc]) ∧
    ¬ LeavesNothing (shell 1) (rshExecutePipeline (shell 1) [ls, wc] fun _ => .exited 0) :=
  ⟨fun undone => absurd undone.2.2 (by decide), fun undone => absurd undone.2.2 (by decide)⟩

/-! ### Built-in commands among the stages -/

/-- `exec_pipeline` rejects the list because of a built-in command. -/
def Rejects (c : Setting ε δ) (clist : List CmdBuff) : Prop :=
  (execPipeline c clist).1 = errExecCmd ∧ .builtInInPipeline ∈ (execPipeline c clist).2.console

/-- The shell is where it was, has waited for its children and has no end of a
pipe open. -/
def Unaffected (c : Setting ε δ) (s : Parent ε δ) : Prop :=
  s.directory = c.directory ∧ (∀ child ∈ s.children, child = true) ∧
    ∀ fd pipe, s.table fd ≠ some (.readEnd pipe) ∧ s.table fd ≠ some (.writeEnd pipe)

/-- The directory the command asks for, if it asks for one, is refused or the
current one. -/
def StaysPut (c : Setting ε δ) (cmd : CmdBuff) : Prop :=
  ∀ path ∈ (execBuiltInCmd cmd).2, ∀ directory ∈ c.chdir c.directory path, directory = c.directory

section BuiltIns
variable {c : Setting ε δ} {clist : List CmdBuff} {cmd : CmdBuff} {s : Parent ε δ}

theorem directory_execBuiltIn (here : s.directory = c.directory) :
    (s.execBuiltIn c cmd).2.directory = c.directory ↔ StaysPut c cmd := by
  unfold Parent.execBuiltIn StaysPut
  rcases execBuiltInCmd cmd with ⟨biRc, _ | path⟩
  · simp [here]
  · rw [here]
    cases moved : c.chdir c.directory path with
    | none => simp [moved, here, Parent.say]
    | some directory => simp [moved]

/-- A rejected list has a first built-in command, which is not an `exit` in
front; the commands before it are running. -/
theorem rejects_cases (several : 2 ≤ clist.length) (rejects : Rejects c clist) :
    ∃ front cmd rest, clist = front ++ cmd :: rest ∧ (∀ cmd ∈ front, Plain cmd) ∧ ¬ Plain cmd ∧
      (execPipeline c clist).2 = (((((c.opened (front.length + rest.length)).launched front.length).execBuiltIn
        c cmd).2.say .builtInInPipeline).closePipes) := by
  obtain ⟨code, noticed⟩ := rejects
  rw [execPipeline_several several] at code noticed ⊢
  by_cases piped : clist.length ≤ c.pipes.length + 1
  · rw [if_pos piped] at code noticed ⊢
    rcases first_stop clist c.forks with ⟨plain, enough⟩ | ⟨front, cmd, rest, rfl, plain, enough, why⟩
    · rw [afterPipes_all plain enough] at code
      cases code
    refine ⟨front, cmd, rest, rfl, plain, ?_⟩
    rw [afterPipes_stopped plain enough] at code noticed ⊢
    rcases why with builtIn | ⟨own, last⟩
    · refine ⟨builtIn, ?_⟩
      by_cases leaves : front.length = 0 ∧ (execBuiltInCmd cmd).1 = .exit
      · rw [leaves.1, stageLoop_exit leaves.2] at code
        cases code
      · rw [stageLoop_builtIn builtIn leaves]
    · rw [stageLoop_fork_fails own (by simp [Parent.launched, Setting.opened, last])] at noticed
      simp [Parent.closePipes, Parent.say, Parent.launched, Setting.opened] at noticed
  · rw [if_neg piped] at noticed
    simp [Parent.say, Setting.opened] at noticed

/-- A pipeline that is rejected for a built-in command leaves the shell as it
was exactly when that command stands in front and does not change the
directory. -/
theorem rejected_unaffected_iff (c : Setting ε δ) (clist : List CmdBuff) (several : 2 ≤ clist.length)
    (rejects : Rejects c clist) : Unaffected c (execPipeline c clist).2 ↔
      ∃ first others, clist = first :: others ∧ ¬ Plain first ∧ StaysPut c first := by
  obtain ⟨front, cmd, rest, rfl, plain, builtIn, left⟩ := rejects_cases several rejects
  obtain ⟨table, pipes, children⟩ :=
    execBuiltIn_keeps c ((c.opened (front.length + rest.length)).launched front.length) cmd
  have closed : (execPipeline c (front ++ cmd :: rest)).2.table = c.table 0 := by
    rw [left]
    exact closePipes_table (k := front.length + rest.length) table pipes
  have waited : (∀ child ∈ (execPipeline c (front ++ cmd :: rest)).2.children, child = true) ↔ front = [] := by
    rw [left, ← List.length_eq_zero_iff, ← unwaited_iff c (front.length + rest.length) front.length, ← children]
    rfl
  have directory : (execPipeline c (front ++ cmd :: rest)).2.directory = c.directory ↔ StaysPut c cmd := by
    rw [left, ← directory_execBuiltIn (s := (c.opened (front.length + rest.length)).launched front.length) rfl]
    rfl
  have noEnds : ∀ fd pipe, c.table 0 fd ≠ some (.readEnd pipe) ∧ c.table 0 fd ≠ some (.writeEnd pipe) := by
    simp [Setting.table]
  rw [Unaffected, closed, waited, directory]
  constructor
  · rintro ⟨stays, rfl, _⟩
    exact ⟨cmd, rest, rfl, builtIn, stays⟩
  · rintro ⟨first, others, split, known, stays⟩
    cases front with
    | nil =>
      obtain ⟨rfl, rfl⟩ := List.cons.inj split
      exact ⟨stays, rfl, noEnds⟩
    | cons other front =>
      obtain ⟨rfl, _⟩ := List.cons.inj split
      exact absurd (plain other (by simp)) known

end BuiltIns

def cdTmp : CmdBuff := ⟨2, (noArgv.set 0 (some 0)).set 1 (some 3), text "cd\x00/tmp\x00", none, none, false⟩
def cdOnly : CmdBuff := ⟨1, noArgv.set 0 (some 0), text "cd\x00", none, none, false⟩

theorem bare_cd_unaffected : Unaffected (shell 2) (execPipeline (shell 2) [cdOnly, ls]).2 :=
  (rejected_unaffected_iff (shell 2) [cdOnly, ls] (by decide) ⟨by decide, by decide⟩).mpr
    ⟨cdOnly, [ls], rfl, by decide, by unfold StaysPut; decide⟩

/-- `ls | cd /tmp` is rejected with the shell in another directory and `ls` not
waited for. -/
theorem rejected_cd_moves : Rejects (shell 2) [ls, cdTmp] ∧
    ¬ Unaffected (shell 2) (execPipeline (shell 2) [ls, cdTmp]).2 ∧
      (execPipeline (shell 2) [ls, cdTmp]).2.directory = text "/tmp" ∧
      (execPipeline (shell 2) [ls, cdTmp]).2.children = [false] :=
  ⟨⟨by decide, by decide⟩, fun unaffected => absurd unaffected.1 (by decide), by decide, by decide⟩

/-! ### The result of a pipeline that runs -/

/-- The documented result: the exit code of the last stage, and no success for
one that was killed. -/
def ReportsLast (last : WaitStatus) (rc : Int) : Prop :=
  match last with
  | .exited code => rc = code.toNat
  | .signaled _ _ => rc ≠ 0

theorem wexitstatus_exited (code : UInt8) : wexitstatus (WaitStatus.exited code).raw = code.toNat := by
  have bound := code.toNat_lt
  simp only [wexitstatus, WaitStatus.raw]
  omega

/-- `WEXITSTATUS` of a killed stage is that of one that succeeded. -/
theorem wexitstatus_signaled (signal : Fin 127) (core : Bool) :
    wexitstatus (WaitStatus.signaled signal core).raw = 0 := by
  have bound := signal.isLt
  simp only [wexitstatus, WaitStatus.raw]
  split <;> omega

theorem wexitstatus_failed_iff (status : WaitStatus) :
    wexitstatus status.raw ≠ 0 ↔ ∃ code ≠ 0, status = .exited code := by
  cases status with
  | exited code =>
    have zero : code.toNat = 0 ↔ code = 0 := UInt8.toNat_inj (b := 0)
    simp [wexitstatus_exited, zero]
  | signaled signal core => simp [wexitstatus_signaled]

/-- The loop over all statuses leaves two results: that of a stage that failed,
and zero. -/
theorem pipelineResult_cases (statuses : List WaitStatus) :
    ((∃ status ∈ statuses, wexitstatus status.raw ≠ 0) ∧ pipelineResult statuses = errExecCmd) ∨
      ((∀ status ∈ statuses, wexitstatus status.raw = 0) ∧ pipelineResult statuses = 0) := by
  by_cases succeeded : ∀ status ∈ statuses, wexitstatus status.raw = 0
  · exact .inr ⟨succeeded, (SessionSurvival.pipelineResult_zero_iff statuses).mpr succeeded⟩
  · have failed : ∃ status ∈ statuses, wexitstatus status.raw ≠ 0 := by simpa using succeeded
    have any : (statuses.any fun status => wexitstatus status.raw ≠ 0) = true := by simpa using failed
    exact .inl ⟨failed, if_pos any⟩

/-- A pipeline reports its last stage exactly when a stage exits with a nonzero
code if and only if the last one is killed. -/
theorem reports_last_iff (c : Setting ε δ) (clist : List CmdBuff) (pidsSt : Nat → WaitStatus)
    (nonempty : 1 ≤ clist.length) (launched : c.launch clist.length = .all) :
    ReportsLast (pidsSt (clist.length - 1)) (rshExecutePipeline c clist pidsSt).1 ↔
      ((∃ i < clist.length, ∃ code ≠ 0, pidsSt i = .exited code) ↔
        ∃ signal core, pidsSt (clist.length - 1) = .signaled signal core) := by
  have failed_iff : (∃ status ∈ (List.range clist.length).map pidsSt, wexitstatus status.raw ≠ 0) ↔
      ∃ i < clist.length, ∃ code ≠ 0, pidsSt i = .exited code := by
    simp only [List.mem_map, List.mem_range, exists_exists_and_eq_and, wexitstatus_failed_iff]
  have piped : clist.length - 1 ≤ c.pipes.length ∧ clist.length ≤ c.forks := by
    unfold Setting.launch at launched
    split at launched
    · cases launched
    split at launched
    · cases launched
    · omega
  rw [rshExecutePipeline_eq, if_pos piped.1, if_pos piped.2, ← failed_iff]
  have lastWithin : clist.length - 1 < clist.length := by omega
  rcases pipelineResult_cases ((List.range clist.length).map pidsSt) with ⟨failed, result⟩ | ⟨succeeded, result⟩
  · rw [result]
    cases last : pidsSt (clist.length - 1) with
    | exited code =>
      have negative : errExecCmd ≠ code.toNat := by
        unfold errExecCmd
        omega
      refine iff_of_false negative fun same => ?_
      obtain ⟨_, _, impossible⟩ := same.mp failed
      cases impossible
    | signaled signal core =>
      have nonzero : errExecCmd ≠ 0 := by decide
      exact iff_of_true nonzero (iff_of_true failed ⟨signal, core, rfl⟩)
  · rw [result]
    have none_failed : ¬ ∃ status ∈ (List.range clist.length).map pidsSt, wexitstatus status.raw ≠ 0 := by
      simpa using succeeded
    cases last : pidsSt (clist.length - 1) with
    | exited code =>
      have zero := succeeded _ (List.mem_map_of_mem (List.mem_range.mpr lastWithin))
      rw [last, wexitstatus_exited] at zero
      exact iff_of_true (by simp [ReportsLast, zero]) (iff_of_false none_failed (by simp))
    | signaled signal core =>
      exact iff_of_false (by simp [ReportsLast]) fun same => none_failed (same.mpr ⟨signal, core, rfl⟩)

theorem quiet_pipeline_reports_last :
    ReportsLast (.exited 0) (rshExecutePipeline (shell 2) [ls, wc] fun _ => .exited 0).1 :=
  (reports_last_iff (shell 2) [ls, wc] (fun _ => .exited 0) (by decide) (by decide)).mpr
    (by simp)

/-- A stage that fails in front of one that succeeds, and a stage that is
killed. -/
theorem last_stage_not_reported :
    ¬ ReportsLast (.exited 0) (rshExecutePipeline (shell 2) [ls, wc] fun i => .exited (if i = 0 then 1 else 0)).1 ∧
      ¬ ReportsLast (.exited 3) (rshExecutePipeline (shell 2) [ls] fun _ => .exited 3).1 ∧
      ¬ ReportsLast (.signaled 9 false) (rshExecutePipeline (shell 2) [ls] fun _ => .signaled 9 false).1 := by
  refine ⟨?_, ?_, ?_⟩ <;> unfold ReportsLast <;> decide

end SysProg.PipelineFailures
