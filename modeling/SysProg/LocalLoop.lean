import SysProg.CopyBounds
import SysProg.LineOutlook

/-! `exec_local_cmd_loop`: one command buffer serves every line that is not a
pipeline, and nothing clears it between two lines. What a line is executed
with depends on the lines before it exactly through the redirections they
leave behind and through the bytes behind its own text. -/
namespace SysProg.LocalLoop
open CString WhileLoop Dshlib CopyBounds Scanner ScanAgreement LineOutlook

/-! ### The loop -/

def newline : UInt8 := 10

/-- What the outside decides in one turn: the bytes `fgets` stores, the
allocations, and whether `pipe` and `fork` succeed. -/
structure Input where
  bytes : List UInt8
  fits : bytes.length < argMax
  blocks : List (Option (List UInt8))
  strings : List Bool
  pipes : Bool
  forks : Bool

/-- `cmd_buff[strcspn(cmd_buff, "\n")] = '\0'`. -/
def Input.text (input : Input) : List UInt8 := (cString input.bytes).takeWhile (· ≠ newline)

structure Local where
  cmd : CmdBuff
  cmdList : List CmdBuff
  heap : Heap
  deriving DecidableEq

/-- The loop up to its first prompt: the line buffer and the command buffer are
allocated. -/
def localStart (cmd : CmdBuff) (cmdList : List CmdBuff) (heap : Heap) : Except Int Local :=
  match heap.malloc with
  | (none, _) => .error errMemory
  | (some _, heap) =>
    let (rc, cmd, heap) := allocCmdBuff cmd heap
    if rc ≠ ok then .error rc else .ok ⟨cmd, cmdList, heap⟩

/-- The parent's side of `exec_cmd`. -/
def execCmd (input : Input) : Int := if input.forks then ok else errExecCmd

def execPipeline (clist : List CmdBuff) (input : Input) : Int :=
  match clist with
  | [] => warnNoCmds
  | [cmd] =>
    match (execBuiltInCmd cmd).1 with
    | .exit => okExit
    | .executed => ok
    | _ => execCmd input
  | first :: others =>
    if ¬ input.pipes then errExecCmd
    else match (execBuiltInCmd first).1 with
    | .exit => okExit
    | .executed => errExecCmd
    | _ =>
      if ¬ input.forks then errExecCmd
      else if others.any fun cmd => (execBuiltInCmd cmd).1 ≠ .notBi then errExecCmd
      else ok

/-- The heap with the outcomes of this turn's allocations. -/
def Local.heapFor (s : Local) (input : Input) : Heap := { s.heap with blocks := input.blocks, strings := input.strings }

inductive Turned where
  | next (s : Local)
  | left (rc : Int)

/-- One turn of the loop; `none` when a copy overruns its buffer. -/
def Local.turn (s : Local) (input : Input) : Option Turned :=
  let heap := s.heapFor input
  let line := input.text
  if line = [] then some (.next { s with heap := heap })
  else if pipeChar ∈ line then
    match buildCmdList line s.cmdList heap with
    | none => none
    | some (rc, cmdList, heap) =>
      if rc = warnNoCmds ∨ rc = errTooManyCommands then some (.next { s with cmdList := cmdList, heap := heap })
      else if execPipeline cmdList input = okExit then some (.left okExit)
      else
        let (cmdList, heap) := freeCmdList cmdList heap
        some (.next { s with cmdList := cmdList, heap := heap })
  else
    match buildCmdBuff line s.cmd heap with
    | none => none
    | some (rc, cmd, heap) =>
      if rc = warnNoCmds then some (.next { s with cmd := cmd, heap := heap })
      else match (execBuiltInCmd cmd).1 with
      | .exit => some (.left okExit)
      -- a built-in was executed, or `exec_cmd` was called and its result reported
      | _ => some (.next { s with cmd := cmd, heap := heap })

/-- The state after some lines, if the loop has not ended. -/
def Local.run : Local → List Input → Option Local
  | s, [] => some s
  | s, input :: inputs =>
    match s.turn input with
    | some (.next s) => s.run inputs
    | _ => none

/-- The command that `exec_built_in_cmd` and `exec_cmd` are called with. -/
def Local.executed (s : Local) (input : Input) : Option Command :=
  if input.text = [] ∨ pipeChar ∈ input.text then none
  else match buildCmdBuff input.text s.cmd (s.heapFor input) with
  | some (rc, cmd, _) => if rc = warnNoCmds then none else some (command cmd)
  | none => none

/-- The loop stands in this state after these lines. -/
def After (history : List Input) (s : Local) : Prop :=
  ∃ cmd cmdList heap start, localStart cmd cmdList heap = .ok start ∧ start.run history = some s

/-! ### What a line leaves behind -/

def Input.outlook (input : Input) : Outlook := LineOutlook.outlook 0 .here false (copied input.text)

/-- A line after which the command buffer holds no redirection: a pipeline,
which has its own buffers, or a line without an operator outside quotes. -/
def Input.Calm (input : Input) : Prop := pipeChar ∈ input.text ∨ input.outlook = .quiet

/-- A command buffer with the sizes it was allocated with. -/
structure Ready (cmd : CmdBuff) : Prop where
  size : cmd.buffer.length = shCmdMax
  wide : cmd.argv.length = cmdArgvMax

section Lines
variable {input : Input} {cmd : CmdBuff}

/-- A line is shorter than the buffer `fgets` reads it into. -/
theorem text_short (input : Input) : input.text.length < argMax := by
  have line := (List.takeWhile_sublist (l := cString input.bytes) (· ≠ newline)).length_le
  have bytes := length_cString_le input.bytes
  have fits := input.fits
  rw [Input.text]
  omega

/-- A line that `fgets` has read fits into the command buffer. -/
theorem copied_short (input : Input) : (copied input.text).length < shCmdMax := by
  have copied := (List.dropWhile_sublist isspace (l := cString input.text)).length_le
  have string := length_cString_le input.text
  have line := text_short input
  have room : argMax < shCmdMax := by decide
  rw [CopyBounds.copied]
  omega

theorem copied_nulFree (cmdLine : List UInt8) : NulFree (copied cmdLine) :=
  fun c member => nulFree_cString cmdLine c ((List.dropWhile_sublist isspace).mem member)

/-- The scan of a line. -/
def lineScan (cmd : CmdBuff) (input : Input) (heap : Heap) : Scan :=
  scanning cmd [] [] (copied input.text ++ 0 :: cmd.buffer.drop ((copied input.text).length + 1)) 0 false heap

theorem buildCmdBuff_input (nonblank : copied input.text ≠ []) (ready : Ready cmd) (heap : Heap) :
    buildCmdBuff input.text cmd heap = some (ok, (scanLoop.run (lineScan cmd input heap)).finish,
      (scanLoop.run (lineScan cmd input heap)).heap) :=
  buildCmdBuff_scans rfl nonblank (ready.size.symm ▸ copied_short input) heap

/-- The scan and what follows it keep the sizes. -/
theorem ready_scan (ready : Ready cmd) (heap : Heap) : Ready (scanLoop.run (lineScan cmd input heap)).finish := by
  have start : Ready (lineScan cmd input heap).cmd := by
    have short := copied_short input
    constructor
    · simp [lineScan, scanning, holding, ready.size]
      omega
    · exact argv_scanning ready.wide (by decide)
  have run := (run_keeps scanLoop (fun s => Ready s.cmd)
    (fun s _ ready => ⟨(length_branch s).trans ready.size, argv_step ready.wide⟩) start).1
  rw [Scan.finish]
  split
  · exact ⟨run.size, by simp [CmdBuff.push, run.wide]⟩
  · exact ⟨run.size, by simp [run.wide]⟩

theorem sameFiles_finish (s : Scan) : SameFiles s.cmd s.finish := by
  rw [Scan.finish]
  split <;> exact ⟨rfl, rfl, rfl⟩

theorem clear_scan (clear : input.outlook ≠ .strays) (ready : Ready cmd) (heap : Heap) :
    Within (copied input.text).length (scanLoop.run (lineScan cmd input heap)).cmd ∧
      (input.outlook = .quiet → SameFiles cmd (scanLoop.run (lineScan cmd input heap)).cmd) :=
  run_clear (copied_nulFree input.text) ⟨Nat.zero_add _, clear, rfl, by simp⟩ ready.wide

/-- A line without operators leaves the redirections of the buffer as they were. -/
theorem quiet_scan (quiet : input.outlook = .quiet) (ready : Ready cmd) (heap : Heap) :
    SameFiles cmd (scanLoop.run (lineScan cmd input heap)).finish := by
  have clear : input.outlook ≠ .strays := by
    rw [quiet]
    decide
  exact ((clear_scan clear ready heap).2 quiet).trans (sameFiles_finish _)

/-- A turn leaves the command buffer as it was, or with the scan of its line. -/
theorem turn_cases {s next : Local} (ready : Ready s.cmd) (turn : s.turn input = some (.next next)) :
    next.cmd = s.cmd ∨
      pipeChar ∉ input.text ∧ next.cmd = (scanLoop.run (lineScan s.cmd input (s.heapFor input))).finish := by
  simp only [Local.turn] at turn
  split at turn
  · cases turn
    exact .inl rfl
  split at turn
  · split at turn
    · cases turn
    split at turn
    · cases turn
      exact .inl rfl
    split at turn
    · cases turn
    · cases turn
      exact .inl rfl
  next single =>
    by_cases blank : copied input.text = []
    · rw [buildCmdBuff_blank blank] at turn
      cases turn
      exact .inl rfl
    · rw [buildCmdBuff_input blank ready] at turn
      simp only [ok_ne_warnNoCmds, if_false] at turn
      split at turn
      · cases turn
      · cases turn
        exact .inr ⟨single, rfl⟩

theorem turn_ready {s next : Local} (ready : Ready s.cmd) (turn : s.turn input = some (.next next)) :
    Ready next.cmd := by
  rcases turn_cases ready turn with same | ⟨-, scanned⟩
  · rw [same]
    exact ready
  · rw [scanned]
    exact ready_scan ready _

theorem turn_calm {s next : Local} (ready : Ready s.cmd) (calm : input.Calm)
    (turn : s.turn input = some (.next next)) : SameFiles s.cmd next.cmd := by
  rcases turn_cases ready turn with same | ⟨single, scanned⟩
  · rw [same]
    exact ⟨rfl, rfl, rfl⟩
  · rw [scanned]
    exact quiet_scan (calm.resolve_left single) ready _

end Lines

theorem run_ready {s last : Local} {history : List Input} (ready : Ready s.cmd) (run : s.run history = some last) :
    Ready last.cmd := by
  induction history generalizing s with
  | nil =>
    cases run
    exact ready
  | cons input inputs ih =>
    rw [Local.run] at run
    split at run
    next next turn => exact ih (turn_ready ready turn) run
    next => cases run

/-- Calm lines leave the command buffer without redirections. -/
theorem run_calm {s last : Local} {history : List Input} (ready : Ready s.cmd) (calm : ∀ input ∈ history, input.Calm)
    (run : s.run history = some last) : SameFiles s.cmd last.cmd := by
  induction history generalizing s with
  | nil =>
    cases run
    exact ⟨rfl, rfl, rfl⟩
  | cons input inputs ih =>
    rw [Local.run] at run
    split at run
    next next turn =>
      have later := ih (turn_ready ready turn) (fun input member => calm input (by simp [member])) run
      exact (turn_calm ready (calm input (by simp)) turn).trans later
    next => cases run

/-- The first prompt finds the command buffer as it was allocated. -/
theorem localStart_fresh {start : Local} (started : localStart cmd cmdList heap = .ok start) :
    Ready start.cmd ∧ SameFiles vacant start.cmd := by
  rw [localStart] at started
  split at started
  · cases started
  next heap' _ =>
    cases allocated : allocCmdBuff cmd heap' with
    | mk rc built =>
      obtain ⟨built, fresh⟩ := built
      simp only [allocated] at started
      split at started
      · cases started
      next granted =>
        cases started
        obtain rfl : rc = ok := not_not.mp granted
        obtain ⟨size, wide, files⟩ := alloc_granted allocated
        exact ⟨⟨size, wide⟩, files⟩

theorem after_ready {s : Local} {history : List Input} (after : After history s) : Ready s.cmd := by
  obtain ⟨cmd, cmdList, heap, start, started, run⟩ := after
  exact run_ready (localStart_fresh started).1 run

theorem after_calm {s : Local} {history : List Input} (after : After history s)
    (calm : ∀ input ∈ history, input.Calm) : SameFiles vacant s.cmd := by
  obtain ⟨cmd, cmdList, heap, start, started, run⟩ := after
  obtain ⟨ready, files⟩ := localStart_fresh started
  exact files.trans (run_calm ready calm run)

/-! ### Two histories -/

section Histories
variable {s t : Local} {input : Input}

theorem executed_scan (nonblank : copied input.text ≠ []) (single : pipeChar ∉ input.text) (ready : Ready s.cmd) :
    s.executed input = some (command (scanLoop.run
      (lineScan s.cmd input (s.heapFor input))).finish) := by
  have some : input.text ≠ [] := fun none => nonblank (by rw [none]; rfl)
  simp only [Local.executed, some, single, or_self, if_false, buildCmdBuff_input nonblank ready,
    ok_ne_warnNoCmds]

/-- The scans of one line in two buffers begin alike. -/
theorem alike_lineScan {cmd other : CmdBuff} {heap heap' : Heap} (left : Ready cmd) (right : Ready other)
    (files : SameFiles cmd other) (strings : heap'.strings = heap.strings) :
    Alike (copied input.text).length (lineScan cmd input heap) (lineScan other input heap') := by
  refine ⟨(lineScan other input heap').cmd, heap', rfl, ⟨(lineScan other input heap').cmd.argv,
    (lineScan other input heap').cmd.buffer, ?_, ⟨?_, ?_⟩, ?_, rfl⟩, strings⟩
  · obtain ⟨inputs, outputs, append⟩ := files
    simp [lineScan, scanning, holding, inputs, outputs, append]
  · have text (rest : List UInt8) : (copied input.text ++ 0 :: rest).take ((copied input.text).length + 1) =
        copied input.text ++ [0] := by
      simp [List.take_append, List.take_of_length_le]
    exact (text _).trans (text _).symm
  · simp [lineScan, scanning, holding]
  · exact (argv_scanning right.wide (by decide)).trans (argv_scanning left.wide (by decide)).symm

/-- Two command buffers with the same redirections execute a line alike, unless
an argument begins behind it. -/
theorem executed_same (nonblank : copied input.text ≠ []) (single : pipeChar ∉ input.text)
    (inside : input.outlook ≠ .strays) (left : Ready s.cmd) (right : Ready t.cmd) (files : SameFiles s.cmd t.cmd) :
    t.executed input = s.executed input := by
  rw [executed_scan nonblank single left, executed_scan nonblank single right]
  have alike : Alike (copied input.text).length (lineScan s.cmd input (s.heapFor input))
      (lineScan t.cmd input (t.heapFor input)) := alike_lineScan left right files rfl
  have inFront : InFront (0 + (copied input.text).length) _ (lineScan s.cmd input (s.heapFor input)) :=
    inFront_scanning
  rw [Nat.zero_add] at inFront
  obtain ⟨run, place, wide⟩ := alike.run inFront (argv_scanning left.wide (by decide))
  have within := within_finish (clear_scan inside left _).1 place.1 wide
  rw [(run.finish place.1 wide).command within]

/-- The state once `clear_cmd_buff` has been called on the command buffer. -/
def Local.cleared (s : Local) : Local :=
  let (cmd, heap) := clearCmdBuff s.cmd s.heap
  { s with cmd := cmd, heap := heap }

theorem ready_cleared (ready : Ready s.cmd) : Ready s.cleared.cmd := ⟨ready.size, List.length_replicate⟩

/-- With `clear_cmd_buff` in front of it a line is executed alike after any two
histories, unless one of its arguments begins behind it. -/
theorem executed_cleared {history history' : List Input} (left : After history s) (right : After history' t)
    (nonblank : copied input.text ≠ []) (single : pipeChar ∉ input.text) (inside : input.outlook ≠ .strays) :
    t.cleared.executed input = s.cleared.executed input :=
  executed_same nonblank single inside (ready_cleared (after_ready left)) (ready_cleared (after_ready right))
    ⟨rfl, rfl, rfl⟩

/-- A redirection that an earlier line has left in the buffer is part of every
later command that has none of its own. -/
theorem executed_leftover (nonblank : copied input.text ≠ []) (single : pipeChar ∉ input.text)
    (quiet : input.outlook = .quiet) (ready : Ready s.cmd) :
    ∃ command, s.executed input = some command ∧ command.inputFile = s.cmd.inputFile ∧
      command.outputFile = s.cmd.outputFile ∧ command.appendOutput = s.cmd.appendOutput :=
  ⟨_, executed_scan nonblank single ready, quiet_scan quiet ready _⟩

/-- A line is executed alike after any two histories of calm lines, unless one
of its arguments begins behind it. -/
theorem executed_after {history history' : List Input} (left : After history s) (right : After history' t)
    (calm : ∀ input ∈ history, input.Calm) (calm' : ∀ input ∈ history', input.Calm)
    (nonblank : copied input.text ≠ []) (single : pipeChar ∉ input.text) (inside : input.outlook ≠ .strays) :
    ∃ command, s.executed input = some command ∧ t.executed input = some command := by
  have ready := after_ready left
  have files := after_calm left calm
  have files' := after_calm right calm'
  have same : SameFiles s.cmd t.cmd :=
    ⟨files'.1.trans files.1.symm, files'.2.1.trans files.2.1.symm, files'.2.2.trans files.2.2.symm⟩
  refine ⟨_, executed_scan nonblank single ready, ?_⟩
  rw [executed_same nonblank single inside ready (after_ready right) same, executed_scan nonblank single ready]

end Histories

/-- A line that is typed while every system call succeeds. -/
def typed (line : String) (fits : (CString.text line).length < argMax) : Input :=
  ⟨CString.text line, fits, [], [], true, true⟩

/-- The loop at its first prompt, with a command buffer of zeros. -/
def prompt : Local := ⟨⟨0, noArgv, List.replicate shCmdMax 0, none, none, false⟩, [], ⟨[], [], 2, 0⟩⟩

theorem after_prompt {history : List Input} (run : prompt.run history = some s) : After history s :=
  ⟨vacant, [], ⟨[], [], 0, 0⟩, prompt, by decide +kernel, run⟩

/-- `ls >out` is executed alike after `echo hi` and as the first line. -/
theorem ls_executed_alike : ∃ command,
    ((prompt.run [typed "echo hi\n" (by decide)]).getD prompt).executed (typed "ls >out\n" (by decide)) = some command ∧
      prompt.executed (typed "ls >out\n" (by decide)) = some command := by
  have echoed : prompt.run [typed "echo hi\n" (by decide)] =
      some ((prompt.run [typed "echo hi\n" (by decide)]).getD prompt) := by decide +kernel
  have calm : ∀ input ∈ [typed "echo hi\n" (by decide)], input.Calm := by
    rintro _ (_ | ⟨_, ⟨⟩⟩)
    exact .inr (by decide +kernel)
  exact executed_after (after_prompt echoed) (show After [] prompt from after_prompt rfl) calm (by simp)
    (by decide +kernel) (by decide +kernel) (by decide +kernel)

/-- After `sort < in` the command `ls` reads from the same file. -/
theorem redirection_kept : ¬ ∀ (history history' : List Input) (s t : Local) (input : Input), After history s →
    After history' t → copied input.text ≠ [] → pipeChar ∉ input.text → s.executed input = t.executed input := by
  intro same
  have sorted : prompt.run [typed "sort < in\n" (by decide)] =
      some ((prompt.run [typed "sort < in\n" (by decide)]).getD prompt) := by decide +kernel
  have alike := same _ [] _ _ (typed "ls\n" (by decide)) (after_prompt sorted) (after_prompt rfl) (by decide +kernel)
    (by decide +kernel)
  have differ : ((prompt.run [typed "sort < in\n" (by decide)]).getD prompt).executed (typed "ls\n" (by decide)) ≠
      prompt.executed (typed "ls\n" (by decide)) := by decide +kernel
  exact differ alike

end SysProg.LocalLoop
