import SysProg.Lib.CString
import SysProg.Lib.WhileLoop

/-! `dshlib.c`: one command of the shell, its buffer and the scanner that cuts
the buffer into arguments in place. Pointers into the buffer are offsets. The
bytes behind the terminator are whatever the heap held before. -/
namespace SysProg.Dshlib
open CString WhileLoop

/-! ### Constants of `dshlib.h` -/

def exeMax : Nat := 64
def argMax : Nat := 256
def cmdMax : Nat := 8
def cmdArgvMax : Nat := cmdMax + 1

/-- `SH_CMD_MAX * sizeof(char)`, which `malloc` is asked for. -/
def shCmdMax : Nat := exeMax + argMax

def ok : Int := 0
def warnNoCmds : Int := -1
def errTooManyCommands : Int := -2
def errMemory : Int := -5
def errExecCmd : Int := -6
def okExit : Int := -7

theorem ok_ne_warnNoCmds : ok ≠ warnNoCmds := by decide

def quoteChar : UInt8 := 34
def lessChar : UInt8 := 60
def greaterChar : UInt8 := 62
def pipeChar : UInt8 := 124

/-! ### The heap -/

/-- What the next allocations give: a command buffer with some contents or
NULL, and a copy of a string or NULL. Exhausted lists stand for success, and
the counters for the blocks and strings not yet freed. -/
structure Heap where
  blocks : List (Option (List UInt8))
  strings : List Bool
  liveBlocks : Nat
  liveStrings : Nat
  deriving DecidableEq

/-- `malloc(SH_CMD_MAX * sizeof(char))`. -/
def Heap.malloc (heap : Heap) : Option (List UInt8) × Heap :=
  match heap.blocks.headD (some []) with
  | none => (none, { heap with blocks := heap.blocks.tail })
  | some contents => (some ((contents ++ List.replicate shCmdMax 0).take shCmdMax),
      { heap with blocks := heap.blocks.tail, liveBlocks := heap.liveBlocks + 1 })

def Heap.strdup (heap : Heap) (string : List UInt8) : Option (List UInt8) × Heap :=
  if heap.strings.headD true then
    (some string, { heap with strings := heap.strings.tail, liveStrings := heap.liveStrings + 1 })
  else (none, { heap with strings := heap.strings.tail })

def Heap.freeBlock (heap : Heap) : Heap := { heap with liveBlocks := heap.liveBlocks - 1 }
def Heap.freeString (heap : Heap) : Heap := { heap with liveStrings := heap.liveStrings - 1 }

/-! ### `cmd_buff_t` -/

/-- `buffer` is the memory `_cmd_buffer` points to, empty for NULL, and `argv`
holds offsets into it. -/
structure CmdBuff where
  argc : Nat
  argv : List (Option Nat)
  buffer : List UInt8
  inputFile : Option (List UInt8)
  outputFile : Option (List UInt8)
  appendOutput : Bool
  deriving DecidableEq

/-- The byte at an offset. -/
def CmdBuff.byte (cmd : CmdBuff) (offset : Nat) : UInt8 := cmd.buffer.getD offset 0

/-- The string at an offset. -/
def CmdBuff.string (cmd : CmdBuff) (offset : Nat) : List UInt8 := cString (cmd.buffer.drop offset)

/-- `*p = '\0'`. -/
def CmdBuff.terminate (cmd : CmdBuff) (offset : Nat) : CmdBuff :=
  { cmd with buffer := cmd.buffer.set offset 0 }

/-- `cmd_buff->argv[cmd_buff->argc++] = start`. -/
def CmdBuff.push (cmd : CmdBuff) (start : Nat) : CmdBuff :=
  { cmd with argv := cmd.argv.set cmd.argc (some start), argc := cmd.argc + 1 }

def noArgv : List (Option Nat) := List.replicate cmdArgvMax none

def allocCmdBuff (cmd : CmdBuff) (heap : Heap) : Int × CmdBuff × Heap :=
  match heap.malloc with
  | (none, heap) => (errMemory, { cmd with buffer := [] }, heap)
  | (some block, heap) => (ok, ⟨0, noArgv, block, none, none, false⟩, heap)

def freeCmdBuff (cmd : CmdBuff) (heap : Heap) : CmdBuff × Heap :=
  let heap := if cmd.buffer ≠ [] then heap.freeBlock else heap
  let heap := if cmd.inputFile.isSome then heap.freeString else heap
  let heap := if cmd.outputFile.isSome then heap.freeString else heap
  (⟨0, noArgv, [], none, none, false⟩, heap)

def clearCmdBuff (cmd : CmdBuff) (heap : Heap) : CmdBuff × Heap :=
  let heap := if cmd.inputFile.isSome then heap.freeString else heap
  let heap := if cmd.outputFile.isSome then heap.freeString else heap
  ({ cmd with argv := noArgv, inputFile := none, outputFile := none, appendOutput := false }, heap)

/-! ### `build_cmd_buff` -/

/-- The scanner's variables. -/
structure Scan where
  token : Nat
  start : Nat
  inQuotes : Bool
  cmd : CmdBuff
  heap : Heap
  deriving DecidableEq

/-- `*token = '\0'; cmd_buff->argv[cmd_buff->argc++] = start;` -/
def Scan.cut (s : Scan) : Scan := { s with cmd := (s.cmd.terminate s.token).push s.start }

/-- `while (isspace(*start)) start++;` -/
def CmdBuff.skipSpaces (cmd : CmdBuff) (start : Nat) : Nat :=
  start + ((cmd.buffer.drop start).takeWhile isspace).length

/-- `while (!isspace(*start) && *start != '\0') start++;` -/
def CmdBuff.skipName (cmd : CmdBuff) (start : Nat) : Nat :=
  start + ((cmd.buffer.drop start).takeWhile fun c => !isspace c && c ≠ 0).length

/-- The file name from `start` on: it is terminated and copied, and `start`
moves behind its terminator. -/
def Scan.operand (s : Scan) (start : Nat) : Option (List UInt8) × Scan :=
  let fileStart := s.cmd.skipSpaces start
  let fileEnd := s.cmd.skipName fileStart
  let cmd := s.cmd.terminate fileEnd
  let (file, heap) := s.heap.strdup (cmd.string fileStart)
  (file, { s with start := fileEnd + 1, cmd := cmd, heap := heap })

/-- The body of the loop up to its `token++`. -/
def Scan.branch (s : Scan) : Scan :=
  let c := s.cmd.byte s.token
  if c = quoteChar then
    if ¬ s.inQuotes then { s with start := s.token + 1, inQuotes := true }
    else { s.cut with inQuotes := false, start := s.token + 1 }
  else if ¬ s.inQuotes ∧ isspace c then
    let s := if s.start ≠ s.token then s.cut else s
    { s with start := s.token + 1 }
  else if ¬ s.inQuotes ∧ c = lessChar then
    let (file, s) := s.cut.operand (s.token + 1)
    { s with cmd := { s.cmd with inputFile := file } }
  else if ¬ s.inQuotes ∧ c = greaterChar then
    let s := s.cut
    -- the text behind the operator is scanned again once the operand is taken
    let (start, append) :=
      if s.cmd.byte (s.token + 1) = greaterChar then (s.token + 2, true)
      else (s.token + 1, s.cmd.appendOutput)
    let (file, s) := s.operand start
    { s with cmd := { s.cmd with outputFile := file, appendOutput := append } }
  else s

def Scan.step (s : Scan) : Scan := { s.branch with token := s.token + 1 }

def Scan.guard (s : Scan) : Bool := s.cmd.byte s.token ≠ 0 ∧ s.cmd.argc < cmdArgvMax - 1

@[simp] theorem length_terminate (cmd : CmdBuff) : (cmd.terminate offset).buffer.length = cmd.buffer.length := by
  simp [CmdBuff.terminate]

@[simp] theorem buffer_push (cmd : CmdBuff) : (cmd.push start).buffer = cmd.buffer := rfl

theorem length_cut (s : Scan) : s.cut.cmd.buffer.length = s.cmd.buffer.length := by
  simp [Scan.cut]

theorem length_operand (s : Scan) (start : Nat) :
    (s.operand start).2.cmd.buffer.length = s.cmd.buffer.length := by
  simp [Scan.operand]

/-- The scanner edits its buffer in place and never moves or resizes it. -/
theorem length_branch (s : Scan) : s.branch.cmd.buffer.length = s.cmd.buffer.length := by
  have afterCut (start : Nat) : (s.cut.operand start).2.cmd.buffer.length = s.cmd.buffer.length :=
    (length_operand s.cut start).trans (length_cut s)
  simp only [Scan.branch]
  split
  · split
    · rfl
    · exact length_cut s
  split
  · split
    · exact length_cut s
    · rfl
  split
  · exact afterCut (s.token + 1)
  split
  · exact afterCut _
  · rfl

theorem byte_past_end {cmd : CmdBuff} (past : cmd.buffer.length ≤ offset) : cmd.byte offset = 0 := by
  simp [CmdBuff.byte, List.getElem?_eq_none past]

/-- `while (*token != '\0' && cmd_buff->argc < CMD_ARGV_MAX - 1) { .. token++; }` -/
def scanLoop : Loop Scan where
  guard := Scan.guard
  step := Scan.step
  size := fun s => s.cmd.buffer.length - s.token
  progress := by
    intro s more
    have inside : s.token < s.cmd.buffer.length := by
      by_contra beyond
      simp [Scan.guard, byte_past_end (not_lt.mp beyond)] at more
    simp only [Scan.step, length_branch]
    omega

/-- What follows the loop: the last argument, if the line did not end it, and
the NULL behind the arguments. -/
def Scan.finish (s : Scan) : CmdBuff :=
  let cmd :=
    if s.start < s.token ∧ s.cmd.byte s.start ≠ 0 ∧ s.cmd.argc < cmdArgvMax - 1 then s.cmd.push s.start
    else s.cmd
  { cmd with argv := cmd.argv.set cmd.argc none }

/-- `none` when the `strcpy` runs past the end of the command buffer. -/
def buildCmdBuff (cmdLine : List UInt8) (cmd : CmdBuff) (heap : Heap) : Option (Int × CmdBuff × Heap) :=
  let cmdLine := (cString cmdLine).dropWhile isspace
  if cmdLine = [] then some (warnNoCmds, cmd, heap) else
  match strcpy cmd.buffer cmdLine with
  | none => none
  | some buffer =>
    let s := scanLoop.run ⟨0, 0, false, { cmd with buffer := buffer, argc := 0 }, heap⟩
    some (ok, s.finish, s.heap)

/-- A command buffer as `alloc_cmd_buff` leaves it. -/
theorem alloc_granted (granted : allocCmdBuff stale heap = (ok, cmd, fresh)) :
    cmd.buffer.length = shCmdMax ∧ cmd.argv.length = cmdArgvMax ∧
      cmd.inputFile = none ∧ cmd.outputFile = none ∧ cmd.appendOutput = false := by
  rw [allocCmdBuff] at granted
  cases block : heap.malloc with
  | mk contents after =>
    rw [block] at granted
    cases contents with
    | none => cases granted
    | some contents =>
      cases granted
      refine ⟨?_, List.length_replicate, rfl, rfl, rfl⟩
      rw [Heap.malloc] at block
      split at block
      · cases block
      · cases block
        simp

/-! ### `build_cmd_list` -/

/-- The tokens that `strtok_r(.., PIPE_STRING, ..)` returns one after another. -/
def pipeTokens (cmdLine : List UInt8) : List (List UInt8) :=
  ((cString cmdLine).splitOn pipeChar).filter (· ≠ [])

/-- A `cmd_buff_t` before anything is stored in it. -/
def vacant : CmdBuff := ⟨0, noArgv, [], none, none, false⟩

def freeCmdList (clist : List CmdBuff) (heap : Heap) : List CmdBuff × Heap :=
  ([], clist.foldl (fun heap cmd => (freeCmdBuff cmd heap).2) heap)

/-- The loop over the tokens. `clist` holds the commands built so far, so that
its length is `clist->num`. -/
def buildCmds : List (List UInt8) → List CmdBuff → Heap → Option (Int × List CmdBuff × Heap)
  | [], clist, heap =>
    let heap := heap.freeString
    if clist.length = 0 then some (warnNoCmds, clist, heap) else some (ok, clist, heap)
  | cmdToken :: rest, clist, heap =>
    if cmdMax ≤ clist.length then
      let (clist, heap) := freeCmdList clist heap.freeString
      some (errTooManyCommands, clist, heap)
    else
      let (rc, cmd, heap) := allocCmdBuff vacant heap
      if rc ≠ ok then
        let (clist, heap) := freeCmdList clist heap.freeString
        some (rc, clist, heap)
      else match buildCmdBuff cmdToken cmd heap with
      | none => none
      | some (rc, cmd, heap) =>
        if rc = warnNoCmds then buildCmds rest clist (freeCmdBuff cmd heap).2
        else if rc = ok then buildCmds rest (clist ++ [cmd]) heap
        else buildCmds rest clist heap

/-- `clist` is the list the caller passes in. -/
def buildCmdList (cmdLine : List UInt8) (clist : List CmdBuff) (heap : Heap) :
    Option (Int × List CmdBuff × Heap) :=
  let (cmdCopy, heap) := heap.strdup (cString cmdLine)
  match cmdCopy with
  | none => some (errMemory, clist, heap)
  | some cmdCopy => buildCmds (pipeTokens cmdCopy) [] heap

/-! ### Built-in commands -/

inductive BuiltInCmds where
  | exit
  | dragon
  | cd
  | rc
  | stopSvr
  | notBi
  | executed
  deriving DecidableEq

def matchCommand (input : List UInt8) : BuiltInCmds :=
  if input = text "exit" then .exit
  else if input = text "cd" then .cd
  else .notBi

/-- The string `argv[i]`, `none` for NULL. -/
def CmdBuff.arg (cmd : CmdBuff) (i : Nat) : Option (List UInt8) := (cmd.argv.getD i none).map cmd.string

/-- `exec_built_in_cmd`, together with the directory `cd` asks for. Whether
`chdir` succeeds makes no difference to the result. -/
def execBuiltInCmd (cmd : CmdBuff) : BuiltInCmds × Option (List UInt8) :=
  if cmd.argc = 0 then (.notBi, none) else
  match matchCommand ((cmd.arg 0).getD []) with
  | .exit => (.exit, none)
  | .cd => (.executed, if 1 < cmd.argc then cmd.arg 1 else none)
  | _ => (.notBi, none)

end SysProg.Dshlib
