import SysProg.Lib.CString
import SysProg.Lib.WhileLoop

/-! The second part of the shell: `cmd_buff_t` without redirections, and its
scanner. The field `_cmd_buffer` follows the argument vector in memory, so the
pointers of a command are kept as one run of cells and an index one past the
vector reaches that field. -/
namespace SysProg.PartTwo
open CString WhileLoop

/-! ### `dshlib.h` -/

def exeMax : Nat := 64
def argMax : Nat := 256
def cmdMax : Nat := 8
def cmdArgvMax : Nat := cmdMax + 1

/-- `SH_CMD_MAX * sizeof(char)`, which `malloc` is asked for. -/
def shCmdMax : Nat := exeMax + argMax

def ok : Int := 0
def warnNoCmds : Int := -1
def errMemory : Int := -5

def quoteChar : UInt8 := 34

/-- `cmd_buff_t`. The cells are `argv[0]` to `argv[CMD_ARGV_MAX - 1]` and then
`_cmd_buffer`; `none` is NULL, and pointers are offsets into the block that was
allocated for the command. -/
structure CmdBuff where
  argc : Nat
  cells : List (Option Nat)
  block : List UInt8
  deriving DecidableEq

/-- The field behind the argument vector. -/
def CmdBuff.cmdBuffer (cmd : CmdBuff) : Option Nat := cmd.cells.getD cmdArgvMax none

/-- The byte at an offset. -/
def CmdBuff.byte (cmd : CmdBuff) (offset : Nat) : UInt8 := cmd.block.getD offset 0

/-- The string at an offset. -/
def CmdBuff.string (cmd : CmdBuff) (offset : Nat) : List UInt8 := cString (cmd.block.drop offset)

/-- The string `argv[i]`, `none` for NULL. -/
def CmdBuff.arg (cmd : CmdBuff) (i : Nat) : Option (List UInt8) := (cmd.cells.getD i none).map cmd.string

/-- `*p = '\0'`. -/
def CmdBuff.terminate (cmd : CmdBuff) (offset : Nat) : CmdBuff := { cmd with block := cmd.block.set offset 0 }

/-- `cmd_buff->argv[cmd_buff->argc++] = start`. -/
def CmdBuff.push (cmd : CmdBuff) (start : Option Nat) : CmdBuff :=
  { cmd with cells := cmd.cells.set cmd.argc start, argc := cmd.argc + 1 }

/-- `alloc_cmd_buff`, which clears the block and the vector. -/
def allocCmdBuff (granted : Bool) (cmd : CmdBuff) : Int × CmdBuff :=
  if granted then (ok, ⟨0, List.replicate cmdArgvMax none ++ [some 0], List.replicate shCmdMax 0⟩)
  else (errMemory, { cmd with cells := cmd.cells.set cmdArgvMax none })

/-! ### `build_cmd_buff` -/

/-- The scanner's variables; `start` is NULL outside words. -/
structure Scan where
  token : Nat
  start : Option Nat
  inQuotes : Bool
  cmd : CmdBuff
  deriving DecidableEq

/-- `*token = '\0'; cmd_buff->argv[cmd_buff->argc++] = start; start = NULL;` -/
def Scan.cut (s : Scan) : Scan := { s with cmd := (s.cmd.terminate s.token).push s.start, start := none }

/-- The body of the loop up to its `token++`. -/
def Scan.branch (s : Scan) : Scan :=
  let c := s.cmd.byte s.token
  if c = quoteChar then
    let s := { s with inQuotes := !s.inQuotes }
    if s.inQuotes then { s with start := some (s.token + 1) } else s.cut
  else if ¬ s.inQuotes ∧ isspace c then
    if s.start.isSome then s.cut else s
  else if s.start = none then { s with start := some s.token }
  else s

def Scan.step (s : Scan) : Scan := { s.branch with token := s.token + 1 }

def Scan.guard (s : Scan) : Bool := s.cmd.byte s.token ≠ 0 ∧ s.cmd.argc < cmdArgvMax

theorem length_branch (s : Scan) : s.branch.cmd.block.length = s.cmd.block.length := by
  simp only [Scan.branch]
  split
  · split
    · rfl
    · exact List.length_set
  split
  · split
    · exact List.length_set
    · rfl
  split <;> rfl

theorem byte_past_end {cmd : CmdBuff} (past : cmd.block.length ≤ offset) : cmd.byte offset = 0 := by
  simp [CmdBuff.byte, List.getElem?_eq_none past]

/-- `while (*token != '\0' && cmd_buff->argc < CMD_ARGV_MAX) { .. token++; }` -/
def scanLoop : Loop Scan where
  guard := Scan.guard
  step := Scan.step
  size := fun s => s.cmd.block.length - s.token
  progress := by
    intro s more
    have inside : s.token < s.cmd.block.length := by
      by_contra beyond
      simp [Scan.guard, byte_past_end (not_lt.mp beyond)] at more
    simp only [Scan.step, length_branch]
    omega

/-- What follows the loop: the last argument, if the line did not end it, and
the NULL behind the arguments, wherever that falls. -/
def Scan.finish (s : Scan) : CmdBuff :=
  let cmd := match s.start with
    | some start => if s.cmd.byte start ≠ 0 ∧ s.cmd.argc < cmdArgvMax then s.cmd.push s.start else s.cmd
    | none => s.cmd
  { cmd with cells := cmd.cells.set cmd.argc none }

/-- `none` when the `strcpy` has no block to copy to or runs past its end. -/
def buildCmdBuff (cmdLine : List UInt8) (cmd : CmdBuff) : Option (Int × CmdBuff) :=
  let cmdLine := (cString cmdLine).dropWhile isspace
  if cmdLine = [] then some (warnNoCmds, cmd) else
  match cmd.cmdBuffer with
  | none => none
  | some base =>
    match strcpy (cmd.block.drop base) cmdLine with
    | none => none
    | some copy =>
      some (ok, (scanLoop.run
        ⟨base, none, false, { cmd with block := cmd.block.take base ++ copy, argc := 0 }⟩).finish)

end SysProg.PartTwo
