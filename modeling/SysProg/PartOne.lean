import SysProg.Lib.Strtok
import SysProg.Lib.WhileLoop

/-! The first part of the shell, which only takes a line apart. A segment is
copied whole into the 64 bytes of `exe`, spills into the adjacent `args` when
it is longer, and is cut up where it lies; what the second pass does not
overwrite stays behind in `args`. -/
namespace SysProg.PartOne
open CString Tokens Strtok WhileLoop

/-! ### `dshlib.h` -/

def exeMax : Nat := 64
def argMax : Nat := 256
def cmdMax : Nat := 8

def ok : Int := 0
def warnNoCmds : Int := -1
def errTooManyCommands : Int := -2
def errCmdOrArgsTooBig : Int := -3

def pipeChar : UInt8 := 124
def spaceChar : UInt8 := 32

/-- `command_t`: `exe` and behind it `args`, in one run of bytes. -/
structure Command where
  memory : List UInt8
  deriving DecidableEq

def Command.exe (cmd : Command) : List UInt8 := cString cmd.memory
def Command.args (cmd : Command) : List UInt8 := cString (cmd.memory.drop exeMax)

/-- A command after the `memset` of its list. -/
@[irreducible] def zeroed : Command := ⟨List.replicate (exeMax + argMax) 0⟩

/-- `strcpy` to a place in the command; `none` when it runs on into the next one. -/
def Command.strcpy (cmd : Command) (offset : Nat) (src : List UInt8) : Option Command :=
  (CString.strcpy (cmd.memory.drop offset) src).map fun copy => ⟨cmd.memory.take offset ++ copy⟩

/-! ### `dshlib.c` -/

/-- The tokens that `strtok_r(.., "|", ..)` returns one after another. -/
def segments (cmdLine : List UInt8) : List (List UInt8) := tokens (· == pipeChar) (cString cmdLine)

/-- `while (isspace(*command_segment)) command_segment++;` -/
def trimmed (segment : List UInt8) : List UInt8 := segment.dropWhile isspace

/-- `split_commands`. The commands stored so far are `clist`, so that its
length is `clist->num`. -/
def splitCommands : List (List UInt8) → List Command → Option (Int × List Command)
  | [], clist => some (ok, clist)
  | commandSegment :: rest, clist =>
    if cmdMax ≤ clist.length then some (errTooManyCommands, clist)
    else match zeroed.strcpy 0 (trimmed commandSegment) with
    | none => none
    | some cmd => splitCommands rest (clist ++ [cmd])

/-- The delimiters `" \t\n"`. -/
def delimiter (c : UInt8) : Bool := c == 32 || c == 9 || c == 10

/-- The loop over the arguments: the last result of `strtok_r`, the local
array `args`, and whether the loop returned from the function. -/
structure Gather where
  found : Result
  args : List UInt8
  tooBig : Bool
  deriving DecidableEq

/-- `if (curr_len > 0) strcat(args, " "); strcat(args, token);` -/
def appendArg (args token : List UInt8) : List UInt8 :=
  (if 0 < args.length then args ++ [spaceChar] else args) ++ token

def Gather.step (s : Gather) : Gather :=
  match s.found.token with
  | none => s
  | some start =>
    let token := cString (s.found.memory.drop start)
    if argMax ≤ s.args.length + token.length + 2 then { s with tooBig := true }
    else { s with
      args := appendArg s.args token
      found := strtok delimiter s.found.memory s.found.save }

/-- `while (token) { .. }` -/
def gatherLoop : Loop Gather where
  guard := fun s => s.found.token.isSome && !s.tooBig
  step := Gather.step
  size := fun s => if s.tooBig then 0
    else s.found.memory.length - s.found.save + if s.found.token.isSome then 2 else 1
  progress := by
    intro s more
    obtain ⟨⟨found, save, memory⟩, args, tooBig⟩ := s
    simp only [Bool.and_eq_true, Option.isSome_iff_exists, Bool.not_eq_true'] at more
    obtain ⟨⟨start, rfl⟩, rfl⟩ := more
    simp only [Gather.step]
    split
    · simp
    · have forward := save_le delimiter memory save
      simp only [length_memory, Option.isSome_some, if_true, Bool.false_eq_true, if_false]
      cases next : (strtok delimiter memory save).token with
      | none =>
        simp only [Option.isSome_none, Bool.false_eq_true, if_false]
        omega
      | some start =>
        have moved := save_of_token next
        simp only [Option.isSome_some, if_true]
        omega

/-- The body of the second loop of `build_cmd_list` for one command. -/
def parseCommand (cmd : Command) : Option (Int × Command) :=
  let head := strtok delimiter cmd.memory 0
  match head.token with
  | none => some (ok, ⟨head.memory⟩)
  | some start =>
    let token := cString (head.memory.drop start)
    if exeMax ≤ token.length then some (errCmdOrArgsTooBig, ⟨head.memory⟩)
    else match Command.strcpy ⟨head.memory⟩ 0 token with
    | none => none
    | some cmd =>
      let s := gatherLoop.run ⟨strtok delimiter cmd.memory head.save, [], false⟩
      if s.tooBig then some (errCmdOrArgsTooBig, ⟨s.found.memory⟩)
      else if 0 < s.args.length then
        (Command.strcpy ⟨s.found.memory⟩ exeMax s.args).map fun cmd => (ok, cmd)
      else some (ok, ⟨s.found.memory⟩)

/-- The loop itself; the first command that is refused ends it. -/
def parseCommands : List Command → Option (Int × List Command)
  | [] => some (ok, [])
  | cmd :: rest =>
    match parseCommand cmd with
    | none => none
    | some (rc, cmd) =>
      if rc ≠ ok then some (rc, cmd :: rest)
      else (parseCommands rest).map fun (rc, rest) => (rc, cmd :: rest)

/-- `build_cmd_list` on a line, `none` for NULL, and the caller's list, which
is cleared before anything is stored in it. The result is `none` when a copy
runs past the end of its command. -/
def buildCmdList (cmdLine : Option (List UInt8)) (clist : List Command) : Option (Int × List Command) :=
  match cmdLine with
  | none => some (errCmdOrArgsTooBig, clist)
  | some cmdLine =>
    match splitCommands (segments cmdLine) [] with
    | none => none
    | some (splitResult, clist) =>
      if splitResult ≠ ok then some (splitResult, clist)
      else match parseCommands clist with
      | none => none
      | some (rc, clist) =>
        if rc ≠ ok then some (rc, clist)
        else some (if 0 < clist.length then ok else warnNoCmds, clist)

end SysProg.PartOne
