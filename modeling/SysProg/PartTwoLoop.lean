import SysProg.PartTwoBounds

/-! `exec_local_cmd_loop` of the second part. One command serves all lines, and
its `_cmd_buffer` is the block that every line is copied to, so a line that
stores past its argument vector takes the block away from the lines behind it. -/
namespace SysProg.PartTwoLoop
open CString PartTwo PartTwoScanner PartTwoBounds

def errTooManyCommands : Int := -2
def errExecCmd : Int := -6
def okExit : Int := -7

def newline : UInt8 := 10

inductive BuiltInCmds where
  | exit
  | dragon
  | cd
  | notBi
  | executed
  | rc
  deriving DecidableEq

/-- What the loop prints: the messages of `dshlib.h`, the dragon, the number for
`rc` and the complaints of `cd`, `fork` and the loop. -/
inductive Message where
  | warnNoCmd
  | errPipeLimit
  | dragon
  | code (rc : Int)
  | cd
  | fork
  | failedExecuting
  deriving DecidableEq

/-- How the child of `exec_cmd` ends, if there is one. -/
inductive Child where
  | none
  | exited (code : UInt8)
  | killed
  deriving DecidableEq

/-- What the outside decides in one turn: the bytes `fgets` stores, whether
`chdir` succeeds, and what becomes of the child. -/
structure Input where
  bytes : List UInt8
  fits : bytes.length < shCmdMax
  chdir : Bool
  child : Child

/-- `input_parse`: the line without its newline. -/
def Input.text (input : Input) : List UInt8 := (cString input.bytes).takeWhile (· ≠ newline)

/-- The variables of the loop, with the static `last_return_code`. -/
structure Local where
  cmd : CmdBuff
  lastReturnCode : Int
  console : List Message
  deriving DecidableEq

def Local.say (s : Local) (message : Message) : Local := { s with console := s.console ++ [message] }

def clearCmdBuff (cmd : CmdBuff) : CmdBuff :=
  { cmd with argc := 0, cells := List.replicate cmdArgvMax none ++ cmd.cells.drop cmdArgvMax }

/-- The loop up to its first prompt; `line` and `block` tell which of its
allocations succeed. -/
def localStart (line block : Bool) (cmd : CmdBuff) : Except Int Local :=
  if ¬ line then .error errMemory else
  let (rc, cmd) := allocCmdBuff block cmd
  if rc ≠ ok then .error rc else .ok ⟨cmd, 0, []⟩

def matchCommand (input : List UInt8) : BuiltInCmds :=
  if input = text "exit" then .exit
  else if input = text "cd" then .cd
  else if input = text "dragon" then .dragon
  else .notBi

def Local.execBuiltInCmd (s : Local) (input : Input) : BuiltInCmds × Local :=
  let name := (s.cmd.arg 0).getD []
  if s.cmd.argc = 0 then (.notBi, s)
  else if name = text "dragon" then (.executed, s.say .dragon)
  else if name = text "rc" then (.executed, s.say (.code s.lastReturnCode))
  else match matchCommand name with
  | .exit => (.exit, s)
  | .cd => (.executed, if 1 < s.cmd.argc ∧ ¬ input.chdir then s.say .cd else s)
  | _ => (.notBi, s)

def Local.execCmd (s : Local) (input : Input) : Int × Local :=
  match input.child with
  | .none => (errExecCmd, s.say .fork)
  | .exited code => (ok, { s with lastReturnCode := code.toNat })
  | .killed => (ok, { s with lastReturnCode := -1 })

inductive Turned where
  | next (s : Local)
  | left (rc : Int)

/-- One turn of the loop; `none` when the copy has no block to go to. -/
def Local.turn (s : Local) (input : Input) : Option Turned :=
  match buildCmdBuff input.text s.cmd with
  | none => none
  | some (rc, cmd) =>
    let s := { s with cmd := cmd }
    if rc = warnNoCmds then some (.next (s.say .warnNoCmd))
    else if rc = errTooManyCommands then some (.next (s.say .errPipeLimit))
    else match s.execBuiltInCmd input with
    | (.exit, _) => some (.left okExit)
    | (.executed, s) => some (.next s)
    | (_, s) =>
      let (rc, s) := s.execCmd input
      let s := if rc ≠ ok then s.say .failedExecuting else s
      some (.next { s with cmd := clearCmdBuff s.cmd })

/-- The state after some lines, if the loop has not ended. -/
def Local.run : Local → List Input → Option Local
  | s, [] => some s
  | s, input :: inputs =>
    match s.turn input with
    | some (.next s) => s.run inputs
    | _ => none

/-- Every line is parsed inside the argument vector, in the state the loop is in
when it reads the line. -/
def AllContained (start : Local) (lines : List Input) : Prop :=
  ∀ before line after s, lines = before ++ line :: after → start.run before = some s → Contained line.text s.cmd

section Runs
variable {s next start : Local} {input : Input} {lines : List Input}

theorem text_short (input : Input) : (cString input.text).length < shCmdMax := by
  have line := (List.takeWhile_sublist (l := cString input.bytes) (· ≠ newline)).length_le
  have bytes := length_cString_le input.bytes
  have string := length_cString_le input.text
  have fits := input.fits
  rw [Input.text] at string ⊢
  omega

theorem execBuiltInCmd_cmd (s : Local) (input : Input) : (s.execBuiltInCmd input).2.cmd = s.cmd := by
  unfold Local.execBuiltInCmd
  dsimp only
  split
  · rfl
  split
  · rfl
  split
  · rfl
  split
  · rfl
  · dsimp only
    split <;> rfl
  · rfl

theorem execCmd_cmd (s : Local) (input : Input) : (s.execCmd input).2.cmd = s.cmd := by
  unfold Local.execCmd
  split <;> rfl

theorem sound_clear (sound : Sound cmd) : Sound (clearCmdBuff cmd) := by
  have wide := sound.wide
  refine ⟨⟨by simp [clearCmdBuff, wide], ?_, sound.size⟩, by simp [clearCmdBuff, cmdArgvMax], rfl⟩
  rw [← sound.block]
  unfold clearCmdBuff CmdBuff.cmdBuffer
  rw [List.getD_eq_getElem?_getD, List.getElem?_append_right (by simp), List.getElem?_drop, List.length_replicate]
  rfl

theorem sound_start {line block : Bool} (started : localStart line block cmd = .ok start) : Sound start.cmd := by
  cases line with
  | false => cases started
  | true =>
    cases block with
    | false => cases started
    | true =>
      cases started
      exact ⟨⟨by simp, rfl, by simp⟩, by decide, rfl⟩

theorem turn_cmd (turn : s.turn input = some (.next next)) : ∃ rc built,
    buildCmdBuff input.text s.cmd = some (rc, built) ∧ (next.cmd = built ∨ next.cmd = clearCmdBuff built) := by
  unfold Local.turn at turn
  cases builds : buildCmdBuff input.text s.cmd with
  | none =>
    rw [builds] at turn
    cases turn
  | some outcome =>
    obtain ⟨rc, built⟩ := outcome
    rw [builds] at turn
    dsimp only at turn
    refine ⟨rc, built, rfl, ?_⟩
    split at turn
    · cases turn
      exact .inl rfl
    split at turn
    · cases turn
      exact .inl rfl
    have kept := execBuiltInCmd_cmd { s with cmd := built } input
    split at turn
    · cases turn
    · rename_i builtIn
      rw [builtIn] at kept
      cases turn
      exact .inl kept
    · rename_i builtIn
      rw [builtIn] at kept
      cases turn
      right
      split
      · exact congrArg clearCmdBuff ((execCmd_cmd _ input).trans kept)
      · exact congrArg clearCmdBuff ((execCmd_cmd _ input).trans kept)

theorem turn_sound (sound : Sound s.cmd) (few : arguments input.text < cmdArgvMax)
    (turn : s.turn input = some (.next next)) : Sound next.cmd := by
  obtain ⟨rc, built, builds, same | cleared⟩ := turn_cmd turn
  · rw [same]
    exact sound_built sound (text_short input) few builds
  · rw [cleared]
    exact sound_clear (sound_built sound (text_short input) few builds)

/-- The lines of a run are contained if the first one is, and the others are in
the run behind it. -/
theorem allContained_cons (turn : s.turn input = some (.next next)) (lines : List Input) :
    AllContained s (input :: lines) ↔ Contained input.text s.cmd ∧ AllContained next lines := by
  constructor
  · intro all
    refine ⟨all [] input lines s rfl rfl, fun before line after last split ran => ?_⟩
    apply all (input :: before) line after last (by rw [split]; rfl)
    rw [Local.run, turn]
    exact ran
  · rintro ⟨first, rest⟩ before line after last split ran
    cases before with
    | nil =>
      obtain ⟨rfl, -⟩ := List.cons.inj split
      cases ran
      exact first
    | cons other before =>
      obtain ⟨rfl, later⟩ := List.cons.inj split
      rw [Local.run, turn] at ran
      exact rest before line after last later ran

theorem allContained_single (s : Local) (input : Input) : AllContained s [input] ↔ Contained input.text s.cmd := by
  constructor
  · exact fun all => all [] input [] s rfl rfl
  · intro only before line after last split ran
    cases before with
    | nil =>
      obtain ⟨rfl, -⟩ := List.cons.inj split
      cases ran
      exact only
    | cons other before => simp at split

theorem allContained_iff (sound : Sound start.cmd) (line : Input) (reached : start.run lines = some s) :
    AllContained start (lines ++ [line]) ↔ ∀ input ∈ lines ++ [line], arguments input.text < cmdArgvMax := by
  induction lines generalizing start with
  | nil =>
    rw [List.nil_append, allContained_single, contained_iff sound (text_short line)]
    simp
  | cons input lines ih =>
    rw [Local.run] at reached
    split at reached
    next next turn =>
      have first := contained_iff sound (text_short input)
      rw [List.cons_append, allContained_cons turn, List.forall_mem_cons, first]
      exact and_congr_right fun few => ih (turn_sound sound few turn) reached
    next => cases reached

/-- Every line that the loop reads is parsed inside the argument vector exactly
when none of them has as many arguments as the vector has elements. -/
theorem argv_contained_iff {cmd : CmdBuff} {lineGranted blockGranted : Bool}
    (started : localStart lineGranted blockGranted cmd = .ok start) (lines : List Input) (line : Input)
    (reached : start.run lines = some s) :
    AllContained start (lines ++ [line]) ↔ ∀ input ∈ lines ++ [line], arguments input.text < cmdArgvMax :=
  allContained_iff (sound_start started) line reached

end Runs

/-- A line that is typed while `cd` works and children succeed. -/
def typed (line : String) (fits : (CString.text line).length < shCmdMax) : Input :=
  ⟨CString.text line, fits, true, .exited 0⟩

/-- The loop at its first prompt. -/
def prompt : Local := ⟨⟨0, List.replicate cmdArgvMax none ++ [some 0], List.replicate shCmdMax 0⟩, 0, []⟩

theorem eight_words_contained :
    AllContained prompt [typed "ls \"a b\"\n" (by decide), typed "a b c d e f g h\n" (by decide)] := by
  have started : localStart true true prompt.cmd = .ok prompt := rfl
  have reached : prompt.run [typed "ls \"a b\"\n" (by decide)] =
      some ((prompt.run [typed "ls \"a b\"\n" (by decide)]).getD prompt) := by decide +kernel
  exact (argv_contained_iff started [typed "ls \"a b\"\n" (by decide)] _ reached).mpr (by decide +kernel)

/-- Nine words leave no buffer for the next line. -/
theorem nine_words_take_buffer : ∃ s, prompt.run [typed "a b c d e f g h i\n" (by decide)] = some s ∧
    s.cmd.cmdBuffer = none ∧ (s.turn (typed "ls\n" (by decide))).isNone = true ∧
      ¬ AllContained prompt [typed "a b c d e f g h i\n" (by decide)] := by
  have sound : Sound prompt.cmd := sound_start (show localStart true true prompt.cmd = .ok prompt from rfl)
  refine ⟨(prompt.run [typed "a b c d e f g h i\n" (by decide)]).getD prompt, by decide +kernel, by decide +kernel,
    by decide +kernel, ?_⟩
  rw [allContained_single, contained_iff sound (text_short _)]
  decide +kernel

end SysProg.PartTwoLoop
