import SysProg.PartTwoScanner

/-! How far `build_cmd_buff` of the second part goes in the argument vector.
The loop and the push behind it both let `argc` reach the size of the vector,
and the NULL that ends the arguments is stored at `argv[argc]` without a test:
with as many arguments as the vector has elements it lands in `_cmd_buffer`. -/
namespace SysProg.PartTwoBounds
open CString WhileLoop PartTwo PartTwoScanner

/-! ### The arguments of a line -/

/-- The arguments in the text ahead: closed quotes, words up to white space and
the text behind the last of these. `started` is set while a word is open that
has a character; a quote that opens drops such a word. -/
def argumentCount : (inQuotes started : Bool) → List UInt8 → Nat
  | _, started, [] => if started then 1 else 0
  | inQuotes, started, c :: rest =>
    if c = quoteChar then
      if inQuotes then argumentCount false false rest + 1 else argumentCount true false rest
    else if ¬ inQuotes ∧ isspace c then
      argumentCount false false rest + if started then 1 else 0
    else argumentCount inQuotes true rest

/-- How many arguments a line has. -/
def arguments (line : List UInt8) : Nat := argumentCount false false (cString line)

/-- The scanner's `start` in front of the text ahead: NULL, the first character
of the open word, or behind the quote just opened. -/
def Opened (done : List UInt8) (start : Option Nat) (inQuotes started : Bool) : Prop :=
  match start with
  | none => inQuotes = false ∧ started = false
  | some p => if started then p < done.length ∧ done.getD p 0 ≠ 0 else inQuotes = true ∧ p = done.length

section Counting
variable {cmd : CmdBuff} {args : List Nat} {done text tail : List UInt8} {start : Option Nat} {inQuotes started : Bool}

theorem argumentCount_dropWhile (text : List UInt8) :
    argumentCount false false (text.dropWhile isspace) = argumentCount false false text := by
  refine skip_spaces (fun c rest space => ?_) text
  have other : c ≠ quoteChar := by
    rintro rfl
    exact absurd space (by decide)
  simp [argumentCount, space, other]

theorem byte_passed (inside : p < done.length) (args : List Nat) (rest : List UInt8) :
    (holding cmd args (done ++ rest)).byte p = done.getD p 0 := by
  simp [holding, CmdBuff.byte, List.getElem?_append_left inside]

/-- A character of a word goes on with the open word or opens one. -/
theorem Opened.word (opened : Opened done start inQuotes started) (nonzero : c ≠ 0) :
    Opened (done ++ [c]) (some (start.getD done.length)) inQuotes true := by
  have here : (done ++ [c]).getD done.length 0 ≠ 0 := by simpa using nonzero
  cases start with
  | none => exact ⟨by simp, here⟩
  | some p =>
    cases started with
    | false =>
      obtain ⟨-, rfl⟩ := opened
      exact ⟨by simp, here⟩
    | true =>
      obtain ⟨inside, nonzero⟩ := opened
      refine ⟨by simp; omega, ?_⟩
      simpa [List.getElem?_append_left inside] using nonzero

theorem finish_ahead (wide : cmd.cells.length = cmdArgvMax + 1) (room : args.length < cmdArgvMax)
    (opened : Opened done start inQuotes started) : ∃ args',
      (scanning cmd args done (0 :: tail) start inQuotes).finish = sealed cmd args' (done ++ 0 :: tail) ∧
        args'.length = args.length + if started then 1 else 0 := by
  cases start with
  | none =>
    obtain ⟨-, rfl⟩ := opened
    exact ⟨args, finish_none, rfl⟩
  | some p =>
    cases started with
    | false =>
      obtain ⟨-, rfl⟩ := opened
      exact ⟨args, finish_cut (.inl byte_ahead), rfl⟩
    | true =>
      obtain ⟨inside, nonzero⟩ := opened
      exact ⟨args ++ [p], finish_open wide (by rwa [byte_passed inside]) room, by simp⟩

theorem finish_full (full : cmdArgvMax ≤ args.length) (rest : List UInt8) :
    (scanning cmd args done rest start inQuotes).finish = sealed cmd args (done ++ rest) := by
  cases start with
  | none => exact finish_none
  | some p => exact finish_cut (.inr full)

/-- The scan ends with so many arguments, or as many as the vector has elements. -/
def Yields (cmd : CmdBuff) (size count : Nat) (s : Scan) : Prop :=
  ∃ args block, (scanLoop.run s).finish = sealed cmd args block ∧ args.length = min cmdArgvMax count ∧
    block.length = size

theorem Yields.turn {s next : Scan} (turn : scanLoop.run s = scanLoop.run next) (counts : count = count')
    (yields : Yields cmd size count' next) : Yields cmd size count s := by
  unfold Yields
  rw [turn, counts]
  exact yields

theorem yields_full (few : args.length ≤ cmdArgvMax) (full : cmdArgvMax ≤ args.length)
    (size_eq : done.length + rest.length = size) (more : Nat) :
    Yields cmd size (args.length + more) (scanning cmd args done rest start inQuotes) := by
  refine ⟨args, done ++ rest, ?_, by omega, by simpa using size_eq⟩
  rw [run_full full, finish_full full]

/-- The scan cuts the arguments of the text ahead as long as the vector has
room for them. -/
theorem yields_arguments (wide : cmd.cells.length = cmdArgvMax + 1) (few : args.length ≤ cmdArgvMax)
    (free : NulFree text) (size_eq : done.length + (text ++ 0 :: tail).length = size)
    (opened : Opened done start inQuotes started) :
    Yields cmd size (args.length + argumentCount inQuotes started text)
      (scanning cmd args done (text ++ 0 :: tail) start inQuotes) := by
  induction text generalizing args done start inQuotes started with
  | nil =>
    rcases Nat.lt_or_ge args.length cmdArgvMax with room | full
    · obtain ⟨args', finished, count⟩ := finish_ahead wide room opened
      refine ⟨args', done ++ 0 :: tail, ?_, ?_, by simpa using size_eq⟩
      · rw [List.nil_append, run_terminator, finished]
      · rw [count, argumentCount, Nat.min_eq_right]
        split <;> omega
    · exact yields_full few full size_eq _
  | cons c rest ih =>
    rcases Nat.lt_or_ge args.length cmdArgvMax with room | full
    swap
    · exact yields_full few full size_eq _
    obtain ⟨nonzero, restFree⟩ := nulFree_cons.mp free
    have oneMore (p : Nat) : (args ++ [p]).length ≤ cmdArgvMax := by
      simp only [List.length_append, List.length_cons, List.length_nil]
      omega
    have behind (byte : UInt8) : (done ++ [byte]).length + (rest ++ 0 :: tail).length = size := by
      simp only [List.length_append, List.length_cons, List.length_nil] at size_eq ⊢
      omega
    by_cases quote : c = quoteChar
    · subst quote
      cases inQuotes with
      | true =>
        cases start with
        | none => exact nomatch opened.1
        | some p =>
          refine .turn (turn_close wide room p) ?_ (ih (oneMore p) restFree (behind 0) ⟨rfl, rfl⟩)
          simp [argumentCount]
          omega
      | false =>
        refine .turn (turn_open room) ?_ (ih few restFree (behind quoteChar)
          (show Opened _ (some (done.length + 1)) true false from ⟨rfl, by simp⟩))
        simp [argumentCount]
    by_cases space : inQuotes = false ∧ isspace c = true
    · obtain ⟨rfl, space⟩ := space
      cases start with
      | none =>
        obtain ⟨-, rfl⟩ := opened
        refine .turn (turn_gap space nonzero quote room) ?_ (ih few restFree (behind c) ⟨rfl, rfl⟩)
        simp [argumentCount, quote, space]
      | some p =>
        cases started with
        | false => exact nomatch opened.1
        | true =>
          refine .turn (turn_space space nonzero quote wide room p) ?_ (ih (oneMore p) restFree (behind 0) ⟨rfl, rfl⟩)
          simp [argumentCount, quote, space]
          omega
    · refine .turn (turn_word nonzero quote (fun outside => ?_) room) ?_
        (ih few restFree (behind c) (opened.word nonzero))
      · simpa [outside] using space
      · have solid : ¬ (¬ inQuotes = true ∧ isspace c = true) := by simpa using space
        rw [argumentCount, if_neg quote, if_neg solid]

end Counting

/-! ### The stores to the vector -/

/-- The turn cuts an argument, which stores to `argv[argc]`. -/
def cuts (s : Scan) : Bool :=
  if s.cmd.byte s.token = quoteChar then s.inQuotes else !s.inQuotes && isspace (s.cmd.byte s.token) && s.start.isSome

/-- The argument is stored that the line did not end. -/
def pushes (s : Scan) : Bool :=
  match s.start with
  | some start => s.cmd.byte start ≠ 0 ∧ s.cmd.argc < cmdArgvMax
  | none => false

/-- The scanner with the indices of `argv` it has stored to. -/
structure Traced where
  scan : Scan
  stores : List Nat

def tracedLoop : Loop Traced where
  guard := fun t => t.scan.guard
  step := fun t => ⟨t.scan.step, if cuts t.scan then t.stores ++ [t.scan.cmd.argc] else t.stores⟩
  size := fun t => scanLoop.size t.scan
  progress := fun t => scanLoop.progress t.scan

/-- The indices of `argv` that `build_cmd_buff` stores to, in order. -/
def argvStores (cmdLine : List UInt8) (cmd : CmdBuff) : List Nat :=
  let cmdLine := (cString cmdLine).dropWhile isspace
  if cmdLine = [] then [] else
  match cmd.cmdBuffer with
  | none => []
  | some base =>
    match strcpy (cmd.block.drop base) cmdLine with
    | none => []
    | some copy =>
      let t := tracedLoop.run
        ⟨⟨base, none, false, { cmd with block := cmd.block.take base ++ copy, argc := 0 }⟩, []⟩
      t.stores ++ if pushes t.scan then [t.scan.cmd.argc, t.scan.cmd.argc + 1] else [t.scan.cmd.argc]

theorem argc_step (s : Scan) : s.step.cmd.argc = s.cmd.argc + if cuts s then 1 else 0 := by
  unfold Scan.step Scan.branch cuts
  dsimp only
  by_cases quote : s.cmd.byte s.token = quoteChar
  · cases s.inQuotes <;> simp [quote, Scan.cut, CmdBuff.push, CmdBuff.terminate]
  by_cases space : s.inQuotes = false ∧ isspace (s.cmd.byte s.token) = true
  · cases start : s.start <;> simp [quote, space, start, Scan.cut, CmdBuff.push, CmdBuff.terminate]
  · cases start : s.start <;> cases inside : s.inQuotes <;> simp_all

theorem argc_finish (s : Scan) : s.finish.argc = s.cmd.argc + if pushes s then 1 else 0 := by
  unfold Scan.finish pushes
  cases s.start with
  | none => rfl
  | some start =>
    by_cases open_ : s.cmd.byte start ≠ 0 ∧ s.cmd.argc < cmdArgvMax
    · simp [open_, CmdBuff.push]
    · simp [open_]

/-- The stores of the loop go to one index after another. -/
theorem traced_run {s : Scan} (fresh : s.cmd.argc = 0) : (tracedLoop.run ⟨s, []⟩).scan = scanLoop.run s ∧
    (tracedLoop.run ⟨s, []⟩).stores = List.range (scanLoop.run s).cmd.argc := by
  have same : (tracedLoop.run ⟨s, []⟩).scan = scanLoop.run s :=
    run_related tracedLoop scanLoop (fun t s => t.scan = s) (by rintro t _ rfl; rfl) (by rintro t _ - rfl; rfl) rfl
  have stores := (run_keeps tracedLoop (fun t => t.stores = List.range t.scan.cmd.argc) ?_
    (s := ⟨s, []⟩) (by rw [fresh]; rfl)).1
  · rw [same] at stores
    exact ⟨same, stores⟩
  · intro t _ before
    simp only [tracedLoop, argc_step, before]
    split
    · rw [List.range_succ]
    · rfl

/-- The last store of all is that of the NULL, at the final `argc`. -/
theorem argvStores_eq {cmdLine : List UInt8} {cmd built : CmdBuff}
    (builds : buildCmdBuff cmdLine cmd = some (ok, built)) :
    argvStores cmdLine cmd = List.range (built.argc + 1) := by
  unfold buildCmdBuff at builds
  unfold argvStores
  dsimp only at builds ⊢
  split at builds
  · cases builds
  rename_i nonblank
  rw [if_neg nonblank]
  cases buffer : cmd.cmdBuffer with
  | none =>
    rw [buffer] at builds
    cases builds
  | some base =>
    rw [buffer] at builds
    dsimp only at builds ⊢
    cases copies : strcpy (cmd.block.drop base) ((cString cmdLine).dropWhile isspace) with
    | none =>
      rw [copies] at builds
      cases builds
    | some copy =>
      rw [copies] at builds
      cases builds
      obtain ⟨same, stores⟩ := traced_run
        (s := ⟨base, none, false, { cmd with block := cmd.block.take base ++ copy, argc := 0 }⟩) rfl
      dsimp only
      rw [stores, same, argc_finish]
      cases pushes (scanLoop.run ⟨base, none, false, { cmd with block := cmd.block.take base ++ copy, argc := 0 }⟩) with
      | true => simp [List.range_succ]
      | false => simp [List.range_succ]

/-! ### One line -/

/-- A command as the loop passes it to `build_cmd_buff`. -/
structure Sound (cmd : CmdBuff) : Prop extends Ready cmd where
  few : cmd.argc < cmdArgvMax
  ended : cmd.cells[cmd.argc]? = some none

/-- The line is parsed without a store past the vector: `argc` stays below its
size, `argv[argc]` is a NULL inside it and `_cmd_buffer` is what it was. -/
def Contained (line : List UInt8) (cmd : CmdBuff) : Prop :=
  ∃ rc built, buildCmdBuff line cmd = some (rc, built) ∧ (∀ i ∈ argvStores line cmd, i < cmdArgvMax) ∧
    built.argc ≤ cmdArgvMax - 1 ∧ built.cells[built.argc]? = some none ∧ built.cmdBuffer = cmd.cmdBuffer

section Lines
variable {cmd built : CmdBuff} {line : List UInt8}

theorem sealed_cells (wide : cmd.cells.length = cmdArgvMax + 1) (few : args.length ≤ cmdArgvMax) (block : List UInt8) :
    (sealed cmd args block).cells.length = cmdArgvMax + 1 ∧ (sealed cmd args block).cells[args.length]? = some none ∧
      (sealed cmd args block).cmdBuffer = if args.length < cmdArgvMax then cmd.cmdBuffer else none := by
  have long : (holding cmd args block).cells.length = cmdArgvMax + 1 := by
    simp [holding, wide]
    omega
  refine ⟨by simp [sealed, long], List.getElem?_set_self (by omega), ?_⟩
  unfold CmdBuff.cmdBuffer sealed
  rw [List.getD_eq_getElem?_getD, List.getD_eq_getElem?_getD]
  split
  · rename_i room
    rw [List.getElem?_set_ne (by omega), holding, List.getElem?_append_right (by simp; omega), List.getElem?_drop,
      List.length_map, Nat.add_sub_cancel' few]
  · rename_i full
    have last : args.length = cmdArgvMax := by omega
    rw [last, List.getElem?_set_self (by omega)]
    rfl

/-- What the scan of a line leaves: as many arguments as the line has, or as the
vector has elements. -/
theorem build_arguments (ready : Ready cmd) (short : (cString line).length < shCmdMax)
    (nonblank : (cString line).dropWhile isspace ≠ []) : ∃ args block,
      buildCmdBuff line cmd = some (ok, sealed cmd args block) ∧ args.length = min cmdArgvMax (arguments line) ∧
        block.length = shCmdMax := by
  have dropped := List.dropWhile_sublist isspace (l := cString line)
  have fits := dropped.length_le
  have free : NulFree ((cString line).dropWhile isspace) :=
    fun c member => nulFree_cString line c (dropped.mem member)
  have yields : Yields cmd shCmdMax (0 + argumentCount false false ((cString line).dropWhile isspace))
      (scanning cmd [] [] ((cString line).dropWhile isspace ++
        0 :: cmd.block.drop (((cString line).dropWhile isspace).length + 1)) none false) :=
    yields_arguments ready.wide (Nat.zero_le _) free (by simp [ready.size]; omega) ⟨rfl, rfl⟩
  obtain ⟨args, block, finished, count, size⟩ := yields
  rw [buildCmdBuff_scans ready rfl nonblank (by omega), finished]
  rw [argumentCount_dropWhile, Nat.zero_add] at count
  exact ⟨args, block, rfl, count, size⟩

/-- A line that the loop can read is parsed inside the vector exactly when it
has fewer arguments than the vector elements. -/
theorem contained_iff (sound : Sound cmd) (short : (cString line).length < shCmdMax) :
    Contained line cmd ↔ arguments line < cmdArgvMax := by
  by_cases blank : (cString line).dropWhile isspace = []
  · have nothing : arguments line = 0 := by
      rw [arguments, ← argumentCount_dropWhile, blank]
      rfl
    have stays : buildCmdBuff line cmd = some (warnNoCmds, cmd) := by simp [buildCmdBuff, blank]
    have stores : argvStores line cmd = [] := by simp [argvStores, blank]
    refine iff_of_true ⟨_, _, stays, by simp [stores], Nat.le_sub_one_of_lt sound.few, sound.ended, rfl⟩ ?_
    rw [nothing]
    decide
  · obtain ⟨args, block, builds, count, -⟩ := build_arguments sound.toReady short blank
    have few : args.length ≤ cmdArgvMax := by omega
    obtain ⟨-, ended, buffer⟩ := sealed_cells sound.wide few block
    constructor
    · rintro ⟨rc, built, builds', -, argc, -⟩
      cases builds.symm.trans builds'
      have bound : args.length ≤ cmdArgvMax - 1 := argc
      simp only [cmdArgvMax] at *
      omega
    · intro fewer
      have room : args.length < cmdArgvMax := by omega
      refine ⟨_, _, builds, fun i member => ?_, Nat.le_sub_one_of_lt room, ended, ?_⟩
      · rw [argvStores_eq builds, List.mem_range] at member
        exact Nat.lt_of_lt_of_le member room
      · rw [buffer, if_pos room]

/-- With few enough arguments the command is as sound as before. -/
theorem sound_built (sound : Sound cmd) (short : (cString line).length < shCmdMax)
    (few : arguments line < cmdArgvMax) (builds : buildCmdBuff line cmd = some (rc, built)) : Sound built := by
  by_cases blank : (cString line).dropWhile isspace = []
  · have stays : buildCmdBuff line cmd = some (warnNoCmds, cmd) := by simp [buildCmdBuff, blank]
    cases builds.symm.trans stays
    exact sound
  · obtain ⟨args, block, builds', count, size⟩ := build_arguments sound.toReady short blank
    cases builds.symm.trans builds'
    have room : args.length < cmdArgvMax := by omega
    obtain ⟨wide, ended, buffer⟩ := sealed_cells sound.wide (Nat.le_of_lt room) block
    rw [if_pos room, sound.block] at buffer
    exact ⟨⟨wide, buffer, size⟩, room, ended⟩

end Lines

end SysProg.PartTwoBounds
