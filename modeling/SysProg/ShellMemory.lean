import Mathlib.Algebra.GroupWithZero.Nat
import SysProg.LocalLoop
import SysProg.PipeSplitting

/-! The heap of `exec_local_cmd_loop` and of `exec_client_requests` over whole
runs. Every command buffer that `build_cmd_list` allocates is given back
whatever fails on the way; the only memory that a run loses are names of files
whose redirection is overwritten by a later one of the same command. -/
namespace SysProg.ShellMemory
open CString WhileLoop Dshlib CopyBounds Scanner LocalLoop RshServer PipeSplitting

/-! ### What a command owns -/

/-- The copied file names a command points to. -/
def names (cmd : CmdBuff) : Nat := cmd.inputFile.isSome.toNat + cmd.outputFile.isSome.toNat

def ownedNames (clist : List CmdBuff) : Nat := (clist.map names).sum

/-- A turn of the scanner stores a redirection where another one is; nothing
points to the copied name of that one from then on. -/
def overwrites (s : Scan) : Nat :=
  let c := s.cmd.byte s.token
  if s.inQuotes then 0
  else if c = lessChar then s.cmd.inputFile.isSome.toNat
  else if c = greaterChar then s.cmd.outputFile.isSome.toNat
  else 0

section Scanner
variable {s : Scan}

theorem strings_strdup (heap : Heap) (string : List UInt8) :
    (heap.strdup string).2.liveStrings = heap.liveStrings + (heap.strdup string).1.isSome.toNat := by
  rw [Heap.strdup]
  split <;> rfl

/-- Taking an operand copies a name and stores nothing. -/
theorem operand_strings (s : Scan) (start : Nat) :
    (s.cut.operand start).2.heap.liveStrings = s.heap.liveStrings + (s.cut.operand start).1.isSome.toNat ∧
      (s.cut.operand start).2.cmd.inputFile = s.cmd.inputFile ∧
      (s.cut.operand start).2.cmd.outputFile = s.cmd.outputFile :=
  ⟨strings_strdup s.heap _, rfl, rfl⟩

/-- A character that is no operator allocates nothing and stores no name. -/
theorem branch_other (other : s.inQuotes = true ∨ s.cmd.byte s.token ≠ lessChar ∧ s.cmd.byte s.token ≠ greaterChar) :
    s.branch.heap = s.heap ∧ names s.branch.cmd = names s.cmd := by
  have quoted : s.inQuotes = true → (¬ s.inQuotes = true) = False := by simp +contextual
  simp only [Scan.branch]
  split
  · split <;> exact ⟨rfl, rfl⟩
  split
  · split <;> exact ⟨rfl, rfl⟩
  split
  next less => exact absurd less (by grind)
  split
  next greater => exact absurd greater (by grind)
  next => exact ⟨rfl, rfl⟩

/-- A turn copies the name it stores, and loses the one it overwrites. -/
theorem step_strings (s : Scan) :
    s.step.heap.liveStrings + names s.cmd = s.heap.liveStrings + names s.step.cmd + overwrites s := by
  have less_greater : greaterChar ≠ lessChar := by decide
  cases inside : s.inQuotes with
  | true =>
    obtain ⟨heap, same⟩ := branch_other (.inl inside)
    simp [Scan.step, heap, same, overwrites, inside]
  | false =>
    by_cases less : s.cmd.byte s.token = lessChar
    · obtain ⟨copied, input, output⟩ := operand_strings s (s.token + 1)
      simp only [Scan.step, branch_less less inside, overwrites, less, inside, names, output]
      simp only [Bool.false_eq_true, if_true, if_false]
      omega
    by_cases greater : s.cmd.byte s.token = greaterChar
    · obtain ⟨copied, input, output⟩ := operand_strings s (Scanner.Scan.afterGreater s).1
      simp only [Scan.step, Scanner.branch_greater greater inside, overwrites, greater, inside, names, input]
      simp only [Bool.false_eq_true, less_greater, if_true, if_false]
      omega
    · obtain ⟨heap, same⟩ := branch_other (.inr ⟨less, greater⟩)
      simp [Scan.step, heap, same, overwrites, inside, less, greater]

end Scanner

/-- The names one call of `build_cmd_buff` loses. -/
def lostNames (cmdLine : List UInt8) (cmd : CmdBuff) (heap : Heap) : Nat :=
  if copied cmdLine = [] then 0
  else match strcpy cmd.buffer (copied cmdLine) with
  | none => 0
  | some buffer => scanLoop.tally overwrites ⟨0, 0, false, { cmd with buffer := buffer, argc := 0 }, heap⟩

/-! ### How many names a text can lose -/

def isOperator (c : UInt8) : Bool := c == lessChar || c == greaterChar

theorem overwrites_le (s : Scan) : overwrites s ≤ (isOperator (s.cmd.byte s.token)).toNat := by
  rw [overwrites]
  split
  · exact Nat.zero_le _
  split
  next less => simp [isOperator, less, Bool.toNat_le]
  split
  next greater => simp [isOperator, greater, Bool.toNat_le]
  · exact Nat.zero_le _

/-- The operators between the scanner and the end of its text. -/
def operatorsAhead (stop : Nat) (s : Scan) : Nat := ((s.cmd.buffer.take stop).drop s.token).countP isOperator

/-- Terminating a string does not make an operator. -/
theorem countP_terminated (buffer : List UInt8) (i stop place : Nat) :
    (((buffer.set i 0).take stop).drop place).countP isOperator ≤
      ((buffer.take stop).drop place).countP isOperator := by
  rw [List.take_set, List.drop_set]
  split
  · exact Nat.le_refl _
  · have nul : isOperator 0 = false := by decide
    by_cases inside : i - place < ((buffer.take stop).drop place).length
    · rw [List.countP_set inside, nul]
      simp
    · rw [List.set_eq_of_length_le (not_lt.mp inside)]

theorem operators_branch (s : Scan) (stop place : Nat) :
    ((s.branch.cmd.buffer.take stop).drop place).countP isOperator ≤
      ((s.cmd.buffer.take stop).drop place).countP isOperator := by
  obtain ⟨_, _, branch, -⟩ | ⟨_, branch⟩ | ⟨start, _, _, _, branch, -⟩ := branch_cases s
  · rw [branch]
  · rw [branch]
    exact countP_terminated _ _ _ _
  · rw [branch]
    exact (countP_terminated _ _ _ _).trans (countP_terminated _ _ _ _)

theorem operators_spent {behind : List UInt8} {s : Scan} (more : s.guard = true) (inFront : InFront stop behind s) :
    overwrites s + operatorsAhead stop s.step ≤ operatorsAhead stop s := by
  have before := token_before more inFront
  have long : stop < s.cmd.buffer.length := (List.getElem?_eq_some_iff.mp inFront.2.first).1
  have here : (s.cmd.buffer.take stop).drop s.token =
      s.cmd.byte s.token :: (s.cmd.buffer.take stop).drop (s.token + 1) := by
    rw [List.drop_eq_getElem_cons (by simp; omega), List.getElem_take]
    simp [CmdBuff.byte, List.getElem?_eq_getElem (before.trans long)]
  have later : operatorsAhead stop s.step ≤ ((s.cmd.buffer.take stop).drop (s.token + 1)).countP isOperator :=
    operators_branch s stop (s.token + 1)
  have weight := overwrites_le s
  calc overwrites s + operatorsAhead stop s.step
      ≤ (isOperator (s.cmd.byte s.token)).toNat + ((s.cmd.buffer.take stop).drop (s.token + 1)).countP isOperator :=
        Nat.add_le_add weight later
    _ = operatorsAhead stop s := by
        rw [operatorsAhead, here, List.countP_cons, Nat.add_comm]
        cases isOperator (s.cmd.byte s.token) <;> rfl

/-- A call loses at most one name for every operator in its text. -/
theorem lostNames_le (cmdLine : List UInt8) (cmd : CmdBuff) (heap : Heap) :
    lostNames cmdLine cmd heap ≤ (cString cmdLine).countP isOperator := by
  rw [lostNames]
  split
  · exact Nat.zero_le _
  split
  · exact Nat.zero_le _
  next buffer copy =>
    have room : (copied cmdLine).length + 1 ≤ cmd.buffer.length := by
      by_contra long
      simp [strcpy, long] at copy
    obtain rfl : copied cmdLine ++ 0 :: cmd.buffer.drop ((copied cmdLine).length + 1) = buffer := by
      simpa [strcpy, room] using copy
    have spent := tally_le scanLoop overwrites (operatorsAhead (copied cmdLine).length)
      (InFront (copied cmdLine).length (cmd.buffer.drop ((copied cmdLine).length + 1)))
      (fun s more inFront => inFront_step more inFront) (fun s more inFront => operators_spent more inFront)
      (s := ⟨0, 0, false, { cmd with
        buffer := copied cmdLine ++ 0 :: cmd.buffer.drop ((copied cmdLine).length + 1), argc := 0 }, heap⟩)
      ⟨Nat.zero_le _, List.drop_left' rfl⟩
    refine spent.trans ?_
    simp only [operatorsAhead, List.drop_zero, List.take_left']
    exact (List.dropWhile_sublist isspace).countP_le

theorem names_finish (s : Scan) : names s.finish = names s.cmd := by
  rw [Scan.finish]
  split <;> rfl

/-- What a call of `build_cmd_buff` does to the heap. -/
structure Booked (cmdLine : List UInt8) (cmd : CmdBuff) (heap : Heap) (rc : Int) (built : CmdBuff) (after : Heap) :
    Prop where
  code : rc = ok ∨ rc = warnNoCmds
  blocks : after.liveBlocks = heap.liveBlocks
  strings : after.liveStrings + names cmd = heap.liveStrings + names built + lostNames cmdLine cmd heap
  size : built.buffer.length = cmd.buffer.length

theorem buildCmdBuff_booked (parsed : buildCmdBuff cmdLine cmd heap = some (rc, built, after)) :
    Booked cmdLine cmd heap rc built after := by
  obtain ⟨blocks, size⟩ := buildCmdBuff_keeps (fun after => after.liveBlocks = heap.liveBlocks)
    (fun heap string same => (live_strdup heap string).trans same) parsed rfl
  by_cases blank : copied cmdLine = []
  · rw [buildCmdBuff_blank blank] at parsed
    cases parsed
    exact ⟨.inr rfl, blocks, by simp [lostNames, blank], size⟩
  · simp only [buildCmdBuff, ← copied.eq_1, blank, if_false] at parsed
    split at parsed
    · cases parsed
    next buffer copy =>
      cases parsed
      have books := run_balances scanLoop (fun s => s.heap.liveStrings) (fun s => names s.cmd) overwrites
        (fun s _ => step_strings s) ⟨0, 0, false, { cmd with buffer := buffer, argc := 0 }, heap⟩
      refine ⟨.inl rfl, blocks, ?_, size⟩
      simp only [lostNames, blank, if_false, copy, names_finish]
      exact books

/-! ### Lists of commands -/

/-- The heap holds so many blocks and strings. -/
structure Holds (heap : Heap) (blocks strings : Nat) : Prop where
  blocks : heap.liveBlocks = blocks
  strings : heap.liveStrings = strings

theorem freeCmdBuff_holds {cmd : CmdBuff} (allocated : cmd.buffer ≠ [])
    (holds : Holds heap (blocks + 1) (strings + names cmd)) : Holds (freeCmdBuff cmd heap).2 blocks strings := by
  obtain ⟨heldBlocks, heldStrings⟩ := holds
  refine ⟨?_, ?_⟩
  · rw [live_free allocated, heldBlocks]
    rfl
  · rw [names] at heldStrings
    cases input : cmd.inputFile <;> cases output : cmd.outputFile <;>
      simp [freeCmdBuff, allocated, input, output, Heap.freeBlock, Heap.freeString] at heldStrings ⊢ <;> omega

/-- Every command of a list has its buffer. -/
def Allocated (clist : List CmdBuff) : Prop := ∀ cmd ∈ clist, cmd.buffer ≠ []

theorem freeCmdList_holds {clist : List CmdBuff} (allocated : Allocated clist)
    (holds : Holds heap (blocks + clist.length) (strings + ownedNames clist)) :
    Holds (freeCmdList clist heap).2 blocks strings := by
  rw [freeCmdList]
  induction clist generalizing heap with
  | nil => exact holds
  | cons cmd rest ih =>
    have first : Holds (freeCmdBuff cmd heap).2 (blocks + rest.length) (strings + ownedNames rest) := by
      apply freeCmdBuff_holds (allocated cmd List.mem_cons_self)
      refine ⟨holds.blocks.trans (by simp [Nat.add_assoc]), holds.strings.trans ?_⟩
      simp only [ownedNames, List.map_cons, List.sum_cons]
      omega
    exact ih (fun other member => allocated other (List.mem_cons_of_mem _ member)) first

/-- `alloc_cmd_buff` hands out one block and no string, or nothing at all. -/
theorem alloc_holds (stale : CmdBuff) (holds : Holds heap blocks strings) :
    (∃ cmd after, allocCmdBuff stale heap = (errMemory, cmd, after) ∧ Holds after blocks strings) ∨
      ∃ cmd after, allocCmdBuff stale heap = (ok, cmd, after) ∧ Holds after (blocks + 1) strings ∧
        names cmd = 0 ∧ cmd.buffer ≠ [] := by
  rw [allocCmdBuff, Heap.malloc]
  cases heap.blocks.headD (some []) with
  | none => exact .inl ⟨_, _, rfl, holds.blocks, holds.strings⟩
  | some contents =>
    refine .inr ⟨_, _, rfl, ⟨congrArg (· + 1) holds.blocks, holds.strings⟩, rfl, ?_⟩
    apply List.ne_nil_of_length_pos
    simp only [List.length_take, List.length_append, List.length_replicate]
    have room : 0 < shCmdMax := by decide
    omega

/-- The names that the loop over the tokens loses, `built` commands being on
the list. -/
def lostBuilding : List (List UInt8) → Nat → Heap → Nat
  | [], _, _ => 0
  | cmdToken :: rest, built, heap =>
    if cmdMax ≤ built then 0
    else
      let (rc, cmd, heap) := allocCmdBuff vacant heap
      if rc ≠ ok then 0
      else lostNames cmdToken cmd heap +
        match buildCmdBuff cmdToken cmd heap with
        | none => 0
        | some (rc, cmd, heap) =>
          if rc = warnNoCmds then lostBuilding rest built (freeCmdBuff cmd heap).2
          else lostBuilding rest (built + 1) heap

/-- The names one call of `build_cmd_list` loses. -/
def lostInList (cmdLine : List UInt8) (heap : Heap) : Nat :=
  match heap.strdup (cString cmdLine) with
  | (none, _) => 0
  | (some cmdCopy, heap) => lostBuilding (pipeTokens cmdCopy) 0 heap

/-- What `build_cmd_list` leaves: buffers and names for the commands it
returns, and none at all where it reports an error. -/
structure Listed (rc : Int) (built : List CmdBuff) (after : Heap) (blocks strings : Nat) : Prop where
  holds : Holds after (blocks + built.length) (strings + ownedNames built)
  allocated : Allocated built
  refused : rc ≠ ok → built = []

theorem freed_listed {clist : List CmdBuff} (allocated : Allocated clist)
    (holds : Holds heap (blocks + clist.length) (strings + 1 + ownedNames clist)) :
    Listed rc (freeCmdList clist heap.freeString).1 (freeCmdList clist heap.freeString).2 blocks strings := by
  have copyFreed : Holds heap.freeString (blocks + clist.length) (strings + ownedNames clist) := by
    refine ⟨holds.blocks, ?_⟩
    have strings := holds.strings
    simp only [Heap.freeString]
    omega
  exact ⟨freeCmdList_holds allocated copyFreed, by simp [freeCmdList, Allocated], fun _ => rfl⟩

/-- The loop over the tokens, begun with the copy of the line allocated. -/
theorem buildCmds_listed {tokens : List (List UInt8)} {clist : List CmdBuff} (allocated : Allocated clist)
    (holds : Holds heap (blocks + clist.length) (strings + 1 + ownedNames clist))
    (returns : buildCmds tokens clist heap = some (rc, built, after)) :
    Listed rc built after blocks (strings + lostBuilding tokens clist.length heap) := by
  induction tokens generalizing clist heap strings with
  | nil =>
    have copyFreed : Holds heap.freeString (blocks + clist.length) (strings + ownedNames clist) := by
      refine ⟨holds.blocks, ?_⟩
      have strings := holds.strings
      simp only [Heap.freeString]
      omega
    rw [buildCmds] at returns
    split at returns
    next empty =>
      cases returns
      exact ⟨copyFreed, allocated, fun _ => List.length_eq_zero_iff.mp empty⟩
    next =>
      cases returns
      exact ⟨copyFreed, allocated, fun failed => absurd rfl failed⟩
  | cons token rest ih =>
    rw [buildCmds] at returns
    rw [lostBuilding]
    split at returns
    next full =>
      cases returns
      rw [if_pos full]
      exact freed_listed allocated holds
    next room =>
      rw [if_neg room]
      rcases alloc_holds vacant holds with
        ⟨refused, after, noBlock, still⟩ | ⟨fresh, granted, block, more, noNames, buffer⟩
      · simp only [noBlock, failed_ne_ok, ne_eq, not_false_eq_true, if_true] at returns ⊢
        cases returns
        exact freed_listed allocated still
      simp only [block, ne_eq, not_true_eq_false, if_false] at returns ⊢
      cases parsed : buildCmdBuff token fresh granted with
      | none =>
        rw [parsed] at returns
        cases returns
      | some result =>
        obtain ⟨rc', cmd, heap'⟩ := result
        simp only [parsed] at returns ⊢
        have booked := buildCmdBuff_booked parsed
        have here := booked.strings
        have kept : cmd.buffer ≠ [] := by
          apply List.ne_nil_of_length_pos
          rw [booked.size]
          exact List.length_pos_of_ne_nil buffer
        have grown : Holds heap' (blocks + clist.length + 1)
            (strings + lostNames token fresh granted + 1 + ownedNames clist + names cmd) := by
          refine ⟨booked.blocks.trans more.blocks, ?_⟩
          have before := more.strings
          have books := booked.strings
          omega
        rcases booked.code with rfl | rfl
        · -- the command joins the list
          simp only [ok_ne_warnNoCmds, if_false, if_true] at returns ⊢
          have joined : Holds heap' (blocks + (clist ++ [cmd]).length)
              (strings + lostNames token fresh granted + 1 + ownedNames (clist ++ [cmd])) := by
            refine ⟨grown.blocks.trans (by simp [Nat.add_assoc]), grown.strings.trans ?_⟩
            simp [ownedNames, Nat.add_assoc]
          have all : Allocated (clist ++ [cmd]) := by
            intro other member
            rcases List.mem_append.mp member with earlier | last
            · exact allocated other earlier
            · rw [List.mem_singleton.mp last]
              exact kept
          have later := ih all joined returns
          rw [List.length_append, List.length_singleton, Nat.add_assoc] at later
          exact later
        · -- a blank segment gives its buffer back
          simp only [if_true] at returns ⊢
          have later := ih allocated (freeCmdBuff_holds kept grown) returns
          rw [Nat.add_assoc] at later
          exact later

/-- A call of `build_cmd_list` beside which the caller's list holds nothing. -/
theorem buildCmdList_listed (holds : Holds heap blocks strings)
    (returns : buildCmdList line clist heap = some (rc, built, after))
    (vacated : clist = [] ∨ heap.strings.headD true = true) :
    Listed rc built after blocks (strings + lostInList line heap) := by
  rw [buildCmdList] at returns
  rw [lostInList]
  cases copied : heap.strings.headD true with
  | false =>
    simp only [Heap.strdup, copied, Bool.false_eq_true, if_false] at returns ⊢
    cases returns
    rw [copied] at vacated
    obtain rfl := vacated.resolve_right Bool.false_ne_true
    exact ⟨⟨holds.blocks, holds.strings⟩, by simp [Allocated], fun _ => rfl⟩
  | true =>
    simp only [Heap.strdup, copied, if_true] at returns ⊢
    exact buildCmds_listed (by simp [Allocated]) ⟨holds.blocks, congrArg (· + 1) holds.strings⟩ returns

/-- Between them the segments of a line have the operators of the line. -/
theorem countP_segments (line : List UInt8) :
    ((line.splitOn pipeChar).map (·.countP isOperator)).sum = line.countP isOperator := by
  have between (segments : List (List UInt8)) :
      (segments.map (·.countP isOperator)).sum = (List.intercalate [pipeChar] segments).countP isOperator := by
    induction segments with
    | nil => rfl
    | cons segment rest ih =>
      cases rest with
      | nil => simp
      | cons second others =>
        have passive : isOperator pipeChar = false := by decide
        rw [List.map_cons, List.sum_cons, ih, List.intercalate_cons_cons]
        simp [List.countP_append, passive]
  rw [between, List.intercalate_splitOn]

theorem lostBuilding_le (tokens : List (List UInt8)) (built : Nat) (heap : Heap) :
    lostBuilding tokens built heap ≤ (tokens.map (·.countP isOperator)).sum := by
  induction tokens generalizing built heap with
  | nil => exact Nat.le_refl _
  | cons token rest ih =>
    have here (cmd : CmdBuff) (heap : Heap) : lostNames token cmd heap ≤ token.countP isOperator :=
      (lostNames_le token cmd heap).trans (List.takeWhile_sublist _).countP_le
    rw [lostBuilding, List.map_cons, List.sum_cons]
    split
    · exact Nat.zero_le _
    dsimp only
    split
    · exact Nat.zero_le _
    apply Nat.add_le_add (here _ _)
    split
    · exact Nat.zero_le _
    split
    · exact ih _ _
    · exact ih _ _

theorem lostInList_le (line : List UInt8) (heap : Heap) : lostInList line heap ≤ (cString line).countP isOperator := by
  have dropped (segments : List (List UInt8)) : ((segments.filter (· ≠ [])).map (·.countP isOperator)).sum =
      (segments.map (·.countP isOperator)).sum := by
    induction segments with
    | nil => rfl
    | cons segment rest ih => cases segment <;> simpa using ih
  rw [lostInList]
  split
  · exact Nat.zero_le _
  next cmdCopy after strdup =>
    have copy : cmdCopy = cString line := by
      rw [Heap.strdup] at strdup
      split at strdup <;> cases strdup
      rfl
    calc lostBuilding (pipeTokens cmdCopy) 0 after
        ≤ ((pipeTokens cmdCopy).map (·.countP isOperator)).sum := lostBuilding_le _ _ _
      _ = (cString cmdCopy).countP isOperator := by rw [pipeTokens, dropped, countP_segments]
      _ ≤ (cString line).countP isOperator := copy ▸ (List.takeWhile_sublist _).countP_le

/-! ### The local loop -/

/-- The names that one turn of the loop loses. -/
def lostInTurn (s : Local) (input : Input) : Nat :=
  if pipeChar ∈ input.text then lostInList input.text (s.heapFor input)
  else lostNames input.text s.cmd (s.heapFor input)

def lostInRun : Local → List Input → Nat
  | _, [] => 0
  | s, input :: inputs =>
    match s.turn input with
    | some (.next next) => lostInTurn s input + lostInRun next inputs
    | _ => 0

/-- What follows the loop: `free(cmd_buff); free_cmd_buff(&cmd);`. -/
def close (s : Local) : Heap := (freeCmdBuff s.cmd s.heap.freeBlock).2

/-- The copy of the first line with a pipe is allocated. Where it is not, the
loop executes a list of commands that nothing has initialised. -/
def FirstCopied : List Input → Prop
  | [] => True
  | input :: inputs => if pipeChar ∈ input.text then input.strings.headD true = true else FirstCopied inputs

/-- The loop stands at its prompt: it owns its two buffers, and of the list
only what was there before the loop began. -/
structure Prompting (s : Local) (history : List Input) (blocks strings : Nat) : Prop where
  holds : Holds s.heap (blocks + 2) (strings + names s.cmd)
  allocated : s.cmd.buffer ≠ []
  vacated : s.cmdList = [] ∨ FirstCopied history

/-- The turn of a line without a pipe. -/
theorem single_turn {s next : Local} (prompting : Prompting s (input :: inputs) blocks strings)
    (single : pipeChar ∉ input.text) (turn : s.turn input = some (.next next)) :
    Prompting next inputs blocks (strings + lostInTurn s input) := by
  have vacated : s.cmdList = [] ∨ FirstCopied inputs := by
    simpa only [FirstCopied, single, if_false] using prompting.vacated
  have holds := prompting.holds
  rw [lostInTurn, if_neg single]
  simp only [Local.turn] at turn
  split at turn
  next empty =>
    cases turn
    have nothing : lostNames input.text s.cmd (s.heapFor input) = 0 := by
      simp [lostNames, copied, empty, cString]
    rw [nothing]
    exact ⟨⟨holds.blocks, holds.strings⟩, prompting.allocated, vacated⟩
  split at turn
  · cases turn
  next rc cmd heap parsed =>
    have booked := buildCmdBuff_booked parsed
    have books := booked.strings
    have before := holds.strings
    have after : Prompting ⟨cmd, s.cmdList, heap⟩ inputs blocks
        (strings + lostNames input.text s.cmd (s.heapFor input)) := by
      refine ⟨⟨booked.blocks.trans holds.blocks, ?_⟩, ?_, vacated⟩
      · simp only [Local.heapFor] at books ⊢
        omega
      · apply List.ne_nil_of_length_pos
        rw [booked.size]
        exact List.length_pos_of_ne_nil prompting.allocated
    split at turn
    · cases turn
      exact after
    split at turn
    · cases turn
    · cases turn
      exact after

/-- The turn of a line with a pipe gives back what `build_cmd_list` allocated. -/
theorem piped_turn {s next : Local} (prompting : Prompting s (input :: inputs) blocks strings)
    (piped : pipeChar ∈ input.text) (turn : s.turn input = some (.next next)) :
    Prompting next inputs blocks (strings + lostInTurn s input) ∧ next.cmdList = [] := by
  have copied : s.cmdList = [] ∨ input.strings.headD true = true := by
    simpa only [FirstCopied, piped, if_true] using prompting.vacated
  have holds : Holds (s.heapFor input) (blocks + 2) (strings + names s.cmd) :=
    ⟨prompting.holds.blocks, prompting.holds.strings⟩
  have nonempty : input.text ≠ [] := List.ne_nil_of_mem piped
  rw [lostInTurn, if_pos piped]
  simp only [Local.turn, nonempty, piped, if_true, if_false] at turn
  split at turn
  · cases turn
  next rc cmdList heap returns =>
    have listed := buildCmdList_listed holds returns copied
    have vacant : Prompting ⟨s.cmd, [], (freeCmdList cmdList heap).2⟩ inputs blocks
        (strings + lostInList input.text (s.heapFor input)) := by
      refine ⟨?_, prompting.allocated, .inl rfl⟩
      have freed := freeCmdList_holds listed.allocated listed.holds
      exact ⟨freed.blocks, freed.strings.trans (Nat.add_right_comm _ _ _)⟩
    split at turn
    next refused =>
      cases turn
      obtain rfl : cmdList = [] := listed.refused (by rcases refused with rfl | rfl <;> decide)
      exact ⟨vacant, rfl⟩
    split at turn
    · cases turn
    · cases turn
      exact ⟨vacant, rfl⟩

theorem lostInRun_next {s next : Local} (turn : s.turn input = some (.next next)) (inputs : List Input) :
    lostInRun s (input :: inputs) = lostInTurn s input + lostInRun next inputs := by
  simp only [lostInRun, turn]

theorem run_prompting {s last : Local} {history : List Input} (prompting : Prompting s history blocks strings)
    (run : s.run history = some last) : Prompting last [] blocks (strings + lostInRun s history) := by
  induction history generalizing s strings with
  | nil =>
    cases run
    exact prompting
  | cons input inputs ih =>
    rw [Local.run] at run
    split at run
    next next turn =>
      have after : Prompting next inputs blocks (strings + lostInTurn s input) := by
        by_cases piped : pipeChar ∈ input.text
        · exact (piped_turn prompting piped turn).1
        · exact single_turn prompting piped turn
      rw [lostInRun_next turn, ← Nat.add_assoc]
      exact ih after run
    next => cases run

/-- A run loses at most one name for every operator typed. -/
theorem lostInRun_le (s : Local) (history : List Input) :
    lostInRun s history ≤ (history.map (·.text.countP isOperator)).sum := by
  induction history generalizing s with
  | nil => exact Nat.le_refl _
  | cons input inputs ih =>
    have string : (cString input.text).countP isOperator ≤ input.text.countP isOperator :=
      (List.takeWhile_sublist _).countP_le
    have here : lostInTurn s input ≤ input.text.countP isOperator := by
      rw [lostInTurn]
      split
      · exact (lostInList_le _ _).trans string
      · exact (lostNames_le _ _ _).trans string
    rw [lostInRun, List.map_cons, List.sum_cons]
    split
    · exact Nat.add_le_add here (ih _)
    · exact Nat.zero_le _

theorem start_prompting {cmd : CmdBuff} {cmdList : List CmdBuff} {heap : Heap} {first : Local} {history : List Input}
    (start : localStart cmd cmdList heap = .ok first) (initialised : cmdList = [] ∨ FirstCopied history) :
    Prompting first history heap.liveBlocks heap.liveStrings := by
  rw [localStart] at start
  split at start
  · cases start
  next line granted malloc =>
    have one : Holds granted (heap.liveBlocks + 1) heap.liveStrings := by
      rw [Heap.malloc] at malloc
      split at malloc <;> cases malloc
      exact ⟨rfl, rfl⟩
    rcases alloc_holds cmd one with ⟨_, _, refused, -⟩ | ⟨fresh, after, block, two, noNames, allocated⟩
    · simp [refused, failed_ne_ok] at start
    · simp only [block, ne_eq, not_true_eq_false, if_false] at start
      cases start
      exact ⟨⟨two.blocks, two.strings.trans (by simp [noNames])⟩, allocated, initialised⟩

/-- In every run the loop owns, whenever it prompts, its two buffers and the
names of its one command buffer besides the names it has lost; at the end of
the input it gives back everything but these, at most one for every operator
typed. -/
theorem loop_frees_all_but_overwritten {cmd : CmdBuff} {cmdList : List CmdBuff} {heap : Heap} {first last : Local}
    {history : List Input} (start : localStart cmd cmdList heap = .ok first)
    (initialised : cmdList = [] ∨ FirstCopied history) (run : first.run history = some last) :
    Holds last.heap (heap.liveBlocks + 2) (heap.liveStrings + names last.cmd + lostInRun first history) ∧
      Holds (close last) heap.liveBlocks (heap.liveStrings + lostInRun first history) ∧
      lostInRun first history ≤ (history.map (·.text.countP isOperator)).sum := by
  obtain ⟨holds, allocated, -⟩ := run_prompting (start_prompting start initialised) run
  have closed : Holds last.heap.freeBlock (heap.liveBlocks + 1)
      (heap.liveStrings + lostInRun first history + names last.cmd) :=
    ⟨by simp [Heap.freeBlock, holds.blocks], holds.strings⟩
  exact ⟨⟨holds.blocks, holds.strings.trans (Nat.add_right_comm _ _ _)⟩, freeCmdBuff_holds allocated closed,
    lostInRun_le first history⟩

/-- The name of the first redirection is lost when the second is stored. -/
theorem second_redirection_loses_name : ∃ last : Local,
    prompt.run [typed "cat>a\n" (by decide), typed "cat|wc\n" (by decide), typed "cat>b\n" (by decide)] = some last ∧
      Holds last.heap 2 2 ∧ Holds (close last) 0 1 := by
  obtain ⟨last, run, counts⟩ := Option.map_eq_some_iff.mp
    (show (prompt.run [typed "cat>a\n" (by decide), typed "cat|wc\n" (by decide), typed "cat>b\n" (by decide)]).map
      (fun last => names last.cmd) = some 1 by decide +kernel)
  have lost : lostInRun prompt
      [typed "cat>a\n" (by decide), typed "cat|wc\n" (by decide), typed "cat>b\n" (by decide)] = 1 := by decide +kernel
  have start : localStart vacant [] ⟨[], [], 0, 0⟩ = .ok prompt := by decide +kernel
  have owned := loop_frees_all_but_overwritten start (.inl rfl) run
  rw [lost, counts] at owned
  exact ⟨last, run, owned.1, owned.2.1⟩

/-! ### A session of the server -/

/-- The turn on a heap that holds what the turns before it left. -/
def onHeap (e : Turn) (heap : Heap) : Turn :=
  { e with heap := { e.heap with liveBlocks := heap.liveBlocks, liveStrings := heap.liveStrings } }

/-- The heap behind a turn of `exec_client_requests`: whatever comes of the
request, the list that was built for it is freed. -/
def answeredHeap (e : Turn) : Heap :=
  match e.recv with
  | none | some [] => e.heap
  | some ioBuff =>
    if rdshCommBuffSz - 1 ≤ ioBuff.length then e.heap
    else match buildCmdList (cString ioBuff) [] e.heap with
    | none => e.heap
    | some (rc, cmdList, heap) => if rc ≠ ok then heap else (freeCmdList cmdList heap).2

/-- The heap after some turns, and how the session has ended, if it has. -/
def sessionHeap : Heap → List Turn → Heap × Option Next
  | heap, [] => (heap, none)
  | heap, e :: rest =>
    let e := onHeap e heap
    match (clientRequest e).next with
    | .again => sessionHeap (answeredHeap e) rest
    | .leave rc => ((answeredHeap e).freeBlock, some (.leave rc))
    | .overrun => (answeredHeap e, some .overrun)

def lostInAnswer (e : Turn) : Nat :=
  match e.recv with
  | none | some [] => 0
  | some ioBuff => if rdshCommBuffSz - 1 ≤ ioBuff.length then 0 else lostInList (cString ioBuff) e.heap

def lostInSession : Heap → List Turn → Nat
  | _, [] => 0
  | heap, e :: rest =>
    let e := onHeap e heap
    lostInAnswer e + if (clientRequest e).next = .again then lostInSession (answeredHeap e) rest else 0

theorem answered_holds {e : Turn} (holds : Holds e.heap blocks strings) (inside : (clientRequest e).next ≠ .overrun) :
    Holds (answeredHeap e) blocks (strings + lostInAnswer e) := by
  rw [answeredHeap, lostInAnswer]
  split
  · exact holds
  · exact holds
  next ioBuff nonempty received =>
    split
    · exact holds
    next short =>
      split
      next overrun =>
        refine absurd ?_ inside
        cases ioBuff with
        | nil => exact absurd rfl nonempty
        | cons byte rest => simp only [clientRequest, received, short, overrun, if_false]
      next rc cmdList heap returns =>
        have listed := buildCmdList_listed holds returns (.inl rfl)
        split
        next refused =>
          have vacant := listed.holds
          rw [listed.refused refused] at vacant
          exact vacant
        · exact freeCmdList_holds listed.allocated listed.holds

/-- Between two requests a session owns its network buffer, and when it returns
it has given back everything but the names it has lost. -/
theorem session_holds (turns : List Turn) {opened : Heap}
    (holds : Holds opened (blocks + 1) strings) :
    ((sessionHeap opened turns).2 = none →
      Holds (sessionHeap opened turns).1 (blocks + 1) (strings + lostInSession opened turns)) ∧
    ∀ rc, (sessionHeap opened turns).2 = some (.leave rc) →
      Holds (sessionHeap opened turns).1 blocks (strings + lostInSession opened turns) := by
  induction turns generalizing opened strings with
  | nil =>
    refine ⟨fun _ => holds, ?_⟩
    intro rc ended
    cases ended
  | cons e rest ih =>
    have before : Holds (onHeap e opened).heap (blocks + 1) strings := ⟨holds.blocks, holds.strings⟩
    have answered := answered_holds before
    simp only [sessionHeap, lostInSession]
    cases next : (clientRequest (onHeap e opened)).next with
    | again =>
      rw [if_pos rfl, ← Nat.add_assoc]
      exact ih (answered (by rw [next]; decide))
    | leave rc =>
      obtain ⟨blocks, strings⟩ := answered (by rw [next]; exact Next.noConfusion)
      constructor
      · intro going
        cases going
      · exact fun _ _ => ⟨by simp [Heap.freeBlock, blocks], strings⟩
    | overrun =>
      constructor
      · intro going
        cases going
      · intro rc ended
        cases ended

/-- One client: its session, or its refusal when the network buffer is not
allocated. -/
def clientHeap (heap : Heap) (client : Bool × List Turn) : Heap × Option Next :=
  if client.1 then sessionHeap { heap with liveBlocks := heap.liveBlocks + 1 } client.2
  else (heap, some (.leave errRdshServer))

def lostInClient (heap : Heap) (client : Bool × List Turn) : Nat :=
  if client.1 then lostInSession { heap with liveBlocks := heap.liveBlocks + 1 } client.2 else 0

/-- A server that has served these clients one after another. -/
def servedHeap (heap : Heap) (clients : List (Bool × List Turn)) : Heap :=
  clients.foldl (fun heap client => (clientHeap heap client).1) heap

def lostServing : Heap → List (Bool × List Turn) → Nat
  | _, [] => 0
  | heap, client :: clients => lostInClient heap client + lostServing (clientHeap heap client).1 clients

/-- `exec_client_requests` has returned for every one of them. -/
def Returned : Heap → List (Bool × List Turn) → Prop
  | _, [] => True
  | heap, client :: clients =>
    (∃ rc, (clientHeap heap client).2 = some (.leave rc)) ∧ Returned (clientHeap heap client).1 clients

theorem client_holds {client : Bool × List Turn} (holds : Holds heap blocks strings)
    (returned : ∃ rc, (clientHeap heap client).2 = some (.leave rc)) :
    Holds (clientHeap heap client).1 blocks (strings + lostInClient heap client) := by
  obtain ⟨allocated, turns⟩ := client
  obtain ⟨rc, returned⟩ := returned
  cases allocated with
  | false => exact holds
  | true =>
    have opened : Holds { heap with liveBlocks := heap.liveBlocks + 1 } (blocks + 1) strings :=
      ⟨congrArg (· + 1) holds.blocks, holds.strings⟩
    exact (session_holds turns opened).2 rc returned

theorem served_holds {clients : List (Bool × List Turn)} (holds : Holds heap blocks strings)
    (returned : Returned heap clients) :
    Holds (servedHeap heap clients) blocks (strings + lostServing heap clients) := by
  induction clients generalizing heap strings with
  | nil => exact holds
  | cons client clients ih =>
    rw [lostServing, ← Nat.add_assoc]
    exact ih (client_holds holds returned.1) returned.2

/-- The operators in what some clients have sent. -/
def operatorsSent (turns : List Turn) : Nat := (turns.map fun e => (e.recv.getD []).countP isOperator).sum

theorem lostInSession_le (turns : List Turn) (heap : Heap) : lostInSession heap turns ≤ operatorsSent turns := by
  induction turns generalizing heap with
  | nil => exact Nat.le_refl _
  | cons e rest ih =>
    have here : lostInAnswer (onHeap e heap) ≤ (e.recv.getD []).countP isOperator := by
      simp only [lostInAnswer, onHeap]
      split
      · exact Nat.zero_le _
      · exact Nat.zero_le _
      next ioBuff _ received =>
        split
        · exact Nat.zero_le _
        · rw [received, Option.getD_some]
          exact (lostInList_le _ _).trans
            (((List.takeWhile_sublist _).trans (List.takeWhile_sublist _)).countP_le)
    rw [lostInSession, operatorsSent, List.map_cons, List.sum_cons]
    apply Nat.add_le_add here
    split
    · exact ih _
    · exact Nat.zero_le _

theorem lostServing_le (clients : List (Bool × List Turn)) (heap : Heap) :
    lostServing heap clients ≤ (clients.map (operatorsSent ·.2)).sum := by
  induction clients generalizing heap with
  | nil => exact Nat.le_refl _
  | cons client clients ih =>
    rw [lostServing, List.map_cons, List.sum_cons]
    refine Nat.add_le_add ?_ (ih _)
    rw [lostInClient]
    split
    · exact lostInSession_le _ _
    · exact Nat.zero_le _

/-- However many clients it has served, a server owns no more than before but
the names it has lost, at most one for every operator sent to it, and its
network buffer while the next one is served. -/
theorem server_frees_all_but_overwritten (heap : Heap) (clients : List (Bool × List Turn)) (turns : List Turn)
    (returned : Returned heap clients) :
    Holds (servedHeap heap clients) heap.liveBlocks (heap.liveStrings + lostServing heap clients) ∧
      lostServing heap clients ≤ (clients.map (operatorsSent ·.2)).sum ∧
      ((clientHeap (servedHeap heap clients) (true, turns)).2 = none →
        Holds (clientHeap (servedHeap heap clients) (true, turns)).1 (heap.liveBlocks + 1)
          (heap.liveStrings + lostServing heap clients + lostInClient (servedHeap heap clients) (true, turns))) := by
  have served : Holds (servedHeap heap clients) heap.liveBlocks (heap.liveStrings + lostServing heap clients) :=
    served_holds ⟨rfl, rfl⟩ returned
  have opened : Holds { servedHeap heap clients with liveBlocks := (servedHeap heap clients).liveBlocks + 1 }
      (heap.liveBlocks + 1) (heap.liveStrings + lostServing heap clients) :=
    ⟨congrArg (· + 1) served.blocks, served.strings⟩
  exact ⟨served, lostServing_le clients heap, fun waiting => (session_holds turns opened).1 waiting⟩

/-- A client that appends to a file and leaves costs the server one name. -/
theorem appending_client_costs_a_name :
    let appending := [quietTurn (text "cat>>a" ++ [0]) (by decide), quietTurn (text "exit" ++ [0]) (by decide)]
    Holds (servedHeap ⟨[], [], 0, 0⟩ [(true, appending), (true, appending)]) 0 2 := by
  intro appending
  have lost : lostServing ⟨[], [], 0, 0⟩ [(true, appending), (true, appending)] = 2 := by decide +kernel
  have returned : Returned ⟨[], [], 0, 0⟩ [(true, appending), (true, appending)] :=
    ⟨⟨ok, by decide +kernel⟩, ⟨ok, by decide +kernel⟩, trivial⟩
  have served := (server_frees_all_but_overwritten ⟨[], [], 0, 0⟩ _ [] returned).1
  rw [lost] at served
  exact served

end SysProg.ShellMemory
