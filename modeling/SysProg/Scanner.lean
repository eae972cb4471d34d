import SysProg.Dshlib

/-! The scanner of `build_cmd_buff`, one turn at a time. A state is described
by the text already passed, the text ahead, and the arguments cut so far; each
lemma says what one kind of character turns it into. -/
namespace SysProg.Scanner
open CString WhileLoop Dshlib

/-! ### One turn -/

/-- Characters that mean nothing to the scanner where they stand. -/
def Passive (inQuotes : Bool) (c : UInt8) : Prop :=
  c ≠ 0 ∧ c ≠ quoteChar ∧ (inQuotes = false → isspace c = false ∧ c ≠ lessChar ∧ c ≠ greaterChar)

instance (inQuotes : Bool) (c : UInt8) : Decidable (Passive inQuotes c) := by
  unfold Passive; infer_instance

theorem space_active (space : isspace c = true) : c ≠ 0 ∧ c ≠ quoteChar := by
  constructor <;> rintro rfl <;> exact absurd space (by decide)

section Branches
variable {s : Scan}

theorem branch_passive (passive : Passive s.inQuotes (s.cmd.byte s.token)) : s.branch = s := by
  obtain ⟨-, notQuote, unquoted⟩ := passive
  cases inQuotes : s.inQuotes with
  | true => simp [Scan.branch, notQuote, inQuotes]
  | false =>
    obtain ⟨notSpace, notLess, notGreater⟩ := unquoted inQuotes
    simp [Scan.branch, notQuote, notSpace, notLess, notGreater]

theorem branch_open (here : s.cmd.byte s.token = quoteChar) (outside : s.inQuotes = false) :
    s.branch = { s with start := s.token + 1, inQuotes := true } := by
  simp [Scan.branch, here, outside]

theorem branch_close (here : s.cmd.byte s.token = quoteChar) (inside : s.inQuotes = true) :
    s.branch = { s.cut with inQuotes := false, start := s.token + 1 } := by
  simp [Scan.branch, here, inside]

theorem branch_space (here : isspace (s.cmd.byte s.token) = true) (outside : s.inQuotes = false) :
    s.branch = { (if s.start ≠ s.token then s.cut else s) with start := s.token + 1 } := by
  have notQuote := (space_active here).2
  simp only [Scan.branch, notQuote, here, outside, if_false, if_true, not_false_eq_true, and_self, Bool.false_eq_true]
  split <;> rfl

theorem branch_less (here : s.cmd.byte s.token = lessChar) (outside : s.inQuotes = false) :
    s.branch = { (s.cut.operand (s.token + 1)).2 with
      cmd := { (s.cut.operand (s.token + 1)).2.cmd with inputFile := (s.cut.operand (s.token + 1)).1 } } := by
  have other : lessChar ≠ quoteChar ∧ isspace lessChar = false := by decide
  simp [Scan.branch, here, outside, other]

/-- Where the operand of `>` begins, and whether it is appended to. -/
def Scan.afterGreater (s : Scan) : Nat × Bool :=
  if s.cut.cmd.byte (s.token + 1) = greaterChar then (s.token + 2, true)
  else (s.token + 1, s.cmd.appendOutput)

theorem branch_greater (here : s.cmd.byte s.token = greaterChar) (outside : s.inQuotes = false) :
    s.branch = { (s.cut.operand (Scan.afterGreater s).1).2 with
      cmd := { (s.cut.operand (Scan.afterGreater s).1).2.cmd with
        outputFile := (s.cut.operand (Scan.afterGreater s).1).1, appendOutput := (Scan.afterGreater s).2 } } := by
  have other : greaterChar ≠ quoteChar ∧ isspace greaterChar = false ∧ greaterChar ≠ lessChar := by decide
  have flag : s.cut.cmd.appendOutput = s.cmd.appendOutput := rfl
  have place : s.cut.token = s.token := rfl
  simp only [Scan.branch, here, outside, other, Scan.afterGreater, flag, place]
  simp

end Branches

/-! ### Runs over a text -/

/-- The command buffer after some arguments were cut from a buffer. -/
def holding (cmd : CmdBuff) (args : List Nat) (buffer : List UInt8) : CmdBuff :=
  { cmd with argc := args.length, argv := args.map some ++ cmd.argv.drop args.length, buffer := buffer }

/-- The scanner between the text `done` and the text `rest`. -/
def scanning (cmd : CmdBuff) (args : List Nat) (done rest : List UInt8) (start : Nat) (inQuotes : Bool)
    (heap : Heap) : Scan :=
  ⟨done.length, start, inQuotes, holding cmd args (done ++ rest), heap⟩

section Turns
variable {cmd : CmdBuff} {args : List Nat} {done rest : List UInt8} {start : Nat} {inQuotes : Bool} {heap : Heap}
  {c : UInt8}

@[simp] theorem argc_holding (buffer : List UInt8) : (holding cmd args buffer).argc = args.length := rfl

theorem byte_ahead : (holding cmd args (done ++ c :: rest)).byte done.length = c := by
  simp [holding, CmdBuff.byte]

theorem terminate_ahead :
    (holding cmd args (done ++ c :: rest)).terminate done.length = holding cmd args (done ++ [0] ++ rest) := by
  simp [holding, CmdBuff.terminate]

theorem push_holding (wide : cmd.argv.length = cmdArgvMax) (room : args.length < cmdArgvMax - 1) (buffer : List UInt8) :
    (holding cmd args buffer).push start = holding cmd (args ++ [start]) buffer := by
  have inside : args.length < cmd.argv.length := by omega
  have set : (args.map some ++ cmd.argv.drop args.length).set args.length (some start) =
      (args ++ [start]).map some ++ cmd.argv.drop (args.length + 1) := by
    rw [List.set_append_right _ _ (by simp), List.length_map, Nat.sub_self, List.drop_eq_getElem_cons inside,
      List.set_cons_zero, List.map_append, List.append_assoc]
    rfl
  simp [CmdBuff.push, holding, set]

theorem goes_on (nonzero : c ≠ 0) (room : args.length < cmdArgvMax - 1) :
    scanLoop.guard (scanning cmd args done (c :: rest) start inQuotes heap) = true := by
  simpa [scanLoop, Scan.guard, scanning, byte_ahead, nonzero] using room

/-- The loop stops in front of the terminator. -/
theorem run_terminator :
    scanLoop.run (scanning cmd args done (0 :: rest) start inQuotes heap) =
      scanning cmd args done (0 :: rest) start inQuotes heap :=
  run_done _ (by simp [scanLoop, Scan.guard, scanning, byte_ahead])

/-- The loop stops when the argument vector is full. -/
theorem run_full (full : cmdArgvMax - 1 ≤ args.length) :
    scanLoop.run (scanning cmd args done rest start inQuotes heap) =
      scanning cmd args done rest start inQuotes heap :=
  run_done _ (decide_eq_false fun more => Nat.not_lt.mpr full more.2)

theorem turn_passive (passive : Passive inQuotes c) (room : args.length < cmdArgvMax - 1) :
    scanLoop.run (scanning cmd args done (c :: rest) start inQuotes heap) =
      scanLoop.run (scanning cmd args (done ++ [c]) rest start inQuotes heap) := by
  have here : (holding cmd args (done ++ c :: rest)).byte done.length = c := byte_ahead
  have branch : Scan.branch (scanning cmd args done (c :: rest) start inQuotes heap) = _ :=
    branch_passive (here.symm ▸ passive)
  rw [run_turn _ (goes_on passive.1 room)]
  simp only [scanLoop, Scan.step, branch]
  simp [scanning]

theorem turn_open (room : args.length < cmdArgvMax - 1) :
    scanLoop.run (scanning cmd args done (quoteChar :: rest) start false heap) =
      scanLoop.run (scanning cmd args (done ++ [quoteChar]) rest (done.length + 1) true heap) := by
  have branch : Scan.branch (scanning cmd args done (quoteChar :: rest) start false heap) = _ :=
    branch_open byte_ahead rfl
  rw [run_turn _ (goes_on (by decide) room)]
  simp only [scanLoop, Scan.step, branch]
  simp [scanning]

theorem cut_scanning (wide : cmd.argv.length = cmdArgvMax) (room : args.length < cmdArgvMax - 1) :
    Scan.cut (scanning cmd args done (c :: rest) start inQuotes heap) =
      ⟨done.length, start, inQuotes, holding cmd (args ++ [start]) (done ++ [0] ++ rest), heap⟩ := by
  simp only [Scan.cut, scanning, terminate_ahead, push_holding wide room]

theorem turn_close (wide : cmd.argv.length = cmdArgvMax) (room : args.length < cmdArgvMax - 1) :
    scanLoop.run (scanning cmd args done (quoteChar :: rest) start true heap) =
      scanLoop.run (scanning cmd (args ++ [start]) (done ++ [0]) rest (done.length + 1) false heap) := by
  have branch : Scan.branch (scanning cmd args done (quoteChar :: rest) start true heap) = _ :=
    branch_close byte_ahead rfl
  rw [run_turn _ (goes_on (by decide) room)]
  simp only [scanLoop, Scan.step, branch, cut_scanning wide room]
  simp [scanning]

/-- White space right behind the last argument or operand is skipped. -/
theorem turn_gap (space : isspace c = true) (room : args.length < cmdArgvMax - 1) :
    scanLoop.run (scanning cmd args done (c :: rest) done.length false heap) =
      scanLoop.run (scanning cmd args (done ++ [c]) rest (done.length + 1) false heap) := by
  have here : (holding cmd args (done ++ c :: rest)).byte done.length = c := byte_ahead
  have branch : Scan.branch (scanning cmd args done (c :: rest) done.length false heap) = _ :=
    branch_space (here.symm ▸ space) rfl
  rw [run_turn _ (goes_on (space_active space).1 room)]
  simp only [scanLoop, Scan.step, branch]
  simp [scanning]

/-- White space behind anything else ends an argument. -/
theorem turn_space (space : isspace c = true) (moved : start ≠ done.length)
    (wide : cmd.argv.length = cmdArgvMax) (room : args.length < cmdArgvMax - 1) :
    scanLoop.run (scanning cmd args done (c :: rest) start false heap) =
      scanLoop.run (scanning cmd (args ++ [start]) (done ++ [0]) rest (done.length + 1) false heap) := by
  have here : (holding cmd args (done ++ c :: rest)).byte done.length = c := byte_ahead
  have branch : Scan.branch (scanning cmd args done (c :: rest) start false heap) = _ :=
    branch_space (here.symm ▸ space) rfl
  have apart : (scanning cmd args done (c :: rest) start false heap).start ≠
      (scanning cmd args done (c :: rest) start false heap).token := moved
  rw [run_turn _ (goes_on (space_active space).1 room)]
  simp only [scanLoop, Scan.step, branch, if_pos apart, cut_scanning wide room]
  simp [scanning]

theorem run_passive {bytes : List UInt8} (passive : ∀ c ∈ bytes, Passive inQuotes c)
    (room : args.length < cmdArgvMax - 1) :
    scanLoop.run (scanning cmd args done (bytes ++ rest) start inQuotes heap) =
      scanLoop.run (scanning cmd args (done ++ bytes) rest start inQuotes heap) := by
  induction bytes generalizing done with
  | nil => simp
  | cons c bytes ih =>
    have turn : scanLoop.run (scanning cmd args done (c :: (bytes ++ rest)) start inQuotes heap) = _ :=
      turn_passive (passive c (by simp)) room
    rw [List.cons_append, turn, ih (fun c member => passive c (by simp [member]))]
    simp

theorem run_gap {spaces : List UInt8} (space : ∀ c ∈ spaces, isspace c = true)
    (room : args.length < cmdArgvMax - 1) :
    scanLoop.run (scanning cmd args done (spaces ++ rest) done.length false heap) =
      scanLoop.run (scanning cmd args (done ++ spaces) rest (done ++ spaces).length false heap) := by
  induction spaces generalizing done with
  | nil => simp
  | cons c spaces ih =>
    have step : scanLoop.run (scanning cmd args (done ++ [c]) (spaces ++ rest) (done ++ [c]).length false heap) = _ :=
      ih fun c member => space c (by simp [member])
    rw [List.length_append, List.length_singleton] at step
    rw [List.cons_append, turn_gap (space c (by simp)) room, step]
    simp

/-- `build_cmd_buff` scans what its `strcpy` has copied. -/
theorem buildCmdBuff_scans {cmdLine copied : List UInt8} (skipped : (cString cmdLine).dropWhile isspace = copied)
    (nonblank : copied ≠ []) (short : copied.length < cmd.buffer.length) (heap : Heap) :
    buildCmdBuff cmdLine cmd heap =
      some (ok,
        (scanLoop.run (scanning cmd [] [] (copied ++ 0 :: cmd.buffer.drop (copied.length + 1)) 0 false heap)).finish,
        (scanLoop.run
          (scanning cmd [] [] (copied ++ 0 :: cmd.buffer.drop (copied.length + 1)) 0 false heap)).heap) := by
  have fits : copied.length + 1 ≤ cmd.buffer.length := short
  simp only [buildCmdBuff, skipped, nonblank, if_false, strcpy, if_pos fits]
  rfl

/-! ### Redirections -/

inductive Operator where
  | input
  | output
  | append
  deriving DecidableEq

/-- What stands behind the operator's first character. -/
def Operator.tail : Operator → List UInt8
  | .append => [greaterChar]
  | _ => []

def Operator.render : Operator → List UInt8
  | .input => [lessChar]
  | .output => [greaterChar]
  | .append => [greaterChar, greaterChar]

/-- The fields the scanner sets for an operator. -/
def Operator.store (file : Option (List UInt8)) (cmd : CmdBuff) : Operator → CmdBuff
  | .input => { cmd with inputFile := file }
  | .output => { cmd with outputFile := file }
  | .append => { cmd with outputFile := file, appendOutput := true }

/-- The text behind an operator: white space, a file name, and the character
that ends the name. At the end of the text the name can be missing. -/
structure IsOperand (gap file : List UInt8) (stop : UInt8) : Prop where
  spaces : ∀ c ∈ gap, isspace c = true
  name : ∀ c ∈ file, isspace c = false ∧ c ≠ 0
  stops : stop = 0 ∨ isspace stop = true ∧ file ≠ []

variable {gap file : List UInt8} {stop : UInt8}

theorem takeWhile_run {p : UInt8 → Bool} {first : List UInt8} (all : ∀ c ∈ first, p c = true)
    (ends : ∀ c ∈ rest.head?, p c = false) : (first ++ rest).takeWhile p = first := by
  rw [List.takeWhile_append_of_pos all]
  cases rest with
  | nil => simp
  | cons c rest => simp [ends c (by simp)]

theorem skipSpaces_operand (operand : IsOperand gap file stop) :
    (holding cmd args (done ++ (gap ++ (file ++ stop :: rest)))).skipSpaces done.length =
      done.length + gap.length := by
  have run : (gap ++ (file ++ stop :: rest)).takeWhile isspace = gap := by
    refine takeWhile_run operand.spaces ?_
    cases file with
    | nil =>
      obtain ⟨rfl⟩ : stop = 0 := operand.stops.resolve_right fun space => space.2 rfl
      simp [isspace]
    | cons first name => simpa using (operand.name first (by simp)).1
  simp only [CmdBuff.skipSpaces, holding, List.drop_left, run]

theorem skipName_operand (operand : IsOperand gap file stop) :
    (holding cmd args (done ++ (file ++ stop :: rest))).skipName done.length = done.length + file.length := by
  have run : (file ++ stop :: rest).takeWhile (fun c => !isspace c && c ≠ 0) = file := by
    refine takeWhile_run (fun c member => ?_) ?_
    · simp [operand.name c member]
    · rcases operand.stops with rfl | ⟨space, -⟩
      · simp
      · simp [space]
  simp only [CmdBuff.skipName, holding, List.drop_left, run]

/-- The operand is copied, and the scanner's `start` moves behind it. -/
theorem operand_ahead (operand : IsOperand gap file stop) (cmd : CmdBuff) (args : List Nat) (done rest : List UInt8)
    (heap : Heap) (token start : Nat) :
    Scan.operand ⟨token, start, false, holding cmd args (done ++ (gap ++ (file ++ stop :: rest))), heap⟩ done.length =
      ((heap.strdup file).1, ⟨token, done.length + gap.length + file.length + 1, false,
        holding cmd args (done ++ (gap ++ (file ++ 0 :: rest))), (heap.strdup file).2⟩) := by
  have fileEnd : (holding cmd args (done ++ (gap ++ (file ++ stop :: rest)))).skipName (done.length + gap.length) =
      done.length + gap.length + file.length := by
    have name : (holding cmd args (done ++ gap ++ (file ++ stop :: rest))).skipName (done ++ gap).length = _ :=
      skipName_operand operand
    simpa using name
  have terminated : (holding cmd args (done ++ (gap ++ (file ++ stop :: rest)))).terminate
      (done.length + gap.length + file.length) = holding cmd args (done ++ (gap ++ (file ++ 0 :: rest))) := by
    have set : (holding cmd args (done ++ gap ++ file ++ stop :: rest)).terminate (done ++ gap ++ file).length = _ :=
      terminate_ahead
    simpa [Nat.add_assoc] using set
  have read : (holding cmd args (done ++ (gap ++ (file ++ 0 :: rest)))).string (done.length + gap.length) = file := by
    have free : NulFree file := fun c member => (operand.name c member).2
    have dropped : (done ++ (gap ++ (file ++ 0 :: rest))).drop (done.length + gap.length) = file ++ 0 :: rest := by
      simp [List.drop_append]
    simp only [CmdBuff.string, holding, dropped, cString_terminated free]
  simp only [Scan.operand, skipSpaces_operand operand, fileEnd, terminated, read]

/-- The character behind a single `>` is no second one. -/
def Operator.Single (operator : Operator) (text : List UInt8) : Prop :=
  operator = .output → text.head? ≠ some greaterChar

theorem afterGreater_ahead {first : UInt8} {more : List UInt8} (wide : cmd.argv.length = cmdArgvMax)
    (room : args.length < cmdArgvMax - 1) :
    Scan.afterGreater (scanning cmd args done (greaterChar :: first :: more) start false heap) =
      if first = greaterChar then (done.length + 2, true) else (done.length + 1, cmd.appendOutput) := by
  have next : (holding cmd (args ++ [start]) (done ++ [0] ++ first :: more)).byte (done ++ [0]).length = first :=
    byte_ahead
  rw [List.length_append, List.length_singleton] at next
  rw [Scan.afterGreater, cut_scanning wide room]
  simp only [scanning, next]
  rfl

/-- An operator cuts off what stands before it as one more argument, and leaves
the operand ahead to be scanned again. -/
theorem turn_operator (operator : Operator) (operand : IsOperand gap file stop)
    (single : operator.Single (gap ++ (file ++ stop :: rest)))
    (wide : cmd.argv.length = cmdArgvMax) (room : args.length < cmdArgvMax - 1) :
    scanLoop.run (scanning cmd args done (operator.render ++ (gap ++ (file ++ stop :: rest))) start false heap) =
      scanLoop.run (scanning (operator.store (heap.strdup file).1 cmd) (args ++ [start]) (done ++ [0])
        (operator.tail ++ (gap ++ (file ++ 0 :: rest)))
        (done.length + operator.render.length + gap.length + file.length + 1) false (heap.strdup file).2) := by
  cases operator with
  | input =>
    have taken := operand_ahead operand cmd (args ++ [start]) (done ++ [0]) rest heap done.length start
    have branch := branch_less
      (s := scanning cmd args done (lessChar :: (gap ++ (file ++ stop :: rest))) start false heap) byte_ahead rfl
    rw [List.length_append, List.length_singleton] at taken
    rw [cut_scanning wide room] at branch
    simp only [show (scanning cmd args done (lessChar :: (gap ++ (file ++ stop :: rest))) start false heap).token =
      done.length from rfl, taken] at branch
    rw [Operator.render, List.singleton_append, run_turn _ (goes_on (by decide) room)]
    simp only [scanLoop, Scan.step, branch]
    simp [scanning, Operator.store, Operator.tail, holding]
  | output =>
    have taken := operand_ahead operand cmd (args ++ [start]) (done ++ [0]) rest heap done.length start
    obtain ⟨first, more, text⟩ := List.exists_cons_of_ne_nil (show gap ++ (file ++ stop :: rest) ≠ [] by simp)
    have other : first ≠ greaterChar := fun same => single rfl (by rw [text, same]; rfl)
    have after : Scan.afterGreater (scanning cmd args done (greaterChar :: (gap ++ (file ++ stop :: rest))) start false
        heap) = (done.length + 1, cmd.appendOutput) := by
      rw [text, afterGreater_ahead wide room, if_neg other]
    have branch := branch_greater (s := scanning cmd args done (greaterChar :: (gap ++ (file ++ stop :: rest))) start
      false heap) byte_ahead rfl
    rw [List.length_append, List.length_singleton] at taken
    rw [after, cut_scanning wide room, taken] at branch
    rw [Operator.render, List.singleton_append, run_turn _ (goes_on (by decide) room)]
    simp only [scanLoop, Scan.step, branch]
    simp [scanning, Operator.store, Operator.tail, holding]
  | append =>
    have taken := operand_ahead operand cmd (args ++ [start]) (done ++ [0] ++ [greaterChar]) rest heap done.length start
    have after : Scan.afterGreater (scanning cmd args done (greaterChar :: greaterChar ::
        (gap ++ (file ++ stop :: rest))) start false heap) = (done.length + 2, true) := by
      rw [afterGreater_ahead wide room, if_pos rfl]
    have branch := branch_greater (s := scanning cmd args done (greaterChar :: greaterChar ::
      (gap ++ (file ++ stop :: rest))) start false heap) byte_ahead rfl
    have text : done ++ [0] ++ greaterChar :: (gap ++ (file ++ stop :: rest)) =
        done ++ [0] ++ [greaterChar] ++ (gap ++ (file ++ stop :: rest)) := by simp
    simp only [List.length_append, List.length_singleton, Nat.add_assoc, Nat.reduceAdd] at taken
    rw [after, cut_scanning wide room, text, taken] at branch
    rw [Operator.render, List.cons_append, List.singleton_append, run_turn _ (goes_on (by decide) room)]
    simp only [scanLoop, Scan.step, branch]
    simp [scanning, Operator.store, Operator.tail, holding, Nat.add_assoc]

end Turns

/-! ### Behind a terminator -/

theorem length_operator (operator : Operator) : operator.render.length = operator.tail.length + 1 := by
  cases operator <;> rfl

/-- What one turn does: it looks, it cuts an argument, or it cuts one and takes
an operand. -/
theorem branch_cases (s : Scan) :
    (∃ start quoted, s.branch = { s with start := start, inQuotes := quoted } ∧
      (start = s.start ∨ start = s.token + 1)) ∨
    (∃ quoted, s.branch = { s.cut with start := s.token + 1, inQuotes := quoted }) ∨
    (∃ start input output append, s.branch = { (s.cut.operand start).2 with
        cmd := { (s.cut.operand start).2.cmd with inputFile := input, outputFile := output, appendOutput := append } } ∧
      (start = s.token + 1 ∨ start = s.token + 2 ∧ s.cut.cmd.byte (s.token + 1) = greaterChar)) := by
  simp only [Scan.branch]
  split
  · split
    · exact .inl ⟨_, _, rfl, .inr rfl⟩
    · exact .inr (.inl ⟨_, rfl⟩)
  split
  · split
    · exact .inr (.inl ⟨_, rfl⟩)
    · exact .inl ⟨_, _, rfl, .inr rfl⟩
  split
  · exact .inr (.inr ⟨_, _, _, _, rfl, .inl rfl⟩)
  split
  · by_cases double : s.cut.cmd.byte (s.cut.token + 1) = greaterChar
    · rw [if_pos double]
      exact .inr (.inr ⟨_, _, _, _, rfl, .inr ⟨rfl, double⟩⟩)
    · rw [if_neg double]
      exact .inr (.inr ⟨_, _, _, _, rfl, .inl rfl⟩)
  · exact .inl ⟨_, _, rfl, .inl rfl⟩

/-- A buffer with a terminator at `stop` and the bytes `behind` after it. -/
def EndsAt (stop : Nat) (behind buffer : List UInt8) : Prop := buffer.drop stop = 0 :: behind

theorem EndsAt.set {buffer behind : List UInt8} (ends : EndsAt stop behind buffer) (before : i ≤ stop) :
    EndsAt stop behind (buffer.set i 0) := by
  rw [EndsAt, List.drop_set]
  split
  · exact ends
  · rw [show i - stop = 0 by omega, ends, List.set_cons_zero]

theorem EndsAt.first {buffer behind : List UInt8} (ends : EndsAt stop behind buffer) : buffer[stop]? = some 0 := by
  have dropped := congrArg List.head? ends
  rwa [List.head?_drop, List.head?_cons] at dropped

theorem EndsAt.byte {cmd : CmdBuff} (ends : EndsAt stop behind cmd.buffer) : cmd.byte stop = 0 := by
  simp [CmdBuff.byte, ends.first]

/-- A walk that stops at NUL does not walk over the terminator. -/
theorem EndsAt.walk {buffer behind : List UInt8} {p : UInt8 → Bool} (ends : EndsAt stop behind buffer)
    (before : start ≤ stop) (nul : p 0 = false) : start + ((buffer.drop start).takeWhile p).length ≤ stop := by
  by_contra further
  obtain ⟨rest, text⟩ := List.takeWhile_prefix (l := buffer.drop start) p
  have inside : stop - start < ((buffer.drop start).takeWhile p).length := by omega
  have here : ((buffer.drop start).takeWhile p)[stop - start] = 0 := by
    have found : (buffer.drop start)[stop - start]? = some 0 := by
      rw [List.getElem?_drop, Nat.add_sub_cancel' before, ends.first]
    rw [← text, List.getElem?_append_left inside, List.getElem?_eq_getElem inside] at found
    exact Option.some.inj found
  have walked := List.mem_takeWhile_imp (List.getElem_mem inside)
  rw [here, nul] at walked
  cases walked

/-- A scanner in front of a terminator: it does not come to the text behind. -/
def InFront (stop : Nat) (behind : List UInt8) (s : Scan) : Prop :=
  s.token ≤ stop ∧ EndsAt stop behind s.cmd.buffer

/-- The operand of an operator in front of the terminator begins there, too. -/
theorem operand_place {s : Scan} (before : s.token < stop) (cut : EndsAt stop behind s.cut.cmd.buffer)
    (place : start = s.token + 1 ∨ start = s.token + 2 ∧ s.cut.cmd.byte (s.token + 1) = greaterChar) :
    start ≤ stop := by
  rcases place with rfl | ⟨rfl, second⟩
  · exact before
  · have other : s.token + 1 ≠ stop := fun same => by
      rw [same, cut.byte] at second
      exact absurd second (by decide)
    omega

theorem inFront_scanning {behind : List UInt8} : InFront (done.length + rest.length) behind
    (scanning cmd args done (rest ++ 0 :: behind) start inQuotes heap) := by
  refine ⟨Nat.le_add_right _ _, ?_⟩
  have text : done ++ (rest ++ 0 :: behind) = (done ++ rest) ++ 0 :: behind := by simp
  simp only [EndsAt, scanning, holding, text]
  exact List.drop_left' (by simp)

theorem token_before {s : Scan} (more : s.guard = true) (inFront : InFront stop behind s) : s.token < stop := by
  obtain ⟨place, ends⟩ := inFront
  have nonzero : s.cmd.byte s.token ≠ 0 := (of_decide_eq_true more).1
  have other : s.token ≠ stop := fun same => nonzero (same ▸ ends.byte)
  omega

theorem inFront_step {s : Scan} (more : s.guard = true) (inFront : InFront stop behind s) :
    InFront stop behind s.step := by
  have before := token_before more inFront
  obtain ⟨place, ends⟩ := inFront
  have cut : EndsAt stop behind s.cut.cmd.buffer := ends.set place
  refine ⟨before, ?_⟩
  change EndsAt stop behind s.branch.cmd.buffer
  obtain ⟨_, _, branch, -⟩ | ⟨_, branch⟩ | ⟨start, _, _, _, branch, place⟩ := branch_cases s
  · rw [branch]
    exact ends
  · rw [branch]
    exact cut
  · have reached := operand_place before cut place
    rw [branch]
    exact cut.set (cut.walk (cut.walk reached (by decide)) (by decide))

/-- An argument once cut stays where it is. -/
theorem argument_step {s : Scan} (cut : k < s.cmd.argc) :
    s.step.cmd.argv[k]? = s.cmd.argv[k]? ∧ k < s.step.cmd.argc := by
  have kept : s.cut.cmd.argv[k]? = s.cmd.argv[k]? ∧ k < s.cut.cmd.argc := by
    refine ⟨List.getElem?_set_ne ?_, Nat.lt_succ_of_lt cut⟩
    exact Nat.ne_of_gt cut
  change s.branch.cmd.argv[k]? = _ ∧ k < s.branch.cmd.argc
  obtain ⟨_, _, branch, -⟩ | ⟨_, branch⟩ | ⟨_, _, _, _, branch, -⟩ := branch_cases s
  · rw [branch]
    exact ⟨rfl, cut⟩
  · rw [branch]
    exact kept
  · rw [branch]
    exact kept

end SysProg.Scanner
