import SysProg.PartTwo

/-! The scanner of the second part, one turn at a time, described like the one
of the later parts by the text passed, the text ahead and the arguments cut. -/
namespace SysProg.PartTwoScanner
open CString WhileLoop PartTwo

/-- A command whose pointers are all there: the vector and `_cmd_buffer`. -/
structure Ready (cmd : CmdBuff) : Prop where
  wide : cmd.cells.length = cmdArgvMax + 1
  block : cmd.cmdBuffer = some 0
  size : cmd.block.length = shCmdMax

/-- The command after some arguments were cut from a block. -/
def holding (cmd : CmdBuff) (args : List Nat) (block : List UInt8) : CmdBuff :=
  ⟨args.length, args.map some ++ cmd.cells.drop args.length, block⟩

/-- The scanner between the text `done` and the text `rest`. -/
def scanning (cmd : CmdBuff) (args : List Nat) (done rest : List UInt8) (start : Option Nat) (inQuotes : Bool) : Scan :=
  ⟨done.length, start, inQuotes, holding cmd args (done ++ rest)⟩

/-- A command whose vector ends behind its arguments. -/
def sealed (cmd : CmdBuff) (args : List Nat) (block : List UInt8) : CmdBuff :=
  { holding cmd args block with cells := (holding cmd args block).cells.set args.length none }

section Turns
variable {cmd : CmdBuff} {args : List Nat} {done rest : List UInt8} {start : Option Nat} {inQuotes : Bool} {c : UInt8}

@[simp] theorem argc_holding (block : List UInt8) : (holding cmd args block).argc = args.length := rfl

theorem byte_ahead : (holding cmd args (done ++ c :: rest)).byte done.length = c := by
  simp [holding, CmdBuff.byte]

theorem push_holding (wide : cmd.cells.length = cmdArgvMax + 1) (room : args.length < cmdArgvMax) (p : Nat)
    (block : List UInt8) : (holding cmd args block).push (some p) = holding cmd (args ++ [p]) block := by
  have inside : args.length < cmd.cells.length := by omega
  have set : (args.map some ++ cmd.cells.drop args.length).set args.length (some p) =
      (args ++ [p]).map some ++ cmd.cells.drop (args.length + 1) := by
    rw [List.set_append_right _ _ (by simp), List.length_map, Nat.sub_self, List.drop_eq_getElem_cons inside,
      List.set_cons_zero, List.map_append, List.append_assoc]
    rfl
  simp [CmdBuff.push, holding, set]

/-- Cutting an argument in front of `rest`. -/
theorem cut_scanning (wide : cmd.cells.length = cmdArgvMax + 1) (room : args.length < cmdArgvMax) (p : Nat) :
    Scan.cut (scanning cmd args done (c :: rest) (some p) inQuotes) =
      ⟨done.length, none, inQuotes, holding cmd (args ++ [p]) (done ++ [0] ++ rest)⟩ := by
  have ended : (holding cmd args (done ++ c :: rest)).terminate done.length =
      holding cmd args (done ++ [0] ++ rest) := by
    simp [holding, CmdBuff.terminate]
  simp only [Scan.cut, scanning, ended, push_holding wide room]

theorem goes_on (nonzero : c ≠ 0) (room : args.length < cmdArgvMax) :
    scanLoop.guard (scanning cmd args done (c :: rest) start inQuotes) = true := by
  simpa [scanLoop, Scan.guard, scanning, byte_ahead, nonzero] using room

/-- The loop stops in front of the terminator. -/
theorem run_terminator :
    scanLoop.run (scanning cmd args done (0 :: rest) start inQuotes) =
      scanning cmd args done (0 :: rest) start inQuotes :=
  run_done _ (by simp [scanLoop, Scan.guard, scanning, byte_ahead])

/-- The loop stops when nothing more fits into the vector. -/
theorem run_full (full : cmdArgvMax ≤ args.length) :
    scanLoop.run (scanning cmd args done rest start inQuotes) = scanning cmd args done rest start inQuotes :=
  run_done _ (decide_eq_false fun more => Nat.not_lt.mpr full more.2)

/-- The turn at a character, once the branch taken there is known. -/
theorem turn_branch (nonzero : c ≠ 0) (room : args.length < cmdArgvMax) {s : Scan}
    (branch : Scan.branch (scanning cmd args done (c :: rest) start inQuotes) = s) :
    scanLoop.run (scanning cmd args done (c :: rest) start inQuotes) =
      scanLoop.run { s with token := done.length + 1 } := by
  rw [run_turn _ (goes_on nonzero room)]
  simp only [scanLoop, Scan.step, branch]
  rfl

theorem turn_open (room : args.length < cmdArgvMax) :
    scanLoop.run (scanning cmd args done (quoteChar :: rest) start false) =
      scanLoop.run (scanning cmd args (done ++ [quoteChar]) rest (some (done.length + 1)) true) := by
  have branch : Scan.branch (scanning cmd args done (quoteChar :: rest) start false) =
      ⟨done.length, some (done.length + 1), true, holding cmd args (done ++ quoteChar :: rest)⟩ := by
    simp [Scan.branch, scanning, byte_ahead]
  rw [turn_branch (by decide) room branch]
  simp [scanning]

theorem turn_close (wide : cmd.cells.length = cmdArgvMax + 1) (room : args.length < cmdArgvMax) (p : Nat) :
    scanLoop.run (scanning cmd args done (quoteChar :: rest) (some p) true) =
      scanLoop.run (scanning cmd (args ++ [p]) (done ++ [0]) rest none false) := by
  have cut : Scan.cut (scanning cmd args done (quoteChar :: rest) (some p) false) = _ := cut_scanning wide room p
  have branch : Scan.branch (scanning cmd args done (quoteChar :: rest) (some p) true) =
      Scan.cut (scanning cmd args done (quoteChar :: rest) (some p) false) := by
    simp [Scan.branch, scanning, byte_ahead]
  rw [turn_branch (by decide) room (branch.trans cut)]
  simp [scanning]

/-- White space between words is skipped. -/
theorem turn_gap (space : isspace c = true) (nonzero : c ≠ 0) (other : c ≠ quoteChar)
    (room : args.length < cmdArgvMax) :
    scanLoop.run (scanning cmd args done (c :: rest) none false) =
      scanLoop.run (scanning cmd args (done ++ [c]) rest none false) := by
  have branch : Scan.branch (scanning cmd args done (c :: rest) none false) =
      scanning cmd args done (c :: rest) none false := by
    simp [Scan.branch, scanning, byte_ahead, space, other]
  rw [turn_branch nonzero room branch]
  simp [scanning]

/-- White space behind a word cuts it. -/
theorem turn_space (space : isspace c = true) (nonzero : c ≠ 0) (other : c ≠ quoteChar)
    (wide : cmd.cells.length = cmdArgvMax + 1) (room : args.length < cmdArgvMax) (p : Nat) :
    scanLoop.run (scanning cmd args done (c :: rest) (some p) false) =
      scanLoop.run (scanning cmd (args ++ [p]) (done ++ [0]) rest none false) := by
  have branch : Scan.branch (scanning cmd args done (c :: rest) (some p) false) =
      Scan.cut (scanning cmd args done (c :: rest) (some p) false) := by
    simp [Scan.branch, scanning, byte_ahead, space, other]
  rw [turn_branch nonzero room (branch.trans (cut_scanning wide room p))]
  simp [scanning]

/-- Any other character opens a word or belongs to the open one. -/
theorem turn_word (nonzero : c ≠ 0) (other : c ≠ quoteChar) (solid : inQuotes = false → isspace c = false)
    (room : args.length < cmdArgvMax) :
    scanLoop.run (scanning cmd args done (c :: rest) start inQuotes) =
      scanLoop.run (scanning cmd args (done ++ [c]) rest (some (start.getD done.length)) inQuotes) := by
  have notSpace : ¬ (inQuotes = false ∧ isspace c = true) := by
    rintro ⟨outside, space⟩
    rw [solid outside] at space
    cases space
  have branch : Scan.branch (scanning cmd args done (c :: rest) start inQuotes) =
      ⟨done.length, some (start.getD done.length), inQuotes, holding cmd args (done ++ c :: rest)⟩ := by
    cases start with
    | none => simp [Scan.branch, scanning, byte_ahead, other, notSpace]
    | some p => simp [Scan.branch, scanning, byte_ahead, other, notSpace]
  rw [turn_branch nonzero room branch]
  simp [scanning]

/-! ### The end of the scan -/

theorem finish_none : (scanning cmd args done rest none inQuotes).finish = sealed cmd args (done ++ rest) := rfl

theorem finish_some (s : Scan) (p : Nat) (word : s.start = some p) :
    s.finish = let cmd := if s.cmd.byte p ≠ 0 ∧ s.cmd.argc < cmdArgvMax then s.cmd.push (some p) else s.cmd
      { cmd with cells := cmd.cells.set cmd.argc none } := by
  simp only [Scan.finish, word]

theorem finish_cut {p : Nat} (cut : (holding cmd args (done ++ rest)).byte p = 0 ∨ cmdArgvMax ≤ args.length) :
    (scanning cmd args done rest (some p) inQuotes).finish = sealed cmd args (done ++ rest) := by
  rw [finish_some _ p rfl, if_neg]
  · rfl
  · rintro ⟨nonzero, room⟩
    have few : args.length < cmdArgvMax := room
    rcases cut with zero | full
    · exact nonzero zero
    · omega

theorem finish_open {p : Nat} (wide : cmd.cells.length = cmdArgvMax + 1)
    (nonzero : (holding cmd args (done ++ rest)).byte p ≠ 0) (room : args.length < cmdArgvMax) :
    (scanning cmd args done rest (some p) inQuotes).finish = sealed cmd (args ++ [p]) (done ++ rest) := by
  have pushed : (scanning cmd args done rest (some p) inQuotes).cmd.push (some p) = _ := push_holding wide room p _
  rw [finish_some _ p rfl, if_pos ⟨nonzero, room⟩, pushed]
  rfl

end Turns

/-- The copy of a line is scanned from its first character on. -/
theorem buildCmdBuff_scans {cmd : CmdBuff} {cmdLine copied : List UInt8} (ready : Ready cmd)
    (skipped : (cString cmdLine).dropWhile isspace = copied) (nonblank : copied ≠ [])
    (short : copied.length < shCmdMax) :
    buildCmdBuff cmdLine cmd = some (ok, (scanLoop.run
      (scanning cmd [] [] (copied ++ 0 :: cmd.block.drop (copied.length + 1)) none false)).finish) := by
  have fits : copied.length + 1 ≤ cmd.block.length := by
    rw [ready.size]
    exact short
  simp only [buildCmdBuff, skipped, if_neg nonblank, ready.block, strcpy, List.drop_zero, if_pos fits, List.take_zero,
    List.nil_append]
  rfl

end SysProg.PartTwoScanner
