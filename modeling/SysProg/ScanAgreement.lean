import SysProg.Scanner

/-! Two scans of one text in two buffers. They take the same turns and cut the
same arguments, whatever stands behind the terminators; only an argument that
begins there can tell the buffers apart. -/
namespace SysProg.ScanAgreement
open CString WhileLoop Dshlib Scanner

/-! ### Buffers with the same text -/

/-- Two buffers hold the same bytes up to a terminator. -/
def SameText (stop : Nat) (left right : List UInt8) : Prop :=
  left.take (stop + 1) = right.take (stop + 1) ∧ left[stop]? = some 0

section Text
variable {stop : Nat} {left right : List UInt8}

theorem SameText.getElem? (same : SameText stop left right) (within : k ≤ stop) : left[k]? = right[k]? := by
  have taken := congrArg (·[k]?) same.1
  simpa [List.getElem?_take, Nat.lt_succ_of_le within] using taken

theorem SameText.ends (same : SameText stop left right) : right[stop]? = some 0 :=
  (same.getElem? (Nat.le_refl _)).symm.trans same.2

/-- A walk that stops at a byte sees nothing behind it. -/
theorem takeWhile_take {p : UInt8 → Bool} {bytes : List UInt8} (here : bytes[k]? = some c) (stops : p c = false) :
    (bytes.take (k + 1)).takeWhile p = bytes.takeWhile p := by
  induction bytes generalizing k with
  | nil => rfl
  | cons first bytes ih =>
    cases k with
    | zero =>
      obtain rfl : first = c := by simpa using here
      simp [stops]
    | succ k =>
      have rest := ih (k := k) (by simpa using here)
      rw [List.take_succ_cons, List.takeWhile_cons, List.takeWhile_cons, rest]

theorem SameText.walk (same : SameText stop left right) {p : UInt8 → Bool} (nul : p 0 = false)
    (within : start ≤ stop) : (left.drop start).takeWhile p = (right.drop start).takeWhile p := by
  have here (bytes : List UInt8) (ends : bytes[stop]? = some 0) : (bytes.drop start)[stop - start]? = some 0 := by
    rw [List.getElem?_drop, Nat.add_sub_cancel' within, ends]
  have size : stop + 1 - start = stop - start + 1 := by omega
  have cut := congrArg (List.drop start) same.1
  rw [List.drop_take, List.drop_take, size] at cut
  rw [← takeWhile_take (here left same.2) nul, ← takeWhile_take (here right same.ends) nul, cut]

theorem SameText.set (same : SameText stop left right) (place : Nat) :
    SameText stop (left.set place 0) (right.set place 0) := by
  constructor
  · rw [List.take_set, List.take_set, same.1]
  · rw [List.getElem?_set]
    split
    next at_ =>
      subst at_
      rw [if_pos (List.getElem?_eq_some_iff.mp same.2).1]
    next => exact same.2

end Text

/-! ### Scans that agree -/

/-- Two command buffers over the same text with the same arguments cut so far. -/
def AlikeCmd (stop : Nat) (left right : CmdBuff) : Prop :=
  ∃ argv buffer, right = { left with argv := argv, buffer := buffer } ∧ SameText stop left.buffer buffer ∧
    argv.length = left.argv.length ∧ argv.take left.argc = left.argv.take left.argc

section Commands
variable {stop : Nat} {left right : CmdBuff}

theorem AlikeCmd.byte (alike : AlikeCmd stop left right) (within : k ≤ stop) : right.byte k = left.byte k := by
  obtain ⟨_, _, rfl, text, -⟩ := alike
  simp [CmdBuff.byte, text.getElem? within]

theorem AlikeCmd.terminate (alike : AlikeCmd stop left right) (place : Nat) :
    AlikeCmd stop (left.terminate place) (right.terminate place) := by
  obtain ⟨argv, buffer, rfl, text, args⟩ := alike
  exact ⟨argv, buffer.set place 0, rfl, text.set place, args⟩

theorem take_set_succ {l : List α} (inside : n < l.length) (a : α) : (l.set n a).take (n + 1) = l.take n ++ [a] := by
  have length : (l.take n).length = n := List.length_take_of_le (Nat.le_of_lt inside)
  rw [List.take_set, List.take_add_one, List.getElem?_eq_getElem inside, List.set_append_right _ _ (by omega), length,
    Nat.sub_self]
  rfl

theorem AlikeCmd.push (alike : AlikeCmd stop left right) (wide : left.argc < left.argv.length) (start : Nat) :
    AlikeCmd stop (left.push start) (right.push start) := by
  obtain ⟨argv, buffer, rfl, text, length, args⟩ := alike
  refine ⟨argv.set left.argc (some start), buffer, rfl, text, ?_, ?_⟩
  · simp [CmdBuff.push, length]
  · change (argv.set left.argc (some start)).take (left.argc + 1) =
      (left.argv.set left.argc (some start)).take (left.argc + 1)
    rw [take_set_succ (length ▸ wide), take_set_succ wide, args]

theorem AlikeCmd.seal (alike : AlikeCmd stop left right) :
    AlikeCmd stop { left with argv := left.argv.set left.argc none }
      { right with argv := right.argv.set right.argc none } := by
  obtain ⟨argv, buffer, rfl, text, length, args⟩ := alike
  refine ⟨argv.set left.argc none, buffer, rfl, text, by simp [length], ?_⟩
  rw [List.take_set_of_le (Nat.le_refl _), List.take_set_of_le (Nat.le_refl _), args]

/-- Two scans over such buffers whose copies of strings succeed alike. -/
def Alike (stop : Nat) (s t : Scan) : Prop :=
  ∃ cmd heap, t = { s with cmd := cmd, heap := heap } ∧ AlikeCmd stop s.cmd cmd ∧ heap.strings = s.heap.strings

end Commands

section Scans
variable {stop : Nat} {s t : Scan}

theorem Alike.byte (alike : Alike stop s t) (within : k ≤ stop) : t.cmd.byte k = s.cmd.byte k := by
  obtain ⟨_, _, rfl, cmds, -⟩ := alike
  exact cmds.byte within

theorem Alike.cut (alike : Alike stop s t) (wide : s.cmd.argc < s.cmd.argv.length) : Alike stop s.cut t.cut := by
  obtain ⟨cmd, heap, rfl, cmds, strings⟩ := alike
  exact ⟨(cmd.terminate s.token).push s.start, heap, rfl, (cmds.terminate s.token).push wide s.start, strings⟩

theorem strdup_strings {heap other : Heap} (strings : other.strings = heap.strings) (string : List UInt8) :
    (other.strdup string).1 = (heap.strdup string).1 ∧
      (other.strdup string).2.strings = (heap.strdup string).2.strings := by
  simp only [Heap.strdup, strings]
  split <;> exact ⟨rfl, rfl⟩

theorem SameText.endsAt {left right : List UInt8} (same : SameText stop left right) :
    ∃ behind, EndsAt stop behind left := by
  obtain ⟨inside, zero⟩ := List.getElem?_eq_some_iff.mp same.2
  exact ⟨left.drop (stop + 1), by rw [EndsAt, List.drop_eq_getElem_cons inside, zero]⟩

theorem Alike.operand (alike : Alike stop s t) (within : start ≤ stop) :
    (t.operand start).1 = (s.operand start).1 ∧ Alike stop (s.operand start).2 (t.operand start).2 := by
  obtain ⟨cmd, heap, rfl, cmds, strings⟩ := alike
  obtain ⟨argv, buffer, same, text, -⟩ := id cmds
  obtain ⟨behind, ends⟩ := text.endsAt
  have spaces : cmd.skipSpaces start = s.cmd.skipSpaces start := by
    rw [same]
    simp only [CmdBuff.skipSpaces, text.walk (p := isspace) (by decide) within]
  have first : s.cmd.skipSpaces start ≤ stop := ends.walk within (by decide)
  have name : cmd.skipName (s.cmd.skipSpaces start) = s.cmd.skipName (s.cmd.skipSpaces start) := by
    rw [same]
    simp only [CmdBuff.skipName, text.walk (p := fun c => !isspace c && c ≠ 0) (by decide) first]
  have cut := cmds.terminate (s.cmd.skipName (s.cmd.skipSpaces start))
  have file : (cmd.terminate (s.cmd.skipName (s.cmd.skipSpaces start))).string (s.cmd.skipSpaces start) =
      (s.cmd.terminate (s.cmd.skipName (s.cmd.skipSpaces start))).string (s.cmd.skipSpaces start) := by
    rw [same]
    exact ((text.set _).walk (by decide) first).symm
  have copied := strdup_strings strings
    ((s.cmd.terminate (s.cmd.skipName (s.cmd.skipSpaces start))).string (s.cmd.skipSpaces start))
  simp only [Scan.operand, spaces, name, file]
  exact ⟨copied.1, _, _, rfl, cut, copied.2⟩

/-- The kinds of characters that the scanner tells apart. -/
theorem kinds (nonzero : c ≠ 0) (inQuotes : Bool) :
    c = quoteChar ∨ Passive inQuotes c ∨
      inQuotes = false ∧ (isspace c = true ∨ c = lessChar ∨ c = greaterChar) := by
  by_cases quote : c = quoteChar
  · exact .inl quote
  by_cases passive : Passive inQuotes c
  · exact .inr (.inl passive)
  refine .inr (.inr ?_)
  cases inQuotes with
  | true => exact absurd ⟨nonzero, quote, fun outside => by cases outside⟩ passive
  | false =>
    refine ⟨rfl, ?_⟩
    by_contra none
    simp only [not_or, Bool.not_eq_true] at none
    exact passive ⟨nonzero, quote, fun _ => none⟩

theorem Alike.place (alike : Alike stop s t) (token : Nat) :
    Alike stop { s with token := token } { t with token := token } := by
  obtain ⟨cmd, heap, rfl, cmds, strings⟩ := alike
  exact ⟨cmd, heap, rfl, cmds, strings⟩

theorem Alike.restart (alike : Alike stop s t) (start : Nat) :
    Alike stop { s with start := start } { t with start := start } := by
  obtain ⟨cmd, heap, rfl, cmds, strings⟩ := alike
  exact ⟨cmd, heap, rfl, cmds, strings⟩

theorem Alike.quote (alike : Alike stop s t) (inQuotes : Bool) :
    Alike stop { s with inQuotes := inQuotes } { t with inQuotes := inQuotes } := by
  obtain ⟨cmd, heap, rfl, cmds, strings⟩ := alike
  exact ⟨cmd, heap, rfl, cmds, strings⟩

theorem Alike.readFrom (alike : Alike stop s t) (file : Option (List UInt8)) :
    Alike stop { s with cmd := { s.cmd with inputFile := file } }
      { t with cmd := { t.cmd with inputFile := file } } := by
  obtain ⟨_, heap, rfl, ⟨argv, buffer, rfl, agrees⟩, strings⟩ := alike
  exact ⟨_, heap, rfl, ⟨argv, buffer, rfl, agrees⟩, strings⟩

theorem Alike.writeTo (alike : Alike stop s t) (file : Option (List UInt8)) (append : Bool) :
    Alike stop { s with cmd := { s.cmd with outputFile := file, appendOutput := append } }
      { t with cmd := { t.cmd with outputFile := file, appendOutput := append } } := by
  obtain ⟨_, heap, rfl, ⟨argv, buffer, rfl, agrees⟩, strings⟩ := alike
  exact ⟨_, heap, rfl, ⟨argv, buffer, rfl, agrees⟩, strings⟩

/-- The fields in which two scans that agree are the same. -/
theorem Alike.fields (alike : Alike stop s t) :
    t.token = s.token ∧ t.start = s.start ∧ t.inQuotes = s.inQuotes ∧ t.cmd.argc = s.cmd.argc ∧
      t.cmd.inputFile = s.cmd.inputFile ∧ t.cmd.outputFile = s.cmd.outputFile ∧
      t.cmd.appendOutput = s.cmd.appendOutput := by
  obtain ⟨_, _, rfl, ⟨_, _, rfl, -⟩, -⟩ := alike
  exact ⟨rfl, rfl, rfl, rfl, rfl, rfl, rfl⟩

theorem Alike.afterGreater (alike : Alike stop s t) (wide : s.cmd.argc < s.cmd.argv.length) (before : s.token < stop) :
    Scan.afterGreater t = Scan.afterGreater s := by
  have byte := (alike.cut wide).byte (k := s.token + 1) before
  obtain ⟨token, -, -, -, -, -, append⟩ := alike.fields
  simp only [Scan.afterGreater, token, byte, append]

/-- One turn on both sides. -/
theorem Alike.branch (alike : Alike stop s t) (more : s.guard = true) (inFront : InFront stop behind s)
    (wide : s.cmd.argc < s.cmd.argv.length) : Alike stop s.branch t.branch := by
  have nonzero : s.cmd.byte s.token ≠ 0 := (of_decide_eq_true more).1
  have before : s.token < stop := token_before more inFront
  have ends : EndsAt stop behind s.cut.cmd.buffer := inFront.2.set inFront.1
  have cut := alike.cut wide
  obtain ⟨token, start, quoted, -, -, -, -⟩ := alike.fields
  have here : t.cmd.byte t.token = s.cmd.byte s.token := by rw [token, alike.byte inFront.1]
  rcases kinds nonzero s.inQuotes with quote | passive | ⟨outside, space | less | greater⟩
  · cases inQuotes : s.inQuotes with
    | true =>
      rw [branch_close quote inQuotes, branch_close (here.trans quote) (quoted.trans inQuotes), token]
      exact (cut.quote false).restart (s.token + 1)
    | false =>
      rw [branch_open quote inQuotes, branch_open (here.trans quote) (quoted.trans inQuotes), token]
      exact ((alike.restart (s.token + 1)).quote true).place s.token
  · rw [branch_passive passive, branch_passive (by rw [quoted, here]; exact passive)]
    exact alike
  · rw [branch_space space outside, branch_space (here.symm ▸ space) (quoted.trans outside), token, start]
    split
    · exact cut.restart (s.token + 1)
    · exact alike.restart (s.token + 1)
  · obtain ⟨file, taken⟩ := cut.operand (show s.token + 1 ≤ stop from before)
    rw [branch_less less outside, branch_less (here.trans less) (quoted.trans outside), token, file]
    exact taken.readFrom _
  · have within : (Scan.afterGreater s).1 ≤ stop := by
      rw [Scan.afterGreater]
      split
      next double => exact operand_place before ends (.inr ⟨rfl, double⟩)
      next => exact before
    obtain ⟨file, taken⟩ := cut.operand within
    rw [branch_greater greater outside, branch_greater (here.trans greater) (quoted.trans outside),
      alike.afterGreater wide before, file]
    exact taken.writeTo _ _

theorem Alike.guard (alike : Alike stop s t) (place : s.token ≤ stop) : s.guard = t.guard := by
  obtain ⟨token, -, -, argc, -⟩ := alike.fields
  rw [Scan.guard, Scan.guard, token, alike.byte place, argc]

/-- The scanner never has more arguments than the vector has places. -/
theorem argv_step {s : Scan} (wide : s.cmd.argv.length = cmdArgvMax) : s.step.cmd.argv.length = cmdArgvMax := by
  have cut : s.cut.cmd.argv.length = cmdArgvMax := by simpa [Scan.cut, CmdBuff.push, CmdBuff.terminate] using wide
  change s.branch.cmd.argv.length = cmdArgvMax
  obtain ⟨_, _, branch, -⟩ | ⟨_, branch⟩ | ⟨_, _, _, _, branch, -⟩ := branch_cases s
  · rw [branch]
    exact wide
  · rw [branch]
    exact cut
  · rw [branch]
    exact cut

theorem Alike.run (alike : Alike stop s t) (inFront : InFront stop behind s) (wide : s.cmd.argv.length = cmdArgvMax) :
    Alike stop (scanLoop.run s) (scanLoop.run t) ∧ InFront stop behind (scanLoop.run s) ∧
      (scanLoop.run s).cmd.argv.length = cmdArgvMax :=
  run_related scanLoop scanLoop
    (fun s t => Alike stop s t ∧ InFront stop behind s ∧ s.cmd.argv.length = cmdArgvMax)
    (fun s t related => related.1.guard related.2.1.1)
    (fun s t more ⟨alike, inFront, wide⟩ => by
      have few : s.cmd.argc < cmdArgvMax - 1 := (of_decide_eq_true more).2
      have token := alike.fields.1
      have branch := alike.branch more inFront (by omega)
      have step : Alike stop s.step t.step := by
        rw [Scan.step, Scan.step, token]
        exact branch.place (s.token + 1)
      exact ⟨step, inFront_step more inFront, argv_step wide⟩)
    ⟨alike, inFront, wide⟩

/-! ### What the commands hold -/

/-- The contents of a command buffer that a command is executed with. -/
structure Command where
  argc : Nat
  argv : List (Option (List UInt8))
  inputFile : Option (List UInt8)
  outputFile : Option (List UInt8)
  appendOutput : Bool
  deriving DecidableEq

def command (cmd : CmdBuff) : Command :=
  ⟨cmd.argc, (List.range cmd.argc).map cmd.arg, cmd.inputFile, cmd.outputFile, cmd.appendOutput⟩

/-- Every argument begins at or before a place. -/
def Within (limit : Nat) (cmd : CmdBuff) : Prop :=
  ∀ i, i < cmd.argc → ∃ p, cmd.argv[i]? = some (some p) ∧ p ≤ limit

theorem AlikeCmd.command {left right : CmdBuff} (alike : AlikeCmd stop left right) (within : Within stop left) :
    command right = command left := by
  obtain ⟨argv, buffer, rfl, text, -, args⟩ := alike
  have arg : ∀ i ∈ List.range left.argc,
      CmdBuff.arg { left with argv := argv, buffer := buffer } i = left.arg i := by
    intro i member
    have inside : i < left.argc := List.mem_range.mp member
    obtain ⟨p, place, before⟩ := within i inside
    have same : argv[i]? = left.argv[i]? := by
      have taken := congrArg (·[i]?) args
      simpa [List.getElem?_take, inside] using taken
    have string : cString (buffer.drop p) = cString (left.buffer.drop p) := (text.walk (by decide) before).symm
    simp [CmdBuff.arg, CmdBuff.string, List.getD_eq_getElem?_getD, same, place, string]
  simp only [ScanAgreement.command, List.map_congr_left arg]

theorem Alike.finish (alike : Alike stop s t) (place : s.token ≤ stop) (wide : s.cmd.argv.length = cmdArgvMax) :
    AlikeCmd stop s.finish t.finish := by
  obtain ⟨cmd, heap, rfl, cmds, -⟩ := alike
  have argc : cmd.argc = s.cmd.argc := by
    obtain ⟨_, _, rfl, -⟩ := cmds
    rfl
  have last : s.start < s.token ∧ s.cmd.byte s.start ≠ 0 ∧ s.cmd.argc < cmdArgvMax - 1 ↔
      s.start < s.token ∧ cmd.byte s.start ≠ 0 ∧ cmd.argc < cmdArgvMax - 1 := by
    rw [argc]
    exact and_congr_right fun before => by rw [cmds.byte (Nat.le_trans (Nat.le_of_lt before) place)]
  by_cases more : s.start < s.token ∧ s.cmd.byte s.start ≠ 0 ∧ s.cmd.argc < cmdArgvMax - 1
  · have few : s.cmd.argc < s.cmd.argv.length := by omega
    rw [Scan.finish, Scan.finish, if_pos more, if_pos (last.mp more)]
    exact (cmds.push few s.start).seal
  · rw [Scan.finish, Scan.finish, if_neg more, if_neg (mt last.mpr more)]
    exact cmds.seal

end Scans

end SysProg.ScanAgreement
