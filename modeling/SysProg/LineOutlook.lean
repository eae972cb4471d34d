import SysProg.ScanAgreement

/-! What the scanner is going to do with a text, read off the text alone:
whether it comes to a redirection, and whether an argument is going to begin
behind the text, in what the buffer held before. -/
namespace SysProg.LineOutlook
open CString WhileLoop Dshlib Scanner ScanAgreement

/-! ### Reading a text -/

/-- Where the argument now open begins: at the next character, before it, or
behind the end of the text. -/
inductive Start where
  | here
  | back
  | beyond
  deriving DecidableEq

def Start.passed : Start → Start
  | .here => .back
  | start => start

inductive Outlook where
  | quiet
  | redirects
  | strays
  deriving DecidableEq

def Outlook.redirected : Outlook → Outlook
  | .quiet => .redirects
  | outlook => outlook

/-- The outlook where an argument ends. -/
def Start.ended (start : Start) (outlook : Outlook) : Outlook := if start = .beyond then .strays else outlook

/-- The file name behind an operator ends before the text does. -/
def operandEnds (c : UInt8) (rest : List UInt8) : Bool :=
  let rest := if c = greaterChar ∧ rest.head? = some greaterChar then rest.tail else rest
  (rest.dropWhile isspace).any isspace

/-- A text is quiet when no redirection is met outside quotes before the
argument vector is full. It strays when the file name of a redirection is the
last thing in the text, and an argument is cut while that name is read again. -/
def outlook (argc : Nat) (start : Start) (inQuotes : Bool) : List UInt8 → Outlook
  | [] => .quiet
  | c :: rest =>
    if cmdArgvMax - 1 ≤ argc then .quiet
    else if c = quoteChar then
      if inQuotes then start.ended (outlook (argc + 1) .here false rest) else outlook argc .here true rest
    else if inQuotes = false ∧ isspace c = true then
      if start = .here then outlook argc .here false rest
      else start.ended (outlook (argc + 1) .here false rest)
    else if inQuotes = false ∧ (c = lessChar ∨ c = greaterChar) then
      start.ended (if operandEnds c rest then .redirects else (outlook (argc + 1) .beyond false rest).redirected)
    else outlook argc start.passed inQuotes rest

section Equations
variable {argc : Nat} {start : Start} {inQuotes : Bool} {c : UInt8} {rest : List UInt8}

theorem outlook_passive (passive : Passive inQuotes c) (room : argc < cmdArgvMax - 1) :
    outlook argc start inQuotes (c :: rest) = outlook argc start.passed inQuotes rest := by
  obtain ⟨-, notQuote, unquoted⟩ := passive
  rw [outlook, if_neg (Nat.not_le.mpr room), if_neg notQuote, if_neg, if_neg]
  · rintro ⟨outside, operator⟩
    obtain ⟨-, notLess, notGreater⟩ := unquoted outside
    exact operator.elim notLess notGreater
  · rintro ⟨outside, space⟩
    rw [(unquoted outside).1] at space
    cases space

theorem outlook_open (room : argc < cmdArgvMax - 1) :
    outlook argc start false (quoteChar :: rest) = outlook argc .here true rest := by
  rw [outlook, if_neg (Nat.not_le.mpr room), if_pos rfl, if_neg Bool.false_ne_true]

theorem outlook_close (room : argc < cmdArgvMax - 1) :
    outlook argc start true (quoteChar :: rest) = start.ended (outlook (argc + 1) .here false rest) := by
  rw [outlook, if_neg (Nat.not_le.mpr room), if_pos rfl, if_pos rfl]

theorem outlook_space (space : isspace c = true) (room : argc < cmdArgvMax - 1) :
    outlook argc start false (c :: rest) = if start = .here then outlook argc .here false rest
      else start.ended (outlook (argc + 1) .here false rest) := by
  rw [outlook, if_neg (Nat.not_le.mpr room), if_neg (space_active space).2, if_pos ⟨rfl, space⟩]

theorem outlook_operator (operator : c = lessChar ∨ c = greaterChar) (room : argc < cmdArgvMax - 1) :
    outlook argc start false (c :: rest) = start.ended
      (if operandEnds c rest then .redirects else (outlook (argc + 1) .beyond false rest).redirected) := by
  have other : c ≠ quoteChar ∧ isspace c ≠ true := by
    rcases operator with rfl | rfl <;> decide
  rw [outlook, if_neg (Nat.not_le.mpr room), if_neg other.1, if_neg (fun space => other.2 space.2),
    if_pos ⟨rfl, operator⟩]

theorem redirected_ne_quiet (outlook : Outlook) : outlook.redirected ≠ .quiet := by
  cases outlook <;> decide

theorem ended_ne_strays {outlook : Outlook} (clear : start.ended outlook ≠ .strays) :
    start ≠ .beyond ∧ outlook ≠ .strays := by
  rw [Start.ended] at clear
  split at clear
  next => exact absurd rfl clear
  next apart => exact ⟨apart, clear⟩

theorem ended_quiet {outlook : Outlook} (quiet : start.ended outlook = .quiet) :
    start ≠ .beyond ∧ outlook = .quiet := by
  rw [Start.ended] at quiet
  split at quiet
  next => cases quiet
  next apart => exact ⟨apart, quiet⟩

end Equations

/-! ### Running over a text -/

/-- The offset at which the open argument begins. -/
def Stands (stop place offset : Nat) : Start → Prop
  | .here => offset = place
  | .back => offset < place
  | .beyond => offset = stop + 1

theorem Stands.passed {start : Start} (stands : Stands stop place offset start) :
    Stands stop (place + 1) offset start.passed := by
  cases start with
  | here => exact Nat.lt_succ_of_le (Nat.le_of_eq stands)
  | back => exact Nat.lt_succ_of_lt stands
  | beyond => exact stands

theorem Stands.inside {start : Start} (stands : Stands stop place offset start) (apart : start ≠ .beyond) :
    offset ≤ place := by
  cases start with
  | here => exact Nat.le_of_eq stands
  | back => exact Nat.le_of_lt stands
  | beyond => exact absurd rfl apart

/-- The redirections of two commands are the same. -/
def SameFiles (left right : CmdBuff) : Prop :=
  right.inputFile = left.inputFile ∧ right.outputFile = left.outputFile ∧ right.appendOutput = left.appendOutput

theorem SameFiles.trans {first second third : CmdBuff} (left : SameFiles first second)
    (right : SameFiles second third) : SameFiles first third :=
  ⟨right.1.trans left.1, right.2.1.trans left.2.1, right.2.2.trans left.2.2⟩

theorem within_scanning (pointers : ∀ p ∈ args, p ≤ stop) :
    Within stop (scanning cmd args done rest offset inQuotes heap).cmd := by
  intro i inside
  have inArgs : i < args.length := inside
  refine ⟨args[i], ?_, pointers _ (List.getElem_mem inArgs)⟩
  simp [scanning, holding, List.getElem?_append_left, inArgs]

theorem argv_scanning (wide : cmd.argv.length = cmdArgvMax) (few : args.length ≤ cmdArgvMax) :
    (scanning cmd args done rest offset inQuotes heap).cmd.argv.length = cmdArgvMax := by
  simp [scanning, holding, wide, few]

/-- In front of a terminator no argument begins more than one place behind it. -/
def Bounded (stop limit : Nat) (behind : List UInt8) (s : Scan) : Prop :=
  InFront stop behind s ∧ s.start ≤ stop + 1 ∧ Within limit s.cmd ∧ s.cmd.argv.length = cmdArgvMax

theorem within_push {cmd : CmdBuff} (within : Within limit cmd) (wide : cmd.argc < cmd.argv.length)
    (before : start ≤ limit) : Within limit (cmd.push start) := by
  intro i inside
  rcases Nat.lt_succ_iff_lt_or_eq.mp inside with earlier | rfl
  · obtain ⟨p, place, fits⟩ := within i earlier
    exact ⟨p, (List.getElem?_set_ne (Nat.ne_of_gt earlier)).trans place, fits⟩
  · exact ⟨start, List.getElem?_set_self wide, before⟩

theorem within_finish {s : Scan} (within : Within limit s.cmd) (place : s.token ≤ limit)
    (wide : s.cmd.argv.length = cmdArgvMax) : Within limit s.finish := by
  have sealed {cmd : CmdBuff} (within : Within limit cmd) :
      Within limit { cmd with argv := cmd.argv.set cmd.argc none } :=
    fun i inside => by
      obtain ⟨p, pointer, fits⟩ := within i inside
      exact ⟨p, (List.getElem?_set_ne (Nat.ne_of_gt inside)).trans pointer, fits⟩
  rw [Scan.finish]
  split
  next more =>
    have few : s.cmd.argc < s.cmd.argv.length := by omega
    exact sealed (within_push within few (by omega))
  next => exact sealed within

theorem bounded_step {s : Scan} (fits : stop + 1 ≤ limit) (more : s.guard = true)
    (bounded : Bounded stop limit behind s) : Bounded stop limit behind s.step := by
  obtain ⟨inFront, start, within, wide⟩ := bounded
  have before := token_before more inFront
  have few : s.cmd.argc < cmdArgvMax - 1 := (of_decide_eq_true more).2
  have cut : Within limit s.cut.cmd :=
    within_push within (by simp [CmdBuff.terminate]; omega) (Nat.le_trans start fits)
  have ends : EndsAt stop behind s.cut.cmd.buffer := inFront.2.set inFront.1
  refine ⟨inFront_step more inFront, ?_⟩
  change s.branch.start ≤ stop + 1 ∧ Within limit s.branch.cmd ∧ _
  obtain ⟨place, quoted, branch, moved⟩ | ⟨_, branch⟩ | ⟨place, _, _, _, branch, reached⟩ := branch_cases s
  · rw [branch]
    refine ⟨?_, within, argv_step wide⟩
    rcases moved with rfl | rfl
    · exact start
    · exact Nat.succ_le_succ (Nat.le_of_lt before)
  · rw [branch]
    exact ⟨Nat.succ_le_succ (Nat.le_of_lt before), cut, argv_step wide⟩
  · have first := operand_place before ends reached
    rw [branch]
    refine ⟨Nat.succ_le_succ ?_, cut, argv_step wide⟩
    exact ends.walk (ends.walk first (by decide)) (by decide)

theorem bounded_run {s : Scan} (fits : stop + 1 ≤ limit) (bounded : Bounded stop limit behind s) :
    Within limit (scanLoop.run s).cmd :=
  (run_keeps scanLoop (Bounded stop limit behind) (fun _ more => bounded_step fits more) bounded).1.2.2.1

/-- The text behind an operator is an operand, which may be all that is left of
the line, and something behind it. -/
theorem operand_split {rest : List UInt8} (free : NulFree rest) (behind : List UInt8) :
    ∃ gap file stop more, rest ++ 0 :: behind = gap ++ (file ++ stop :: more) ∧ IsOperand gap file stop ∧
      if (rest.dropWhile isspace).any isspace then gap.length + file.length < rest.length
      else stop = 0 ∧ gap ++ file = rest ∧ more = behind := by
  have gap := List.takeWhile_append_dropWhile (p := isspace) (l := rest)
  have name := List.takeWhile_append_dropWhile (p := (!isspace ·)) (l := rest.dropWhile isspace)
  have spaces : ∀ c ∈ rest.takeWhile isspace, isspace c = true := fun c member => List.mem_takeWhile_imp member
  have file : ∀ c ∈ (rest.dropWhile isspace).takeWhile (!isspace ·), isspace c = false ∧ c ≠ 0 := by
    intro c member
    refine ⟨by simpa using List.mem_takeWhile_imp member, free c ?_⟩
    exact (List.dropWhile_sublist _).mem ((List.takeWhile_sublist _).mem member)
  cases tail : (rest.dropWhile isspace).dropWhile (!isspace ·) with
  | nil =>
    rw [tail, List.append_nil] at name
    refine ⟨_, _, 0, behind, ?_, ⟨spaces, file, .inl rfl⟩, ?_⟩
    · rw [name, ← List.append_assoc, gap]
    · rw [if_neg]
      · exact ⟨rfl, by rw [name, gap], rfl⟩
      · rw [← name]
        simpa using fun c member => (file c member).1
  | cons stop more =>
    have space : isspace stop = true := by
      have first := List.head?_dropWhile_not (!isspace ·) (rest.dropWhile isspace)
      rw [tail] at first
      simpa using first
    rw [tail] at name
    have nonempty : (rest.dropWhile isspace).takeWhile (!isspace ·) ≠ [] := by
      intro none
      have first := List.head?_dropWhile_not isspace rest
      rw [none, List.nil_append] at name
      rw [← name] at first
      simp [space] at first
    have length := congrArg List.length gap
    have nameLength := congrArg List.length name
    rw [List.length_append] at length
    rw [List.length_append, List.length_cons] at nameLength
    refine ⟨_, _, stop, more ++ 0 :: behind, ?_, ⟨spaces, file, .inr ⟨space, nonempty⟩⟩, ?_⟩
    · rw [← List.cons_append, ← List.append_assoc _ (stop :: more), name, ← List.append_assoc, gap]
    · rw [if_pos]
      · omega
      · rw [← name]
        simp [space]

/-- The character of an operator and what it is followed by. -/
theorem operator_split {rest : List UInt8} (operator : c = lessChar ∨ c = greaterChar) (free : NulFree rest)
    (behind : List UInt8) :
    ∃ (op : Operator) (gap file : List UInt8) (stop : UInt8) (more : List UInt8),
      c :: rest ++ 0 :: behind = op.render ++ (gap ++ (file ++ stop :: more)) ∧ IsOperand gap file stop ∧
      op.Single (gap ++ (file ++ stop :: more)) ∧
      if operandEnds c rest then op.tail.length + gap.length + file.length < rest.length
      else stop = 0 ∧ op.tail ++ (gap ++ file) = rest ∧ more = behind := by
  by_cases double : c = greaterChar ∧ rest.head? = some greaterChar
  · obtain ⟨rfl, second⟩ := double
    obtain ⟨rest, rfl⟩ : ∃ more, rest = greaterChar :: more := by
      cases rest with
      | nil => cases second
      | cons first more => exact ⟨more, by rw [Option.some.inj second]⟩
    obtain ⟨gap, file, stop, more, text, operand, ends⟩ := operand_split (nulFree_cons.mp free).2 behind
    refine ⟨.append, gap, file, stop, more, ?_, operand, fun other => (by cases other), ?_⟩
    · rw [← text]
      rfl
    · have same : operandEnds greaterChar (greaterChar :: rest) = (rest.dropWhile isspace).any isspace := by
        simp [operandEnds]
      rw [same]
      by_cases found : (rest.dropWhile isspace).any isspace = true
      · rw [if_pos found] at ends ⊢
        rw [Operator.tail, List.length_singleton, List.length_cons]
        omega
      · rw [if_neg found] at ends ⊢
        exact ⟨ends.1, by rw [ends.2.1]; rfl, ends.2.2⟩
  · obtain ⟨gap, file, stop, more, text, operand, ends⟩ := operand_split free behind
    have same : operandEnds c rest = (rest.dropWhile isspace).any isspace := by
      rw [operandEnds, if_neg double]
    rcases operator with rfl | rfl
    · refine ⟨.input, gap, file, stop, more, ?_, operand, fun other => (by cases other), ?_⟩
      · rw [← text]
        rfl
      · simpa [same, Operator.tail] using ends
    · refine ⟨.output, gap, file, stop, more, ?_, operand, fun _ head => ?_, ?_⟩
      · rw [← text]
        rfl
      · rw [← text] at head
        refine double ⟨rfl, ?_⟩
        cases rest with
        | nil => exact absurd (Option.some.inj head) (by decide)
        | cons first more => exact head
      · simpa [same, Operator.tail] using ends

theorem sameFiles_scanning : SameFiles cmd (scanning cmd args done rest offset inQuotes heap).cmd := ⟨rfl, rfl, rfl⟩

/-- An operator leaves the arguments inside the text, if the text behind it does
so where the operand is the last thing in it and is scanned again. -/
theorem run_operator {rest : List UInt8} (operator : c = lessChar ∨ c = greaterChar) (free : NulFree rest)
    (length : done.length + (rest.length + 1) = stop) (pushed : ∀ p ∈ args ++ [offset], p ≤ stop)
    (wide : cmd.argv.length = cmdArgvMax) (room : args.length < cmdArgvMax - 1)
    (again : operandEnds c rest ≠ true → ∀ cmd heap, cmd.argv.length = cmdArgvMax →
      Within stop (scanLoop.run
        (scanning cmd (args ++ [offset]) (done ++ [0]) (rest ++ 0 :: behind) (stop + 1) false heap)).cmd) :
    Within stop (scanLoop.run (scanning cmd args done (c :: (rest ++ 0 :: behind)) offset false heap)).cmd := by
  obtain ⟨op, gap, file, last, more, text, operand, single, ends⟩ := operator_split operator free behind
  have split : c :: (rest ++ 0 :: behind) = op.render ++ (gap ++ (file ++ last :: more)) := text
  have wide' : (op.store (heap.strdup file).1 cmd).argv.length = cmdArgvMax := by cases op <;> exact wide
  have ahead : op.tail ++ (gap ++ (file ++ 0 :: more)) = op.tail ++ (gap ++ file) ++ 0 :: more := by simp
  have render := length_operator op
  rw [split, turn_operator op operand single wide room, ahead]
  by_cases found : operandEnds c rest = true
  -- the terminator behind the operand stands inside the text and ends the scan
  · rw [if_pos found] at ends
    have size : (done ++ [0]).length + (op.tail ++ (gap ++ file)).length + 1 ≤ stop := by
      simp only [List.length_append, List.length_singleton]
      omega
    have start : done.length + op.render.length + gap.length + file.length + 1 ≤
        (done ++ [0]).length + (op.tail ++ (gap ++ file)).length + 1 := by
      simp only [List.length_append, List.length_singleton]
      omega
    have counted : (args ++ [offset]).length ≤ cmdArgvMax := by
      rw [List.length_append, List.length_singleton]
      omega
    exact bounded_run size ⟨inFront_scanning, start, within_scanning pushed, argv_scanning wide' counted⟩
  · rw [if_neg found] at ends
    obtain ⟨rfl, same, rfl⟩ := ends
    have beyond : done.length + op.render.length + gap.length + file.length + 1 = stop + 1 := by
      rw [← same, List.length_append, List.length_append] at length
      omega
    rw [same, beyond]
    exact again found _ _ wide'

/-- The arguments so far begin inside the text, and what is ahead does not stray. -/
structure Clear (stop : Nat) (args : List Nat) (done : List UInt8) (offset : Nat) (start : Start) (inQuotes : Bool)
    (text : List UInt8) : Prop where
  length : done.length + text.length = stop
  stays : outlook args.length start inQuotes text ≠ .strays
  stands : Stands stop done.length offset start
  pointers : ∀ p ∈ args, p ≤ stop

section Clear
variable {start : Start} {rest : List UInt8}

/-- A character is passed, and the open argument begins behind it. -/
theorem Clear.skip (clear : Clear stop args done offset start inQuotes (c :: rest)) (byte : UInt8)
    (stays : outlook args.length .here inQuotes' rest ≠ .strays) :
    Clear stop args (done ++ [byte]) (done.length + 1) .here inQuotes' rest := by
  refine ⟨?_, stays, by simp [Stands], clear.pointers⟩
  rw [← clear.length, List.length_append, List.length_singleton, List.length_cons]
  omega

/-- A character is passed that belongs to the open argument. -/
theorem Clear.pass (clear : Clear stop args done offset start inQuotes (c :: rest))
    (stays : outlook args.length start.passed inQuotes rest ≠ .strays) :
    Clear stop args (done ++ [c]) offset start.passed inQuotes rest := by
  have length : (done ++ [c]).length = done.length + 1 := List.length_append
  refine ⟨?_, stays, length.symm ▸ clear.stands.passed, clear.pointers⟩
  rw [← clear.length, length, List.length_cons]
  omega

/-- An argument cut here begins inside the text unless the text strays. -/
theorem Clear.pushed (clear : Clear stop args done offset start inQuotes (c :: rest)) (apart : start ≠ .beyond) :
    ∀ p ∈ args ++ [offset], p ≤ stop := by
  have inside := clear.stands.inside apart
  have length := clear.length
  intro p member
  rcases List.mem_append.mp member with earlier | last
  · exact clear.pointers p earlier
  · rw [List.mem_singleton.mp last]
    omega

/-- The open argument is cut. -/
theorem Clear.cut (clear : Clear stop args done offset start inQuotes (c :: rest)) (apart : start ≠ .beyond)
    (stays : outlook (args.length + 1) .here false rest ≠ .strays) :
    Clear stop (args ++ [offset]) (done ++ [0]) (done.length + 1) .here false rest := by
  have counted : (args ++ [offset]).length = args.length + 1 := List.length_append
  refine ⟨?_, counted.symm ▸ stays, by simp [Stands], clear.pushed apart⟩
  rw [← clear.length, List.length_append, List.length_singleton, List.length_cons]
  omega

/-- The open argument is cut in front of an operand that ends the text. -/
theorem Clear.reread (clear : Clear stop args done offset start inQuotes (c :: rest)) (apart : start ≠ .beyond)
    (stays : outlook (args.length + 1) .beyond false rest ≠ .strays) :
    Clear stop (args ++ [offset]) (done ++ [0]) (stop + 1) .beyond false rest := by
  have counted : (args ++ [offset]).length = args.length + 1 := List.length_append
  refine ⟨?_, counted.symm ▸ stays, rfl, clear.pushed apart⟩
  rw [← clear.length, List.length_append, List.length_singleton, List.length_cons]
  omega

end Clear

/-- A text that does not stray is cut into arguments that begin inside it, and
a quiet text leaves the redirections alone. -/
theorem run_clear {start : Start} {text : List UInt8} (free : NulFree text)
    (clear : Clear stop args done offset start inQuotes text) (wide : cmd.argv.length = cmdArgvMax) :
    Within stop (scanLoop.run (scanning cmd args done (text ++ 0 :: behind) offset inQuotes heap)).cmd ∧
      (outlook args.length start inQuotes text = .quiet →
        SameFiles cmd (scanLoop.run (scanning cmd args done (text ++ 0 :: behind) offset inQuotes heap)).cmd) := by
  induction text generalizing cmd args done offset inQuotes heap start with
  | nil =>
    rw [List.nil_append, run_terminator]
    exact ⟨within_scanning clear.pointers, fun _ => sameFiles_scanning⟩
  | cons c rest ih =>
    obtain ⟨nonzero, later⟩ := nulFree_cons.mp free
    by_cases full : cmdArgvMax - 1 ≤ args.length
    · rw [run_full full]
      exact ⟨within_scanning clear.pointers, fun _ => sameFiles_scanning⟩
    have room := Nat.lt_of_not_le full
    have stays := clear.stays
    have counted : (args ++ [offset]).length = args.length + 1 := List.length_append
    rw [List.cons_append]
    rcases kinds nonzero inQuotes with rfl | passive | ⟨rfl, space | operator⟩
    · cases inQuotes with
      | true =>
        rw [turn_close wide room]
        rw [outlook_close room] at stays ⊢
        obtain ⟨apart, stays⟩ := ended_ne_strays stays
        refine (ih later (clear.cut apart stays) wide).imp_right fun quiet calm => quiet ?_
        rw [counted]
        exact (ended_quiet calm).2
      | false =>
        rw [turn_open room]
        rw [outlook_open room] at stays ⊢
        exact ih later (clear.skip quoteChar stays) wide
    · rw [turn_passive passive room]
      rw [outlook_passive passive room] at stays ⊢
      exact ih later (clear.pass stays) wide
    · rw [outlook_space space room] at stays ⊢
      by_cases here : start = .here
      · obtain rfl : offset = done.length := by
          have stands := clear.stands
          rw [here] at stands
          exact stands
        rw [turn_gap space room]
        rw [if_pos here] at stays ⊢
        exact ih later (clear.skip c stays) wide
      · rw [if_neg here] at stays ⊢
        obtain ⟨apart, stays⟩ := ended_ne_strays stays
        have moved : offset ≠ done.length := by
          have stands := clear.stands
          cases start with
          | here => exact absurd rfl here
          | back => exact Nat.ne_of_lt stands
          | beyond => exact absurd rfl apart
        rw [turn_space space moved wide room]
        refine (ih later (clear.cut apart stays) wide).imp_right fun quiet calm => quiet ?_
        rw [counted]
        exact (ended_quiet calm).2
    · rw [outlook_operator operator room] at stays ⊢
      obtain ⟨apart, stays⟩ := ended_ne_strays stays
      refine ⟨?_, fun quiet => ?_⟩
      · refine run_operator operator later clear.length (clear.pushed apart) wide room fun last cmd heap wide => ?_
        rw [if_neg last] at stays
        exact (ih later (clear.reread apart fun strays => stays (by rw [strays]; rfl)) wide).1
      · have silent := (ended_quiet quiet).2
        split at silent
        next => cases silent
        next => exact absurd silent (redirected_ne_quiet _)

end SysProg.LineOutlook
