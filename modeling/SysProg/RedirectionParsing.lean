import SysProg.LineGrammar
import SysProg.LocalLoop

/-! What `build_cmd_buff` makes of a command line with redirections. Every
operator is also taken for the end of an argument, so a redirected command has
an empty argument too many, and all but a few lines go wrong in other ways as
well. Nothing resets the fields for files, so what an earlier line has left in
them stays when the line does not set them. -/
namespace SysProg.RedirectionParsing
open CString WhileLoop Dshlib Scanner LineGrammar

/-- The command buffer holds what the line asks for. -/
structure Holds (line : CommandLine) (built : CmdBuff) : Prop where
  argc : built.argc = line.words.length
  argv : ∀ (i : Nat) word, line.words[i]? = some word →
    ∃ p, p < line.render.length ∧ built.argv[i]? = some (some p) ∧ built.string p = word
  terminated : built.argv[line.words.length]? = some none
  input : built.inputFile = line.input.map (·.file)
  output : built.outputFile = line.output.map (·.file)
  append : built.appendOutput = true ↔ ∃ r, line.output = some r ∧ r.operator = .append

/-- `build_cmd_buff` returns OK with what the line asks for. -/
def Parsed (line : CommandLine) (cmd : CmdBuff) (heap : Heap) : Prop :=
  ∃ built after, buildCmdBuff line.render cmd heap = some (ok, built, after) ∧ Holds line built

/-- The buffer's fields are already what the line asks for: all of them, or those
that an operator of the line leaves alone. -/
def Asked (line : CommandLine) (cmd : CmdBuff) : Option Operator → Prop
  | none => cmd.inputFile = line.input.map (·.file) ∧ cmd.outputFile = line.output.map (·.file) ∧
      (cmd.appendOutput = true ↔ ∃ r, line.output = some r ∧ r.operator = .append)
  | some .input => cmd.outputFile = line.output.map (·.file) ∧
      (cmd.appendOutput = true ↔ ∃ r, line.output = some r ∧ r.operator = .append)
  | some .output => cmd.inputFile = line.input.map (·.file) ∧ cmd.appendOutput = false
  | some .append => cmd.inputFile = line.input.map (·.file)

/-- The one empty argument that the first operator leaves behind is what the
line asks for: its last word is empty, and the scanner meets nothing that ends
an argument behind the operator. An operator behind the eighth word is not
reached at all. -/
def Harmless (line : CommandLine) (cmd : CmdBuff) (heap : Heap) : Prop :=
  match Items.firstRedirection line.items with
  | none => Asked line cmd none
  | some (before, r, after) =>
    if before.length + 1 = cmdMax then Asked line cmd none
    else
      Items.words after = [[]] ∧ (before.length + 2 = cmdMax ∨ r.operator ≠ .append ∧ r.gap = []) ∧
        heap.strings.headD true = true ∧ Asked line cmd (some r.operator)

/-! ### Behind the first operator -/

section Redirections
variable {cmd : CmdBuff} {heap : Heap} {args : List Nat} {done behind : List UInt8}

theorem isOperand (r : Redirection) (stops : stop = 0 ∨ isspace stop = true) : IsOperand r.gap r.file stop where
  spaces := r.spaces
  name := fun c member => ⟨((r.name c member).2.2 rfl).1, (r.name c member).1⟩
  stops := stops.imp_right fun space => ⟨space, r.nonempty⟩

theorem length_redirection (r : Redirection) :
    r.render.length = r.operator.tail.length + 1 + r.gap.length + r.file.length := by
  simp only [Redirection.render, List.length_append, length_operator, Nat.add_assoc]

/-- Neither white space nor a file name begins with a second `>`. -/
theorem isSingle (r : Redirection) (text : List UInt8) : r.operator.Single (r.gap ++ (r.file ++ text)) := by
  intro _ double
  cases gap : r.gap with
  | nil =>
    obtain ⟨first, name, file⟩ := List.exists_cons_of_ne_nil r.nonempty
    have first_plain := (r.name first (by simp [file])).2.2 rfl
    rw [gap, file] at double
    exact first_plain.2.2 (Option.some.inj double)
  | cons c gap' =>
    have space := r.spaces c (by simp [gap])
    rw [gap] at double
    rw [Option.some.inj double] at space
    exact absurd space (by decide)

/-- The scanner behind an operator, in front of the operand it has just taken. -/
def taken (r : Redirection) (cmd : CmdBuff) (args : List Nat) (done behind : List UInt8) (heap : Heap) : Scan :=
  scanning (r.operator.store (heap.strdup r.file).1 cmd) (args ++ [done.length]) (done ++ [0])
    (r.operator.tail ++ (r.gap ++ (r.file ++ 0 :: behind))) (done.length + r.render.length + 1) false
    (heap.strdup r.file).2

theorem run_operator (r : Redirection) (stops : stop = 0 ∨ isspace stop = true) (wide : cmd.argv.length = cmdArgvMax)
    (room : args.length < cmdArgvMax - 1) :
    scanLoop.run (scanning cmd args done (r.render ++ stop :: behind) done.length false heap) =
      scanLoop.run (taken r cmd args done behind heap) := by
  have text : r.render ++ stop :: behind = r.operator.render ++ (r.gap ++ (r.file ++ stop :: behind)) := by
    simp [Redirection.render]
  have place : done.length + r.render.length + 1 =
      done.length + r.operator.render.length + r.gap.length + r.file.length + 1 := by
    simp only [Redirection.render, List.length_append]
    omega
  rw [text, turn_operator r.operator (isOperand r stops) (isSingle r _) wide room, taken, place]

theorem single_tail {operator : Operator} (single : operator ≠ .append) : operator.tail = [] := by
  cases operator with
  | append => exact absurd rfl single
  | input => rfl
  | output => rfl

/-- The operator is the last thing scanned: the argument vector is full, or the
operand stands right behind it and hides the rest of the line. -/
theorem finish_taken (r : Redirection) {words : List (List UInt8)} (reads : List.Forall₂ (Reads done) args words)
    (last : args.length + 2 = cmdArgvMax ∨ r.operator ≠ .append ∧ r.gap = []) (within : done.length + 1 ≤ limit) :
    Finished (r.operator.store (heap.strdup r.file).1 cmd) limit (words ++ [[]])
      (scanLoop.run (taken r cmd args done behind heap)).finish := by
  have extra : List.Forall₂ (Reads (done ++ [0])) (args ++ [done.length]) (words ++ [[]]) :=
    have empty : Reads (done ++ [] ++ [0]) done.length [] := reads_last nulFree_nil done
    reads_concat (reads_more reads [0]) (by simpa using empty)
  by_cases full : cmdArgvMax - 1 ≤ (args ++ [done.length]).length
  · rw [taken, run_full full, finish_cut (.inr full)]
    exact ⟨_, _, rfl, finished_reads extra (by simpa using within) _⟩
  · have room := Nat.lt_of_not_le full
    obtain ⟨single, close⟩ : r.operator ≠ .append ∧ r.gap = [] := by
      rcases last with few | last
      · rw [List.length_append, List.length_singleton] at full
        omega
      · exact last
    have tail : r.operator.tail = [] := single_tail single
    have length : r.render.length = r.file.length + 1 := by
      simp [length_redirection, tail, close, Nat.add_comm]
    rw [taken, tail, close, List.nil_append, List.nil_append, run_passive r.name room, run_terminator,
      finish_cut (.inl (by simp [length]))]
    refine ⟨_, _, rfl, ?_⟩
    rw [List.append_assoc]
    exact finished_reads extra (by simpa using within) _

/-- One more argument begins behind the operand's terminator. -/
def Astray (index stop : Nat) (behind : List UInt8) (s : Scan) : Prop :=
  InFront stop behind s ∧ s.cmd.argv[index]? = some (some (stop + 1)) ∧ index < s.cmd.argc

theorem astray_run (astray : Astray index stop behind s) : Astray index stop behind (scanLoop.run s) := by
  refine (run_keeps scanLoop (Astray index stop behind) (fun s more astray => ?_) astray).1
  obtain ⟨inFront, pointer, cut⟩ := astray
  obtain ⟨same, further⟩ := argument_step cut
  exact ⟨inFront_step more inFront, same.trans pointer, further⟩

theorem astray_finish (astray : Astray index stop behind s) :
    s.finish.argv[index]? = some (some (stop + 1)) ∧ index < s.finish.argc ∧
      s.finish.string (stop + 1) = cString behind := by
  obtain ⟨⟨-, ends⟩, pointer, cut⟩ := astray
  have other : ¬ s.cmd.argc = index := by omega
  have further : ¬ s.cmd.argc + 1 = index := by omega
  have text : cString (s.cmd.buffer.drop (stop + 1)) = cString behind := by
    rw [← List.drop_drop, ends, List.drop_one, List.tail_cons]
  simp only [Scan.finish]
  split
  · refine ⟨?_, Nat.lt_succ_of_lt cut, text⟩
    change ((s.cmd.argv.set s.cmd.argc (some s.start)).set (s.cmd.argc + 1) none)[index]? = _
    rw [List.getElem?_set_ne further, List.getElem?_set_ne other, pointer]
  · exact ⟨by rw [List.getElem?_set_ne other, pointer], cut, text⟩

/-- White space behind something, or a `>`, ends the argument that has begun. -/
theorem ends_argument {s : Scan} (unquoted : s.inQuotes = false)
    (here : isspace (s.cmd.byte s.token) = true ∧ s.start ≠ s.token ∨ s.cmd.byte s.token = greaterChar)
    (wide : s.cmd.argc < s.cmd.argv.length) :
    s.step.cmd.argv[s.cmd.argc]? = some (some s.start) ∧ s.cmd.argc < s.step.cmd.argc := by
  have cut : s.cut.cmd.argv[s.cmd.argc]? = some (some s.start) ∧ s.cmd.argc < s.cut.cmd.argc :=
    ⟨List.getElem?_set_self wide, Nat.lt_succ_self _⟩
  rcases here with ⟨space, moved⟩ | greater
  · simpa only [Scan.step, branch_space space unquoted, if_pos moved] using cut
  · simp only [Scan.step, branch_greater greater unquoted]
    exact cut

/-- In front of the file name stands a second `>` or white space. -/
theorem active_ahead (r : Redirection) (more : r.operator = .append ∨ r.gap ≠ []) (rest : List UInt8) :
    ∃ c ahead, r.operator.tail ++ (r.gap ++ rest) = c :: ahead ∧ c ≠ 0 ∧ (isspace c = true ∨ c = greaterChar) := by
  by_cases append : r.operator = .append
  · exact ⟨greaterChar, _, by rw [append]; rfl, by decide, .inr rfl⟩
  · obtain ⟨c, spaces, gap⟩ := List.exists_cons_of_ne_nil (more.resolve_left append)
    have tail : r.operator.tail = [] := single_tail append
    have space := r.spaces c (by simp [gap])
    exact ⟨c, _, by rw [tail, gap]; rfl, (space_active space).1, .inl space⟩

theorem inFront_taken (r : Redirection) :
    InFront (done.length + r.render.length) behind (taken r cmd args done behind heap) := by
  have text : r.operator.tail ++ (r.gap ++ (r.file ++ 0 :: behind)) =
      r.operator.tail ++ r.gap ++ r.file ++ 0 :: behind := by
    simp only [List.append_assoc]
  have place : done.length + r.render.length = (done ++ [0]).length + (r.operator.tail ++ r.gap ++ r.file).length := by
    simp only [length_redirection, List.length_append, List.length_singleton]
    omega
  rw [taken, text, place]
  exact inFront_scanning

/-- A second `>`, or white space in front of the file name, ends an argument
that begins behind the file name. -/
theorem taken_astray (r : Redirection) (wide : cmd.argv.length = cmdArgvMax) (room : args.length + 2 < cmdArgvMax)
    (more : r.operator = .append ∨ r.gap ≠ []) :
    Astray (args.length + 1) (done.length + r.render.length) behind
      (scanLoop.run (taken r cmd args done behind heap)) := by
  obtain ⟨c, ahead, text, nonzero, active⟩ := active_ahead r more (r.file ++ 0 :: behind)
  have few : (args ++ [done.length]).length < cmdArgvMax - 1 := by
    rw [List.length_append, List.length_singleton]
    omega
  have inFront : InFront (done.length + r.render.length) behind (taken r cmd args done behind heap) := inFront_taken r
  have more : scanLoop.guard (taken r cmd args done behind heap) = true := by
    rw [taken, text]
    exact goes_on nonzero few
  have here : (taken r cmd args done behind heap).cmd.byte (taken r cmd args done behind heap).token = c := by
    rw [taken, text]
    exact byte_ahead
  have argc : (taken r cmd args done behind heap).cmd.argc = args.length + 1 := by simp [taken, scanning]
  have moved : (taken r cmd args done behind heap).start ≠ (taken r cmd args done behind heap).token := by
    simp [taken, scanning, length_redirection]
  have within : (taken r cmd args done behind heap).cmd.argc < (taken r cmd args done behind heap).cmd.argv.length := by
    have wide : (r.operator.store (heap.strdup r.file).1 cmd).argv.length = cmdArgvMax := by
      cases r.operator <;> exact wide
    simp [taken, scanning, holding, wide]
    omega
  obtain ⟨pointer, further⟩ := ends_argument (s := taken r cmd args done behind heap) rfl
    (active.imp (fun space => ⟨here.symm ▸ space, moved⟩) here.trans) within
  rw [run_turn _ more]
  rw [argc] at pointer further
  exact astray_run ⟨inFront_step more inFront, pointer, further⟩

end Redirections

/-! ### What a line gets -/

/-- The arguments are read where the command has its pointers. -/
theorem holds_iff (line : CommandLine) {read : List (List UInt8)} (wide : cmd.argv.length = cmdArgvMax)
    (finished : Finished cmd line.render.length read built) :
    Holds line built ↔ read = line.words ∧ Asked line cmd none := by
  obtain ⟨args, buffer, rfl, reads⟩ := finished
  have pointer (i : Nat) (inside : i < args.length) :
      ((holding cmd args buffer).argv.set args.length none)[i]? = some (some args[i]) := by
    rw [List.getElem?_set_ne (by omega), holding, List.getElem?_append_left (by simpa using inside)]
    simp [inside]
  constructor
  · intro holds
    refine ⟨?_, holds.input, holds.output, holds.append⟩
    have length : read.length = line.words.length := reads.length_eq.symm.trans holds.argc
    refine List.ext_getElem length fun i inRead inWords => ?_
    have inArgs : i < args.length := by rw [reads.length_eq]; exact inRead
    obtain ⟨p, -, place, string⟩ := holds.argv i _ (List.getElem?_eq_getElem inWords)
    have same : args[i] = p := by
      have found := (pointer i inArgs).symm.trans place
      exact Option.some.inj (Option.some.inj found)
    have here := (List.forall₂_iff_get.mp reads).2 i inArgs inRead
    simp only [List.get_eq_getElem] at here
    rw [← here.2, same]
    exact string
  · rintro ⟨rfl, input, output, append⟩
    have few : args.length < cmdArgvMax := by
      have := line.fewWords
      rw [reads.length_eq, CommandLine.words, List.length_cons]
      exact Nat.lt_succ_of_le this
    refine ⟨reads.length_eq, fun i word found => ?_, ?_, input, output, append⟩
    · obtain ⟨inWords, rfl⟩ := List.getElem?_eq_some_iff.mp found
      have inArgs : i < args.length := by rw [reads.length_eq]; exact inWords
      have here := (List.forall₂_iff_get.mp reads).2 i inArgs inWords
      simp only [List.get_eq_getElem] at here
      exact ⟨args[i], here.1, pointer i inArgs, here.2⟩
    · rw [← reads.length_eq]
      refine List.getElem?_set_self ?_
      simp [holding]
      omega

/-- The copy of the line is scanned from its first word on. -/
theorem buildCmdBuff_line (line : CommandLine) {cmd : CmdBuff} (size : cmd.buffer.length = shCmdMax) (heap : Heap) :
    ∃ stale s, Between cmd heap [] 0 (line.render ++ 0 :: stale) s ∧
      buildCmdBuff line.render cmd heap = some (ok, (scanLoop.run s).finish, (scanLoop.run s).heap) := by
  have free : NulFree line.render := by
    simp [CommandLine.render, Word.nulFree_render, Items.nulFree_render]
  obtain ⟨first, more, text, active⟩ : ∃ first more, line.render = first :: more ∧ isspace first = false := by
    rw [CommandLine.render]
    cases line.first with
    | bare bytes nonempty plain =>
      obtain ⟨first, more, rfl⟩ := List.exists_cons_of_ne_nil nonempty
      exact ⟨first, _, rfl, ((plain first (by simp)).2.2 rfl).1⟩
    | quoted bytes plain => exact ⟨quoteChar, _, rfl, by decide⟩
  have copied : (cString line.render).dropWhile isspace = line.render := by
    rw [cString_of_nulFree free, text, List.dropWhile_cons_of_neg (by simp [active])]
  have nonblank : line.render ≠ [] := by simp [text]
  have short : line.render.length < cmd.buffer.length := size.symm ▸ line.short
  exact ⟨_, _, ⟨[], [], rfl, rfl, .nil⟩, buildCmdBuff_scans copied nonblank short heap⟩

theorem strdup_file (heap : Heap) (file : List UInt8) :
    (heap.strdup file).1 = some file ↔ heap.strings.headD true = true := by
  simp only [Heap.strdup]
  split
  next granted => exact iff_of_true rfl granted
  next refused => exact iff_of_false (by simp) refused

/-- The character behind a redirection, and how much of the line is left. -/
theorem behind_items (after : Items) (stale : List UInt8) :
    ∃ stop behind, Items.render after ++ 0 :: stale = stop :: behind ∧ (stop = 0 ∨ isspace stop = true) ∧
      (after ≠ [] → (cString behind).length + 1 = (Items.render after).length) := by
  cases after with
  | nil => exact ⟨0, stale, rfl, .inl rfl, fun some => absurd rfl some⟩
  | cons next after =>
    obtain ⟨separator, item⟩ := next
    obtain ⟨c, spaces, gap⟩ := List.exists_cons_of_ne_nil separator.property.1
    have text : Items.render ((separator, item) :: after) = c :: (spaces ++ (item.render ++ Items.render after)) := by
      rw [render_cons, gap, List.cons_append]
    have free : NulFree (spaces ++ (item.render ++ Items.render after)) := by
      have all := Items.nulFree_render ((separator, item) :: after)
      rw [text] at all
      exact (nulFree_cons.mp all).2
    refine ⟨c, spaces ++ (item.render ++ Items.render after) ++ 0 :: stale, by rw [text]; rfl, .inr ?_, fun _ => ?_⟩
    · exact separator.property.2 c (by simp [gap])
    · rw [cString_terminated free, text, List.length_cons]

/-! ### The three ways a line goes -/

section Lines
variable {line : CommandLine} {cmd : CmdBuff} {heap : Heap} {stale : List UInt8} {s : Scan}
  {before : List (Separator × Word)} {separator : Separator} {r : Redirection} {after : Items}

/-- A line of words leaves the fields as they were. -/
theorem holds_words_iff (wide : cmd.argv.length = cmdArgvMax) (items : line.items = asItems before)
    (between : Between cmd heap [] 0 (line.render ++ 0 :: stale) s) :
    Holds line (scanLoop.run s).finish ↔ Asked line cmd none := by
  have few := line.fewWords
  rw [items, words_asItems, List.length_map] at few
  have text : line.render ++ 0 :: stale = line.first.render ++ (Items.render (asItems before) ++ 0 :: stale) := by
    rw [CommandLine.render, items, List.append_assoc]
  have finished := finish_words line.first before wide (by simpa using few) (text ▸ between)
  have limit : 0 + line.first.render.length + (Items.render (asItems before)).length = line.render.length := by
    rw [CommandLine.render, items, List.length_append, Nat.zero_add]
  rw [limit] at finished
  rw [holds_iff line wide finished, and_iff_right]
  simp [CommandLine.words, items]

theorem fewWords_split (items : line.items = asItems before ++ (separator, .redirection r) :: after) :
    before.length + (Items.words after).length + 1 ≤ cmdMax := by
  have few := line.fewWords
  rwa [items, words_append, words_asItems, words_cons_redirection, List.length_append, List.length_map] at few

theorem redirections_split (items : line.items = asItems before ++ (separator, .redirection r) :: after) :
    line.items.redirections = r :: Items.redirections after := by
  rw [items, redirections_append, redirections_asItems, redirections_cons_redirection, List.nil_append]

theorem render_split (items : line.items = asItems before ++ (separator, .redirection r) :: after) :
    line.render ++ 0 :: stale = line.first.render ++ (Items.render (asItems before) ++
      (separator.val ++ (r.render ++ (Items.render after ++ 0 :: stale)))) := by
  rw [CommandLine.render, items, render_append, render_cons, Item.render]
  simp only [List.append_assoc]

theorem length_split (items : line.items = asItems before ++ (separator, .redirection r) :: after) :
    line.render.length = line.first.render.length + (Items.render (asItems before)).length + separator.val.length +
      r.render.length + (Items.render after).length := by
  rw [CommandLine.render, items, render_append, render_cons, Item.render]
  simp only [List.length_append]
  omega

/-- A redirection behind the eighth word is not parsed at all, so the fields
stay as they were. -/
theorem holds_full_iff (wide : cmd.argv.length = cmdArgvMax)
    (items : line.items = asItems before ++ (separator, .redirection r) :: after) (full : before.length + 1 = cmdMax)
    (between : Between cmd heap [] 0 (line.render ++ 0 :: stale) s) :
    Holds line (scanLoop.run s).finish ↔ Asked line cmd none := by
  obtain ⟨s', skipped, spaces, parts, run, reached⟩ :=
    run_words line.first before separator wide (by simp; omega) (render_split items ▸ between)
  have stops : scanLoop.run s' = s' := by
    obtain ⟨args, done, rfl, -, reads⟩ := reached
    refine run_full ?_
    rw [reads.length_eq]
    simp [cmdArgvMax, ← full]
  have within : 0 + line.first.render.length + (Items.render (asItems before)).length + skipped.length ≤
      line.render.length := by
    rw [length_split items, parts, List.length_append]
    omega
  have none_behind : Items.words after = [] := by
    have few := fewWords_split items
    exact List.eq_nil_of_length_eq_zero (by omega)
  have finished := finish_between reached within
  rw [run, stops, holds_iff line wide finished, and_iff_right]
  rw [CommandLine.words, items, words_append, words_asItems, words_cons_redirection, none_behind, List.append_nil,
    List.nil_append]

/-- The words in front of a redirection are cut, and its operand is taken. -/
theorem run_redirection (wide : cmd.argv.length = cmdArgvMax)
    (items : line.items = asItems before ++ (separator, .redirection r) :: after) (room : before.length + 1 < cmdMax)
    (between : Between cmd heap [] 0 (line.render ++ 0 :: stale) s) :
    ∃ args done behind, scanLoop.run s = scanLoop.run (taken r cmd args done behind heap) ∧
      List.Forall₂ (Reads done) args (line.first.contents :: before.map (·.2.contents)) ∧
      done.length + r.render.length ≤ line.render.length ∧
      (after ≠ [] → (cString behind).length + 1 = (Items.render after).length) := by
  obtain ⟨s', run, args, done, rfl, passed, reads⟩ :=
    run_words_spaces line.first before separator wide (by simpa using room) (render_split items ▸ between)
  obtain ⟨stop, behind, text, stops, left⟩ := behind_items after stale
  have few : args.length < cmdArgvMax - 1 := by
    rw [reads.length_eq, List.nil_append, List.length_cons, List.length_map]
    exact room
  rw [List.nil_append] at reads
  refine ⟨args, done, behind, ?_, reads, ?_, left⟩
  · rw [run, text, run_operator r stops wide few]
  · rw [passed, length_split items]
    omega

/-- Behind an operator that is followed by a second `>` or by white space, the
rest of the line becomes one argument. -/
theorem not_holds_astray (wide : cmd.argv.length = cmdArgvMax)
    (items : line.items = asItems before ++ (separator, .redirection r) :: after) (room : before.length + 2 < cmdMax)
    (more : r.operator = .append ∨ r.gap ≠ [])
    (between : Between cmd heap [] 0 (line.render ++ 0 :: stale) s) : ¬ Holds line (scanLoop.run s).finish := by
  obtain ⟨args, done, behind, run, reads, -, left⟩ := run_redirection wide items (by omega) between
  have length : args.length = before.length + 1 := by
    rw [reads.length_eq]
    simp
  have astray : Astray (args.length + 1) (done.length + r.render.length) behind
      (scanLoop.run (taken r cmd args done behind heap)) :=
    taken_astray r wide (by rw [length]; exact Nat.succ_lt_succ room) more
  obtain ⟨pointer, further, string⟩ := astray_finish astray
  rw [run]
  intro holds
  have words : line.words = line.first.contents :: (before.map (·.2.contents) ++ Items.words after) := by
    rw [CommandLine.words, items, words_append, words_asItems, words_cons_redirection]
  rw [holds.argc, words, List.length_cons, List.length_append, List.length_map, length] at further
  obtain ⟨first, second, others, split⟩ : ∃ first second others, Items.words after = first :: second :: others := by
    match split : Items.words after with
    | [] =>
      rw [split, List.length_nil] at further
      omega
    | [_] =>
      rw [split, List.length_singleton] at further
      omega
    | first :: second :: others => exact ⟨first, second, others, rfl⟩
  have entry : line.words[args.length + 1]? = some second := by
    rw [words, split, length, List.getElem?_cons_succ, List.getElem?_append_right (by simp)]
    simp
  obtain ⟨p, -, place, found⟩ := holds.argv _ _ entry
  have same : done.length + r.render.length + 1 = p := Option.some.inj (Option.some.inj (pointer.symm.trans place))
  have rest : cString behind = second := by
    rw [← string, same]
    exact found
  have nonempty : after ≠ [] := fun none => by
    rw [none] at split
    cases split
  have fits := Items.length_render after
  rw [split, ← left nonempty, rest, List.flatten_cons, List.flatten_cons, List.length_append, List.length_append,
    List.length_cons, List.length_cons] at fits
  omega

/-- The fields that the first operator sets are what the line asks for when the
file name could be copied. -/
theorem stored_iff (redirections : line.items.redirections = r :: others) (file : Option (List UInt8)) :
    Asked line (r.operator.store file cmd) none ↔ file = some r.file ∧ Asked line cmd (some r.operator) := by
  cases operator : r.operator with
  | input =>
    have reads : r.reads = true := by simp [Redirection.reads, operator]
    have input : line.input = some r := by simp [CommandLine.input, redirections, reads]
    simp [Asked, Operator.store, input]
  | output =>
    have writes : r.reads = false := by simp [Redirection.reads, operator]
    have output : line.output = some r := by simp [CommandLine.output, redirections, writes]
    have single : ¬ ∃ other, some r = some other ∧ other.operator = .append := by simp [operator]
    simp only [Asked, Operator.store, output, Option.map_some, single, iff_false, Bool.not_eq_true]
    exact and_left_comm
  | append =>
    have writes : r.reads = false := by simp [Redirection.reads, operator]
    have output : line.output = some r := by simp [CommandLine.output, redirections, writes]
    simp [Asked, Operator.store, output, operator, and_comm]

/-- The one empty argument is all that the redirection adds. -/
theorem holds_taken_iff (wide : cmd.argv.length = cmdArgvMax)
    (items : line.items = asItems before ++ (separator, .redirection r) :: after) (room : before.length + 1 < cmdMax)
    (last : before.length + 2 = cmdMax ∨ r.operator ≠ .append ∧ r.gap = [])
    (between : Between cmd heap [] 0 (line.render ++ 0 :: stale) s) :
    Holds line (scanLoop.run s).finish ↔
      Items.words after = [[]] ∧ heap.strings.headD true = true ∧ Asked line cmd (some r.operator) := by
  obtain ⟨args, done, behind, run, reads, within, -⟩ := run_redirection wide items room between
  have length : args.length = before.length + 1 := by
    rw [reads.length_eq]
    simp
  have some : 0 < r.render.length := by
    rw [length_redirection]
    omega
  have finished : Finished (r.operator.store (heap.strdup r.file).1 cmd) line.render.length _
      (scanLoop.run (taken r cmd args done behind heap)).finish := finish_taken r reads
    (last.imp_left fun few => by rw [length]; exact congrArg (· + 1) few) (by omega)
  have wide' : (r.operator.store (heap.strdup r.file).1 cmd).argv.length = cmdArgvMax := by
    cases r.operator <;> exact wide
  have words : line.first.contents :: before.map (·.2.contents) ++ [[]] = line.words ↔ Items.words after = [[]] := by
    rw [CommandLine.words, items, words_append, words_asItems, words_cons_redirection, List.cons_append,
      List.cons.injEq, List.append_cancel_left_eq]
    simp [eq_comm]
  rw [run, holds_iff line wide' finished, words, stored_iff (redirections_split items), strdup_file]

end Lines

/-- `build_cmd_buff` gets a command line right, in a buffer that earlier lines have
been parsed into or none, exactly when the line has no redirection or the argument
too many is one it asks for, and the fields it does not set are what it asks
for. -/
theorem parsed_iff (line : CommandLine) (ready : LocalLoop.Ready cmd) (heap : Heap) :
    Parsed line cmd heap ↔ Harmless line cmd heap := by
  obtain ⟨rest, s, between, built⟩ := buildCmdBuff_line line ready.size heap
  have parsed : Parsed line cmd heap ↔ Holds line (scanLoop.run s).finish := by
    rw [Parsed, built]
    constructor
    · rintro ⟨_, _, same, holds⟩
      cases same
      exact holds
    · exact fun holds => ⟨_, _, rfl, holds⟩
  rw [parsed, Harmless]
  cases split : Items.firstRedirection line.items with
  | none =>
    obtain ⟨before, items⟩ := firstRedirection_none split
    exact holds_words_iff ready.wide items between
  | some found =>
    obtain ⟨before, r, after⟩ := found
    obtain ⟨separator, items⟩ := firstRedirection_some split
    have few := fewWords_split items
    dsimp only
    by_cases full : before.length + 1 = cmdMax
    · rw [if_pos full]
      exact holds_full_iff ready.wide items full between
    · rw [if_neg full]
      by_cases last : before.length + 2 = cmdMax ∨ r.operator ≠ .append ∧ r.gap = []
      · rw [holds_taken_iff ready.wide items (by omega) last between]
        simp only [last, true_and]
      · refine iff_of_false (not_holds_astray ready.wide items (by omega) ?_ between) fun harmless => last harmless.2.1
        by_cases append : r.operator = .append
        · exact .inl append
        · exact .inr fun close => last (.inr ⟨append, close⟩)

/-- `echo "a b"`. -/
def echoLine : CommandLine where
  first := .bare (text "echo") (by decide +kernel) (by decide +kernel)
  items := [(⟨text " ", by decide +kernel⟩, .word (.quoted (text "a b") (by decide +kernel)))]
  fewWords := by decide +kernel
  oneInput := by decide +kernel
  oneOutput := by decide +kernel
  short := by decide +kernel

/-- `cat < in`. -/
def catLine : CommandLine where
  first := .bare (text "cat") (by decide +kernel) (by decide +kernel)
  items := [(⟨text " ", by decide +kernel⟩,
    .redirection ⟨.input, text " ", text "in", by decide +kernel, by decide +kernel, by decide +kernel⟩)]
  fewWords := by decide +kernel
  oneInput := by decide +kernel
  oneOutput := by decide +kernel
  short := by decide +kernel

/-- A command buffer filled with zeros. -/
def zeroed : CmdBuff := ⟨0, noArgv, List.replicate shCmdMax 0, none, none, false⟩

/-- The same buffer with what a line for `sort` has left in it. -/
def reused : CmdBuff := { zeroed with argc := 4, inputFile := some (text "in") }

/-- A fresh buffer takes the line, and one that still holds an input file does
not. -/
theorem echo_parsed : Parsed echoLine zeroed ⟨[], [], 1, 0⟩ ∧ ¬ Parsed echoLine reused ⟨[], [], 1, 0⟩ := by
  have unasked : ¬ Harmless echoLine reused ⟨[], [], 1, 0⟩ := fun asked => nomatch asked.1
  exact ⟨(parsed_iff echoLine ⟨List.length_replicate, rfl⟩ _).mpr ⟨rfl, rfl, by decide +kernel⟩,
    fun parsed => unasked ((parsed_iff echoLine ⟨List.length_replicate, rfl⟩ _).mp parsed)⟩

/-- `cat < in` is given four arguments instead of one. -/
theorem cat_not_parsed : ¬ Parsed catLine zeroed ⟨[], [], 1, 0⟩ := by
  rintro ⟨built, after, run, holds⟩
  have four : (buildCmdBuff catLine.render zeroed ⟨[], [], 1, 0⟩).map (·.2.1.argc) = some 4 := by decide +kernel
  rw [run] at four
  have one : built.argc = 1 := holds.argc
  rw [Option.map_some, one] at four
  exact absurd four (by decide)

end SysProg.RedirectionParsing
