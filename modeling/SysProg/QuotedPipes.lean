import SysProg.PipelineParents
import SysProg.PipeSplitting
import SysProg.RedirectionParsing
import Mathlib.Algebra.GroupWithZero.Nat

/-! Quotes and pipes on one line. The scanner inside a command knows quotes,
but the search for a pipe character in front of it and the splitter behind that
search do not, so a quoted pipe always turns its command into two. And a line
that is taken apart right is still not executed when a call fails or when it has
a built-in command beside another one. -/
namespace SysProg.QuotedPipes
open CString WhileLoop Dshlib CopyBounds Scanner LineGrammar LocalLoop PipeSplitting
open PipelineParents (Setting Plain)

variable {ε δ : Type*}

/-! ### Pipelines as they are meant -/

/-- A word that is not enclosed in quotes does not contain a pipe. -/
def Shields : Word → Prop
  | .bare bytes _ _ => pipeChar ∉ bytes
  | .quoted _ _ => True

/-- One command of a pipeline: one to eight words with white space between them. -/
structure Simple where
  first : Word
  others : List (Separator × Word)
  fewWords : others.length + 1 ≤ cmdMax
  shielded : ∀ word ∈ first :: others.map (·.2), Shields word

def Simple.wordList (c : Simple) : List Word := c.first :: c.others.map (·.2)

def Simple.words (c : Simple) : List (List UInt8) := c.wordList.map (·.contents)

def Simple.render (c : Simple) : List UInt8 := c.first.render ++ Items.render (asItems c.others)

/-- One to eight commands. -/
structure Pipeline where
  first : Simple
  others : List Simple
  fewCommands : others.length + 1 ≤ cmdMax

def Pipeline.commands (p : Pipeline) : List Simple := p.first :: p.others

def Pipeline.render (p : Pipeline) : List UInt8 := [pipeChar].intercalate (p.commands.map (·.render))

/-- The argument vectors a pipeline asks for. -/
def Pipeline.vectors (p : Pipeline) : List (List (List UInt8)) := p.commands.map (·.words)

/-- No word contains a pipe, not even in quotes. -/
def Pipeline.PipeFree (p : Pipeline) : Prop := ∀ c ∈ p.commands, ∀ word ∈ c.wordList, pipeChar ∉ word.contents

/-! ### What is executed -/

/-- The strings in front of the first NULL of `argv`. -/
def vector (cmd : CmdBuff) : List (List UInt8) := (cmd.argv.takeWhile (·.isSome)).filterMap (·.map cmd.string)

/-- The loop takes the line apart without an error: several commands for
`exec_pipeline`, or the one in its own buffer, for which it makes the same calls
as `exec_pipeline` does for a list of one. -/
def TakenApart (s : Local) (input : Input) (clist : List CmdBuff) : Prop :=
  if pipeChar ∈ input.text then
    ∃ after, buildCmdList input.text s.cmdList (s.heapFor input) = some (ok, clist, after)
  else ∃ cmd after, buildCmdBuff input.text s.cmd (s.heapFor input) = some (ok, cmd, after) ∧ clist = [cmd]

/-- The commands that have been carried out when the execution of a list has
ended: a built-in alone, or those that children were forked for, in their order. -/
def carriedOut (c : Setting ε δ) : List CmdBuff → List CmdBuff
  | [cmd] =>
    if Plain cmd then [cmd].take (PipelineParents.execPipeline c [cmd]).2.children.length else [cmd]
  | clist => clist.take (PipelineParents.execPipeline c clist).2.children.length

/-- The loop executes the line as these argument vectors, all of them and
without an error. -/
def Runs (c : Setting ε δ) (s : Local) (input : Input) (vectors : List (List (List UInt8))) : Prop :=
  ∃ clist, TakenApart s input clist ∧ (PipelineParents.execPipeline c clist).1 ∈ [ok, okExit] ∧
    (carriedOut c clist).map vector = vectors

/-- The allocations a pipeline of several commands needs: a copy of the line
and one buffer for each command. -/
def Allocated (p : Pipeline) (input : Input) : Prop :=
  p.others = [] ∨ input.strings.headD true = true ∧ ∀ block ∈ input.blocks.take p.commands.length, block ≠ none

/-- The command's name is that of a program. -/
def IsProgram (c : Simple) : Prop := matchCommand c.first.contents = .notBi

instance : DecidablePred IsProgram := fun c => inferInstanceAs (Decidable (matchCommand c.first.contents = .notBi))

/-- What the execution of a pipeline needs: a fork for a program alone, and for
several commands all of them programs, the pipes between them, and a fork for
each. -/
def Started (p : Pipeline) (c : Setting ε δ) : Prop :=
  if p.others = [] then IsProgram p.first → 1 ≤ c.forks
  else (∀ command ∈ p.commands, IsProgram command) ∧ p.others.length ≤ c.pipes.length ∧
    p.commands.length ≤ c.forks

instance (p : Pipeline) (c : Setting ε δ) : Decidable (Started p c) := inferInstanceAs (Decidable (ite ..))

/-! ### Carrying out a list of commands -/

section Execution
variable {c : Setting ε δ} {clist : List CmdBuff} {cmd : CmdBuff} {vectors : List (List (List UInt8))}

/-- A built-in alone ends without an error, whatever `chdir` says. -/
theorem builtIn_executed (c : Setting ε δ) (other : ¬ Plain cmd) :
    (PipelineParents.execPipeline c [cmd]).1 ∈ [ok, okExit] := by
  simp only [PipelineParents.execPipeline, ← PipelineParents.opened_zero]
  cases run : (c.opened 0).execBuiltIn c cmd with
  | mk biRc s =>
    have code : biRc = (execBuiltInCmd cmd).1 := by
      rw [← PipelineParents.execBuiltIn_code c (c.opened 0) cmd, run]
    rcases PipelineParents.execBuiltInCmd_codes cmd with own | exits | executes
    · exact absurd own other
    · simp [code, exits]
    · simp [code, executes]

theorem executed_one_iff (c : Setting ε δ) (cmd : CmdBuff) :
    ((PipelineParents.execPipeline c [cmd]).1 ∈ [ok, okExit] ∧ (carriedOut c [cmd]).map vector = vectors) ↔
      [vector cmd] = vectors ∧ (Plain cmd → 1 ≤ c.forks) := by
  by_cases plain : Plain cmd
  · rw [carriedOut, if_pos plain, PipelineParents.execPipeline_one plain, PipelineParents.execCmd]
    by_cases enough : 1 ≤ c.forks
    · have forked : (c.opened 0).fork c = some ((c.opened 0).launched 1) := PipelineParents.fork_some enough
      rw [forked]
      simp [PipelineParents.Parent.launched, PipelineParents.Parent.waitAll, Setting.opened, enough]
    · have refused : (c.opened 0).fork c = none := PipelineParents.fork_none (show c.forks ≤ 0 by omega)
      have failed : errExecCmd ∉ [ok, okExit] := by decide
      simp [refused, failed, plain, enough]
  · simp [carriedOut, plain, builtIn_executed c plain]

/-- Several commands are carried out without an error when each is a program and
no call fails; an `exit` in front ends the shell without the others. -/
theorem executed_several_iff (several : 2 ≤ clist.length) (some : vectors ≠ []) :
    ((PipelineParents.execPipeline c clist).1 ∈ [ok, okExit] ∧ (carriedOut c clist).map vector = vectors) ↔
      clist.map vector = vectors ∧ (∀ cmd ∈ clist, Plain cmd) ∧ clist.length ≤ c.pipes.length + 1 ∧
        clist.length ≤ c.forks := by
  have failed : errExecCmd ∉ [ok, okExit] := by decide
  have out : carriedOut c clist = clist.take (PipelineParents.execPipeline c clist).2.children.length := by
    match clist, several with
    | first :: second :: rest, _ => rfl
  rw [out, PipelineParents.execPipeline_several several]
  by_cases piped : clist.length ≤ c.pipes.length + 1
  · rw [if_pos piped]
    obtain ⟨first, others, rfl⟩ := List.exists_cons_of_length_pos (show 0 < clist.length by omega)
    rw [PipelineParents.afterPipes_code]
    by_cases exits : (execBuiltInCmd first).1 = .exit
    · have none_forked : (PipelineParents.afterPipes c (first :: others)).2.children = [] := by
        have built := PipelineParents.execBuiltIn_keeps c (c.opened ((first :: others).length - 1)) first
        rw [PipelineParents.afterPipes, PipelineParents.stageLoop_exit exits]
        exact built.2.2
      have notPlain : ¬ Plain first := by
        rw [Plain, exits]
        decide
      rw [if_pos exits, none_forked]
      refine iff_of_false (fun both => some ?_) fun all => notPlain (all.2.1 first (by simp))
      simpa using both.2.symm
    · rw [if_neg exits]
      by_cases all : (∀ cmd ∈ first :: others, Plain cmd) ∧ (first :: others).length ≤ c.forks
      · have children :
            (PipelineParents.afterPipes c (first :: others)).2.children.length = (first :: others).length := by
          rw [PipelineParents.afterPipes_all all.1 all.2]
          simp [PipelineParents.Parent.launched, PipelineParents.Parent.waitAll, PipelineParents.Parent.closePipes,
            Setting.opened]
        rw [if_pos all, children, List.take_length]
        exact ⟨fun both => ⟨both.2, all.1, piped, all.2⟩, fun every => ⟨by simp, every.1⟩⟩
      · rw [if_neg all]
        exact iff_of_false (fun both => failed both.1) fun every => all ⟨every.2.1, every.2.2.2⟩
  · rw [if_neg piped]
    exact iff_of_false (fun both => failed both.1) fun every => piped every.2.2.1

/-- The turn of the loop goes on to the next line or leaves, by the code that the
execution ends with. -/
theorem turn_taken {s : Local} {input : Input} (taken : TakenApart s input clist)
    (pipes : input.pipes = decide (clist.length ≤ c.pipes.length + 1))
    (forks : input.forks = decide (clist.length ≤ c.forks)) :
    ∃ next, s.turn input =
      some (if (PipelineParents.execPipeline c clist).1 = okExit then .left okExit else .next next) := by
  rw [PipelineParents.execPipeline_result c clist input pipes forks]
  have codes : ok ≠ warnNoCmds ∧ ok ≠ errTooManyCommands ∧ ok ≠ okExit ∧ errExecCmd ≠ okExit := by decide
  by_cases piped : pipeChar ∈ input.text
  · rw [TakenApart, if_pos piped] at taken
    obtain ⟨after, parsed⟩ := taken
    have typed : input.text ≠ [] := List.ne_nil_of_mem piped
    simp only [Local.turn, typed, piped, parsed, codes, if_true, if_false, or_self]
    by_cases exits : LocalLoop.execPipeline clist input = okExit
    · exact ⟨s, by rw [if_pos exits, if_pos exits]⟩
    · exact ⟨_, by rw [if_neg exits, if_neg exits]⟩
  · rw [TakenApart, if_neg piped] at taken
    obtain ⟨cmd, after, parsed, rfl⟩ := taken
    have typed : input.text ≠ [] := by
      intro none
      simp [none, buildCmdBuff, cString, codes.1.symm] at parsed
    simp only [Local.turn, typed, piped, parsed, codes, if_false]
    rcases PipelineParents.execBuiltInCmd_codes cmd with own | exits | executes
    · have goesOn : LocalLoop.execPipeline [cmd] input ≠ okExit := by
        simp only [LocalLoop.execPipeline, own, LocalLoop.execCmd]
        split <;> simp [codes]
      exact ⟨_, by rw [own, if_neg goesOn]⟩
    · have leaves : LocalLoop.execPipeline [cmd] input = okExit := by simp only [LocalLoop.execPipeline, exits]
      exact ⟨s, by rw [exits, if_pos leaves]⟩
    · have goesOn : LocalLoop.execPipeline [cmd] input ≠ okExit := by
        simp only [LocalLoop.execPipeline, executes]
        exact codes.2.2.1
      exact ⟨_, by rw [executes, if_neg goesOn]⟩

end Execution

/-! ### The characters of a command -/

theorem space_not_pipe (space : isspace c = true) : c ≠ pipeChar := by
  rintro rfl
  exact absurd space (by decide)

theorem pipe_mem_word {word : Word} : pipeChar ∈ word.render ↔ pipeChar ∈ word.contents := by
  cases word with
  | bare bytes nonempty plain => exact Iff.rfl
  | quoted bytes plain =>
    have other : pipeChar ≠ quoteChar := by decide
    simp [Word.render, Word.contents, other]

theorem pipe_mem_items {others : List (Separator × Word)} :
    pipeChar ∈ Items.render (asItems others) ↔ ∃ word ∈ others.map (·.2), pipeChar ∈ word.contents := by
  induction others with
  | nil => simp [asItems]
  | cons next others ih =>
    obtain ⟨separator, word⟩ := next
    have blank : pipeChar ∉ separator.val := fun member => space_not_pipe (separator.property.2 _ member) rfl
    have text : Items.render (asItems ((separator, word) :: others)) =
        separator.val ++ (word.render ++ Items.render (asItems others)) := render_cons ..
    rw [text, List.mem_append, List.mem_append, ih, pipe_mem_word]
    simp [blank]

/-- A command's text contains a pipe exactly when one of its words does. -/
theorem pipe_mem_render (c : Simple) : pipeChar ∈ c.render ↔ ∃ word ∈ c.wordList, pipeChar ∈ word.contents := by
  rw [Simple.render, List.mem_append, pipe_mem_word, pipe_mem_items, Simple.wordList, List.exists_mem_cons_iff]

theorem render_around {c : Simple} {word : Word} (member : word ∈ c.wordList) :
    ∃ before behind, c.render = before ++ word.render ++ behind := by
  rcases List.mem_cons.mp member with rfl | later
  · exact ⟨[], _, rfl⟩
  · obtain ⟨⟨separator, word⟩, found, rfl⟩ := List.mem_map.mp later
    obtain ⟨front, rest, split⟩ := List.append_of_mem found
    refine ⟨c.first.render ++ (Items.render (asItems front) ++ separator.val), Items.render (asItems rest), ?_⟩
    have text : Items.render (asItems ((separator, word) :: rest)) =
        separator.val ++ (word.render ++ Items.render (asItems rest)) := render_cons ..
    have parts : asItems (front ++ (separator, word) :: rest) = asItems front ++ asItems ((separator, word) :: rest) :=
      List.map_append
    rw [Simple.render, split, parts, render_append, text]
    simp only [List.append_assoc]

/-- A character that makes its segment a command. -/
def Solid (c : UInt8) : Prop := isspace c = false ∧ (c == pipeChar) = false

theorem solid_quote : Solid quoteChar := ⟨by decide, by decide⟩

/-- Every command starts with a solid character. -/
theorem solid_first (c : Simple) : ∃ first ∈ c.render, Solid first := by
  have shielded := c.shielded c.first (by simp)
  cases word : c.first with
  | bare bytes nonempty plain =>
    rw [word] at shielded
    obtain ⟨first, more, rfl⟩ := List.exists_cons_of_ne_nil nonempty
    have notPipe : (first == pipeChar) = false := by
      rw [beq_eq_false_iff_ne]
      rintro rfl
      exact shielded (by simp)
    exact ⟨first, by simp [Simple.render, word, Word.render], ((plain first (by simp)).2.2 rfl).1, notPipe⟩
  | quoted bytes plain => exact ⟨quoteChar, by simp [Simple.render, word, Word.render], solid_quote⟩

/-! ### Counting the commands of a text -/

/-- How many commands the splitter finds in a text. -/
def commandsIn (text : List UInt8) : Nat := (text.splitOn pipeChar).countP nonBlank

theorem commandsIn_append (left right : List UInt8) :
    commandsIn (left ++ pipeChar :: right) = commandsIn left + commandsIn right := by
  rw [commandsIn, List.splitOn_append_cons_self, List.countP_append, commandsIn, commandsIn]

theorem commandsIn_pos {text : List UInt8} {c : UInt8} (inside : c ∈ text) (solid : Solid c) : 1 ≤ commandsIn text := by
  rw [commandsIn, List.splitOn_eq_splitOnP]
  obtain ⟨piece, member, there⟩ : ∃ piece ∈ text.splitOnP (· == pipeChar), c ∈ piece := Tokens.mem_piece inside solid.2
  apply List.countP_pos_iff.mpr
  exact ⟨piece, member, List.any_eq_true.mpr ⟨c, there, by simp [solid.1]⟩⟩

theorem commandsIn_simple (c : Simple) : 1 ≤ commandsIn c.render := by
  obtain ⟨first, inside, solid⟩ := solid_first c
  exact commandsIn_pos inside solid

/-- The quotes around a pipe end up in two commands. -/
theorem commandsIn_quoted_pipe {c : Simple} {word : Word} (member : word ∈ c.wordList)
    (pipe : pipeChar ∈ word.contents) : 2 ≤ commandsIn c.render := by
  obtain ⟨before, behind, text⟩ := render_around member
  cases word with
  | bare bytes nonempty plain => exact absurd pipe (c.shielded _ member)
  | quoted bytes plain =>
    obtain ⟨left, right, split⟩ := List.append_of_mem pipe
    have whole : c.render = (before ++ quoteChar :: left) ++ pipeChar :: (right ++ quoteChar :: behind) := by
      rw [text, Word.render]
      rw [Word.contents] at split
      simp [split]
    rw [whole, commandsIn_append]
    exact Nat.add_le_add (commandsIn_pos (by simp) solid_quote) (commandsIn_pos (by simp) solid_quote)

theorem commandsIn_intercalate (first : List UInt8) (others : List (List UInt8)) :
    commandsIn ([pipeChar].intercalate (first :: others)) = commandsIn first + (others.map commandsIn).sum := by
  induction others generalizing first with
  | nil => simp
  | cons second others ih =>
    rw [List.intercalate_cons_cons, List.append_assoc, List.singleton_append, commandsIn_append, ih, List.map_cons,
      List.sum_cons]

/-- A quoted pipe gives the splitter more commands than the pipeline has. -/
theorem more_commands {p : Pipeline} (pipes : ¬ p.PipeFree) : p.commands.length < commandsIn p.render := by
  have text : commandsIn p.render = (p.commands.map fun c => commandsIn c.render).sum := by
    rw [Pipeline.render, Pipeline.commands, List.map_cons, commandsIn_intercalate, List.map_cons, List.sum_cons,
      List.map_map]
    rfl
  obtain ⟨c, member, word, inside, pipe⟩ :
      ∃ c ∈ p.commands, ∃ word ∈ c.wordList, pipeChar ∈ word.contents := by
    by_contra none
    exact pipes fun c member word inside pipe => none ⟨c, member, word, inside, pipe⟩
  obtain ⟨front, behind, split⟩ := List.append_of_mem member
  have atLeast (list : List Simple) : list.length ≤ (list.map fun c => commandsIn c.render).sum := by
    induction list with
    | nil => simp
    | cons c rest ih =>
      have := commandsIn_simple c
      simp only [List.length_cons, List.map_cons, List.sum_cons]
      omega
  have two := commandsIn_quoted_pipe inside pipe
  have left := atLeast front
  have right := atLeast behind
  rw [text, split]
  simp only [List.length_append, List.length_cons, List.map_append, List.sum_append, List.map_cons, List.sum_cons]
  omega

/-! ### Building the commands -/

theorem strings_of_reads {args : List Nat} {buffer : List UInt8}
    (reads : List.Forall₂ (fun p word => p < limit ∧ cString (buffer.drop p) = word) args words) :
    args.map (fun p => cString (buffer.drop p)) = words := by
  induction reads with
  | nil => rfl
  | cons read _ ih => rw [List.map_cons, read.2, ih]

/-- The number of a command's arguments, and the arguments. -/
def shape (cmd : CmdBuff) : Nat × List (List UInt8) := (cmd.argc, vector cmd)

/-- A finished command's vector is its words. -/
theorem shape_finished {cmd built : CmdBuff} (wide : cmd.argv.length = cmdArgvMax) (few : words.length ≤ cmdMax)
    (finished : Finished cmd limit words built) : shape built = (words.length, words) := by
  obtain ⟨args, buffer, rfl, reads⟩ := finished
  have count := reads.length_eq
  refine Prod.ext count ?_
  have argv : (args.map some ++ cmd.argv.drop args.length).set args.length none =
      args.map some ++ none :: cmd.argv.drop (args.length + 1) := by
    have room : args.length < cmd.argv.length := by
      simp only [cmdMax] at few
      rw [wide, count]
      exact Nat.lt_succ_of_le few
    rw [List.set_append_right _ _ (by simp), List.length_map, Nat.sub_self, List.drop_eq_getElem_cons room,
      List.set_cons_zero]
  have taken : (args.map some ++ none :: cmd.argv.drop (args.length + 1)).takeWhile (·.isSome) = args.map some := by
    rw [List.takeWhile_append_of_pos (by simp), List.takeWhile_cons_of_neg (by simp), List.append_nil]
  simp only [shape, vector, holding, argv, taken, List.filterMap_map, Function.comp_def, Option.map_some,
    CmdBuff.string]
  rw [List.filterMap_eq_map']
  exact strings_of_reads reads

theorem arg_zero {cmd : CmdBuff} (same : vector cmd = word :: rest) : cmd.arg 0 = some word := by
  unfold vector at same
  unfold CmdBuff.arg
  cases argv : cmd.argv with
  | nil => simp [argv] at same
  | cons entry entries =>
    cases entry with
    | none => simp [argv] at same
    | some place =>
      simp only [argv, List.takeWhile_cons, Option.isSome_some, if_true, List.filterMap_cons, Option.map_some,
        List.cons.injEq] at same
      simp [same.1]

/-- Whether a command is a built-in is decided by its first word. -/
theorem plain_iff {c : Simple} {cmd : CmdBuff} (built : shape cmd = (c.words.length, c.words)) :
    Plain cmd ↔ IsProgram c := by
  obtain ⟨count, words⟩ := Prod.ext_iff.mp built
  have first : cmd.arg 0 = some c.first.contents := arg_zero words
  have nonzero : ¬ cmd.argc = 0 := by
    rw [show cmd.argc = c.words.length from count]
    simp [Simple.words, Simple.wordList]
  rw [Plain, IsProgram, execBuiltInCmd, if_neg nonzero, first, Option.getD_some]
  cases known : matchCommand c.first.contents with
  | exit | cd | notBi => simp
  | dragon | rc | stopSvr | executed =>
    unfold matchCommand at known
    split at known
    · cases known
    split at known <;> cases known

/-- A command without operators, as a line of words. -/
def Simple.line (c : Simple) (short : c.render.length < shCmdMax) : CommandLine where
  first := c.first
  items := asItems c.others
  fewWords := by
    rw [words_asItems, List.length_map]
    exact c.fewWords
  oneInput := by simp
  oneOutput := by simp
  short := short

/-- What is built from a command's text has the command's words for arguments. -/
theorem build_simple (c : Simple) (short : c.render.length < shCmdMax) {cmd : CmdBuff}
    (size : cmd.buffer.length = shCmdMax) (wide : cmd.argv.length = cmdArgvMax) (heap : Heap) :
    ∃ built after, buildCmdBuff c.render cmd heap = some (ok, built, after) ∧
      shape built = (c.words.length, c.words) := by
  obtain ⟨stale, s, between, parsed⟩ := RedirectionParsing.buildCmdBuff_line (c.line short) size heap
  have text : (c.line short).render ++ 0 :: stale =
      c.first.render ++ (Items.render (asItems c.others) ++ 0 :: stale) := List.append_assoc ..
  rw [text] at between
  have few : ([] : List (List UInt8)).length + c.others.length + 1 ≤ cmdMax := by simpa using c.fewWords
  have finished := finish_words c.first c.others wide few between
  refine ⟨_, _, parsed, ?_⟩
  rw [shape_finished wide _ finished]
  · simp [Simple.words, Simple.wordList]
  · simpa using c.fewWords

/-- Commands that are cut apart right are built one after another, as long as
there is a buffer for each of them. -/
theorem buildCmds_commands (commands : List Simple) (short : ∀ c ∈ commands, c.render.length < shCmdMax)
    (clist : List CmdBuff) (heap : Heap) (room : clist.length + commands.length ≤ cmdMax) :
    ∃ rc built after, buildCmds (commands.map (·.render)) clist heap = some (rc, built, after) ∧
      if ∀ block ∈ heap.blocks.take commands.length, block ≠ none then
        rc = (if clist.length + commands.length = 0 then warnNoCmds else ok) ∧
          built.map shape = clist.map shape ++ commands.map fun c => (c.words.length, c.words)
      else rc = errMemory := by
  induction commands generalizing clist heap with
  | nil =>
    refine ⟨if clist.length = 0 then warnNoCmds else ok, clist, heap.freeString, ?_, ?_⟩
    · simp only [List.map_nil, buildCmds]
      split <;> rfl
    · simp
  | cons c rest ih =>
    simp only [List.length_cons] at room
    have notFull : ¬ cmdMax ≤ clist.length := by omega
    have blocks : (∀ block ∈ heap.blocks.take (c :: rest).length, block ≠ none) ↔
        heap.blocks.headD (some []) ≠ none ∧ ∀ block ∈ heap.blocks.tail.take rest.length, block ≠ none := by
      cases heap.blocks with
      | nil => simp
      | cons block others =>
        rw [List.length_cons, List.take_succ_cons, List.forall_mem_cons]
        exact Iff.rfl
    simp only [blocks, List.map_cons, buildCmds, if_neg notFull]
    by_cases refused : heap.blocks.headD (some []) = none
    · have failed := allocCmdBuff_refused vacant refused
      generalize allocCmdBuff vacant heap = result at failed
      obtain ⟨rc, cmd, after⟩ := result
      obtain rfl : rc = errMemory := failed
      refine ⟨errMemory, _, _, if_pos failed_ne_ok, ?_⟩
      rw [if_neg fun granted => granted.1 refused]
    · obtain ⟨fresh, granted, allocated, size, left⟩ := allocCmdBuff_granted vacant refused
      obtain ⟨-, wide, -⟩ := alloc_granted allocated
      obtain ⟨cmd, after, parsed, words⟩ := build_simple c (short c (by simp)) size wide granted
      have kept := (buildCmdBuff_keeps (fun heap => heap.blocks = granted.blocks) (by
        intro heap string same
        rw [Heap.strdup]
        split <;> exact same) parsed rfl).1
      have few : (clist ++ [cmd]).length + rest.length ≤ cmdMax := by
        rw [List.length_append, List.length_singleton]
        omega
      obtain ⟨rc, built, final, returns, outcome⟩ :=
        ih (fun other member => short other (List.mem_cons_of_mem _ member)) (clist ++ [cmd]) after few
      rw [kept, left, List.length_append, List.length_singleton] at outcome
      simp only [allocated, ne_eq, not_true_eq_false, if_false, parsed, ok_ne_warnNoCmds, if_true]
      refine ⟨rc, built, final, returns, ?_⟩
      by_cases others : ∀ block ∈ heap.blocks.tail.take rest.length, block ≠ none
      · rw [if_pos others] at outcome
        rw [if_pos ⟨refused, others⟩, if_neg (by simp)]
        rw [if_neg (by omega)] at outcome
        refine ⟨outcome.1, ?_⟩
        rw [outcome.2, List.map_append, List.map_singleton, words, List.append_assoc, List.singleton_append]
      · rw [if_neg others] at outcome
        rw [if_neg fun granted => others granted.2]
        exact outcome

/-! ### Whole lines -/

section Lines
variable {p : Pipeline} {input : Input} {s : Local} {vectors : List (List (List UInt8))}

theorem nulFree_text (input : Input) : NulFree input.text :=
  fun c member => nulFree_cString input.bytes c ((List.takeWhile_sublist _).mem member)

theorem length_text (input : Input) : input.text.length < shCmdMax := (text_short input).trans (by decide)

/-- The splitter sees the commands of a pipe-free pipeline. -/
theorem pipeTokens_render (free : p.PipeFree) (nul : NulFree p.render) :
    pipeTokens p.render = p.commands.map (·.render) := by
  rw [pipeTokens, cString_of_nulFree nul, Pipeline.render, List.splitOn_intercalate]
  · apply List.filter_eq_self.mpr
    intro text member
    obtain ⟨c, _, rfl⟩ := List.mem_map.mp member
    obtain ⟨first, inside, _⟩ := solid_first c
    simpa using List.ne_nil_of_mem inside
  · intro text member pipe
    obtain ⟨c, inside, rfl⟩ := List.mem_map.mp member
    obtain ⟨word, there, found⟩ := (pipe_mem_render c).mp pipe
    exact free c inside word there found
  · simp [Pipeline.commands]

theorem short_command (typed : input.text = p.render) (c : Simple) (member : c ∈ p.commands) :
    c.render.length < shCmdMax := by
  have sub : ∀ (list : List (List UInt8)) text, text ∈ list → text.length ≤ ([pipeChar].intercalate list).length := by
    intro list
    induction list with
    | nil => exact fun _ member => by cases member
    | cons first rest ih =>
      intro text member
      cases rest with
      | nil => simp_all
      | cons second rest =>
        rw [List.intercalate_cons_cons, List.length_append, List.length_append]
        rcases List.mem_cons.mp member with rfl | later
        · omega
        · have := ih text later
          omega
  have part := sub _ _ (List.mem_map_of_mem (f := (·.render)) member)
  have whole := length_text input
  rw [typed] at whole
  exact part.trans_lt whole

theorem vectors_of_shapes {clist : List CmdBuff} {commands : List Simple}
    (shapes : clist.map shape = commands.map fun c => (c.words.length, c.words)) :
    clist.map vector = commands.map (·.words) ∧ ((∀ cmd ∈ clist, Plain cmd) ↔ ∀ c ∈ commands, IsProgram c) := by
  induction clist generalizing commands with
  | nil =>
    obtain rfl := List.map_eq_nil_iff.mp shapes.symm
    simp
  | cons cmd clist ih =>
    cases commands with
    | nil => cases shapes
    | cons c commands =>
      obtain ⟨first, others⟩ := List.cons.inj shapes
      obtain ⟨same, plain⟩ := ih others
      refine ⟨List.cons_eq_cons.mpr ⟨(Prod.ext_iff.mp first).2, same⟩, ?_⟩
      rw [List.forall_mem_cons, List.forall_mem_cons, plain_iff first, plain]

/-- A quoted pipe: whatever the splitter returns, it is not the pipeline. -/
theorem not_runs_of_pipe (c : Setting ε δ) (typed : input.text = p.render) (pipes : ¬ p.PipeFree) :
    ¬ Runs c s input p.vectors := by
  have more := more_commands pipes
  have found : pipeChar ∈ input.text := by
    rw [typed]
    by_contra single
    have atMost := List.countP_le_length (p := nonBlank) (l := p.render.splitOn pipeChar)
    rw [List.splitOn_eq_singleton single, List.length_singleton] at atMost
    rw [commandsIn, List.splitOn_eq_singleton single, Pipeline.commands, List.length_cons] at more
    omega
  rintro ⟨clist, taken, executed⟩
  rw [TakenApart, if_pos found] at taken
  obtain ⟨after, returns⟩ := taken
  have count : clist.length = commandsIn p.render := by
    rw [length_of_accepted returns, commandSegments, cString_of_nulFree (nulFree_text input),
      ← List.countP_eq_length_filter, typed, commandsIn]
  have several : 2 ≤ clist.length := by
    have atLeast : 1 ≤ p.commands.length := Nat.le_add_left ..
    omega
  have same := congrArg List.length ((executed_several_iff several (by simp [Pipeline.vectors, Pipeline.commands])).mp
    executed).1
  rw [List.length_map, Pipeline.vectors, List.length_map, count] at same
  exact absurd same (Nat.ne_of_gt more)

/-- A single command without a pipe is built in the buffer of the loop. -/
theorem runs_single_iff (c : Setting ε δ) (typed : input.text = p.render) (free : p.PipeFree) (single : p.others = [])
    (ready : Ready s.cmd) : Runs c s input p.vectors ↔ (IsProgram p.first → 1 ≤ c.forks) := by
  have commands : p.commands = [p.first] := by rw [Pipeline.commands, single]
  have text : p.render = p.first.render := by simp [Pipeline.render, commands]
  have noPipe : pipeChar ∉ input.text := by
    rw [typed, text, pipe_mem_render]
    rintro ⟨word, inside, pipe⟩
    exact free p.first (by simp [commands]) word inside pipe
  have short := short_command typed p.first (by simp [commands])
  obtain ⟨built, after, parsed, words⟩ := build_simple p.first short ready.size ready.wide (s.heapFor input)
  have taken (clist : List CmdBuff) : TakenApart s input clist ↔ clist = [built] := by
    rw [TakenApart, if_neg noPipe, typed, text, parsed]
    constructor
    · rintro ⟨_, _, same, rfl⟩
      cases same
      rfl
    · rintro rfl
      exact ⟨built, after, rfl, rfl⟩
  have same : vector built = p.first.words := (Prod.ext_iff.mp words).2
  have vectors : [vector built] = p.vectors := by
    rw [Pipeline.vectors, commands, same]
    rfl
  simp only [Runs, taken, exists_eq_left, executed_one_iff, plain_iff words, vectors, true_and]

/-- Several commands go through the splitter, which gives back their vectors if
it gets its memory, and no list otherwise. -/
theorem takenApart_several (typed : input.text = p.render) (free : p.PipeFree) (several : p.others ≠ []) :
    if input.strings.headD true = true ∧ ∀ block ∈ input.blocks.take p.commands.length, block ≠ none then
      ∃ built, built.map shape = p.commands.map (fun c => (c.words.length, c.words)) ∧
        ∀ clist, TakenApart s input clist ↔ clist = built
    else ∀ clist, ¬ TakenApart s input clist := by
  have found : pipeChar ∈ input.text := by
    obtain ⟨second, rest, others⟩ := List.exists_cons_of_ne_nil several
    rw [typed, Pipeline.render, Pipeline.commands, others]
    simp [List.intercalate_cons_cons]
  have tokens := pipeTokens_render free (typed ▸ nulFree_text input)
  have positive : ¬ ([] : List CmdBuff).length + p.commands.length = 0 := by simp [Pipeline.commands]
  have taken (clist : List CmdBuff) : TakenApart s input clist ↔
      ∃ after, buildCmdList p.render s.cmdList (s.heapFor input) = some (ok, clist, after) := by
    rw [TakenApart, if_pos found, typed]
  simp only [taken]
  by_cases granted : input.strings.headD true = true
  · obtain ⟨copied, strdup, blocks⟩ : ∃ copied, (s.heapFor input).strdup (cString p.render) =
        (some (cString p.render), copied) ∧ copied.blocks = input.blocks := ⟨_, if_pos granted, rfl⟩
    obtain ⟨rc, built, after, returns, outcome⟩ := buildCmds_commands p.commands (short_command typed) [] copied
      (by simpa [Pipeline.commands] using p.fewCommands)
    rw [blocks] at outcome
    simp only [buildCmdList, strdup, pipeTokens_cString, tokens, returns]
    by_cases enough : ∀ block ∈ input.blocks.take p.commands.length, block ≠ none
    · rw [if_pos enough, if_neg positive] at outcome
      obtain ⟨rfl, shapes⟩ := outcome
      rw [if_pos ⟨granted, enough⟩]
      refine ⟨built, shapes, fun clist => ⟨?_, ?_⟩⟩
      · rintro ⟨_, same⟩
        cases same
        rfl
      · rintro rfl
        exact ⟨after, rfl⟩
    · rw [if_neg enough] at outcome
      rw [if_neg fun all => enough all.2]
      rintro clist ⟨_, same⟩
      cases same
      exact failed_ne_ok outcome.symm
  · obtain ⟨refused, strdup⟩ : ∃ refused, (s.heapFor input).strdup (cString p.render) = (none, refused) :=
      ⟨_, if_neg granted⟩
    rw [if_neg fun all => granted all.1]
    simp only [buildCmdList, strdup]
    rintro clist ⟨after, same⟩
    exact failed_ne_ok (congrArg Prod.fst (Option.some.inj same))

/-- What several commands need besides the memory is what their execution needs. -/
theorem runs_several_iff (c : Setting ε δ) (typed : input.text = p.render) (free : p.PipeFree)
    (several : p.others ≠ []) : Runs c s input p.vectors ↔
      (input.strings.headD true = true ∧ ∀ block ∈ input.blocks.take p.commands.length, block ≠ none) ∧
        (∀ command ∈ p.commands, IsProgram command) ∧ p.others.length ≤ c.pipes.length ∧
          p.commands.length ≤ c.forks := by
  have split := @takenApart_several p input s typed free several
  by_cases enough : input.strings.headD true = true ∧ ∀ block ∈ input.blocks.take p.commands.length, block ≠ none
  · rw [if_pos enough] at split
    obtain ⟨built, shapes, taken⟩ := split
    obtain ⟨vectors, plain⟩ := vectors_of_shapes shapes
    have count : built.length = p.commands.length := by simpa using congrArg List.length shapes
    have more : 2 ≤ built.length := by
      have some := List.length_pos_iff.mpr several
      rw [count, Pipeline.commands, List.length_cons]
      omega
    have executed := @executed_several_iff _ _ c built p.vectors more (by simp [Pipeline.vectors, Pipeline.commands])
    have pipes : built.length ≤ c.pipes.length + 1 ↔ p.others.length ≤ c.pipes.length := by
      rw [count, Pipeline.commands, List.length_cons, Nat.add_le_add_iff_right]
    rw [plain, pipes, count, and_iff_right (show built.map vector = p.vectors from vectors)] at executed
    rw [and_iff_right enough, ← executed]
    simp only [Runs, taken, exists_eq_left]
  · rw [if_neg enough] at split
    refine iff_of_false ?_ fun all => enough all.1
    rintro ⟨clist, taken, -⟩
    exact split clist taken

end Lines

def blank : Separator := ⟨[32], by decide, by decide +kernel⟩

/-- `echo` with one quoted word. -/
def echo (word : List UInt8) (plain : ∀ c ∈ word, Passive true c) : Simple where
  first := RedirectionParsing.echoLine.first
  others := [(blank, .quoted word plain)]
  fewWords := show 1 + 1 ≤ cmdMax by decide +kernel
  shielded := List.forall_mem_cons.mpr ⟨show pipeChar ∉ text "echo" by decide +kernel,
    List.forall_mem_cons.mpr ⟨trivial, List.forall_mem_nil _⟩⟩

def cat : Simple where
  first := RedirectionParsing.catLine.first
  others := []
  fewWords := by decide +kernel
  shielded := List.forall_mem_cons.mpr ⟨show pipeChar ∉ text "cat" by decide +kernel, List.forall_mem_nil _⟩

theorem quoted_blank : ∀ c ∈ text "a b", Passive true c := by decide +kernel

/-- The line `echo "a b"|cat`. -/
def echoCat : Pipeline := ⟨echo (text "a b") quoted_blank, [cat], by decide +kernel⟩

/-- The line `echo "a|b"`. -/
def echoPipe : Pipeline := ⟨echo (text "a|b") (by decide +kernel), [], by decide +kernel⟩

/-- A shell with some pipes and children to come. -/
def freshShell (pipes : List (Nat × Nat)) (distinct : (PipelinePlumbing.ends pipes).Nodup) (forks : Nat) :
    Setting Unit Unit where
  files _ := none
  directory := ()
  pipes := pipes
  forks := forks
  chdir _ _ := none
  distinct := distinct
  free _ _ := rfl

end SysProg.QuotedPipes
