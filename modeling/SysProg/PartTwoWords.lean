import SysProg.LineGrammar
import SysProg.PartTwoScanner

/-! The words of a line and the arguments the second part makes of it. A bare
word is cut at the white space behind it or after the loop, a quoted one at its
closing quote, even an empty one, so every word comes back as it was typed. -/
namespace SysProg.PartTwoWords
open CString WhileLoop PartTwo PartTwoScanner
open Scanner (space_active)
open LineGrammar (Separator Reads reads_more reads_concat reads_last space_nonzero)

/-! ### Lines of words -/

/-- A word as it is typed: bare, or between double quotes. -/
inductive Word where
  | bare (bytes : List UInt8) (nonempty : bytes ≠ []) (plain : ∀ c ∈ bytes, c ≠ 0 ∧ c ≠ quoteChar ∧ isspace c = false)
  | quoted (bytes : List UInt8) (plain : ∀ c ∈ bytes, c ≠ 0 ∧ c ≠ quoteChar)

def Word.contents : Word → List UInt8
  | .bare bytes .. => bytes
  | .quoted bytes _ => bytes

def Word.render : Word → List UInt8
  | .bare bytes .. => bytes
  | .quoted bytes _ => quoteChar :: bytes ++ [quoteChar]

/-- One to eight words with white space around them, as long as a line can be. -/
structure Line where
  leading : List UInt8
  first : Word
  others : List (Separator × Word)
  trailing : List UInt8
  leads : ∀ c ∈ leading, isspace c = true
  trails : ∀ c ∈ trailing, isspace c = true
  few : others.length + 1 ≤ cmdMax
  short : (leading ++ (first.render ++ ((others.flatMap fun next => next.1.val ++ next.2.render) ++ trailing))).length <
    shCmdMax

/-- The words behind the first one. -/
def renderOthers (others : List (Separator × Word)) : List UInt8 :=
  others.flatMap fun next => next.1.val ++ next.2.render

def Line.render (line : Line) : List UInt8 :=
  line.leading ++ (line.first.render ++ (renderOthers line.others ++ line.trailing))

def Line.words (line : Line) : List (List UInt8) := line.first.contents :: line.others.map (·.2.contents)

theorem Word.nulFree (word : Word) : NulFree word.contents := by
  cases word with
  | bare bytes nonempty plain => exact fun c member => (plain c member).1
  | quoted bytes plain => exact fun c member => (plain c member).1

theorem Word.nulFree_render (word : Word) : NulFree word.render := by
  have free := word.nulFree
  cases word with
  | bare bytes nonempty plain => exact free
  | quoted bytes plain =>
    have bytesFree : NulFree bytes := free
    simpa [Word.render, quoteChar] using bytesFree

theorem nulFree_renderOthers (others : List (Separator × Word)) : NulFree (renderOthers others) := by
  induction others with
  | nil => exact nulFree_nil
  | cons next others ih =>
    have cons : renderOthers (next :: others) = next.1.val ++ (next.2.render ++ renderOthers others) := by
      simp [renderOthers]
    rw [cons, nulFree_append, nulFree_append]
    exact ⟨space_nonzero next.1.property.2, next.2.nulFree_render, ih⟩

/-! ### The scan of a word -/

/-- The scanner stands in front of `rest` with no word open and these words cut. -/
def Between (cmd : CmdBuff) (words : List (List UInt8)) (rest : List UInt8) (s : Scan) : Prop :=
  ∃ args done, s = scanning cmd args done rest none false ∧ List.Forall₂ (Reads done) args words

section Words
variable {cmd : CmdBuff} {words : List (List UInt8)} {rest done : List UInt8} {args : List Nat} {s : Scan}

/-- White space between words is skipped. -/
theorem run_spaces {spaces : List UInt8} (space : ∀ c ∈ spaces, isspace c = true) (room : words.length < cmdArgvMax)
    (between : Between cmd words (spaces ++ rest) s) :
    ∃ next, scanLoop.run s = scanLoop.run next ∧ Between cmd words rest next := by
  induction spaces generalizing s with
  | nil => exact ⟨s, rfl, between⟩
  | cons c spaces ih =>
    obtain ⟨args, done, rfl, reads⟩ := between
    obtain ⟨nonzero, other⟩ := space_active (space c (by simp))
    have turn : scanLoop.run (scanning cmd args done (c :: (spaces ++ rest)) none false) = _ :=
      turn_gap (space c (by simp)) nonzero other (by rwa [reads.length_eq])
    obtain ⟨next, run, reached⟩ := ih (fun d member => space d (by simp [member]))
      ⟨args, done ++ [c], rfl, reads_more reads [c]⟩
    exact ⟨next, turn.trans run, reached⟩

/-- The characters of a word open it, unless a quote has, and are passed. -/
theorem run_characters {bytes : List UInt8} {start : Option Nat} {inQuotes : Bool}
    (plain : ∀ c ∈ bytes, c ≠ 0 ∧ c ≠ quoteChar ∧ (inQuotes = false → isspace c = false))
    (room : args.length < cmdArgvMax) (opened : bytes ≠ [] ∨ start ≠ none) :
    scanLoop.run (scanning cmd args done (bytes ++ rest) start inQuotes) =
      scanLoop.run (scanning cmd args (done ++ bytes) rest (some (start.getD done.length)) inQuotes) := by
  induction bytes generalizing done start with
  | nil =>
    obtain ⟨p, rfl⟩ := Option.ne_none_iff_exists'.mp (opened.resolve_left (by simp))
    simp
  | cons c bytes ih =>
    obtain ⟨nonzero, other, solid⟩ := plain c (by simp)
    rw [List.cons_append, turn_word nonzero other solid room,
      ih (fun d member => plain d (by simp [member])) (.inr (by simp))]
    simp

/-- A bare word opens itself. -/
theorem run_bare {bytes : List UInt8} (letters : bytes ≠ [])
    (plain : ∀ c ∈ bytes, c ≠ 0 ∧ c ≠ quoteChar ∧ isspace c = false) (room : args.length < cmdArgvMax) :
    scanLoop.run (scanning cmd args done (bytes ++ rest) none false) =
      scanLoop.run (scanning cmd args (done ++ bytes) rest (some done.length) false) := by
  refine run_characters (fun c member => ?_) room (.inl letters)
  obtain ⟨nonzero, other, solid⟩ := plain c member
  exact ⟨nonzero, other, fun _ => solid⟩

/-- A quoted word is cut at its closing quote. -/
theorem run_quoted {bytes : List UInt8} (plain : ∀ c ∈ bytes, c ≠ 0 ∧ c ≠ quoteChar)
    (wide : cmd.cells.length = cmdArgvMax + 1) (room : words.length < cmdArgvMax)
    (between : Between cmd words (quoteChar :: bytes ++ [quoteChar] ++ rest) s) :
    ∃ next, scanLoop.run s = scanLoop.run next ∧ Between cmd (words ++ [bytes]) rest next := by
  obtain ⟨args, done, rfl, reads⟩ := between
  have few : args.length < cmdArgvMax := by rwa [reads.length_eq]
  have opened : scanLoop.run (scanning cmd args done (quoteChar :: (bytes ++ quoteChar :: rest)) none false) = _ :=
    turn_open few
  have passed : scanLoop.run (scanning cmd args (done ++ [quoteChar]) (bytes ++ quoteChar :: rest)
      (some (done.length + 1)) true) = _ :=
    run_characters (fun c member => ⟨(plain c member).1, (plain c member).2, nofun⟩) few (.inr (by simp))
  have closed : scanLoop.run (scanning cmd args (done ++ [quoteChar] ++ bytes) (quoteChar :: rest)
      (some (done.length + 1)) true) = _ := turn_close wide few _
  refine ⟨scanning cmd (args ++ [done.length + 1]) (done ++ [quoteChar] ++ bytes ++ [0]) rest none false, ?_, _, _, rfl,
    ?_⟩
  · simpa using opened.trans (passed.trans closed)
  · have place : done.length + 1 = (done ++ [quoteChar]).length := by simp
    rw [place]
    exact reads_concat (reads_more (reads_more (reads_more reads [quoteChar]) bytes) [0])
      (reads_last (fun c member => (plain c member).1) (done ++ [quoteChar]))

/-- A word with white space behind it. -/
theorem run_word (word : Word) {gap : List UInt8} (nonempty : gap ≠ []) (space : ∀ c ∈ gap, isspace c = true)
    (wide : cmd.cells.length = cmdArgvMax + 1) (room : words.length + 1 < cmdArgvMax)
    (between : Between cmd words (word.render ++ (gap ++ rest)) s) :
    ∃ next, scanLoop.run s = scanLoop.run next ∧ Between cmd (words ++ [word.contents]) rest next := by
  have after : (words ++ [word.contents]).length < cmdArgvMax := by simpa using room
  cases word with
  | bare bytes letters plain =>
    obtain ⟨args, done, rfl, reads⟩ := between
    have few : args.length < cmdArgvMax := by
      rw [reads.length_eq]
      omega
    obtain ⟨c, spaces, rfl⟩ := List.exists_cons_of_ne_nil nonempty
    obtain ⟨nonzero, other⟩ := space_active (space c (by simp))
    have passed : scanLoop.run (scanning cmd args done (bytes ++ (c :: (spaces ++ rest))) none false) = _ :=
      run_bare letters plain few
    have cut : scanLoop.run (scanning cmd args (done ++ bytes) (c :: (spaces ++ rest)) (some done.length) false) = _ :=
      turn_space (space c (by simp)) nonzero other wide few _
    have blank : ∀ d ∈ spaces, isspace d = true := fun d member => space d (by simp [member])
    obtain ⟨next, run, reached⟩ := run_spaces blank after
      ⟨args ++ [done.length], done ++ bytes ++ [0], rfl, reads_concat (reads_more (reads_more reads bytes) [0])
        (reads_last (fun d member => (plain d member).1) done)⟩
    exact ⟨next, passed.trans (cut.trans run), reached⟩
  | quoted bytes plain =>
    obtain ⟨middle, cut, reached⟩ := run_quoted plain wide (by omega) between
    obtain ⟨next, run, reached⟩ := run_spaces space after reached
    exact ⟨next, cut.trans run, reached⟩

/-! ### The end of the line -/

/-- The command ends with these words for its arguments. -/
def Finished (cmd : CmdBuff) (words : List (List UInt8)) (built : CmdBuff) : Prop :=
  ∃ args block, built = sealed cmd args block ∧ List.Forall₂ (fun p word => cString (block.drop p) = word) args words

theorem reads_strings (reads : List.Forall₂ (Reads done) args words) (rest : List UInt8) :
    List.Forall₂ (fun p word => cString ((done ++ rest).drop p) = word) args words :=
  reads.imp fun _ _ read => read.string rest

theorem finish_between (between : Between cmd words (0 :: rest) s) : Finished cmd words (scanLoop.run s).finish := by
  obtain ⟨args, done, rfl, reads⟩ := between
  rw [run_terminator, finish_none]
  exact ⟨args, done ++ 0 :: rest, rfl, reads_strings reads _⟩

/-- The last word of a line without white space behind it. -/
theorem finish_word (word : Word) (wide : cmd.cells.length = cmdArgvMax + 1) (room : words.length < cmdArgvMax)
    (between : Between cmd words (word.render ++ 0 :: rest) s) :
    Finished cmd (words ++ [word.contents]) (scanLoop.run s).finish := by
  cases word with
  | bare bytes letters plain =>
    obtain ⟨args, done, rfl, reads⟩ := between
    have few : args.length < cmdArgvMax := by rwa [reads.length_eq]
    have nonzero : (holding cmd args (done ++ bytes ++ 0 :: rest)).byte done.length ≠ 0 := by
      obtain ⟨c, more, rfl⟩ := List.exists_cons_of_ne_nil letters
      have here : (holding cmd args (done ++ c :: (more ++ 0 :: rest))).byte done.length = c := byte_ahead
      rw [List.append_assoc, List.cons_append, here]
      exact (plain c (by simp)).1
    have free : NulFree bytes := fun d member => (plain d member).1
    rw [Word.render, run_bare letters plain few, run_terminator, finish_open wide nonzero few]
    refine ⟨_, _, rfl, List.rel_append ?_ (.cons ?_ .nil)⟩
    · rw [List.append_assoc]
      exact reads_strings reads _
    · rw [List.append_assoc, List.drop_left, cString_terminated free]
      rfl
  | quoted bytes plain =>
    obtain ⟨next, run, reached⟩ := run_quoted plain wide room between
    rw [run]
    exact finish_between reached

/-- The words of a line are cut one after another. -/
theorem finish_words (first : Word) (others : List (Separator × Word)) {trailing : List UInt8}
    (trails : ∀ c ∈ trailing, isspace c = true) (wide : cmd.cells.length = cmdArgvMax + 1)
    (few : words.length + others.length + 1 < cmdArgvMax)
    (between : Between cmd words (first.render ++ (renderOthers others ++ (trailing ++ 0 :: rest))) s) :
    Finished cmd (words ++ first.contents :: others.map (·.2.contents)) (scanLoop.run s).finish := by
  induction others generalizing first words s with
  | nil =>
    simp only [List.length_nil, Nat.add_zero] at few
    cases trailing with
    | nil => exact finish_word first wide (by omega) between
    | cons c trailing =>
      obtain ⟨next, run, reached⟩ := run_word first (List.cons_ne_nil c trailing) trails wide few between
      rw [run]
      exact finish_between reached
  | cons next others ih =>
    obtain ⟨gap, word⟩ := next
    have text : renderOthers ((gap, word) :: others) = gap.val ++ (word.render ++ renderOthers others) := by
      simp [renderOthers]
    rw [text, List.append_assoc, List.append_assoc] at between
    simp only [List.length_cons] at few
    obtain ⟨middle, run, reached⟩ := run_word first gap.property.1 gap.property.2 wide (by omega) between
    have finished := ih word (by simp; omega) reached
    rw [run]
    simpa using finished

end Words

/-! ### The whole line -/

theorem sealed_arg {cmd : CmdBuff} {args : List Nat} {block : List UInt8} (found : args[i]? = some p) :
    (sealed cmd args block).arg i = some (cString (block.drop p)) := by
  have inside : i < args.length := (List.getElem?_eq_some_iff.mp found).1
  have cell : (sealed cmd args block).cells.getD i none = some p := by
    rw [sealed, holding, List.getD_eq_getElem?_getD, List.getElem?_set_ne (by omega),
      List.getElem?_append_left (by simpa using inside), List.getElem?_map, found]
    rfl
  rw [CmdBuff.arg, cell]
  rfl

/-- The first word of a line is the first thing in it that is no white space. -/
theorem skip_leading (line : Line) : (cString line.render).dropWhile isspace =
    line.first.render ++ (renderOthers line.others ++ line.trailing) := by
  have free : NulFree line.render := by
    rw [Line.render, nulFree_append, nulFree_append, nulFree_append]
    exact ⟨space_nonzero line.leads, line.first.nulFree_render, nulFree_renderOthers _, space_nonzero line.trails⟩
  rw [cString_of_nulFree free, Line.render, List.dropWhile_append_of_pos line.leads]
  cases line.first with
  | bare bytes letters plain =>
    obtain ⟨c, more, rfl⟩ := List.exists_cons_of_ne_nil letters
    have solid : ¬ isspace c = true := by simp [(plain c (by simp)).2.2]
    exact List.dropWhile_cons_of_neg solid
  | quoted bytes plain => exact List.dropWhile_cons_of_neg (by decide)

/-- Every word of a line is an argument of the command, with its quotes removed
and its blanks intact. -/
theorem words_survive (line : Line) (cmd : CmdBuff) (ready : Ready cmd) : ∃ built,
    buildCmdBuff line.render cmd = some (ok, built) ∧ built.argc = line.words.length ∧
      ∀ i word, line.words[i]? = some word → built.arg i = some word := by
  have nonblank : line.first.render ++ (renderOthers line.others ++ line.trailing) ≠ [] := by
    cases line.first with
    | bare bytes letters plain => simp [Word.render, letters]
    | quoted bytes plain => simp [Word.render]
  have short : (line.first.render ++ (renderOthers line.others ++ line.trailing)).length < shCmdMax := by
    have short := line.short
    rw [List.length_append] at short
    exact Nat.lt_of_le_of_lt (Nat.le_add_left ..) short
  have few := line.few
  simp only [cmdMax] at few
  rw [buildCmdBuff_scans ready (skip_leading line) nonblank short, List.append_assoc, List.append_assoc]
  generalize cmd.block.drop _ = junk
  have between (rest : List UInt8) : Between cmd [] rest (scanning cmd [] [] rest none false) := ⟨[], [], rfl, .nil⟩
  obtain ⟨args, block, finished, strings⟩ := finish_words line.first line.others line.trails ready.wide
    (by simp [cmdArgvMax, cmdMax]; omega) (between _)
  refine ⟨_, rfl, ?_, fun i word found => ?_⟩
  · rw [finished]
    exact strings.length_eq
  · obtain ⟨inside, rfl⟩ := List.getElem?_eq_some_iff.mp found
    have length : args.length = line.words.length := strings.length_eq
    have place : args[i]? = some args[i] := List.getElem?_eq_getElem (by omega)
    rw [finished, sealed_arg place]
    exact congrArg some (strings.get (by omega) inside)

/-- A quoted argument with blanks in it, a tab in front of it and white space
around the line. -/
def greeting : Line where
  leading := text "   "
  first := .bare (text "/bin/echo") (by decide) (by decide +kernel)
  others := [(⟨text "\t", by decide, by decide +kernel⟩, .quoted (text " hello     world     ") (by decide +kernel))]
  trailing := text " \n"
  leads := by decide +kernel
  trails := by decide +kernel
  few := by decide
  short := by decide

theorem greeting_survives : ∃ built,
    buildCmdBuff (text "   /bin/echo\t\" hello     world     \" \n") (allocCmdBuff true ⟨0, [], []⟩).2 =
        some (ok, built) ∧
      built.argc = 2 ∧ built.arg 1 = some (text " hello     world     ") := by
  have ready : Ready (allocCmdBuff true ⟨0, [], []⟩).2 := ⟨rfl, rfl, List.length_replicate⟩
  obtain ⟨built, builds, count, words⟩ := words_survive greeting _ ready
  exact ⟨built, builds, count, words 1 _ rfl⟩

end SysProg.PartTwoWords
