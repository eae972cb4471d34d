import SysProg.Scanner
import Mathlib.Data.List.Forall2

/-! Command lines as words and redirections, so that what a line asks for is
known before anything is scanned, and the scanner's runs over words. -/
namespace SysProg.LineGrammar
open CString WhileLoop Dshlib Scanner

/-! ### Command lines -/

/-- A word: free of everything the scanner looks for, or enclosed in double quotes. -/
inductive Word where
  | bare (bytes : List UInt8) (nonempty : bytes ≠ []) (plain : ∀ c ∈ bytes, Passive false c)
  | quoted (bytes : List UInt8) (plain : ∀ c ∈ bytes, Passive true c)

def Word.contents : Word → List UInt8
  | .bare bytes .. => bytes
  | .quoted bytes _ => bytes

def Word.render : Word → List UInt8
  | .bare bytes .. => bytes
  | .quoted bytes _ => quoteChar :: bytes ++ [quoteChar]

structure Redirection where
  operator : Operator
  gap : List UInt8
  file : List UInt8
  spaces : ∀ c ∈ gap, isspace c = true
  name : ∀ c ∈ file, Passive false c
  nonempty : file ≠ []

def Redirection.render (r : Redirection) : List UInt8 := r.operator.render ++ (r.gap ++ r.file)

inductive Item where
  | word (content : Word)
  | redirection (content : Redirection)

def Item.render : Item → List UInt8
  | .word content => content.render
  | .redirection content => content.render

/-- The white space between two items. -/
def Separator : Type := { bytes : List UInt8 // bytes ≠ [] ∧ ∀ c ∈ bytes, isspace c = true }

/-- The items behind the first word, each with the white space in front of it. -/
abbrev Items := List (Separator × Item)

def Items.render (items : Items) : List UInt8 := items.flatMap fun (separator, item) => separator.val ++ item.render

def Items.words (items : Items) : List (List UInt8) :=
  items.filterMap fun (_, item) => match item with
    | .word word => some word.contents
    | .redirection _ => none

def Items.redirections (items : Items) : List Redirection :=
  items.filterMap fun (_, item) => match item with
    | .word _ => none
    | .redirection r => some r

def Redirection.reads (r : Redirection) : Bool := r.operator = .input

/-- A command line of one to eight words with at most one redirection of each direction. -/
structure CommandLine where
  first : Word
  items : Items
  fewWords : items.words.length + 1 ≤ cmdMax
  oneInput : (items.redirections.filter (·.reads)).length ≤ 1
  oneOutput : (items.redirections.filter (!·.reads)).length ≤ 1
  short : (first.render ++ items.render).length < shCmdMax

def CommandLine.render (line : CommandLine) : List UInt8 := line.first.render ++ line.items.render

def CommandLine.words (line : CommandLine) : List (List UInt8) := line.first.contents :: line.items.words

def CommandLine.input (line : CommandLine) : Option Redirection := line.items.redirections.find? (·.reads)

def CommandLine.output (line : CommandLine) : Option Redirection := line.items.redirections.find? (!·.reads)

/-- The words in front of the first redirection, the redirection, and what
follows it. -/
def Items.firstRedirection : Items → Option (List (Separator × Word) × Redirection × Items)
  | [] => none
  | (_, .redirection r) :: after => some ([], r, after)
  | (separator, .word word) :: items =>
    (Items.firstRedirection items).map fun (before, r, after) => ((separator, word) :: before, r, after)

/-- Words as items of a line. -/
def asItems (words : List (Separator × Word)) : Items := words.map fun (separator, word) => (separator, .word word)

section Items
variable {separator : Separator} {items : Items}

@[simp] theorem render_nil : Items.render [] = [] := rfl

@[simp] theorem render_cons (separator : Separator) (item : Item) (items : Items) :
    Items.render ((separator, item) :: items) = separator.val ++ (item.render ++ Items.render items) := by
  simp [Items.render]

@[simp] theorem render_append (items others : Items) :
    Items.render (items ++ others) = Items.render items ++ Items.render others := List.flatMap_append

@[simp] theorem words_append (items others : Items) :
    Items.words (items ++ others) = Items.words items ++ Items.words others := List.filterMap_append

@[simp] theorem redirections_append (items others : Items) :
    Items.redirections (items ++ others) = Items.redirections items ++ Items.redirections others :=
  List.filterMap_append

@[simp] theorem words_cons_word (word : Word) :
    Items.words ((separator, .word word) :: items) = word.contents :: Items.words items := rfl

@[simp] theorem words_cons_redirection (r : Redirection) :
    Items.words ((separator, .redirection r) :: items) = Items.words items := rfl

@[simp] theorem redirections_cons_word (word : Word) :
    Items.redirections ((separator, .word word) :: items) = Items.redirections items := rfl

@[simp] theorem redirections_cons_redirection (r : Redirection) :
    Items.redirections ((separator, .redirection r) :: items) = r :: Items.redirections items := rfl

@[simp] theorem words_asItems (words : List (Separator × Word)) :
    Items.words (asItems words) = words.map (·.2.contents) := by
  simp [Items.words, asItems, List.filterMap_map]

@[simp] theorem redirections_asItems (words : List (Separator × Word)) : Items.redirections (asItems words) = [] := by
  simp [Items.redirections, asItems, List.filterMap_map]

/-- Items are words up to the first redirection. -/
theorem firstRedirection_none (none : Items.firstRedirection items = none) : ∃ words, items = asItems words := by
  induction items with
  | nil => exact ⟨[], rfl⟩
  | cons next items ih =>
    obtain ⟨separator, word | r⟩ := next
    · obtain ⟨words, rfl⟩ := ih (Option.map_eq_none_iff.mp none)
      exact ⟨(separator, word) :: words, rfl⟩
    · cases none

theorem firstRedirection_some (found : Items.firstRedirection items = some (before, r, after)) :
    ∃ separator, items = asItems before ++ (separator, .redirection r) :: after := by
  induction items generalizing before with
  | nil => cases found
  | cons next items ih =>
    obtain ⟨separator, word | other⟩ := next
    · obtain ⟨⟨earlier, r', after'⟩, split, same⟩ := Option.map_eq_some_iff.mp found
      cases same
      obtain ⟨gap, rfl⟩ := ih split
      exact ⟨gap, rfl⟩
    · cases found
      exact ⟨separator, rfl⟩

theorem Word.nulFree (word : Word) : NulFree word.contents := by
  cases word with
  | bare bytes nonempty plain => exact fun c member => (plain c member).1
  | quoted bytes plain => exact fun c member => (plain c member).1

theorem space_nonzero (space : ∀ c ∈ spaces, isspace c = true) : NulFree spaces :=
  fun c member => (space_active (space c member)).1

theorem Word.nulFree_render (word : Word) : NulFree word.render := by
  cases word with
  | bare bytes nonempty plain => exact fun c member => (plain c member).1
  | quoted bytes plain =>
    have free : NulFree bytes := fun c member => (plain c member).1
    simpa [Word.render, quoteChar] using free

theorem Redirection.nulFree_render (r : Redirection) : NulFree r.render := by
  have operator : NulFree r.operator.render := by cases r.operator <;> decide
  have file : NulFree r.file := fun c member => (r.name c member).1
  simp [Redirection.render, operator, space_nonzero r.spaces, file]

theorem Items.nulFree_render (items : Items) : NulFree items.render := by
  induction items with
  | nil => simp
  | cons next items ih =>
    obtain ⟨separator, word | r⟩ := next
    · simp [Item.render, space_nonzero separator.property.2, word.nulFree_render, ih]
    · simp [Item.render, space_nonzero separator.property.2, r.nulFree_render, ih]

/-- The words of some items, and a separator for each, fit into their text. -/
theorem Items.length_render (items : Items) :
    items.words.flatten.length + items.words.length ≤ items.render.length := by
  induction items with
  | nil => simp [Items.words]
  | cons next items ih =>
    obtain ⟨separator, word | r⟩ := next
    · have some : 0 < separator.val.length := List.length_pos_iff.mpr separator.property.1
      have whole : word.contents.length ≤ word.render.length := by
        cases word with
        | bare bytes => exact Nat.le_refl _
        | quoted bytes =>
          rw [Word.contents, Word.render, List.length_append, List.length_cons]
          omega
      simp only [words_cons_word, render_cons, List.flatten_cons, List.length_append, List.length_cons, Item.render]
      omega
    · simp only [words_cons_redirection, render_cons, List.length_append]
      omega

end Items

/-! ### Words -/

/-- A terminated string inside the text already passed. -/
def Reads (done : List UInt8) (p : Nat) (word : List UInt8) : Prop :=
  NulFree word ∧ ∃ behind, done.drop p = word ++ 0 :: behind

theorem Reads.inside (reads : Reads done p word) : p < done.length := by
  obtain ⟨-, behind, text⟩ := reads
  have length := congrArg List.length text
  simp only [List.length_drop, List.length_append, List.length_cons] at length
  omega

theorem Reads.append (reads : Reads done p word) (more : List UInt8) : Reads (done ++ more) p word := by
  have inside := reads.inside
  obtain ⟨free, behind, text⟩ := reads
  refine ⟨free, behind ++ more, ?_⟩
  rw [List.drop_append_of_le_length (Nat.le_of_lt inside), text]
  simp

theorem Reads.string (reads : Reads done p word) (rest : List UInt8) : cString ((done ++ rest).drop p) = word := by
  obtain ⟨free, behind, text⟩ := reads.append rest
  rw [text, cString_terminated free]

theorem reads_last (free : NulFree word) (front : List UInt8) : Reads (front ++ word ++ [0]) front.length word :=
  ⟨free, [], by simp [List.append_assoc]⟩

/-- The scanner stands in front of `rest` with nothing open, `passed`
characters behind it, and these words cut. -/
def Between (cmd : CmdBuff) (heap : Heap) (words : List (List UInt8)) (passed : Nat) (rest : List UInt8) (s : Scan) :
    Prop :=
  ∃ args done, s = scanning cmd args done rest done.length false heap ∧ done.length = passed ∧
    List.Forall₂ (Reads done) args words

section Words
variable {cmd : CmdBuff} {heap : Heap} {words : List (List UInt8)} {passed : Nat} {rest : List UInt8} {s : Scan}

theorem reads_more {args : List Nat} (reads : List.Forall₂ (Reads done) args words) (more : List UInt8) :
    List.Forall₂ (Reads (done ++ more)) args words := reads.imp fun _ _ read => read.append more

theorem reads_concat {args : List Nat} (reads : List.Forall₂ (Reads done) args words) (last : Reads done p word) :
    List.Forall₂ (Reads done) (args ++ [p]) (words ++ [word]) :=
  List.rel_append reads (.cons last .nil)

/-- White space between two items is skipped. -/
theorem run_spaces {spaces : List UInt8} (space : ∀ c ∈ spaces, isspace c = true) (room : words.length < cmdMax)
    (between : Between cmd heap words passed (spaces ++ rest) s) :
    ∃ s', scanLoop.run s = scanLoop.run s' ∧ Between cmd heap words (passed + spaces.length) rest s' := by
  obtain ⟨args, done, rfl, rfl, reads⟩ := between
  refine ⟨_, run_gap space (by rw [reads.length_eq]; exact room), args, done ++ spaces, rfl, by simp, ?_⟩
  exact reads_more reads spaces

/-- A quoted word is cut at its closing quote. -/
theorem run_quoted {bytes : List UInt8} (plain : ∀ c ∈ bytes, Passive true c) (wide : cmd.argv.length = cmdArgvMax)
    (room : words.length < cmdMax)
    (between : Between cmd heap words passed (quoteChar :: bytes ++ [quoteChar] ++ rest) s) :
    ∃ s', scanLoop.run s = scanLoop.run s' ∧
      Between cmd heap (words ++ [bytes]) (passed + (bytes.length + 2)) rest s' := by
  obtain ⟨args, done, rfl, rfl, reads⟩ := between
  have few : args.length < cmdArgvMax - 1 := by rw [reads.length_eq]; exact room
  have opened : scanLoop.run (scanning cmd args done (quoteChar :: (bytes ++ quoteChar :: rest)) done.length false
      heap) = _ := turn_open few
  have passed : scanLoop.run (scanning cmd args (done ++ [quoteChar]) (bytes ++ quoteChar :: rest) (done.length + 1)
      true heap) = _ := run_passive plain few
  have closed : scanLoop.run (scanning cmd args (done ++ [quoteChar] ++ bytes) (quoteChar :: rest) (done.length + 1)
      true heap) = _ := turn_close wide few
  have place : done.length + 1 = (done ++ [quoteChar]).length := by simp
  have behind : (done ++ [quoteChar] ++ bytes).length + 1 = (done ++ [quoteChar] ++ bytes ++ [0]).length := by
    simp only [List.length_append, List.length_singleton]
  rw [behind] at closed
  refine ⟨_, ?_, args ++ [done.length + 1], done ++ [quoteChar] ++ bytes ++ [0], rfl, ?_, ?_⟩
  · simpa using opened.trans (passed.trans closed)
  · simp
  · rw [place]
    exact reads_concat (reads_more (reads_more (reads_more reads [quoteChar]) bytes) [0])
      (reads_last (fun c member => (plain c member).1) (done ++ [quoteChar]))

/-- A word is cut at the white space behind it or at its closing quote. -/
theorem run_word (word : Word) {separator : List UInt8} (nonempty : separator ≠ [])
    (space : ∀ c ∈ separator, isspace c = true) (wide : cmd.argv.length = cmdArgvMax) (room : words.length < cmdMax)
    (between : Between cmd heap words passed (word.render ++ (separator ++ rest)) s) :
    ∃ s' skipped spaces, separator = skipped ++ spaces ∧ scanLoop.run s = scanLoop.run s' ∧
      Between cmd heap (words ++ [word.contents]) (passed + word.render.length + skipped.length)
        (spaces ++ rest) s' := by
  obtain ⟨args, done, rfl, rfl, reads⟩ := between
  have few : args.length < cmdArgvMax - 1 := by rw [reads.length_eq]; exact room
  have free := word.nulFree
  cases word with
  | bare bytes nonempty' plain =>
    obtain ⟨c, spaces, rfl⟩ := List.exists_cons_of_ne_nil nonempty
    have moved : done.length ≠ (done ++ bytes).length := by
      have := List.length_pos_iff.mpr nonempty'
      rw [List.length_append]
      omega
    have cut : scanLoop.run (scanning cmd args (done ++ bytes) (c :: (spaces ++ rest)) done.length false heap) = _ :=
      turn_space (space c (by simp)) moved wide few
    rw [show (done ++ bytes).length + 1 = (done ++ bytes ++ [0]).length by simp; omega] at cut
    refine ⟨_, [c], spaces, rfl, (run_passive plain few).trans cut, _, _, rfl, ?_, ?_⟩
    · simp [Word.render, Nat.add_assoc]
    · exact reads_concat (reads_more (reads_more reads bytes) [0]) (reads_last free done)
  | quoted bytes plain =>
    have between : Between cmd heap words done.length (quoteChar :: bytes ++ [quoteChar] ++ (separator ++ rest))
        (scanning cmd args done (quoteChar :: bytes ++ [quoteChar] ++ (separator ++ rest)) done.length false heap) :=
      ⟨args, done, rfl, rfl, reads⟩
    obtain ⟨s', run, reached⟩ := run_quoted plain wide room between
    exact ⟨s', [], separator, rfl, run, by simpa [Word.render, Word.contents] using reached⟩

/-- A run of words is cut one by one. The white space behind the last of them
is left standing when its quote has cut it. -/
theorem run_words (first : Word) (before : List (Separator × Word)) (separator : Separator)
    (wide : cmd.argv.length = cmdArgvMax) (few : words.length + before.length + 1 ≤ cmdMax)
    (between : Between cmd heap words passed
      (first.render ++ (Items.render (asItems before) ++ (separator.val ++ rest))) s) :
    ∃ s' skipped spaces, separator.val = skipped ++ spaces ∧ scanLoop.run s = scanLoop.run s' ∧
      Between cmd heap (words ++ first.contents :: before.map (·.2.contents))
        (passed + first.render.length + (Items.render (asItems before)).length + skipped.length)
        (spaces ++ rest) s' := by
  induction before generalizing first words passed s with
  | nil =>
    obtain ⟨s', skipped, spaces, parts, run, reached⟩ :=
      run_word first separator.property.1 separator.property.2 wide few between
    exact ⟨s', skipped, spaces, parts, run, reached⟩
  | cons next before ih =>
    obtain ⟨gap, word⟩ := next
    have room : words.length + 1 < cmdMax := by
      rw [List.length_cons] at few
      omega
    have text : Items.render (asItems ((gap, word) :: before)) =
        gap.val ++ (word.render ++ Items.render (asItems before)) := render_cons ..
    rw [text, List.append_assoc, List.append_assoc] at between
    obtain ⟨s₁, skipped₁, spaces₁, parts₁, run₁, between₁⟩ :=
      run_word first gap.property.1 gap.property.2 wide (by omega) between
    have blank : ∀ c ∈ spaces₁, isspace c = true := fun c member => gap.property.2 c (by simp [parts₁, member])
    obtain ⟨s₂, run₂, between₂⟩ := run_spaces blank (by simpa using room) between₁
    obtain ⟨s₃, skipped, spaces, parts, run₃, between₃⟩ := ih word (by simp at few ⊢; omega) between₂
    refine ⟨s₃, skipped, spaces, parts, run₁.trans (run₂.trans run₃), ?_⟩
    have length : passed + first.render.length + (Items.render (asItems ((gap, word) :: before))).length +
        skipped.length = passed + first.render.length + skipped₁.length + spaces₁.length + word.render.length +
          (Items.render (asItems before)).length + skipped.length := by
      rw [text, parts₁]
      simp only [List.length_append]
      omega
    rw [length]
    simpa using between₃

/-- Words, and white space behind them, with room for one more argument. -/
theorem run_words_spaces (first : Word) (before : List (Separator × Word)) (separator : Separator)
    (wide : cmd.argv.length = cmdArgvMax) (few : words.length + before.length + 1 < cmdMax)
    (between : Between cmd heap words passed
      (first.render ++ (Items.render (asItems before) ++ (separator.val ++ rest))) s) :
    ∃ s', scanLoop.run s = scanLoop.run s' ∧
      Between cmd heap (words ++ first.contents :: before.map (·.2.contents))
        (passed + first.render.length + (Items.render (asItems before)).length + separator.val.length) rest s' := by
  obtain ⟨s₁, skipped, spaces, parts, run₁, between₁⟩ := run_words first before separator wide (by omega) between
  have blank : ∀ c ∈ spaces, isspace c = true := fun c member => separator.property.2 c (by simp [parts, member])
  obtain ⟨s₂, run₂, between₂⟩ := run_spaces blank (by simp; omega) between₁
  refine ⟨s₂, run₁.trans run₂, ?_⟩
  rw [parts, List.length_append, ← Nat.add_assoc]
  exact between₂

/-! ### The end of the line -/

/-- The arguments of a finished command: strings that start inside the line. -/
def Finished (cmd : CmdBuff) (limit : Nat) (words : List (List UInt8)) (built : CmdBuff) : Prop :=
  ∃ args buffer, built = { holding cmd args buffer with argv := (holding cmd args buffer).argv.set args.length none } ∧
    List.Forall₂ (fun p word => p < limit ∧ cString (buffer.drop p) = word) args words

theorem finish_cut {args : List Nat} {inQuotes : Bool} (cut : done.length ≤ start ∨ cmdMax ≤ args.length) :
    (scanning cmd args done rest start inQuotes heap).finish =
      { holding cmd args (done ++ rest) with
        argv := (holding cmd args (done ++ rest)).argv.set args.length none } := by
  rw [Scan.finish, if_neg]
  · rfl
  · rintro ⟨before, -, room⟩
    have few : args.length < cmdMax := room
    have inside : start < done.length := before
    omega

theorem finish_open {args : List Nat} {inQuotes : Bool} (wide : cmd.argv.length = cmdArgvMax)
    (before : start < done.length) (nonzero : (holding cmd args (done ++ rest)).byte start ≠ 0)
    (room : args.length < cmdArgvMax - 1) :
    (scanning cmd args done rest start inQuotes heap).finish =
      { holding cmd (args ++ [start]) (done ++ rest) with
        argv := (holding cmd (args ++ [start]) (done ++ rest)).argv.set (args ++ [start]).length none } := by
  have pushed : (holding cmd args (done ++ rest)).push start = _ := push_holding wide room _
  rw [Scan.finish, if_pos ⟨before, nonzero, room⟩]
  simp only [scanning, pushed, argc_holding]

theorem finished_reads {args : List Nat} (reads : List.Forall₂ (Reads done) args words) (within : done.length ≤ limit)
    (rest : List UInt8) :
    List.Forall₂ (fun p word => p < limit ∧ cString ((done ++ rest).drop p) = word) args words :=
  reads.imp fun _ _ read => ⟨Nat.lt_of_lt_of_le read.inside within, read.string rest⟩

theorem finish_between (between : Between cmd heap words passed rest s) (within : passed ≤ limit) :
    Finished cmd limit words s.finish := by
  obtain ⟨args, done, rfl, rfl, reads⟩ := between
  exact ⟨args, done ++ rest, finish_cut (.inl (Nat.le_refl _)), finished_reads reads within rest⟩

/-- The last word of a line is cut by its quote or after the loop. -/
theorem finish_word (word : Word) (wide : cmd.argv.length = cmdArgvMax) (room : words.length < cmdMax)
    (between : Between cmd heap words passed (word.render ++ 0 :: rest) s) :
    Finished cmd (passed + word.render.length) (words ++ [word.contents]) (scanLoop.run s).finish := by
  cases word with
  | bare bytes nonempty plain =>
    obtain ⟨args, done, rfl, rfl, reads⟩ := between
    have few : args.length < cmdArgvMax - 1 := by rw [reads.length_eq]; exact room
    have free : NulFree bytes := fun c member => (plain c member).1
    have longer : done.length < (done ++ bytes).length := by
      have := List.length_pos_iff.mpr nonempty
      rw [List.length_append]
      omega
    have nonzero : (holding cmd args (done ++ bytes ++ 0 :: rest)).byte done.length ≠ 0 := by
      obtain ⟨first, more, rfl⟩ := List.exists_cons_of_ne_nil nonempty
      have here : (holding cmd args (done ++ first :: (more ++ 0 :: rest))).byte done.length = first := byte_ahead
      rw [List.append_assoc, List.cons_append, here]
      exact free first (by simp)
    rw [Word.render, run_passive plain few, run_terminator, finish_open wide longer nonzero few]
    refine ⟨args ++ [done.length], done ++ bytes ++ 0 :: rest, rfl, List.rel_append ?_ (.cons ⟨?_, ?_⟩ .nil)⟩
    · rw [List.append_assoc]
      exact finished_reads reads (by omega) _
    · simpa using longer
    · rw [List.append_assoc, List.drop_left, cString_terminated free, Word.contents]
  | quoted bytes plain =>
    have text : (Word.quoted bytes plain).render ++ 0 :: rest =
      quoteChar :: bytes ++ [quoteChar] ++ 0 :: rest := rfl
    obtain ⟨s', run, reached⟩ := run_quoted plain wide room (text ▸ between)
    have stops : scanLoop.run s' = s' := by
      obtain ⟨args, done, rfl, -, -⟩ := reached
      exact run_terminator
    rw [run, stops]
    exact finish_between reached (by simp [Word.render])

/-- A line of words only. -/
theorem finish_words (first : Word) (before : List (Separator × Word)) (wide : cmd.argv.length = cmdArgvMax)
    (few : words.length + before.length + 1 ≤ cmdMax)
    (between : Between cmd heap words passed (first.render ++ (Items.render (asItems before) ++ 0 :: rest)) s) :
    Finished cmd (passed + first.render.length + (Items.render (asItems before)).length)
      (words ++ first.contents :: before.map (·.2.contents)) (scanLoop.run s).finish := by
  induction before generalizing first words passed s with
  | nil => exact finish_word first wide few between
  | cons next before ih =>
    obtain ⟨gap, word⟩ := next
    rw [List.length_cons] at few
    have text : Items.render (asItems ((gap, word) :: before)) =
        gap.val ++ (word.render ++ Items.render (asItems before)) := render_cons ..
    rw [text, List.append_assoc, List.append_assoc] at between
    obtain ⟨s₁, run₁, between₁⟩ := run_words_spaces first [] gap wide (by simp; omega) between
    have rest := ih word (by simp; omega) between₁
    have length : passed + first.render.length + (Items.render (asItems ((gap, word) :: before))).length =
        passed + first.render.length + 0 + gap.val.length + word.render.length +
          (Items.render (asItems before)).length := by
      rw [text]
      simp only [List.length_append]
      omega
    rw [run₁, length]
    simpa [asItems] using rest

end Words

end SysProg.LineGrammar
