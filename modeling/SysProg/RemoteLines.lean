import SysProg.LineGrammar
import SysProg.LocalLoop
import SysProg.PipeSplitting
import SysProg.RequestFraming

/-! The same line typed at the remote and at the local shell. The remote client
sends a line with its newline, the local loop cuts the newline off, and the
server puts every line on a list where the local loop keeps one command buffer
for those without a pipe. What the two shells take a line for is compared
through the words that the scanner makes of a text. -/
namespace SysProg.RemoteLines
open CString WhileLoop Dshlib CopyBounds Scanner LineGrammar ScanAgreement LineOutlook LocalLoop RshServer
open RequestFraming PipeSplitting

/-! ### Texts without redirections -/

/-- An operator stands outside quotes. -/
def redirects : Bool → List UInt8 → Bool
  | _, [] => false
  | inQuotes, c :: rest =>
    if c = quoteChar then redirects (!inQuotes) rest
    else (!inQuotes && (c == lessChar || c == greaterChar)) || redirects inQuotes rest

/-- The text ends inside quotes. -/
def leavesOpen : Bool → List UInt8 → Bool
  | inQuotes, [] => inQuotes
  | inQuotes, c :: rest => leavesOpen (if c = quoteChar then !inQuotes else inQuotes) rest

/-- The words of a text, `current` being what stands behind the last cut. A
quote drops what it is opened behind. -/
def wordsFrom : Bool → List UInt8 → List UInt8 → List (List UInt8)
  | _, current, [] => if current = [] then [] else [current]
  | inQuotes, current, c :: rest =>
    if c = quoteChar then
      if inQuotes then current :: wordsFrom false [] rest else wordsFrom true [] rest
    else if !inQuotes && isspace c then
      if current = [] then wordsFrom false [] rest else current :: wordsFrom false [] rest
    else wordsFrom inQuotes (current ++ [c]) rest

/-- A newline behind a text ends its last word, as the end of the text does. -/
theorem wordsFrom_newline {inQuotes : Bool} {current text : List UInt8} (closed : leavesOpen inQuotes text = false) :
    wordsFrom inQuotes current (text ++ [newline]) = wordsFrom inQuotes current text := by
  induction text generalizing inQuotes current with
  | nil =>
    obtain rfl : inQuotes = false := closed
    have space : newline ≠ quoteChar ∧ isspace newline = true := by decide
    simp [wordsFrom, space]
  | cons c rest ih =>
    rw [leavesOpen] at closed
    rw [List.cons_append, wordsFrom, wordsFrom]
    split
    next quote =>
      rw [if_pos quote] at closed
      cases inQuotes with
      | true => exact congrArg (current :: ·) (ih closed)
      | false => exact ih closed
    next other =>
      rw [if_neg other] at closed
      split
      next space =>
        obtain rfl : inQuotes = false := by simpa using (Bool.and_eq_true_iff.mp space).1
        rw [ih closed]
      next => exact ih closed

/-! ### The scanner on such a text -/

theorem one_more {words : List (List UInt8)} (few : words.length < cmdMax) (word : List UInt8) :
    (words ++ [word]).length ≤ cmdMax := by
  rw [List.length_append, List.length_singleton]
  exact few

theorem reads_current {done : List UInt8} {start : Nat} (before : start ≤ done.length)
    (free : NulFree (done.drop start)) :
    Reads (done ++ [0]) start (done.drop start) :=
  ⟨free, [], by rw [List.drop_append_of_le_length before]⟩

section Runs
variable {cmd : CmdBuff} {heap : Heap} {args : List Nat} {done text behind : List UInt8} {start : Nat} {inQuotes : Bool}
  {words : List (List UInt8)}

/-- What comes of the words cut so far and the text ahead. -/
def Cuts (cmd : CmdBuff) (heap : Heap) (words : List (List UInt8)) (s : Scan) : Prop :=
  (∃ limit, Finished cmd limit (words.take cmdMax) (scanLoop.run s).finish) ∧ (scanLoop.run s).heap = heap

/-- A full argument vector ends the scan. -/
theorem cuts_full (reads : List.Forall₂ (Reads done) args words) (full : words.length = cmdMax)
    (more : List (List UInt8)) : Cuts cmd heap (words ++ more) (scanning cmd args done text start inQuotes heap) := by
  have count := reads.length_eq.trans full
  rw [Cuts, run_full (Nat.le_of_eq count.symm), List.take_append_of_le_length (Nat.le_of_eq full.symm),
    List.take_of_length_le (Nat.le_of_eq full)]
  exact ⟨⟨done.length, args, _, finish_cut (.inr (Nat.le_of_eq count.symm)),
    finished_reads reads (Nat.le_refl _) _⟩, rfl⟩

/-- The terminator ends the last word. -/
theorem cuts_end (wide : cmd.argv.length = cmdArgvMax) (before : start ≤ done.length)
    (current : NulFree (done.drop start)) (reads : List.Forall₂ (Reads done) args words) (few : words.length < cmdMax) :
    Cuts cmd heap (words ++ if done.drop start = [] then [] else [done.drop start])
      (scanning cmd args done (0 :: behind) start inQuotes heap) := by
  rw [Cuts, run_terminator]
  refine ⟨?_, rfl⟩
  by_cases nothing : done.drop start = []
  · have place : done.length ≤ start := List.drop_eq_nil_iff.mp nothing
    rw [if_pos nothing, List.append_nil, List.take_of_length_le (Nat.le_of_lt few)]
    exact ⟨done.length, args, _, finish_cut (.inl place), finished_reads reads (Nat.le_refl _) _⟩
  · have inside : start < done.length := not_le.mp fun past => nothing (List.drop_eq_nil_iff.mpr past)
    have nonzero : (holding cmd args (done ++ 0 :: behind)).byte start ≠ 0 := by
      have member : done[start] ∈ done.drop start := List.drop_eq_getElem_cons inside ▸ List.mem_cons_self
      simpa [CmdBuff.byte, holding, List.getElem?_append_left inside, List.getElem?_eq_getElem inside]
        using current _ member
    have room : args.length < cmdArgvMax - 1 := reads.length_eq ▸ few
    have last := reads_concat (reads_more reads [0]) (reads_current before current)
    have text : done ++ 0 :: behind = done ++ [0] ++ behind := List.append_cons done 0 behind
    rw [if_neg nothing, List.take_of_length_le (one_more few _)]
    refine ⟨(done ++ [0]).length, args ++ [start], done ++ 0 :: behind, finish_open wide inside nonzero room, ?_⟩
    rw [text]
    exact finished_reads last (Nat.le_refl _) behind

/-- The scanner cuts a text without redirections into its words and allocates
nothing. -/
theorem cuts_text (wide : cmd.argv.length = cmdArgvMax) (free : NulFree text)
    (plain : redirects inQuotes text = false) (before : start ≤ done.length) (current : NulFree (done.drop start))
    (reads : List.Forall₂ (Reads done) args words) (few : words.length ≤ cmdMax) :
    Cuts cmd heap (words ++ wordsFrom inQuotes (done.drop start) text)
      (scanning cmd args done (text ++ 0 :: behind) start inQuotes heap) := by
  induction text generalizing args done start inQuotes words with
  | nil =>
    rcases Nat.lt_or_eq_of_le few with room | full
    · exact cuts_end wide before current reads room
    · exact cuts_full reads full _
  | cons c rest ih =>
    rcases Nat.lt_or_eq_of_le few with room | full
    · have nonzero : c ≠ 0 := free c List.mem_cons_self
      have freeRest : NulFree rest := fun other member => free other (List.mem_cons_of_mem _ member)
      have few : args.length < cmdArgvMax - 1 := reads.length_eq ▸ room
      have behindLast (byte : UInt8) : (done ++ [byte]).drop (done.length + 1) = [] :=
        List.drop_eq_nil_of_le (by simp)
      -- a new word begins behind this character
      have skipped (byte : UInt8) (quoted : Bool) (plain : redirects quoted rest = false) :
          Cuts cmd heap (words ++ wordsFrom quoted [] rest)
            (scanning cmd args (done ++ [byte]) (rest ++ 0 :: behind) (done.length + 1) quoted heap) := by
        have next := @ih args (done ++ [byte]) (done.length + 1) quoted words freeRest plain (by simp)
          (by rw [behindLast]; exact nulFree_nil) (reads_more reads [byte]) (Nat.le_of_lt room)
        rwa [behindLast] at next
      -- this character ends the word that began at `start`
      have cut (plain : redirects false rest = false) :
          Cuts cmd heap (words ++ done.drop start :: wordsFrom false [] rest)
            (scanning cmd (args ++ [start]) (done ++ [0]) (rest ++ 0 :: behind) (done.length + 1) false heap) := by
        have next := @ih (args ++ [start]) (done ++ [0]) (done.length + 1) false (words ++ [done.drop start]) freeRest
          plain (by simp) (by rw [behindLast]; exact nulFree_nil)
          (reads_concat (reads_more reads [0]) (reads_current before current)) (one_more room _)
        rwa [behindLast, List.append_assoc, List.singleton_append] at next
      rw [List.cons_append, wordsFrom]
      rw [redirects] at plain
      by_cases quote : c = quoteChar
      · rw [if_pos quote] at plain
        rw [if_pos quote, quote]
        cases inQuotes with
        | false =>
          rw [if_neg Bool.false_ne_true, Cuts, turn_open few]
          exact skipped quoteChar true plain
        | true =>
          rw [if_pos rfl, Cuts, turn_close wide few]
          exact cut plain
      rw [if_neg quote, Bool.or_eq_false_iff] at plain
      rw [if_neg quote]
      by_cases blank : (!inQuotes && isspace c) = true
      · obtain ⟨outside, space⟩ := Bool.and_eq_true_iff.mp blank
        obtain rfl : inQuotes = false := by simpa using outside
        rw [if_pos blank]
        by_cases nothing : done.drop start = []
        · have place : start = done.length := Nat.le_antisymm before (List.drop_eq_nil_iff.mp nothing)
          rw [if_pos nothing, place, Cuts, turn_gap space few]
          exact skipped c false plain.2
        · have moved : start ≠ done.length := fun same => nothing (same ▸ List.drop_length)
          rw [if_neg nothing, Cuts, turn_space space moved wide few]
          exact cut plain.2
      · have passive : Passive inQuotes c := by
          refine ⟨nonzero, quote, ?_⟩
          rintro rfl
          simpa using And.intro blank plain.1
        have grown : (done ++ [c]).drop start = done.drop start ++ [c] := List.drop_append_of_le_length before
        have next := @ih args (done ++ [c]) start inQuotes words freeRest plain.2 (Nat.le_trans before (by simp))
          (by rw [grown]; simp [current, nonzero]) (reads_more reads [c]) (Nat.le_of_lt room)
        rw [if_neg blank, Cuts, turn_passive passive few]
        rwa [grown] at next
    · exact cuts_full reads full _

/-- What a finished command is executed with. -/
theorem command_finished {built : CmdBuff} (finished : Finished cmd limit words built) :
    command built = ⟨words.length, words.map some, cmd.inputFile, cmd.outputFile, cmd.appendOutput⟩ := by
  obtain ⟨args, buffer, rfl, reads⟩ := finished
  have count := reads.length_eq
  simp only [command, count, holding, Command.mk.injEq, true_and, and_true]
  apply List.ext_getElem (by simp)
  intro i left right
  have before : i < args.length := by simpa [count] using left
  have pointer : ((args.map some ++ cmd.argv.drop args.length).set args.length none)[i]? = some (some args[i]) := by
    rw [List.getElem?_set_ne (Nat.ne_of_gt before), List.getElem?_append_left (by simpa using before)]
    simp [List.getElem?_eq_getElem before]
  have word : cString (buffer.drop args[i]) = words[i] :=
    ((List.forall₂_iff_get.mp reads).2 i before (count ▸ before)).2
  rw [count] at pointer
  simp [CmdBuff.arg, CmdBuff.string, List.getD_eq_getElem?_getD, pointer, word]

end Runs

/-! ### White space around a text -/

theorem blanks_skipped (text : List UInt8) :
    redirects false (text.dropWhile isspace) = redirects false text ∧
      leavesOpen false (text.dropWhile isspace) = leavesOpen false text := by
  induction text with
  | nil => exact ⟨rfl, rfl⟩
  | cons c rest ih =>
    cases space : isspace c with
    | false => simp [space]
    | true =>
      have other : (c == lessChar) = false ∧ (c == greaterChar) = false := by
        constructor <;> rw [beq_eq_false_iff_ne] <;> rintro rfl <;> exact absurd space (by decide)
      rw [List.dropWhile_cons_of_pos space]
      simpa [redirects, leavesOpen, (space_active space).2, other] using ih

theorem redirects_newline (inQuotes : Bool) (text : List UInt8) :
    redirects inQuotes (text ++ [newline]) = redirects inQuotes text := by
  have other : newline ≠ quoteChar ∧ newline ≠ lessChar ∧ newline ≠ greaterChar := by decide
  induction text generalizing inQuotes with
  | nil => simp [redirects, other]
  | cons c rest ih => simp only [List.cons_append, redirects, ih]

theorem nonBlank_newline (text : List UInt8) : nonBlank (text ++ [newline]) = nonBlank text := by
  have space : isspace newline = true := by decide
  simp [nonBlank, space]

theorem copied_newline {segment : List UInt8} (free : NulFree segment) (nonblank : nonBlank segment = true) :
    copied (segment ++ [newline]) = copied segment ++ [newline] := by
  have nonempty : copied segment ≠ [] := by
    rw [Ne, copied_eq_nil_iff free, nonblank]
    decide
  have both : NulFree (segment ++ [newline]) := by
    rw [nulFree_append]
    exact ⟨free, by decide⟩
  rw [copied, cString_of_nulFree free] at nonempty
  rw [copied, copied, cString_of_nulFree both, cString_of_nulFree free, List.dropWhile_append]
  simp [nonempty]

/-! ### What a shell takes a text for -/

/-- The command that is executed for a text without redirections. -/
def plainCommand (segment : List UInt8) : Command :=
  let words := (wordsFrom false [] (copied segment)).take cmdMax
  ⟨words.length, words.map some, none, none, false⟩

theorem buildCmdBuff_plain {segment : List UInt8} {cmd : CmdBuff} (wide : cmd.argv.length = cmdArgvMax)
    (nonblank : copied segment ≠ []) (short : (copied segment).length < cmd.buffer.length)
    (plain : redirects false (copied segment) = false) (files : SameFiles vacant cmd) (heap : Heap) :
    ∃ built, buildCmdBuff segment cmd heap = some (ok, built, heap) ∧ command built = plainCommand segment := by
  have cuts := @cuts_text cmd heap [] [] (copied segment) (cmd.buffer.drop ((copied segment).length + 1)) 0 false []
    wide (copied_nulFree segment) plain (Nat.le_refl _) nulFree_nil .nil (Nat.zero_le _)
  obtain ⟨⟨limit, finished⟩, same⟩ := cuts
  have skipped : (cString segment).dropWhile isspace = copied segment := rfl
  refine ⟨_, (buildCmdBuff_scans skipped nonblank short heap).trans (by rw [same]), ?_⟩
  rw [command_finished finished]
  obtain ⟨input, output, append⟩ := files
  rw [input, output, append]
  rfl

/-- The newline behind a segment with closed quotes changes nothing. -/
theorem plainCommand_newline {segment : List UInt8} (free : NulFree segment) (nonblank : nonBlank segment = true)
    (closed : leavesOpen false segment = false) : plainCommand (segment ++ [newline]) = plainCommand segment := by
  have inner : leavesOpen false (copied segment) = false := by
    rw [copied, cString_of_nulFree free, (blanks_skipped segment).2, closed]
  rw [plainCommand, plainCommand, copied_newline free nonblank, wordsFrom_newline inner]

/-- A list that `build_cmd_list` returns has one such command for each segment. -/
theorem commands_produced {segments : List (List UInt8)} {built : List CmdBuff}
    (plain : ∀ segment ∈ segments, redirects false (copied segment) = false)
    (each : List.Forall₂ Produced segments built) : built.map command = segments.map plainCommand := by
  induction each with
  | nil => rfl
  | @cons segment cmd segments built produced each ih =>
    obtain ⟨stale, heap, fresh, granted, after, allocated, parsed, -⟩ := produced
    obtain ⟨size, wide, files⟩ := alloc_granted allocated
    have nonblank : copied segment ≠ [] := by
      intro blank
      rw [buildCmdBuff_blank blank] at parsed
      exact ok_ne_warnNoCmds (congrArg Prod.fst (Option.some.inj parsed)).symm
    have short : (copied segment).length < fresh.buffer.length := by
      by_contra long
      rw [buildCmdBuff_overrun nonblank (not_lt.mp long)] at parsed
      cases parsed
    obtain ⟨built, same, meaning⟩ := buildCmdBuff_plain wide nonblank short (plain segment (by simp)) files granted
    obtain rfl : built = cmd := by
      rw [same] at parsed
      exact congrArg (·.2.1) (Option.some.inj parsed)
    rw [List.map_cons, List.map_cons, meaning, ih fun other member => plain other (List.mem_cons_of_mem _ member)]

/-! ### Lines with a newline -/

/-- The segments of a line, with and without a newline behind it. -/
theorem segments_newline (line : List UInt8) : ∃ front last, line = front.flatMap (· ++ [pipeChar]) ++ last ∧
    pipeChar ∉ last ∧ line.splitOn pipeChar = front ++ [last] ∧
    (line ++ [newline]).splitOn pipeChar = front ++ [last ++ [newline]] := by
  induction line with
  | nil => exact ⟨[], [], rfl, List.not_mem_nil, rfl, by decide⟩
  | cons c rest ih =>
    obtain ⟨front, last, text, noPipe, split, splitNewline⟩ := ih
    rw [List.cons_append, List.splitOn_cons_eq_if_modifyHead, List.splitOn_cons_eq_if_modifyHead, split, splitNewline]
    by_cases pipe : c = pipeChar
    · refine ⟨[] :: front, last, by simp [text, pipe], noPipe, by simp [pipe], by simp [pipe]⟩
    · cases front with
      | nil => exact ⟨[], c :: last, by simp [text], by simp [noPipe, Ne.symm pipe], by simp [pipe], by simp [pipe]⟩
      | cons first front =>
        exact ⟨(c :: first) :: front, last, by simp [text], noPipe, by simp [pipe], by simp [pipe]⟩

/-- What a shell makes of a line: the result of its parser and the commands it
is left with. -/
def parsedLocally (s : Local) (input : Input) : Option (Int × List Command) :=
  if pipeChar ∈ input.text then
    (buildCmdList input.text s.cmdList (s.heapFor input)).map fun (rc, clist, _) => (rc, clist.map command)
  else
    (buildCmdBuff input.text s.cmd (s.heapFor input)).map fun (rc, cmd, _) =>
      (rc, if rc = ok then [command cmd] else [])

/-- The server's list for the bytes of one `recv`. -/
def parsedRemotely (e : Turn) : Option (Int × List Command) :=
  e.recv.bind fun ioBuff =>
    (buildCmdList (cString ioBuff) [] e.heap).map fun (rc, clist, _) => (rc, clist.map command)

/-- The line ends in a pipe right behind the last of exactly `CMD_MAX`
commands. -/
def PipeBehindFullList (line : List UInt8) : Prop :=
  (commandSegments line).length = cmdMax ∧ line.getLast? = some pipeChar ∧ ¬ BlankBehindFullList line

instance (line : List UInt8) : Decidable (PipeBehindFullList line) := by
  unfold PipeBehindFullList; infer_instance

/-- No segment of the line has a redirection, and its last one closes its quotes. -/
structure PlainLine (line : List UInt8) : Prop where
  nulFree : NulFree line
  plain : ∀ segment ∈ line.splitOn pipeChar, redirects false segment = false
  closed : ∀ segment ∈ (line.splitOn pipeChar).getLast?, leavesOpen false segment = false

/-- The newline leaves the commands of a line as they are. -/
theorem commands_newline {line : List UInt8} (plain : PlainLine line) :
    (commandSegments (line ++ [newline])).map plainCommand = (commandSegments line).map plainCommand := by
  obtain ⟨front, last, text, -, split, splitNewline⟩ := segments_newline line
  have free : NulFree (line ++ [newline]) := by
    rw [nulFree_append]
    exact ⟨plain.nulFree, by decide⟩
  have lastFree : NulFree last := fun c member => plain.nulFree c (by simp [text, member])
  have closed : leavesOpen false last = false := plain.closed last (by simp [split])
  rw [commandSegments, commandSegments, cString_of_nulFree free, cString_of_nulFree plain.nulFree, split, splitNewline,
    List.filter_append, List.filter_append, List.map_append, List.map_append]
  cases nonblank : nonBlank last with
  | false => simp [nonBlank_newline, nonblank]
  | true => simp [nonBlank_newline, nonblank, plainCommand_newline lastFree nonblank closed]

/-- The newline makes a blank segment of what is behind the last pipe. -/
theorem blankBehind_newline {line : List UInt8} (free : NulFree line)
    (same : (commandSegments (line ++ [newline])).length = (commandSegments line).length) :
    BlankBehindFullList (line ++ [newline]) ↔ BlankBehindFullList line ∨ PipeBehindFullList line := by
  obtain ⟨front, last, text, noPipe, split, splitNewline⟩ := segments_newline line
  have freeNewline : NulFree (line ++ [newline]) := by
    rw [nulFree_append]
    exact ⟨free, by decide⟩
  have lastToken : (pipeTokens (line ++ [newline])).getLast? = some (last ++ [newline]) := by
    simp [pipeTokens, cString_of_nulFree freeNewline, splitNewline, List.filter_append]
  have blank : BlankBehindFullList (line ++ [newline]) ↔
      (commandSegments line).length = cmdMax ∧ nonBlank last = false := by
    simp [BlankBehindFullList, lastToken, nonBlank_newline, same]
  rw [blank]
  by_cases empty : last = []
  · subst empty
    constructor
    · rintro ⟨full, -⟩
      have ends : line.getLast? = some pipeChar := by
        rcases List.eq_nil_or_concat front with rfl | ⟨before, segment, rfl⟩
        · rw [text] at full
          cases full
        · simp [text, List.getLast?_append]
      exact or_iff_not_imp_left.mpr fun other => ⟨full, ends, other⟩
    · rintro (⟨full, -⟩ | ⟨full, -⟩) <;> exact ⟨full, rfl⟩
  · have lastOld : (pipeTokens line).getLast? = some last := by
      simp [pipeTokens, cString_of_nulFree free, split, List.filter_append, empty]
    have ends : line.getLast? ≠ some pipeChar := by
      rw [text, List.getLast?_append, List.getLast?_eq_some_getLast empty]
      intro pipe
      exact noPipe (Option.some.inj pipe ▸ List.getLast_mem empty)
    simp [BlankBehindFullList, PipeBehindFullList, lastOld, ends]

/-- What `build_cmd_list` makes of a line without redirections. -/
def outcome (line : List UInt8) (commands : List Command) : Int × List Command :=
  if cmdMax < commands.length ∨ BlankBehindFullList line then (errTooManyCommands, [])
  else (if commands.length = 0 then warnNoCmds else ok, commands)

theorem listed_outcome {line : List UInt8} (short : (cString line).length < shCmdMax)
    (plain : ∀ segment ∈ commandSegments line, redirects false (copied segment) = false) (clist : List CmdBuff)
    {heap : Heap} (granting : Granting heap) :
    (buildCmdList line clist heap).map (fun (rc, clist, _) => (rc, clist.map command)) =
      some (outcome line ((commandSegments line).map plainCommand)) := by
  obtain ⟨rc, built, after, returns, -, result⟩ := buildCmdList_granted line clist granting short
  rw [returns, Option.map_some, outcome, List.length_map]
  split at result
  next refused =>
    rw [if_pos refused, result.1, result.2]
    rfl
  next accepted =>
    obtain ⟨code, each⟩ := result
    rw [if_neg accepted]
    simp only [code, each.length_eq, commands_produced plain each]

theorem plain_segments {line : List UInt8} (free : NulFree line)
    (plain : ∀ segment ∈ line.splitOn pipeChar, redirects false segment = false) :
    ∀ segment ∈ commandSegments line, redirects false (copied segment) = false := by
  intro segment member
  rw [commandSegments, cString_of_nulFree free] at member
  have segmentOf := (List.mem_filter.mp member).1
  have part : NulFree segment := by
    rw [List.splitOn_eq_splitOnP] at segmentOf
    exact fun c inside => free c ((Tokens.sublist_of_mem_splitOnP segmentOf).mem inside)
  rw [copied, cString_of_nulFree part, (blanks_skipped segment).1]
  exact plain segment segmentOf

theorem plain_newline {line : List UInt8} (plain : PlainLine line) :
    ∀ segment ∈ (line ++ [newline]).splitOn pipeChar, redirects false segment = false := by
  obtain ⟨front, last, -, -, split, splitNewline⟩ := segments_newline line
  intro segment member
  rw [splitNewline, List.mem_append, List.mem_singleton] at member
  rcases member with earlier | rfl
  · exact plain.plain segment (by simp [split, earlier])
  · rw [redirects_newline]
    exact plain.plain last (by simp [split])

/-- The client has read the line, and what it sends for it arrives in one piece. -/
def Arrives (input : Input) (e : Turn) : Prop :=
  (∃ line : Line, line.bytes = input.text ++ [newline] ∧ e.recv.toList = sent [line]) ∧ Granting e.heap

/-- A line of the length that the local loop reads is sent whole. -/
theorem arrives_whole {input : Input} {e : Turn} (arrives : Arrives input e) :
    e.recv = some (input.text ++ [newline]) := by
  obtain ⟨⟨line, bytes, received⟩, -⟩ := arrives
  have short : line.bytes.length ≤ rdshCommBuffSz - 1 := by
    have text := text_short input
    have room : argMax < rdshCommBuffSz - 1 := by decide
    rw [bytes, List.length_append, List.length_singleton]
    omega
  have onePiece : pieces line.bytes.length line.bytes = [line.bytes] := by
    cases size : line.bytes.length with
    | zero => exact absurd (List.eq_nil_of_length_eq_zero size) line.nonempty
    | succ fuel =>
      have rest : line.bytes.drop (rdshCommBuffSz - 1) = [] := List.drop_eq_nil_of_le short
      rw [pieces, if_neg line.nonempty, rest, List.take_of_length_le short]
      cases fuel <;> simp [pieces]
  have whole : sent [line] = [line.bytes] := by simp [sent, onePiece, cString_of_nulFree line.nulFree]
  rw [whole, bytes] at received
  exact Option.toList_eq_singleton_iff.mp received

theorem parsedRemotely_outcome {input : Input} {e : Turn} (plain : PlainLine input.text) (arrives : Arrives input e) :
    parsedRemotely e = some (outcome (input.text ++ [newline]) ((commandSegments input.text).map plainCommand)) := by
  have received := arrives_whole arrives
  have free : NulFree (input.text ++ [newline]) := by
    rw [nulFree_append]
    exact ⟨plain.nulFree, by decide⟩
  have short : (cString (input.text ++ [newline])).length < shCmdMax := by
    have text := text_short input
    have room : argMax < shCmdMax := by decide
    rw [cString_of_nulFree free, List.length_append, List.length_singleton]
    omega
  rw [parsedRemotely, received, Option.bind_some, cString_of_nulFree free,
    listed_outcome short (plain_segments free (plain_newline plain)) [] arrives.2, commands_newline plain]

theorem parsedLocally_outcome {s : Local} {history : List Input} {input : Input} (after : After history s)
    (calm : ∀ earlier ∈ history, earlier.Calm) (plain : PlainLine input.text) (granting : Granting (s.heapFor input)) :
    parsedLocally s input = some (outcome input.text ((commandSegments input.text).map plainCommand)) := by
  have segments := plain_segments plain.nulFree plain.plain
  rw [parsedLocally]
  split
  next piped =>
    have short : (cString input.text).length < shCmdMax := by
      have text := text_short input
      have room : argMax < shCmdMax := by decide
      rw [cString_of_nulFree plain.nulFree]
      omega
    exact listed_outcome short segments s.cmdList granting
  next single =>
    have whole : commandSegments input.text = [input.text].filter nonBlank := by
      rw [commandSegments, cString_of_nulFree plain.nulFree, List.splitOn_eq_singleton single]
    have few : ¬ BlankBehindFullList input.text := by
      rintro ⟨full, -⟩
      have atMost := List.length_filter_le nonBlank [input.text]
      rw [← whole, full] at atMost
      exact absurd (show cmdMax ≤ 1 from atMost) (by decide)
    cases blank : nonBlank input.text with
    | false =>
      have nothing := (copied_eq_nil_iff plain.nulFree).mpr blank
      have code : warnNoCmds ≠ ok := by decide
      simp [buildCmdBuff_blank nothing, outcome, whole, blank, few, code]
    | true =>
      have nonblank : copied input.text ≠ [] := by
        rw [Ne, copied_eq_nil_iff plain.nulFree, blank]
        decide
      have ready := after_ready after
      obtain ⟨built, parsed, meaning⟩ := buildCmdBuff_plain ready.wide nonblank (ready.size ▸ copied_short input)
        (segments input.text (by simp [whole, blank])) (after_calm after calm) (s.heapFor input)
      have room : ¬ cmdMax < 1 := by decide
      simp [parsed, meaning, outcome, whole, blank, few, room]

/-- Eight commands with a pipe behind them are a list at the prompt, and one
command too many with the newline behind the pipe. -/
theorem outcome_pipeBehind {line : List UInt8} (free : NulFree line) {commands : List Command}
    (same : (commandSegments (line ++ [newline])).length = (commandSegments line).length)
    (count : commands.length = (commandSegments line).length) (pipeBehind : PipeBehindFullList line) :
    outcome line commands = (ok, commands) ∧ outcome (line ++ [newline]) commands = (errTooManyCommands, []) := by
  have blank := (blankBehind_newline free same).mpr (.inr pipeBehind)
  obtain ⟨full, -, other⟩ := pipeBehind
  have room : ¬ cmdMax < commands.length := by
    rw [count, full]
    exact Nat.lt_irrefl _
  have some : commands.length ≠ 0 := by
    rw [count, full]
    decide
  exact ⟨by rw [outcome, if_neg (not_or.mpr ⟨room, other⟩), if_neg some], if_pos (.inr blank)⟩

end SysProg.RemoteLines
