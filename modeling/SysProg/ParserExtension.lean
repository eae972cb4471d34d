import SysProg.LocalLoop
import SysProg.LineGrammar
import SysProg.PartTwoScanner

/-! The redirection-aware scanner against the one of the second part. On a
line without redirections they take the same turns: one remembers that no word
is open by a NULL start, the other by a start that keeps up with the token. -/
namespace SysProg.ParserExtension
open CString WhileLoop Scanner

/-- No redirection character stands outside double quotes. -/
def Undirected : Bool → List UInt8 → Prop
  | _, [] => True
  | inQuotes, c :: rest =>
    if c = Dshlib.quoteChar then Undirected (!inQuotes) rest
    else (inQuotes = false → c ≠ Dshlib.lessChar ∧ c ≠ Dshlib.greaterChar) ∧ Undirected inQuotes rest

instance decidableUndirected : (inQuotes : Bool) → (text : List UInt8) → Decidable (Undirected inQuotes text)
  | _, [] => .isTrue trivial
  | inQuotes, c :: rest =>
    have := decidableUndirected (!inQuotes) rest
    have := decidableUndirected inQuotes rest
    inferInstanceAs (Decidable (if c = Dshlib.quoteChar then Undirected (!inQuotes) rest
      else (inQuotes = false → c ≠ Dshlib.lessChar ∧ c ≠ Dshlib.greaterChar) ∧ Undirected inQuotes rest))

/-- A character of such a text is a quote, a passive one or white space. -/
theorem undirected_kinds (nonzero : c ≠ 0) (undirected : Undirected inQuotes (c :: rest)) :
    c = Dshlib.quoteChar ∧ Undirected (!inQuotes) rest ∨ Passive inQuotes c ∧ Undirected inQuotes rest ∨
      inQuotes = false ∧ isspace c = true ∧ Undirected false rest := by
  rw [Undirected] at undirected
  rcases ScanAgreement.kinds nonzero inQuotes with quote | passive | ⟨rfl, active⟩
  · rw [if_pos quote] at undirected
    exact .inl ⟨quote, undirected⟩
  · rw [if_neg passive.2.1] at undirected
    exact .inr (.inl ⟨passive, undirected.2⟩)
  · have other : c ≠ Dshlib.quoteChar := by
      rcases active with space | operator
      · exact (space_active space).2
      · rcases operator with rfl | rfl <;> decide
    rw [if_neg other] at undirected
    have plain := undirected.1 rfl
    exact .inr (.inr ⟨rfl, active.resolve_right (not_or.mpr plain), undirected.2⟩)

/-- How the two scanners remember the open word behind the text `done`: no word
is open, or one that has begun, or whose quote has. -/
inductive SameWord (done : List UInt8) (inQuotes : Bool) : Nat → Option Nat → Prop where
  | outside (closed : inQuotes = false) : SameWord done inQuotes done.length none
  | inside (front word : List UInt8) (split : done = front ++ word) (free : NulFree word)
      (opened : word ≠ [] ∨ inQuotes = true) : SameWord done inQuotes front.length (some front.length)

/-- A command whose vector ends behind its arguments. -/
def sealed (cmd : Dshlib.CmdBuff) (args : List Nat) (buffer : List UInt8) : Dshlib.CmdBuff :=
  { holding cmd args buffer with argv := (holding cmd args buffer).argv.set args.length none }

/-- Both commands end with the same arguments in the same text. -/
def Agree (cmd : Dshlib.CmdBuff) (other : PartTwo.CmdBuff) (left : Dshlib.CmdBuff) (right : PartTwo.CmdBuff) : Prop :=
  ∃ args text junk junk', left = sealed cmd args (text ++ 0 :: junk) ∧
    right = PartTwoScanner.sealed other args (text ++ 0 :: junk') ∧ ∀ p ∈ args, p ≤ text.length

section Scans
variable {cmd : Dshlib.CmdBuff} {other : PartTwo.CmdBuff} {heap : Dshlib.Heap} {args : List Nat}
  {done junk junk' : List UInt8} {start : Nat} {start' : Option Nat} {inQuotes : Bool}

/-- Once eight arguments are cut, the earlier scanner cuts a ninth or changes
nothing any more. -/
theorem full_run (wide : other.cells.length = PartTwo.cmdArgvMax + 1) (full : args.length = PartTwo.cmdMax)
    (text : List UInt8) (free : NulFree text) (opened : inQuotes = true → start' ≠ none) :
    (PartTwo.scanLoop.run (PartTwoScanner.scanning other args done (text ++ 0 :: junk) start' inQuotes)).finish.argc =
        PartTwo.cmdArgvMax ∨
      (PartTwo.scanLoop.run (PartTwoScanner.scanning other args done (text ++ 0 :: junk) start' inQuotes)).finish =
        PartTwoScanner.sealed other args (done ++ (text ++ 0 :: junk)) := by
  have room : args.length < PartTwo.cmdArgvMax := by
    rw [full]
    exact Nat.lt_succ_self _
  -- a ninth argument fills the vector, and the loop ends
  have ninth (p : Nat) (block rest : List UInt8) : (PartTwo.scanLoop.run
      (PartTwoScanner.scanning other (args ++ [p]) block rest none false)).finish.argc = PartTwo.cmdArgvMax := by
    have count : (args ++ [p]).length = PartTwo.cmdArgvMax := by
      rw [List.length_append, List.length_singleton, full]
      rfl
    rw [PartTwoScanner.run_full (Nat.le_of_eq count.symm), PartTwoScanner.finish_none]
    exact count
  induction text generalizing done start' inQuotes with
  | nil =>
    rw [List.nil_append, PartTwoScanner.run_terminator]
    cases start' with
    | none => exact .inr PartTwoScanner.finish_none
    | some p =>
      by_cases ended : (PartTwoScanner.holding other args (done ++ 0 :: junk)).byte p = 0
      · exact .inr (PartTwoScanner.finish_cut (.inl ended))
      · rw [PartTwoScanner.finish_open wide ended room]
        refine .inl ?_
        show (args ++ [p]).length = _
        rw [List.length_append, List.length_singleton, full]
        rfl
  | cons c rest ih =>
    obtain ⟨nonzero, restFree⟩ := nulFree_cons.mp free
    have passed (d : UInt8) : done ++ [d] ++ (rest ++ 0 :: junk) = done ++ (d :: rest ++ 0 :: junk) := by simp
    rw [List.cons_append]
    by_cases quote : c = PartTwo.quoteChar
    · subst quote
      cases inQuotes with
      | false =>
        rw [PartTwoScanner.turn_open room, ← List.cons_append, ← passed]
        exact ih restFree (by simp)
      | true =>
        obtain ⟨p, rfl⟩ := Option.ne_none_iff_exists'.mp (opened rfl)
        rw [PartTwoScanner.turn_close wide room]
        exact .inl (ninth p _ _)
    · by_cases gap : inQuotes = false ∧ isspace c = true
      · obtain ⟨rfl, space⟩ := gap
        cases start' with
        | none =>
          rw [PartTwoScanner.turn_gap space nonzero quote room, ← List.cons_append, ← passed]
          exact ih restFree (by simp)
        | some p =>
          rw [PartTwoScanner.turn_space space nonzero quote wide room]
          exact .inl (ninth p _ _)
      · have solid : inQuotes = false → isspace c = false := fun outside =>
          Bool.eq_false_iff.mpr fun space => gap ⟨outside, space⟩
        rw [PartTwoScanner.turn_word nonzero quote solid room, ← List.cons_append, ← passed]
        exact ih restFree (by simp)

/-- A full vector ends the later scan, and the earlier one if it finds nothing more. -/
theorem agree_full (wide' : other.cells.length = PartTwo.cmdArgvMax + 1) (full : args.length = Dshlib.cmdMax)
    (text : List UInt8) (free : NulFree text) (word : SameWord done inQuotes start start')
    (inside : ∀ p ∈ args, p ≤ done.length)
    (eight : (PartTwo.scanLoop.run
      (PartTwoScanner.scanning other args done (text ++ 0 :: junk') start' inQuotes)).finish.argc ≤ PartTwo.cmdMax) :
    Agree cmd other (Dshlib.scanLoop.run (scanning cmd args done (text ++ 0 :: junk) start inQuotes heap)).finish
      (PartTwo.scanLoop.run (PartTwoScanner.scanning other args done (text ++ 0 :: junk') start' inQuotes)).finish := by
  have opened : inQuotes = true → start' ≠ none := by
    rintro rfl
    cases word with
    | outside closed => cases closed
    | inside => simp
  have outcome : (PartTwo.scanLoop.run
      (PartTwoScanner.scanning other args done (text ++ 0 :: junk') start' inQuotes)).finish.argc = PartTwo.cmdArgvMax ∨
        _ := full_run wide' full text free opened
  rcases outcome with ninth | same
  · rw [ninth] at eight
    exact absurd eight (by decide)
  · rw [same, run_full (Nat.le_of_eq full.symm), LineGrammar.finish_cut (.inr (Nat.le_of_eq full.symm))]
    refine ⟨args, done ++ text, junk, junk', by simp [sealed], by simp, fun p member => ?_⟩
    have := inside p member
    rw [List.length_append]
    omega

/-- What is cut at the end of the text when room is left. -/
theorem agree_end (wide : cmd.argv.length = Dshlib.cmdArgvMax) (wide' : other.cells.length = PartTwo.cmdArgvMax + 1)
    (word : SameWord done inQuotes start start') (room : args.length < Dshlib.cmdMax)
    (inside : ∀ p ∈ args, p ≤ done.length) :
    Agree cmd other (scanning cmd args done (0 :: junk) start inQuotes heap).finish
      (PartTwoScanner.scanning other args done (0 :: junk') start' inQuotes).finish := by
  have room' : args.length < PartTwo.cmdArgvMax := Nat.lt_succ_of_lt room
  cases word with
  | outside closed =>
    rw [LineGrammar.finish_cut (.inl (Nat.le_refl _)), PartTwoScanner.finish_none]
    exact ⟨args, done, junk, junk', rfl, rfl, inside⟩
  | inside front word split free opened =>
    subst split
    cases word with
    | nil =>
      have ended : (PartTwoScanner.holding other args (front ++ [] ++ 0 :: junk')).byte front.length = 0 := by
        rw [List.append_nil]
        exact PartTwoScanner.byte_ahead
      rw [LineGrammar.finish_cut (.inl (by simp)), PartTwoScanner.finish_cut (.inl ended)]
      exact ⟨args, front ++ [], junk, junk', rfl, rfl, inside⟩
    | cons c more =>
      have before : front.length < (front ++ c :: more).length := by simp
      have nonzero : c ≠ 0 := free c (by simp)
      have here : (holding cmd args (front ++ c :: more ++ 0 :: junk)).byte front.length ≠ 0 := by
        rw [List.append_assoc, List.cons_append, byte_ahead]
        exact nonzero
      have here' : (PartTwoScanner.holding other args (front ++ c :: more ++ 0 :: junk')).byte front.length ≠ 0 := by
        rw [List.append_assoc, List.cons_append, PartTwoScanner.byte_ahead]
        exact nonzero
      rw [LineGrammar.finish_open wide before here room, PartTwoScanner.finish_open wide' here' room']
      refine ⟨args ++ [front.length], front ++ c :: more, junk, junk', rfl, rfl, ?_⟩
      intro p member
      rcases List.mem_append.mp member with earlier | last
      · exact inside p earlier
      · rw [List.mem_singleton.mp last]
        exact Nat.le_of_lt before

/-- The states of both scanners, as far as they have to agree. -/
structure Alike (args : List Nat) (done : List UInt8) (start : Nat) (start' : Option Nat) (inQuotes : Bool) : Prop where
  word : SameWord done inQuotes start start'
  few : args.length ≤ Dshlib.cmdMax
  inside : ∀ p ∈ args, p ≤ done.length

/-- A character passed by both. -/
theorem Alike.pass (alike : Alike args done start start' inQuotes) (c : UInt8) {inQuotes' : Bool}
    (word : SameWord (done ++ [c]) inQuotes' next next') : Alike args (done ++ [c]) next next' inQuotes' := by
  refine ⟨word, alike.few, fun p member => ?_⟩
  have := alike.inside p member
  rw [List.length_append]
  omega

/-- An argument cut by both. -/
theorem Alike.cut {front word : List UInt8}
    (alike : Alike args (front ++ word) front.length (some front.length) inQuotes)
    (room : args.length < Dshlib.cmdMax) :
    Alike (args ++ [front.length]) (front ++ word ++ [0]) ((front ++ word).length + 1) none false := by
  have behind : (front ++ word).length + 1 = (front ++ word ++ [(0 : UInt8)]).length :=
    (@List.length_append _ (front ++ word) [0]).symm
  refine ⟨behind ▸ .outside rfl, by simpa [Nat.succ_le_iff] using room, fun p member => ?_⟩
  rcases List.mem_append.mp member with earlier | last
  · have := alike.inside p earlier
    omega
  · rw [List.mem_singleton.mp last]
    simp

/-- A turn of both scanners at the same character. -/
theorem alike_turn (heap : Dshlib.Heap) (wide : cmd.argv.length = Dshlib.cmdArgvMax)
    (wide' : other.cells.length = PartTwo.cmdArgvMax + 1) (nonzero : c ≠ 0)
    (undirected : Undirected inQuotes (c :: ahead)) (alike : Alike args done start start' inQuotes)
    (room : args.length < Dshlib.cmdMax) (rest rest' : List UInt8) :
    ∃ args' done' next next' inQuotes', Alike args' done' next next' inQuotes' ∧ Undirected inQuotes' ahead ∧
      Dshlib.scanLoop.run (scanning cmd args done (c :: rest) start inQuotes heap) =
        Dshlib.scanLoop.run (scanning cmd args' done' rest next inQuotes' heap) ∧
      PartTwo.scanLoop.run (PartTwoScanner.scanning other args done (c :: rest') start' inQuotes) =
        PartTwo.scanLoop.run (PartTwoScanner.scanning other args' done' rest' next' inQuotes') := by
  have room' : args.length < PartTwo.cmdArgvMax := Nat.lt_succ_of_lt room
  rcases undirected_kinds nonzero undirected with ⟨rfl, undirected⟩ | ⟨passive, undirected⟩ | ⟨rfl, space, undirected⟩
  · cases inQuotes with
    | false =>
      refine ⟨args, done ++ [Dshlib.quoteChar], done.length + 1, some (done.length + 1), true, alike.pass _ ?_,
        undirected, turn_open room, PartTwoScanner.turn_open room'⟩
      simpa using SameWord.inside (done ++ [Dshlib.quoteChar]) [] (by simp) (by simp) (.inr rfl)
    | true =>
      obtain ⟨word, few, inside⟩ := alike
      cases word with
      | outside closed => cases closed
      | inside front word split free opened =>
        subst split
        exact ⟨_, _, _, _, _, Alike.cut ⟨.inside front word rfl free opened, few, inside⟩ room, undirected,
          turn_close wide room, PartTwoScanner.turn_close wide' room' _⟩
  · obtain ⟨-, other, solid⟩ := id passive
    refine ⟨args, done ++ [c], start, some (start'.getD done.length), inQuotes, alike.pass c ?_, undirected,
      turn_passive passive room,
      PartTwoScanner.turn_word nonzero other (fun outside => (solid outside).1) room'⟩
    cases alike.word with
    | outside closed => exact .inside done [c] rfl (by simpa using nonzero) (.inl (by simp))
    | inside front word split free opened =>
      exact .inside front (word ++ [c]) (by simp [split]) (by simp [free, nonzero]) (.inl (by simp))
  · have other := (space_active space).2
    obtain ⟨word, few, inside⟩ := alike
    cases word with
    | outside closed =>
      refine ⟨args, done ++ [c], done.length + 1, none, false, Alike.pass ⟨.outside closed, few, inside⟩ c ?_,
        undirected, turn_gap space room, PartTwoScanner.turn_gap space nonzero other room'⟩
      have passed : SameWord (done ++ [c]) false (done ++ [c]).length none := .outside rfl
      simpa using passed
    | inside front word split free opened =>
      subst split
      have moved : front.length ≠ (front ++ word).length := by
        have := List.length_pos_iff.mpr (opened.resolve_right Bool.false_ne_true)
        rw [List.length_append]
        omega
      exact ⟨_, _, _, _, _, Alike.cut ⟨.inside front word rfl free opened, few, inside⟩ room, undirected,
        turn_space space moved wide room, PartTwoScanner.turn_space space nonzero other wide' room' _⟩

/-- From states that agree on the open word, both scanners end with the same
arguments, unless the earlier one finds a ninth. -/
theorem alike_run (wide : cmd.argv.length = Dshlib.cmdArgvMax) (wide' : other.cells.length = PartTwo.cmdArgvMax + 1)
    (text : List UInt8) (free : NulFree text) (undirected : Undirected inQuotes text)
    (alike : Alike args done start start' inQuotes)
    (eight : (PartTwo.scanLoop.run
      (PartTwoScanner.scanning other args done (text ++ 0 :: junk') start' inQuotes)).finish.argc ≤ PartTwo.cmdMax) :
    Agree cmd other (Dshlib.scanLoop.run (scanning cmd args done (text ++ 0 :: junk) start inQuotes heap)).finish
      (PartTwo.scanLoop.run (PartTwoScanner.scanning other args done (text ++ 0 :: junk') start' inQuotes)).finish := by
  induction text generalizing done args start start' inQuotes with
  | nil =>
    rcases Nat.lt_or_eq_of_le alike.few with room | full
    · rw [List.nil_append, List.nil_append, run_terminator, PartTwoScanner.run_terminator]
      exact agree_end wide wide' alike.word room alike.inside
    · exact agree_full wide' full [] free alike.word alike.inside eight
  | cons c text ih =>
    obtain ⟨nonzero, textFree⟩ := nulFree_cons.mp free
    rcases Nat.lt_or_eq_of_le alike.few with room | full
    · obtain ⟨args', done', next, next', inQuotes', alike', undirected', left, right⟩ :=
        alike_turn heap wide wide' nonzero undirected alike room (text ++ 0 :: junk) (text ++ 0 :: junk')
      rw [List.cons_append, right] at eight
      rw [List.cons_append, List.cons_append, left, right]
      exact ih textFree undirected' alike' eight
    · exact agree_full wide' full (c :: text) free alike.word alike.inside eight

end Scans

/-! ### Both parsers on one line -/

/-- The vector of a sealed command, up to the NULL behind its arguments. -/
theorem getD_ended {args : List Nat} {i : Nat} (behind : List (Option Nat)) (upTo : i ≤ args.length) :
    ((args.map some ++ behind).set args.length none).getD i none = args[i]? := by
  rcases Nat.lt_or_eq_of_le upTo with before | rfl
  · rw [List.getD_eq_getElem?_getD, List.getElem?_set_ne (Nat.ne_of_gt before),
      List.getElem?_append_left (by simpa using before), List.getElem?_map]
    simp [before]
  · rw [List.getD_eq_getElem?_getD, List.getElem?_set_self', List.getElem?_eq_none (Nat.le_refl args.length)]
    cases (args.map some ++ behind)[args.length]? <;> rfl

/-- What lies behind the terminator is not part of any argument. -/
theorem cString_inside {text junk junk' : List UInt8} {p : Nat} (inside : p ≤ text.length) :
    cString ((text ++ 0 :: junk).drop p) = cString ((text ++ 0 :: junk').drop p) := by
  rw [List.drop_append_of_le_length inside, List.drop_append_of_le_length inside, cString, cString,
    List.takeWhile_append, List.takeWhile_append]
  simp

theorem Agree.argc {left : Dshlib.CmdBuff} {right : PartTwo.CmdBuff} (agree : Agree cmd other left right) :
    left.argc = right.argc := by
  obtain ⟨args, text, junk, junk', rfl, rfl, -⟩ := agree
  rfl

theorem Agree.arg {left : Dshlib.CmdBuff} {right : PartTwo.CmdBuff} (agree : Agree cmd other left right)
    (upTo : i ≤ right.argc) : left.arg i = right.arg i := by
  obtain ⟨args, text, junk, junk', rfl, rfl, inside⟩ := agree
  have pointer : (sealed cmd args (text ++ 0 :: junk)).argv.getD i none = args[i]? := getD_ended _ upTo
  have pointer' : (PartTwoScanner.sealed other args (text ++ 0 :: junk')).cells.getD i none = args[i]? :=
    getD_ended _ upTo
  rw [Dshlib.CmdBuff.arg, PartTwo.CmdBuff.arg, pointer, pointer']
  cases found : args[i]? with
  | none => rfl
  | some p => exact congrArg some (cString_inside (inside p (List.mem_of_getElem? found)))

theorem undirected_dropWhile {text : List UInt8} (undirected : Undirected false text) :
    Undirected false (text.dropWhile isspace) := by
  refine (skip_spaces (fun c rest space => ?_) text).mpr undirected
  have plain : c ≠ Dshlib.lessChar ∧ c ≠ Dshlib.greaterChar := by
    constructor <;> rintro rfl <;> exact absurd space (by decide)
  simp [Undirected, space_active space, plain]

/-- On a line that fits and has no redirection outside quotes, the two parsers
return the same code. When the earlier one finds at most eight arguments the
later one finds the same, followed by the same NULL. -/
theorem conservative_extension {line : List UInt8} (short : (cString line).length < Dshlib.shCmdMax)
    (undirected : Undirected false (cString line)) {cmd : Dshlib.CmdBuff} (ready : LocalLoop.Ready cmd)
    {other : PartTwo.CmdBuff} (ready' : PartTwoScanner.Ready other) (heap : Dshlib.Heap) :
    ∃ rc built built' heap', PartTwo.buildCmdBuff line other = some (rc, built') ∧
      Dshlib.buildCmdBuff line cmd heap = some (rc, built, heap') ∧
      (rc = PartTwo.ok → built'.argc ≤ PartTwo.cmdMax →
        built.argc = built'.argc ∧ ∀ i ≤ built'.argc, built.arg i = built'.arg i) := by
  cases blank : CopyBounds.copied line with
  | nil =>
    refine ⟨PartTwo.warnNoCmds, cmd, other, heap, ?_, CopyBounds.buildCmdBuff_blank blank cmd heap, ?_⟩
    · rw [PartTwo.buildCmdBuff]
      exact if_pos blank
    · intro returned
      exact absurd returned (by decide)
  | cons c rest =>
    have nonblank : c :: rest ≠ [] := by simp
    have fits : (c :: rest).length < Dshlib.shCmdMax := by
      rw [← blank]
      exact Nat.lt_of_le_of_lt (List.dropWhile_sublist isspace).length_le short
    refine ⟨_, _, _, _, PartTwoScanner.buildCmdBuff_scans ready' blank nonblank fits,
      buildCmdBuff_scans blank nonblank (ready.size.symm ▸ fits) heap, ?_⟩
    intro _ eight
    have alike : Alike [] [] 0 none false := ⟨.outside rfl, by simp, by simp⟩
    have agree : Agree cmd other (Dshlib.scanLoop.run (scanning cmd [] []
        (c :: rest ++ 0 :: cmd.buffer.drop ((c :: rest).length + 1)) 0 false heap)).finish _ :=
      alike_run ready.wide ready'.wide (c :: rest) (blank ▸ LocalLoop.copied_nulFree line)
        (blank ▸ undirected_dropWhile undirected) alike eight
    exact ⟨agree.argc, fun i upTo => agree.arg upTo⟩

/-- The earlier command as it was allocated. -/
def allocated : PartTwo.CmdBuff := (PartTwo.allocCmdBuff true ⟨0, [], []⟩).2

theorem ready_allocated : PartTwoScanner.Ready allocated := ⟨rfl, rfl, List.length_replicate⟩

/-- A quote that opens inside a word and is never closed, with a greater-than
character behind it. -/
theorem unclosed_quote_parsed_alike : ∃ rc built built' heap',
    PartTwo.buildCmdBuff (text " ls \"\" a\"b c>") allocated = some (rc, built') ∧
      Dshlib.buildCmdBuff (text " ls \"\" a\"b c>") LocalLoop.prompt.cmd LocalLoop.prompt.heap =
        some (rc, built, heap') ∧
      (rc = PartTwo.ok → built'.argc ≤ PartTwo.cmdMax →
        built.argc = built'.argc ∧ ∀ i ≤ built'.argc, built.arg i = built'.arg i) :=
  conservative_extension (by decide) (by decide) ⟨List.length_replicate, rfl⟩ ready_allocated _

end SysProg.ParserExtension
