import SysProg.PartOneContract

/-! What `main` of the first part shows for a line, typed in again. The commands
of an accepted line are shown with their arguments one space apart; that text
is parsed into the same commands unless blanks that a lone name has spilled
into `args` move when it is typed again. -/
namespace SysProg.PartOneRoundTrip
open CString Tokens PartOne PartOneTokens PartOneContract

/-! ### What is shown -/

/-- What `main` shows of a command: `"%s [%s]"` without the brackets, or
`"%s"` for a command without arguments. -/
def shown (cmd : Command) : List UInt8 :=
  cmd.exe ++ if 0 < cmd.args.length then spaceChar :: cmd.args else []

/-- The commands that were shown, typed as a pipeline. -/
def retyped (clist : List Command) : List UInt8 := [pipeChar].intercalate (clist.map shown)

/-- A lone name has spilled blanks into `args` and does not fill `exe` to its
last byte. -/
def Shifts (segment : List UInt8) : Prop :=
  exeMax < (trimmed segment).length ∧ ∃ name, words segment = [name] ∧ name.length + 1 ≠ exeMax

section Segments
variable {segment name : List UInt8} {others : List (List UInt8)} {cmd : Command}

/-- What is shown of a command begins with its name. -/
theorem shown_text (parsed : Parsed segment cmd) (found : words segment = name :: others) :
    shown cmd = name ++ if others = [] then
        (if exeMax < (trimmed segment).length then spaceChar :: (trimmed segment).drop exeMax else [])
      else spaceChar :: [spaceChar].intercalate others := by
  simp only [Parsed, found] at parsed
  rw [shown, parsed.1, parsed.2]
  congr 1
  cases others with
  | nil => simp only [if_true, List.length_drop, Nat.sub_pos_iff_lt]
  | cons piece rest =>
    have member : piece ∈ tokens delimiter (trimmed segment) := by
      rw [← words, found]
      simp
    have nonempty := ne_nil_of_mem_tokens member
    simp [intercalate_pos nonempty rest]

/-- A trimmed segment is its first token and what stands behind that. -/
theorem trimmed_name (found : words segment = name :: others) :
    ∃ behind, trimmed segment = name ++ behind ∧ name ≠ [] ∧ (∀ c ∈ name, delimiter c = false) ∧
      (others = [] → ∀ c ∈ behind, delimiter c = true) := by
  cases shape_of_segment segment with
  | empty text none => rw [none] at found; cases found
  | name token text single nonempty passes =>
    cases single.symm.trans found
    exact ⟨[], by rw [text, List.append_nil], nonempty, passes, by simp⟩
  | spaced token c behind rest text found' nonempty passes separator cuts =>
    cases found'.symm.trans found
    refine ⟨c :: behind, text, nonempty, passes, ?_⟩
    rintro rfl
    cases cuts with
    | gap separators => exact List.forall_mem_cons.mpr ⟨separator, separators⟩

/-- What begins like a trimmed segment has no leading whitespace. -/
theorem trimmed_kept (found : words segment = name :: others) (rest : List UInt8) :
    trimmed (name ++ rest) = name ++ rest := by
  obtain ⟨behind, text, nonempty, -⟩ := trimmed_name found
  obtain ⟨c, name, rfl⟩ := List.exists_cons_of_ne_nil nonempty
  have head := List.head?_dropWhile_not isspace segment
  rw [← trimmed, text] at head
  exact List.dropWhile_cons_of_neg (by simpa using head)

theorem pieces_of_words (found : words segment = name :: others) :
    ∀ piece ∈ name :: others, piece ≠ [] ∧ ∀ c ∈ piece, delimiter c = false := fun _ member =>
  ⟨ne_nil_of_mem_tokens (found ▸ member), free_of_mem_tokens (found ▸ member)⟩

/-- The tokens of what is shown are those of the segment. -/
theorem words_shown (parsed : Parsed segment cmd) (found : words segment = name :: others)
    (fits : name.length < exeMax) : words (shown cmd) = name :: others := by
  have space : delimiter spaceChar = true := by decide
  have cut := pieces_of_words found
  rw [shown_text parsed found, words, trimmed_kept found]
  cases others with
  | nil =>
    obtain ⟨nonempty, free⟩ := cut name List.mem_cons_self
    obtain ⟨behind, text, -, -, blanks⟩ := trimmed_name found
    rw [if_pos rfl]
    split
    · have rest : ∀ c ∈ (trimmed segment).drop exeMax, delimiter c = true := by
        intro c member
        rw [text, List.drop_append, List.drop_eq_nil_of_le (Nat.le_of_lt fits), List.nil_append] at member
        exact blanks rfl c (List.mem_of_mem_drop member)
      have nothing := tokens_gap rest []
      rw [List.append_nil, tokens_nil] at nothing
      rw [tokens_cut nonempty free space, nothing]
    · rw [List.append_nil, tokens_single nonempty free]
  | cons second others =>
    have joined := tokens_intercalate space cut
    rw [List.intercalate_cons_cons, List.append_assoc, List.singleton_append] at joined
    simpa using joined

/-- It is no longer than the segment. -/
theorem length_shown_le (parsed : Parsed segment cmd) (found : words segment = name :: others)
    (fits : name.length < exeMax) : (shown cmd).length ≤ segment.length := by
  have whole := length_trimmed_le segment
  rw [shown_text parsed found]
  cases others with
  | nil =>
    obtain ⟨behind, text, -⟩ := trimmed_name found
    have size := congrArg List.length text
    simp only [if_true, List.length_append] at size ⊢
    split
    · simp only [List.length_cons, List.length_drop]
      omega
    · simp only [List.length_nil]
      omega
  | cons second others =>
    have need := room_tokens_le delimiter (trimmed segment)
    rw [← words, found, ← length_intercalate (c := spaceChar) (List.cons_ne_nil _ _), List.intercalate_cons_cons,
      List.append_assoc, List.singleton_append] at need
    simp only [List.cons_ne_nil, if_false]
    omega

theorem mem_shown {c : UInt8} (parsed : Parsed segment cmd) (found : words segment = name :: others)
    (inside : c ∈ shown cmd) : c = spaceChar ∨ c ∈ segment := by
  have part : ∀ piece ∈ name :: others, c ∈ piece → c ∈ segment := by
    intro piece member there
    have token : piece ∈ tokens delimiter (trimmed segment) := by
      rw [← words, found]
      exact member
    exact (List.dropWhile_sublist isspace).mem ((sublist_of_mem_tokens token).mem there)
  rw [shown_text parsed found, List.mem_append] at inside
  rcases inside with first | behind
  · exact .inr (part name List.mem_cons_self first)
  split at behind
  · split at behind
    · rcases List.mem_cons.mp behind with space | spilled
      · exact .inl space
      · exact .inr ((List.dropWhile_sublist isspace).mem (List.mem_of_mem_drop spilled))
    · cases behind
  · rcases List.mem_cons.mp behind with space | joined
    · exact .inl space
    · rcases mem_intercalate joined with space | ⟨piece, member, there⟩
      · exact .inl space
      · exact .inr (part piece (List.mem_cons_of_mem _ member) there)

/-- Parsed once more, a command that was shown is the same unless its blanks
have moved. -/
theorem shown_same_iff {again : Command} (parsed : Parsed segment cmd) (found : words segment = name :: others)
    (fits : name.length < exeMax) (reparsed : Parsed (shown cmd) again) :
    again.exe = cmd.exe ∧ again.args = cmd.args ↔ ¬ Shifts segment := by
  have text := shown_text parsed found
  have whole : trimmed (shown cmd) = shown cmd := by rw [text, trimmed_kept found]
  simp only [Parsed, words_shown parsed found fits, whole] at reparsed
  simp only [Parsed, found] at parsed
  rw [reparsed.1, reparsed.2, parsed.1, parsed.2, Shifts, found]
  cases others with
  | cons second others => simp
  | nil =>
    simp only [if_true] at text ⊢
    rw [text]
    by_cases long : exeMax < (trimmed segment).length
    · rw [if_pos long]
      by_cases fills : name.length + 1 = exeMax
      · have front : name ++ spaceChar :: (trimmed segment).drop exeMax =
            (name ++ [spaceChar]) ++ (trimmed segment).drop exeMax := by simp
        rw [front, List.drop_left' (by simpa using fills)]
        simp [fills]
      · refine iff_of_false (fun same => ?_) (not_not.mpr ⟨long, name, rfl, fills⟩)
        have size := congrArg List.length same.2
        simp only [List.length_drop, List.length_append, List.length_cons] at size
        omega
    · have short := List.drop_eq_nil_of_le (not_lt.mp long)
      have name := List.drop_eq_nil_of_le (Nat.le_of_lt fits)
      simp [long, short, name]

end Segments

/-! ### Lines -/

/-- A command as it is shown: its name and its arguments. -/
def view (cmd : Command) : List UInt8 × List UInt8 := (cmd.exe, cmd.args)

section Lines
variable {segs : List (List UInt8)} {built : List Command}

/-- Segments of commands that all have a name which fits. -/
def Named (segs : List (List UInt8)) : Prop :=
  ∀ segment ∈ segs, ∃ name others, words segment = name :: others ∧ name.length < exeMax

theorem views_same_iff {again : List Command} (named : Named segs) (each : List.Forall₂ Parsed segs built)
    (reparsed : List.Forall₂ Parsed (built.map shown) again) :
    again.map view = built.map view ↔ ∀ segment ∈ segs, ¬ Shifts segment := by
  induction each generalizing again with
  | nil =>
    cases reparsed
    simp
  | @cons segment cmd segs built parsed each ih =>
    cases reparsed with
    | @cons _ cmd' _ again here later =>
      obtain ⟨⟨name, others, found, fits⟩, rest⟩ := List.forall_mem_cons.mp named
      have same := shown_same_iff parsed found fits here
      rw [List.map_cons, List.map_cons, List.cons.injEq, ih rest later, List.forall_mem_cons, ← same, view, view,
        Prod.mk.injEq]

/-- What is shown of the commands are texts without pipes, together no longer
than the segments. -/
theorem shown_clean (named : Named segs) (each : List.Forall₂ Parsed segs built)
    (clean : ∀ segment ∈ segs, ∀ c ∈ segment, c ≠ pipeChar ∧ c ≠ 0) :
    (∀ text ∈ built.map shown, text ≠ [] ∧ ∀ c ∈ text, c ≠ pipeChar ∧ c ≠ 0) ∧
      (∀ text ∈ built.map shown, ¬ LongName text) ∧ room (built.map shown) ≤ room segs := by
  induction each with
  | nil => exact ⟨by simp, by simp, Nat.le_refl _⟩
  | @cons segment cmd segs built parsed each ih =>
    obtain ⟨⟨name, others, found, fits⟩, namedRest⟩ := List.forall_mem_cons.mp named
    obtain ⟨first, cleanRest⟩ := List.forall_mem_cons.mp clean
    obtain ⟨texts, names, size⟩ := ih namedRest cleanRest
    have nonempty : shown cmd ≠ [] := by
      obtain ⟨behind, -, some, -⟩ := trimmed_name found
      rw [shown_text parsed found]
      exact List.append_ne_nil_of_left_ne_nil some _
    have characters : ∀ c ∈ shown cmd, c ≠ pipeChar ∧ c ≠ 0 := by
      intro c inside
      rcases mem_shown parsed found inside with rfl | member
      · decide
      · exact first c member
    have fitting : ¬ LongName (shown cmd) := by
      rw [LongName, words_shown parsed found fits]
      simpa using fits
    have length := length_shown_le parsed found fits
    refine ⟨List.forall_mem_cons.mpr ⟨⟨nonempty, characters⟩, texts⟩, List.forall_mem_cons.mpr ⟨fitting, names⟩, ?_⟩
    simp only [room, List.map_cons, List.flatten_cons, List.length_append, List.length_cons] at size ⊢
    omega

/-- Typed again, they fall into one segment for each command. -/
theorem segments_retyped (clean : ∀ text ∈ built.map shown, text ≠ [] ∧ ∀ c ∈ text, c ≠ pipeChar ∧ c ≠ 0) :
    cString (retyped built) = retyped built ∧ segments (retyped built) = built.map shown := by
  have free : NulFree (retyped built) := by
    intro c inside
    rcases mem_intercalate inside with rfl | ⟨text, member, there⟩
    · decide
    · exact ((clean text member).2 c there).2
  have pieces : ∀ text ∈ built.map shown, text ≠ [] ∧ ∀ c ∈ text, (c == pipeChar) = false := fun text member =>
    ⟨(clean text member).1, fun c there => beq_eq_false_iff_ne.mpr ((clean text member).2 c there).1⟩
  refine ⟨cString_of_nulFree free, ?_⟩
  rw [segments, cString_of_nulFree free]
  exact tokens_intercalate (by decide) pieces

end Lines

/-- A line that the first part accepts, every command with a name, is shown so
that typing what was shown gives the same commands, unless the blanks of a lone
name have moved. -/
theorem retyped_same_iff {line : List UInt8} {clist built : List Command} (other : List Command)
    (short : (cString line).length < argMax) (accepted : buildCmdList (some line) clist = some (ok, built))
    (exe : ∀ cmd ∈ built, cmd.exe ≠ []) :
    (∃ again, buildCmdList (some (retyped built)) other = some (ok, again) ∧ again.map view = built.map view) ↔
      ∀ segment ∈ segments line, ¬ Shifts segment := by
  obtain ⟨few, fits, each⟩ := accepted_parsed short accepted
  have named : Named (segments line) := by
    intro segment member
    obtain ⟨i, here⟩ := List.mem_iff_getElem?.mp member
    obtain ⟨cmd, there, parsed⟩ := image_at each here
    cases found : words segment with
    | nil =>
      simp only [Parsed, found] at parsed
      exact absurd parsed.2 (exe cmd (List.mem_of_getElem? there))
    | cons name others =>
      refine ⟨name, others, rfl, not_le.mp fun long => fits ⟨segment, member, name, ?_, long⟩⟩
      rw [found]
      rfl
  have clean : ∀ segment ∈ segments line, ∀ c ∈ segment, c ≠ pipeChar ∧ c ≠ 0 := fun segment member c inside =>
    ⟨beq_eq_false_iff_ne.mp (free_of_mem_tokens member c inside), (readable_segment short member).free c inside⟩
  obtain ⟨texts, names, size⟩ := shown_clean named each clean
  obtain ⟨string, split⟩ := segments_retyped texts
  have some : built.map shown ≠ [] := by
    obtain ⟨rc, built', returns, outcome⟩ := buildCmdList_cases line clist short
    cases accepted.symm.trans returns
    rw [if_neg (not_lt.mpr few), if_neg fits] at outcome
    intro none
    obtain rfl := List.map_eq_nil_iff.mp none
    rw [if_pos (List.forall₂_nil_right_iff.mp each)] at outcome
    exact absurd outcome.1 (by decide)
  have shortAgain : (cString (retyped built)).length < argMax := by
    have need := length_intercalate (c := pipeChar) some
    have whole := room_tokens_le (· == pipeChar) (cString line)
    rw [← segments] at whole
    rw [string, retyped]
    omega
  obtain ⟨rc, again, returns, outcome⟩ := buildCmdList_cases (retyped built) other shortAgain
  have count : ¬ cmdMax < (built.map shown).length := by
    rw [List.length_map, ← each.length_eq]
    exact not_lt.mpr few
  have fitsAgain : ¬ ∃ segment ∈ built.map shown, LongName segment := by
    rintro ⟨text, member, long⟩
    exact names text member long
  rw [split, if_neg count, if_neg fitsAgain, if_neg some] at outcome
  obtain ⟨rfl, reparsed⟩ := outcome
  rw [← views_same_iff named each reparsed, returns]
  simp

/-- Arguments far apart are shown, and come back, one space apart. -/
theorem spaced_pipeline_comes_back : ∃ built : List Command,
    buildCmdList (some (text "ls   -l\t/tmp |wc -w  ")) [] = some (ok, built) ∧
      retyped built = text "ls -l /tmp|wc -w" ∧
      ∃ again, buildCmdList (some (retyped built)) [] = some (ok, again) ∧ again.map view = built.map view := by
  obtain ⟨⟨rc, built⟩, accepted, same⟩ := Option.map_eq_some_iff.mp
    (show (buildCmdList (some (text "ls   -l\t/tmp |wc -w  ")) []).map (fun result => (result.1, result.2.map view)) =
      some (ok, [(text "ls", text "-l /tmp"), (text "wc", text "-w")]) by decide +kernel)
  obtain ⟨rfl, views⟩ := Prod.mk.inj same
  have names : built.map Command.exe = [text "ls", text "wc"] := by
    simpa [view, Function.comp_def] using congrArg (List.map Prod.fst) views
  have exe : ∀ cmd ∈ built, cmd.exe ≠ [] := by
    intro cmd member empty
    have name := List.mem_map_of_mem (f := Command.exe) member
    rw [names, empty] at name
    exact absurd name (by decide)
  have texts : built.map shown = [text "ls -l /tmp", text "wc -w"] := by
    have each : built.map shown = (built.map view).map fun seen =>
        seen.1 ++ if 0 < seen.2.length then spaceChar :: seen.2 else [] := by
      rw [List.map_map]
      rfl
    rw [each, views]
    decide
  have still : ∀ segment ∈ segments (text "ls   -l\t/tmp |wc -w  "), ¬ Shifts segment := by
    intro segment member moved
    have small : ∀ segment ∈ segments (text "ls   -l\t/tmp |wc -w  "), (trimmed segment).length ≤ exeMax := by
      decide +kernel
    exact absurd moved.1 (not_lt.mpr (small segment member))
  refine ⟨built, accepted, ?_, (retyped_same_iff [] (by decide) accepted exe).mpr still⟩
  rw [retyped, texts]
  decide

end SysProg.PartOneRoundTrip
