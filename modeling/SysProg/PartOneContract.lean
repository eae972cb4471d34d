import SysProg.PartOneTokens

/-! What the first part promises about a line. The tokens of a command come
out right unless a lone token is followed by blanks that reach into `args`; the
commands are counted right unless a blank segment is stored like a command. -/
namespace SysProg.PartOneContract
open CString Tokens PartOne PartOneTokens

def newline : UInt8 := 10

def spaceOrTab (c : UInt8) : Bool := c == 32 || c == 9

/-- The space- or tab-separated tokens of a segment, leading whitespace removed. -/
def lineTokens (segment : List UInt8) : List (List UInt8) := tokens spaceOrTab (trimmed segment)

/-! ### Tokens -/

/-- An accepted line yields the tokens of each of its commands, and names that
are too long are what makes it refuse a line as too big. -/
structure YieldsTokens (line : List UInt8) : Prop where
  accepted : ∀ clist built, buildCmdList (some line) clist = some (ok, built) →
    ∀ (i : Nat) segment cmd, (segments line)[i]? = some segment → built[i]? = some cmd →
      ∀ name others, lineTokens segment = name :: others →
        cmd.exe = name ∧ cmd.args = [spaceChar].intercalate others
  tooBig : (segments line).length ≤ cmdMax → ∀ clist,
    ((∃ built, buildCmdList (some line) clist = some (errCmdOrArgsTooBig, built)) ↔
      ∃ segment ∈ segments line, ∃ name ∈ (lineTokens segment).head?, exeMax ≤ name.length)

/-- The line is accepted, and one of its segments is a lone token and longer
than `exe`. -/
def Spills (line : List UInt8) : Prop :=
  (segments line).length ≤ cmdMax ∧
    (¬ ∃ segment ∈ segments line, ∃ name ∈ (lineTokens segment).head?, exeMax ≤ name.length) ∧
    ∃ segment ∈ segments line, (lineTokens segment).length = 1 ∧ exeMax < (trimmed segment).length

/-- Lists related in order are related at each place. -/
theorem image_at {R : α → β → Prop} {left : List α} {right : List β} (each : List.Forall₂ R left right) {i : Nat}
    (here : left[i]? = some a) : ∃ b, right[i]? = some b ∧ R a b := by
  induction each generalizing i with
  | nil => cases here
  | cons related _ ih =>
    cases i with
    | zero =>
      cases here
      exact ⟨_, rfl, related⟩
    | succ i => exact ih here

/-- On a line without newline the third delimiter makes no difference. -/
theorem words_eq_lineTokens {line segment : List UInt8} (oneLine : newline ∉ cString line)
    (member : segment ∈ segments line) : words segment = lineTokens segment := by
  apply tokens_congr
  intro c inside
  have inLine := (sublist_of_mem_tokens member).mem ((List.dropWhile_sublist isspace).mem inside)
  have other : (c == 10) = false := by
    rw [beq_eq_false_iff_ne]
    rintro rfl
    exact oneLine inLine
  rw [delimiter, spaceOrTab, other, Bool.or_false]

/-- A lone token longer than `exe` leaves something in `args`. -/
theorem args_of_spill {segment : List UInt8} {cmd : Command} (parsed : Parsed segment cmd)
    (single : words segment = [name]) (long : exeMax < (trimmed segment).length) : cmd.args ≠ [] := by
  simp only [Parsed, single, if_true] at parsed
  rw [parsed.2]
  intro empty
  have size := congrArg List.length empty
  rw [List.length_drop, List.length_nil] at size
  omega

theorem longName_iff {line : List UInt8} (oneLine : newline ∉ cString line) :
    (∃ segment ∈ segments line, LongName segment) ↔
      ∃ segment ∈ segments line, ∃ name ∈ (lineTokens segment).head?, exeMax ≤ name.length := by
  apply exists_congr
  intro segment
  apply and_congr_right
  intro member
  rw [LongName, words_eq_lineTokens oneLine member]

/-- The first part yields the tokens of a line unless a lone token spills. -/
theorem yields_tokens_iff (line : List UInt8) (short : (cString line).length < argMax)
    (oneLine : newline ∉ cString line) : YieldsTokens line ↔ ¬ Spills line := by
  constructor
  · rintro yields ⟨room, names, segment, member, single, long⟩
    obtain ⟨rc, built, returns, outcome⟩ := buildCmdList_cases line [] short
    have some : segments line ≠ [] := List.ne_nil_of_mem member
    rw [if_neg (not_lt.mpr room), if_neg (fun more => names ((longName_iff oneLine).mp more)), if_neg some] at outcome
    obtain ⟨rfl, each⟩ := outcome
    obtain ⟨name, lone⟩ := List.length_eq_one_iff.mp single
    obtain ⟨i, here⟩ := List.mem_iff_getElem?.mp member
    obtain ⟨cmd, there, parsed⟩ := image_at each here
    have exact := (yields.accepted [] built returns i segment cmd here there name [] lone).2
    exact args_of_spill parsed ((words_eq_lineTokens oneLine member).trans lone) long exact
  · intro fits
    constructor
    · intro clist built returns i segment cmd here there name others split
      obtain ⟨room, names, each⟩ := accepted_parsed short returns
      have member := List.mem_of_getElem? here
      have parsed : Parsed segment cmd := by
        obtain ⟨cmd', there', parsed⟩ := image_at each here
        cases there.symm.trans there'
        exact parsed
      simp only [Parsed, (words_eq_lineTokens oneLine member).trans split] at parsed
      refine ⟨parsed.1, ?_⟩
      rw [parsed.2]
      cases others with
      | cons piece rest => rfl
      | nil =>
        -- a lone token: what is left in `args` is what the copy has spilled
        rw [if_pos rfl, List.intercalate_nil, List.drop_eq_nil_iff]
        by_contra long
        exact fits ⟨room, fun more => names ((longName_iff oneLine).mpr more), segment, member, by rw [split]; rfl,
          not_le.mp long⟩
    · intro room clist
      rw [← longName_iff oneLine]
      exact refused_long_iff short room clist

/-- The line of the shell's own test. -/
theorem three_commands_yield : YieldsTokens (text "cmd1 a1 a2 a3 | cmd2 a4 a5 a6 | cmd3 a7 a8 a9") :=
  (yields_tokens_iff _ (by decide +kernel) (by decide +kernel)).mpr (by
    rintro ⟨_, _, segment, member, _, long⟩
    have short : ∀ segment ∈ segments (text "cmd1 a1 a2 a3 | cmd2 a4 a5 a6 | cmd3 a7 a8 a9"),
        (trimmed segment).length ≤ exeMax := by decide +kernel
    exact absurd long (not_lt.mpr (short segment member)))

def paddedName : List UInt8 := text "ls" ++ List.replicate 70 32

/-- A name and seventy blanks: eight of the blanks come out as its arguments. -/
theorem padded_name_spills : ¬ YieldsTokens paddedName := by
  intro yields
  have answered : buildCmdList (some paddedName) [] =
      some (ok, [⟨(stored paddedName).memory.set 2 0⟩]) := by decide +kernel
  have exact := yields.accepted [] _ answered 0 paddedName _ (by decide +kernel) rfl (text "ls") [] (by decide +kernel)
  exact absurd exact.2 (by decide +kernel)

/-! ### Counting -/

/-- A segment with a character that is not whitespace. -/
def nonBlank (segment : List UInt8) : Bool := segment.any fun c => !isspace c

/-- The number of commands in a line. -/
def commandCount (line : List UInt8) : Nat := ((cString line).splitOn pipeChar).countP nonBlank

/-- The line is counted right, and every entry left in the list has a name. -/
structure CountsCommands (line : List UInt8) (clist : List Command) (rc : Int) (built : List Command) : Prop where
  returns : buildCmdList (some line) clist = some (rc, built)
  noCommands : rc = warnNoCmds ↔ commandCount line = 0
  tooMany : rc = errTooManyCommands ↔ cmdMax < commandCount line
  counted : commandCount line ≠ 0 → commandCount line ≤ cmdMax → rc = ok ∧ built.length = commandCount line
  named : ∀ cmd ∈ built, cmd.exe ≠ []

/-- No segment that is stored is blank, and if one behind them is, the line has
too many commands anyway. -/
def StoresNoBlank (line : List UInt8) : Prop :=
  (∀ segment ∈ segments line, nonBlank segment = true) ∨
    cmdMax < commandCount line ∧ ∀ segment ∈ (segments line).take cmdMax, nonBlank segment = true

instance (line : List UInt8) : Decidable (StoresNoBlank line) := by
  unfold StoresNoBlank; infer_instance

theorem trimmed_eq_nil_iff (segment : List UInt8) : trimmed segment = [] ↔ nonBlank segment = false := by
  rw [trimmed, List.dropWhile_eq_nil_iff, nonBlank]
  simp

theorem commandCount_eq (line : List UInt8) : commandCount line = (segments line).countP nonBlank := by
  rw [commandCount, segments, tokens, List.splitOn_eq_splitOnP, List.countP_filter]
  apply List.countP_congr
  intro segment _
  cases segment <;> simp [nonBlank]

/-- An accepted command has a name exactly when its segment is not blank. -/
theorem exe_parsed {segment : List UInt8} {cmd : Command} (parsed : Parsed segment cmd) :
    cmd.exe ≠ [] ↔ nonBlank segment = true := by
  have blank := trimmed_eq_nil_iff segment
  cases found : words segment with
  | nil =>
    simp only [Parsed, found] at parsed
    simp [parsed.2, blank.mp parsed.1]
  | cons name others =>
    have nonempty : name ≠ [] := ne_nil_of_mem_tokens (found ▸ List.mem_cons_self)
    have some : trimmed segment ≠ [] := by
      intro empty
      rw [words, empty, tokens_nil] at found
      cases found
    simp only [Parsed, found] at parsed
    rw [parsed.1, ← Bool.not_eq_false, ← not_congr blank]
    exact iff_of_true nonempty some

theorem all_nonBlank_iff (line : List UInt8) :
    (∀ segment ∈ segments line, nonBlank segment = true) ↔ commandCount line = (segments line).length := by
  rw [commandCount_eq, List.countP_eq_length]

/-- Counting on a line with more segments than the list has room for: its first
eight are left there as they were copied. -/
theorem counts_refused_iff {line : List UInt8} (short : (cString line).length < argMax)
    (many : cmdMax < (segments line).length)
    (returns : buildCmdList (some line) clist = some (errTooManyCommands,
      ((segments line).take cmdMax).map fun segment => stored (trimmed segment))) :
    (∃ rc built, CountsCommands line clist rc built) ↔ StoresNoBlank line := by
  have exe : ∀ segment ∈ segments line, ((stored (trimmed segment)).exe ≠ [] ↔ nonBlank segment = true) := by
    intro segment member
    rw [exe_stored (nulFree_trimmed (readable_segment short member).free), ← Bool.not_eq_false,
      ← not_congr (trimmed_eq_nil_iff segment)]
  constructor
  · rintro ⟨rc, built, counts⟩
    cases returns.symm.trans counts.returns
    refine .inr ⟨counts.tooMany.mp rfl, ?_⟩
    intro segment member
    exact (exe segment (List.mem_of_mem_take member)).mp (counts.named _ (List.mem_map_of_mem member))
  · intro stores
    have more : cmdMax < commandCount line := by
      rcases stores with every | ⟨more, _⟩
      · rwa [(all_nonBlank_iff line).mp every]
      · exact more
    have first : ∀ segment ∈ (segments line).take cmdMax, nonBlank segment = true := by
      rcases stores with every | ⟨_, first⟩
      · exact fun segment member => every segment (List.mem_of_mem_take member)
      · exact first
    refine ⟨_, _, returns, ?_, iff_of_true rfl more, fun _ room => absurd more (not_lt.mpr room), ?_⟩
    · exact iff_of_false (by decide) (by omega)
    · rintro cmd member
      obtain ⟨segment, taken, rfl⟩ := List.mem_map.mp member
      exact (exe segment (List.mem_of_mem_take taken)).mpr (first segment taken)

/-- Counting on a line whose segments were parsed one by one. -/
theorem counts_parsed_iff {line : List UInt8} (room : (segments line).length ≤ cmdMax)
    (returns : buildCmdList (some line) clist = some (if segments line = [] then warnNoCmds else ok, built))
    (each : List.Forall₂ Parsed (segments line) built) :
    (∃ rc built, CountsCommands line clist rc built) ↔ StoresNoBlank line := by
  have bound := List.countP_le_length (p := nonBlank) (l := segments line)
  rw [← commandCount_eq] at bound
  have few : ¬ cmdMax < commandCount line := by omega
  constructor
  · rintro ⟨rc, built, counts⟩
    cases returns.symm.trans counts.returns
    refine .inl fun segment member => ?_
    obtain ⟨i, here⟩ := List.mem_iff_getElem?.mp member
    obtain ⟨cmd, there, parsed⟩ := image_at each here
    exact (exe_parsed parsed).mp (counts.named cmd (List.mem_of_getElem? there))
  · intro stores
    have every := stores.resolve_right fun more => few more.1
    have count := (all_nonBlank_iff line).mp every
    refine ⟨_, _, returns, ?_, ?_, ?_, ?_⟩
    · rw [count, List.length_eq_zero_iff]
      split
      · rename_i none
        exact iff_of_true rfl none
      · rename_i some
        exact iff_of_false (by decide) some
    · refine iff_of_false ?_ few
      split <;> decide
    · intro some _
      rw [count, ne_eq, List.length_eq_zero_iff] at some
      exact ⟨if_neg some, by rw [← each.length_eq, count]⟩
    · intro cmd member
      obtain ⟨i, there⟩ := List.mem_iff_getElem?.mp member
      obtain ⟨segment, here, parsed⟩ := image_at each.flip there
      exact (exe_parsed parsed).mpr (every segment (List.mem_of_getElem? here))

/-- A line without overlong tokens is counted right exactly when no blank
segment is stored. -/
theorem counts_commands_iff (line : List UInt8) (clist : List Command) (short : (cString line).length < argMax)
    (tokensFit : ∀ segment ∈ segments line, ∀ token ∈ words segment, token.length < exeMax) :
    (∃ rc built, CountsCommands line clist rc built) ↔ StoresNoBlank line := by
  obtain ⟨rc, built, returns, outcome⟩ := buildCmdList_cases line clist short
  have names : ¬ ∃ segment ∈ segments line, LongName segment := by
    rintro ⟨segment, member, name, first, long⟩
    exact absurd long (not_le.mpr (tokensFit segment member name (List.mem_of_mem_head? first)))
  split at outcome
  · rename_i many
    obtain ⟨rfl, rfl⟩ := outcome
    exact counts_refused_iff short many returns
  · rename_i room
    obtain ⟨rfl, each⟩ := outcome
    exact counts_parsed_iff (not_lt.mp room) returns each

theorem four_commands_counted :
    ∃ rc built, CountsCommands (text "pipe1|pipe2|pipe3 |pipe4             ") [] rc built :=
  (counts_commands_iff _ [] (by decide +kernel) (by decide +kernel)).mpr (by decide +kernel)

/-- Two commands and a blank between the pipes are counted as three. -/
theorem blank_segment_counted : ¬ ∃ rc built, CountsCommands (text "a| |b") [] rc built := by
  rintro ⟨rc, built, counts⟩
  have returned : (buildCmdList (some (text "a| |b")) []).map (fun result => result.2.length) = some 3 := by
    decide +kernel
  rw [counts.returns, Option.map_some,
    (counts.counted (by decide +kernel) (by decide +kernel)).2] at returned
  exact absurd returned (by decide +kernel)

end SysProg.PartOneContract
