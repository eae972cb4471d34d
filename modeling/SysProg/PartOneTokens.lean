import Mathlib.Data.List.Forall2
import SysProg.PartOne

/-! What the two passes of the first part make of a line. A command whose
segment has arguments gets exactly its tokens; one that is a single token
keeps in `args` whatever its segment spilled there. -/
namespace SysProg.PartOneTokens
open CString Tokens Strtok WhileLoop PartOne

/-- The tokens of a segment once its leading whitespace is gone. -/
def words (segment : List UInt8) : List (List UInt8) := tokens delimiter (trimmed segment)

/-! ### Copies into a command -/

/-- A command that a text was copied into. -/
def stored (text : List UInt8) : Command := ⟨text ++ 0 :: List.replicate (exeMax + argMax - (text.length + 1)) 0⟩

theorem strcpy_zeroed {text : List UInt8} (short : text.length < argMax) :
    zeroed.strcpy 0 text = some (stored text) := by
  have fits : text.length + 1 ≤ exeMax + argMax := by
    simp only [exeMax]
    omega
  simp only [Command.strcpy, zeroed, CString.strcpy, List.drop_replicate, List.length_replicate, Nat.sub_zero,
    if_pos fits, Option.map_some, List.take_zero, List.nil_append, stored]

theorem exe_stored {text : List UInt8} (free : NulFree text) : (stored text).exe = text := cString_terminated free

/-- What a segment longer than `exe` leaves in `args`. -/
theorem cString_drop_stored {text : List UInt8} (free : NulFree text) (zeros : Nat) :
    cString ((text ++ 0 :: List.replicate zeros 0).drop exeMax) = text.drop exeMax := by
  rcases Nat.le_total exeMax text.length with spills | fits
  · rw [List.drop_append_of_le_length spills]
    exact cString_terminated free.drop
  · have zero : text ++ 0 :: List.replicate zeros 0 = text ++ List.replicate (zeros + 1) 0 := rfl
    rw [List.drop_eq_nil_of_le fits, zero, List.drop_append, List.drop_eq_nil_of_le fits, List.nil_append,
      List.drop_replicate, cString]
    cases zeros + 1 - (exeMax - text.length) with
    | zero => rfl
    | succ n => rfl

/-- Copying a string over itself changes nothing. -/
theorem strcpy_self (token rest : List UInt8) :
    Command.strcpy ⟨token ++ 0 :: rest⟩ 0 token = some ⟨token ++ 0 :: rest⟩ := by
  have fits : token.length + 1 ≤ (token ++ 0 :: rest).length := by simp
  have behind : (token ++ 0 :: rest).drop (token.length + 1) = rest := by
    rw [← List.drop_drop, List.drop_left]
    rfl
  simp only [Command.strcpy, CString.strcpy, List.drop_zero, if_pos fits, behind, Option.map_some, List.take_zero,
    List.nil_append]

/-- Copying the arguments leaves the name alone that ends inside `exe`. -/
theorem strcpy_args {token rest args : List UInt8} (name : NulFree token) (free : NulFree args)
    (inside : token.length < exeMax) (room : exeMax + args.length < (token ++ 0 :: rest).length) :
    ∃ cmd, Command.strcpy ⟨token ++ 0 :: rest⟩ exeMax args = some cmd ∧ cmd.exe = token ∧ cmd.args = args := by
  have fits : args.length + 1 ≤ ((token ++ 0 :: rest).drop exeMax).length := by
    rw [List.length_drop]
    omega
  have field : ((token ++ 0 :: rest).take exeMax).length = exeMax := by
    rw [List.length_take]
    omega
  have front : (token ++ 0 :: rest).take exeMax = token ++ 0 :: rest.take (exeMax - token.length - 1) := by
    obtain ⟨behind, size⟩ : ∃ behind, exeMax - token.length = behind + 1 := ⟨exeMax - token.length - 1, by omega⟩
    rw [List.take_append, List.take_of_length_le (Nat.le_of_lt inside), size, List.take_succ_cons,
      Nat.add_sub_cancel]
  simp only [Command.strcpy, CString.strcpy, if_pos fits, Option.map_some]
  refine ⟨_, rfl, ?_, ?_⟩
  · rw [Command.exe, front, List.append_assoc]
    exact cString_terminated name
  · rw [Command.args]
    dsimp only
    rw [List.drop_left' field]
    exact cString_terminated free

/-! ### The loop over the arguments -/

theorem delimiter_nul : delimiter 0 = false := by decide

theorem length_appendArg (args token : List UInt8) :
    (appendArg args token).length ≤ args.length + token.length + 1 := by
  rw [appendArg]
  split
  · simp
    omega
  · simp

theorem appendArg_pos {token : List UInt8} (nonempty : token ≠ []) (args : List UInt8) :
    0 < (appendArg args token).length := by
  have := List.length_pos_iff.mpr nonempty
  rw [appendArg, List.length_append]
  omega

theorem nulFree_appendArg {args token : List UInt8} (free : NulFree args) (tokenFree : NulFree token) :
    NulFree (appendArg args token) := by
  rw [appendArg]
  split
  · exact nulFree_append.mpr ⟨nulFree_append.mpr ⟨free, by decide⟩, tokenFree⟩
  · exact nulFree_append.mpr ⟨free, tokenFree⟩

/-- Appending every argument joins them by single spaces. -/
theorem foldl_appendArg {pieces : List (List UInt8)} (nonempty : ∀ piece ∈ pieces, piece ≠ []) :
    pieces.foldl appendArg [] = [spaceChar].intercalate pieces := by
  have behind : ∀ (pieces : List (List UInt8)) (args : List UInt8), 0 < args.length →
      (∀ piece ∈ pieces, piece ≠ []) → pieces.foldl appendArg args = [spaceChar].intercalate (args :: pieces) := by
    intro pieces
    induction pieces with
    | nil => simp
    | cons piece rest ih =>
      intro args positive nonempty
      obtain ⟨first, others⟩ := List.forall_mem_cons.mp nonempty
      have joined := ih (appendArg args piece) (appendArg_pos first args) others
      rw [List.foldl_cons, joined, appendArg, if_pos positive]
      cases rest with
      | nil => simp
      | cons second rest => simp [List.intercalate_cons_cons]
  cases pieces with
  | nil => simp
  | cons piece rest =>
    obtain ⟨first, others⟩ := List.forall_mem_cons.mp nonempty
    have start : appendArg [] piece = piece := rfl
    rw [List.foldl_cons, start]
    exact behind rest piece (List.length_pos_iff.mpr first) others

theorem intercalate_pos {piece : List UInt8} (nonempty : piece ≠ []) (rest : List (List UInt8)) :
    0 < ([spaceChar].intercalate (piece :: rest)).length := by
  have positive := List.length_pos_iff.mpr nonempty
  cases rest with
  | nil => simpa using positive
  | cons second rest =>
    simp only [List.intercalate_cons_cons, List.length_append]
    omega

/-- One turn of the loop: the token behind the gap is appended, and the search
goes on behind it. -/
theorem gather_token {front gap token rest args : List UInt8} (separators : ∀ c ∈ gap, delimiter c = true)
    (nonempty : token ≠ []) (passes : ∀ c ∈ token, delimiter c = false) (free : NulFree token)
    (stops : delimiter c = true ∨ c = 0) (room : args.length + token.length + 2 < argMax) :
    gatherLoop.run ⟨strtok delimiter (front ++ (gap ++ (token ++ c :: rest))) front.length, args, false⟩ =
      gatherLoop.run ⟨strtok delimiter (front ++ (gap ++ (token ++ 0 :: rest)))
        (if c = 0 then (front ++ gap ++ token).length else (front ++ gap ++ token).length + 1),
        appendArg args token, false⟩ := by
  have here : (front ++ (gap ++ (token ++ 0 :: rest))).drop (front ++ gap).length = token ++ 0 :: rest := by
    rw [← List.append_assoc, List.drop_left]
  have read : cString ((front ++ (gap ++ (token ++ 0 :: rest))).drop (front ++ gap).length) = token := by
    rw [here]
    exact cString_terminated free
  rw [strtok_token separators nonempty passes free stops, run_turn gatherLoop rfl]
  simp only [gatherLoop, Gather.step, read, if_neg (not_le.mpr room)]

/-- From any place in the text on, the loop appends exactly the tokens that are
left and never refuses them; it edits nothing outside the text. -/
theorem gather_run {text : List UInt8} {pieces : List (List UInt8)} (cuts : Cuts delimiter text pieces)
    (free : NulFree text) (front rest args : List UInt8) (argsFree : NulFree args)
    (room : args.length + text.length + 2 < argMax) :
    ∃ save text', gatherLoop.run ⟨strtok delimiter (front ++ (text ++ 0 :: rest)) front.length, args, false⟩ =
        ⟨⟨none, save, front ++ (text' ++ 0 :: rest)⟩, pieces.foldl appendArg args, false⟩ ∧
      text'.length = text.length ∧ (pieces = [] → text' = text) ∧
      NulFree (pieces.foldl appendArg args) ∧
      (pieces.foldl appendArg args).length ≤ args.length + text.length + 1 := by
  induction cuts generalizing front args with
  | @gap gap separators =>
    rw [strtok_gap separators delimiter_nul]
    refine ⟨_, gap, run_done gatherLoop rfl, rfl, fun _ => rfl, argsFree, ?_⟩
    rw [List.foldl_nil]
    omega
  | @last gap token separators nonempty passes =>
    have tokenFree : NulFree token := (nulFree_append.mp free).2
    have short : args.length + token.length + 2 < argMax := by
      rw [List.length_append] at room
      omega
    have shape : front ++ (gap ++ token ++ 0 :: rest) = front ++ (gap ++ (token ++ 0 :: rest)) := by
      rw [List.append_assoc]
    have behind := strtok_end delimiter_nul (front ++ gap ++ token) rest
    have memory : front ++ gap ++ token ++ 0 :: rest = front ++ (gap ++ (token ++ 0 :: rest)) := by
      simp only [List.append_assoc]
    rw [memory] at behind
    rw [shape, gather_token separators nonempty passes tokenFree (.inr rfl) short, if_pos rfl, behind]
    refine ⟨(front ++ gap ++ token).length, gap ++ token, ?_, rfl, by simp,
      nulFree_appendArg argsFree tokenFree, ?_⟩
    · rw [run_done gatherLoop rfl, List.append_assoc gap]
      rfl
    · have := length_appendArg args token
      rw [List.length_append]
      simp only [List.foldl_cons, List.foldl_nil]
      omega
  | @next gap token c text pieces separators nonempty passes separator cuts ih =>
    have parts : NulFree token ∧ NulFree text := by
      simp only [nulFree_append, nulFree_cons] at free
      exact ⟨free.2.1, free.2.2.2⟩
    have notEnd : c ≠ 0 := by
      rintro rfl
      rw [delimiter_nul] at separator
      cases separator
    simp only [List.length_append, List.length_cons] at room
    have grown := length_appendArg args token
    have shape : front ++ (gap ++ (token ++ c :: text) ++ 0 :: rest) =
        front ++ (gap ++ (token ++ c :: (text ++ 0 :: rest))) := by
      simp only [List.append_assoc, List.cons_append]
    have memory : front ++ (gap ++ (token ++ 0 :: (text ++ 0 :: rest))) =
        front ++ gap ++ token ++ [0] ++ (text ++ 0 :: rest) := by
      simp only [List.append_assoc, List.cons_append, List.nil_append]
    have next : (front ++ gap ++ token).length + 1 = (front ++ gap ++ token ++ [0]).length := by
      simp only [List.length_append, List.length_singleton]
    obtain ⟨save, text', result, size, _, resultFree, bound⟩ := ih parts.2 (front ++ gap ++ token ++ [0])
      (appendArg args token) (nulFree_appendArg argsFree parts.1) (by omega)
    rw [shape, gather_token separators nonempty passes parts.1 (.inl separator) (by omega), if_neg notEnd, memory,
      next, result]
    refine ⟨save, gap ++ token ++ [0] ++ text', ?_, ?_, by simp, resultFree, ?_⟩
    · simp only [List.append_assoc, List.foldl_cons]
    · simp only [List.length_append, List.length_cons, List.length_nil, size]
      omega
    · simp only [List.length_append, List.length_cons, List.foldl_cons]
      omega

/-! ### Segments -/

theorem isspace_of_delimiter (separator : delimiter c = true) : isspace c = true := by
  simp only [delimiter, Bool.or_eq_true, beq_iff_eq] at separator
  rcases separator with (rfl | rfl) | rfl <;> decide

theorem nulFree_trimmed {segment : List UInt8} (free : NulFree segment) : NulFree (trimmed segment) :=
  fun c member => free c ((List.dropWhile_sublist isspace).mem member)

/-- A trimmed segment does not start with a delimiter. -/
theorem trimmed_gap {segment gap rest : List UInt8} (shape : trimmed segment = gap ++ rest)
    (separators : ∀ c ∈ gap, delimiter c = true) : gap = [] := by
  cases gap with
  | nil => rfl
  | cons c gap =>
    have passes := List.head?_dropWhile_not isspace segment
    rw [← trimmed, shape] at passes
    have space := isspace_of_delimiter (separators c (by simp))
    exact absurd space (by simpa using passes)

/-- A trimmed segment is empty, or a name, or a name and a delimiter with the
other tokens behind it. -/
inductive Shape (segment : List UInt8) : Prop where
  | empty (text : trimmed segment = []) (none : words segment = [])
  | name (token : List UInt8) (text : trimmed segment = token) (single : words segment = [token])
      (nonempty : token ≠ []) (passes : ∀ c ∈ token, delimiter c = false)
  | spaced (token : List UInt8) (c : UInt8) (behind : List UInt8) (others : List (List UInt8))
      (text : trimmed segment = token ++ c :: behind) (found : words segment = token :: others)
      (nonempty : token ≠ []) (passes : ∀ c ∈ token, delimiter c = false) (separator : delimiter c = true)
      (cuts : Cuts delimiter behind others)

theorem shape_of_segment (segment : List UInt8) : Shape segment := by
  have cuts := cuts_tokens delimiter (trimmed segment)
  generalize pieces : tokens delimiter (trimmed segment) = found at cuts
  generalize text : trimmed segment = content at cuts
  cases cuts with
  | gap separators =>
    have empty := trimmed_gap (text.trans (List.append_nil _).symm) separators
    exact .empty (text.trans empty) pieces
  | @last gap token separators nonempty passes =>
    have empty := trimmed_gap text separators
    subst empty
    exact .name token text pieces nonempty passes
  | @next gap token c rest others separators nonempty passes separator cuts =>
    have empty := trimmed_gap text separators
    subst empty
    exact .spaced token c rest others text pieces nonempty passes separator cuts

/-! ### One command -/

/-- The first token is found, measured and copied over itself. -/
theorem parse_name {token : List UInt8} (nonempty : token ≠ []) (passes : ∀ c ∈ token, delimiter c = false)
    (free : NulFree token) {c : UInt8} (stops : delimiter c = true ∨ c = 0) (rest : List UInt8) :
    parseCommand ⟨token ++ c :: rest⟩ =
      if exeMax ≤ token.length then some (errCmdOrArgsTooBig, ⟨token ++ 0 :: rest⟩)
      else
        let s := gatherLoop.run ⟨strtok delimiter (token ++ 0 :: rest)
          (if c = 0 then token.length else token.length + 1), [], false⟩
        if s.tooBig then some (errCmdOrArgsTooBig, ⟨s.found.memory⟩)
        else if 0 < s.args.length then
          (Command.strcpy ⟨s.found.memory⟩ exeMax s.args).map fun cmd => (ok, cmd)
        else some (ok, ⟨s.found.memory⟩) := by
  simp only [parseCommand, strtok_first nonempty passes free stops rest, List.drop_zero, cString_terminated free,
    strcpy_self]

/-- A name that ends its segment. -/
theorem parse_single {token : List UInt8} (nonempty : token ≠ []) (passes : ∀ c ∈ token, delimiter c = false)
    (free : NulFree token) (short : token.length < exeMax) (rest : List UInt8) :
    parseCommand ⟨token ++ 0 :: rest⟩ = some (ok, ⟨token ++ 0 :: rest⟩) := by
  rw [parse_name nonempty passes free (.inr rfl), if_neg (not_le.mpr short), if_pos rfl,
    strtok_end delimiter_nul token rest, run_done gatherLoop rfl]
  rfl

/-- A name with a delimiter and perhaps more tokens behind it. -/
theorem parse_spaced {token behind : List UInt8} {others : List (List UInt8)} {c : UInt8} (nonempty : token ≠ [])
    (passes : ∀ c ∈ token, delimiter c = false) (free : NulFree token) (short : token.length < exeMax)
    (separator : delimiter c = true) (cuts : Cuts delimiter behind others) (behindFree : NulFree behind)
    (fits : (token ++ c :: behind).length < argMax) {count : Nat}
    (size : (token ++ c :: behind).length + 1 + count = exeMax + argMax) :
    ∃ cmd, parseCommand ⟨token ++ c :: (behind ++ 0 :: List.replicate count 0)⟩ = some (ok, cmd) ∧ cmd.exe = token ∧
      cmd.args = if others = [] then (token ++ c :: behind).drop exeMax else [spaceChar].intercalate others := by
  have notEnd : c ≠ 0 := by
    rintro rfl
    rw [delimiter_nul] at separator
    cases separator
  have positive := List.length_pos_iff.mpr nonempty
  simp only [List.length_append, List.length_cons] at fits size
  have next : token.length + 1 = (token ++ [0]).length := by simp
  have memory : token ++ 0 :: (behind ++ 0 :: List.replicate count 0) =
      token ++ [0] ++ (behind ++ 0 :: List.replicate count 0) := by simp
  obtain ⟨save, behind', gathered, length, same, argsFree, bound⟩ := gather_run cuts behindFree (token ++ [0])
    (List.replicate count 0) [] nulFree_nil (by simp only [List.length_nil]; omega)
  rw [parse_name nonempty passes free (.inl separator), if_neg (not_le.mpr short), if_neg notEnd, memory, next,
    gathered]
  simp only [Bool.false_eq_true, if_false]
  have nonemptyOthers : ∀ piece ∈ others, piece ≠ [] := by
    intro piece member
    rw [← tokens_of_cuts cuts] at member
    exact ne_nil_of_mem_tokens member
  have joined := foldl_appendArg nonemptyOthers
  have layout : token ++ [0] ++ (behind' ++ 0 :: List.replicate count 0) =
      token ++ 0 :: (behind' ++ 0 :: List.replicate count 0) := by simp
  rw [joined] at argsFree bound ⊢
  rw [layout]
  cases others with
  | nil =>
    rw [same rfl, if_pos rfl]
    refine ⟨⟨token ++ 0 :: (behind ++ 0 :: List.replicate count 0)⟩, by simp, cString_terminated free, ?_⟩
    -- the NUL behind the name lies inside `exe`, so `args` still holds the spilled bytes
    have spilled : (token ++ 0 :: (behind ++ 0 :: List.replicate count 0)).drop exeMax =
        ((token ++ c :: behind) ++ 0 :: List.replicate count 0).drop exeMax := by
      obtain ⟨less, distance⟩ : ∃ less, exeMax - token.length = less + 1 := ⟨exeMax - token.length - 1, by omega⟩
      rw [List.append_assoc, List.drop_append, List.drop_append, List.cons_append, distance, List.drop_succ_cons,
        List.drop_succ_cons]
    have whole : NulFree (token ++ c :: behind) :=
      nulFree_append.mpr ⟨free, nulFree_cons.mpr ⟨notEnd, behindFree⟩⟩
    rw [Command.args, spilled, cString_drop_stored whole]
  | cons piece rest =>
    rw [if_pos (intercalate_pos (nonemptyOthers piece (by simp)) rest), if_neg (by simp)]
    have inside : exeMax + ([spaceChar].intercalate (piece :: rest)).length <
        (token ++ 0 :: (behind' ++ 0 :: List.replicate count 0)).length := by
      simp only [List.length_append, List.length_cons, List.length_replicate, length, List.length_nil] at bound ⊢
      omega
    obtain ⟨cmd, copied, exe, args⟩ := strcpy_args free argsFree short inside
    exact ⟨cmd, by rw [copied]; rfl, exe, args⟩

/-- A segment whose first token does not fit into `exe`. -/
def LongName (segment : List UInt8) : Prop := ∃ name ∈ (words segment).head?, exeMax ≤ name.length

instance (segment : List UInt8) : Decidable (LongName segment) := by
  unfold LongName; infer_instance

/-- What the second pass makes of a segment it accepts. -/
def Parsed (segment : List UInt8) (cmd : Command) : Prop :=
  match words segment with
  | [] => trimmed segment = [] ∧ cmd.exe = []
  | name :: others => cmd.exe = name ∧
      cmd.args = if others = [] then (trimmed segment).drop exeMax else [spaceChar].intercalate others

/-- A segment of a line that was read with `fgets`. -/
structure Readable (segment : List UInt8) : Prop where
  free : NulFree segment
  short : segment.length < argMax

theorem length_trimmed_le (segment : List UInt8) : (trimmed segment).length ≤ segment.length :=
  (List.dropWhile_sublist isspace).length_le

/-- One command through both passes. -/
theorem parse_stored {segment : List UInt8} (readable : Readable segment) :
    ∃ rc cmd, parseCommand (stored (trimmed segment)) = some (rc, cmd) ∧
      if LongName segment then rc = errCmdOrArgsTooBig else rc = ok ∧ Parsed segment cmd := by
  have free := nulFree_trimmed readable.free
  have short : (trimmed segment).length < argMax := (length_trimmed_le segment).trans_lt readable.short
  have size : (trimmed segment).length + 1 + (exeMax + argMax - ((trimmed segment).length + 1)) = exeMax + argMax := by
    omega
  rw [stored]
  generalize exeMax + argMax - ((trimmed segment).length + 1) = count at size ⊢
  cases shape_of_segment segment with
  | empty text none =>
    have ended := strtok_end delimiter_nul [] (List.replicate count 0)
    simp only [List.nil_append, List.length_nil] at ended
    rw [text, List.nil_append]
    refine ⟨ok, ⟨0 :: List.replicate count 0⟩, ?_, ?_⟩
    · simp only [parseCommand, ended]
    · simp [LongName, Parsed, none, text, Command.exe, cString]
  | name token text single nonempty passes =>
    rw [text] at free ⊢
    by_cases long : exeMax ≤ token.length
    · refine ⟨errCmdOrArgsTooBig, ⟨token ++ 0 :: List.replicate count 0⟩, ?_, ?_⟩
      · rw [parse_name nonempty passes free (.inr rfl), if_pos long]
      · simp [LongName, single, long]
    · refine ⟨ok, _, parse_single nonempty passes free (not_le.mp long) _, ?_⟩
      simp only [LongName, Parsed, single, long, text, List.head?_cons, Option.mem_def, Option.some.injEq,
        exists_eq_left', if_false, if_true, true_and]
      exact ⟨cString_terminated free, cString_drop_stored free count⟩
  | spaced token c behind others text found nonempty passes separator cuts =>
    rw [text] at free short size ⊢
    obtain ⟨tokenFree, rest⟩ := nulFree_append.mp free
    have behindFree := (nulFree_cons.mp rest).2
    rw [List.append_assoc, List.cons_append]
    by_cases long : exeMax ≤ token.length
    · refine ⟨errCmdOrArgsTooBig, ⟨token ++ 0 :: (behind ++ 0 :: List.replicate count 0)⟩, ?_, ?_⟩
      · rw [parse_name nonempty passes tokenFree (.inl separator), if_pos long]
      · simp [LongName, found, long]
    · obtain ⟨cmd, parsed, exe, args⟩ :=
        parse_spaced nonempty passes tokenFree (not_le.mp long) separator cuts behindFree short size
      refine ⟨ok, cmd, parsed, ?_⟩
      simp only [LongName, Parsed, found, long, text, List.head?_cons, Option.mem_def, Option.some.injEq,
        exists_eq_left', if_false, true_and]
      exact ⟨exe, args⟩

/-! ### Whole lines -/

/-- The first pass stores every segment, or the first eight. -/
theorem splitCommands_stored (list : List (List UInt8)) (readable : ∀ segment ∈ list, Readable segment)
    (clist : List Command) (room : clist.length ≤ cmdMax) :
    splitCommands list clist =
      some (if cmdMax < clist.length + list.length then errTooManyCommands else ok,
        clist ++ (list.take (cmdMax - clist.length)).map fun segment => stored (trimmed segment)) := by
  induction list generalizing clist with
  | nil =>
    rw [splitCommands, List.length_nil, Nat.add_zero, if_neg (not_lt.mpr room), List.take_nil, List.map_nil,
      List.append_nil]
  | cons segment rest ih =>
    have first := readable segment (by simp)
    simp only [splitCommands, strcpy_zeroed ((length_trimmed_le segment).trans_lt first.short)]
    split
    · rename_i full
      have exact : clist.length = cmdMax := by omega
      simp [exact]
    · rename_i more
      obtain ⟨left, count⟩ : ∃ left, cmdMax - clist.length = left + 1 := ⟨cmdMax - clist.length - 1, by omega⟩
      have grown : (clist ++ [stored (trimmed segment)]).length = clist.length + 1 := List.length_append
      rw [ih (fun other member => readable other (List.mem_cons_of_mem _ member)) _ (by omega), grown]
      have same : clist.length + 1 + rest.length = clist.length + (rest.length + 1) := by omega
      have fewer : cmdMax - (clist.length + 1) = left := by omega
      rw [same, fewer, count, List.length_cons, List.take_succ_cons, List.map_cons, List.append_assoc,
        List.singleton_append]

/-- The second pass ends at the first name that is too long. -/
theorem parseCommands_stored (list : List (List UInt8)) (readable : ∀ segment ∈ list, Readable segment) :
    ∃ rc clist, parseCommands (list.map fun segment => stored (trimmed segment)) = some (rc, clist) ∧
      if ∃ segment ∈ list, LongName segment then rc = errCmdOrArgsTooBig
      else rc = ok ∧ List.Forall₂ Parsed list clist := by
  induction list with
  | nil => exact ⟨ok, [], rfl, by simp⟩
  | cons segment rest ih =>
    obtain ⟨rc, cmd, parsed, outcome⟩ := parse_stored (readable segment (by simp))
    obtain ⟨rcRest, clist, parsedRest, outcomeRest⟩ :=
      ih fun other member => readable other (List.mem_cons_of_mem _ member)
    simp only [List.map_cons, parseCommands, parsed, parsedRest, Option.map_some]
    by_cases long : LongName segment
    · rw [if_pos long] at outcome
      have refused : rc ≠ ok := by
        rw [outcome]
        decide
      refine ⟨rc, _, if_pos refused, ?_⟩
      rw [if_pos ⟨segment, by simp, long⟩]
      exact outcome
    · rw [if_neg long] at outcome
      obtain ⟨accepted, each⟩ := outcome
      refine ⟨rcRest, cmd :: clist, if_neg (not_not.mpr accepted), ?_⟩
      simp only [List.exists_mem_cons_iff, long, false_or]
      split at outcomeRest
      · rename_i later
        rwa [if_pos later]
      · rename_i none
        rw [if_neg none]
        exact ⟨outcomeRest.1, .cons each outcomeRest.2⟩

theorem codes_differ : errTooManyCommands ≠ ok ∧ errCmdOrArgsTooBig ≠ ok := by decide

theorem readable_segment {line segment : List UInt8} (short : (cString line).length < argMax)
    (member : segment ∈ segments line) : Readable segment where
  free := fun c inside => nulFree_cString line c ((sublist_of_mem_tokens member).mem inside)
  short := (sublist_of_mem_tokens member).length_le.trans_lt short

/-- What `build_cmd_list` returns for every line that `fgets` can read: too
many segments, a name that is too long, or the segments one by one. -/
theorem buildCmdList_cases (line : List UInt8) (clist : List Command) (short : (cString line).length < argMax) :
    ∃ rc built, buildCmdList (some line) clist = some (rc, built) ∧
      if cmdMax < (segments line).length then
        rc = errTooManyCommands ∧ built = ((segments line).take cmdMax).map fun segment => stored (trimmed segment)
      else if ∃ segment ∈ segments line, LongName segment then rc = errCmdOrArgsTooBig
      else rc = (if segments line = [] then warnNoCmds else ok) ∧ List.Forall₂ Parsed (segments line) built := by
  have readable : ∀ segment ∈ segments line, Readable segment := fun segment => readable_segment short
  have split := splitCommands_stored (segments line) readable [] (Nat.zero_le _)
  simp only [List.length_nil, Nat.zero_add, Nat.sub_zero, List.nil_append] at split
  simp only [buildCmdList, split]
  by_cases many : cmdMax < (segments line).length
  · simp only [if_pos many, ne_eq, codes_differ.1, not_false_eq_true, if_true]
    exact ⟨_, _, rfl, rfl, rfl⟩
  · obtain ⟨rc, built, parsed, outcome⟩ := parseCommands_stored (segments line) readable
    simp only [if_neg many, ne_eq, not_true_eq_false, if_false, List.take_of_length_le (not_lt.mp many), parsed]
    by_cases long : ∃ segment ∈ segments line, LongName segment
    · rw [if_pos long] at outcome
      refine ⟨rc, built, if_pos (by rw [outcome]; exact codes_differ.2), ?_⟩
      rw [if_pos long]
      exact outcome
    · rw [if_neg long] at outcome
      obtain ⟨accepted, each⟩ := outcome
      refine ⟨_, built, if_neg (not_not.mpr accepted), ?_⟩
      rw [if_neg long, ← each.length_eq]
      refine ⟨?_, each⟩
      cases segments line with
      | nil => rfl
      | cons segment rest => simp

/-- An accepted line has room in the list, no name that is too long, and its
segments were parsed one by one. -/
theorem accepted_parsed {line : List UInt8} (short : (cString line).length < argMax)
    (returns : buildCmdList (some line) clist = some (ok, built)) :
    (segments line).length ≤ cmdMax ∧ (¬ ∃ segment ∈ segments line, LongName segment) ∧
      List.Forall₂ Parsed (segments line) built := by
  obtain ⟨rc, built', returns', outcome⟩ := buildCmdList_cases line clist short
  cases returns.symm.trans returns'
  split at outcome
  · exact absurd outcome.1 codes_differ.1.symm
  rename_i room
  split at outcome
  · exact absurd outcome codes_differ.2.symm
  rename_i names
  exact ⟨not_lt.mp room, names, outcome.2⟩

/-- With room in the list, a line is too big exactly for a name that is. -/
theorem refused_long_iff {line : List UInt8} (short : (cString line).length < argMax)
    (room : (segments line).length ≤ cmdMax) (clist : List Command) :
    (∃ built, buildCmdList (some line) clist = some (errCmdOrArgsTooBig, built)) ↔
      ∃ segment ∈ segments line, LongName segment := by
  obtain ⟨rc, built, returns, outcome⟩ := buildCmdList_cases line clist short
  rw [if_neg (not_lt.mpr room)] at outcome
  rw [returns]
  split at outcome
  · rename_i names
    exact iff_of_true ⟨built, by rw [outcome]⟩ names
  · rename_i names
    refine iff_of_false ?_ names
    rintro ⟨built', equal⟩
    cases equal
    have code := outcome.1
    split at code <;> exact absurd code (by decide)

end SysProg.PartOneTokens
