import SysProg.Lib.Tokens
import SysProg.LocalLoop

/-! How `exec_local_cmd_loop` takes commands from standard input. `fgets` is
given `ARG_MAX`, and what it leaves of a longer line is the next command. -/
namespace SysProg.LineReading
open CString WhileLoop Tokens Dshlib LocalLoop

/-! ### Standard input -/

/-- `fgets(buff, size, stdin)`: what it stores in front of the terminator, and
what it leaves. -/
def fgets (size : Nat) (stream : List UInt8) : List UInt8 × List UInt8 :=
  let count := min (size - 1) ((stream.takeWhile (· ≠ newline)).length + 1)
  (stream.take count, stream.drop count)

theorem length_fgets (stream : List UInt8) : (fgets argMax stream).1.length < argMax := by
  have positive : 0 < argMax := by decide
  simp only [fgets, List.length_take]
  omega

/-- What the outside decides in one turn besides the bytes on standard input. -/
structure Outside where
  blocks : List (Option (List UInt8))
  strings : List Bool
  pipes : Bool
  forks : Bool

/-- One turn's input when this is left on standard input. -/
def Outside.input (outside : Outside) (stream : List UInt8) : Input :=
  ⟨(fgets argMax stream).1, length_fgets stream, outside.blocks, outside.strings, outside.pipes, outside.forks⟩

/-- The loop over standard input. `loop` is `none` once it has left on a line;
`processed` lists the strings handed to the parsers. -/
structure Session where
  stream : List UInt8
  turns : Nat
  loop : Option Local
  processed : List (List UInt8)

/-- The loop goes on until `fgets` finds the end of the stream or a line ends it. -/
def Session.guard (t : Session) : Bool := t.stream ≠ [] ∧ t.loop.isSome

def Session.step (outside : Nat → Outside) (t : Session) : Session :=
  match t.loop with
  | none => t
  | some s =>
    let input := (outside t.turns).input t.stream
    { stream := (fgets argMax t.stream).2
      turns := t.turns + 1
      loop := match s.turn input with
        | some (.next next) => some next
        | _ => none
      processed := if input.text = [] then t.processed else t.processed ++ [input.text] }

def readLoop (outside : Nat → Outside) : Loop Session where
  guard := Session.guard
  step := Session.step outside
  size := fun t => t.stream.length
  progress := by
    intro t more
    obtain ⟨unread, running⟩ := of_decide_eq_true more
    obtain ⟨s, running⟩ := Option.isSome_iff_exists.mp running
    have some : 0 < t.stream.length := List.length_pos_iff.mpr unread
    have room : 0 < argMax - 1 := by decide
    simp only [Session.step, running, fgets, List.length_drop]
    omega

/-- The lines of a stream, without their newlines and without the empty ones. -/
def lines (stream : List UInt8) : List (List UInt8) := tokens (· = newline) stream

/-- Up to the line on which the loop leaves, if there is one, each line of the
stream is processed once and whole, and nothing else is. (The loop has no report
of a line as too long.) -/
def OneLineOneCommand (outside : Nat → Outside) (s : Local) (stream : List UInt8) : Prop :=
  let last := (readLoop outside).run ⟨stream, 0, some s, []⟩
  last.processed <+: lines stream ∧ (last.loop ≠ none → last.processed = lines stream)

/-- The text up to the next newline fits into the buffer and has no NUL. -/
def Readable (stream : List UInt8) : Prop :=
  (stream.takeWhile (· ≠ newline)).length < argMax ∧ NulFree (stream.takeWhile (· ≠ newline))

/-! ### One turn -/

section Streams
variable {stream line rest : List UInt8} {outside : Outside}

/-- A stream begins with a line, and ends behind it or goes on with a newline. -/
theorem first_line (stream : List UInt8) : ∃ line rest, stream = line ++ rest ∧ (∀ c ∈ line, c ≠ newline) ∧
    stream.takeWhile (· ≠ newline) = line ∧ (rest = [] ∨ ∃ behind, rest = newline :: behind) := by
  refine ⟨_, _, List.takeWhile_append_dropWhile.symm, fun c member => ?_, rfl, ?_⟩
  · simpa using List.mem_takeWhile_imp member
  · have stops := List.head?_dropWhile_not (fun c => decide (c ≠ newline)) stream
    cases behind : stream.dropWhile (fun c => decide (c ≠ newline)) with
    | nil => exact .inl rfl
    | cons c behind' =>
      rw [behind] at stops
      obtain rfl : c = newline := by simpa using stops
      exact .inr ⟨behind', rfl⟩

/-- The first line of a stream, unless it is empty, and the lines behind it. -/
theorem lines_first (solid : ∀ c ∈ line, c ≠ newline) (ends : rest = [] ∨ ∃ behind, rest = newline :: behind) :
    lines (line ++ rest) = (if line = [] then [] else [line]) ++ lines rest := by
  have free : ∀ c ∈ line, decide (c = newline) = false := fun c member => by simpa using solid c member
  by_cases empty : line = []
  · simp [empty]
  rw [if_neg empty]
  rcases ends with rfl | ⟨behind, rfl⟩
  · rw [List.append_nil, lines, tokens_single empty free]
    simp [lines]
  · rw [lines, tokens_cut empty free (by simp), lines, tokens_separator (by simp)]
    rfl

/-- The text of a turn is short and has no NUL, whatever the stream. -/
theorem text_clean (outside : Outside) (stream : List UInt8) :
    ((outside.input stream).text).length < argMax ∧ NulFree (outside.input stream).text := by
  refine ⟨text_short _, fun c member => ?_⟩
  exact nulFree_cString _ c ((List.takeWhile_sublist _).mem member)

/-- `fgets` stores a short line, with its newline unless that is missing or the
buffer is full. -/
theorem fgets_line (first : (line ++ rest).takeWhile (· ≠ newline) = line) (short : line.length < argMax)
    (ends : rest = [] ∨ ∃ behind, rest = newline :: behind) :
    ∃ ending left, fgets argMax (line ++ rest) = (line ++ ending, left) ∧ (ending = [] ∨ ending = [newline]) ∧
      lines left = lines rest := by
  simp only [fgets, first]
  rcases ends with rfl | ⟨behind, rfl⟩
  · refine ⟨[], [], ?_, .inl rfl, rfl⟩
    have covers : line.length ≤ min (argMax - 1) (line.length + 1) := by omega
    rw [List.append_nil, List.take_of_length_le covers, List.drop_of_length_le covers]
  · rcases Nat.lt_or_ge (line.length + 1) argMax with fits | full
    · refine ⟨[newline], behind, ?_, .inr rfl, ?_⟩
      · rw [Nat.min_eq_right (by omega), List.take_length_add_append, List.drop_length_add_append]
        rfl
      · rw [lines, lines, tokens_separator (by simp)]
    · refine ⟨[], newline :: behind, ?_, .inl rfl, rfl⟩
      rw [Nat.min_eq_left (by omega), show argMax - 1 = line.length by omega, List.take_left, List.drop_left,
        List.append_nil]

/-- A readable line is the text of its turn, and the lines behind it are left. -/
theorem readable_turn (readable : Readable stream) (outside : Outside) :
    lines stream = (if (outside.input stream).text = [] then [] else [(outside.input stream).text]) ++
      lines (fgets argMax stream).2 := by
  obtain ⟨line, rest, rfl, solid, first, ends⟩ := first_line stream
  rw [Readable, first] at readable
  obtain ⟨short, free⟩ := readable
  obtain ⟨ending, left, reads, closing, same⟩ := fgets_line first short ends
  have text : (outside.input (line ++ rest)).text = line := by
    have bytes : (outside.input (line ++ rest)).bytes = line ++ ending := congrArg Prod.fst reads
    have plain : NulFree (line ++ ending) := by
      rcases closing with rfl | rfl <;> simp [free, newline]
    rw [Input.text, bytes, cString_of_nulFree plain]
    refine Scanner.takeWhile_run (fun c member => by simpa using solid c member) ?_
    rcases closing with rfl | rfl <;> simp
  rw [text, reads, same]
  exact lines_first solid ends

/-- The first line of an unreadable stream is the text of no turn. -/
theorem unreadable_line (unreadable : ¬ Readable stream) : ∃ line others, lines stream = line :: others ∧
    ¬ (line.length < argMax ∧ NulFree line) := by
  obtain ⟨line, rest, rfl, solid, first, ends⟩ := first_line stream
  rw [Readable, first] at unreadable
  have nonempty : line ≠ [] := by
    rintro rfl
    exact unreadable ⟨by decide, nulFree_nil⟩
  refine ⟨line, lines rest, ?_, unreadable⟩
  rw [lines_first solid ends, if_neg nonempty]
  rfl

end Streams

/-! ### The loop -/

section Sessions
variable {outside : Nat → Outside} {t : Session}

/-- What a turn hands to the parsers. -/
def taken (outside : Nat → Outside) (t : Session) : List (List UInt8) :=
  let text := ((outside t.turns).input t.stream).text
  if text = [] then [] else [text]

theorem taken_clean (outside : Nat → Outside) (t : Session) :
    ∀ text ∈ taken outside t, text.length < argMax ∧ NulFree text := by
  intro text member
  rw [taken] at member
  split at member
  · cases member
  · rw [List.mem_singleton.mp member]
    exact text_clean _ _

/-- A turn hands over its text, and the loop leaves on no empty one. -/
theorem step_taken (outside : Nat → Outside) (more : t.guard = true) :
    (t.step outside).processed = t.processed ++ taken outside t ∧
      (t.step outside).stream = (fgets argMax t.stream).2 ∧ ((t.step outside).loop = none → taken outside t ≠ []) := by
  obtain ⟨s, running⟩ := Option.isSome_iff_exists.mp (of_decide_eq_true more).2
  simp only [Session.step, running, taken]
  by_cases empty : ((outside t.turns).input t.stream).text = []
  · simp [empty, Local.turn]
  · simp [empty]

/-- What is processed is short and has no NUL, and the loop leaves only on a line. -/
theorem run_clean (outside : Nat → Outside) (t : Session) : ∃ more,
    ((readLoop outside).run t).processed = t.processed ++ more ∧
      (∀ text ∈ more, text.length < argMax ∧ NulFree text) ∧
        (t.loop ≠ none → ((readLoop outside).run t).loop = none → more ≠ []) := by
  refine (run_keeps (readLoop outside) (fun u => ∃ more, u.processed = t.processed ++ more ∧
    (∀ text ∈ more, text.length < argMax ∧ NulFree text) ∧ (t.loop ≠ none → u.loop = none → more ≠ [])) ?_ ?_).1
  · rintro u again ⟨more, processed, clean, -⟩
    obtain ⟨step, -, leaves⟩ := step_taken outside again
    refine ⟨more ++ taken outside u, ?_, ?_, ?_⟩
    · rw [← List.append_assoc, ← processed]
      exact step
    · exact List.forall_mem_append.mpr ⟨clean, taken_clean outside u⟩
    · intro _ left
      simp [leaves left]
  · exact ⟨[], by simp, by simp, fun running left => absurd left running⟩

/-- From here on the loop processes the lines that are left. -/
def Whole (outside : Nat → Outside) (t : Session) : Prop :=
  ∃ more, ((readLoop outside).run t).processed = t.processed ++ more ∧ more <+: lines t.stream ∧
    (((readLoop outside).run t).loop ≠ none → more = lines t.stream)

theorem whole_done (done : t.guard = false) : Whole outside t := by
  have run : (readLoop outside).run t = t := run_done _ done
  refine ⟨[], by simp [run], List.nil_prefix, fun running => ?_⟩
  rw [run] at running
  have ended : t.stream = [] := by
    by_contra unread
    simp [Session.guard, unread, Option.isSome_iff_ne_none, running] at done
  rw [ended]
  simp [lines]

theorem whole_readable (more : t.guard = true) (readable : Readable t.stream) :
    Whole outside t ↔ Whole outside (t.step outside) := by
  have run : (readLoop outside).run t = (readLoop outside).run (t.step outside) := run_turn (readLoop outside) more
  obtain ⟨processed, stream, -⟩ := step_taken outside more
  have front : lines t.stream = taken outside t ++ lines (fgets argMax t.stream).2 := readable_turn readable _
  unfold Whole
  rw [run, processed, stream, front]
  constructor
  · rintro ⟨all, eq, part, finished⟩
    obtain ⟨later, grown, -⟩ := run_clean outside (t.step outside)
    rw [processed, List.append_assoc] at grown
    obtain rfl : all = taken outside t ++ later := List.append_cancel_left (eq.symm.trans grown)
    refine ⟨later, by rw [eq, List.append_assoc], (List.prefix_append_right_inj _).mp part, fun running => ?_⟩
    exact List.append_cancel_left (finished running)
  · rintro ⟨later, eq, part, finished⟩
    exact ⟨taken outside t ++ later, by rw [eq, List.append_assoc], (List.prefix_append_right_inj _).mpr part,
      fun running => by rw [finished running]⟩

/-- A line that is too long, or has a NUL, is never processed. -/
theorem whole_unreadable (more : t.guard = true) (unreadable : ¬ Readable t.stream) : ¬ Whole outside t := by
  rintro ⟨all, eq, part, finished⟩
  obtain ⟨line, others, front, dirty⟩ := unreadable_line unreadable
  obtain ⟨all', eq', clean, leaves⟩ := run_clean outside t
  obtain rfl : all = all' := List.append_cancel_left (eq.symm.trans eq')
  rw [front] at part finished
  cases all with
  | nil =>
    obtain ⟨-, running⟩ := of_decide_eq_true more
    by_cases left : ((readLoop outside).run t).loop = none
    · exact leaves (Option.isSome_iff_ne_none.mp running) left rfl
    · cases finished left
  | cons text texts =>
    obtain ⟨rfl, -⟩ := List.cons_prefix_cons.mp part
    exact dirty (clean text (by simp))

end Sessions

/-- Turns in which every call succeeds. -/
def granting : Nat → Outside := fun _ => ⟨[], [], true, true⟩

/-- `echo` with its argument behind 251 blanks. -/
def longLine : List UInt8 := text "echo" ++ (List.replicate 251 32 ++ text "ls\n")

end SysProg.LineReading
