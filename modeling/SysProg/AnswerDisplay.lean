import SysProg.AnswerSync

/-! What the remote client shows of an answer. Each result of `recv` is printed
with `%.*s`, which takes the count for an upper bound and stops at a NUL all the
same, so what is shown of an answer with a NUL in it depends on where the
network cut it. -/
namespace SysProg.AnswerDisplay
open CString RshServer AnswerSync

/-- The receive loop of `exec_remote_cmd_loop` on the results of `recv`: what it
prints and the results it leaves for later, `none` while it waits for more. -/
def showAnswer : List (List UInt8) → Option (List UInt8 × List (List UInt8))
  | [] => none
  | chunk :: rest =>
    let shown := cString chunk
    if isEof chunk then some (shown, rest)
    else (showAnswer rest).map fun later => (shown ++ later.1, later.2)

/-- However the answer is cut, the loop stops behind it, having printed the
same text. -/
def ShowsAlike (answer : List UInt8) : Prop :=
  ∀ chunks chunks', Divides chunks answer → Divides chunks' answer →
    ∃ shown, showAnswer chunks = some (shown, []) ∧ showAnswer chunks' = some (shown, [])

/-- The answer cut into single bytes. -/
def bytewise (bytes : List UInt8) : List (List UInt8) := bytes.map fun byte => [byte]

/-! ### What is shown of one division -/

/-- The end mark of an answer is in the last chunk, and last there. -/
theorem divides_framed {chunks : List (List UInt8)} {body : List UInt8}
    (divides : Divides chunks (body ++ [rdshEofChar])) (inside : rdshEofChar ∉ body) :
    ∃ front last, chunks = front ++ [last ++ [rdshEofChar]] ∧ front.flatten ++ last = body ∧
      ∀ chunk ∈ front, isEof chunk = false := by
  obtain ⟨nonempty, _, whole⟩ := divides
  rcases List.eq_nil_or_concat chunks with rfl | ⟨front, chunk, rfl⟩
  · simp at whole
  rcases List.eq_nil_or_concat chunk with rfl | ⟨last, byte, rfl⟩
  · exact absurd rfl (nonempty [] (by simp))
  simp only [List.concat_eq_append, List.flatten_append, List.flatten_cons, List.flatten_nil, List.append_nil,
    ← List.append_assoc] at whole
  obtain ⟨same, mark⟩ := List.append_inj' whole rfl
  obtain rfl : byte = rdshEofChar := by simpa using mark
  refine ⟨front, last, by simp, same, fun chunk member => ?_⟩
  apply isEof_of_notMem
  intro early
  apply inside
  rw [← same]
  exact List.mem_append_left _ (List.mem_flatten.mpr ⟨chunk, member, early⟩)

theorem showAnswer_front {front : List (List UInt8)} (more : ∀ chunk ∈ front, isEof chunk = false)
    (ends : isEof last = true) :
    showAnswer (front ++ [last]) = some ((front ++ [last]).flatMap cString, []) := by
  induction front with
  | nil => simp [showAnswer, ends]
  | cons chunk front ih =>
    have later := ih fun other member => more other (List.mem_cons_of_mem _ member)
    simp [showAnswer, more chunk (by simp), later]

/-- The loop stops behind the answer, and shows of each chunk what is in front
of its first NUL. -/
theorem showAnswer_divides {chunks : List (List UInt8)} (framed : Framed answer) (divides : Divides chunks answer) :
    showAnswer chunks = some (chunks.flatMap cString, []) := by
  obtain ⟨body, rfl, inside⟩ := framed
  obtain ⟨front, last, rfl, _, more⟩ := divides_framed divides inside
  exact showAnswer_front more (by simp [isEof])

/-! ### Two divisions -/

theorem cStrings_nulFree {chunks : List (List UInt8)} (free : NulFree chunks.flatten) :
    chunks.flatMap cString = chunks.flatten := by
  induction chunks with
  | nil => rfl
  | cons chunk rest ih =>
    rw [List.flatten_cons, nulFree_append] at free
    rw [List.flatMap_cons, List.flatten_cons, cString_of_nulFree free.1, ih free.2]

/-- Cut into single bytes, an answer loses its NULs and nothing else. -/
theorem cStrings_bytewise (bytes : List UInt8) : (bytewise bytes).flatMap cString = bytes.filter (· ≠ 0) := by
  induction bytes with
  | nil => rfl
  | cons byte rest ih =>
    have rest_shown : (List.map (fun byte => [byte]) rest).flatMap cString = rest.filter (· ≠ 0) := ih
    by_cases null : byte = 0 <;> simp [bytewise, cString, null, rest_shown]

theorem divides_bytewise (bytes : List UInt8) : Divides (bytewise bytes) bytes where
  nonempty := by simp [bytewise]
  bounded := by simp [bytewise, rdshCommBuffSz]
  whole := by rw [bytewise, ← List.flatMap_def, List.flatMap_singleton']

theorem divides_append {left right : List (List UInt8)} (first : Divides left front) (second : Divides right back) :
    Divides (left ++ right) (front ++ back) where
  nonempty := fun chunk member => (List.mem_append.mp member).elim (first.nonempty chunk) (second.nonempty chunk)
  bounded := fun chunk member => (List.mem_append.mp member).elim (first.bounded chunk) (second.bounded chunk)
  whole := by rw [List.flatten_append, first.whole, second.whole]

/-- A NUL in front of something else: the last one of those that a nonzero byte
follows. -/
theorem exists_null_before {bytes : List UInt8} (null : ¬ NulFree bytes) (nonzero : last ≠ 0) :
    ∃ front byte back, bytes ++ [last] = front ++ 0 :: byte :: back ∧ byte ≠ 0 := by
  induction bytes with
  | nil => exact absurd nulFree_nil null
  | cons byte rest ih =>
    by_cases later : NulFree rest
    · have zero : byte = 0 := by
        by_contra other
        exact null (nulFree_cons.mpr ⟨other, later⟩)
      cases rest with
      | nil => exact ⟨[], last, [], by rw [zero]; rfl, nonzero⟩
      | cons next rest => exact ⟨[], next, rest ++ [last], by rw [zero]; rfl, (nulFree_cons.mp later).1⟩
    · obtain ⟨front, next, back, split, other⟩ := ih later
      exact ⟨byte :: front, next, back, by rw [List.cons_append, split]; rfl, other⟩

/-- An answer is shown alike however it is cut exactly when it holds no NUL. -/
theorem shows_alike_iff (answer : List UInt8) (framed : Framed answer) : ShowsAlike answer ↔ NulFree answer := by
  constructor
  · intro alike
    by_contra null
    obtain ⟨body, rfl, inside⟩ := id framed
    have early : ¬ NulFree body := fun free => null (nulFree_append.mpr ⟨free, by simp [rdshEofChar]⟩)
    obtain ⟨front, byte, back, split, nonzero⟩ := exists_null_before early (show rdshEofChar ≠ 0 by decide)
    rw [split] at alike framed
    -- the byte behind the NUL is shown when it comes by itself and lost when they come together
    have pair : Divides [[0, byte]] [0, byte] := ⟨by simp, by simp [rdshCommBuffSz], by simp⟩
    have joined := divides_append (divides_bytewise front) (divides_append pair (divides_bytewise back))
    obtain ⟨shown, apart, together⟩ := alike _ _ (divides_bytewise _) joined
    rw [showAnswer_divides framed (divides_bytewise _)] at apart
    rw [showAnswer_divides framed joined] at together
    have lengths := congrArg (fun outcome => (outcome.map (·.1.length)).getD 0) (apart.trans together.symm)
    simp [cStrings_bytewise, cString, nonzero] at lengths
  · intro free chunks chunks' first second
    have whole {cut : List (List UInt8)} (divides : Divides cut answer) : cut.flatMap cString = answer := by
      rw [cStrings_nulFree (divides.whole.symm ▸ free), divides.whole]
    refine ⟨answer, ?_, ?_⟩
    · rw [showAnswer_divides framed first, whole first]
    · rw [showAnswer_divides framed second, whole second]

/-- The output of a command that succeeds, with the end mark behind it. -/
theorem output_shown_alike : ShowsAlike (text "total 0\n" ++ [rdshEofChar]) :=
  (shows_alike_iff _ ⟨text "total 0\n", rfl, by decide⟩).mpr (by decide)

/-- The answer to `exit`, in one piece and cut behind its NUL. -/
theorem exiting_shown_differently :
    Framed (exiting ++ [0, rdshEofChar]) ∧ ¬ ShowsAlike (exiting ++ [0, rdshEofChar]) := by
  refine ⟨⟨exiting ++ [0], by decide, by decide⟩, fun alike => ?_⟩
  obtain ⟨shown, together, apart⟩ := alike [exiting ++ [0, rdshEofChar]] [exiting ++ [0], [rdshEofChar]]
    ⟨by decide, by decide, by decide⟩ ⟨by decide, by decide, by decide⟩
  have same := together.trans apart.symm
  exact absurd same (by decide)

end SysProg.AnswerDisplay
