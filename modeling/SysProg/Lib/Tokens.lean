import Mathlib.Data.List.TakeWhile

/-! Texts cut at separators the way `strtok` cuts them: runs of separators
count as one and leave no empty token. -/
namespace SysProg.Tokens

variable {α : Type*} {sep : α → Bool}

/-- The non-empty pieces of a text between two separators. -/
def tokens (sep : α → Bool) (text : List α) : List (List α) := (text.splitOnP sep).filter (!·.isEmpty)

/-- The pieces of a text behind one more character. -/
theorem mem_splitOnP_cons {c : α} {rest piece : List α} (member : piece ∈ (c :: rest).splitOnP sep) :
    piece = [] ∨ piece ∈ rest.splitOnP sep ∨
      sep c = false ∧ ∃ first ∈ rest.splitOnP sep, piece = c :: first := by
  rw [List.splitOnP_cons_eq_if_modifyHead] at member
  cases separates : sep c with
  | true =>
    rw [if_pos separates] at member
    rcases List.mem_cons.mp member with empty | later
    · exact .inl empty
    · exact .inr (.inl later)
  | false =>
    rw [separates, if_neg Bool.false_ne_true] at member
    cases pieces : rest.splitOnP sep with
    | nil => exact absurd pieces (List.splitOnP_ne_nil sep rest)
    | cons first others =>
      rw [pieces, List.modifyHead_cons, List.mem_cons] at member
      rcases member with same | later
      · exact .inr (.inr ⟨rfl, first, List.mem_cons_self, same⟩)
      · exact .inr (.inl (List.mem_cons_of_mem _ later))

/-- Every piece is a part of the text. -/
theorem sublist_of_mem_splitOnP {text piece : List α} (member : piece ∈ text.splitOnP sep) :
    piece.Sublist text := by
  induction text generalizing piece with
  | nil =>
    rw [List.splitOnP_nil, List.mem_singleton] at member
    exact member ▸ List.Sublist.refl _
  | cons c rest ih =>
    rcases mem_splitOnP_cons member with rfl | later | ⟨_, first, before, rfl⟩
    · exact List.nil_sublist _
    · exact (ih later).cons c
    · exact (ih before).cons_cons c

/-- Every other character is in some piece. -/
theorem mem_piece {text : List α} {c : α} (inside : c ∈ text) (passes : sep c = false) :
    ∃ piece ∈ text.splitOnP sep, c ∈ piece := by
  induction text with
  | nil => cases inside
  | cons first rest ih =>
    rw [List.splitOnP_cons_eq_if_modifyHead]
    cases separates : sep first with
    | true =>
      rw [if_pos rfl]
      rcases List.mem_cons.mp inside with rfl | later
      · rw [separates] at passes
        cases passes
      · obtain ⟨piece, member, there⟩ := ih later
        exact ⟨piece, List.mem_cons_of_mem _ member, there⟩
    | false =>
      rw [if_neg Bool.false_ne_true]
      cases pieces : rest.splitOnP sep with
      | nil => exact absurd pieces (List.splitOnP_ne_nil sep rest)
      | cons head others =>
        rw [List.modifyHead_cons]
        rcases List.mem_cons.mp inside with rfl | later
        · exact ⟨c :: head, by simp, by simp⟩
        · obtain ⟨piece, member, there⟩ := ih later
          rw [pieces, List.mem_cons] at member
          rcases member with rfl | other
          · exact ⟨first :: piece, by simp, List.mem_cons_of_mem _ there⟩
          · exact ⟨piece, List.mem_cons_of_mem _ other, there⟩

theorem sublist_of_mem_tokens {text token : List α} (member : token ∈ tokens sep text) : token.Sublist text :=
  sublist_of_mem_splitOnP (List.mem_filter.mp member).1

theorem ne_nil_of_mem_tokens {text token : List α} (member : token ∈ tokens sep text) : token ≠ [] := by
  simpa using (List.mem_filter.mp member).2

/-- Only the characters of the text decide where it is cut. -/
theorem tokens_congr {other : α → Bool} {text : List α} (agree : ∀ c ∈ text, sep c = other c) :
    tokens sep text = tokens other text := by
  have same : text.splitOnP sep = text.splitOnP other := by
    induction text with
    | nil => simp
    | cons c rest ih =>
      obtain ⟨first, others⟩ := List.forall_mem_cons.mp agree
      rw [List.splitOnP_cons_eq_if_modifyHead, List.splitOnP_cons_eq_if_modifyHead, first, ih others]
  rw [tokens, tokens, same]

/-! ### A text as gaps and tokens -/

/-- How a text falls into gaps of separators and the tokens between them. -/
inductive Cuts (sep : α → Bool) : List α → List (List α) → Prop where
  | gap (separators : ∀ c ∈ gap, sep c = true) : Cuts sep gap []
  | last (separators : ∀ c ∈ gap, sep c = true) (nonempty : token ≠ []) (free : ∀ c ∈ token, sep c = false) :
      Cuts sep (gap ++ token) [token]
  | next (separators : ∀ c ∈ gap, sep c = true) (nonempty : token ≠ []) (free : ∀ c ∈ token, sep c = false)
      (separator : sep c = true) (rest : Cuts sep text pieces) :
      Cuts sep (gap ++ (token ++ c :: text)) (token :: pieces)

@[simp] theorem tokens_nil : tokens sep ([] : List α) = [] := by simp [tokens]

theorem tokens_separator (separator : sep c = true) (text : List α) : tokens sep (c :: text) = tokens sep text := by
  rw [tokens, List.splitOnP_cons_eq_if_modifyHead, if_pos separator, List.filter_cons_of_neg (by simp), tokens]

theorem tokens_gap (separators : ∀ c ∈ gap, sep c = true) (text : List α) :
    tokens sep (gap ++ text) = tokens sep text := by
  induction gap with
  | nil => rfl
  | cons c gap ih =>
    obtain ⟨first, others⟩ := List.forall_mem_cons.mp separators
    rw [List.cons_append, tokens_separator first, ih others]

theorem tokens_single (nonempty : token ≠ []) (free : ∀ c ∈ token, sep c = false) : tokens sep token = [token] := by
  rw [tokens, List.splitOnP_eq_singleton free, List.filter_cons_of_pos (by simpa using nonempty), List.filter_nil]

theorem tokens_cut (nonempty : token ≠ []) (free : ∀ c ∈ token, sep c = false) (separator : sep c = true)
    (text : List α) : tokens sep (token ++ c :: text) = token :: tokens sep text := by
  rw [tokens, List.splitOnP_append_cons_of_forall_mem free c separator,
    List.filter_cons_of_pos (by simpa using nonempty), tokens]

/-- The tokens of a text are the ones it is cut into. -/
theorem tokens_of_cuts (cuts : Cuts sep text pieces) : tokens sep text = pieces := by
  induction cuts with
  | @gap gap separators =>
    rw [← List.append_nil gap, tokens_gap separators, tokens_nil]
  | last separators nonempty free => rw [tokens_gap separators, tokens_single nonempty free]
  | next separators nonempty free separator _ ih =>
    rw [tokens_gap separators, tokens_cut nonempty free separator, ih]

/-- Every text can be cut up. -/
theorem cuts_tokens (sep : α → Bool) (text : List α) : Cuts sep text (tokens sep text) := by
  suffices exists_cuts : ∃ pieces, Cuts sep text pieces by
    obtain ⟨pieces, cuts⟩ := exists_cuts
    rwa [tokens_of_cuts cuts]
  generalize size : text.length = length
  induction length using Nat.strongRecOn generalizing text with
  | _ length ih =>
    have gap : ∀ c ∈ text.takeWhile sep, sep c = true := fun c member => List.mem_takeWhile_imp member
    cases ahead : text.dropWhile sep with
    | nil =>
      refine ⟨[], ?_⟩
      have whole := List.takeWhile_append_dropWhile (p := sep) (l := text)
      rw [ahead, List.append_nil] at whole
      exact .gap (whole ▸ gap)
    | cons first others =>
      have passes : sep first = false := by
        have head := List.head_dropWhile_not sep (by rw [ahead]; simp)
        simpa [ahead] using head
      have split : text = text.takeWhile sep ++ ((first :: others).takeWhile (!sep ·) ++
          (first :: others).dropWhile (!sep ·)) := by
        rw [List.takeWhile_append_dropWhile, ← ahead, List.takeWhile_append_dropWhile]
      have nonempty : (first :: others).takeWhile (!sep ·) ≠ [] := by
        rw [List.takeWhile_cons_of_pos (by simp [passes])]
        simp
      have free : ∀ c ∈ (first :: others).takeWhile (!sep ·), sep c = false := by
        intro c member
        simpa using List.mem_takeWhile_imp member
      cases behind : (first :: others).dropWhile (!sep ·) with
      | nil =>
        rw [behind, List.append_nil] at split
        rw [split]
        exact ⟨_, .last gap nonempty free⟩
      | cons c rest =>
        have separator : sep c = true := by
          have head := List.head_dropWhile_not (!sep ·) (by rw [behind]; simp)
          simpa [behind] using head
        rw [behind] at split
        have shorter : rest.length < length := by
          have := congrArg List.length split
          simp only [List.length_append, List.length_cons] at this
          omega
        obtain ⟨pieces, cuts⟩ := ih rest.length shorter rest rfl
        rw [split]
        exact ⟨_, .next gap nonempty free separator cuts⟩

/-! ### Joined tokens -/

theorem free_of_mem_tokens {text token : List α} (member : token ∈ tokens sep text) : ∀ c ∈ token, sep c = false := by
  have cuts := cuts_tokens sep text
  generalize tokens sep text = pieces at cuts member
  induction cuts with
  | gap => cases member
  | last _ _ free => exact List.mem_singleton.mp member ▸ free
  | next _ _ free _ _ ih =>
    rcases List.mem_cons.mp member with rfl | later
    · exact free
    · exact ih later

/-- Tokens that are joined by a separator are found again. -/
theorem tokens_intercalate {pieces : List (List α)} {c : α} (separator : sep c = true)
    (cut : ∀ piece ∈ pieces, piece ≠ [] ∧ ∀ c ∈ piece, sep c = false) :
    tokens sep ([c].intercalate pieces) = pieces := by
  induction pieces with
  | nil => rfl
  | cons piece rest ih =>
    obtain ⟨⟨nonempty, free⟩, others⟩ := List.forall_mem_cons.mp cut
    cases rest with
    | nil => rw [List.intercalate_singleton, tokens_single nonempty free]
    | cons second rest =>
      rw [List.intercalate_cons_cons, List.append_assoc, List.singleton_append, tokens_cut nonempty free separator,
        ih others]

theorem mem_intercalate {pieces : List (List α)} {s c : α} (inside : c ∈ [s].intercalate pieces) :
    c = s ∨ ∃ piece ∈ pieces, c ∈ piece := by
  induction pieces with
  | nil => cases inside
  | cons piece rest ih =>
    cases rest with
    | nil => exact .inr ⟨piece, by simp, by simpa using inside⟩
    | cons second rest =>
      rw [List.intercalate_cons_cons, List.mem_append, List.mem_append, List.mem_singleton] at inside
      rcases inside with (here | separator) | later
      · exact .inr ⟨piece, List.mem_cons_self, here⟩
      · exact .inl separator
      · obtain ⟨other, member, there⟩ | separator := (ih later).symm
        · exact .inr ⟨other, List.mem_cons_of_mem _ member, there⟩
        · exact .inl separator

/-- The room that pieces need with a separator behind each of them. -/
def room (pieces : List (List α)) : Nat := pieces.flatten.length + pieces.length

theorem length_intercalate {pieces : List (List α)} {c : α} (some : pieces ≠ []) :
    ([c].intercalate pieces).length + 1 = room pieces := by
  induction pieces with
  | nil => exact absurd rfl some
  | cons piece rest ih =>
    cases rest with
    | nil => simp [room]
    | cons second rest =>
      have later := ih (List.cons_ne_nil _ _)
      simp only [room, List.flatten_cons, List.intercalate_cons_cons, List.length_append, List.length_cons,
        List.length_nil] at later ⊢
      omega

/-- A text has room for its tokens. -/
theorem room_tokens_le (sep : α → Bool) (text : List α) : room (tokens sep text) ≤ text.length + 1 := by
  have cuts := cuts_tokens sep text
  generalize tokens sep text = pieces at cuts
  induction cuts with
  | gap => exact Nat.zero_le _
  | last => simp [room]
  | next _ _ _ _ _ ih =>
    simp only [room, List.flatten_cons, List.length_append, List.length_cons] at ih ⊢
    omega

end SysProg.Tokens
