import SysProg.Lib.CString
import SysProg.Lib.Tokens

/-! `strtok_r` on memory it cuts up in place. A call skips separators, finds
the end of the token that follows and puts a NUL there; the bytes behind stay
as they are until the next call. -/
namespace SysProg.Strtok
open CString Tokens

/-- The result of a call: where the token starts, where the next call goes on,
and the memory. -/
structure Result where
  token : Option Nat
  save : Nat
  memory : List UInt8
  deriving DecidableEq

/-- `strtok_r(s, delim, &save)` with the string, or what is left of it, at `pos`. -/
def strtok (sep : UInt8 → Bool) (memory : List UInt8) (pos : Nat) : Result :=
  let start := pos + ((memory.drop pos).takeWhile sep).length
  let token := (memory.drop start).takeWhile fun c => !sep c && c ≠ 0
  if token = [] then ⟨none, start, memory⟩
  else
    let stop := start + token.length
    if memory.getD stop 0 = 0 then ⟨some start, stop, memory⟩
    else ⟨some start, stop + 1, memory.set stop 0⟩

variable {sep : UInt8 → Bool}

/-- A token found starts at or behind where the search began, and the next
search begins behind it, inside the memory. -/
theorem save_of_token {pos start : Nat} (found : (strtok sep memory pos).token = some start) :
    pos ≤ start ∧ start < (strtok sep memory pos).save ∧ start < memory.length ∧
      (strtok sep memory pos).memory.length = memory.length := by
  simp only [strtok] at found ⊢
  split at found
  · cases found
  rename_i nonempty
  have positive := List.length_pos_iff.mpr nonempty
  have inside : pos + ((memory.drop pos).takeWhile sep).length < memory.length := by
    have short := (List.takeWhile_sublist (fun c => !sep c && c ≠ 0)
      (l := memory.drop (pos + ((memory.drop pos).takeWhile sep).length))).length_le
    rw [List.length_drop] at short
    omega
  split at found <;> rename_i terminated <;> cases found
  · rw [if_neg nonempty, if_pos terminated]
    exact ⟨by omega, by dsimp only; omega, inside, rfl⟩
  · rw [if_neg nonempty, if_neg terminated]
    exact ⟨by omega, by dsimp only; omega, inside, List.length_set⟩

theorem save_le (sep : UInt8 → Bool) (memory : List UInt8) (pos : Nat) : pos ≤ (strtok sep memory pos).save := by
  simp only [strtok]
  split
  · exact Nat.le_add_right ..
  · split <;> dsimp only <;> omega

@[simp] theorem length_memory (sep : UInt8 → Bool) (memory : List UInt8) (pos : Nat) :
    (strtok sep memory pos).memory.length = memory.length := by
  simp only [strtok]
  split
  · rfl
  · split
    · rfl
    · exact List.length_set

/-! ### What a call does to a terminated text -/

private theorem takeWhile_gap (separators : ∀ c ∈ gap, sep c = true) {c : UInt8} (passes : sep c = false)
    (rest : List UInt8) : (gap ++ c :: rest).takeWhile sep = gap := by
  rw [List.takeWhile_append_of_pos separators, List.takeWhile_cons_of_neg (by simp [passes]), List.append_nil]

/-- Only separators are left: no token. -/
theorem strtok_gap (separators : ∀ c ∈ gap, sep c = true) (nulPasses : sep 0 = false) (front rest : List UInt8) :
    strtok sep (front ++ (gap ++ 0 :: rest)) front.length =
      ⟨none, front.length + gap.length, front ++ (gap ++ 0 :: rest)⟩ := by
  have skipped : (front ++ (gap ++ 0 :: rest)).drop (front.length + gap.length) = 0 :: rest := by
    rw [← List.append_assoc, ← List.length_append, List.drop_left]
  simp only [strtok, List.drop_left, takeWhile_gap separators nulPasses, skipped]
  rw [List.takeWhile_cons_of_neg (by simp), if_pos rfl]

/-- Nothing is left. -/
theorem strtok_end (nulPasses : sep 0 = false) (front rest : List UInt8) :
    strtok sep (front ++ 0 :: rest) front.length = ⟨none, front.length, front ++ 0 :: rest⟩ :=
  strtok_gap (List.forall_mem_nil _) nulPasses front rest

/-- A token is cut off at the character behind it, which is a separator or the
end of the text. -/
theorem strtok_token (separators : ∀ c ∈ gap, sep c = true) (nonempty : token ≠ [])
    (free : ∀ c ∈ token, sep c = false) (nulFree : NulFree token) {c : UInt8} (stops : sep c = true ∨ c = 0)
    (front rest : List UInt8) :
    strtok sep (front ++ (gap ++ (token ++ c :: rest))) front.length =
      ⟨some (front ++ gap).length,
        if c = 0 then (front ++ gap ++ token).length else (front ++ gap ++ token).length + 1,
        front ++ (gap ++ (token ++ 0 :: rest))⟩ := by
  have skipped : (gap ++ (token ++ c :: rest)).takeWhile sep = gap := by
    obtain ⟨first, others, rfl⟩ := List.exists_cons_of_ne_nil nonempty
    exact takeWhile_gap separators (free first (by simp)) _
  have ahead : (front ++ (gap ++ (token ++ c :: rest))).drop (front.length + gap.length) = token ++ c :: rest := by
    rw [← List.append_assoc, ← List.length_append, List.drop_left]
  have taken : (token ++ c :: rest).takeWhile (fun c => !sep c && c ≠ 0) = token := by
    rw [List.takeWhile_append_of_pos, List.takeWhile_cons_of_neg, List.append_nil]
    · rcases stops with separator | rfl
      · simp [separator]
      · simp
    · intro c member
      simp [free c member, nulFree c member]
  have shape : front ++ (gap ++ (token ++ c :: rest)) = (front ++ gap ++ token) ++ c :: rest := by
    simp only [List.append_assoc]
  have stop : (front ++ (gap ++ (token ++ c :: rest))).getD (front.length + gap.length + token.length) 0 = c := by
    rw [shape, ← List.length_append, ← List.length_append, List.getD_eq_getElem?_getD,
      List.getElem?_append_right (Nat.le_refl _)]
    simp
  have ended : (front ++ (gap ++ (token ++ c :: rest))).set (front.length + gap.length + token.length) 0 =
      front ++ (gap ++ (token ++ 0 :: rest)) := by
    rw [shape, ← List.length_append, ← List.length_append, List.set_append_right _ _ (Nat.le_refl _)]
    simp
  simp only [strtok, List.drop_left, skipped, ahead, taken, if_neg nonempty, stop, ended]
  by_cases terminator : c = 0
  · subst terminator
    simp only [if_true, List.length_append]
  · simp only [if_neg terminator, List.length_append]

/-- A text that begins with its first token. -/
theorem strtok_first (nonempty : token ≠ []) (free : ∀ c ∈ token, sep c = false) (nulFree : NulFree token) {c : UInt8}
    (stops : sep c = true ∨ c = 0) (rest : List UInt8) :
    strtok sep (token ++ c :: rest) 0 =
      ⟨some 0, if c = 0 then token.length else token.length + 1, token ++ 0 :: rest⟩ :=
  strtok_token (List.forall_mem_nil _) nonempty free nulFree stops [] rest

end SysProg.Strtok
