import Mathlib.Data.List.Basic

/-! What stands at a position of a list that was appended to or updated. -/
namespace SysProg.Positions

variable {α : Type*} {last new x : α} {i j : Nat}

theorem getElem?_concat_cases {list : List α} (found : (list ++ [last])[i]? = some x) :
    list[i]? = some x ∨ i = list.length ∧ x = last := by
  rcases Nat.lt_trichotomy i list.length with less | same | more
  · exact .inl (List.getElem?_append_left less ▸ found)
  · subst same
    rw [List.getElem?_concat_length] at found
    exact .inr ⟨rfl, (Option.some.inj found).symm⟩
  · rw [List.getElem?_eq_none (by simp; omega)] at found
    cases found

theorem getElem?_set_cases {list : List α} (found : (list.set i new)[j]? = some x) :
    i = j ∧ x = new ∨ i ≠ j ∧ list[j]? = some x := by
  rw [List.getElem?_set] at found
  split at found
  next same =>
    split at found
    · exact .inl ⟨same, (Option.some.inj found).symm⟩
    · cases found
  next different => exact .inr ⟨different, found⟩

end SysProg.Positions
