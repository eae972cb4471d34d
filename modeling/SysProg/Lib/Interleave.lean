import Mathlib.Data.List.Basic
import Mathlib.Data.List.Perm.Basic

/-! Writes of several processes to one stream. Each process makes its writes
in order and a schedule picks which process is next, so a run over all
schedules is a run over all interleavings. -/
namespace SysProg.Interleave

variable {α : Type*}

/-- The stream that a schedule produces; what the schedule leaves over comes
process by process. -/
def interleave : List Nat → List (List (List α)) → List α
  | [], queues => queues.flatten.flatten
  | i :: schedule, queues => match queues.getD i [] with
    | [] => interleave schedule queues
    | write :: rest => write ++ interleave schedule (queues.set i rest)

theorem queue_split {queues : List (List (List α))} {write : List α} {rest : List (List α)}
    (next : queues.getD i [] = write :: rest) :
    ∃ before after, queues = before ++ (write :: rest) :: after ∧ queues.set i rest = before ++ rest :: after := by
  have inside : i < queues.length := by
    by_contra beyond
    rw [List.getD_eq_getElem?_getD, List.getElem?_eq_none (Nat.le_of_not_lt beyond)] at next
    cases next
  have taken : queues[i] = write :: rest := by
    rwa [List.getD_eq_getElem?_getD, List.getElem?_eq_getElem inside, Option.getD_some] at next
  refine ⟨queues.take i, queues.drop (i + 1), ?_, ?_⟩
  · rw [← taken, ← List.drop_eq_getElem_cons inside, List.take_append_drop]
  · rw [List.set_eq_take_append_cons_drop, if_pos inside]

/-- Whatever the schedule, every write is made once. -/
theorem interleave_perm (schedule : List Nat) (queues : List (List (List α))) :
    (interleave schedule queues).Perm queues.flatten.flatten := by
  induction schedule generalizing queues with
  | nil => exact .refl _
  | cons i schedule ih =>
    rw [interleave]
    cases next : queues.getD i [] with
    | nil => exact ih queues
    | cons write rest =>
      obtain ⟨before, after, split, updated⟩ := queue_split next
      have later := ih (queues.set i rest)
      rw [updated] at later
      dsimp only
      rw [updated, split]
      simp only [List.flatten_append, List.flatten_cons, List.cons_append] at later ⊢
      exact (later.append_left write).trans (List.perm_append_comm_assoc ..)

/-- A process that writes alone writes in order. -/
theorem interleave_alone (schedule : List Nat) (others : List (List (List α))) (own : List (List α))
    (silent : ∀ queue ∈ others, queue = []) : interleave schedule (others ++ [own]) = own.flatten := by
  have quiet : others.flatten = [] := List.flatten_eq_nil_iff.mpr silent
  induction schedule generalizing own with
  | nil => simp [interleave, quiet]
  | cons i schedule ih =>
    rw [interleave]
    cases next : (others ++ [own]).getD i [] with
    | nil => exact ih own
    | cons write rest =>
      have mine : i = others.length ∧ own = write :: rest := by
        rw [List.getD_eq_getElem?_getD] at next
        rcases Nat.lt_trichotomy i others.length with less | same | more
        · rw [List.getElem?_append_left less, List.getElem?_eq_getElem less, Option.getD_some,
            silent _ (List.getElem_mem less)] at next
          cases next
        · rw [same, List.getElem?_concat_length, Option.getD_some] at next
          exact ⟨same, next⟩
        · rw [List.getElem?_eq_none (by simp; omega)] at next
          cases next
      obtain ⟨rfl, rfl⟩ := mine
      dsimp only
      rw [List.set_append_right _ _ (Nat.le_refl _), Nat.sub_self, List.set_cons_zero, ih rest, List.flatten_cons]

end SysProg.Interleave
