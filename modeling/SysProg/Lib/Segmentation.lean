import Mathlib.Data.List.Basic
import Mathlib.Data.List.Infix

/-! A stream cut into segments. Two ways to cut the same stream agree on a
segment exactly when they cut it at the same places, so the lengths of the
segments say everything about how they line up. -/
namespace SysProg.Segmentation

variable {α : Type*}

theorem prefix_append_inj {left left' right right' : List α} (same : left.length = left'.length)
    (part : left ++ right <+: left' ++ right') : left = left' ∧ right <+: right' := by
  obtain ⟨rest, joined⟩ := part
  rw [List.append_assoc] at joined
  obtain ⟨sameLeft, sameRight⟩ := List.append_inj joined same
  exact ⟨sameLeft, rest, sameRight⟩

/-- Segments received from a stream are the first segments that were sent
exactly when they are as long as these. -/
theorem segments_prefix_iff {received sent : List (List α)} (part : received.flatten <+: sent.flatten) :
    received <+: sent ↔ received.map List.length <+: sent.map List.length := by
  constructor
  · exact fun same => same.map List.length
  intro lengths
  induction received generalizing sent with
  | nil => exact List.nil_prefix
  | cons segment received ih =>
    cases sent with
    | nil => cases List.prefix_nil.mp lengths
    | cons other sent =>
      obtain ⟨sameLength, lengths⟩ := List.cons_prefix_cons.mp lengths
      obtain ⟨same, part⟩ := prefix_append_inj sameLength part
      exact List.cons_prefix_cons.mpr ⟨same, ih part lengths⟩

/-- The first of some non-empty segments are all of them once they hold the
whole stream. -/
theorem segments_complete {first all : List (List α)} (nonempty : ∀ segment ∈ all, segment ≠ [])
    (part : first <+: all) (whole : first.flatten = all.flatten) : first = all := by
  obtain ⟨rest, rfl⟩ := part
  rw [List.flatten_append] at whole
  have none_left : rest.flatten = [] := List.self_eq_append_right.mp whole
  have empty : rest = [] := by
    cases rest with
    | nil => rfl
    | cons segment rest =>
      exact absurd (List.append_eq_nil_iff.mp none_left).1 (nonempty segment (by simp))
  rw [empty, List.append_nil]

end SysProg.Segmentation
