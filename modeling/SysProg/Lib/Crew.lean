import Mathlib.Data.List.Perm.Basic

/-! A list of agents of which one at a time moves on. What is counted or
collected over all of them changes by what the one had and has. -/
namespace SysProg.Crew

variable {α β : Type*} {crew : List α} {i : Nat} {agent : α}

/-- The agent at a position and all the others. -/
theorem perm_move (place : crew[i]? = some agent) :
    ∃ others, crew.Perm (agent :: others) ∧ ∀ moved, (crew.set i moved).Perm (moved :: others) := by
  obtain ⟨inside, rfl⟩ := List.getElem?_eq_some_iff.mp place
  exact ⟨crew.eraseIdx i, (List.getElem_cons_eraseIdx_perm inside).symm, List.set_perm_cons_eraseIdx inside⟩

theorem countP_move (p : α → Bool) (place : crew[i]? = some agent) (moved : α) :
    (crew.set i moved).countP p + (if p agent then 1 else 0) = crew.countP p + if p moved then 1 else 0 := by
  obtain ⟨others, before, after⟩ := perm_move place
  rw [before.countP_eq, (after moved).countP_eq, List.countP_cons, List.countP_cons]
  omega

theorem collect_move (f : α → Option β) (place : crew[i]? = some agent) (moved : α) :
    ((f agent).toList ++ (crew.set i moved).filterMap f).Perm ((f moved).toList ++ crew.filterMap f) := by
  obtain ⟨others, before, after⟩ := perm_move place
  have split (a : α) : (a :: others).filterMap f = (f a).toList ++ others.filterMap f := by
    cases value : f a with
    | none => rw [List.filterMap_cons_none value]; rfl
    | some b => rw [List.filterMap_cons_some value]; rfl
  have left := (after moved).filterMap f
  have right := before.filterMap f
  rw [split] at left right
  refine (left.append_left _).trans (.trans ?_ (right.symm.append_left _))
  rw [← List.append_assoc, ← List.append_assoc]
  exact List.perm_append_comm.append_right _

/-- What one agent takes from a store or gives back to it stays in the whole. -/
theorem hand_over (f : α → Option β) {store store' : List β} (place : crew[i]? = some agent) (moved : α)
    (handed : ((f moved).toList ++ store').Perm ((f agent).toList ++ store)) :
    ((crew.set i moved).filterMap f ++ store').Perm (crew.filterMap f ++ store) := by
  have collected := collect_move f place moved
  -- what the agent had cancels on both sides
  refine (List.perm_append_left_iff (f agent).toList).mp ?_
  calc (f agent).toList ++ ((crew.set i moved).filterMap f ++ store')
    _ = (f agent).toList ++ (crew.set i moved).filterMap f ++ store' := (List.append_assoc ..).symm
    List.Perm _ ((f moved).toList ++ crew.filterMap f ++ store') := collected.append_right _
    List.Perm _ (crew.filterMap f ++ (f moved).toList ++ store') := List.perm_append_comm.append_right _
    _ = crew.filterMap f ++ ((f moved).toList ++ store') := List.append_assoc ..
    List.Perm _ (crew.filterMap f ++ ((f agent).toList ++ store)) := handed.append_left _
    _ = crew.filterMap f ++ (f agent).toList ++ store := (List.append_assoc ..).symm
    List.Perm _ ((f agent).toList ++ crew.filterMap f ++ store) := List.perm_append_comm.append_right _
    _ = (f agent).toList ++ (crew.filterMap f ++ store) := List.append_assoc ..

section Owners
variable {p : α → Bool} {owner owner' : Option Nat}
  (owns : ∀ j, owner = some j ↔ ∃ other, crew[j]? = some other ∧ p other = true)
include owns

theorem owner_iff (place : crew[i]? = some agent) : owner = some i ↔ p agent = true := by
  rw [owns, place]
  constructor
  · rintro ⟨other, same, holds⟩
    rwa [Option.some.inj same]
  · exact fun holds => ⟨agent, rfl, holds⟩

/-- A lock is left alone, taken when nobody has it, or given back by its owner. -/
theorem owner_move (place : crew[i]? = some agent) (moved : α)
    (guarded : owner' = owner ∧ p moved = p agent ∨ owner = none ∧ owner' = some i ∧ p moved = true ∨
      p agent = true ∧ owner' = none ∧ p moved = false) (j : Nat) :
    owner' = some j ↔ ∃ other, (crew.set i moved)[j]? = some other ∧ p other = true := by
  have mine := owner_iff owns place
  by_cases same : i = j
  · subst same
    rw [List.getElem?_set_self (List.getElem?_eq_some_iff.mp place).1]
    have now : (∃ other, some moved = some other ∧ p other = true) ↔ p moved = true :=
      ⟨fun ⟨other, found, holds⟩ => by rwa [Option.some.inj found], fun holds => ⟨moved, rfl, holds⟩⟩
    rw [now]
    rcases guarded with ⟨rfl, sameLock⟩ | ⟨-, rfl, locked⟩ | ⟨-, rfl, unlocked⟩
    · rw [mine, sameLock]
    · exact iff_of_true rfl locked
    · exact iff_of_false (fun impossible => by cases impossible) (by rw [unlocked]; exact Bool.false_ne_true)
  · rw [List.getElem?_set_ne same, ← owns]
    rcases guarded with ⟨rfl, -⟩ | ⟨unowned, rfl, -⟩ | ⟨locked, rfl, -⟩
    · rfl
    · rw [unowned]
      exact iff_of_false (fun owned => same (Option.some.inj owned)) (fun impossible => by cases impossible)
    · rw [mine.mpr locked]
      exact iff_of_false (fun impossible => by cases impossible) (fun owned => same (Option.some.inj owned))

end Owners

/-- Each agent that has something to collect is one that counts. -/
theorem length_collect_le (f : α → Option β) (p : α → Bool) (counts : ∀ a, (f a).isSome → p a = true)
    (crew : List α) : (crew.filterMap f).length ≤ crew.countP p := by
  induction crew with
  | nil => exact Nat.le_refl _
  | cons a rest ih =>
    rw [List.countP_cons]
    cases value : f a with
    | none =>
      rw [List.filterMap_cons_none value]
      exact Nat.le_trans ih (Nat.le_add_right ..)
    | some b =>
      rw [List.filterMap_cons_some value, List.length_cons, if_pos (counts a (by rw [value]; rfl))]
      exact Nat.succ_le_succ ih

/-- With an agent that counts and has nothing, fewer are collected than count. -/
theorem length_collect_lt (f : α → Option β) (p : α → Bool) (counts : ∀ a, (f a).isSome → p a = true)
    (place : crew[i]? = some agent) (counted : p agent = true) (nothing : f agent = none) :
    (crew.filterMap f).length < crew.countP p := by
  obtain ⟨others, before, -⟩ := perm_move place
  rw [(before.filterMap f).length_eq, before.countP_eq, List.filterMap_cons_none nothing, List.countP_cons,
    if_pos counted]
  exact Nat.lt_succ_of_le (length_collect_le f p counts others)

/-- Nothing is collected from two agents when all that is collected differs. -/
theorem same_of_nodup {f : α → Option β} {other : α} {j : Nat} {b : β} (nodup : (crew.filterMap f).Nodup)
    (place : crew[i]? = some agent) (place' : crew[j]? = some other) (has : f agent = some b)
    (has' : f other = some b) : i = j := by
  obtain ⟨inside, rfl⟩ := List.getElem?_eq_some_iff.mp place
  obtain ⟨inside', rfl⟩ := List.getElem?_eq_some_iff.mp place'
  have apart := List.pairwise_iff_getElem.mp (List.pairwise_filterMap.mp nodup)
  rcases Nat.lt_trichotomy i j with before | same | behind
  · exact absurd rfl (apart i j inside inside' before b has b has')
  · exact same
  · exact absurd rfl (apart j i inside' inside behind b has' b has)

end SysProg.Crew
