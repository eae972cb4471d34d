import Mathlib.Logic.Basic

/-! `while` loops over an explicit state. A loop carries a measure that every
turn of its body makes smaller, so it can be unfolded like the statement it
stands for, and what a turn keeps or relates is kept or related by the whole
loop. -/
namespace SysProg.WhileLoop

variable {σ τ : Type*}

/-- A loop: its condition, its body, and why it ends. -/
structure Loop (σ : Type*) where
  guard : σ → Bool
  step : σ → σ
  size : σ → Nat
  progress : ∀ s, guard s = true → size (step s) < size s

/-- At most `fuel` turns of a body. -/
def turns (guard : σ → Bool) (step : σ → σ) : Nat → σ → σ
  | 0, s => s
  | fuel + 1, s => if guard s then turns guard step fuel (step s) else s

def Loop.run (loop : Loop σ) (s : σ) : σ := turns loop.guard loop.step (loop.size s) s

private theorem turns_enough (loop : Loop σ) (s : σ) (enough : loop.size s ≤ fuel) (other : loop.size s ≤ fuel') :
    turns loop.guard loop.step fuel s = turns loop.guard loop.step fuel' s := by
  induction fuel generalizing fuel' s with
  | zero =>
    have stopped : loop.guard s ≠ true := fun more => by
      have := loop.progress s more
      omega
    cases fuel' with
    | zero => rfl
    | succ fuel' => simp [turns, stopped]
  | succ fuel ih =>
    by_cases more : loop.guard s = true
    · have less := loop.progress s more
      obtain ⟨fuel', rfl⟩ : ∃ fewer, fuel' = fewer + 1 := ⟨fuel' - 1, by omega⟩
      simp only [turns, more, if_true]
      exact ih _ (by omega) (by omega)
    · cases fuel' with
      | zero => simp [turns, more]
      | succ fuel' => simp [turns, more]

theorem run_turn (loop : Loop σ) {s : σ} (more : loop.guard s = true) :
    loop.run s = loop.run (loop.step s) := by
  have less := loop.progress s more
  obtain ⟨fuel, size⟩ : ∃ fuel, loop.size s = fuel + 1 := ⟨loop.size s - 1, by omega⟩
  rw [Loop.run, size, turns, if_pos more]
  exact turns_enough loop _ (by omega) (Nat.le_refl _)

theorem run_done (loop : Loop σ) {s : σ} (done : loop.guard s = false) : loop.run s = s := by
  rw [Loop.run]
  cases loop.size s with
  | zero => rfl
  | succ fuel => simp [turns, done]

/-- What every turn keeps holds after the loop, together with the negated
condition. -/
theorem run_keeps (loop : Loop σ) (Inv : σ → Prop)
    (keeps : ∀ s, loop.guard s = true → Inv s → Inv (loop.step s)) {s : σ} (start : Inv s) :
    Inv (loop.run s) ∧ loop.guard (loop.run s) = false := by
  generalize bound : loop.size s = size
  induction size using Nat.strongRecOn generalizing s with
  | _ size ih =>
    cases more : loop.guard s with
    | false =>
      rw [run_done loop more]
      exact ⟨start, more⟩
    | true =>
      rw [run_turn loop more]
      exact ih _ (bound ▸ loop.progress s more) (keeps s more start) rfl

/-- Two loops that take related turns as long as one of them goes on end in
related states. -/
theorem run_related (left : Loop σ) (right : Loop τ) (R : σ → τ → Prop)
    (sameGuard : ∀ s t, R s t → left.guard s = right.guard t)
    (related : ∀ s t, left.guard s = true → R s t → R (left.step s) (right.step t))
    {s : σ} {t : τ} (start : R s t) : R (left.run s) (right.run t) := by
  generalize bound : left.size s = size
  induction size using Nat.strongRecOn generalizing s t with
  | _ size ih =>
    cases more : left.guard s with
    | false =>
      rw [run_done left more, run_done right ((sameGuard s t start).symm.trans more)]
      exact start
    | true =>
      rw [run_turn left more, run_turn right ((sameGuard s t start).symm.trans more)]
      exact ih _ (bound ▸ left.progress s more) (related s t more start) rfl

/-- The states a loop comes through. -/
inductive Loop.Passes (loop : Loop σ) (s : σ) : σ → Prop where
  | start : loop.Passes s s
  | turn (passes : loop.Passes s t) (more : loop.guard t = true) : loop.Passes s (loop.step t)

theorem Loop.Passes.first {loop : Loop σ} {s t : σ} (passes : loop.Passes s t) :
    t = s ∨ loop.guard s = true ∧ loop.Passes (loop.step s) t := by
  induction passes with
  | start => exact .inl rfl
  | turn _ more ih =>
    rcases ih with rfl | ⟨first, later⟩
    · exact .inr ⟨more, .start⟩
    · exact .inr ⟨first, .turn later more⟩

theorem Loop.Passes.later {loop : Loop σ} {s t : σ} (more : loop.guard s = true)
    (passes : loop.Passes (loop.step s) t) : loop.Passes s t := by
  induction passes with
  | start => exact .turn .start more
  | turn _ again ih => exact .turn ih again

/-- A property that holds where a loop stops, fails where a turn is not a good
one, and is carried over every good turn, holds of a state exactly when all the
turns from there on are good. -/
theorem run_good_iff (loop : Loop σ) {Q Good : σ → Prop} (done : ∀ s, loop.guard s = false → Q s)
    (good : ∀ s, loop.guard s = true → Good s → (Q s ↔ Q (loop.step s)))
    (bad : ∀ s, loop.guard s = true → ¬ Good s → ¬ Q s) (s : σ) :
    Q s ↔ ∀ t, loop.Passes s t → loop.guard t = true → Good t := by
  generalize bound : loop.size s = size
  induction size using Nat.strongRecOn generalizing s with
  | _ size ih =>
    cases more : loop.guard s with
    | false =>
      refine iff_of_true (done s more) fun t passes again => ?_
      rcases passes.first with rfl | ⟨first, -⟩
      · rw [more] at again
        cases again
      · rw [more] at first
        cases first
    | true =>
      by_cases here : Good s
      · rw [good s more here, ih _ (bound ▸ loop.progress s more) _ rfl]
        constructor
        · intro later t passes again
          rcases passes.first with rfl | ⟨-, behind⟩
          · exact here
          · exact later t behind again
        · exact fun all t passes again => all t (passes.later more) again
      · exact iff_of_false (bad s more here) fun all => here (all s .start more)

/-- What at most `fuel` turns of a body weigh together. -/
def tallied (guard : σ → Bool) (step : σ → σ) (weigh : σ → Nat) : Nat → σ → Nat
  | 0, _ => 0
  | fuel + 1, s => if guard s then weigh s + tallied guard step weigh fuel (step s) else 0

def Loop.tally (loop : Loop σ) (weigh : σ → Nat) (s : σ) : Nat :=
  tallied loop.guard loop.step weigh (loop.size s) s

/-- Books that every turn balances up to what it weighs are balanced by the
loop up to the tally of its turns. -/
theorem run_balances (loop : Loop σ) (credit debit weigh : σ → Nat)
    (balances : ∀ s, loop.guard s = true →
      credit (loop.step s) + debit s = credit s + debit (loop.step s) + weigh s) (s : σ) :
    credit (loop.run s) + debit s = credit s + debit (loop.run s) + loop.tally weigh s := by
  rw [Loop.run, Loop.tally]
  generalize loop.size s = fuel
  induction fuel generalizing s with
  | zero => simp [turns, tallied]
  | succ fuel ih =>
    cases more : loop.guard s with
    | false => simp [turns, tallied, more]
    | true =>
      have here := balances s more
      have later := ih (loop.step s)
      simp only [turns, tallied, more, if_true]
      omega

/-- A loop weighs no more than what its turns have to spend. -/
theorem tally_le (loop : Loop σ) (weigh budget : σ → Nat) (Inv : σ → Prop)
    (keeps : ∀ s, loop.guard s = true → Inv s → Inv (loop.step s))
    (spends : ∀ s, loop.guard s = true → Inv s → weigh s + budget (loop.step s) ≤ budget s) {s : σ} (start : Inv s) :
    loop.tally weigh s ≤ budget s := by
  rw [Loop.tally]
  generalize loop.size s = fuel
  induction fuel generalizing s with
  | zero => exact Nat.zero_le _
  | succ fuel ih =>
    rw [tallied]
    split
    next more => exact Nat.le_trans (Nat.add_le_add_left (ih (keeps s more start)) _) (spends s more start)
    next => exact Nat.zero_le _

end SysProg.WhileLoop
