import Mathlib.Logic.Basic

/-! Recursion on fuel. A function whose calls go to smaller states does not
depend on how much fuel it is given, as long as that exceeds the size of the
state, and unfolds like the recursion it stands for. -/
namespace SysProg.Fuel

variable {σ ρ : Type*} (size : σ → Nat) (run : Nat → σ → ρ) (turn : (σ → ρ) → σ → ρ)
  (unfolds : ∀ fuel s, run (fuel + 1) s = turn (run fuel) s)
  (shrinks : ∀ s next next', (∀ t, size t < size s → next t = next' t) → turn next s = turn next' s)
include unfolds shrinks

theorem run_enough {fuel fuel' : Nat} {s : σ} (enough : size s < fuel) (other : size s < fuel') :
    run fuel s = run fuel' s := by
  induction fuel generalizing fuel' s with
  | zero => cases enough
  | succ fuel ih =>
    obtain ⟨fuel', rfl⟩ : ∃ less, fuel' = less + 1 := ⟨fuel' - 1, by omega⟩
    rw [unfolds, unfolds]
    exact shrinks s _ _ fun t less => ih (by omega) (by omega)

theorem run_unfold (s : σ) : run (size s + 1) s = turn (fun t => run (size t + 1) t) s := by
  rw [unfolds]
  exact shrinks s _ _ fun t less => run_enough size run turn unfolds shrinks less (Nat.lt_succ_self _)

end SysProg.Fuel
