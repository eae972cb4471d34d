import Mathlib.Data.List.Basic

/-! Deterministic machines that answer one operation at a time, and what holds
along a whole run of them. `Along` says that every operation of a run meets a
condition in the state it is applied to; the rules below lift statements about
one step to runs of any length. -/
namespace SysProg.Machine

variable {ι ρ σ τ : Type*}

/-- A run answers each operation in turn and ends in the last state. -/
def run (step : ι → σ → ρ × σ) : List ι → σ → List ρ × σ
  | [], s => ([], s)
  | op :: ops, s => ((step op s).1 :: (run step ops (step op s).2).1, (run step ops (step op s).2).2)

/-- Every operation of the run meets `P` where it is applied. -/
def Along (step : ι → σ → σ) (P : ι → σ → Prop) : List ι → σ → Prop
  | [], _ => True
  | op :: ops, s => P op s ∧ Along step P ops (step op s)

instance decidableAlong (step : ι → σ → σ) (P : ι → σ → Prop) [∀ op s, Decidable (P op s)] :
    (ops : List ι) → (s : σ) → Decidable (Along step P ops s)
  | [], _ => .isTrue trivial
  | op :: ops, s =>
    have := decidableAlong step P ops (step op s)
    inferInstanceAs (Decidable (P op s ∧ Along step P ops (step op s)))

/-- An invariant of every step holds after a run. -/
theorem run_invariant {step : ι → σ → ρ × σ} (Inv : σ → Prop) (ops : List ι)
    (keeps : ∀ op s, Inv s → Inv (step op s).2) (s : σ) (start : Inv s) : Inv (run step ops s).2 := by
  induction ops generalizing s with
  | nil => exact start
  | cons op ops ih => exact ih _ (keeps op s start)

/-- Two conditions that agree wherever an invariant holds, one of which keeps
the invariant, hold along the same runs. -/
theorem along_iff_of_invariant {step : ι → σ → σ} {P Q : ι → σ → Prop} (Inv : σ → Prop) (ops : List ι)
    (agree : ∀ op ∈ ops, ∀ s, Inv s → (P op s ↔ Q op s))
    (keeps : ∀ op ∈ ops, ∀ s, Inv s → P op s → Inv (step op s))
    (s : σ) (start : Inv s) : Along step P ops s ↔ Along step Q ops s := by
  induction ops generalizing s with
  | nil => exact Iff.rfl
  | cons op ops ih =>
    have headAgree := agree op (by simp) s start
    have tail := ih (fun other member => agree other (List.mem_cons_of_mem _ member))
      (fun other member => keeps other (List.mem_cons_of_mem _ member))
    constructor
    · rintro ⟨held, rest⟩
      exact ⟨headAgree.mp held, (tail _ (keeps op (by simp) s start held)).mp rest⟩
    · rintro ⟨held, rest⟩
      have first := headAgree.mpr held
      exact ⟨first, (tail _ (keeps op (by simp) s start first)).mpr rest⟩

/-- A condition on one component of a paired machine is a condition on that
component's own run. -/
theorem along_fst (left : ι → σ → σ) (right : ι → τ → τ) (P : ι → σ → Prop) (ops : List ι) (s : σ × τ) :
    Along (fun op (s : σ × τ) => (left op s.1, right op s.2)) (fun op s => P op s.1) ops s ↔
      Along left P ops s.1 := by
  induction ops generalizing s with
  | nil => exact Iff.rfl
  | cons op ops ih => exact and_congr Iff.rfl (ih _)

/-- Two machines whose related states answer alike and stay related answer
every run alike. -/
theorem run_eq_of_simulation {left : ι → σ → ρ × σ} {right : ι → τ → ρ × τ} (R : σ → τ → Prop)
    (sameAnswer : ∀ op s t, R s t → (left op s).1 = (right op t).1)
    (related : ∀ op s t, R s t → R (left op s).2 (right op t).2)
    (ops : List ι) (s : σ) (t : τ) (start : R s t) : (run left ops s).1 = (run right ops t).1 := by
  induction ops generalizing s t with
  | nil => rfl
  | cons op ops ih =>
    simp only [run, sameAnswer op s t start, ih _ _ (related op s t start)]

end SysProg.Machine
