import Mathlib.Data.List.Induction
import Mathlib.Order.WellFounded

/-! Machines whose steps may be impossible, and what their runs keep. A run is
the list of the actions taken, so an invariant may speak about the state and
about what has happened up to it. `Along` says that every action of a run meets
a condition in the state it is taken in. -/
namespace SysProg.Transition

variable {α σ : Type*} {step : σ → α → Option σ} {s next : σ}

/-- The state after some actions, if all of them were possible. -/
def run (step : σ → α → Option σ) : σ → List α → Option σ
  | s, [] => some s
  | s, action :: rest => (step s action).bind fun next => run step next rest

@[simp] theorem run_nil : run step s [] = some s := rfl

theorem run_cons_some {action : α} {rest : List α} (ran : run step s (action :: rest) = some next) :
    ∃ middle, step s action = some middle ∧ run step middle rest = some next := Option.bind_eq_some_iff.mp ran

theorem run_append (first later : List α) :
    run step s (first ++ later) = (run step s first).bind fun middle => run step middle later := by
  induction first generalizing s with
  | nil => rfl
  | cons action rest ih =>
    simp only [List.cons_append, run, Option.bind_assoc, ih]

/-- A run may be cut at any action. -/
theorem run_split {before after : List α} {action : α} (ran : run step s (before ++ action :: after) = some next) :
    ∃ middle later, run step s before = some middle ∧ step middle action = some later ∧
      run step later after = some next := by
  rw [run_append] at ran
  obtain ⟨middle, first, rest⟩ := Option.bind_eq_some_iff.mp ran
  obtain ⟨later, taken, rest⟩ := run_cons_some rest
  exact ⟨middle, later, first, taken, rest⟩

theorem run_concat {history : List α} {action : α} (ran : run step s (history ++ [action]) = some next) :
    ∃ middle, run step s history = some middle ∧ step middle action = some next := by
  obtain ⟨middle, later, first, taken, rest⟩ := run_split ran
  cases rest
  exact ⟨middle, first, taken⟩

/-- What holds of no actions, and is kept by one more action behind a history,
holds of a run. -/
theorem run_history (Inv : List α → σ → Prop) {start : σ} (init : Inv [] start)
    (keeps : ∀ history s action next, run step start history = some s → Inv history s → step s action = some next →
      Inv (history ++ [action]) next)
    {actions : List α} (ran : run step start actions = some s) : Inv actions s := by
  induction actions using List.reverseRecOn generalizing s with
  | nil =>
    cases ran
    exact init
  | append_singleton history action ih =>
    obtain ⟨middle, reached, taken⟩ := run_concat ran
    exact keeps history middle action s reached (ih reached) taken

/-- An invariant of every step holds after a run. -/
theorem run_keeps (Inv : σ → Prop) {start : σ} (init : Inv start)
    (keeps : ∀ s action next, Inv s → step s action = some next → Inv next)
    {actions : List α} (ran : run step start actions = some s) : Inv s :=
  run_history (fun _ => Inv) init (fun _ s action next _ => keeps s action next) ran

/-- A machine whose steps another machine follows: so do its runs. -/
theorem run_image {τ : Type*} {follow : τ → α → Option τ} (f : σ → τ)
    (follows : ∀ s action next, step s action = some next → follow (f s) action = some (f next))
    {actions : List α} (ran : run step s actions = some next) : run follow (f s) actions = some (f next) := by
  induction actions generalizing s with
  | nil =>
    cases ran
    rfl
  | cons action rest ih =>
    obtain ⟨middle, taken, ran⟩ := run_cons_some ran
    rw [run, follows s action middle taken, Option.bind_some, ih ran]

/-- A state without steps is the last one of a run. -/
theorem run_stuck (stuck : ∀ action, step s action = none) {actions : List α} (ran : run step s actions = some next) :
    actions = [] ∧ next = s := by
  cases actions with
  | nil => exact ⟨rfl, (Option.some.inj ran).symm⟩
  | cons action rest =>
    obtain ⟨middle, taken, -⟩ := run_cons_some ran
    rw [stuck action] at taken
    cases taken

/-! ### The end of runs -/

/-- No step is possible. -/
def Stuck (step : σ → α → Option σ) (s : σ) : Prop := ∀ action, step s action = none

/-- One state comes behind another by some step. -/
def After (step : σ → α → Option σ) (next s : σ) : Prop := ∃ action, step s action = some next

/-- No run goes on for ever from states in which each step leaves less to do. -/
theorem acc_after {β : Type*} [LT β] [WellFoundedLT β] (Inv : σ → Prop) (work : σ → β)
    (keeps : ∀ s action next, Inv s → step s action = some next → Inv next)
    (decreases : ∀ s action next, Inv s → step s action = some next → work next < work s)
    (holds : Inv s) : Acc (After step) s := by
  obtain ⟨amount, same⟩ : ∃ amount, work s = amount := ⟨_, rfl⟩
  induction amount using WellFoundedLT.induction generalizing s with
  | ind amount ih =>
    refine .intro s fun next ⟨action, taken⟩ => ?_
    exact ih _ (same ▸ decreases s action next holds taken) (keeps s action next holds taken) rfl

/-- The same when what is left to do is only bounded. -/
theorem acc_bounded (Inv : Nat → σ → Prop)
    (decreases : ∀ count s action next, Inv count s → step s action = some next → ∃ fewer < count, Inv fewer next)
    {count : Nat} (holds : Inv count s) : Acc (After step) s := by
  induction count using Nat.strongRecOn generalizing s with
  | ind count ih =>
    refine .intro s fun next ⟨action, taken⟩ => ?_
    obtain ⟨fewer, less, after⟩ := decreases count s action next holds taken
    exact ih fewer less after

/-! ### Conditions on the steps of a run -/

/-- Every action meets `ok` where it is taken. -/
def Along (step : σ → α → Option σ) (ok : σ → α → Prop) : σ → List α → Prop
  | _, [] => True
  | s, action :: rest => ok s action ∧ ∀ next, step s action = some next → Along step ok next rest

instance decidableAlong (step : σ → α → Option σ) (ok : σ → α → Prop) [∀ s action, Decidable (ok s action)] :
    (s : σ) → (actions : List α) → Decidable (Along step ok s actions)
  | _, [] => .isTrue trivial
  | s, action :: rest =>
    match taken : step s action with
    | none => decidable_of_iff (ok s action)
        ⟨fun met => ⟨met, fun next same => by rw [taken] at same; cases same⟩, And.left⟩
    | some next =>
      have := decidableAlong step ok next rest
      decidable_of_iff (ok s action ∧ Along step ok next rest)
        ⟨fun met => ⟨met.1, fun other same => by rw [taken] at same; cases same; exact met.2⟩,
          fun met => ⟨met.1, met.2 next taken⟩⟩

/-- A condition on a run and one more action. -/
theorem along_concat {ok : σ → α → Prop} {start : σ} {history : List α} {action : α}
    (ran : run step start history = some s) :
    Along step ok start (history ++ [action]) ↔ Along step ok start history ∧ ok s action := by
  induction history generalizing start with
  | nil =>
    cases ran
    exact ⟨fun meets => ⟨trivial, meets.1⟩, fun meets => ⟨meets.2, fun _ _ => trivial⟩⟩
  | cons first rest ih =>
    obtain ⟨middle, taken, ran⟩ := run_cons_some ran
    have only {P : σ → Prop} : (∀ next, step start first = some next → P next) ↔ P middle :=
      ⟨fun all => all middle taken, fun holds next same => Option.some.inj (taken.symm.trans same) ▸ holds⟩
    rw [List.cons_append, Along, Along, only, only, ih ran, and_assoc]

/-- What holds of no actions, and is kept by one more action that meets a
condition, holds of a run of such actions. -/
theorem run_history_along {ok : σ → α → Prop} (Inv : List α → σ → Prop) {start : σ} (init : Inv [] start)
    (keeps : ∀ history s action next, run step start history = some s → Inv history s → ok s action →
      step s action = some next → Inv (history ++ [action]) next)
    {actions : List α} (meets : Along step ok start actions) (ran : run step start actions = some s) :
    Inv actions s := by
  refine run_history (fun history s => Along step ok start history → Inv history s) (fun _ => init) ?_ ran meets
  intro history s action next reached held taken meets
  obtain ⟨before, met⟩ := (along_concat reached).mp meets
  exact keeps history s action next reached (held before) met taken

/-- An invariant that the steps meeting a condition keep holds after a run of
such steps. -/
theorem run_keeps_along {ok : σ → α → Prop} (Inv : σ → Prop) {start : σ} (init : Inv start)
    (keeps : ∀ s action next, Inv s → ok s action → step s action = some next → Inv next)
    {actions : List α} (meets : Along step ok start actions) (ran : run step start actions = some s) : Inv s := by
  induction actions generalizing start with
  | nil =>
    cases ran
    exact init
  | cons action rest ih =>
    obtain ⟨middle, taken, ran⟩ := run_cons_some ran
    exact ih (keeps start action middle init meets.1 taken) (meets.2 middle taken) ran

/-- A run with a step that misses the condition: the first such step starts
from a state with the invariant, and what it brings about stays. -/
theorem run_breaks {ok : σ → α → Prop} (Inv Broken : σ → Prop) {start : σ} (init : Inv start)
    (keeps : ∀ s action next, Inv s → ok s action → step s action = some next → Inv next)
    (breaks : ∀ s action next, Inv s → ¬ ok s action → step s action = some next → Broken next)
    (stays : ∀ s action next, Broken s → step s action = some next → Broken next)
    {actions : List α} (misses : ¬ Along step ok start actions) (ran : run step start actions = some s) :
    Broken s := by
  induction actions generalizing start with
  | nil => exact absurd trivial misses
  | cons action rest ih =>
    obtain ⟨middle, taken, ran⟩ := run_cons_some ran
    by_cases met : ok start action
    · refine ih (keeps start action middle init met taken) (fun meets => misses ⟨met, fun next same => ?_⟩) ran
      rw [taken] at same
      cases same
      exact meets
    · exact run_keeps Broken (breaks start action middle init met taken) stays ran

end SysProg.Transition
