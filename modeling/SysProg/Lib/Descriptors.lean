import Mathlib.Logic.Function.Basic

/-! Descriptor tables of processes: what `dup2` and `close` do to one, and what
a process that only duplicates and closes ends up with. -/
namespace SysProg.Descriptors

variable {φ : Type*}

/-- The open file behind each descriptor. -/
abbrev Table (φ : Type*) := Nat → Option φ

inductive Call where
  | dup2 (old new : Nat)
  | close (fd : Nat)
  deriving DecidableEq

/-- A call on a descriptor that is not open changes nothing. -/
def Call.apply (call : Call) (table : Table φ) : Table φ :=
  match call with
  | .dup2 old new => match table old with
    | none => table
    | some file => Function.update table new (some file)
  | .close fd => Function.update table fd none

def applyAll (calls : List Call) (table : Table φ) : Table φ :=
  calls.foldl (fun table call => call.apply table) table

@[simp] theorem applyAll_nil (table : Table φ) : applyAll [] table = table := rfl

@[simp] theorem applyAll_cons (call : Call) (calls : List Call) (table : Table φ) :
    applyAll (call :: calls) table = applyAll calls (call.apply table) := rfl

theorem applyAll_append (first later : List Call) (table : Table φ) :
    applyAll (first ++ later) table = applyAll later (applyAll first table) :=
  List.foldl_append ..

/-- One more call of a program. -/
theorem applyAll_take_succ {calls : List Call} (next : calls[i]? = some call) (table : Table φ) :
    applyAll (calls.take (i + 1)) table = call.apply (applyAll (calls.take i) table) := by
  rw [List.take_add_one, next, Option.toList_some, applyAll_append]
  rfl

theorem dup2_open {table : Table φ} (opened : table old = some file) :
    (Call.dup2 old new).apply table = Function.update table new (some file) := by
  simp only [Call.apply, opened]

/-- Closing a list of descriptors closes these and no others. -/
theorem close_all (fds : List Nat) (table : Table φ) (fd : Nat) :
    applyAll (fds.map Call.close) table fd = if fd ∈ fds then none else table fd := by
  induction fds generalizing table with
  | nil => simp
  | cons first rest ih =>
    rw [List.map_cons, applyAll_cons, ih]
    by_cases later : fd ∈ rest
    · simp [later]
    · by_cases same : fd = first
      · simp [same, Call.apply]
      · simp [later, same, Call.apply]

/-- Duplicating and closing bring no file that was not there. -/
theorem applyAll_origin {calls : List Call} {table : Table φ} (held : applyAll calls table fd = some file) :
    ∃ origin, table origin = some file := by
  induction calls generalizing table with
  | nil => exact ⟨fd, held⟩
  | cons call calls ih =>
    obtain ⟨later, held⟩ : ∃ later, call.apply table later = some file := ih held
    cases call with
    | dup2 old new =>
      cases opened : table old with
      | none =>
        simp only [Call.apply, opened] at held
        exact ⟨later, held⟩
      | some copied =>
        rw [dup2_open opened, Function.update_apply] at held
        split at held
        · exact ⟨old, opened.trans held⟩
        · exact ⟨later, held⟩
    | close closed =>
      rw [Call.apply, Function.update_apply] at held
      split at held
      · cases held
      · exact ⟨later, held⟩

/-! ### Calls that keep off some files -/

/-- The descriptors a call is about. -/
def Call.descriptors : Call → List Nat
  | .dup2 old new => [old, new]
  | .close fd => [fd]

/-- The call is about descriptors behind which there is no file of a kind. -/
def Spares (P : φ → Prop) (table : Table φ) (call : Call) : Prop :=
  ∀ fd ∈ call.descriptors, ∀ file, table fd = some file → ¬ P file

/-- Both tables have the files of a kind on the same descriptors. -/
def SameOn (P : φ → Prop) (table other : Table φ) : Prop :=
  ∀ fd file, P file → (table fd = some file ↔ other fd = some file)

theorem SameOn.refl (P : φ → Prop) (table : Table φ) : SameOn P table table := fun _ _ _ => Iff.rfl

theorem SameOn.trans {P : φ → Prop} {first second third : Table φ} (left : SameOn P first second)
    (right : SameOn P second third) : SameOn P first third :=
  fun fd file kind => (left fd file kind).trans (right fd file kind)

theorem Spares.of_sameOn {P : φ → Prop} {table other : Table φ} {call : Call} (spares : Spares P table call)
    (same : SameOn P other table) : Spares P other call :=
  fun fd mentioned file held kind => spares fd mentioned file ((same fd file kind).mp held) kind

/-- A call that keeps off some files leaves them where they are. -/
theorem Spares.sameOn {P : φ → Prop} {table : Table φ} {call : Call} (spares : Spares P table call) :
    SameOn P (call.apply table) table := by
  intro fd file kind
  cases call with
  | dup2 old new =>
    have fromOld : ∀ file, table old = some file → ¬ P file := spares old (by simp [Call.descriptors])
    have ontoNew : ∀ file, table new = some file → ¬ P file := spares new (by simp [Call.descriptors])
    cases opened : table old with
    | none => simp only [Call.apply, opened]
    | some copied =>
      rw [dup2_open opened, Function.update_apply]
      split
      next same =>
        rw [Option.some.injEq, same]
        refine iff_of_false ?_ fun held => ontoNew file held kind
        rintro rfl
        exact fromOld copied opened kind
      next => exact Iff.rfl
  | close closed =>
    have spared : ∀ file, table closed = some file → ¬ P file := spares closed (by simp [Call.descriptors])
    simp only [Call.apply, Function.update_apply]
    split
    next same =>
      rw [same]
      exact iff_of_false (by simp) fun held => spared file held kind
    next => exact Iff.rfl

end SysProg.Descriptors
