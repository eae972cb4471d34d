import Mathlib.Algebra.BigOperators.Group.Finset.Piecewise
import Mathlib.Algebra.Order.BigOperators.Group.Finset
import Mathlib.Data.UInt
import SysProg.Lib.Transition

/-! `thread-rc.c` and `thread-coordination.c`: threads that count in a shared
variable, without and with a mutex around the three statements that do it. Each
access to the variable and each call is one step, and they interleave as they
like. -/
namespace SysProg.SharedCounter
open Transition Finset

/-! ### The programs -/

structure Demo where
  mutexed : Bool
  numThreads : Nat
  maxCount : Nat

def threadRc : Demo := ⟨false, 10, 10000⟩
def threadCoordination : Demo := ⟨true, 10, 10000⟩

/-- A thread stands at the test of its loop, has the mutex, has loaded the
counter and added one to its copy, has stored the copy and not unlocked yet, or
has exited. -/
inductive Thread where
  | counting (i : Nat)
  | entered (i : Nat)
  | loaded (i : Nat) (localI : Int32)
  | stored (i : Nat)
  | exited
  deriving DecidableEq

/-- `main` creates the threads and joins them, and prints the counter; it exits
at once if a thread cannot be created. -/
inductive Main where
  | creating (created : Nat)
  | joining (joined : Nat)
  | printed (value : Int32)
  | failed
  deriving DecidableEq

structure Program where
  main : Main
  threads : Nat → Thread
  mutex : Option Nat
  sharedCounter : Int32

inductive Action where
  | create
  | createFails
  | join
  | run (thread : Nat)
  deriving DecidableEq

namespace Demo

/-- How many threads there are. -/
def created (demo : Demo) : Main → Nat
  | .creating created => created
  | .joining _ => demo.numThreads
  | .printed _ | .failed => 0

end Demo

def Program.move (s : Program) (t : Nat) (thread : Thread) : Program :=
  { s with threads := Function.update s.threads t thread }

/-- One step of `thread_function`. -/
def threadFunction (demo : Demo) (s : Program) (t : Nat) : Option Program :=
  match s.threads t with
  | .counting i =>
    if i < demo.maxCount then
      if demo.mutexed then
        if s.mutex = none then some { s.move t (.entered i) with mutex := some t } else none
      else some (s.move t (.loaded i (s.sharedCounter + 1)))
    else some (s.move t .exited)
  | .entered i => some (s.move t (.loaded i (s.sharedCounter + 1)))
  | .loaded i localI =>
    some { s.move t (if demo.mutexed then .stored i else .counting (i + 1)) with sharedCounter := localI }
  | .stored i => some { s.move t (.counting (i + 1)) with mutex := none }
  | .exited => none

def step (demo : Demo) (s : Program) : Action → Option Program
  | .create =>
    match s.main with
    | .creating created =>
      if created < demo.numThreads then some { s with main := .creating (created + 1) }
      else some { s with main := .joining 0 }
    | _ => none
  | .createFails =>
    match s.main with
    | .creating created => if created < demo.numThreads then some { s with main := .failed } else none
    | _ => none
  | .join =>
    match s.main with
    | .joining joined =>
      if joined < demo.numThreads then
        if s.threads joined = .exited then some { s with main := .joining (joined + 1) } else none
      else some { s with main := .printed s.sharedCounter }
    | _ => none
  | .run t => if t < demo.created s.main then threadFunction demo s t else none

def start : Program := ⟨.creating 0, fun _ => .counting 0, none, 0⟩

/-! ### What a step can do -/

section Steps
variable {demo : Demo} {s next : Program} {action : Action}

/-- One constructor for each way through a step. -/
inductive Taken (demo : Demo) (s : Program) : Action → Program → Prop where
  | create (creating : s.main = .creating created) (more : created < demo.numThreads) :
      Taken demo s .create { s with main := .creating (created + 1) }
  | created (creating : s.main = .creating created) (all : demo.numThreads ≤ created) :
      Taken demo s .create { s with main := .joining 0 }
  | createFails (creating : s.main = .creating created) : Taken demo s .createFails { s with main := .failed }
  | join (joining : s.main = .joining joined) (more : joined < demo.numThreads)
      (exited : s.threads joined = .exited) : Taken demo s .join { s with main := .joining (joined + 1) }
  | print (joining : s.main = .joining joined) (all : demo.numThreads ≤ joined) :
      Taken demo s .join { s with main := .printed s.sharedCounter }
  | lock (there : t < demo.created s.main) (here : s.threads t = .counting i) (more : i < demo.maxCount)
      (mutexed : demo.mutexed = true) (free : s.mutex = none) :
      Taken demo s (.run t) { s.move t (.entered i) with mutex := some t }
  | load (there : t < demo.created s.main)
      (here : s.threads t = .entered i ∨ demo.mutexed = false ∧ s.threads t = .counting i ∧ i < demo.maxCount) :
      Taken demo s (.run t) (s.move t (.loaded i (s.sharedCounter + 1)))
  | store (there : t < demo.created s.main) (here : s.threads t = .loaded i localI) : Taken demo s (.run t)
      { s.move t (if demo.mutexed then .stored i else .counting (i + 1)) with sharedCounter := localI }
  | unlock (there : t < demo.created s.main) (here : s.threads t = .stored i) :
      Taken demo s (.run t) { s.move t (.counting (i + 1)) with mutex := none }
  | exit (there : t < demo.created s.main) (here : s.threads t = .counting i) (done : demo.maxCount ≤ i) :
      Taken demo s (.run t) (s.move t .exited)

theorem threadFunction_taken (there : t < demo.created s.main) (taken : threadFunction demo s t = some next) :
    Taken demo s (.run t) next := by
  simp only [threadFunction] at taken
  split at taken
  next i here =>
    split at taken
    next more =>
      split at taken
      next mutexed =>
        simp only [Option.ite_none_right_eq_some] at taken
        obtain ⟨free, taken⟩ := taken
        cases taken
        exact .lock there here more mutexed free
      next free =>
        cases taken
        exact .load there (.inr ⟨by simpa using free, here, more⟩)
    next done =>
      cases taken
      exact .exit there here (not_lt.mp done)
  next here =>
    cases taken
    exact .load there (.inl here)
  next here =>
    cases taken
    exact .store there here
  next here =>
    cases taken
    exact .unlock there here
  next => cases taken

theorem step_taken (taken : step demo s action = some next) : Taken demo s action next := by
  cases action with
  | create =>
    simp only [step] at taken
    split at taken
    next creating =>
      split at taken
      next more =>
        cases taken
        exact .create creating more
      next all =>
        cases taken
        exact .created creating (not_lt.mp all)
    next => cases taken
  | createFails =>
    simp only [step] at taken
    split at taken
    next creating =>
      simp only [Option.ite_none_right_eq_some] at taken
      obtain ⟨-, taken⟩ := taken
      cases taken
      exact .createFails creating
    next => cases taken
  | join =>
    simp only [step] at taken
    split at taken
    next joining =>
      split at taken
      next more =>
        simp only [Option.ite_none_right_eq_some] at taken
        obtain ⟨exited, taken⟩ := taken
        cases taken
        exact .join joining more exited
      next all =>
        cases taken
        exact .print joining (not_lt.mp all)
    next => cases taken
  | run t =>
    simp only [step, Option.ite_none_right_eq_some] at taken
    exact threadFunction_taken taken.1 taken.2

end Steps

/-! ### Threads and their turns -/

/-- How often a thread has stored the counter. -/
def Demo.turns (demo : Demo) : Thread → Nat
  | .counting i | .entered i | .loaded i _ => i
  | .stored i => i + 1
  | .exited => demo.maxCount

/-- A thread is inside its loop, and has the mutex only if there is one. -/
def Demo.Inside (demo : Demo) : Thread → Prop
  | .counting i => i ≤ demo.maxCount
  | .entered i | .stored i => i < demo.maxCount ∧ demo.mutexed = true
  | .loaded i _ => i < demo.maxCount
  | .exited => True

def Demo.allTurns (demo : Demo) (s : Program) : Nat := ∑ t ∈ range demo.numThreads, demo.turns (s.threads t)

section Turns
variable {demo : Demo} {s next : Program} {action : Action}

/-- A sum over the threads when one of them moves. -/
theorem sum_move (f : Thread → Nat) (thread : Thread) (there : t < num) :
    ∑ u ∈ range num, f ((s.move t thread).threads u) + f (s.threads t) =
      ∑ u ∈ range num, f (s.threads u) + f thread := by
  have member := mem_range.mpr there
  have moved : ∀ u, f ((s.move t thread).threads u) = Function.update (f ∘ s.threads) t (f thread) u := by
    intro u
    simp only [Program.move, Function.update_apply]
    split <;> rfl
  simp only [moved]
  rw [sum_update_of_mem member, sum_eq_add_sum_sdiff_singleton_of_mem member (fun u => f (s.threads u))]
  simp only [Function.comp_apply]
  omega

theorem allTurns_exited (exited : ∀ t < demo.numThreads, s.threads t = .exited) :
    demo.allTurns s = demo.numThreads * demo.maxCount := by
  have each : ∀ t ∈ range demo.numThreads, demo.turns (s.threads t) = demo.maxCount := by
    intro t member
    rw [exited t (mem_range.mp member), Demo.turns]
  rw [Demo.allTurns, sum_congr rfl each]
  simp

end Turns

/-! ### What every run keeps -/

/-- A thread is between its load and the unlock behind its store. -/
def Thread.busy : Thread → Prop
  | .entered _ | .loaded _ _ | .stored _ => True
  | .counting _ | .exited => False

/-- What `main` has seen of the threads. -/
def Demo.Follows (demo : Demo) (s : Program) : Prop :=
  match s.main with
  | .creating created => created ≤ demo.numThreads
  | .joining joined => joined ≤ demo.numThreads ∧ ∀ t < joined, s.threads t = .exited
  | .printed _ => ∀ t < demo.numThreads, s.threads t = .exited
  | .failed => True

structure Kept (demo : Demo) (s : Program) : Prop where
  inside : ∀ t, demo.Inside (s.threads t)
  created : ∀ t, (s.threads t).busy → t < demo.numThreads
  follows : demo.Follows s
  holder : demo.mutexed = true → ∀ t, (s.threads t).busy ↔ s.mutex = some t

section Keeping
variable {demo : Demo} {s next : Program} {action : Action}

theorem kept_start : Kept demo start :=
  ⟨fun _ => Nat.zero_le _, fun _ busy => busy.elim, Nat.zero_le _,
    fun _ t => ⟨fun busy => busy.elim, fun held => by cases held⟩⟩

theorem created_le (follows : demo.Follows s) : demo.created s.main ≤ demo.numThreads := by
  simp only [Demo.Follows] at follows
  cases main : s.main <;> simp only [main] at follows <;> simp only [Demo.created] <;> omega

@[simp] theorem move_main (t : Nat) (thread : Thread) : (s.move t thread).main = s.main := rfl
@[simp] theorem move_threads (t : Nat) (thread : Thread) :
    (s.move t thread).threads = Function.update s.threads t thread := rfl
@[simp] theorem move_mutex (t : Nat) (thread : Thread) : (s.move t thread).mutex = s.mutex := rfl
@[simp] theorem move_sharedCounter (t : Nat) (thread : Thread) :
    (s.move t thread).sharedCounter = s.sharedCounter := rfl

/-- A thread that is no longer at its exit has not been seen there by `main`. -/
theorem follows_move (follows : demo.Follows s) (there : t < demo.created s.main) (running : s.threads t ≠ .exited)
    (sameMain : next.main = s.main) (moved : next.threads = Function.update s.threads t thread) :
    demo.Follows next := by
  simp only [Demo.Follows, sameMain] at follows ⊢
  cases main : s.main with
  | creating => simpa only [main] using follows
  | failed => trivial
  | printed => simp [main, Demo.created] at there
  | joining joined =>
    simp only [main] at follows ⊢
    refine ⟨follows.1, fun u before => ?_⟩
    have other : u ≠ t := by
      rintro rfl
      exact running (follows.2 u before)
    rw [moved, Function.update_of_ne other]
    exact follows.2 u before

/-- A thread moves to another place in its loop. -/
theorem kept_move (kept : Kept demo s) (there : t < demo.created s.main) (running : s.threads t ≠ .exited)
    (sameMain : next.main = s.main) (moved : next.threads = Function.update s.threads t thread)
    (inside : demo.Inside thread) (holder : demo.mutexed = true → (thread.busy ↔ next.mutex = some t) ∧
      ∀ u, u ≠ t → (s.mutex = some u ↔ next.mutex = some u)) : Kept demo next := by
  have within : t < demo.numThreads := there.trans_le (created_le kept.follows)
  refine ⟨fun u => ?_, fun u busy => ?_, follows_move kept.follows there running sameMain moved, fun mutexed u => ?_⟩
  · by_cases same : u = t
    · rwa [moved, same, Function.update_self]
    · rw [moved, Function.update_of_ne same]
      exact kept.inside u
  · by_cases same : u = t
    · rwa [same]
    · rw [moved, Function.update_of_ne same] at busy
      exact kept.created u busy
  · by_cases same : u = t
    · rw [moved, same, Function.update_self]
      exact (holder mutexed).1
    · rw [moved, Function.update_of_ne same]
      exact (kept.holder mutexed u).trans ((holder mutexed).2 u same)

theorem kept_step (kept : Kept demo s) (taken : step demo s action = some next) : Kept demo next := by
  have follows := kept.follows
  simp only [Demo.Follows] at follows
  cases step_taken taken with
  | create creating more => exact ⟨kept.inside, kept.created, more, kept.holder⟩
  | created creating all =>
    exact ⟨kept.inside, kept.created, ⟨Nat.zero_le _, fun t before => absurd before (Nat.not_lt_zero t)⟩, kept.holder⟩
  | createFails creating => exact ⟨kept.inside, kept.created, trivial, kept.holder⟩
  | join joining more exited =>
    simp only [joining] at follows
    refine ⟨kept.inside, kept.created, ⟨more, fun t before => ?_⟩, kept.holder⟩
    rcases Nat.lt_succ_iff_lt_or_eq.mp before with earlier | rfl
    · exact follows.2 t earlier
    · exact exited
  | print joining all =>
    simp only [joining] at follows
    exact ⟨kept.inside, kept.created, fun t before => follows.2 t (before.trans_le all), kept.holder⟩
  | @lock t i there here more mutexed free =>
    refine kept_move kept there (by simp [here]) rfl rfl ⟨more, mutexed⟩ fun _ =>
      ⟨by simp [Thread.busy], fun u other => ?_⟩
    simp [free, Ne.symm other]
  | @load t i there here =>
    have within : i < demo.maxCount ∧ s.threads t ≠ .exited := by
      rcases here with entered | ⟨-, counting, more⟩
      · have inside := kept.inside t
        rw [entered] at inside ⊢
        exact ⟨inside.1, by simp⟩
      · exact ⟨more, by simp [counting]⟩
    refine kept_move kept there within.2 rfl rfl within.1 fun mutexed => ⟨?_, fun u _ => Iff.rfl⟩
    rcases here with entered | ⟨unlocked, -⟩
    · have held := kept.holder mutexed t
      rw [entered] at held
      exact held
    · rw [mutexed] at unlocked
      cases unlocked
  | @store t i localI there here =>
    have inside := kept.inside t
    rw [here] at inside
    refine kept_move kept there (by simp [here]) rfl rfl ?_ fun mutexed => ⟨?_, fun u _ => Iff.rfl⟩
    · split
      · exact ⟨inside, ‹_›⟩
      · exact inside
    · have held := kept.holder mutexed t
      rw [here] at held
      simp only [mutexed, if_true]
      exact held
  | @unlock t i there here =>
    have inside := kept.inside t
    rw [here] at inside
    refine kept_move kept there (by simp [here]) rfl rfl inside.1 fun mutexed =>
      ⟨by simp [Thread.busy], fun u other => ?_⟩
    have held := (kept.holder mutexed t).mp (by rw [here]; trivial)
    simp [held, Ne.symm other]
  | @exit t i there here done =>
    refine kept_move kept there (by simp [here]) rfl rfl trivial fun mutexed => ⟨?_, fun u _ => Iff.rfl⟩
    have held := kept.holder mutexed t
    rw [here] at held
    exact held

end Keeping

/-! ### No run is stuck or endless -/

/-- The steps a thread has left, if it is inside its loop. -/
def Demo.stepsLeft (demo : Demo) : Thread → Nat
  | .counting i => 4 * (demo.maxCount - i) + 1
  | .entered i => 4 * (demo.maxCount - i)
  | .loaded i _ => 4 * (demo.maxCount - i) - 1
  | .stored i => 4 * (demo.maxCount - i) - 2
  | .exited => 0

def Demo.mainLeft (demo : Demo) : Main → Nat
  | .creating created => 2 * demo.numThreads + 3 - created
  | .joining joined => demo.numThreads + 1 - joined
  | .printed _ | .failed => 0

def Demo.work (demo : Demo) (s : Program) : Nat :=
  demo.mainLeft s.main + ∑ t ∈ range demo.numThreads, demo.stepsLeft (s.threads t)

/-- The process has ended. -/
def Ended (s : Program) : Prop := (∃ value, s.main = .printed value) ∨ s.main = .failed

section Ending
variable {demo : Demo} {s next : Program} {action : Action}

theorem work_move (kept : Kept demo s) (there : t < demo.created s.main) (sameMain : next.main = s.main)
    (moved : next.threads = Function.update s.threads t thread)
    (less : demo.stepsLeft thread < demo.stepsLeft (s.threads t)) : demo.work next < demo.work s := by
  have within : t < demo.numThreads := there.trans_le (created_le kept.follows)
  have sums := sum_move (s := s) demo.stepsLeft thread within
  simp only [move_threads, ← moved] at sums
  simp only [Demo.work, sameMain]
  omega

theorem work_decreases (kept : Kept demo s) (taken : step demo s action = some next) :
    demo.work next < demo.work s := by
  have follows := kept.follows
  simp only [Demo.Follows] at follows
  cases step_taken taken with
  | create creating more | created creating all | createFails creating =>
    simp only [creating] at follows
    simp only [Demo.work, Demo.mainLeft, creating]
    omega
  | join joining more | print joining all =>
    simp only [joining] at follows
    simp only [Demo.work, Demo.mainLeft, joining]
    omega
  | lock there here more =>
    refine work_move kept there rfl rfl ?_
    simp only [here, Demo.stepsLeft]
    omega
  | @load t i there here =>
    refine work_move kept there rfl rfl ?_
    rcases here with here | ⟨-, here, more⟩
    · have inside := kept.inside t
      rw [here] at inside
      have more := inside.1
      simp only [here, Demo.stepsLeft]
      omega
    · simp only [here, Demo.stepsLeft]
      omega
  | @store t i localI there here =>
    refine work_move kept there rfl rfl ?_
    have more : i < demo.maxCount := by simpa only [here, Demo.Inside] using kept.inside t
    rw [here]
    split <;> simp only [Demo.stepsLeft] <;> omega
  | @unlock t i there here =>
    refine work_move kept there rfl rfl ?_
    have inside := kept.inside t
    rw [here] at inside
    have more := inside.1
    simp only [here, Demo.stepsLeft]
    omega
  | exit there here done =>
    refine work_move kept there rfl rfl ?_
    simp only [here, Demo.stepsLeft]
    omega

/-- A thread that has the mutex, or needs none, can go on. -/
theorem busy_moves (busy : (s.threads t).busy) : threadFunction demo s t ≠ none := by
  simp only [threadFunction]
  cases here : s.threads t <;> simp only [here, Thread.busy] at busy <;> exact Option.some_ne_none _

theorem counting_moves (counting : s.threads t = .counting i) (free : demo.mutexed = true → s.mutex = none) :
    threadFunction demo s t ≠ none := by
  simp only [threadFunction, counting]
  split
  · split
    next mutexed => simp [free mutexed]
    · exact Option.some_ne_none _
  · exact Option.some_ne_none _

/-- A run stops when the process has ended and not before: the holder of the
mutex can always go on, and without one so can any thread. -/
theorem stuck_iff (kept : Kept demo s) : Stuck (step demo) s ↔ Ended s := by
  constructor
  · intro stuck
    have follows := kept.follows
    simp only [Demo.Follows] at follows
    have resting (t : Nat) (there : t < demo.created s.main) : threadFunction demo s t = none := by
      simpa only [step, if_pos there] using stuck (.run t)
    cases main : s.main with
    | creating created =>
      have create := stuck .create
      simp only [step, main] at create
      split at create <;> cases create
    | printed value => exact .inl ⟨value, main⟩
    | failed => exact .inr main
    | joining joined =>
      rw [main, Demo.created] at resting
      have join := stuck .join
      simp only [step, main] at join
      split at join
      swap
      · cases join
      next more =>
      cases here : s.threads joined with
      | exited => simp [here] at join
      | counting i =>
        refine absurd (resting joined more) (counting_moves here fun mutexed => ?_)
        by_contra taken
        obtain ⟨u, held⟩ := Option.ne_none_iff_exists'.mp taken
        have busy := (kept.holder mutexed u).mpr held
        exact busy_moves busy (resting u (kept.created u busy))
      | entered i | loaded i localI | stored i =>
        exact absurd (resting joined more) (busy_moves (by rw [here]; trivial))
  · rintro (⟨value, main⟩ | main) action
    · cases action <;> simp [step, main, Demo.created]
    · cases action <;> simp [step, main, Demo.created]

end Ending

/-! ### With the mutex -/

/-- The counter is the number of turns made, and who has loaded it has the
right number. -/
structure Counted (demo : Demo) (s : Program) : Prop where
  kept : Kept demo s
  counter : s.sharedCounter = Int32.ofNat (demo.allTurns s)
  loaded : ∀ t i localI, s.threads t = .loaded i localI → localI = s.sharedCounter + 1
  printed : ∀ value, s.main = .printed value → value = Int32.ofNat (demo.numThreads * demo.maxCount)

section Counting
variable {demo : Demo} {s next : Program} {action : Action}

theorem counted_start : Counted demo start where
  kept := kept_start
  counter := by simp [start, Demo.allTurns, Demo.turns]
  loaded := fun t i localI here => by cases here
  printed := fun value main => by cases main

/-- A thread moves without touching the counter or the number of its turns. -/
theorem counted_move (counted : Counted demo s) (keptNext : Kept demo next) (there : t < demo.created s.main)
    (sameMain : next.main = s.main) (sameCounter : next.sharedCounter = s.sharedCounter)
    (moved : next.threads = Function.update s.threads t thread)
    (sameTurns : demo.turns thread = demo.turns (s.threads t))
    (loaded : ∀ i localI, thread = .loaded i localI → localI = s.sharedCounter + 1) : Counted demo next := by
  have within : t < demo.numThreads := there.trans_le (created_le counted.kept.follows)
  have sums := sum_move (s := s) demo.turns thread within
  simp only [move_threads, ← moved, sameTurns, Nat.add_right_cancel_iff] at sums
  refine ⟨keptNext, ?_, fun u i localI here => ?_, ?_⟩
  · rw [sameCounter, counted.counter, Demo.allTurns, Demo.allTurns, sums]
  · rw [sameCounter]
    rw [moved] at here
    by_cases same : u = t
    · rw [same, Function.update_self] at here
      exact loaded i localI here
    · rw [Function.update_of_ne same] at here
      exact counted.loaded u i localI here
  · rw [sameMain]
    exact counted.printed

theorem counted_step (mutexed : demo.mutexed = true) (counted : Counted demo s)
    (taken : step demo s action = some next) : Counted demo next := by
  have keptNext := kept_step counted.kept taken
  have printed := counted.printed
  cases step_taken taken with
  | create | created | createFails | join =>
    exact ⟨keptNext, counted.counter, counted.loaded, fun value main => by cases main⟩
  | print joining all =>
    refine ⟨keptNext, counted.counter, counted.loaded, fun value main => ?_⟩
    have exited := counted.kept.follows
    simp only [Demo.Follows, joining] at exited
    cases main
    rw [counted.counter, allTurns_exited fun t before => exited.2 t (before.trans_le all)]
  | lock there here =>
    exact counted_move counted keptNext there rfl rfl rfl (by rw [here]; rfl) fun i localI here => by cases here
  | load there here =>
    refine counted_move counted keptNext there rfl rfl rfl ?_ fun i localI here => by cases here; rfl
    rcases here with here | ⟨-, here, -⟩ <;> rw [here] <;> rfl
  | @store t i localI there here =>
    have within : t < demo.numThreads := there.trans_le (created_le counted.kept.follows)
    have sums := sum_move (s := s) demo.turns (.stored i) within
    have right := counted.loaded t i localI here
    have holds := (counted.kept.holder mutexed t).mp (by rw [here]; trivial)
    simp only [mutexed, if_true]
    refine ⟨by simpa only [mutexed, if_true] using keptNext, ?_, fun u j other there => ?_, printed⟩
    · rw [here] at sums
      have one : demo.allTurns (s.move t (.stored i)) = demo.allTurns s + 1 := by
        simp only [Demo.turns] at sums
        simp only [Demo.allTurns, Demo.turns]
        omega
      simp only [right, counted.counter]
      exact (Int32.ofNat_add _ 1).symm.trans (congrArg Int32.ofNat one.symm)
    · -- only the holder of the mutex has loaded the counter
      by_cases same : u = t
      · simp [same] at there
      · simp only [move_threads, Function.update_of_ne same] at there
        have also := (counted.kept.holder mutexed u).mp (by rw [there]; trivial)
        rw [holds] at also
        exact absurd (Option.some.inj also).symm same
  | unlock there here =>
    exact counted_move counted keptNext there rfl rfl rfl (by rw [here]; rfl) fun i localI here => by cases here
  | @exit t i there here done =>
    refine counted_move counted keptNext there rfl rfl rfl ?_ fun i localI here => by cases here
    have inside := counted.kept.inside t
    rw [here] at inside ⊢
    exact le_antisymm done inside

theorem counted_run (mutexed : demo.mutexed = true) {actions : List Action}
    (ran : run (step demo) start actions = some s) : Counted demo s :=
  run_keeps (Counted demo) counted_start (fun _ _ _ counted taken => counted_step mutexed counted taken) ran

end Counting

/-- With the mutex, every run stops, which it does when the process has ended
and not before, and what is printed then is the number of all turns. -/
theorem mutex_counts_all (demo : Demo) (mutexed : demo.mutexed = true) {actions : List Action} {s : Program}
    (ran : run (step demo) start actions = some s) :
    Acc (After (step demo)) s ∧ (Stuck (step demo) s ↔ Ended s) ∧
      ∀ value, s.main = .printed value → value = Int32.ofNat (demo.numThreads * demo.maxCount) := by
  have counted := counted_run mutexed ran
  exact ⟨acc_after (Kept demo) demo.work (fun _ _ _ kept taken => kept_step kept taken)
    (fun _ _ _ kept taken => work_decreases kept taken) counted.kept, stuck_iff counted.kept, counted.printed⟩

/-- Two threads that count to two. The second one is created while the first has
the mutex, and from then on they take turns. -/
def contended : List Action :=
  [.create, .run 0, .run 0, .create, .create] ++ [.run 0, .run 0] ++ List.replicate 4 (.run 1) ++
    List.replicate 4 (.run 0) ++ List.replicate 4 (.run 1) ++ [.run 1, .run 0, .join, .join, .join]

theorem contended_counts_all :
    (run (step ⟨true, 2, 2⟩) start (contended.take 5 ++ [.run 1])).isNone ∧
      Stuck (step ⟨true, 2, 2⟩) ((run (step ⟨true, 2, 2⟩) start contended).get (by decide)) ∧
      ((run (step ⟨true, 2, 2⟩) start contended).get (by decide)).main = .printed 4 := by
  have counts := @mutex_counts_all ⟨true, 2, 2⟩ rfl contended _ (Option.some_get (by decide)).symm
  have printed : ∃ value, ((run (step ⟨true, 2, 2⟩) start contended).get (by decide)).main = .printed value :=
    ⟨_, rfl⟩
  obtain ⟨value, main⟩ := printed
  refine ⟨by decide, counts.2.1.mpr (.inl ⟨value, main⟩), ?_⟩
  rw [main, counts.2.2 value main]
  rfl

/-- `thread-coordination.c` prints 100000 whenever it prints. -/
theorem coordination_prints {actions : List Action} {s : Program}
    (ran : run (step threadCoordination) start actions = some s) (value : Int32) (printed : s.main = .printed value) :
    value = 100000 :=
  ((counted_run rfl ran).printed value printed).trans (by decide)

end SysProg.SharedCounter
