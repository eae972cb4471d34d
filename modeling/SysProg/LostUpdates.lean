import SysProg.SharedCounter

/-! What `thread-rc.c` may print. A turn that loads the counter before another
one stores it overwrites what that one has stored, so updates get lost: any
number from 2 up to the number of all turns can come out, and no other. -/
namespace SysProg.LostUpdates
open Transition Finset SharedCounter

/-! ### Nothing else can come out -/

/-- A number that was counted: at most one more for each turn, and not zero
behind the first of them. -/
structure Bounded (demo : Demo) (s : Program) : Prop where
  kept : Kept demo s
  counter : ∃ count, s.sharedCounter = Int32.ofNat count ∧ count ≤ demo.allTurns s ∧
    (∀ t, 1 ≤ demo.turns (s.threads t) → 1 ≤ count) ∧
      ((∀ t < demo.numThreads, demo.turns (s.threads t) = demo.maxCount) → 2 ≤ count)
  loaded : ∀ t i localI, s.threads t = .loaded i localI →
    ∃ count, localI = Int32.ofNat (count + 1) ∧ count ≤ demo.allTurns s ∧ (1 ≤ i → 1 ≤ count)
  printed : ∀ value, s.main = .printed value →
    ∃ count, value = Int32.ofNat count ∧ 2 ≤ count ∧ count ≤ demo.numThreads * demo.maxCount

section Bounds
variable {demo : Demo} {s next : Program} {action : Action}

theorem bounded_start (some : 1 ≤ demo.numThreads) (twice : 2 ≤ demo.maxCount) : Bounded demo start where
  kept := kept_start
  counter := by
    refine ⟨0, rfl, Nat.zero_le _, fun t turned => ?_, fun all => ?_⟩
    · simp [start, Demo.turns] at turned
    · have none := all 0 some
      simp only [start, Demo.turns] at none
      omega
  loaded := fun t i localI here => by cases here
  printed := fun value main => by cases main

/-- A thread moves without touching the counter or the number of its turns. -/
theorem bounded_move (bounded : Bounded demo s) (keptNext : Kept demo next)
    (sameMain : next.main = s.main) (sameCounter : next.sharedCounter = s.sharedCounter)
    (moved : next.threads = Function.update s.threads t thread)
    (sameTurns : demo.turns thread = demo.turns (s.threads t))
    (loaded : ∀ i localI, thread = .loaded i localI →
      ∃ count, localI = Int32.ofNat (count + 1) ∧ count ≤ demo.allTurns s ∧ (1 ≤ i → 1 ≤ count)) :
    Bounded demo next := by
  have turns (u : Nat) : demo.turns (next.threads u) = demo.turns (s.threads u) := by
    by_cases same : u = t
    · rw [moved, same, Function.update_self, sameTurns]
    · rw [moved, Function.update_of_ne same]
  have total : demo.allTurns next = demo.allTurns s := sum_congr rfl fun u _ => turns u
  refine ⟨keptNext, ?_, fun u i localI here => ?_, ?_⟩
  · rw [sameCounter, total]
    simpa only [turns] using bounded.counter
  · rw [total]
    rw [moved] at here
    by_cases same : u = t
    · rw [same, Function.update_self] at here
      exact loaded i localI here
    · rw [Function.update_of_ne same] at here
      exact bounded.loaded u i localI here
  · rw [sameMain]
    exact bounded.printed

theorem bounded_store (twice : 2 ≤ demo.maxCount) (bounded : Bounded demo s)
    (there : t < demo.created s.main) (here : s.threads t = .loaded i localI)
    (keptNext : Kept demo { s.move t (.counting (i + 1)) with sharedCounter := localI }) :
    Bounded demo { s.move t (.counting (i + 1)) with sharedCounter := localI } := by
  have within : t < demo.numThreads := there.trans_le (created_le bounded.kept.follows)
  have sums := sum_move (s := s) demo.turns (.counting (i + 1)) within
  rw [here] at sums
  obtain ⟨count, right, few, later⟩ := bounded.loaded t i localI here
  have total : demo.allTurns { s.move t (.counting (i + 1)) with sharedCounter := localI } = demo.allTurns s + 1 := by
    simp only [Demo.turns] at sums
    simp only [Demo.allTurns, Demo.turns]
    omega
  refine ⟨keptNext, ⟨count + 1, right, by omega, fun u _ => by omega, fun all => ?_⟩, fun u j other loaded => ?_,
    bounded.printed⟩
  · -- the last turn of a thread is not its first
    have last := all t within
    simp only [move_threads, Function.update_self, Demo.turns] at last
    have more := later (by omega)
    omega
  · by_cases same : u = t
    · simp [same] at loaded
    · simp only [move_threads, Function.update_of_ne same] at loaded
      obtain ⟨count, right, few, later⟩ := bounded.loaded u j other loaded
      exact ⟨count, right, by omega, later⟩

theorem bounded_step (unlocked : demo.mutexed = false) (twice : 2 ≤ demo.maxCount) (bounded : Bounded demo s)
    (taken : step demo s action = some next) : Bounded demo next := by
  have keptNext := kept_step bounded.kept taken
  cases step_taken taken with
  | create | created | createFails | join =>
    exact ⟨keptNext, bounded.counter, bounded.loaded, fun value main => by cases main⟩
  | print joining all =>
    refine ⟨keptNext, bounded.counter, bounded.loaded, fun value main => ?_⟩
    have exited := bounded.kept.follows
    simp only [Demo.Follows, joining] at exited
    have finished : ∀ t < demo.numThreads, s.threads t = .exited := fun t before => exited.2 t (before.trans_le all)
    obtain ⟨count, right, few, -, enough⟩ := bounded.counter
    cases main
    exact ⟨count, right, enough fun t before => by rw [finished t before, Demo.turns], allTurns_exited finished ▸ few⟩
  | lock _ _ _ mutexed =>
    rw [unlocked] at mutexed
    cases mutexed
  | @load t i there here =>
    rcases here with here | ⟨-, here, more⟩
    · have inside := bounded.kept.inside t
      rw [here] at inside
      exact absurd (inside.2.symm.trans unlocked) (by decide)
    · refine bounded_move bounded keptNext rfl rfl rfl (by rw [here]; rfl) fun j localI same => ?_
      cases same
      obtain ⟨count, right, few, first, -⟩ := bounded.counter
      refine ⟨count, ?_, few, fun later => first t (by rw [here]; exact later)⟩
      rw [right]
      exact (Int32.ofNat_add count 1).symm
  | store there here =>
    simp only [unlocked, Bool.false_eq_true, if_false] at keptNext ⊢
    exact bounded_store twice bounded there here keptNext
  | @unlock t i there here =>
    have inside := bounded.kept.inside t
    rw [here] at inside
    exact absurd (inside.2.symm.trans unlocked) (by decide)
  | @exit t i there here done =>
    refine bounded_move bounded keptNext rfl rfl rfl ?_ fun j localI here => by cases here
    have inside := bounded.kept.inside t
    rw [here] at inside ⊢
    exact le_antisymm done inside

end Bounds

/-! ### Everything else can -/

/-- Some run leads from one state to another. -/
def Reaches (demo : Demo) (s next : Program) : Prop := ∃ actions, run (step demo) s actions = some next

/-- All threads are there and none is joined yet. -/
def running (threads : Nat → Thread) (count : Nat) : Program := ⟨.joining 0, threads, none, Int32.ofNat count⟩

section Schedules
variable {demo : Demo} {s middle next : Program} (threads : Nat → Thread) (count : Nat)

theorem Reaches.trans (first : Reaches demo s middle) (second : Reaches demo middle next) : Reaches demo s next := by
  obtain ⟨before, first⟩ := first
  obtain ⟨after, second⟩ := second
  exact ⟨before ++ after, by rw [run_append, first]; exact second⟩

theorem Reaches.refl : Reaches demo s s := ⟨[], rfl⟩

theorem reaches_step (action : Action) (taken : step demo s action = some next) : Reaches demo s next :=
  ⟨[action], by rw [run, taken]; rfl⟩

theorem reaches_run (t : Nat) (there : t < demo.numThreads)
    (taken : threadFunction demo (running threads count) t = some next) :
    Reaches demo (running threads count) next :=
  reaches_step (.run t) ((if_pos there).trans taken)

theorem reaches_load (unlocked : demo.mutexed = false) (there : t < demo.numThreads)
    (here : threads t = .counting i) (more : i < demo.maxCount) :
    Reaches demo (running threads count)
      (running (Function.update threads t (.loaded i (Int32.ofNat (count + 1)))) count) := by
  refine reaches_run threads count t there ?_
  simp [threadFunction, running, here, more, unlocked, Program.move, Int32.ofNat_add]

theorem reaches_store (unlocked : demo.mutexed = false) (there : t < demo.numThreads)
    (here : threads t = .loaded i (Int32.ofNat copy)) :
    Reaches demo (running threads count) (running (Function.update threads t (.counting (i + 1))) copy) := by
  refine reaches_run threads count t there ?_
  simp [threadFunction, running, here, unlocked, Program.move]

theorem reaches_exit (there : t < demo.numThreads) (here : threads t = .counting demo.maxCount) :
    Reaches demo (running threads count) (running (Function.update threads t .exited) count) := by
  refine reaches_run threads count t there ?_
  simp [threadFunction, running, here, Program.move]

/-- A thread makes some turns by itself, none of which is lost. -/
theorem reaches_turns (unlocked : demo.mutexed = false) (there : t < demo.numThreads)
    (here : threads t = .counting i) (turns : Nat) (room : i + turns ≤ demo.maxCount) :
    Reaches demo (running threads count)
      (running (Function.update threads t (.counting (i + turns))) (count + turns)) := by
  induction turns with
  | zero =>
    rw [Nat.add_zero, ← here, Function.update_eq_self]
    exact .refl
  | succ turns ih =>
    have before := ih (by omega)
    have load := reaches_load (Function.update threads t (.counting (i + turns))) (count + turns) unlocked there
      (Function.update_self ..) (show i + turns < demo.maxCount by omega)
    have store := reaches_store (Function.update (Function.update threads t (.counting (i + turns))) t
      (.loaded (i + turns) (Int32.ofNat (count + turns + 1)))) (count + turns) unlocked there (Function.update_self ..)
    simp only [Function.update_idem] at load store
    exact (before.trans load).trans store

/-- A thread of the program without the mutex. -/
def Free (demo : Demo) : Thread → Prop
  | .counting i => i ≤ demo.maxCount
  | .loaded i localI => i < demo.maxCount ∧ ∃ copy, localI = Int32.ofNat copy
  | .exited => True
  | .entered _ | .stored _ => False

/-- A thread runs to its end, whatever it does to the counter. -/
theorem reaches_end (unlocked : demo.mutexed = false) (there : t < demo.numThreads) (free : Free demo (threads t)) :
    ∃ after, Reaches demo (running threads count) (running (Function.update threads t .exited) after) := by
  have fromTop (threads : Nat → Thread) (count : Nat) {i : Nat}
      (here : threads t = .counting i) (few : i ≤ demo.maxCount) :
      ∃ after, Reaches demo (running threads count) (running (Function.update threads t .exited) after) := by
    have turns := reaches_turns threads count unlocked there here (demo.maxCount - i) (by omega)
    have last : i + (demo.maxCount - i) = demo.maxCount := by omega
    rw [last] at turns
    have exit := reaches_exit (Function.update threads t (.counting demo.maxCount)) (count + (demo.maxCount - i)) there
      (Function.update_self ..)
    rw [Function.update_idem] at exit
    exact ⟨_, turns.trans exit⟩
  cases here : threads t with
  | counting i => exact fromTop threads count here (by rwa [here] at free)
  | exited => exact ⟨count, by rw [← here, Function.update_eq_self]; exact .refl⟩
  | entered i | stored i => rw [here] at free; exact free.elim
  | loaded i localI =>
    rw [here] at free
    obtain ⟨more, copy, rfl⟩ := free
    obtain ⟨after, rest⟩ := fromTop (Function.update threads t (.counting (i + 1))) copy (Function.update_self ..) more
    rw [Function.update_idem] at rest
    exact ⟨after, (reaches_store threads count unlocked there here).trans rest⟩

/-- So do all threads in front of one. -/
theorem reaches_ends (unlocked : demo.mutexed = false) (before : k ≤ demo.numThreads)
    (free : ∀ t < k, Free demo (threads t)) :
    ∃ after, Reaches demo (running threads count) (running (fun t => if t < k then .exited else threads t) after) := by
  induction k with
  | zero => exact ⟨count, by simpa using .refl⟩
  | succ k ih =>
    obtain ⟨middle, first⟩ := ih (by omega) fun t less => free t (by omega)
    obtain ⟨after, last⟩ := reaches_end (fun t => if t < k then .exited else threads t) middle (t := k) unlocked before
      (by simpa using free k (by omega))
    refine ⟨after, first.trans ?_⟩
    convert last using 2
    funext t
    rw [Function.update_apply]
    by_cases here : t = k
    · rw [if_pos (by omega), if_pos here]
    · have same : t < k + 1 ↔ t < k := by omega
      simp only [same, if_neg here]

/-- The threads in front of one make as many turns as wanted between them. -/
theorem reaches_spread (unlocked : demo.mutexed = false) (before : k ≤ demo.numThreads)
    (fresh : ∀ t < k, threads t = .counting 0) (few : turns ≤ k * demo.maxCount) :
    ∃ threads', Reaches demo (running threads count) (running threads' (count + turns)) ∧
      (∀ t < k, Free demo (threads' t)) ∧ ∀ t, k ≤ t → threads' t = threads t := by
  induction k generalizing turns with
  | zero =>
    obtain rfl : turns = 0 := by omega
    exact ⟨threads, .refl, fun t less => absurd less (Nat.not_lt_zero t), fun _ _ => rfl⟩
  | succ k ih =>
    rw [Nat.succ_mul] at few
    obtain ⟨threads', first, free, same⟩ := ih (by omega)
      (fun t less => fresh t (by omega)) (show turns - min turns demo.maxCount ≤ k * demo.maxCount by omega)
    have own := reaches_turns threads' (count + (turns - min turns demo.maxCount)) (t := k) unlocked before
      ((same k (Nat.le_refl k)).trans (fresh k (Nat.lt_succ_self k))) (min turns demo.maxCount) (by omega)
    refine ⟨_, first.trans (by convert own using 2; omega), fun t less => ?_, fun t beyond => ?_⟩
    · by_cases here : t = k
      · rw [here, Function.update_self]
        simp only [Free]
        omega
      · rw [Function.update_of_ne here]
        exact free t (by omega)
    · rw [Function.update_of_ne (by omega)]
      exact same t (by omega)

/-- `main` joins threads that have exited and prints the counter. -/
theorem reaches_print (exited : ∀ t < demo.numThreads, threads t = .exited) (joined : Nat)
    (some : joined ≤ demo.numThreads) :
      ∃ next, Reaches demo ⟨.joining joined, threads, none, Int32.ofNat count⟩ next ∧
      next.main = .printed (Int32.ofNat count) := by
  obtain ⟨left, all⟩ := Nat.le.dest some
  induction left generalizing joined with
  | zero =>
    exact ⟨_, reaches_step .join (if_neg (by omega)), rfl⟩
  | succ left ih =>
    obtain ⟨next, rest, printed⟩ := ih (joined + 1) (by omega) (by omega)
    refine ⟨next, .trans (reaches_step .join ?_) rest, printed⟩
    exact (if_pos (by omega)).trans (if_pos (exited joined (by omega)))

theorem reaches_running (demo : Demo) : Reaches demo start (running (fun _ => .counting 0) 0) := by
  have creating (created : Nat) (some : created ≤ demo.numThreads) :
      Reaches demo start { start with main := .creating created } := by
    induction created with
    | zero => exact .refl
    | succ created ih => exact (ih (by omega)).trans (reaches_step .create (if_pos (by omega)))
  exact (creating demo.numThreads (Nat.le_refl _)).trans (reaches_step .create (if_neg (Nat.lt_irrefl _)))

/-- The last thread has loaded the counter for its last turn, so that whatever
the others do until its store is lost. -/
theorem reaches_printed (unlocked : demo.mutexed = false) (last : k + 1 = demo.numThreads)
    (more : i + 1 = demo.maxCount) (free : ∀ t < k, Free demo (threads t))
    (here : threads k = .loaded i (Int32.ofNat copy)) :
    ∃ next, Reaches demo (running threads count) next ∧ next.main = .printed (Int32.ofNat copy) := by
  have there : k < demo.numThreads := by omega
  obtain ⟨between, others⟩ := reaches_ends threads count unlocked (k := k) (by omega) free
  let ended : Nat → Thread := fun t => if t < k then .exited else threads t
  have loaded : ended k = .loaded i (Int32.ofNat copy) := (if_neg (Nat.lt_irrefl k)).trans here
  have store := reaches_store ended between unlocked there loaded
  rw [more] at store
  have exit := reaches_exit (Function.update ended k (.counting demo.maxCount)) copy there (Function.update_self ..)
  rw [Function.update_idem] at exit
  have exited (t : Nat) (there : t < demo.numThreads) : Function.update ended k .exited t = .exited := by
    rw [Function.update_apply]
    by_cases here : t = k
    · rw [if_pos here]
    · rw [if_neg here]
      exact if_pos (by omega)
  obtain ⟨next, rest, printed⟩ := reaches_print (Function.update ended k .exited) copy exited 0 (Nat.zero_le _)
  exact ⟨next, ((others.trans store).trans exit).trans rest, printed⟩

/-- Without any overlap up to its last load, the last thread can load any number
from its own turns on. -/
theorem reaches_large (unlocked : demo.mutexed = false) (last : k + 1 = demo.numThreads)
    (more : i + 1 = demo.maxCount) (enough : i ≤ loads) (few : loads < demo.numThreads * demo.maxCount) :
    ∃ next, Reaches demo start next ∧ next.main = .printed (Int32.ofNat (loads + 1)) := by
  have there : k < demo.numThreads := by omega
  have own := reaches_turns (fun _ => .counting 0) 0 unlocked there rfl i (by omega)
  rw [← last, Nat.succ_mul] at few
  obtain ⟨threads, others, free, same⟩ := reaches_spread
    (Function.update (fun _ => .counting 0) k (.counting (0 + i))) (0 + i) unlocked (Nat.le_of_lt there)
    (fun t less => Function.update_of_ne (by omega) ..) (show loads - i ≤ k * demo.maxCount by omega)
  have here : threads k = .counting i := by
    rw [same k (Nat.le_refl k), Function.update_self, Nat.zero_add]
  have count : 0 + i + (loads - i) = loads := by omega
  rw [count] at others
  have load := reaches_load threads loads unlocked there here (by omega)
  obtain ⟨next, rest, printed⟩ := reaches_printed
    (Function.update threads k (.loaded i (Int32.ofNat (loads + 1)))) loads unlocked last more
    (fun t less => by rw [Function.update_of_ne (by omega)]; exact free t less) (Function.update_self ..)
  exact ⟨next, ((((reaches_running demo).trans own).trans others).trans load).trans rest, printed⟩

/-- A smaller number is loaded when the first thread, which had loaded zero,
throws the counter back to one in between. -/
theorem reaches_small (unlocked : demo.mutexed = false) (last : k + 1 = demo.numThreads) (two : 0 < k)
    (more : i + 1 = demo.maxCount) (some : 1 ≤ loads) (few : loads ≤ i) :
    ∃ next, Reaches demo start next ∧ next.main = .printed (Int32.ofNat (loads + 1)) := by
  have there : k < demo.numThreads := by omega
  have first : 0 < demo.numThreads := by omega
  let fresh : Nat → Thread := fun _ => .counting 0
  let waiting := Function.update fresh 0 (.loaded 0 (Int32.ofNat (0 + 1)))
  have early : Reaches demo (running fresh 0) (running waiting 0) :=
    reaches_load fresh 0 unlocked first rfl (by omega)
  let ahead := Function.update waiting k (.counting (0 + (i + 1 - loads)))
  have own : Reaches demo (running waiting 0) (running ahead (0 + (i + 1 - loads))) :=
    reaches_turns waiting 0 unlocked there (Function.update_of_ne (by omega) ..) (i + 1 - loads) (by omega)
  let back := Function.update ahead 0 (.counting (0 + 1))
  have late : Reaches demo (running ahead (0 + (i + 1 - loads))) (running back (0 + 1)) :=
    reaches_store ahead _ unlocked first ((Function.update_of_ne (by omega) ..).trans (Function.update_self ..))
  have here : back k = .counting (0 + (i + 1 - loads)) :=
    (Function.update_of_ne (by omega) ..).trans (Function.update_self ..)
  have again := reaches_turns back (0 + 1) unlocked there here (loads - 1) (by omega)
  have turns : 0 + (i + 1 - loads) + (loads - 1) = i := by omega
  have count : 0 + 1 + (loads - 1) = loads := by omega
  rw [turns, count] at again
  have load := reaches_load (Function.update back k (.counting i)) loads unlocked there (Function.update_self ..)
    (by omega)
  rw [Function.update_idem] at load
  have free (t : Nat) (less : t < k) : Free demo (Function.update back k (.loaded i (Int32.ofNat (loads + 1))) t) := by
    rw [Function.update_of_ne (by omega)]
    by_cases first : t = 0
    · rw [show back t = .counting (0 + 1) by rw [first]; exact Function.update_self ..]
      simp only [Free]
      omega
    · rw [show back t = .counting 0 by simp [back, ahead, waiting, fresh, first, Nat.ne_of_lt less]]
      exact Nat.zero_le _
  obtain ⟨next, rest, printed⟩ := reaches_printed
    (Function.update back k (.loaded i (Int32.ofNat (loads + 1)))) loads unlocked last more free
    (Function.update_self ..)
  exact ⟨next, ((((((reaches_running demo).trans early).trans own).trans late).trans again).trans load).trans rest,
    printed⟩

end Schedules

/-- Two threads or more that count twice or more without the mutex print any
number from 2 up to that of all turns, and no other one. -/
theorem printed_iff (demo : Demo) (unlocked : demo.mutexed = false) (threads : 2 ≤ demo.numThreads)
    (twice : 2 ≤ demo.maxCount) (fits : demo.numThreads * demo.maxCount < 2 ^ 31) (value : Int32) :
    (∃ actions s, run (step demo) start actions = some s ∧ s.main = .printed value) ↔
      2 ≤ value.toInt ∧ value.toInt ≤ (demo.numThreads * demo.maxCount : Nat) := by
  constructor
  · rintro ⟨actions, s, ran, printed⟩
    have bounded : Bounded demo s := run_keeps (Bounded demo) (bounded_start (by omega) twice)
      (fun _ _ _ bounded taken => bounded_step unlocked twice bounded taken) ran
    obtain ⟨count, rfl, some, few⟩ := bounded.printed value printed
    rw [Int32.toInt_ofNat_of_lt (by omega)]
    omega
  · rintro ⟨some, few⟩
    obtain ⟨loads, count⟩ : ∃ loads : Nat, value.toInt = loads + 1 := ⟨value.toInt.toNat - 1, by omega⟩
    have same : value = Int32.ofNat (loads + 1) := by
      apply Int32.toInt_inj.mp
      rw [Int32.toInt_ofNat_of_lt (by omega), count]
      rfl
    obtain ⟨k, last⟩ := Nat.exists_eq_add_of_le' (show 1 ≤ demo.numThreads by omega)
    obtain ⟨i, more⟩ := Nat.exists_eq_add_of_le' (show 1 ≤ demo.maxCount by omega)
    have reached : ∃ next, Reaches demo start next ∧ next.main = .printed (Int32.ofNat (loads + 1)) := by
      rcases Nat.lt_or_ge loads i with small | large
      · exact reaches_small unlocked last.symm (by omega) more.symm (by omega) (Nat.le_of_lt small)
      · exact reaches_large unlocked last.symm more.symm large (by omega)
    obtain ⟨next, ⟨actions, ran⟩, printed⟩ := reached
    exact ⟨actions, next, ran, by rw [printed, same]⟩

/-- The program may print 2 where it counts to 100000. -/
theorem threadRc_may_print_two :
    ∃ actions s, run (step threadRc) start actions = some s ∧ s.main = .printed 2 :=
  (printed_iff threadRc rfl (by decide) (by decide) (by decide) 2).mpr (by decide)

end SysProg.LostUpdates
