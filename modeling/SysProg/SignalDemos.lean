import Mathlib.Tactic.IntervalCases
import SysProg.Lib.CString
import SysProg.Lib.Signals

/-! The programs of the signal demos under Ctrl-C, on a terminal, where each
line is shown as it is printed. A turn of a loop is one statement; how long a
program sleeps in it is left to the run. -/
namespace SysProg.SignalDemos
open CString Signals Transition

/-! ### The programs -/

/-- `%ld` of an `unsigned long`. -/
def decimal (counter : Nat) : List UInt8 := text (toString (Int64.ofNat counter).toInt)

def cantStopMe (counter : Nat) : List UInt8 :=
  text "My counter value is: " ++ decimal counter ++ text " - YOU CANT STOP ME\n"

def ctrlCToStopMe (counter : Nat) : List UInt8 :=
  text "My counter value is: " ++ decimal counter ++ text " - CTRL-C to STOP ME\n"

/-- The bytes that `write` takes of a string and its terminator. -/
def written (message : String) (length : Nat) : List UInt8 := (text message ++ [0]).take length

/-- `signal-basic.c`. -/
def signalBasic : Program (List UInt8) (List UInt8) Unit where
  main n :=
    if n = 0 then .signal .ignore
    else if n ≤ 20 then .print (cantStopMe (n - 1))
    else if n = 21 then .signal .default
    else .print (ctrlCToStopMe (n - 2))
  handler _ := ([], .back ())

/-- `signal-custom.c`. -/
def signalCustom : Program (List UInt8) (List UInt8) Unit where
  main n :=
    if n = 0 then .signal .handler
    else if n ≤ 20 then .print (cantStopMe (n - 1))
    else if n = 21 then .signal .default
    else .print (ctrlCToStopMe (n - 2))
  handler _ := (written "\n\nNICE TRY - BUT YOU CANT STOP ME\n\n" 35, .back ())

def workingNote : List (List UInt8) := [
  text "Im working for the next 5 seconds to ensure that\n",
  text "the nuclear reactor does not melt down.  Going into\n",
  text "do not disturb mode, when I am done you can stop me\n"]

def unblockedNote : List (List UInt8) := [
  text "\nAll signals are now unblocked!\n",
  text "Note any pending signals while i was blocking them will now be\n",
  text "delivered and processed before i start busy-work...\n\n"]

/-- `signal-do-not-disturb.c`. -/
def signalDoNotDisturb : Program (List UInt8) (List UInt8) Unit where
  main n :=
    if n < 3 then .print (workingNote.getD n [])
    else if n = 3 then .block
    else if n = 4 then .print (text "\nAll signals are now blocked!\n\n")
    else if n < 10 then .print (text "\tStill working, " ++ decimal (10 - n) ++ text " seconds to go\n")
    else if n < 13 then .print (unblockedNote.getD (n - 10) [])
    else if n = 13 then .unblock
    else .print (text "Im going to loop forever now, counter = " ++ decimal (n - 14) ++ text "\n")
  handler _ := ([], .back ())

/-- `signal-logic.c`, with `attempt_counter` as what the handler remembers. -/
def signalLogic : Program (List UInt8) (List UInt8) Int where
  main n := if n = 0 then .signal .handler else .print (ctrlCToStopMe (n - 1))
  handler attemptCounter :=
    if attemptCounter = 3 then (written "\n\nIT WILL TAKE 3 MORE ATTEMPTS TO STOP ME\n\n" 43, .back 2)
    else if attemptCounter = 2 then (written "\n\nIT WILL TAKE 2 MORE ATTEMPTS TO STOP ME\n\n" 43, .back 1)
    else if attemptCounter = 1 then (written "\n\nIT WILL TAKE 1 MORE ATTEMPT TO STOP ME\n\n" 42, .back 0)
    else if attemptCounter = 0 then (written "\n\nI GUESS YOU REALLY WANT TO STOP ME\n\n" 38, .exit 0)
    else (written "\n\nTHIS CANT REALLY BE HAPPENING\n\n" 34, .exit 1)

/-! ### Ctrl-C while a program does not want it -/

theorem basic_ignores : Protects signalBasic .ignoring 0 21 := by
  refine ⟨by decide, rfl, rfl, ?_⟩
  intro n first last
  simp only [signalBasic, if_neg first, if_neg last]
  split <;> exact ⟨_, rfl⟩

theorem custom_handles : Protects signalCustom .handling 0 21 := by
  refine ⟨by decide, rfl, rfl, ?_⟩
  intro n first last
  simp only [signalCustom, if_neg first, if_neg last]
  split <;> exact ⟨_, rfl⟩

theorem doNotDisturb_blocks : Protects signalDoNotDisturb .blocking 3 13 := by
  refine ⟨by decide, rfl, rfl, ?_⟩
  intro n first last
  simp only [signalDoNotDisturb, if_neg first, if_neg last]
  split
  · exact ⟨_, rfl⟩
  · split
    · exact ⟨_, rfl⟩
    · split
      · exact ⟨_, rfl⟩
      · split <;> exact ⟨_, rfl⟩

/-- A Ctrl-C while the program does not want it. Ignored, it never ends the
program; handled, it does if it is still pending when the program restores the
default; blocked, it ends the program as soon as it is unblocked, before the
line that comes next. -/
theorem interrupts_compared :
    (∀ actions s, Along (step signalBasic) (Within 0 21) (start ()) actions →
      run (step signalBasic) (start ()) actions = some s → s.ended = none) ∧
    (∀ actions s, Along (step signalCustom) (Within 0 21) (start ()) actions →
      run (step signalCustom) (start ()) actions = some s →
      (s.pc ≤ 21 → s.ended = none) ∧
        (21 < s.pc → (Along (step signalCustom) (Timely 21) (start ()) actions ↔ s.ended = none ∧ s.pending = false))) ∧
    (∀ actions s, Along (step signalDoNotDisturb) (Within 3 13) (start ()) actions →
      run (step signalDoNotDisturb) (start ()) actions = some s →
      (s.pc ≤ 13 → s.ended = none) ∧
        (13 < s.pc → (s.ended = some .killed ↔ .send ∈ actions) ∧
          (.send ∈ actions → s.shown.filterMap Sum.getLeft? = signalDoNotDisturb.lines 14))) := by
  refine ⟨fun actions s within ran => ignored_survives basic_ignores within ran, fun actions s within ran =>
    handled_survives_iff custom_handles (fun _ => ⟨_, _, rfl⟩) within ran, fun actions s within ran => ?_⟩
  obtain ⟨early, late⟩ := blocked_waits doNotDisturb_blocks within ran
  refine ⟨early, fun behind => ?_⟩
  rcases late behind with ⟨sent, killed, pc⟩ | ⟨unsent, alive⟩
  · refine ⟨⟨fun _ => sent, fun _ => killed⟩, fun _ => ?_⟩
    rw [shows_lines ran, pc]
  · exact ⟨⟨fun killed => by simp [alive] at killed, fun sent => absurd sent unsent⟩, fun sent => absurd sent unsent⟩

/-- Ctrl-C right before `signal-custom.c` restores the default. -/
def lateCtrlC : List Action := List.replicate 21 .run ++ [.send, .run, .deliver]

theorem lateCtrlC_ends : ∃ s, run (step signalCustom) (start ()) lateCtrlC = some s ∧ s.pc = 22 ∧
    Along (step signalCustom) (Within 0 21) (start ()) lateCtrlC ∧ ¬ (s.ended = none ∧ s.pending = false) := by
  obtain ⟨s, ran, pc⟩ := Option.map_eq_some_iff.mp
    (show (run (step signalCustom) (start ()) lateCtrlC).map (fun s => s.pc) = some 22 by decide +kernel)
  have within : Along (step signalCustom) (Within 0 21) (start ()) lateCtrlC := by decide +kernel
  have late : ¬ Along (step signalCustom) (Timely 21) (start ()) lateCtrlC := by decide +kernel
  have behind := (interrupts_compared.2.1 lateCtrlC s within ran).2 (by rw [pc]; decide)
  exact ⟨s, ran, pc, within, fun fine => late (behind.mpr fine)⟩

/-! ### Ctrl-C until a program gives in -/

/-- The messages of the handler of `signal-logic.c`, in their order. -/
def attempts : List (List UInt8) := [
  written "\n\nIT WILL TAKE 3 MORE ATTEMPTS TO STOP ME\n\n" 43,
  written "\n\nIT WILL TAKE 2 MORE ATTEMPTS TO STOP ME\n\n" 43,
  written "\n\nIT WILL TAKE 1 MORE ATTEMPT TO STOP ME\n\n" 42,
  written "\n\nI GUESS YOU REALLY WANT TO STOP ME\n\n" 38]

/-- The run of the handler behind `count` others. -/
theorem logic_handler {count : Nat} (more : count < 4) :
    ∃ message, attempts.take (count + 1) = attempts.take count ++ [message] ∧
      signalLogic.handler (3 - count) = (message, if count = 3 then .exit 0 else .back (3 - (count + 1 : Nat))) := by
  interval_cases count <;> exact ⟨_, rfl, rfl⟩

/-- What the handler has done, and where the program stands between its runs. -/
structure Attempted (count : Nat) (s : Process (List UInt8) (List UInt8) Int) : Prop where
  shown : s.shown.filterMap Sum.getRight? = attempts.take count
  alive : s.ended = none → count < 4 ∧ s.memory = 3 - count
  exits : ∀ status, s.ended = some (.exited status) → status = 0 ∧ count = 4
  killed : s.ended = some .killed → s.pc = 0 ∧ count = 0
  early : s.pc = 0 → s.disposition = .default ∧ s.handling = false ∧ count = 0
  later : s.pc ≠ 0 → s.disposition = .handler

theorem attempted_step {count : Nat} {s next : Process (List UInt8) (List UInt8) Int} {action : Action}
    (held : Attempted count s) (taken : step signalLogic s action = some next) :
    Attempted (if action = .handle then count + 1 else count) next := by
  obtain ⟨alive, steps⟩ := step_cases taken
  have living (ending : Ending) : s.ended ≠ some ending := by simp [alive]
  obtain ⟨rfl, rfl⟩ | ⟨rfl, -, -, -, rfl⟩ | ⟨rfl, handling, rfl⟩ | ⟨rfl, -, rfl⟩ := steps
  · exact ⟨held.shown, held.alive, held.exits, held.killed, held.early, held.later⟩
  · by_cases first : s.pc = 0
    · obtain ⟨disposition, handling, none⟩ := held.early first
      have dies : s.take = { s with pending := false, ended := some .killed } := by simp [Process.take, disposition]
      rw [dies]
      exact ⟨held.shown, fun ended => (by cases ended), fun status ended => (by cases ended), fun _ => ⟨first, none⟩,
        held.early, held.later⟩
    · have enters : s.take = { s with pending := false, handling := true } := by
        simp [Process.take, held.later first]
      rw [enters]
      exact ⟨held.shown, held.alive, held.exits, held.killed, fun atFirst => absurd atFirst first, held.later⟩
  · obtain ⟨more, memory⟩ := held.alive alive
    obtain ⟨message, shows, handler⟩ := logic_handler more
    have installed : s.pc ≠ 0 := by
      intro first
      rw [(held.early first).2.1] at handling
      cases handling
    rw [if_pos rfl]
    by_cases fourth : count = 3
    · have exits : s.handle signalLogic =
          { s with handling := false, shown := s.shown ++ [.inr message], ended := some (.exited 0) } := by
        simp only [Process.handle, memory, handler, if_pos fourth]
      rw [exits]
      exact ⟨by simp [held.shown, shows], fun ended => (by cases ended),
        fun status ended => (by cases ended; simp [fourth]),
        fun ended => (by cases ended), fun first => absurd first installed, held.later⟩
    · have back : s.handle signalLogic =
          { s with handling := false, memory := 3 - (count + 1 : Nat), shown := s.shown ++ [.inr message] } := by
        simp only [Process.handle, memory, handler, if_neg fourth]
      rw [back]
      exact ⟨by simp [held.shown, shows], fun _ => ⟨by omega, rfl⟩, fun status ended => absurd ended (living _),
        fun ended => absurd ended (living _), fun first => absurd first installed, held.later⟩
  · by_cases first : s.pc = 0
    · have installs : s.execute (signalLogic.main s.pc) = { s with pc := s.pc + 1, disposition := .handler } := by
        simp [Process.execute, signalLogic, first]
      rw [installs]
      exact ⟨held.shown, held.alive, held.exits, fun ended => absurd ended (living _),
        fun again => absurd again (Nat.succ_ne_zero _), fun _ => rfl⟩
    · have prints : s.execute (signalLogic.main s.pc) =
          { s with pc := s.pc + 1, shown := s.shown ++ [.inl (ctrlCToStopMe (s.pc - 1))] } := by
        simp [Process.execute, signalLogic, first]
      rw [prints]
      exact ⟨by simpa [List.filterMap_cons] using held.shown, held.alive, held.exits,
        fun ended => absurd ended (living _), fun again => absurd again (Nat.succ_ne_zero _), fun _ => held.later first⟩

theorem attempted_run {actions : List Action} {s : Process (List UInt8) (List UInt8) Int}
    (ran : run (step signalLogic) (start 3) actions = some s) : Attempted (actions.count .handle) s := by
  refine run_history (fun history => Attempted (history.count .handle)) ?_ ?_ ran
  · exact ⟨rfl, fun _ => ⟨by decide, rfl⟩, fun status ended => (by cases ended), fun ended => (by cases ended),
      fun _ => ⟨rfl, rfl, rfl⟩, fun later => absurd rfl later⟩
  · intro history s action next _ held taken
    have after := attempted_step held taken
    rw [List.count_append, List.count_singleton]
    by_cases handles : action = .handle
    · simpa [handles] using after
    · simpa [handles] using after

/-- Four times Ctrl-C, each when the one before has been handled. -/
def fourCtrlC : List Action := .run :: (List.replicate 4 [.send, .deliver, .handle]).flatten

end SysProg.SignalDemos
