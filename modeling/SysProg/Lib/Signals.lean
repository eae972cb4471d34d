import SysProg.Lib.Transition

/-! One signal and the process it is sent to. Sent signals do not queue: one is
pending or none is. A pending signal that is not blocked is delivered between
any two statements, and its handler runs before the process goes on, with the
signal blocked meanwhile. -/
namespace SysProg.Signals
open Transition

inductive Disposition where
  | default
  | ignore
  | handler
  deriving DecidableEq

/-- `signal`, `sigprocmask` in both directions, and everything that only shows
a line. -/
inductive Statement (ω : Type*) where
  | signal (disposition : Disposition)
  | block
  | unblock
  | print (line : ω)

/-- How a handler ends. -/
inductive Return (μ : Type*) where
  | back (memory : μ)
  | exit (status : Nat)

/-- The statements of the process in order, and what the handler makes of the
variables it shares with no one else: what it shows, and how it ends. -/
structure Program (ω ν μ : Type*) where
  main : Nat → Statement ω
  handler : μ → ν × Return μ

inductive Ending where
  | killed
  | exited (status : Nat)
  deriving DecidableEq

/-- `pc` statements have been executed. What is shown comes from the process
or from its handler. -/
structure Process (ω ν μ : Type*) where
  pc : Nat
  disposition : Disposition
  blocked : Bool
  pending : Bool
  handling : Bool
  memory : μ
  shown : List (ω ⊕ ν)
  ended : Option Ending

inductive Action where
  | send
  | deliver
  | handle
  | run
  deriving DecidableEq

variable {ω ν μ : Type*}

def start (memory : μ) : Process ω ν μ := ⟨0, .default, false, false, false, memory, [], none⟩

/-- The delivery of the pending signal. -/
def Process.take (s : Process ω ν μ) : Process ω ν μ :=
  match s.disposition with
  | .default => { s with pending := false, ended := some .killed }
  | .ignore => { s with pending := false }
  | .handler => { s with pending := false, handling := true }

/-- A statement. Ignoring the signal throws a pending one away, and unblocking
it delivers a pending one before the call returns. -/
def Process.execute (s : Process ω ν μ) : Statement ω → Process ω ν μ
  | .signal disposition =>
    { s with pc := s.pc + 1, disposition := disposition, pending := s.pending && disposition ≠ .ignore }
  | .block => { s with pc := s.pc + 1, blocked := true }
  | .unblock =>
    if s.pending then { s with pc := s.pc + 1, blocked := false }.take else { s with pc := s.pc + 1, blocked := false }
  | .print line => { s with pc := s.pc + 1, shown := s.shown ++ [.inl line] }

/-- The handler from its beginning to its end. -/
def Process.handle (program : Program ω ν μ) (s : Process ω ν μ) : Process ω ν μ :=
  match program.handler s.memory with
  | (message, .back memory) => { s with handling := false, memory := memory, shown := s.shown ++ [.inr message] }
  | (message, .exit status) =>
    { s with handling := false, shown := s.shown ++ [.inr message], ended := some (.exited status) }

/-- A signal that is sent is thrown away if it is ignored and not blocked. -/
def step (program : Program ω ν μ) (s : Process ω ν μ) (action : Action) : Option (Process ω ν μ) :=
  if s.ended ≠ none then none
  else
    match action with
    | .send => some { s with pending := s.pending || s.blocked || s.disposition ≠ .ignore }
    | .deliver => if s.pending && !s.blocked && !s.handling then some s.take else none
    | .handle => if s.handling then some (s.handle program) else none
    | .run => if s.handling then none else some (s.execute (program.main s.pc))

section Steps
variable {program : Program ω ν μ} {s next : Process ω ν μ} {action : Action}

/-- What a step can be. -/
theorem step_cases (taken : step program s action = some next) :
    s.ended = none ∧
      ((action = .send ∧ next = { s with pending := s.pending || s.blocked || s.disposition ≠ .ignore }) ∨
        (action = .deliver ∧ s.pending = true ∧ s.blocked = false ∧ s.handling = false ∧ next = s.take) ∨
        (action = .handle ∧ s.handling = true ∧ next = s.handle program) ∨
        (action = .run ∧ s.handling = false ∧ next = s.execute (program.main s.pc))) := by
  by_cases ended : s.ended = none
  · refine ⟨ended, ?_⟩
    unfold step at taken
    rw [if_neg (not_not.mpr ended)] at taken
    cases action with
    | send => exact .inl ⟨rfl, (Option.some.inj taken).symm⟩
    | deliver =>
      obtain ⟨deliverable, same⟩ := Option.ite_none_right_eq_some.mp taken
      simp only [Bool.and_eq_true, Bool.not_eq_true'] at deliverable
      exact .inr (.inl ⟨rfl, deliverable.1.1, deliverable.1.2, deliverable.2, (Option.some.inj same).symm⟩)
    | handle =>
      obtain ⟨handling, same⟩ := Option.ite_none_right_eq_some.mp taken
      exact .inr (.inr (.inl ⟨rfl, handling, (Option.some.inj same).symm⟩))
    | run =>
      obtain ⟨free, same⟩ := Option.ite_none_left_eq_some.mp taken
      exact .inr (.inr (.inr ⟨rfl, Bool.eq_false_iff.mpr free, (Option.some.inj same).symm⟩))
  · unfold step at taken
    rw [if_pos ended] at taken
    cases taken

/-! ### What a process shows of its own -/

def Statement.line : Statement ω → Option ω
  | .print line => some line
  | _ => none

/-- The lines of the first statements. -/
def Program.lines (program : Program ω ν μ) (count : Nat) : List ω :=
  (List.range count).filterMap fun i => (program.main i).line

theorem take_shown (s : Process ω ν μ) : s.take.shown = s.shown ∧ s.take.pc = s.pc := by
  unfold Process.take
  cases s.disposition <;> exact ⟨rfl, rfl⟩

theorem execute_shown (s : Process ω ν μ) (statement : Statement ω) :
    (s.execute statement).shown = s.shown ++ statement.line.toList.map .inl ∧ (s.execute statement).pc = s.pc + 1 := by
  cases statement with
  | signal disposition => exact ⟨(List.append_nil _).symm, rfl⟩
  | block => exact ⟨(List.append_nil _).symm, rfl⟩
  | unblock =>
    have same := take_shown { s with pc := s.pc + 1, blocked := false }
    unfold Process.execute
    by_cases pending : s.pending = true
    · simpa [pending, Statement.line] using same
    · simp [pending, Statement.line]
  | print line => exact ⟨rfl, rfl⟩

theorem handle_shown (program : Program ω ν μ) (s : Process ω ν μ) :
    (s.handle program).shown = s.shown ++ [.inr (program.handler s.memory).1] ∧ (s.handle program).pc = s.pc := by
  unfold Process.handle
  split <;> rename_i returned <;> rw [returned] <;> exact ⟨rfl, rfl⟩

/-- Whatever signals come in between, a process shows its own lines in order
and each once. -/
theorem shows_lines {memory : μ} {actions : List Action}
    (ran : Transition.run (step program) (start memory) actions = some s) :
    s.shown.filterMap Sum.getLeft? = program.lines s.pc := by
  refine run_keeps (fun s : Process ω ν μ => s.shown.filterMap Sum.getLeft? = program.lines s.pc) rfl ?_ ran
  intro s action next held taken
  obtain ⟨-, ⟨-, rfl⟩ | ⟨-, -, -, -, rfl⟩ | ⟨-, -, rfl⟩ | ⟨-, -, rfl⟩⟩ := step_cases taken
  · exact held
  · rw [(take_shown s).1, (take_shown s).2, held]
  · obtain ⟨shown, pc⟩ := handle_shown program s
    simp [shown, pc, held]
  · obtain ⟨shown, pc⟩ := execute_shown s (program.main s.pc)
    rw [shown, pc, List.filterMap_append, held, Program.lines, Program.lines, List.range_succ, List.filterMap_append]
    cases line : (program.main s.pc).line <;> simp [line]

/-! ### How often a handler runs -/

theorem take_signals (s : Process ω ν μ) (free : s.handling = false) :
    s.take.handling.toNat + s.take.pending.toNat ≤ 1 := by
  unfold Process.take
  cases s.disposition <;> simp [free]

theorem execute_signals (s : Process ω ν μ) (free : s.handling = false) (statement : Statement ω) :
    (s.execute statement).handling.toNat + (s.execute statement).pending.toNat ≤ s.pending.toNat := by
  cases statement with
  | signal disposition =>
    simp only [Process.execute, free, Bool.toNat_false, Nat.zero_add]
    cases s.pending <;> simp [Bool.toNat_le]
  | block => simp [Process.execute, free]
  | unblock =>
    cases waits : s.pending with
    | true => simpa [Process.execute, waits] using take_signals { s with pc := s.pc + 1, blocked := false } free
    | false => simp [Process.execute, waits, free]
  | print line => simp [Process.execute, free]

theorem handle_signals (program : Program ω ν μ) (s : Process ω ν μ) :
    (s.handle program).handling = false ∧ (s.handle program).pending = s.pending := by
  unfold Process.handle
  split <;> exact ⟨rfl, rfl⟩

/-- A handler runs at most once for each time the signal is sent. -/
theorem handled_le_sent {memory : μ} {actions : List Action}
    (ran : Transition.run (step program) (start memory) actions = some s) :
    actions.count .handle + s.handling.toNat + s.pending.toNat ≤ actions.count .send := by
  refine run_history (fun history s => history.count .handle + s.handling.toNat + s.pending.toNat ≤ history.count .send)
    (Nat.le_refl 0) ?_ ran
  intro history s action next _ held taken
  rw [List.count_append, List.count_append]
  obtain ⟨-, ⟨rfl, rfl⟩ | ⟨rfl, waits, -, free, rfl⟩ | ⟨rfl, handling, rfl⟩ | ⟨rfl, free, rfl⟩⟩ := step_cases taken
  · show history.count .handle + 0 + s.handling.toNat + (s.pending || s.blocked || s.disposition ≠ .ignore).toNat ≤
      history.count .send + 1
    have merged := Bool.toNat_le (s.pending || s.blocked || s.disposition ≠ .ignore)
    omega
  · show history.count .handle + 0 + s.take.handling.toNat + s.take.pending.toNat ≤ history.count .send + 0
    have passed := take_signals s free
    rw [waits, Bool.toNat_true] at held
    omega
  · show history.count .handle + 1 + (s.handle program).handling.toNat + (s.handle program).pending.toNat ≤
      history.count .send + 0
    obtain ⟨done, waits⟩ := handle_signals program s
    rw [handling, Bool.toNat_true] at held
    rw [done, waits, Bool.toNat_false]
    omega
  · show history.count .handle + 0 + (s.execute (program.main s.pc)).handling.toNat +
      (s.execute (program.main s.pc)).pending.toNat ≤ history.count .send + 0
    have passed := execute_signals s free (program.main s.pc)
    omega

/-! ### A stretch of statements that a signal shall not end -/

/-- How the stretch is protected. -/
inductive Protection where
  | ignoring
  | handling
  | blocking

def Protection.begin : Protection → Statement ω
  | .ignoring => .signal .ignore
  | .handling => .signal .handler
  | .blocking => .block

def Protection.finish : Protection → Statement ω
  | .ignoring | .handling => .signal .default
  | .blocking => .unblock

/-- The statements `first` and `last` begin and finish the protection, and all
others show something. -/
structure Protects (program : Program ω ν μ) (protection : Protection) (first last : Nat) : Prop where
  order : first < last
  begins : program.main first = protection.begin
  finishes : program.main last = protection.finish
  others : ∀ n, n ≠ first → n ≠ last → ∃ line, program.main n = .print line

/-- The signal is only sent while the protection is up. -/
def Within (first last : Nat) (s : Process ω ν μ) (action : Action) : Prop :=
  action = .send → first < s.pc ∧ s.pc ≤ last

/-- The protection does not end with a signal pending. -/
def Timely (last : Nat) (s : Process ω ν μ) (action : Action) : Prop :=
  action = .run → s.pc = last → s.pending = false

instance (first last : Nat) (s : Process ω ν μ) (action : Action) : Decidable (Within first last s action) :=
  inferInstanceAs (Decidable (action = .send → first < s.pc ∧ s.pc ≤ last))

instance (last : Nat) (s : Process ω ν μ) (action : Action) : Decidable (Timely last s action) :=
  inferInstanceAs (Decidable (action = .run → s.pc = last → s.pending = false))

variable {protection : Protection} {first last : Nat} {memory : μ} {actions : List Action}

/-- No signal is on its way to the process. -/
def Quiet (disposition : Disposition) (s : Process ω ν μ) : Prop :=
  s.disposition = disposition ∧ s.blocked = false ∧ s.pending = false ∧ s.handling = false ∧ s.ended = none

theorem quiet_step {disposition : Disposition} (quiet : Quiet disposition s) (taken : step program s action = some next)
    (ignored : action = .send → disposition = .ignore)
    (shows : action ≠ .run ∨ ∃ line, next = s.execute (.print line)) :
    Quiet disposition next := by
  obtain ⟨same, blocked, pending, handling, ended⟩ := quiet
  obtain ⟨-, ⟨rfl, rfl⟩ | ⟨-, waits, -⟩ | ⟨-, handles, -⟩ | ⟨rfl, -, -⟩⟩ := step_cases taken
  · exact ⟨same, blocked, by simp [pending, blocked, same, ignored rfl], handling, ended⟩
  · rw [pending] at waits
    cases waits
  · rw [handling] at handles
    cases handles
  · rcases shows with other | ⟨line, rfl⟩
    · exact absurd rfl other
    · exact ⟨same, blocked, pending, handling, ended⟩

/-- A run comes by the two statements: what holds before them, between them and
behind them, as long as the statements that begin and finish the protection
bring it about and everything else keeps it. -/
theorem run_stretch (protects : Protects program protection first last)
    (Inside After : List Action → Process ω ν μ → Prop)
    (begins : ∀ history s, Transition.run (step program) (start memory) history = some s → .send ∉ history →
      Quiet .default s → s.pc = first → Inside (history ++ [.run]) (s.execute protection.begin))
    (finishes : ∀ history s, Transition.run (step program) (start memory) history = some s → Inside history s →
      s.ended = none → s.handling = false → s.pc = last → After (history ++ [.run]) (s.execute protection.finish))
    (inside : ∀ history s action next, Transition.run (step program) (start memory) history = some s →
      Inside history s → step program s action = some next →
      (action ≠ .run ∨ s.pc ≠ last ∧ ∃ line, next = s.execute (.print line)) → Inside (history ++ [action]) next)
    (after : ∀ history s action next, Transition.run (step program) (start memory) history = some s →
      After history s → step program s action = some next → action ≠ .send →
      (action ≠ .run ∨ s.pc ≠ last ∧ ∃ line, next = s.execute (.print line)) → After (history ++ [action]) next)
    (within : Along (step program) (Within first last) (start memory) actions)
    (ran : Transition.run (step program) (start memory) actions = some s) :
    (s.pc ≤ first → .send ∉ actions ∧ Quiet .default s) ∧ (first < s.pc → s.pc ≤ last → Inside actions s) ∧
      (last < s.pc → After actions s) := by
  have order := protects.order
  refine run_history_along (fun history (s : Process ω ν μ) => (s.pc ≤ first → .send ∉ history ∧ Quiet .default s) ∧
    (first < s.pc → s.pc ≤ last → Inside history s) ∧ (last < s.pc → After history s)) ?_ ?_ within ran
  · exact ⟨fun _ => ⟨List.not_mem_nil, rfl, rfl, rfl, rfl, rfl⟩, fun later => absurd later (Nat.not_lt_zero _),
      fun later => absurd later (Nat.not_lt_zero _)⟩
  · rintro history s action next reached ⟨before, between, behind⟩ within taken
    -- An action other than a statement leaves the process where it is.
    have stays (samePc : next.pc = s.pc) (other : action ≠ .run) :
        (next.pc ≤ first → .send ∉ history ++ [action] ∧ Quiet .default next) ∧
          (first < next.pc → next.pc ≤ last → Inside (history ++ [action]) next) ∧
            (last < next.pc → After (history ++ [action]) next) := by
      rw [samePc]
      refine ⟨fun early => ?_, fun late early => inside _ _ _ _ reached (between late early) taken (.inl other),
        fun late => after _ _ _ _ reached (behind late) taken (fun sent => ?_) (.inl other)⟩
      · have unsent : action ≠ .send := by
          intro sent
          have := (within sent).1
          omega
        exact ⟨by simpa [(before early).1] using unsent.symm,
          quiet_step (before early).2 taken (fun sent => absurd sent unsent) (.inl other)⟩
      · have := (within sent).2
        omega
    obtain ⟨ended, ⟨rfl, rfl⟩ | ⟨rfl, -, -, -, rfl⟩ | ⟨rfl, -, rfl⟩ | ⟨rfl, free, rfl⟩⟩ := step_cases taken
    · exact stays rfl (by decide)
    · exact stays (take_shown s).2 (by decide)
    · exact stays (handle_shown program s).2 (by decide)
    · have pc := (execute_shown s (program.main s.pc)).2
      rw [pc]
      by_cases atFirst : s.pc = first
      · obtain ⟨unsent, quiet⟩ := before atFirst.le
        refine ⟨fun early => by omega, fun _ _ => ?_, fun late => by omega⟩
        rw [atFirst, protects.begins]
        exact begins history s reached unsent quiet atFirst
      by_cases atLast : s.pc = last
      · refine ⟨fun early => by omega, fun _ early => by omega, fun _ => ?_⟩
        have held := between (by omega) (by omega)
        rw [atLast, protects.finishes]
        exact finishes history s reached held ended free atLast
      obtain ⟨line, shows⟩ := protects.others s.pc atFirst atLast
      rw [shows] at taken ⊢
      refine ⟨fun early => ?_, fun late early => ?_, fun late => ?_⟩
      · obtain ⟨unsent, quiet⟩ := before (by omega)
        exact ⟨by simp [unsent], quiet⟩
      · exact inside _ _ _ _ reached (between (by omega) (by omega)) taken (.inr ⟨atLast, line, rfl⟩)
      · exact after _ _ _ _ reached (behind (by omega)) taken (by decide) (.inr ⟨atLast, line, rfl⟩)

/-- A signal that is ignored is gone: sent under the protection, it never ends
the process. -/
theorem ignored_survives (protects : Protects program .ignoring first last)
    (within : Along (step program) (Within first last) (start memory) actions)
    (ran : Transition.run (step program) (start memory) actions = some s) : s.ended = none := by
  obtain ⟨before, between, behind⟩ := run_stretch protects (fun _ => Quiet .ignore) (fun _ => Quiet .default)
    (by
      rintro history s - - ⟨-, blocked, pending, handling, ended⟩ -
      exact ⟨rfl, blocked, by simp [Process.execute, Protection.begin, pending], handling, ended⟩)
    (by
      rintro history s - ⟨-, blocked, pending, handling, ended⟩ - - -
      exact ⟨rfl, blocked, by simp [Process.execute, Protection.finish, pending], handling, ended⟩)
    (by
      intro history s action next _ quiet taken shows
      exact quiet_step quiet taken (fun _ => rfl) (shows.imp_right And.right))
    (by
      intro history s action next _ quiet taken unsent shows
      exact quiet_step quiet taken (fun sent => absurd sent unsent) (shows.imp_right And.right))
    within ran
  rcases Nat.lt_or_ge first s.pc with late | early
  · rcases Nat.lt_or_ge last s.pc with later | inside
    · exact (behind later).2.2.2.2
    · exact (between late inside).2.2.2.2
  · exact (before early).2.2.2.2.2

/-- A signal that is blocked is kept: the process ends with the protection, and
shows nothing behind it, exactly if one has been sent. -/
theorem blocked_waits (protects : Protects program .blocking first last)
    (within : Along (step program) (Within first last) (start memory) actions)
    (ran : Transition.run (step program) (start memory) actions = some s) :
    (s.pc ≤ last → s.ended = none) ∧
      (last < s.pc →
        (.send ∈ actions ∧ s.ended = some .killed ∧ s.pc = last + 1) ∨ (.send ∉ actions ∧ s.ended = none)) := by
  obtain ⟨before, between, behind⟩ := run_stretch protects
    (fun history s => s.disposition = .default ∧ s.blocked = true ∧ s.handling = false ∧ s.ended = none ∧
      (s.pending = true ↔ .send ∈ history))
    (fun history s =>
      (.send ∈ history ∧ s.ended = some .killed ∧ s.pc = last + 1) ∨ (.send ∉ history ∧ Quiet .default s))
    (by
      rintro history s - unsent ⟨disposition, -, pending, handling, ended⟩ -
      exact ⟨disposition, rfl, handling, ended, by simp [Process.execute, Protection.begin, pending, unsent]⟩)
    (by
      rintro history s - ⟨disposition, -, handling, -, sent⟩ ended - pc
      by_cases pending : s.pending = true
      · exact .inl (by
          simp [Process.execute, Protection.finish, Process.take, pending, disposition, sent.mp pending, pc])
      · exact .inr ⟨by simpa using fun member => pending (sent.mpr member),
          by simp [Process.execute, Protection.finish, pending, Quiet, disposition, handling, ended]⟩)
    (by
      rintro history s action next - ⟨disposition, blocked, handling, ended, sent⟩ taken shows
      obtain ⟨-, ⟨rfl, rfl⟩ | ⟨-, -, unblocked, -⟩ | ⟨-, handles, -⟩ | ⟨rfl, -, -⟩⟩ := step_cases taken
      · exact ⟨disposition, blocked, handling, ended, by simp [blocked]⟩
      · rw [blocked] at unblocked
        cases unblocked
      · rw [handling] at handles
        cases handles
      · rcases shows with other | ⟨-, line, rfl⟩
        · exact absurd rfl other
        · exact ⟨disposition, blocked, handling, ended, by simpa [Process.execute] using sent⟩)
    (by
      rintro history s action next - held taken unsent shows
      rcases held with ⟨-, ended, -⟩ | ⟨never, quiet⟩
      · have alive := (step_cases taken).1
        rw [ended] at alive
        cases alive
      · exact .inr ⟨by simpa [never] using unsent.symm,
          quiet_step quiet taken (fun sent => absurd sent unsent) (shows.imp_right And.right)⟩)
    within ran
  refine ⟨fun early => ?_, fun late => ?_⟩
  · rcases Nat.lt_or_ge first s.pc with inside | outside
    · exact (between inside early).2.2.2.1
    · exact (before outside).2.2.2.2.2
  · exact (behind late).imp_right (And.imp_right fun quiet => quiet.2.2.2.2)

theorem step_pc (taken : step program s action = some next) :
    next.pc = s.pc ∧ action ≠ .run ∨ next.pc = s.pc + 1 ∧ action = .run := by
  obtain ⟨-, ⟨rfl, rfl⟩ | ⟨rfl, -, -, -, rfl⟩ | ⟨rfl, -, rfl⟩ | ⟨rfl, -, rfl⟩⟩ := step_cases taken
  · exact .inl ⟨rfl, by decide⟩
  · exact .inl ⟨(take_shown s).2, by decide⟩
  · exact .inl ⟨(handle_shown program s).2, by decide⟩
  · exact .inr ⟨(execute_shown s _).2, rfl⟩

/-- The end of the protection is not late before it is there. -/
theorem timely_early (ran : Transition.run (step program) (start memory) actions = some s) (early : s.pc ≤ last) :
    Along (step program) (Timely last) (start memory) actions := by
  refine run_history (fun history s => s.pc ≤ last → Along (step program) (Timely last) (start memory) history)
    (fun _ => trivial) ?_ ran early
  intro history s action next reached held taken early
  refine (along_concat reached).mpr ?_
  rcases step_pc taken with ⟨pc, other⟩ | ⟨pc, -⟩
  · exact ⟨held (pc ▸ early), fun runs => absurd runs other⟩
  · exact ⟨held (by omega), fun _ atLast => by omega⟩

/-- A signal that is handled is gone once its handler runs: sent under the
protection, it ends the process exactly if it is still pending when the
protection ends. -/
theorem handled_survives_iff (protects : Protects program .handling first last)
    (returns : ∀ memory, ∃ message later, program.handler memory = (message, .back later))
    (within : Along (step program) (Within first last) (start memory) actions)
    (ran : Transition.run (step program) (start memory) actions = some s) :
    (s.pc ≤ last → s.ended = none) ∧
      (last < s.pc →
        (Along (step program) (Timely last) (start memory) actions ↔ s.ended = none ∧ s.pending = false)) := by
  obtain ⟨before, between, behind⟩ := run_stretch protects
    (fun _ s => s.disposition = .handler ∧ s.blocked = false ∧ s.ended = none)
    (fun history s => s.disposition = .default ∧ s.blocked = false ∧ s.handling = false ∧
      ((Along (step program) (Timely last) (start memory) history ∧ s.ended = none ∧ s.pending = false) ∨
        (¬ Along (step program) (Timely last) (start memory) history ∧ (s.ended ≠ none ∨ s.pending = true))))
    (by
      rintro history s - - ⟨-, blocked, -, -, ended⟩ -
      exact ⟨rfl, blocked, ended⟩)
    (by
      rintro history s reached ⟨-, blocked, -⟩ ended handling pc
      refine ⟨rfl, blocked, handling, ?_⟩
      rw [along_concat reached]
      cases pending : s.pending with
      | true => exact .inr ⟨fun timely => by simpa [pending] using timely.2 rfl pc, .inr (by
          simp [Process.execute, Protection.finish, pending])⟩
      | false => exact .inl ⟨⟨timely_early reached pc.le, fun _ _ => pending⟩, ended, by
          simp [Process.execute, Protection.finish, pending]⟩)
    (by
      rintro history s action next - ⟨disposition, blocked, ended⟩ taken shows
      obtain ⟨-, ⟨rfl, rfl⟩ | ⟨-, -, -, -, rfl⟩ | ⟨-, -, rfl⟩ | ⟨rfl, -, -⟩⟩ := step_cases taken
      · exact ⟨disposition, blocked, ended⟩
      · simp [Process.take, disposition, blocked, ended]
      · obtain ⟨message, later, back⟩ := returns s.memory
        simp [Process.handle, back, disposition, blocked, ended]
      · rcases shows with other | ⟨-, line, rfl⟩
        · exact absurd rfl other
        · exact ⟨disposition, blocked, ended⟩)
    (by
      rintro history s action next reached ⟨disposition, blocked, handling, fate⟩ taken unsent shows
      have timely : Timely last s action := by
        intro runs pc
        rcases shows with other | ⟨elsewhere, -⟩
        · exact absurd runs other
        · exact absurd pc elsewhere
      rw [along_concat reached, and_iff_left timely]
      obtain ⟨alive, ⟨rfl, -⟩ | ⟨-, waits, -, -, rfl⟩ | ⟨-, handles, -⟩ | ⟨rfl, -, -⟩⟩ := step_cases taken
      · exact absurd rfl unsent
      · rcases fate with ⟨-, -, none⟩ | ⟨late, -⟩
        · rw [none] at waits
          cases waits
        · simp [Process.take, disposition, blocked, handling, late]
      · rw [handling] at handles
        cases handles
      · rcases shows with other | ⟨-, line, rfl⟩
        · exact absurd rfl other
        · exact ⟨disposition, blocked, handling, fate⟩)
    within ran
  refine ⟨fun early => ?_, fun late => ?_⟩
  · rcases Nat.lt_or_ge first s.pc with inside | outside
    · exact (between inside early).2.2
    · exact (before outside).2.2.2.2.2
  · obtain ⟨-, -, -, ⟨timely, fine⟩ | ⟨late, doomed⟩⟩ := behind late
    · exact ⟨fun _ => fine, fun _ => timely⟩
    · refine ⟨fun timely => absurd timely late, fun fine => ?_⟩
      rcases doomed with ended | pending
      · exact absurd fine.1 ended
      · rw [fine.2] at pending
        cases pending

end Steps

end SysProg.Signals
