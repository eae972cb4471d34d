import SysProg.PipelineFlow

/-! Who has the pipes of `exec_pipeline` open: a stage that has not ended has its
own ends, even before it is forked, when the shell has them; and once the shell
and all stages have closed what they must, nobody else has them. -/
namespace SysProg.PipelineStreams
open Descriptors Filters Transition PipelineFlow
open PipelinePlumbing (File ends)

variable {δ σ : Type*}

/-! ### Steps -/

/-- What a step does, with the condition it is taken under. -/
inductive Taken (c : Pipeline δ σ) (s : State σ) : Action → State σ → Prop where
  | fork (more : s.stages.length < c.num) :
      Taken c s .shell { s with stages := s.stages ++ [⟨s.shell, .setup 0⟩] }
  | close {call} (all : c.num ≤ s.stages.length) (next : ((ends c.pipes).map Call.close)[s.closed]? = some call) :
      Taken c s .shell { s with shell := call.apply s.shell, closed := s.closed + 1 }
  | wait {table} (all : c.num ≤ s.stages.length) (closed : (ends c.pipes).length ≤ s.closed)
      (ended : s.stages[s.waited]? = some ⟨table, .ended⟩) : Taken c s .shell { s with waited := s.waited + 1 }
  | call {i made table call} (here : s.stages[i]? = some ⟨table, .setup made⟩)
      (next : (c.stageCalls i)[made]? = some call) :
      Taken c s (.stage i) (s.put i (call.apply table) (.setup (made + 1)))
  | exec {i made table program} (here : s.stages[i]? = some ⟨table, .setup made⟩)
      (ready : (c.stageCalls i).length ≤ made) (starts : c.programs[i]? = some program) :
      Taken c s (.stage i) (s.put i table (.running program))
  | request {i table state next} (here : s.stages[i]? = some ⟨table, .running state⟩)
      (served : request c s i table state = some next) : Taken c s (.stage i) next

section Steps
variable {c : Pipeline δ σ} {s next : State σ} {action : Action} {i : Nat} {table : Table (File Std)} {state : σ}

theorem step_taken (taken : step c s action = some next) : Taken c s action next := by
  cases action with
  | shell =>
    simp only [step] at taken
    split at taken
    next more =>
      cases taken
      exact .fork more
    next all =>
      rw [Nat.not_lt] at all
      split at taken
      next call next =>
        cases taken
        exact .close all next
      next done =>
        split at taken
        next table ended =>
          cases taken
          exact .wait all (by simpa using done) ended
        next => cases taken
  | stage i =>
    obtain ⟨⟨table, phase⟩, here, taken⟩ := Option.bind_eq_some_iff.mp taken
    cases phase with
    | setup made =>
      simp only at taken
      split at taken
      next call next =>
        cases taken
        exact .call here next
      next ready =>
        obtain ⟨program, starts, same⟩ := Option.map_eq_some_iff.mp taken
        cases same
        exact .exec here (List.getElem?_eq_none_iff.mp ready) starts
    | running state => exact .request here taken
    | ended => cases taken

/-- The requests of a program whose descriptors are in place. -/
inductive Served (c : Pipeline δ σ) (s : State σ) (i : Nat) (table : Table (File Std)) (state : σ) :
    State σ → Prop where
  | exit (asks : c.next state = .exit) : Served c s i table state (s.ends i)
  | stdin {resume} (asks : c.next state = .read resume) (first : i = 0) : Served c s i table state
      { s.put i table (.running (resume s.input.head?)) with input := s.input.tail }
  | byte {resume pipe byte rest} (asks : c.next state = .read resume) (behind : i = pipe + 1)
      (filled : s.contents pipe = byte :: rest) : Served c s i table state
      ((s.put i table (.running (resume (some byte)))).fill pipe rest)
  | eof {resume pipe} (asks : c.next state = .read resume) (behind : i = pipe + 1) (empty : s.contents pipe = [])
      (closed : ¬ s.Open c.maxFiles (.writeEnd pipe)) : Served c s i table state
      (s.put i table (.running (resume none)))
  | stdout {byte resume} (asks : c.next state = .write byte resume) (last : i + 1 = c.num) : Served c s i table state
      { s.put i table (.running resume) with output := s.output ++ [byte] }
  | write {byte resume} (asks : c.next state = .write byte resume) (before : i + 1 < c.num)
      (fits : (s.contents i).length < c.capacity) : Served c s i table state
      ((s.put i table (.running resume)).fill i (s.contents i ++ [byte]))
  | broken {byte resume} (asks : c.next state = .write byte resume) (before : i + 1 < c.num)
      (closed : ¬ s.Open c.maxFiles (.readEnd i)) : Served c s i table state (s.ends i)

/-- The standard descriptors of the stage are where they belong. -/
def StdInPlace (c : Pipeline δ σ) (i : Nat) (table : Table (File Std)) : Prop :=
  table 0 = some (Pipeline.source i) ∧ table 1 = some (c.sink i)

theorem request_served (inside : i < c.num) (std : StdInPlace c i table)
    (served : request c s i table state = some next) : Served c s i table state next := by
  unfold request at served
  cases asks : c.next state with
  | exit =>
    simp only [asks, Option.some.injEq] at served
    exact served ▸ .exit asks
  | read resume =>
    cases i with
    | zero =>
      simp only [asks, std.1, Pipeline.source, if_true, Option.some.injEq] at served
      exact served ▸ .stdin asks rfl
    | succ pipe =>
      simp only [asks, std.1, Pipeline.source, Nat.add_eq_zero_iff, Nat.one_ne_zero, and_false, if_false,
        Nat.add_sub_cancel] at served
      split at served
      next byte rest filled =>
        cases served
        exact .byte asks rfl filled
      next empty =>
        split at served
        next => cases served
        next closed =>
          cases served
          exact .eof asks rfl empty closed
  | write byte resume =>
    by_cases before : i + 1 < c.num
    · simp only [asks, std.2, Pipeline.sink, if_pos before] at served
      split at served
      next opened =>
        split at served
        next fits =>
          cases served
          exact .write asks before fits
        next => cases served
      next closed =>
        cases served
        exact .broken asks before closed
    · simp only [asks, std.2, Pipeline.sink, if_neg before, Option.some.injEq] at served
      exact served ▸ .stdout asks (by omega)

end Steps

/-! ### Where the ends of the pipes are -/

/-- The table of a stage is what its calls have made of the one it inherited. -/
def InPlace (c : Pipeline δ σ) (i : Nat) (stage : Stage σ) : Prop :=
  match stage.phase with
  | .setup made => made ≤ (c.stageCalls i).length ∧ stage.table = applyAll ((c.stageCalls i).take made) c.base
  | .running _ => stage.table = applyAll (c.stageCalls i) c.base
  | .ended => stage.table = fun _ => none

structure Plumbed (c : Pipeline δ σ) (s : State σ) : Prop where
  shell : s.shell = applyAll (((ends c.pipes).map Call.close).take s.closed) c.base
  few : s.stages.length ≤ c.num ∧ s.closed ≤ (ends c.pipes).length ∧ s.waited ≤ s.stages.length
  unclosed : s.stages.length < c.num → s.closed = 0
  unwaited : s.closed < (ends c.pipes).length → s.waited = 0
  waitedFor : ∀ i < s.waited, ∃ table, s.stages[i]? = some ⟨table, .ended⟩
  stages : ∀ i stage, s.stages[i]? = some stage → InPlace c i stage

section Invariant
variable {c : Pipeline δ σ} {s next : State σ} {i : Nat} {table : Table (File Std)} {state : σ} {stage : Stage σ}

theorem plumbed_start (c : Pipeline δ σ) (input : List UInt8) : Plumbed c (start c input) where
  shell := rfl
  few := ⟨Nat.zero_le _, Nat.zero_le _, Nat.le_refl _⟩
  unclosed _ := rfl
  unwaited _ := rfl
  waitedFor i before := absurd before (Nat.not_lt_zero i)
  stages i stage found := by simp [start] at found

theorem inside_of_stage (plumbed : Plumbed c s) (found : s.stages[i]? = some stage) : i < c.num :=
  lt_of_lt_of_le (List.getElem?_eq_some_iff.mp found).1 plumbed.few.1

theorem std_of_running (inside : i < c.num) (place : InPlace c i ⟨table, .running state⟩) :
    StdInPlace c i table := by
  obtain rfl : table = applyAll (c.stageCalls i) c.base := place
  exact ⟨by rw [stage_table inside, if_pos rfl], by rw [stage_table inside, if_neg (by decide), if_pos rfl]⟩

/-- One stage may be replaced by one that is further on. -/
theorem plumbed_put (plumbed : Plumbed c s) (found : s.stages[i]? = some stage) (unended : stage.phase ≠ .ended)
    {new : Stage σ} (place : InPlace c i new) (stages : next.stages = s.stages.set i new)
    (shell : next.shell = s.shell) (closed : next.closed = s.closed) (waited : next.waited = s.waited) :
    Plumbed c next where
  shell := by rw [shell, closed, plumbed.shell]
  few := by simpa only [stages, List.length_set, closed, waited] using plumbed.few
  unclosed few := by
    rw [stages, List.length_set] at few
    rw [closed, plumbed.unclosed few]
  unwaited more := by
    rw [closed] at more
    rw [waited, plumbed.unwaited more]
  waitedFor j before := by
    obtain ⟨table, ended⟩ := plumbed.waitedFor j (waited ▸ before)
    have other : i ≠ j := by
      rintro rfl
      rw [found] at ended
      cases ended
      exact unended rfl
    exact ⟨table, by rw [stages, List.getElem?_set_ne other, ended]⟩
  stages j stage there := by
    rw [stages] at there
    by_cases same : i = j
    · subst same
      rw [List.getElem?_set_self (List.getElem?_eq_some_iff.mp found).1] at there
      cases there
      exact place
    · rw [List.getElem?_set_ne same] at there
      exact plumbed.stages j stage there

/-- A request leaves the stage in place or ends it, and nothing else changes in
the tables. -/
theorem served_frame (served : Served c s i table state next) (place : InPlace c i ⟨table, .running state⟩) :
    ∃ new, InPlace c i new ∧ (∀ made, new.phase ≠ .setup made) ∧ next.stages = s.stages.set i new ∧
      next.shell = s.shell ∧ next.closed = s.closed ∧ next.waited = s.waited := by
  have same : table = applyAll (c.stageCalls i) c.base := place
  cases served with
  | exit | broken => exact ⟨⟨_, .ended⟩, rfl, fun _ => by simp, rfl, rfl, rfl, rfl⟩
  | stdin | byte | eof | stdout | write => exact ⟨⟨table, .running _⟩, same, fun _ => by simp, rfl, rfl, rfl, rfl⟩

theorem plumbed_step {action : Action} (plumbed : Plumbed c s) (taken : step c s action = some next) :
    Plumbed c next := by
  obtain ⟨few, closedFew, waitedFew⟩ := plumbed.few
  cases step_taken taken with
  | fork more =>
    have none : s.closed = 0 := plumbed.unclosed more
    refine ⟨plumbed.shell, ⟨?_, closedFew, ?_⟩, fun _ => none, plumbed.unwaited, fun i before => ?_,
      fun i stage there => ?_⟩
    · simp only [List.length_append, List.length_singleton]
      omega
    · simp only [List.length_append, List.length_singleton]
      omega
    · obtain ⟨table, ended⟩ := plumbed.waitedFor i before
      exact ⟨table, List.getElem?_append_left (List.getElem?_eq_some_iff.mp ended).1 ▸ ended⟩
    · by_cases old : i < s.stages.length
      · rw [List.getElem?_append_left old] at there
        exact plumbed.stages i stage there
      · rw [List.getElem?_append_right (by omega), List.getElem?_singleton] at there
        split at there
        next => cases there; exact ⟨Nat.zero_le _, by rw [plumbed.shell, none]; rfl⟩
        next => cases there
  | close all close =>
    have inside : s.closed < (ends c.pipes).length := by
      simpa using (List.getElem?_eq_some_iff.mp close).1
    exact ⟨by rw [applyAll_take_succ close, plumbed.shell], ⟨few, inside, waitedFew⟩,
      fun less => absurd all (Nat.not_le.mpr less), fun _ => plumbed.unwaited inside, plumbed.waitedFor,
      plumbed.stages⟩
  | @wait table all closed ended =>
    have inside := (List.getElem?_eq_some_iff.mp ended).1
    refine ⟨plumbed.shell, ⟨few, closedFew, inside⟩, plumbed.unclosed,
      fun less => absurd closed (Nat.not_le.mpr less), fun i before => ?_, plumbed.stages⟩
    rcases Nat.lt_succ_iff_lt_or_eq.mp before with earlier | rfl
    · exact plumbed.waitedFor i earlier
    · exact ⟨table, ended⟩
  | call here nextCall =>
    have place : InPlace c _ _ := plumbed.stages _ _ here
    obtain ⟨-, made⟩ := place
    refine plumbed_put plumbed here (by simp) ?_ rfl rfl rfl rfl
    exact ⟨(List.getElem?_eq_some_iff.mp nextCall).1, by rw [applyAll_take_succ nextCall, ← made]⟩
  | exec here ready starts =>
    obtain ⟨-, made⟩ : InPlace c _ _ := plumbed.stages _ _ here
    refine plumbed_put plumbed here (by simp) ?_ rfl rfl rfl rfl
    rwa [List.take_of_length_le ready] at made
  | request here served =>
    have inside := inside_of_stage plumbed here
    have place := plumbed.stages _ _ here
    obtain ⟨new, placed, -, stages, shell, closed, waited⟩ :=
      served_frame (request_served inside (std_of_running inside place) served) place
    exact plumbed_put plumbed here (by simp) placed stages shell closed waited

/-! ### Who holds an end -/

/-- What a stage has inherited behind an end of a pipe, and redirects to a
standard descriptor, it holds all along. -/
theorem held_during (held : c.base fd = some file) (isEnd : fd ∈ ends c.pipes) (low : std ≤ 1)
    (redirected : applyAll (c.redirects i) c.base std = some file) (made : Nat) :
    ∃ fd < c.maxFiles, applyAll ((c.stageCalls i).take made) c.base fd = some file := by
  have above := end_above isEnd
  rw [Pipeline.stageCalls, List.take_append]
  rcases Nat.le_total made (c.redirects i).length with early | late
  · refine ⟨fd, above.2, ?_⟩
    rw [Nat.sub_eq_zero_of_le early, List.take_zero, List.append_nil, redirects_above made above.1, held]
  · refine ⟨std, by omega, ?_⟩
    rw [List.take_of_length_le late, applyAll_append, ← List.map_take, close_all, redirected, if_neg]
    intro closed
    have := (end_above (List.mem_of_mem_take closed)).1
    omega

/-- A process that has not ended has the ends of its own pipes open. -/
theorem open_end {file : File Std} (plumbed : Plumbed c s) (held : c.base fd = some file) (isEnd : fd ∈ ends c.pipes)
    (low : std ≤ 1) (redirected : applyAll (c.redirects i) c.base std = some file) (inside : i < c.num)
    (unended : ∀ table, s.stages[i]? ≠ some ⟨table, .ended⟩) : s.Open c.maxFiles file := by
  have during := held_during held isEnd low redirected
  cases found : s.stages[i]? with
  | none =>
    have few := List.getElem?_eq_none_iff.mp found
    refine .inl ⟨fd, (end_above isEnd).2, ?_⟩
    rw [plumbed.shell, plumbed.unclosed (by omega)]
    exact held
  | some stage =>
    refine .inr ⟨stage, List.mem_of_getElem? found, ?_⟩
    have place : InPlace c i stage := plumbed.stages i stage found
    obtain ⟨table, phase⟩ := stage
    cases phase with
    | setup made =>
      rw [show table = _ from place.2]
      exact during made
    | running state =>
      obtain ⟨fd, inside, there⟩ := during (c.stageCalls i).length
      rw [List.take_length] at there
      exact ⟨fd, inside, (congrFun (show table = _ from place) fd).trans there⟩
    | ended => exact absurd found (unended table)

theorem open_writeEnd (plumbed : Plumbed c s) (inside : i + 1 < c.num)
    (unended : ∀ table, s.stages[i]? ≠ some ⟨table, .ended⟩) : s.Open c.maxFiles (.writeEnd i) := by
  obtain ⟨pipe, found⟩ := exists_pipe c inside
  refine open_end plumbed (base_pipe found).2 (mem_ends found).2 (Nat.le_refl 1) ?_ (by omega) unended
  rw [(redirected_std (by omega)).2, Pipeline.sink, if_pos inside]

theorem open_readEnd (plumbed : Plumbed c s) (inside : i + 1 < c.num)
    (unended : ∀ table, s.stages[i + 1]? ≠ some ⟨table, .ended⟩) : s.Open c.maxFiles (.readEnd i) := by
  obtain ⟨pipe, found⟩ := exists_pipe c inside
  refine open_end plumbed (base_pipe found).1 (mem_ends found).1 (Nat.zero_le 1) ?_ inside unended
  rw [(redirected_std inside).1, Pipeline.source, if_neg (by omega), Nat.add_sub_cancel]

/-- Nothing is left to do before the programs and the waiting of the shell. -/
structure Settled (c : Pipeline δ σ) (s : State σ) : Prop where
  forked : s.stages.length = c.num
  closed : s.closed = (ends c.pipes).length
  executed : ∀ stage ∈ s.stages, ∀ made, stage.phase ≠ .setup made

/-- In the end only the stages of a pipe have it open. -/
theorem holder (plumbed : Plumbed c s) (settled : Settled c s) {file : File Std} (isEnd : ∀ ext, file ≠ .ext ext)
    (opened : s.Open c.maxFiles file) :
    ∃ i table state, i < c.num ∧ s.stages[i]? = some ⟨table, .running state⟩ ∧
      (Pipeline.source i = file ∨ c.sink i = file) := by
  rcases opened with ⟨fd, -, held⟩ | ⟨⟨table, phase⟩, member, fd, -, held⟩
  · rw [plumbed.shell, List.take_of_length_le (by rw [List.length_map, settled.closed]), close_all] at held
    split at held
    next => cases held
    next other => exact absurd (base_end held isEnd) other
  · obtain ⟨i, found⟩ := List.mem_iff_getElem?.mp member
    have inside := inside_of_stage plumbed found
    have place : InPlace c i _ := plumbed.stages i _ found
    cases phase with
    | setup made => exact absurd rfl (settled.executed _ member made)
    | ended =>
      rw [show table = _ from place] at held
      cases held
    | running state =>
      refine ⟨i, table, state, inside, found, ?_⟩
      have held := (congrFun (show table = _ from place) fd).symm.trans held
      rw [stage_table inside] at held
      split at held
      next => exact .inl (Option.some.inj held)
      split at held
      next => exact .inr (Option.some.inj held)
      split at held
      next => cases held
      next other => exact absurd (base_end held isEnd) other

theorem writer_of_open (plumbed : Plumbed c s) (settled : Settled c s) (opened : s.Open c.maxFiles (.writeEnd i)) :
    ∃ table state, s.stages[i]? = some ⟨table, .running state⟩ := by
  obtain ⟨j, table, state, inside, found, source | sink⟩ := holder plumbed settled (by simp) opened
  · simp only [Pipeline.source] at source
    split at source <;> cases source
  · simp only [Pipeline.sink] at sink
    split at sink
    · cases sink
      exact ⟨table, state, found⟩
    · cases sink

theorem reader_of_open (plumbed : Plumbed c s) (settled : Settled c s) (opened : s.Open c.maxFiles (.readEnd i)) :
    ∃ table state, s.stages[i + 1]? = some ⟨table, .running state⟩ := by
  obtain ⟨j, table, state, inside, found, source | sink⟩ := holder plumbed settled (by simp) opened
  · simp only [Pipeline.source] at source
    split at source
    · cases source
    · cases source
      rw [Nat.sub_add_cancel (by omega)]
      exact ⟨table, state, found⟩
  · simp only [Pipeline.sink] at sink
    split at sink <;> cases sink

end Invariant

end SysProg.PipelineStreams
