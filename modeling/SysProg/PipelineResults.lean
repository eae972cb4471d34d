import SysProg.PipelineStreams

/-! Every run of `exec_pipeline` with its stages is one of the chain of their
programs: what the shell and the stages do before `execvp` passes unnoticed, and
a pipe is at its end neither too early nor never. So the call returns, and what
has come out by then is what the programs compute one after another. -/
namespace SysProg.PipelineResults
open Descriptors Filters Transition PipelineFlow PipelineStreams
open PipelinePlumbing (File ends)
open PipelineParents (execPipeline)

variable {δ σ : Type*}

/-! ### The chain of the programs -/

def plan (c : Pipeline δ σ) : Plan UInt8 σ := ⟨c.num, c.next, c.capacity, c.room⟩

/-- A child that has not got so far yet is about to execute its program. -/
def status (c : Pipeline δ σ) (i : Nat) : Option (Stage σ) → Status σ
  | some ⟨_, .running state⟩ => .running state
  | some ⟨_, .ended⟩ => .ended
  | some ⟨_, .setup _⟩ | none =>
    match c.programs[i]? with
    | some program => .running program
    | none => .ended

def chain (c : Pipeline δ σ) (s : State σ) : Chain UInt8 σ where
  stages i := status c i s.stages[i]?
  streams i := if i = 0 then s.input else if i = c.num then s.output else s.contents (i - 1)

section Simulation
variable {c : Pipeline δ σ} {s next : State σ} {i : Nat} {table : Table (File Std)} {state : σ} {stage : Stage σ}

theorem chain_running (found : s.stages[i]? = some ⟨table, .running state⟩) :
    (chain c s).stages i = .running state := by
  simp only [chain, found, status]

theorem chain_set (inside : i < s.stages.length) (stages : next.stages = s.stages.set i stage) :
    (chain c next).stages = Function.update (chain c s).stages i (status c i (some stage)) := by
  funext j
  by_cases same : j = i
  · subst same
    simp only [chain, stages, List.getElem?_set_self inside, Function.update_self]
  · simp only [chain, stages, List.getElem?_set_ne (Ne.symm same), Function.update_of_ne same]

/-- A move that leads to the chain of a state. -/
theorem moves_chain {later : Chain UInt8 σ} (moves : Moves (plan c) (chain c s) i later)
    (stages : (chain c next).stages = later.stages) (streams : (chain c next).streams = later.streams) :
    Moves (plan c) (chain c s) i (chain c next) := by
  have same : chain c next = later := congrArg₂ Chain.mk stages streams
  exact same ▸ moves

/-- What a stage asks of the kernel it asks of its neighbours in the chain. -/
theorem served_moves (plumbed : Plumbed c s) (found : s.stages[i]? = some ⟨table, .running state⟩)
    (served : Served c s i table state next) : Moves (plan c) (chain c s) i (chain c next) := by
  have here := chain_running (c := c) found
  have listed := (List.getElem?_eq_some_iff.mp found).1
  have inside := inside_of_stage plumbed found
  have set {later : State σ} (table : Table (File Std)) (phase : Phase σ)
      (stages : later.stages = s.stages.set i ⟨table, phase⟩) :
      (chain c later).stages = Function.update (chain c s).stages i (status c i (some ⟨table, phase⟩)) :=
    chain_set listed stages
  cases served with
  | exit asks => exact moves_chain (.exit here asks) (set _ .ended rfl) rfl
  | stdin asks first =>
    subst first
    cases filled : s.input with
    | nil =>
      refine moves_chain (.eof here asks filled fun j isNext => by omega) (set table (.running _) rfl) ?_
      simp only [chain, Chain.goesOn, State.put, filled, List.tail_nil]
    | cons byte rest =>
      refine moves_chain (.read here asks filled) (set table (.running _) rfl) ?_
      funext j
      by_cases zero : j = 0 <;> simp [chain, Chain.holds, Chain.goesOn, State.put, zero, filled]
  | @byte resume pipe byte rest asks behind filled =>
    subst behind
    have stream : (chain c s).streams (pipe + 1) = byte :: rest := by
      simp only [chain, if_neg (Nat.succ_ne_zero pipe), if_neg inside.ne, Nat.add_sub_cancel, filled]
    refine moves_chain (.read here asks stream) (set table (.running _) rfl) ?_
    funext j
    by_cases same : j = pipe + 1
    · subst same
      simp [chain, Chain.holds, State.fill, inside.ne]
    · simp only [chain, Chain.holds, Chain.goesOn, State.put, State.fill, Function.update_of_ne same]
      split_ifs
      · rfl
      · rfl
      · rw [Function.update_of_ne (by omega)]
  | @eof resume pipe asks behind empty closed =>
    subst behind
    refine moves_chain (.eof here asks ?_ ?_) (set table (.running _) rfl) rfl
    · simp only [chain, if_neg (Nat.succ_ne_zero pipe), if_neg inside.ne, Nat.add_sub_cancel, empty]
    · rintro j same
      obtain rfl : pipe = j := by omega
      by_contra runs
      exact closed (open_writeEnd plumbed inside fun table ended => runs (by simp only [chain, ended, status]))
  | stdout asks last =>
    refine moves_chain (.write here asks (.inl last)) (set table (.running _) rfl) ?_
    funext j
    by_cases same : j = i + 1
    · subst same
      simp [chain, Chain.holds, State.put, last, (show c.num ≠ 0 by omega)]
    · have other : j ≠ c.num := fun same' => same (same'.trans last.symm)
      simp [chain, Chain.holds, Chain.goesOn, State.put, same, other]
  | write asks before fits =>
    have stream : (chain c s).streams (i + 1) = s.contents i := by
      simp only [chain, if_neg (Nat.succ_ne_zero i), if_neg before.ne, Nat.add_sub_cancel]
    refine moves_chain (.write here asks (.inr (by rw [stream]; exact fits))) (set table (.running _) rfl) ?_
    rw [stream]
    funext j
    by_cases same : j = i + 1
    · subst same
      simp [chain, Chain.holds, State.fill, before.ne]
    · simp only [chain, Chain.holds, Chain.goesOn, State.put, State.fill, Function.update_of_ne same]
      split_ifs
      · rfl
      · rfl
      · rw [Function.update_of_ne (by omega)]
  | broken asks before closed =>
    refine moves_chain (.broken here asks ⟨before, ?_⟩) (set _ .ended rfl) rfl
    by_contra runs
    exact closed (open_readEnd plumbed before fun table ended => runs (by simp only [chain, ended, status]))

/-! ### What is left to do -/

/-- The calls that the child of stage `i` still has to make, its `fork`
included. -/
def setupLeft (c : Pipeline δ σ) (i : Nat) : Option (Stage σ) → Nat
  | none => (c.stageCalls i).length + 2
  | some ⟨_, .setup made⟩ => (c.stageCalls i).length + 1 - made
  | some _ => 0

/-- What is left to do but for the requests of the programs. -/
def setupWork (c : Pipeline δ σ) (s : State σ) : Nat :=
  ∑ i ∈ Finset.range c.num, setupLeft c i s.stages[i]? + ((ends c.pipes).length - s.closed) + (c.num - s.waited)

/-- Nothing but one stage has changed. -/
theorem setupLeft_other (stages : next.stages = s.stages.set i stage) {j : Nat} (other : j ≠ i) :
    setupLeft c j next.stages[j]? = setupLeft c j s.stages[j]? := by
  rw [stages, List.getElem?_set_ne (Ne.symm other)]

theorem setupWork_lt (inside : i < c.num) (listed : i < s.stages.length) (stages : next.stages = s.stages.set i stage)
    (closed : next.closed = s.closed) (waited : next.waited = s.waited)
    (less : setupLeft c i (some stage) < setupLeft c i s.stages[i]?) : setupWork c next < setupWork c s := by
  have own : setupLeft c i next.stages[i]? < setupLeft c i s.stages[i]? := by
    rwa [stages, List.getElem?_set_self listed]
  have sum : ∑ j ∈ Finset.range c.num, setupLeft c j next.stages[j]? <
      ∑ j ∈ Finset.range c.num, setupLeft c j s.stages[j]? := by
    refine Finset.sum_lt_sum (fun j _ => ?_) ⟨i, Finset.mem_range.mpr inside, own⟩
    by_cases same : j = i
    · subst same
      exact own.le
    · exact (setupLeft_other stages same).le
  simp only [setupWork, closed, waited]
  omega

theorem setupWork_eq (listed : i < s.stages.length) (stages : next.stages = s.stages.set i stage)
    (closed : next.closed = s.closed) (waited : next.waited = s.waited)
    (same : setupLeft c i (some stage) = setupLeft c i s.stages[i]?) : setupWork c next = setupWork c s := by
  simp only [setupWork, closed, waited]
  congr 2
  refine Finset.sum_congr rfl fun j _ => ?_
  by_cases itself : j = i
  · subst itself
    rwa [stages, List.getElem?_set_self listed]
  · exact setupLeft_other stages itself

theorem setupWork_fork (more : s.stages.length < c.num)
    (stages : next.stages = s.stages ++ [⟨table, .setup 0⟩]) (closed : next.closed = s.closed)
    (waited : next.waited = s.waited) : setupWork c next < setupWork c s := by
  have sum : ∑ j ∈ Finset.range c.num, setupLeft c j next.stages[j]? <
      ∑ j ∈ Finset.range c.num, setupLeft c j s.stages[j]? := by
    refine Finset.sum_lt_sum (fun j _ => ?_) ⟨s.stages.length, Finset.mem_range.mpr more, ?_⟩
    · rw [stages, List.getElem?_append]
      split
      next => exact le_rfl
      next beyond =>
        rw [List.getElem?_singleton, List.getElem?_eq_none (Nat.not_lt.mp beyond)]
        split
        · simp [setupLeft]
        · exact le_rfl
    · rw [stages, List.getElem?_concat_length, List.getElem?_eq_none le_rfl]
      simp [setupLeft]
  simp only [setupWork, closed, waited]
  omega

/-- A step is a move of the chain, or one that the chain does not notice. -/
theorem step_chain {action : Action} (plumbed : Plumbed c s) (taken : step c s action = some next) :
    (chain c next = chain c s ∧ setupWork c next < setupWork c s) ∨
      ∃ i < c.num, Moves (plan c) (chain c s) i (chain c next) ∧ setupWork c next = setupWork c s := by
  cases step_taken taken with
  | fork more =>
    refine .inl ⟨congrArg₂ Chain.mk (funext fun j => ?_) rfl, setupWork_fork more rfl rfl rfl⟩
    simp only
    rw [List.getElem?_append]
    split
    next => rfl
    next beyond =>
      rw [List.getElem?_singleton, List.getElem?_eq_none (Nat.not_lt.mp beyond)]
      split <;> rfl
  | close all close =>
    have inside : s.closed < (ends c.pipes).length := by simpa using (List.getElem?_eq_some_iff.mp close).1
    refine .inl ⟨rfl, ?_⟩
    simp only [setupWork]
    omega
  | wait all closed ended =>
    have inside := (List.getElem?_eq_some_iff.mp ended).1
    have few := plumbed.few.1
    refine .inl ⟨rfl, ?_⟩
    simp only [setupWork]
    omega
  | @call i made table call here nextCall =>
    have listed := (List.getElem?_eq_some_iff.mp here).1
    have inside := inside_of_stage plumbed here
    have within := (List.getElem?_eq_some_iff.mp nextCall).1
    refine .inl ⟨congrArg₂ Chain.mk ?_ rfl, setupWork_lt inside listed rfl rfl rfl ?_⟩
    · refine (chain_set listed rfl).trans (Function.update_eq_self_iff.mpr ?_)
      simp only [chain, here, status]
    · simp only [here, setupLeft]
      omega
  | @exec i made table program here ready starts =>
    have listed := (List.getElem?_eq_some_iff.mp here).1
    have inside := inside_of_stage plumbed here
    have place : InPlace c i _ := plumbed.stages i _ here
    refine .inl ⟨congrArg₂ Chain.mk ?_ rfl, setupWork_lt inside listed rfl rfl rfl ?_⟩
    · refine (chain_set listed rfl).trans (Function.update_eq_self_iff.mpr ?_)
      simp only [chain, here, status, starts]
    · have few : made ≤ (c.stageCalls i).length := place.1
      simp only [here, setupLeft]
      omega
  | @request i table state next here served =>
    have listed := (List.getElem?_eq_some_iff.mp here).1
    have inside := inside_of_stage plumbed here
    have place := plumbed.stages i _ here
    have served := request_served inside (std_of_running inside place) served
    obtain ⟨⟨after, phase⟩, -, notSetup, stages, -, closed, waited⟩ := served_frame served place
    refine .inr ⟨i, inside, served_moves plumbed here served, setupWork_eq listed stages closed waited ?_⟩
    cases phase with
    | setup made => exact absurd rfl (notSetup made)
    | running | ended => simp only [here, setupLeft]

/-- The run goes right, and at most `count` steps of it are left. -/
def Bounded (c : Pipeline δ σ) (total : List UInt8) (count : Nat) (s : State σ) : Prop :=
  Plumbed c s ∧ ∃ moves, Flowing (plan c) total (chain c s) moves ∧ count = moves + setupWork c s

theorem bounded_step {total : List UInt8} {count : Nat} {action : Action} (bounded : Bounded c total count s)
    (taken : step c s action = some next) : ∃ fewer < count, Bounded c total fewer next := by
  obtain ⟨plumbed, moves, flowing, rfl⟩ := bounded
  have after := plumbed_step plumbed taken
  rcases step_chain plumbed taken with ⟨same, less⟩ | ⟨i, inside, moved, same⟩
  · exact ⟨_, by omega, after, moves, same ▸ flowing, rfl⟩
  · obtain ⟨fewer, less, flowing⟩ := flowing_moves flowing inside moved
    exact ⟨_, by omega, after, fewer, flowing, rfl⟩

/-! ### The end -/

/-- A request that has to wait cannot be met in the chain either. -/
theorem request_stalls (plumbed : Plumbed c s) (settled : Settled c s)
    (found : s.stages[i]? = some ⟨table, .running state⟩) (waits : request c s i table state = none) :
    ∀ later, ¬ Moves (plan c) (chain c s) i later := by
  intro later moves
  have here := chain_running (c := c) found
  have inside := inside_of_stage plumbed found
  have std : StdInPlace c i table := std_of_running inside (plumbed.stages i _ found)
  have unblocked {state' : σ} (there : (chain c s).stages i = .running state') : state' = state := by
    rw [here] at there
    cases there
    rfl
  unfold request at waits
  cases asks : c.next state with
  | exit => simp [asks] at waits
  | read resume =>
    cases i with
    | zero => simp [asks, std.1, Pipeline.source] at waits
    | succ pipe =>
      simp only [asks, std.1, Pipeline.source, Nat.add_eq_zero_iff, Nat.one_ne_zero, and_false, if_false,
        Nat.add_sub_cancel] at waits
      split at waits
      next => cases waits
      next empty =>
        split at waits
        next opened =>
          obtain ⟨other, writing, writer⟩ := writer_of_open plumbed settled opened
          have stream : (chain c s).streams (pipe + 1) = [] := by
            simp only [chain, if_neg (Nat.succ_ne_zero pipe), if_neg inside.ne, Nat.add_sub_cancel, empty]
          cases moves with
          | exit there other | write there other | broken there other =>
            obtain rfl := unblocked there
            cases asks.symm.trans other
          | read there other filled =>
            rw [stream] at filled
            cases filled
          | eof there other none done =>
            have ended := done pipe rfl
            rw [chain_running writer] at ended
            cases ended
        next => cases waits
  | write byte resume =>
    by_cases before : i + 1 < c.num
    · simp only [asks, std.2, Pipeline.sink, if_pos before] at waits
      split at waits
      next opened =>
        split at waits
        next => cases waits
        next full =>
          obtain ⟨other, reading, reader⟩ := reader_of_open plumbed settled opened
          have stream : (chain c s).streams (i + 1) = s.contents i := by
            simp only [chain, if_neg (Nat.succ_ne_zero i), if_neg before.ne, Nat.add_sub_cancel]
          cases moves with
          | exit there other | read there other | eof there other =>
            obtain rfl := unblocked there
            cases asks.symm.trans other
          | write there other fits =>
            rw [stream] at fits
            rcases fits with last | fits
            · exact absurd last before.ne
            · exact full fits
          | broken there other gone =>
            have ended := gone.2
            rw [chain_running reader] at ended
            cases ended
      next => cases waits
    · simp [asks, std.2, Pipeline.sink, before] at waits

theorem num_pos (c : Pipeline δ σ) : 0 < c.num := lt_of_lt_of_le (by decide) c.several

/-- The call has returned. -/
def Returned (c : Pipeline δ σ) (s : State σ) : Prop := s.waited = c.num

theorem returned_stuck (plumbed : Plumbed c s) (returned : Returned c s) : Stuck (step c) s := by
  have positive := num_pos c
  have returned : s.waited = c.num := returned
  have all : s.stages.length = c.num := le_antisymm plumbed.few.1 (returned ▸ plumbed.few.2.2)
  have closed : (ends c.pipes).length ≤ s.closed := by
    by_contra less
    have none := plumbed.unwaited (by omega)
    omega
  rintro (_ | i)
  · have noCall : ((ends c.pipes).map Call.close)[s.closed]? = none :=
      List.getElem?_eq_none (by rwa [List.length_map])
    have noStage : s.stages[s.waited]? = none := List.getElem?_eq_none (by omega)
    simp only [step, all, lt_irrefl, if_false, noCall, noStage]
  · simp only [step]
    cases found : s.stages[i]? with
    | none => rfl
    | some stage =>
      obtain ⟨table, ended⟩ := plumbed.waitedFor i (by
        have := (List.getElem?_eq_some_iff.mp found).1
        omega)
      rw [found] at ended
      cases ended
      rfl

/-- A run stops nowhere else. -/
theorem stuck_returned (plumbed : Plumbed c s) (stuck : Stuck (step c) s) : Returned c s := by
  by_contra unreturned
  have unreturned : s.waited ≠ c.num := unreturned
  obtain ⟨few, closedFew, waitedFew⟩ := plumbed.few
  have shell := stuck .shell
  simp only [step] at shell
  split at shell
  next => cases shell
  next all =>
    split at shell
    next => cases shell
    next closed =>
      have closed : (ends c.pipes).length ≤ s.closed := by simpa using closed
      have executed : ∀ stage ∈ s.stages, ∀ made, stage.phase ≠ .setup made := by
        rintro ⟨table, phase⟩ member made rfl
        obtain ⟨i, found⟩ := List.mem_iff_getElem?.mp member
        have inside := inside_of_stage plumbed found
        have waits := stuck (.stage i)
        simp only [step, found, Option.bind_some] at waits
        split at waits
        next => cases waits
        next =>
          have starts : c.programs[i]? = some _ :=
            List.getElem?_eq_getElem (by simpa [Pipeline.programs, Pipeline.num] using inside)
          rw [starts] at waits
          cases waits
      have settled : Settled c s := ⟨by omega, by omega, executed⟩
      obtain ⟨⟨table, phase⟩, found⟩ : ∃ stage, s.stages[s.waited]? = some stage :=
        ⟨_, List.getElem?_eq_getElem (by omega)⟩
      cases phase with
      | setup made => exact executed _ (List.mem_of_getElem? found) made rfl
      | ended => simp [found] at shell
      | running state =>
        have waiting : s.waited < (plan c).num := inside_of_stage plumbed found
        obtain ⟨j, inside, later, moves⟩ := some_moves waiting (chain_running (c := c) found)
        obtain ⟨⟨other, phase⟩, there⟩ : ∃ stage, s.stages[j]? = some stage :=
          ⟨_, List.getElem?_eq_getElem (lt_of_lt_of_le inside (Nat.not_lt.mp all))⟩
        cases phase with
        | setup made => exact executed _ (List.mem_of_getElem? there) made rfl
        | ended =>
          have ended : (chain c s).stages j = .ended := by simp only [chain, there, status]
          cases moves with
          | exit here | read here | eof here | write here | broken here =>
            rw [ended] at here
            cases here
        | running state =>
          have waits := stuck (.stage j)
          simp only [step, there, Option.bind_some] at waits
          exact request_stalls plumbed settled there waits later moves

/-- The shell and its stages when the call has returned: as `exec_pipeline`
leaves them, and with the right output. -/
structure Completed (c : Pipeline δ σ) (total : List UInt8) (s : State σ) : Prop where
  output : s.output = total
  ended : ∀ i < c.num, ∃ table, s.stages[i]? = some ⟨table, .ended⟩
  result : (execPipeline c.setting c.clist).1 = Dshlib.ok
  table : (execPipeline c.setting c.clist).2.table = s.shell
  children : (execPipeline c.setting c.clist).2.children = List.replicate c.num true

theorem execPipeline_eq (c : Pipeline δ σ) : execPipeline c.setting c.clist =
    (Dshlib.ok, (((c.setting.opened (c.num - 1)).launched c.num).closePipes).waitAll) := by
  rw [PipelineParents.execPipeline_several c.several, if_pos c.piped,
    PipelineParents.afterPipes_all c.plain c.forked]
  rfl

theorem returned_completed {total : List UInt8} {count : Nat} (plumbed : Plumbed c s)
    (flowing : Flowing (plan c) total (chain c s) count) (returned : Returned c s) : Completed c total s := by
  have positive := num_pos c
  have returned : s.waited = c.num := returned
  have closed : s.closed = (ends c.pipes).length := by
    refine le_antisymm plumbed.few.2.1 (not_lt.mp fun less => ?_)
    have none := plumbed.unwaited less
    omega
  refine ⟨?_, fun i inside => plumbed.waitedFor i (returned ▸ inside), ?_, ?_, ?_⟩
  · obtain ⟨table, ended⟩ := plumbed.waitedFor (c.num - 1) (by omega)
    have done : (chain c s).stages ((plan c).num - 1) = .ended := by
      simp only [plan, chain, ended, status]
    have last : (chain c s).streams c.num = total := flowing_ended flowing positive done
    simpa only [chain, if_neg positive.ne', if_true] using last
  · rw [execPipeline_eq]
  · rw [execPipeline_eq, plumbed.shell, List.take_of_length_le (by rw [List.length_map, closed])]
    rfl
  · rw [execPipeline_eq]
    simp [PipelineParents.Parent.waitAll, PipelineParents.Parent.closePipes, PipelineParents.Parent.launched,
      PipelineParents.Setting.opened]

/-- At the start everything is still to be written. -/
theorem flowing_start (c : Pipeline δ σ) (stream : Nat → List UInt8)
    (computes : ∀ i program, c.programs[i]? = some program → Computes c.next program (stream i) (stream (i + 1))) :
    ∃ count, Flowing (plan c) (stream c.num) (chain c (start c (stream 0))) count := by
  have each (i : Nat) : ∃ count, ∀ program, c.programs[i]? = some program →
      Yields c.next program (stream i) (stream (i + 1)) count := by
    cases starts : c.programs[i]? with
    | none => exact ⟨0, fun program same => by cases same⟩
    | some program =>
      obtain ⟨count, yields⟩ := computes i program starts
      exact ⟨count, fun other same => by cases same; exact yields⟩
  choose counts yields using each
  have positive := num_pos c
  have program (i : Nat) (inside : i < c.num) : ∃ program, c.programs[i]? = some program ∧
      (chain c (start c (stream 0))).stages i = .running program := by
    have starts : c.programs[i]? = some _ :=
      List.getElem?_eq_getElem (by simpa [Pipeline.programs, Pipeline.num] using inside)
    exact ⟨_, starts, by simp only [chain, start, List.getElem?_nil, status, starts]⟩
  refine ⟨_, fun i => if i = 0 then [] else stream i, counts, ⟨fun i state inside here => ?_, rfl,
    fun i inside ended => ?_, ?_⟩, rfl⟩
  · obtain ⟨own, starts, runs⟩ := program i inside
    rw [runs] at here
    cases here
    cases i with
    | zero => simpa [chain, start, plan] using yields 0 state starts
    | succ i => simpa [chain, start, plan] using yields (i + 1) state starts
  · obtain ⟨own, -, runs⟩ := program i inside
    rw [runs] at ended
    cases ended
  · simp [chain, start, plan, positive.ne']

end Simulation

/-- Where each program computes the next stream from the one before, every run
of the pipeline stops, which it does when the call has returned and not before;
the output is the last stream then, and until then the beginning of it. -/
theorem pipeline_composes (c : Pipeline δ σ) (stream : Nat → List UInt8)
    (computes : ∀ i program, c.programs[i]? = some program → Computes c.next program (stream i) (stream (i + 1)))
    {actions : List Action} {s : State σ} (ran : run (step c) (start c (stream 0)) actions = some s) :
    Acc (After (step c)) s ∧ s.output <+: stream c.num ∧ (Stuck (step c) s ↔ Returned c s) ∧
      (Returned c s → Completed c (stream c.num) s) := by
  obtain ⟨count, flowing⟩ := flowing_start c stream computes
  obtain ⟨left, bounded⟩ : ∃ left, Bounded c (stream c.num) left s :=
    run_keeps (fun s => ∃ left, Bounded c (stream c.num) left s) ⟨_, plumbed_start c _, count, flowing, rfl⟩
      (fun _ _ _ ⟨_, bounded⟩ taken => (bounded_step bounded taken).imp fun _ fewer => fewer.2) ran
  obtain ⟨plumbed, moves, flowing, -⟩ := id bounded
  have positive := num_pos c
  refine ⟨acc_bounded (Bounded c (stream c.num)) (fun _ _ _ _ bounded taken => bounded_step bounded taken) bounded,
    ?_, ⟨stuck_returned plumbed, returned_stuck plumbed⟩, returned_completed plumbed flowing⟩
  have soFar : (chain c s).streams c.num <+: stream c.num := flowing_prefix flowing
  simpa only [chain, if_neg positive.ne', if_true] using soFar

/-! ### `echo ab | cat` -/

/-- What there is to write, and whether there is something to read. -/
def echoOrCat : Bool × List UInt8 → Request UInt8 (Bool × List UInt8)
  | (reads, byte :: rest) => .write byte (reads, rest)
  | (true, []) => .read fun
    | some byte => (true, [byte])
    | none => (false, [])
  | (false, []) => .exit

theorem echo_computes (bytes input : List UInt8) : Computes echoOrCat (false, bytes) input bytes := by
  induction bytes with
  | nil => exact ⟨1, .exit rfl⟩
  | cons byte rest ih =>
    obtain ⟨count, yields⟩ := ih
    exact ⟨_, .write rfl yields⟩

theorem cat_computes (input : List UInt8) : Computes echoOrCat (true, []) input input := by
  induction input with
  | nil => exact ⟨_, .eof rfl (.exit rfl)⟩
  | cons byte rest ih =>
    obtain ⟨count, yields⟩ := ih
    exact ⟨_, .read rfl (.write rfl yields)⟩

def echoAb : Dshlib.CmdBuff :=
  ⟨2, (Dshlib.noArgv.set 0 (some 0)).set 1 (some 5), CString.text "echo\x00ab\x00", none, none, false⟩
def cat : Dshlib.CmdBuff := ⟨1, Dshlib.noArgv.set 0 (some 0), CString.text "cat\x00", none, none, false⟩

def echoCat : Pipeline Unit (Bool × List UInt8) where
  setting :=
    { files := fun fd => if fd = 0 then some .stdin else if fd = 1 then some .stdout else none
      directory := ()
      pipes := [(3, 4)]
      forks := 2
      chdir := fun _ _ => none
      distinct := by decide
      free := by decide }
  clist := [echoAb, cat]
  exec cmd := (decide (cmd.arg 0 = some (CString.text "cat")), (cmd.arg 1).getD [])
  next := echoOrCat
  capacity := 1
  maxFiles := 5
  several := by decide
  plain := by decide
  piped := by decide
  forked := by decide
  stdin := rfl
  stdout := rfl
  room := by decide
  limited := by decide

/-- The shell is done but for waiting before the stages begin, and `cat` runs
ahead of `echo` as far as it can. -/
def catFirst : List Action :=
  [.shell, .shell, .shell, .shell, .stage 1, .stage 1, .stage 1, .stage 1,
    .stage 0, .stage 0, .stage 0, .stage 0, .stage 0, .stage 1, .stage 1,
    .stage 0, .stage 1, .stage 0, .stage 1, .stage 1, .stage 1, .shell, .shell]

theorem echo_cat_completes :
    ∃ s, run (step echoCat) (start echoCat []) catFirst = some s ∧ Completed echoCat [97, 98] s := by
  obtain ⟨s, ran, returned⟩ : ∃ s, run (step echoCat) (start echoCat []) catFirst = some s ∧ s.waited = 2 :=
    Option.map_eq_some_iff.mp (by decide +kernel)
  refine ⟨s, ran, (pipeline_composes echoCat (fun | 0 => [] | _ => [97, 98]) (fun i program starts => ?_)
    ran).2.2.2 returned⟩
  have programs : echoCat.programs = [(false, [97, 98]), (true, [])] := by decide +kernel
  rw [programs] at starts
  match i with
  | 0 =>
    cases starts
    exact echo_computes [97, 98] []
  | 1 =>
    cases starts
    exact cat_computes [97, 98]
  | i + 2 => cases starts

end SysProg.PipelineResults
