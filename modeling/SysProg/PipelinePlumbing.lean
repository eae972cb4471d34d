import SysProg.Lib.Descriptors
import SysProg.Lib.Positions

/-! The descriptors of `rsh_execute_pipeline`. The parent opens all pipes,
forks the stages one after another and closes its own ends; each stage
redirects its standard descriptors and closes every pipe end it inherited. The
processes run in any order. -/
namespace SysProg.PipelinePlumbing
open Descriptors Positions

variable {ε : Type*}

/-! ### The processes -/

/-- An open file: one that was there before, or an end of one of the pipes. -/
inductive File (ε : Type*) where
  | ext (file : ε)
  | readEnd (pipe : Nat)
  | writeEnd (pipe : Nat)
  deriving DecidableEq

/-- A call of `rsh_execute_pipeline`: the number of commands, the descriptors
that are open, and the client's socket among them. -/
structure Setup (ε : Type*) where
  num : Nat
  initial : Table ε
  cliSock : Nat
  client : ε
  positive : 1 ≤ num
  aboveStd : 2 < cliSock
  connected : initial cliSock = some client

/-- The descriptors of the pipes, in the order in which they are closed. -/
def ends (pipes : List (Nat × Nat)) : List Nat := pipes.flatMap fun pipe => [pipe.1, pipe.2]

/-- Steps 3 to 5 of the child that becomes stage `i`. -/
def stageCalls (c : Setup ε) (pipes : List (Nat × Nat)) (i : Nat) : List Call :=
  [.dup2 (if i = 0 then c.cliSock else (pipes.getD (i - 1) (0, 0)).1) 0] ++
  (if i = c.num - 1 then [.dup2 c.cliSock 1, .dup2 c.cliSock 2] else [.dup2 (pipes.getD i (0, 0)).2 1]) ++
  (ends pipes).map .close

/-- A forked child: its table, how many of its calls it has made, and whether
it has ended. -/
structure Stage (ε : Type*) where
  table : Table (File ε)
  made : Nat
  ended : Bool

/-- `closed` counts the closes of the parent. -/
structure State (ε : Type*) where
  pipes : List (Nat × Nat)
  parent : Table (File ε)
  closed : Nat
  stages : List (Stage ε)

def start (c : Setup ε) : State ε := ⟨[], fun fd => (c.initial fd).map .ext, 0, []⟩

/-- What can happen next: the parent opens a pipe on two fresh descriptors,
forks or closes, a stage makes its next call, or a stage ends. -/
inductive Action where
  | pipe (readFd writeFd : Nat)
  | fork
  | close
  | stage (i : Nat)
  | stop (i : Nat)
  deriving DecidableEq

def step (c : Setup ε) (s : State ε) : Action → Option (State ε)
  | .pipe readFd writeFd =>
    if s.pipes.length + 1 < c.num ∧ readFd ≠ writeFd ∧ 2 < readFd ∧ 2 < writeFd ∧
        (s.parent readFd).isNone ∧ (s.parent writeFd).isNone then
      some { s with
        pipes := s.pipes ++ [(readFd, writeFd)]
        parent := Function.update (Function.update s.parent readFd (some (.readEnd s.pipes.length)))
          writeFd (some (.writeEnd s.pipes.length)) }
    else none
  | .fork =>
    if s.pipes.length + 1 = c.num ∧ s.stages.length < c.num then
      some { s with stages := s.stages ++ [⟨s.parent, 0, false⟩] }
    else none
  | .close =>
    if s.stages.length = c.num then
      ((ends s.pipes).map Call.close)[s.closed]?.map fun call =>
        { s with parent := call.apply s.parent, closed := s.closed + 1 }
    else none
  | .stage i =>
    s.stages[i]?.bind fun stage =>
      if stage.ended then none
      else (stageCalls c s.pipes i)[stage.made]?.map fun call =>
        { s with stages := s.stages.set i { stage with table := call.apply stage.table, made := stage.made + 1 } }
  | .stop i =>
    s.stages[i]?.map fun stage =>
      { s with stages := s.stages.set i { stage with table := fun _ => none, ended := true } }

def run (c : Setup ε) (s : State ε) : List Action → Option (State ε)
  | [] => some s
  | action :: rest => (step c s action).bind fun next => run c next rest

/-- The stage has made all its calls: the next one is `execvp`. -/
def AtExec (c : Setup ε) (s : State ε) (i : Nat) (stage : Stage ε) : Prop :=
  s.stages[i]? = some stage ∧ stage.ended = false ∧ stage.made = (stageCalls c s.pipes i).length

/-- The parent has forked all stages and closed all its pipe ends. -/
def LeftLoop (c : Setup ε) (s : State ε) : Prop :=
  s.stages.length = c.num ∧ s.closed = (ends s.pipes).length

/-! ### What every reachable state satisfies -/

/-- The table of the parent once it has opened the pipes and closed nothing. -/
structure Opened (c : Setup ε) (pipes : List (Nat × Nat)) (base : Table (File ε)) : Prop where
  reads : ∀ i pipe, pipes[i]? = some pipe → base pipe.1 = some (.readEnd i)
  writes : ∀ i pipe, pipes[i]? = some pipe → base pipe.2 = some (.writeEnd i)
  others : ∀ fd, fd ∉ ends pipes → base fd = (c.initial fd).map .ext
  fresh : ∀ fd ∈ ends pipes, 2 < fd ∧ c.initial fd = none

structure Reached (c : Setup ε) (s : State ε) : Prop where
  base : ∃ base, Opened c s.pipes base ∧
    s.parent = applyAll (((ends s.pipes).map Call.close).take s.closed) base ∧
    ∀ (i : Nat) (stage : Stage ε), s.stages[i]? = some stage → stage.ended = false →
      stage.table = applyAll ((stageCalls c s.pipes i).take stage.made) base
  unforked : s.pipes.length + 1 < c.num → s.stages = []
  unclosed : s.stages.length < c.num → s.closed = 0
  few : s.stages.length ≤ c.num ∧ s.pipes.length + 1 ≤ c.num
  gone : ∀ (i : Nat) (stage : Stage ε), s.stages[i]? = some stage → stage.ended = true → ∀ fd, stage.table fd = none

section Invariant
variable {c : Setup ε} {s next : State ε} {pipes : List (Nat × Nat)} {base : Table (File ε)}

theorem mem_ends : fd ∈ ends pipes ↔
    ∃ (i : Nat) (pipe : Nat × Nat), pipes[i]? = some pipe ∧ (fd = pipe.1 ∨ fd = pipe.2) := by
  simp only [ends, List.mem_flatMap, List.mem_cons, List.not_mem_nil, or_false]
  constructor
  · rintro ⟨pipe, member, isEnd⟩
    obtain ⟨i, found⟩ := List.mem_iff_getElem?.mp member
    exact ⟨i, pipe, found, isEnd⟩
  · rintro ⟨i, pipe, found, isEnd⟩
    exact ⟨pipe, List.mem_of_getElem? found, isEnd⟩

/-- Both ends of every pipe are open in the base table. -/
theorem end_open (opened : Opened c pipes base) (member : fd ∈ ends pipes) : base fd ≠ none := by
  obtain ⟨i, pipe, found, rfl | rfl⟩ := mem_ends.mp member
  · rw [opened.reads i pipe found]
    exact Option.some_ne_none _
  · rw [opened.writes i pipe found]
    exact Option.some_ne_none _

theorem opened_start (c : Setup ε) : Opened c [] (start c).parent where
  reads := by simp
  writes := by simp
  others := fun _ _ => rfl
  fresh := by simp [ends]

/-- A pipe on fresh descriptors extends the base table. -/
theorem opened_pipe (opened : Opened c pipes base) (different : readFd ≠ writeFd) (readAbove : 2 < readFd)
    (writeAbove : 2 < writeFd) (readFree : base readFd = none) (writeFree : base writeFd = none) :
    Opened c (pipes ++ [(readFd, writeFd)])
      (Function.update (Function.update base readFd (some (.readEnd pipes.length))) writeFd
        (some (.writeEnd pipes.length))) := by
  have oldEnds : ∀ fd ∈ ends pipes, fd ≠ readFd ∧ fd ≠ writeFd := fun fd member =>
    ⟨fun same => end_open opened member (same ▸ readFree), fun same => end_open opened member (same ▸ writeFree)⟩
  have newEnds : ∀ fd, fd ∈ ends (pipes ++ [(readFd, writeFd)]) ↔ fd ∈ ends pipes ∨ fd = readFd ∨ fd = writeFd := by
    simp [ends]
  have absent (fd : Nat) (free : base fd = none) : c.initial fd = none := by
    have outside : fd ∉ ends pipes := fun member => end_open opened member free
    simpa [opened.others fd outside] using free
  constructor
  · intro i pipe found
    rcases getElem?_concat_cases found with old | ⟨rfl, rfl⟩
    · obtain ⟨notRead, notWrite⟩ := oldEnds pipe.1 (mem_ends.mpr ⟨i, pipe, old, .inl rfl⟩)
      rw [Function.update_of_ne notWrite, Function.update_of_ne notRead, opened.reads i pipe old]
    · rw [Function.update_of_ne different, Function.update_self]
  · intro i pipe found
    rcases getElem?_concat_cases found with old | ⟨rfl, rfl⟩
    · obtain ⟨notRead, notWrite⟩ := oldEnds pipe.2 (mem_ends.mpr ⟨i, pipe, old, .inr rfl⟩)
      rw [Function.update_of_ne notWrite, Function.update_of_ne notRead, opened.writes i pipe old]
    · rw [Function.update_self]
  · intro fd outside
    rw [newEnds, not_or, not_or] at outside
    rw [Function.update_of_ne outside.2.2, Function.update_of_ne outside.2.1, opened.others fd outside.1]
  · intro fd member
    rcases (newEnds fd).mp member with old | rfl | rfl
    · exact opened.fresh fd old
    · exact ⟨readAbove, absent fd readFree⟩
    · exact ⟨writeAbove, absent fd writeFree⟩

theorem reached_start (c : Setup ε) : Reached c (start c) where
  base := ⟨(start c).parent, opened_start c, rfl, by simp [start]⟩
  unforked := fun _ => rfl
  unclosed := fun _ => rfl
  few := ⟨by simp [start], c.positive⟩
  gone := by simp [start]

/-- A stage may be replaced by one that is further on, or that has ended. -/
theorem reached_set {stage new : Stage ε} (ready : Reached c s) (found : s.stages[i]? = some stage)
    (table : new.ended = false → stage.ended = false ∧ ∀ base,
      stage.table = applyAll ((stageCalls c s.pipes i).take stage.made) base →
      new.table = applyAll ((stageCalls c s.pipes i).take new.made) base)
    (gone : new.ended = true → ∀ fd, new.table fd = none) : Reached c { s with stages := s.stages.set i new } := by
  obtain ⟨base, opened, parent, tables⟩ := ready.base
  refine ⟨⟨base, opened, parent, ?_⟩, ?_, ?_, ?_, ?_⟩
  · intro j other foundOther running
    rcases getElem?_set_cases foundOther with ⟨rfl, rfl⟩ | ⟨-, old⟩
    · obtain ⟨runningBefore, moved⟩ := table running
      exact moved base (tables i stage found runningBefore)
    · exact tables j other old running
  · intro fewer
    rw [ready.unforked fewer] at found
    cases found
  · simpa using ready.unclosed
  · simpa using ready.few
  · intro j other foundOther ended
    rcases getElem?_set_cases foundOther with ⟨rfl, rfl⟩ | ⟨-, old⟩
    · exact gone ended
    · exact ready.gone j other old ended

theorem reached_step (ready : Reached c s) (taken : step c s action = some next) : Reached c next := by
  obtain ⟨base, opened, parent, tables⟩ := ready.base
  cases action with
  | pipe readFd writeFd =>
    simp only [step, Option.ite_none_right_eq_some, Option.some.injEq] at taken
    obtain ⟨⟨more, different, readAbove, writeAbove, readFree, writeFree⟩, rfl⟩ := taken
    have noStages := ready.unforked more
    have noCloses := ready.unclosed (by rw [noStages]; exact c.positive)
    rw [noCloses, List.take_zero, applyAll_nil] at parent
    rw [parent, Option.isNone_iff_eq_none] at readFree writeFree
    refine ⟨⟨_, opened_pipe opened different readAbove writeAbove readFree writeFree, ?_, ?_⟩, ?_, ?_, ?_, ?_⟩
    · simp only [parent, noCloses, List.take_zero, applyAll_nil]
    · simp [noStages]
    · exact fun _ => noStages
    · exact fun _ => noCloses
    · simp only [List.length_append, List.length_singleton, noStages, List.length_nil]
      omega
    · simp [noStages]
  | fork =>
    simp only [step, Option.ite_none_right_eq_some, Option.some.injEq] at taken
    obtain ⟨⟨allPipes, more⟩, rfl⟩ := taken
    have noCloses := ready.unclosed more
    refine ⟨⟨base, opened, parent, ?_⟩, ?_, fun _ => noCloses, ?_, ?_⟩
    · intro i stage found running
      rcases getElem?_concat_cases found with old | ⟨-, rfl⟩
      · exact tables i stage old running
      · rw [List.take_zero, applyAll_nil, parent, noCloses, List.take_zero, applyAll_nil]
    · intro fewer
      dsimp only at fewer
      omega
    · simp only [List.length_append, List.length_singleton]
      omega
    · intro i stage found gone
      rcases getElem?_concat_cases found with old | ⟨-, rfl⟩
      · exact ready.gone i stage old gone
      · cases gone
  | close =>
    simp only [step, Option.ite_none_right_eq_some] at taken
    obtain ⟨allForked, closes⟩ := taken
    obtain ⟨call, nextCall, rfl⟩ := Option.map_eq_some_iff.mp closes
    refine ⟨⟨base, opened, ?_, tables⟩, ready.unforked, ?_, ready.few, ready.gone⟩
    · rw [applyAll_take_succ nextCall, ← parent]
    · intro fewer
      dsimp only at fewer
      omega
  | stage i =>
    obtain ⟨stage, found, taken⟩ := Option.bind_eq_some_iff.mp taken
    split at taken
    · cases taken
    rename_i running
    obtain ⟨call, nextCall, rfl⟩ := Option.map_eq_some_iff.mp taken
    have running : stage.ended = false := by simpa using running
    refine reached_set ready found (fun _ => ⟨running, fun base table => ?_⟩) (fun ended => ?_)
    · dsimp only
      rw [applyAll_take_succ nextCall, ← table]
    · rw [running] at ended
      cases ended
  | stop i =>
    obtain ⟨stage, found, rfl⟩ := Option.map_eq_some_iff.mp taken
    exact reached_set ready found (fun running => by cases running) (fun _ _ => rfl)

theorem reached_run (actions : List Action) (ready : Reached c s) (ran : run c s actions = some next) :
    Reached c next := by
  induction actions generalizing s with
  | nil =>
    cases ran
    exact ready
  | cons action rest ih =>
    obtain ⟨middle, taken, ran⟩ := Option.bind_eq_some_iff.mp ran
    exact ih (reached_step ready taken) ran

/-! ### What the processes hold in the end -/

/-- The table of stage `i` when it is about to be executed. -/
structure Plumbed (c : Setup ε) (i : Nat) (table : Table (File ε)) : Prop where
  input : table 0 = some (if i = 0 then .ext c.client else .readEnd (i - 1))
  output : table 1 = some (if i = c.num - 1 then .ext c.client else .writeEnd i)
  errors : i = c.num - 1 → table 2 = some (.ext c.client)
  readEnds : ∀ fd j, table fd = some (.readEnd j) → fd = 0 ∧ j + 1 = i
  writeEnds : ∀ fd j, table fd = some (.writeEnd j) → fd = 1 ∧ j = i

def inputFile (c : Setup ε) (i : Nat) : File ε := if i = 0 then .ext c.client else .readEnd (i - 1)

def outputFile (c : Setup ε) (i : Nat) : File ε := if i = c.num - 1 then .ext c.client else .writeEnd i

theorem cliSock_open (opened : Opened c pipes base) : base c.cliSock = some (.ext c.client) := by
  have outside : c.cliSock ∉ ends pipes := fun member => by
    have absent := (opened.fresh _ member).2
    rw [c.connected] at absent
    cases absent
  rw [opened.others _ outside, c.connected]
  rfl

theorem inputFd_open (opened : Opened c pipes base) (all : pipes.length + 1 = c.num) (inside : i < c.num) :
    base (if i = 0 then c.cliSock else (pipes.getD (i - 1) (0, 0)).1) = some (inputFile c i) := by
  by_cases first : i = 0
  · simp only [first, if_true, inputFile]
    exact cliSock_open opened
  · have found : pipes[i - 1]? = some (pipes.getD (i - 1) (0, 0)) := by
      have bound : i - 1 < pipes.length := by omega
      simp [bound]
    simp only [first, if_false, inputFile]
    exact opened.reads _ _ found

theorem outputFd_open (opened : Opened c pipes base) (all : pipes.length + 1 = c.num) (inside : i < c.num)
    (notLast : i ≠ c.num - 1) :
    base (pipes.getD i (0, 0)).2 = some (.writeEnd i) ∧ 2 < (pipes.getD i (0, 0)).2 := by
  have found : pipes[i]? = some (pipes.getD i (0, 0)) := by
    have bound : i < pipes.length := by omega
    simp [bound]
  exact ⟨opened.writes _ _ found, (opened.fresh _ (mem_ends.mpr ⟨i, _, found, .inr rfl⟩)).1⟩

/-- What each descriptor of a stage refers to once it has made all its calls. -/
theorem stage_table (opened : Opened c pipes base) (all : pipes.length + 1 = c.num) (inside : i < c.num) (fd : Nat) :
    applyAll (stageCalls c pipes i) base fd =
      if fd ∈ ends pipes then none
      else if fd = 0 then some (inputFile c i)
      else if fd = 1 then some (outputFile c i)
      else if fd = 2 ∧ i = c.num - 1 then some (.ext c.client)
      else (c.initial fd).map .ext := by
  have cliAbove := c.aboveStd
  rw [stageCalls, List.append_assoc, List.cons_append, List.nil_append, applyAll_cons,
    dup2_open (inputFd_open opened all inside), applyAll_append, close_all]
  split
  · rfl
  rename_i outside
  by_cases last : i = c.num - 1
  · simp only [last, if_true, applyAll_cons, applyAll_nil, outputFile, and_true]
    have sock : Function.update base 0 (some (inputFile c (c.num - 1))) c.cliSock = some (.ext c.client) := by
      rw [Function.update_of_ne (by omega), cliSock_open opened]
    have sockAgain : Function.update (Function.update base 0 (some (inputFile c (c.num - 1)))) 1
        (some (.ext c.client)) c.cliSock = some (.ext c.client) := by
      rw [Function.update_of_ne (by omega), sock]
    rw [dup2_open sock, dup2_open sockAgain]
    simp only [Function.update_apply, opened.others fd outside]
    split
    · rename_i two
      simp [two]
    · split
      · rename_i one
        simp [one]
      · simp
  · obtain ⟨write, above⟩ := outputFd_open opened all inside last
    have writeOpen : Function.update base 0 (some (inputFile c i)) (pipes.getD i (0, 0)).2 = some (.writeEnd i) := by
      rw [Function.update_of_ne (by omega), write]
    simp only [last, if_false, applyAll_cons, applyAll_nil, outputFile, and_false]
    rw [dup2_open writeOpen]
    simp only [Function.update_apply, opened.others fd outside]
    split
    · rename_i one
      simp [one]
    · rfl

theorem plumbed (opened : Opened c pipes base) (all : pipes.length + 1 = c.num) (inside : i < c.num) :
    Plumbed c i (applyAll (stageCalls c pipes i) base) := by
  have std : ∀ fd, fd ≤ 2 → fd ∉ ends pipes := fun fd low member => by
    have := (opened.fresh fd member).1
    omega
  constructor
  · rw [stage_table opened all inside, if_neg (std 0 (by omega)), if_pos rfl, inputFile]
  · rw [stage_table opened all inside, if_neg (std 1 (by omega)), if_neg (by omega), if_pos rfl, outputFile]
  · intro last
    rw [stage_table opened all inside, if_neg (std 2 (by omega)), if_neg (by omega), if_neg (by omega),
      if_pos ⟨rfl, last⟩]
  · intro fd j held
    rw [stage_table opened all inside] at held
    split at held
    · cases held
    split at held
    · rename_i zero
      simp only [inputFile, Option.some.injEq] at held
      split at held
      · cases held
      · cases held
        exact ⟨zero, by omega⟩
    split at held
    · simp only [outputFile, Option.some.injEq] at held
      split at held <;> cases held
    split at held
    · cases held
    · obtain ⟨_, _, same⟩ := Option.map_eq_some_iff.mp held
      cases same
  · intro fd j held
    rw [stage_table opened all inside] at held
    split at held
    · cases held
    split at held
    · simp only [inputFile, Option.some.injEq] at held
      split at held <;> cases held
    split at held
    · rename_i one
      simp only [outputFile, Option.some.injEq] at held
      split at held
      · cases held
      · cases held
        exact ⟨one, rfl⟩
    split at held
    · cases held
    · obtain ⟨_, _, same⟩ := Option.map_eq_some_iff.mp held
      cases same

/-- A parent that has left its closing loop holds files it had before. -/
theorem parent_left (ready : Reached c s) (left : LeftLoop c s) (held : s.parent fd = some file) :
    ∃ old, file = .ext old := by
  obtain ⟨base, opened, parent, _⟩ := ready.base
  have allClosed : ((ends s.pipes).map Call.close).take s.closed = (ends s.pipes).map Call.close :=
    List.take_of_length_le (by simp [left.2])
  rw [parent, allClosed, close_all] at held
  split at held
  · cases held
  · rename_i outside
    rw [opened.others fd outside] at held
    obtain ⟨old, _, same⟩ := Option.map_eq_some_iff.mp held
    exact ⟨old, same.symm⟩

theorem plumbed_atExec (ready : Reached c s) (exec : AtExec c s i stage) : Plumbed c i stage.table := by
  obtain ⟨base, opened, _, tables⟩ := ready.base
  obtain ⟨found, running, made⟩ := exec
  have index := (List.getElem?_eq_some_iff.mp found).1
  have few := ready.few
  have all : s.pipes.length + 1 = c.num := by
    by_contra notAll
    rw [ready.unforked (by omega)] at found
    cases found
  rw [tables i stage found running, made, List.take_length]
  exact plumbed opened all (by omega)

end Invariant

/-! ### Who holds the ends of a pipe -/

inductive Holder where
  | parent
  | stage (i : Nat)
  deriving DecidableEq

def Holds (s : State ε) (file : File ε) : Holder → Prop
  | .parent => ∃ fd, s.parent fd = some file
  | .stage i => ∃ stage fd, s.stages[i]? = some stage ∧ stage.table fd = some file

/-- The stage has ended or has reached `execvp`. -/
def Settled (c : Setup ε) (s : State ε) (i : Nat) : Prop :=
  ∀ stage, s.stages[i]? = some stage → stage.ended = true ∨ AtExec c s i stage

/-- The descriptors of a run of `rsh_execute_pipeline` are where they belong:
a stage that reaches `execvp` has its own pipe ends and no others; once the
parent has left its loop an end in other hands is in those of a stage on its
way to `execvp`; and when all stages have got there, a reader sees the end of
file as soon as its predecessor ends. -/
structure WellPlumbed (c : Setup ε) (s : State ε) : Prop where
  stages : ∀ i stage, AtExec c s i stage → Plumbed c i stage.table
  writers : LeftLoop c s → ∀ who j, Holds s (.writeEnd j) who →
    who = .stage j ∨ ∃ i, who = .stage i ∧ ¬ Settled c s i
  readers : LeftLoop c s → ∀ who j, Holds s (.readEnd j) who →
    who = .stage (j + 1) ∨ ∃ i, who = .stage i ∧ ¬ Settled c s i
  endOfFile : LeftLoop c s → (∀ i, Settled c s i) → ∀ j stage, s.stages[j]? = some stage → stage.ended = true →
    ∀ who, ¬ Holds s (.writeEnd j) who

/-- Whoever holds a pipe end behind the closing loop is a stage, and once that
stage is settled it holds the end on a descriptor that was plumbed. -/
theorem holder_cases {c : Setup ε} {s : State ε} (ready : Reached c s) (left : LeftLoop c s)
    (pipeEnd : ∀ old, file ≠ .ext old) (held : Holds s file who) :
    ∃ i, who = .stage i ∧ (Settled c s i → ∃ table fd, Plumbed c i table ∧ table fd = some file) := by
  cases who with
  | parent =>
    obtain ⟨fd, held⟩ := held
    obtain ⟨old, same⟩ := parent_left ready left held
    exact absurd same (pipeEnd old)
  | stage i =>
    obtain ⟨stage, fd, found, held⟩ := held
    refine ⟨i, rfl, fun settled => ?_⟩
    rcases settled stage found with gone | exec
    · rw [ready.gone i stage found gone fd] at held
      cases held
    · exact ⟨stage.table, fd, plumbed_atExec ready exec, held⟩

theorem pipeline_well_plumbed (c : Setup ε) (actions : List Action) (s : State ε)
    (ran : run c (start c) actions = some s) : WellPlumbed c s := by
  have ready := reached_run actions (reached_start c) ran
  have writers : LeftLoop c s → ∀ who j, Holds s (.writeEnd j) who →
      who = .stage j ∨ ∃ i, who = .stage i ∧ ¬ Settled c s i := by
    intro left who j held
    obtain ⟨i, rfl, plumbed⟩ := holder_cases ready left (fun _ same => by cases same) held
    by_cases settled : Settled c s i
    · obtain ⟨table, fd, plumbed, held⟩ := plumbed settled
      exact .inl (congrArg Holder.stage (plumbed.writeEnds fd j held).2.symm)
    · exact .inr ⟨i, rfl, settled⟩
  refine ⟨fun i stage exec => plumbed_atExec ready exec, writers, ?_, ?_⟩
  · intro left who j held
    obtain ⟨i, rfl, plumbed⟩ := holder_cases ready left (fun _ same => by cases same) held
    by_cases settled : Settled c s i
    · obtain ⟨table, fd, plumbed, held⟩ := plumbed settled
      exact .inl (congrArg Holder.stage (plumbed.readEnds fd j held).2.symm)
    · exact .inr ⟨i, rfl, settled⟩
  -- the end of file: nobody holds the write end of a stage that has ended
  · intro left settled j ended found gone who held
    rcases writers left who j held with rfl | ⟨i, _, unsettled⟩
    · obtain ⟨stage, fd, foundAgain, held⟩ := held
      cases found.symm.trans foundAgain
      rw [ready.gone j ended found gone fd] at held
      cases held
    · exact unsettled (settled i)

def twoStages : Setup Unit where
  num := 2
  initial := fun fd => if fd = 3 then some () else none
  cliSock := 3
  client := ()
  positive := by decide
  aboveStd := by decide
  connected := rfl

/-- The calls of both stages, made after the parent is done. -/
def unhurried : List Action :=
  [.pipe 4 5, .fork, .fork, .close, .close, .stage 0, .stage 0, .stage 0, .stage 0,
    .stage 1, .stage 1, .stage 1, .stage 1, .stage 1, .stop 0]

theorem two_stages_well_plumbed : ∃ s, run twoStages (start twoStages) unhurried = some s ∧ WellPlumbed twoStages s :=
  ⟨_, rfl, pipeline_well_plumbed twoStages unhurried _ rfl⟩

/-- Between the parent's last close and its own first call, the second stage
still holds the write end of the pipe it is going to read. -/
theorem unsettled_stage_holds_write_end :
    ∃ s, run twoStages (start twoStages) [.pipe 4 5, .fork, .fork, .close, .close] = some s ∧
      LeftLoop twoStages s ∧ Holds s (.writeEnd 0) (.stage 1) :=
  ⟨_, rfl, ⟨rfl, rfl⟩, _, 5, rfl, rfl⟩

end SysProg.PipelinePlumbing
