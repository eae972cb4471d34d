import SysProg.Lib.Filters
import SysProg.Lib.Transition
import SysProg.PipelineParents

/-! What flows through the pipes of `exec_pipeline`. The shell forks, closes and
waits while the stages it has forked redirect themselves, close the ends they
inherited and execute their programs, all of them in any order. A pipe is at its
end for a reader once nobody has it open for writing. -/
namespace SysProg.PipelineFlow
open Descriptors Dshlib Filters Transition
open PipelinePlumbing (File ends)
open PipelineParents (Setting Plain execPipeline)

variable {δ σ : Type*}

/-! ### The processes -/

/-- The files that are open before the call: the standard input and output of
the shell, and any others. -/
inductive Std where
  | stdin
  | stdout
  | other
  deriving DecidableEq

/-- A call of `exec_pipeline` that meets no built-in command and none of whose
`pipe` and `fork` fail. `exec` is the program `execvp` starts, which exits at
once if there is none, and `next` what a program asks of its descriptors 0
and 1. -/
structure Pipeline (δ σ : Type*) where
  setting : Setting Std δ
  clist : List CmdBuff
  exec : CmdBuff → σ
  next : σ → Request UInt8 σ
  capacity : Nat
  maxFiles : Nat
  several : 2 ≤ clist.length
  plain : ∀ cmd ∈ clist, Plain cmd
  piped : clist.length ≤ setting.pipes.length + 1
  forked : clist.length ≤ setting.forks
  stdin : setting.files 0 = some .stdin
  stdout : setting.files 1 = some .stdout
  room : 0 < capacity
  limited : ∀ fd ∈ ends setting.pipes, fd < maxFiles

namespace Pipeline

def num (c : Pipeline δ σ) : Nat := c.clist.length

def pipes (c : Pipeline δ σ) : List (Nat × Nat) := c.setting.pipes.take (c.num - 1)

/-- The table of the shell once the pipes are open. -/
def base (c : Pipeline δ σ) : Table (File Std) := c.setting.table (c.num - 1)

def redirects (c : Pipeline δ σ) (i : Nat) : List Call :=
  (if 0 < i then [.dup2 (c.pipes.getD (i - 1) (0, 0)).1 0] else []) ++
  (if i < c.num - 1 then [.dup2 (c.pipes.getD i (0, 0)).2 1] else [])

/-- The calls of the child that becomes stage `i`, up to `execvp`. -/
def stageCalls (c : Pipeline δ σ) (i : Nat) : List Call := c.redirects i ++ (ends c.pipes).map .close

def programs (c : Pipeline δ σ) : List σ := c.clist.map c.exec

end Pipeline

/-- A child has made some of its calls, executes its program, or has ended. -/
inductive Phase (σ : Type*) where
  | setup (made : Nat)
  | running (state : σ)
  | ended

structure Stage (σ : Type*) where
  table : Table (File Std)
  phase : Phase σ

/-- `closed` and `waited` count the calls of the shell; `contents` are the bytes
in each pipe. -/
structure State (σ : Type*) where
  shell : Table (File Std)
  closed : Nat
  waited : Nat
  stages : List (Stage σ)
  input : List UInt8
  output : List UInt8
  contents : Nat → List UInt8

def start (c : Pipeline δ σ) (input : List UInt8) : State σ := ⟨c.base, 0, 0, [], input, [], fun _ => []⟩

namespace State

/-- Some process has the file open. -/
def Open (limit : Nat) (s : State σ) (file : File Std) : Prop :=
  (∃ fd < limit, s.shell fd = some file) ∨ ∃ stage ∈ s.stages, ∃ fd < limit, stage.table fd = some file

instance (limit : Nat) (s : State σ) (file : File Std) : Decidable (s.Open limit file) :=
  inferInstanceAs (Decidable (_ ∨ _))

def put (s : State σ) (i : Nat) (table : Table (File Std)) (phase : Phase σ) : State σ :=
  { s with stages := s.stages.set i ⟨table, phase⟩ }

def ends (s : State σ) (i : Nat) : State σ := s.put i (fun _ => none) .ended

def fill (s : State σ) (pipe : Nat) (bytes : List UInt8) : State σ :=
  { s with contents := Function.update s.contents pipe bytes }

end State

/-- The next request of the program of stage `i`, unless it has to wait. -/
def request (c : Pipeline δ σ) (s : State σ) (i : Nat) (table : Table (File Std)) (state : σ) : Option (State σ) :=
  match c.next state with
  | .exit => some (s.ends i)
  | .read resume =>
    match table 0 with
    | some (.ext .stdin) => some { s.put i table (.running (resume s.input.head?)) with input := s.input.tail }
    | some (.readEnd pipe) =>
      match s.contents pipe with
      | byte :: rest => some ((s.put i table (.running (resume (some byte)))).fill pipe rest)
      | [] =>
        if s.Open c.maxFiles (.writeEnd pipe) then none
        else some (s.put i table (.running (resume none)))
    -- the call fails
    | _ => some (s.put i table (.running (resume none)))
  | .write byte resume =>
    match table 1 with
    | some (.ext .stdout) => some { s.put i table (.running resume) with output := s.output ++ [byte] }
    | some (.writeEnd pipe) =>
      if s.Open c.maxFiles (.readEnd pipe) then
        if (s.contents pipe).length < c.capacity then
          some ((s.put i table (.running resume)).fill pipe (s.contents pipe ++ [byte]))
        else none
      -- `SIGPIPE`
      else some (s.ends i)
    | _ => some (s.put i table (.running resume))

inductive Action where
  | shell
  | stage (i : Nat)
  deriving DecidableEq

def step (c : Pipeline δ σ) (s : State σ) : Action → Option (State σ)
  | .shell =>
    if s.stages.length < c.num then some { s with stages := s.stages ++ [⟨s.shell, .setup 0⟩] }
    else match ((ends c.pipes).map Call.close)[s.closed]? with
    | some call => some { s with shell := call.apply s.shell, closed := s.closed + 1 }
    | none =>
      match s.stages[s.waited]? with
      | some ⟨_, .ended⟩ => some { s with waited := s.waited + 1 }
      | _ => none
  | .stage i =>
    s.stages[i]?.bind fun stage =>
      match stage.phase with
      | .setup made =>
        match (c.stageCalls i)[made]? with
        | some call => some (s.put i (call.apply stage.table) (.setup (made + 1)))
        | none => c.programs[i]?.map fun program => s.put i stage.table (.running program)
      | .running state => request c s i stage.table state
      | .ended => none

/-! ### The table of a stage -/

theorem mem_ends {pipes : List (Nat × Nat)} {pipe : Nat × Nat} {k : Nat} (found : pipes[k]? = some pipe) :
    pipe.1 ∈ ends pipes ∧ pipe.2 ∈ ends pipes := by
  have member : pipe ∈ pipes := List.mem_of_getElem? found
  exact ⟨List.mem_flatMap.mpr ⟨pipe, member, by simp⟩, List.mem_flatMap.mpr ⟨pipe, member, by simp⟩⟩

/-- No descriptor is an end of two pipes, nor both ends of one. -/
theorem ends_distinct {pipes : List (Nat × Nat)} (distinct : (ends pipes).Nodup) {p q : Nat × Nat} {i j : Nat}
    (first : pipes[i]? = some p) (second : pipes[j]? = some q) :
    p.1 ≠ p.2 ∧ (i ≠ j → p.1 ≠ q.1 ∧ p.1 ≠ q.2 ∧ p.2 ≠ q.1 ∧ p.2 ≠ q.2) := by
  obtain ⟨own, apart⟩ := List.nodup_flatMap.mp distinct
  have each : p.1 ≠ p.2 := by simpa using own p (List.mem_of_getElem? first)
  obtain ⟨firstBound, rfl⟩ := List.getElem?_eq_some_iff.mp first
  obtain ⟨secondBound, rfl⟩ := List.getElem?_eq_some_iff.mp second
  have apart := List.pairwise_iff_getElem.mp apart
  refine ⟨each, fun other => ?_⟩
  rcases Nat.lt_or_gt_of_ne other with before | behind
  · have disjoint := apart i j firstBound secondBound before
    simp only [Function.onFun, List.disjoint_cons_left, List.mem_cons, List.not_mem_nil, or_false, not_or] at disjoint
    exact ⟨disjoint.1.1, disjoint.1.2, disjoint.2.1.1, disjoint.2.1.2⟩
  · have disjoint := apart j i secondBound firstBound behind
    simp only [Function.onFun, List.disjoint_cons_left, List.mem_cons, List.not_mem_nil, or_false, not_or] at disjoint
    exact ⟨Ne.symm disjoint.1.1, Ne.symm disjoint.2.1.1, Ne.symm disjoint.1.2, Ne.symm disjoint.2.1.2⟩

/-- Both ends of an open pipe are where `pipe` has put them. -/
theorem table_pipe (setting : Setting Std δ) {pipe : Nat × Nat} {i k : Nat} (found : setting.pipes[i]? = some pipe)
    (opened : i < k) :
    setting.table k pipe.1 = some (.readEnd i) ∧ setting.table k pipe.2 = some (.writeEnd i) := by
  induction k with
  | zero => exact absurd opened (Nat.not_lt_zero i)
  | succ k ih =>
    unfold Setting.table
    by_cases last : i = k
    · subst last
      have apart := (ends_distinct setting.distinct found found).1
      simp only [found, Function.update_self, Function.update_of_ne apart, and_self]
    · have before := ih (by omega)
      cases next : setting.pipes[k]? with
      | none => exact before
      | some other =>
        obtain ⟨first, second, third, fourth⟩ := (ends_distinct setting.distinct found next).2 last
        simpa only [Function.update_of_ne first, Function.update_of_ne second, Function.update_of_ne third,
          Function.update_of_ne fourth] using before

section Tables
variable {c : Pipeline δ σ} {i fd : Nat} {file : File Std}

theorem length_pipes (c : Pipeline δ σ) : c.pipes.length = c.num - 1 := by
  have piped := c.piped
  simp only [Pipeline.pipes, Pipeline.num, List.length_take]
  omega

theorem exists_pipe (c : Pipeline δ σ) (inside : i + 1 < c.num) : ∃ pipe, c.pipes[i]? = some pipe :=
  ⟨_, List.getElem?_eq_getElem (by rw [length_pipes]; omega)⟩

theorem mem_ends_setting (member : fd ∈ ends c.pipes) : fd ∈ ends c.setting.pipes := by
  obtain ⟨pipe, among, isEnd⟩ := List.mem_flatMap.mp member
  exact List.mem_flatMap.mpr ⟨pipe, List.mem_of_mem_take among, isEnd⟩

/-- The ends of the pipes are none of the standard descriptors. -/
theorem end_above (member : fd ∈ ends c.pipes) : 1 < fd ∧ fd < c.maxFiles := by
  have free := c.setting.free fd (mem_ends_setting member)
  refine ⟨?_, c.limited fd (mem_ends_setting member)⟩
  by_contra low
  obtain rfl | rfl : fd = 0 ∨ fd = 1 := by omega
  · rw [c.stdin] at free
    cases free
  · rw [c.stdout] at free
    cases free

theorem base_pipe {pipe : Nat × Nat} (found : c.pipes[i]? = some pipe) :
    c.base pipe.1 = some (.readEnd i) ∧ c.base pipe.2 = some (.writeEnd i) := by
  have inside : i < c.num - 1 := by
    have := (List.getElem?_eq_some_iff.mp found).1
    rwa [length_pipes] at this
  refine table_pipe c.setting ?_ inside
  rwa [Pipeline.pipes, List.getElem?_take_of_lt inside] at found

theorem base_other (other : fd ∉ ends c.pipes) : c.base fd = (c.setting.files fd).map .ext :=
  (PipelineParents.table_ends c.setting (c.num - 1) fd).2 other

theorem base_stdin (c : Pipeline δ σ) : c.base 0 = some (.ext .stdin) := by
  rw [base_other fun member => absurd (end_above member).1 (by decide), c.stdin]
  rfl

theorem base_stdout (c : Pipeline δ σ) : c.base 1 = some (.ext .stdout) := by
  rw [base_other fun member => absurd (end_above member).1 (by decide), c.stdout]
  rfl

/-- A file that is no end of a pipe is behind no end of a pipe. -/
theorem base_end (held : c.base fd = some file) (isEnd : ∀ ext, file ≠ .ext ext) : fd ∈ ends c.pipes := by
  by_contra other
  rw [base_other other] at held
  obtain ⟨ext, -, rfl⟩ := Option.map_eq_some_iff.mp held
  exact isEnd ext rfl

/-- What stage `i` reads and what it writes. -/
def Pipeline.source (i : Nat) : File Std := if i = 0 then .ext .stdin else .readEnd (i - 1)

def Pipeline.sink (c : Pipeline δ σ) (i : Nat) : File Std := if i + 1 < c.num then .writeEnd i else .ext .stdout

/-- A stage redirects none of its inherited ends. -/
theorem redirects_above (made : Nat) (above : 1 < fd) (table : Table (File Std)) :
    applyAll ((c.redirects i).take made) table fd = table fd := by
  have each : ∀ call ∈ (c.redirects i).take made, ∃ old, ∃ new ≤ 1, call = .dup2 old new := by
    intro call member
    have among := List.mem_of_mem_take member
    simp only [Pipeline.redirects, List.mem_append] at among
    rcases among with among | among <;> split at among <;> simp only [List.mem_singleton, List.not_mem_nil] at among
    · exact ⟨_, 0, by decide, among⟩
    · exact ⟨_, 1, by decide, among⟩
  generalize (c.redirects i).take made = calls at each
  induction calls generalizing table with
  | nil => rfl
  | cons call calls ih =>
    obtain ⟨old, new, low, rfl⟩ := each call (by simp)
    rw [applyAll_cons, ih _ fun other member => each other (by simp [member])]
    cases opened : table old with
    | none => simp only [Call.apply, opened]
    | some file => rw [dup2_open opened, Function.update_of_ne (by omega)]

theorem redirected_std (inside : i < c.num) :
    applyAll (c.redirects i) c.base 0 = some (Pipeline.source i) ∧
      applyAll (c.redirects i) c.base 1 = some (c.sink i) := by
  have input : applyAll (if 0 < i then [.dup2 (c.pipes.getD (i - 1) (0, 0)).1 0] else []) c.base =
      Function.update c.base 0 (some (Pipeline.source i)) := by
    by_cases first : 0 < i
    · obtain ⟨pipe, found⟩ := exists_pipe c (i := i - 1) (by omega)
      rw [if_pos first, applyAll_cons, applyAll_nil, List.getD_eq_getElem?_getD, found, Option.getD_some,
        dup2_open (base_pipe found).1, Pipeline.source, if_neg (by omega)]
    · rw [if_neg first, applyAll_nil, Pipeline.source, if_pos (by omega), ← base_stdin c, Function.update_eq_self]
  rw [Pipeline.redirects, applyAll_append, input]
  by_cases last : i < c.num - 1
  · obtain ⟨pipe, found⟩ := exists_pipe c (i := i) (by omega)
    have above := end_above (mem_ends found).2
    have opened : Function.update c.base 0 (some (Pipeline.source i)) pipe.2 = some (.writeEnd i) := by
      rw [Function.update_of_ne (by omega)]
      exact (base_pipe found).2
    rw [if_pos last, applyAll_cons, applyAll_nil, List.getD_eq_getElem?_getD, found, Option.getD_some, dup2_open opened,
      Pipeline.sink, if_pos (by omega)]
    simp
  · rw [if_neg last, applyAll_nil, Pipeline.sink, if_neg (by omega)]
    simp [base_stdout]

/-- What each descriptor of a stage refers to when its program starts. -/
theorem stage_table (inside : i < c.num) (fd : Nat) : applyAll (c.stageCalls i) c.base fd =
    if fd = 0 then some (Pipeline.source i) else if fd = 1 then some (c.sink i)
    else if fd ∈ ends c.pipes then none else c.base fd := by
  rw [Pipeline.stageCalls, applyAll_append, close_all]
  have std := redirected_std inside
  by_cases isEnd : fd ∈ ends c.pipes
  · have above := end_above isEnd
    rw [if_pos isEnd, if_neg (by omega), if_neg (by omega), if_pos isEnd]
  · rw [if_neg isEnd]
    by_cases zero : fd = 0
    · rw [if_pos zero, zero, std.1]
    by_cases one : fd = 1
    · rw [if_neg zero, if_pos one, one, std.2]
    · rw [if_neg zero, if_neg one, if_neg isEnd]
      have whole := redirects_above (c := c) (i := i) (c.redirects i).length (show 1 < fd by omega) c.base
      rwa [List.take_length] at whole

end Tables

end SysProg.PipelineFlow
