import Mathlib.Algebra.BigOperators.Group.Finset.Basic
import Mathlib.Algebra.Order.BigOperators.Group.Finset
import Mathlib.Logic.Function.Basic

/-! Programs that read one stream and write another, and chains of them with a
bounded pipe between one and the next. The programs run in any order, a reader
waits for its writer and a writer for room; what comes out at the end is what
the programs compute one after another. -/
namespace SysProg.Filters

variable {α σ : Type*}

/-! ### One program -/

/-- What a program asks for next. It reads `none` at the end of its input. -/
inductive Request (α σ : Type*) where
  | read (resume : Option α → σ)
  | write (item : α) (resume : σ)
  | exit

/-- With `input` to read, the program writes `output` and exits; all of it takes
`count` requests. It need not read everything. -/
inductive Yields (next : σ → Request α σ) : σ → List α → List α → Nat → Prop where
  | exit {state input} (asks : next state = .exit) : Yields next state input [] 1
  | write {state item resume input output count} (asks : next state = .write item resume)
      (later : Yields next resume input output count) : Yields next state input (item :: output) (count + 1)
  | read {state resume item input output count} (asks : next state = .read resume)
      (later : Yields next (resume (some item)) input output count) :
      Yields next state (item :: input) output (count + 1)
  | eof {state resume output count} (asks : next state = .read resume)
      (later : Yields next (resume none) [] output count) : Yields next state [] output (count + 1)

/-- What the program writes, however long it takes. -/
def Computes (next : σ → Request α σ) (state : σ) (input output : List α) : Prop :=
  ∃ count, Yields next state input output count

section Requests
variable {next : σ → Request α σ} {state resume : σ} {item : α} {input output : List α} {count : Nat}

theorem Yields.of_exit (yields : Yields next state input output count) (asks : next state = .exit) :
    output = [] ∧ 0 < count := by
  cases yields with
  | exit => exact ⟨rfl, Nat.one_pos⟩
  | write other | read other | eof other =>
    rw [asks] at other
    cases other

theorem Yields.of_write (yields : Yields next state input output count) (asks : next state = .write item resume) :
    ∃ later before, output = item :: later ∧ count = before + 1 ∧ Yields next resume input later before := by
  cases yields with
  | write other later =>
    rw [asks] at other
    cases other
    exact ⟨_, _, rfl, rfl, later⟩
  | exit other | read other | eof other =>
    rw [asks] at other
    cases other

theorem Yields.of_read {resume : Option α → σ} (yields : Yields next state input output count)
    (asks : next state = .read resume) :
    ∃ before, count = before + 1 ∧ Yields next (resume input.head?) input.tail output before := by
  cases yields with
  | read other later | eof other later =>
    rw [asks] at other
    cases other
    exact ⟨_, rfl, later⟩
  | exit other | write other =>
    rw [asks] at other
    cases other

end Requests

/-! ### Chains -/

/-- How many programs there are, what each of them asks for, and how much a
pipe holds. -/
structure Plan (α σ : Type*) where
  num : Nat
  next : σ → Request α σ
  capacity : Nat
  room : 0 < capacity

inductive Status (σ : Type*) where
  | running (state : σ)
  | ended

/-- Stage `i` reads stream `i` and writes stream `i + 1`. Stream 0 is there from
the start; the last one only grows. -/
structure Chain (α σ : Type*) where
  stages : Nat → Status σ
  streams : Nat → List α

namespace Chain

/-- Nothing more will be written to stream `i`. -/
def WriterDone (s : Chain α σ) (i : Nat) : Prop := ∀ j, i = j + 1 → s.stages j = .ended

/-- Nobody will read what stage `i` writes. -/
def ReaderGone (plan : Plan α σ) (s : Chain α σ) (i : Nat) : Prop := i + 1 < plan.num ∧ s.stages (i + 1) = .ended

def goesOn (s : Chain α σ) (i : Nat) (state : σ) : Chain α σ :=
  { s with stages := Function.update s.stages i (.running state) }

def ends (s : Chain α σ) (i : Nat) : Chain α σ := { s with stages := Function.update s.stages i .ended }

def holds (s : Chain α σ) (i : Nat) (items : List α) : Chain α σ :=
  { s with streams := Function.update s.streams i items }

end Chain

/-- The requests of stage `i` that can be met. A writer nobody reads may be
ended, and may also write on. -/
inductive Moves (plan : Plan α σ) (s : Chain α σ) (i : Nat) : Chain α σ → Prop where
  | exit {state} (here : s.stages i = .running state) (asks : plan.next state = .exit) : Moves plan s i (s.ends i)
  | read {state resume item rest} (here : s.stages i = .running state) (asks : plan.next state = .read resume)
      (filled : s.streams i = item :: rest) : Moves plan s i ((s.goesOn i (resume (some item))).holds i rest)
  | eof {state resume} (here : s.stages i = .running state) (asks : plan.next state = .read resume)
      (empty : s.streams i = []) (done : s.WriterDone i) : Moves plan s i (s.goesOn i (resume none))
  | write {state item resume} (here : s.stages i = .running state) (asks : plan.next state = .write item resume)
      (fits : i + 1 = plan.num ∨ (s.streams (i + 1)).length < plan.capacity) :
      Moves plan s i ((s.goesOn i resume).holds (i + 1) (s.streams (i + 1) ++ [item]))
  | broken {state item resume} (here : s.stages i = .running state) (asks : plan.next state = .write item resume)
      (gone : s.ReaderGone plan i) : Moves plan s i (s.ends i)

/-- What is still to come: `rest i` on stream `i`, and at most `counts i`
requests of stage `i`. -/
structure Flows (plan : Plan α σ) (total : List α) (s : Chain α σ) (rest : Nat → List α)
    (counts : Nat → Nat) : Prop where
  yields : ∀ i state, i < plan.num → s.stages i = .running state →
    Yields plan.next state (s.streams i ++ rest i) (rest (i + 1)) (counts i)
  source : rest 0 = []
  -- a stage that was ended for want of a reader leaves its output unfinished
  finished : ∀ i, i < plan.num → s.stages i = .ended → ¬ s.ReaderGone plan i → rest (i + 1) = []
  sink : s.streams plan.num ++ rest plan.num = total

/-- The streams of a chain end up right if it makes at most `count` moves more. -/
def Flowing (plan : Plan α σ) (total : List α) (s : Chain α σ) (count : Nat) : Prop :=
  ∃ rest counts, Flows plan total s rest counts ∧ count = ∑ i ∈ Finset.range plan.num, counts i

section Moving
variable {plan : Plan α σ} {total : List α} {s later : Chain α σ} {rest : Nat → List α} {counts : Nat → Nat} {i : Nat}

theorem not_gone {state : σ} (here : s.stages (i + 1) = .running state) : ¬ s.ReaderGone plan i := by
  rintro ⟨-, ended⟩
  rw [here] at ended
  cases ended

theorem sum_update_lt {count : Nat} (inside : i < plan.num) (fewer : count < counts i) :
    ∑ j ∈ Finset.range plan.num, Function.update counts i count j < ∑ j ∈ Finset.range plan.num, counts j := by
  refine Finset.sum_lt_sum (fun j _ => ?_) ⟨i, Finset.mem_range.mpr inside, by simpa using fewer⟩
  by_cases same : j = i
  · subst same
    simpa using fewer.le
  · simp [same]

/-- A stage that ends leaves nothing unwritten, or nobody to read it. -/
theorem flows_ends (flows : Flows plan total s rest counts) (inside : i < plan.num)
    (written : ¬ s.ReaderGone plan i → rest (i + 1) = []) :
    Flows plan total (s.ends i) rest (Function.update counts i 0) where
  yields j state within here := by
    by_cases same : j = i
    · simp [Chain.ends, same] at here
    · simp only [Chain.ends, Function.update_of_ne same] at here ⊢
      exact flows.yields j state within here
  source := flows.source
  finished j within here read := by
    have still : ¬ s.ReaderGone plan j := fun gone => read ⟨gone.1, by
      by_cases same : j + 1 = i
      · simp [Chain.ends, same]
      · simpa only [Chain.ends, Function.update_of_ne same] using gone.2⟩
    by_cases same : j = i
    · subst same
      exact written still
    · simp only [Chain.ends, Function.update_of_ne same] at here
      exact flows.finished j within here still
  sink := flows.sink

/-- The other stages see nothing of a stage that goes on. -/
theorem flows_goesOn {state : σ} {count : Nat} {after : Nat → List α} {next : Chain α σ}
    (flows : Flows plan total s rest counts) (here : s.stages i = .running before)
    (moved : next.stages = Function.update s.stages i (.running state))
    (own : Yields plan.next state (next.streams i ++ after i) (after (i + 1)) count)
    (others : ∀ j, j ≠ i → next.streams j ++ after j = s.streams j ++ rest j)
    (kept : ∀ j, j ≠ i + 1 → after j = rest j) (last : plan.num ≠ i) :
    Flows plan total next after (Function.update counts i count) where
  yields j state within there := by
    rw [moved] at there
    by_cases same : j = i
    · subst same
      simp only [Function.update_self, Status.running.injEq] at there ⊢
      exact there ▸ own
    · rw [Function.update_of_ne same] at there ⊢
      rw [others j same, kept (j + 1) (by omega)]
      exact flows.yields j state within there
  source := (kept 0 (by omega)).trans flows.source
  finished j within there read := by
    rw [moved] at there
    by_cases same : j = i
    · simp [same] at there
    · rw [Function.update_of_ne same] at there
      rw [kept (j + 1) (by omega)]
      refine flows.finished j within there fun gone => read ⟨gone.1, ?_⟩
      rw [moved, Function.update_of_ne]
      · exact gone.2
      · intro itself
        have ended := gone.2
        rw [itself, here] at ended
        cases ended
  sink := (others plan.num last).trans flows.sink

/-- Every move leaves one request less. -/
theorem flowing_moves {count : Nat} (flowing : Flowing plan total s count) (inside : i < plan.num)
    (moves : Moves plan s i later) : ∃ fewer < count, Flowing plan total later fewer := by
  obtain ⟨rest, counts, flows, rfl⟩ := flowing
  have last : plan.num ≠ i := by omega
  cases moves with
  | exit here asks =>
    obtain ⟨all, some⟩ := (flows.yields i _ inside here).of_exit asks
    exact ⟨_, sum_update_lt inside some, _, _, flows_ends flows inside fun _ => all, rfl⟩
  | broken here asks gone =>
    obtain ⟨-, before, -, more, -⟩ := (flows.yields i _ inside here).of_write asks
    exact ⟨_, sum_update_lt inside (by omega), _, _, flows_ends flows inside fun read => absurd gone read, rfl⟩
  | read here asks filled =>
    obtain ⟨before, more, own⟩ := (flows.yields i _ inside here).of_read asks
    rw [filled] at own
    refine ⟨_, sum_update_lt inside (show before < _ by omega), rest, _,
      flows_goesOn flows here rfl ?_ (fun j other => ?_) (fun _ _ => rfl) last, rfl⟩
    · simpa [Chain.holds] using own
    · simp [Chain.holds, Chain.goesOn, other]
  | eof here asks empty done =>
    have nothing : rest i = [] := by
      cases i with
      | zero => exact flows.source
      | succ j => exact flows.finished j (by omega) (done j rfl) (not_gone here)
    obtain ⟨before, more, own⟩ := (flows.yields i _ inside here).of_read asks
    refine ⟨_, sum_update_lt inside (show before < _ by omega), rest, _,
      flows_goesOn flows here rfl ?_ (fun j other => rfl) (fun _ _ => rfl) last, rfl⟩
    simpa [Chain.goesOn, empty, nothing] using own
  | @write state item resume here asks fits =>
    obtain ⟨unwritten, before, output, more, own⟩ := (flows.yields i _ inside here).of_write asks
    refine ⟨_, sum_update_lt inside (show before < _ by omega), Function.update rest (i + 1) unwritten, _,
      flows_goesOn flows here rfl ?_ (fun j other => ?_) (fun j other => Function.update_of_ne other ..) last, rfl⟩
    · simpa [Chain.holds, Chain.goesOn] using own
    · by_cases same : j = i + 1
      · subst same
        simp [Chain.holds, output]
      · simp [Chain.holds, Chain.goesOn, same]

/-- What has come out so far is the beginning of what will come out. -/
theorem flowing_prefix {count : Nat} (flowing : Flowing plan total s count) : s.streams plan.num <+: total := by
  obtain ⟨rest, counts, flows, -⟩ := flowing
  exact ⟨_, flows.sink⟩

theorem flowing_ended {count : Nat} (flowing : Flowing plan total s count) (some : 0 < plan.num)
    (ended : s.stages (plan.num - 1) = .ended) : s.streams plan.num = total := by
  obtain ⟨rest, counts, flows, -⟩ := flowing
  have done : rest (plan.num - 1 + 1) = [] :=
    flows.finished (plan.num - 1) (by omega) ended fun gone => by have := gone.1; omega
  rw [Nat.sub_add_cancel some] at done
  have sink := flows.sink
  rwa [done, List.append_nil] at sink

/-! ### No deadlock -/

/-- A stage that has something to read, or a finished input, and cannot move is
waiting for room, and so there is a next stage, which has something to read. -/
theorem stalled {state : σ} (here : s.stages i = .running state) (fed : s.streams i ≠ [] ∨ s.WriterDone i)
    (stalls : ∀ later, ¬ Moves plan s i later) (inside : i < plan.num) :
    i + 1 < plan.num ∧ s.streams (i + 1) ≠ [] ∧ ∃ state, s.stages (i + 1) = .running state := by
  cases asks : plan.next state with
  | exit => exact absurd (.exit here asks) (stalls _)
  | read resume =>
    cases filled : s.streams i with
    | nil => exact absurd (.eof here asks filled (fed.resolve_left fun some => some filled)) (stalls _)
    | cons item rest => exact absurd (.read here asks filled) (stalls _)
  | write item resume =>
    have full : ¬ (i + 1 = plan.num ∨ (s.streams (i + 1)).length < plan.capacity) :=
      fun fits => stalls _ (.write here asks fits)
    have before : i + 1 < plan.num := by omega
    refine ⟨before, fun empty => full (.inr (by simpa [empty] using plan.room)), ?_⟩
    cases next : s.stages (i + 1) with
    | running state => exact ⟨state, rfl⟩
    | ended => exact absurd (.broken here asks ⟨before, next⟩) (stalls _)

/-- While a stage runs, some stage can move: from the first one that runs on,
each would wait for the next. -/
theorem some_moves (inside : i < plan.num) {state : σ} (runs : s.stages i = .running state) :
    ∃ j < plan.num, ∃ later, Moves plan s j later := by
  by_contra none
  have stalls (j : Nat) (within : j < plan.num) : ∀ later, ¬ Moves plan s j later :=
    fun later moves => none ⟨j, within, later, moves⟩
  classical
  have some : ∃ j, ∃ state, s.stages j = .running state := ⟨i, state, runs⟩
  have first : s.WriterDone (Nat.find some) := by
    intro j before
    cases earlier : s.stages j with
    | ended => rfl
    | running state => exact absurd ⟨state, earlier⟩ (Nat.find_min some (by omega))
  have all (k : Nat) : Nat.find some + k < plan.num ∧ (∃ state, s.stages (Nat.find some + k) = .running state) ∧
      (s.streams (Nat.find some + k) ≠ [] ∨ s.WriterDone (Nat.find some + k)) := by
    induction k with
    | zero => exact ⟨lt_of_le_of_lt (Nat.find_min' some ⟨state, runs⟩) inside, Nat.find_spec some, .inr first⟩
    | succ k ih =>
      obtain ⟨within, ⟨state, here⟩, fed⟩ := ih
      obtain ⟨before, filled, next⟩ := stalled here fed (stalls _ within) within
      exact ⟨before, next, .inl filled⟩
  have beyond := (all plan.num).1
  omega

end Moving

end SysProg.Filters
