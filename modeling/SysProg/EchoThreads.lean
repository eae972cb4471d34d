import Mathlib.Logic.Function.Basic
import SysProg.Lib.Positions
import SysProg.Lib.Transition

/-! `server-proto-thread.c`: the accept loop hands each connection to a thread
of its own, by a pointer to the one variable that `accept` stores into. A
machine interleaves the loop with the handlers; the kernel's descriptor table
says which connection a number stands for, since closed numbers come back. -/
namespace SysProg.EchoThreads
open Positions Transition

/-- A `connection_handler` thread, by what it does next. -/
inductive Handler where
  | started
  | holding (sock : Nat)
  | received (sock : Nat)
  | sent (sock : Nat)
  | closed
  deriving DecidableEq

/-- The process. Connections are numbered as they are accepted. -/
structure Server where
  /-- `data_socket`, uninitialised before the first `accept`. -/
  dataSocket : Option Nat
  /-- The loop stands between `accept` and `pthread_create`. -/
  creating : Bool
  handlers : List Handler
  accepted : Nat
  /-- The connection behind each open descriptor. -/
  table : Nat → Option Nat
  /-- Which handler has received from, sent to or closed which connection. -/
  worked : List (Nat × Nat)
  exited : Bool

/-- `accept` returns a number that is not in use, whichever the kernel takes.
`endsAll` is a handler that ends the process: its `recv` fails on an open
descriptor, or its `send` raises SIGPIPE since the client has closed. -/
inductive Action where
  | accept (fd : Nat)
  | acceptFails
  | create
  | createFails
  | handle (i : Nat)
  | endsAll (i : Nat)
  deriving DecidableEq

namespace Server

def become (s : Server) (i : Nat) (handler : Handler) : Server :=
  { s with handlers := s.handlers.set i handler }

/-- A call on a descriptor is work on the connection behind it, if any. -/
def work (s : Server) (i sock : Nat) : Server :=
  { s with worked := s.worked ++ (s.table sock).toList.map fun connection => (i, connection) }

end Server

/-- The next step of handler `i`. Only the result of `recv` is checked: on a
descriptor that is not open it fails, and the whole process exits. -/
def handle (s : Server) (i : Nat) : Handler → Option Server
  | .started => s.dataSocket.map fun sock => s.become i (.holding sock)
  | .holding sock =>
    if s.table sock = none then some { s with exited := true }
    else some ((s.work i sock).become i (.received sock))
  | .received sock => some ((s.work i sock).become i (.sent sock))
  | .sent sock => some { (s.work i sock).become i .closed with table := Function.update s.table sock none }
  | .closed => none

/-- The handler is about to call `recv` or `send`. -/
def Handler.talks : Handler → Bool
  | .holding _ | .received _ => true
  | .started | .sent _ | .closed => false

/-- `pthread_create` reports a failure by a positive number, so the test for a
negative one never holds and the loop goes on without a handler. -/
def step (s : Server) (action : Action) : Option Server :=
  if s.exited then none else
  match action with
  | .accept fd =>
    if s.creating ∨ s.table fd ≠ none then none
    else some { s with
      dataSocket := some fd
      creating := true
      accepted := s.accepted + 1
      table := Function.update s.table fd (some s.accepted) }
  | .acceptFails => if s.creating then none else some { s with exited := true }
  | .create =>
    if s.creating then some { s with creating := false, handlers := s.handlers ++ [.started] } else none
  | .createFails => if s.creating then some { s with creating := false } else none
  | .handle i => s.handlers[i]?.bind (handle s i)
  | .endsAll i => if (s.handlers[i]?).any Handler.talks then some { s with exited := true } else none

def idle : Server where
  dataSocket := none
  creating := false
  handlers := []
  accepted := 0
  table := fun _ => none
  worked := []
  exited := false

/-- Every thread has run, and none is about to be created. -/
def Finished (s : Server) : Prop := s.creating = false ∧ ∀ handler ∈ s.handlers, handler = .closed

/-- No two handlers have worked on one connection, and when all have run, every
connection has had a handler. -/
structure ServedOnce (s : Server) : Prop where
  exclusive : ∀ i j connection, (i, connection) ∈ s.worked → (j, connection) ∈ s.worked → i = j
  complete : Finished s → ∀ connection < s.accepted, ∃ i, (i, connection) ∈ s.worked

/-- The next connection is stored only when every handler has read its argument,
and every connection gets its thread. -/
def HandsOver (s : Server) : Action → Prop
  | .accept _ => .started ∉ s.handlers
  | .createFails => False
  | .acceptFails | .create | .handle _ | .endsAll _ => True

instance (s : Server) : (action : Action) → Decidable (HandsOver s action)
  | .accept _ => inferInstanceAs (Decidable (.started ∉ s.handlers))
  | .createFails => inferInstanceAs (Decidable False)
  | .acceptFails | .create | .handle _ | .endsAll _ => inferInstanceAs (Decidable True)

/-! ### What a step can do -/

section Steps
variable {s next : Server} {action : Action}

theorem step_cases (taken : step s action = some next) :
    (∃ fd, action = .accept fd ∧ s.creating = false ∧ s.table fd = none ∧ next = { s with
      dataSocket := some fd
      creating := true
      accepted := s.accepted + 1
      table := Function.update s.table fd (some s.accepted) }) ∨
    (action = .create ∧ s.creating = true ∧
      next = { s with creating := false, handlers := s.handlers ++ [.started] }) ∨
    (action = .createFails ∧ s.creating = true ∧ next = { s with creating := false }) ∨
    (∃ i handler, action = .handle i ∧ s.handlers[i]? = some handler ∧ handle s i handler = some next) ∨
    ((action = .acceptFails ∨ ∃ i, action = .endsAll i) ∧ next = { s with exited := true }) := by
  simp only [step] at taken
  split at taken
  · cases taken
  cases action with
  | accept fd =>
    dsimp only at taken
    split at taken
    · cases taken
    · rename_i free
      rw [not_or, not_not, Bool.not_eq_true] at free
      exact .inl ⟨fd, rfl, free.1, free.2, (Option.some.inj taken).symm⟩
  | acceptFails =>
    simp only [Option.ite_none_left_eq_some, Option.some.injEq] at taken
    exact .inr (.inr (.inr (.inr ⟨.inl rfl, taken.2.symm⟩)))
  | create =>
    simp only [Option.ite_none_right_eq_some, Option.some.injEq] at taken
    exact .inr (.inl ⟨rfl, taken.1, taken.2.symm⟩)
  | createFails =>
    simp only [Option.ite_none_right_eq_some, Option.some.injEq] at taken
    exact .inr (.inr (.inl ⟨rfl, taken.1, taken.2.symm⟩))
  | handle i =>
    obtain ⟨handler, place, handled⟩ := Option.bind_eq_some_iff.mp taken
    exact .inr (.inr (.inr (.inl ⟨i, handler, rfl, place, handled⟩)))
  | endsAll i =>
    simp only [Option.ite_none_right_eq_some, Option.some.injEq] at taken
    exact .inr (.inr (.inr (.inr ⟨.inr ⟨i, rfl⟩, taken.2.symm⟩)))

theorem mem_work {s : Server} {i sock : Nat} {entry : Nat × Nat} :
    entry ∈ (s.work i sock).worked ↔ entry ∈ s.worked ∨ entry.1 = i ∧ s.table sock = some entry.2 := by
  obtain ⟨j, connection⟩ := entry
  simp only [Server.work, List.mem_append, List.mem_map, Option.mem_toList, Prod.mk.injEq]
  constructor
  · rintro (old | ⟨_, behind, rfl, rfl⟩)
    · exact .inl old
    · exact .inr ⟨rfl, behind⟩
  · rintro (old | ⟨rfl, behind⟩)
    · exact .inl old
    · exact .inr ⟨connection, behind, rfl, rfl⟩

/-- The descriptor a handler has read and not closed. -/
def Handler.sock : Handler → Option Nat
  | .holding sock | .received sock | .sent sock => some sock
  | .started | .closed => none

/-- The handler has received from its connection. -/
def Handler.hasWorked : Handler → Bool
  | .received _ | .sent _ | .closed => true
  | .started | .holding _ => false

/-- One step of a handler: it reads the variable, gives the process up, or goes
on with the descriptor it has, which only `close` takes out of the table. -/
theorem handle_cases {i : Nat} {handler : Handler} (handled : handle s i handler = some next) :
    (handler = .started ∧ ∃ sock, s.dataSocket = some sock ∧ next = s.become i (.holding sock)) ∨
    (∃ sock, handler = .holding sock ∧ s.table sock = none ∧ next = { s with exited := true }) ∨
    ∃ sock after table, handler.sock = some sock ∧ after ≠ .started ∧ after.hasWorked = true ∧
      (after.sock = none ∨ after.sock = some sock ∧ table = s.table) ∧
      (∀ fd, fd ≠ sock → table fd = s.table fd) ∧ (∀ fd, table fd ≠ none → table fd = s.table fd) ∧
      next = { (s.work i sock).become i after with table := table } := by
  cases handler with
  | started =>
    obtain ⟨sock, stored, rfl⟩ := Option.map_eq_some_iff.mp handled
    exact .inl ⟨rfl, sock, stored, rfl⟩
  | holding sock =>
    simp only [handle] at handled
    split at handled
    · rename_i bad
      cases handled
      exact .inr (.inl ⟨sock, rfl, bad, rfl⟩)
    · cases handled
      exact .inr (.inr ⟨sock, .received sock, s.table, rfl, by simp, rfl, .inr ⟨rfl, rfl⟩,
        fun _ _ => rfl, fun _ _ => rfl, rfl⟩)
  | received sock =>
    cases handled
    exact .inr (.inr ⟨sock, .sent sock, s.table, rfl, by simp, rfl, .inr ⟨rfl, rfl⟩,
      fun _ _ => rfl, fun _ _ => rfl, rfl⟩)
  | sent sock =>
    cases handled
    refine .inr (.inr ⟨sock, .closed, Function.update s.table sock none, rfl, by simp, rfl, .inl rfl,
      fun fd other => Function.update_of_ne other .., fun fd behind => ?_, rfl⟩)
    by_cases same : fd = sock
    · rw [same, Function.update_self] at behind
      exact absurd rfl behind
    · exact Function.update_of_ne same ..
  | closed => cases handled

/-! ### Handlers that read in time -/

/-- Every handler has, or is about to read, the descriptor of the connection it
was created for, and works on that connection only. -/
structure Own (s : Server) : Prop where
  counted : s.accepted = s.handlers.length + if s.creating then 1 else 0
  pending : s.creating = true → ∃ fd, s.dataSocket = some fd ∧ s.table fd = some s.handlers.length
  unread : ∀ i, s.handlers[i]? = some .started →
    s.creating = false ∧ ∃ fd, s.dataSocket = some fd ∧ s.table fd = some i
  holds : ∀ i handler sock, s.handlers[i]? = some handler → handler.sock = some sock → s.table sock = some i
  worked : ∀ i connection, (i, connection) ∈ s.worked ↔
    i = connection ∧ ∃ handler, s.handlers[i]? = some handler ∧ handler.hasWorked = true
  known : ∀ fd connection, s.table fd = some connection → connection < s.accepted
  single : ∀ fd other connection, s.table fd = some connection → s.table other = some connection → fd = other

section Table
variable {table : Nat → Option Nat} {new latest other connection : Nat}

theorem ne_of_free (free : table new = none) (behind : table other = some connection) : other ≠ new := by
  rintro rfl
  rw [free] at behind
  cases behind

/-- An accepted connection leaves the older ones where they are. -/
theorem update_eq_old (free : table new = none) (older : connection ≠ latest) (other : Nat) :
    Function.update table new (some latest) other = some connection ↔ table other = some connection := by
  by_cases same : other = new
  · rw [same, Function.update_self, free]
    exact iff_of_false (fun found => older (Option.some.inj found).symm) (fun found => by cases found)
  · rw [Function.update_of_ne same]

theorem update_eq_latest (unknown : ∀ fd, table fd ≠ some latest)
    (found : Function.update table new (some latest) other = some latest) : other = new := by
  by_contra different
  rw [Function.update_of_ne different] at found
  exact unknown other found

end Table

theorem own_idle : Own idle := by
  constructor <;> simp [idle]

theorem own_accept {fd : Nat} (own : Own s) (ready : s.creating = false) (free : s.table fd = none)
    (allRead : .started ∉ s.handlers) :
    Own { s with
      dataSocket := some fd
      creating := true
      accepted := s.accepted + 1
      table := Function.update s.table fd (some s.accepted) } := by
  have counted := own.counted
  rw [ready, if_neg Bool.false_ne_true, Nat.add_zero] at counted
  have older {other connection : Nat} (behind : s.table other = some connection) : connection ≠ s.accepted :=
    Nat.ne_of_lt (own.known other connection behind)
  have unknown (other : Nat) : s.table other ≠ some s.accepted := fun behind => older behind rfl
  constructor
  · simp only [counted, if_true]
  · intro _
    exact ⟨fd, rfl, (Function.update_self ..).trans (congrArg some counted)⟩
  · intro i started
    exact absurd (List.mem_of_getElem? started) allRead
  · intro i handler sock place holds
    have behind := own.holds i handler sock place holds
    exact (update_eq_old free (older behind) sock).mpr behind
  · exact own.worked
  · intro other connection behind
    by_cases latest : connection = s.accepted
    · exact latest ▸ Nat.lt_succ_self _
    · exact Nat.lt_succ_of_lt (own.known other connection ((update_eq_old free latest other).mp behind))
  · intro left right connection behindLeft behindRight
    by_cases latest : connection = s.accepted
    · subst latest
      exact (update_eq_latest unknown behindLeft).trans (update_eq_latest unknown behindRight).symm
    · exact own.single left right connection ((update_eq_old free latest left).mp behindLeft)
        ((update_eq_old free latest right).mp behindRight)

theorem own_create (own : Own s) (creating : s.creating = true) :
    Own { s with creating := false, handlers := s.handlers ++ [.started] } := by
  have counted := own.counted
  rw [if_pos creating] at counted
  obtain ⟨fd, stored, behind⟩ := own.pending creating
  constructor
  · simp only [counted, List.length_append, List.length_singleton, Bool.false_eq_true, if_false, Nat.add_zero]
  · intro impossible
    cases impossible
  · intro i started
    rcases getElem?_concat_cases started with old | ⟨rfl, -⟩
    · rw [(own.unread i old).1] at creating
      cases creating
    · exact ⟨rfl, fd, stored, behind⟩
  · intro i handler sock found holds
    rcases getElem?_concat_cases found with old | ⟨rfl, rfl⟩
    · exact own.holds i handler sock old holds
    · cases holds
  · intro i connection
    rw [own.worked]
    refine and_congr_right fun _ => ⟨?_, ?_⟩
    · rintro ⟨handler, old, worked⟩
      exact ⟨handler, by rw [List.getElem?_append_left (List.getElem?_eq_some_iff.mp old).1, old], worked⟩
    · rintro ⟨handler, found, worked⟩
      rcases getElem?_concat_cases found with old | ⟨-, rfl⟩
      · exact ⟨handler, old, worked⟩
      · cases worked
  · exact own.known
  · exact own.single

theorem lookup_become {i : Nat} {handler : Handler} (place : s.handlers[i]? = some handler) (after : Handler)
    (j : Nat) : (s.become i after).handlers[j]? = if i = j then some after else s.handlers[j]? := by
  by_cases same : i = j
  · rw [if_pos same, ← same]
    exact List.getElem?_set_self (List.getElem?_eq_some_iff.mp place).1
  · rw [if_neg same]
    exact List.getElem?_set_ne same

theorem own_read {i sock : Nat} (own : Own s) (place : s.handlers[i]? = some .started)
    (stored : s.dataSocket = some sock) : Own (s.become i (.holding sock)) := by
  obtain ⟨ready, fd, same, behind⟩ := own.unread i place
  rw [stored] at same
  cases same
  constructor
  · rw [Server.become, List.length_set]
    exact own.counted
  · intro creating
    rw [show (s.become i (.holding sock)).creating = s.creating from rfl, ready] at creating
    cases creating
  · intro j started
    rcases getElem?_set_cases started with ⟨-, impossible⟩ | ⟨-, old⟩
    · cases impossible
    · exact own.unread j old
  · intro j handler fd found holds
    rcases getElem?_set_cases found with ⟨rfl, rfl⟩ | ⟨-, old⟩
    · cases holds
      exact behind
    · exact own.holds j handler fd old holds
  · intro j connection
    rw [show (s.become i (.holding sock)).worked = s.worked from rfl, own.worked]
    refine and_congr_right fun _ => exists_congr fun handler => and_congr_left fun worked => ?_
    rw [lookup_become place]
    split
    · rename_i same
      rw [← same, place]
      constructor <;> rintro ⟨⟩ <;> cases worked
    · rfl
  · exact own.known
  · exact own.single

/-- The work of a handler on its own connection is its own. -/
theorem worked_work {i sock : Nat} {handler after : Handler} (own : Own s) (place : s.handlers[i]? = some handler)
    (mine : s.table sock = some i) (hasWorked : after.hasWorked = true) (j connection : Nat) :
    (j, connection) ∈ (s.work i sock).worked ↔
      j = connection ∧ ∃ other, (s.become i after).handlers[j]? = some other ∧ other.hasWorked = true := by
  simp only [mem_work, mine, Option.some.injEq, lookup_become place, own.worked]
  constructor
  · rintro (⟨same, other, found, worked⟩ | ⟨rfl, same⟩)
    · refine ⟨same, ?_⟩
      by_cases mineToo : i = j
      · exact ⟨after, if_pos mineToo, hasWorked⟩
      · exact ⟨other, (if_neg mineToo).trans found, worked⟩
    · exact ⟨same, after, if_pos rfl, hasWorked⟩
  · rintro ⟨rfl, other, found, worked⟩
    split at found
    · rename_i same
      exact .inr ⟨same.symm, same⟩
    · exact .inl ⟨rfl, other, found, worked⟩

/-- A handler goes on with its own connection, which leaves the others theirs. -/
theorem own_work {i sock : Nat} {handler after : Handler} {table : Nat → Option Nat} (own : Own s)
    (place : s.handlers[i]? = some handler) (holds : handler.sock = some sock) (notStarted : after ≠ .started)
    (hasWorked : after.hasWorked = true) (keepsOrCloses : after.sock = none ∨ after.sock = some sock ∧ table = s.table)
    (others : ∀ fd, fd ≠ sock → table fd = s.table fd) (fewer : ∀ fd, table fd ≠ none → table fd = s.table fd) :
    Own { (s.work i sock).become i after with table := table } := by
  have mine := own.holds i handler sock place holds
  have inside := (List.getElem?_eq_some_iff.mp place).1
  have kept {fd connection : Nat} (behind : s.table fd = some connection) (foreign : connection ≠ i) :
      table fd = some connection := by
    rw [others fd, behind]
    rintro rfl
    rw [mine] at behind
    exact foreign (Option.some.inj behind).symm
  have old {fd connection : Nat} (behind : table fd = some connection) : s.table fd = some connection := by
    rw [← fewer fd (by rw [behind]; exact Option.some_ne_none _), behind]
  constructor
  · show s.accepted = ((s.handlers.set i after).length + if s.creating then 1 else 0)
    rw [List.length_set]
    exact own.counted
  · intro creating
    obtain ⟨fd, stored, behind⟩ := own.pending creating
    refine ⟨fd, stored, ?_⟩
    show table fd = some (s.handlers.set i after).length
    rw [List.length_set]
    exact kept behind (Nat.ne_of_gt inside)
  · intro j started
    rcases getElem?_set_cases started with ⟨-, same⟩ | ⟨different, old⟩
    · exact absurd same.symm notStarted
    · obtain ⟨ready, fd, stored, behind⟩ := own.unread j old
      exact ⟨ready, fd, stored, kept behind (Ne.symm different)⟩
  · intro j other fd found otherHolds
    rcases getElem?_set_cases found with ⟨rfl, rfl⟩ | ⟨different, old⟩
    · rcases keepsOrCloses with closes | ⟨keeps, unchanged⟩
      · rw [closes] at otherHolds
        cases otherHolds
      · rw [keeps] at otherHolds
        cases otherHolds
        show table sock = some i
        rw [unchanged, mine]
    · exact kept (own.holds j other fd old otherHolds) (Ne.symm different)
  · intro j connection
    exact worked_work own place mine hasWorked j connection
  · intro fd connection behind
    exact own.known fd connection (old behind)
  · intro left right connection behindLeft behindRight
    exact own.single left right connection (old behindLeft) (old behindRight)

theorem own_exit (own : Own s) : Own { s with exited := true } :=
  ⟨own.counted, own.pending, own.unread, own.holds, own.worked, own.known, own.single⟩

theorem own_step (own : Own s) (first : HandsOver s action) (taken : step s action = some next) : Own next := by
  rcases step_cases taken with ⟨fd, rfl, ready, free, rfl⟩ | ⟨-, creating, rfl⟩ | ⟨rfl, -⟩ |
    ⟨i, handler, -, place, handled⟩ | ⟨-, rfl⟩
  · exact own_accept own ready free first
  · exact own_create own creating
  · exact first.elim
  · rcases handle_cases handled with ⟨rfl, sock, stored, rfl⟩ | ⟨sock, rfl, bad, -⟩ |
      ⟨sock, after, table, holds, notStarted, hasWorked, keepsOrCloses, others, fewer, rfl⟩
    · exact own_read own place stored
    · rw [own.holds i _ sock place rfl] at bad
      cases bad
    · exact own_work own place holds notStarted hasWorked keepsOrCloses others fewer
  · exact own_exit own

/-! ### A connection nobody has read -/

/-- The descriptor of the connection is open, but no handler has it or can still
read it from the variable. -/
structure Orphaned (connection fd : Nat) (s : Server) : Prop where
  behind : connection < s.accepted
  lost : s.dataSocket = some fd → s.creating = false ∧ .started ∉ s.handlers
  place : ∀ other, s.table other = some connection ↔ other = fd
  unheld : ∀ handler ∈ s.handlers, handler.sock ≠ some fd
  unserved : ∀ i, (i, connection) ∉ s.worked

/-- A connection accepted while a handler has not read its argument takes that
handler's connection away. -/
theorem orphaned_late {fd : Nat} (own : Own s) (late : .started ∈ s.handlers) (free : s.table fd = none) :
    ∃ connection lost, Orphaned connection lost { s with
      dataSocket := some fd
      creating := true
      accepted := s.accepted + 1
      table := Function.update s.table fd (some s.accepted) } := by
  obtain ⟨i, started⟩ := List.mem_iff_getElem?.mp late
  obtain ⟨-, lost, -, behind⟩ := own.unread i started
  have less := own.known lost i behind
  refine ⟨i, lost, Nat.lt_succ_of_lt less, ?_, ?_, ?_, ?_⟩
  · exact fun same => absurd (Option.some.inj same).symm (ne_of_free free behind)
  · intro other
    refine (update_eq_old free (Nat.ne_of_lt less) other).trans ?_
    exact ⟨fun found => own.single other lost i found behind, fun found => found ▸ behind⟩
  · intro handler member holds
    obtain ⟨j, place⟩ := List.mem_iff_getElem?.mp member
    have mine := own.holds j handler lost place holds
    rw [behind] at mine
    cases mine
    rw [started] at place
    cases place
    cases holds
  · intro j worked
    obtain ⟨rfl, handler, place, hasWorked⟩ := (own.worked j i).mp worked
    rw [started] at place
    cases place
    cases hasWorked

/-- The connection for which `pthread_create` fails has no handler, and the
handlers before it have all read their arguments. -/
theorem orphaned_uncreated (own : Own s) (creating : s.creating = true) :
    ∃ connection lost, Orphaned connection lost { s with creating := false } := by
  obtain ⟨fd, -, behind⟩ := own.pending creating
  have none_there : s.handlers[s.handlers.length]? = none := List.getElem?_eq_none le_rfl
  refine ⟨s.handlers.length, fd, own.known fd _ behind, fun _ => ⟨rfl, fun late => ?_⟩, fun other => ?_,
    fun handler member holds => ?_, fun i worked => ?_⟩
  · obtain ⟨i, started⟩ := List.mem_iff_getElem?.mp late
    rw [(own.unread i started).1] at creating
    cases creating
  · exact ⟨fun found => own.single other fd _ found behind, fun found => found ▸ behind⟩
  · obtain ⟨j, place⟩ := List.mem_iff_getElem?.mp member
    have mine := own.holds j handler fd place holds
    rw [behind] at mine
    cases mine
    rw [none_there] at place
    cases place
  · obtain ⟨rfl, handler, place, -⟩ := (own.worked i _).mp worked
    rw [none_there] at place
    cases place

theorem orphaned_step_late (own : Own s) (late : ¬ HandsOver s action) (taken : step s action = some next) :
    ∃ connection fd, Orphaned connection fd next := by
  rcases step_cases taken with ⟨fd, rfl, -, free, rfl⟩ | ⟨rfl, -⟩ | ⟨-, creating, rfl⟩ | ⟨i, handler, rfl, -⟩ |
    ⟨rfl | ⟨i, rfl⟩, -⟩
  · exact orphaned_late own (not_not.mp late) free
  · exact absurd trivial late
  · exact orphaned_uncreated own creating
  · exact absurd trivial late
  · exact absurd trivial late
  · exact absurd trivial late

/-- A lost connection stays open and out of everybody's reach. -/
theorem orphaned_step {connection fd : Nat} (orphaned : Orphaned connection fd s)
    (taken : step s action = some next) : Orphaned connection fd next := by
  have place := (orphaned.place fd).mpr rfl
  rcases step_cases taken with ⟨new, rfl, -, free, rfl⟩ | ⟨-, creating, rfl⟩ | ⟨-, creating, rfl⟩ |
    ⟨i, handler, -, found, handled⟩ | ⟨-, rfl⟩
  · refine ⟨Nat.lt_succ_of_lt orphaned.behind, ?_, fun other => ?_, orphaned.unheld, orphaned.unserved⟩
    · exact fun same => absurd (Option.some.inj same).symm (ne_of_free free place)
    · exact (update_eq_old free (Nat.ne_of_lt orphaned.behind) other).trans (orphaned.place other)
  · refine ⟨orphaned.behind, fun stored => ?_, orphaned.place, fun handler member => ?_, orphaned.unserved⟩
    · rw [(orphaned.lost stored).1] at creating
      cases creating
    · rcases List.mem_append.mp member with old | new
      · exact orphaned.unheld handler old
      · rw [List.mem_singleton.mp new]
        exact fun holds => by cases holds
  · refine ⟨orphaned.behind, fun stored => ?_, orphaned.place, orphaned.unheld, orphaned.unserved⟩
    rw [(orphaned.lost stored).1] at creating
    cases creating
  · rcases handle_cases handled with ⟨rfl, sock, stored, rfl⟩ | ⟨sock, rfl, -, rfl⟩ |
      ⟨sock, after, table, holds, notStarted, -, keepsOrCloses, others, fewer, rfl⟩
    · have different : s.dataSocket ≠ some fd := fun same =>
        (orphaned.lost same).2 (List.mem_of_getElem? found)
      refine ⟨orphaned.behind, fun same => absurd same different, orphaned.place, fun handler member => ?_,
        orphaned.unserved⟩
      rcases List.mem_or_eq_of_mem_set member with old | rfl
      · exact orphaned.unheld handler old
      · exact fun same => different (stored.trans same)
    · exact ⟨orphaned.behind, orphaned.lost, orphaned.place, orphaned.unheld, orphaned.unserved⟩
    · have different : fd ≠ sock := by
        rintro rfl
        exact orphaned.unheld handler (List.mem_of_getElem? found) holds
      refine ⟨orphaned.behind, fun stored => ?_, fun other => ?_, fun handler member => ?_, fun j worked => ?_⟩
      · refine ⟨(orphaned.lost stored).1, fun late => ?_⟩
        rcases List.mem_or_eq_of_mem_set late with old | same
        · exact (orphaned.lost stored).2 old
        · exact notStarted same.symm
      · show table other = some connection ↔ other = fd
        constructor
        · intro known
          rw [fewer other (by rw [known]; exact Option.some_ne_none _)] at known
          exact (orphaned.place other).mp known
        · rintro rfl
          rw [others other different, place]
      · rcases List.mem_or_eq_of_mem_set member with old | rfl
        · exact orphaned.unheld handler old
        · rcases keepsOrCloses with closes | ⟨keeps, -⟩
          · rw [closes]
            exact fun same => by cases same
          · rw [keeps]
            exact fun same => different (Option.some.inj same).symm
      · rcases mem_work.mp worked with old | ⟨-, known⟩
        · exact orphaned.unserved j old
        · exact different ((orphaned.place sock).mp known).symm
  · exact ⟨orphaned.behind, orphaned.lost, orphaned.place, orphaned.unheld, orphaned.unserved⟩

end Steps

/-! ### Whole runs -/

theorem servedOnce_of_own {s : Server} (own : Own s) : ServedOnce s := by
  constructor
  · intro i j connection left right
    exact ((own.worked i connection).mp left).1.trans ((own.worked j connection).mp right).1.symm
  · rintro ⟨ready, allClosed⟩ connection behind
    have counted := own.counted
    rw [ready, if_neg Bool.false_ne_true, Nat.add_zero] at counted
    rw [counted] at behind
    have place := List.getElem?_eq_getElem behind
    have closed := allClosed _ (List.getElem_mem behind)
    exact ⟨connection, (own.worked connection connection).mpr ⟨rfl, _, place, by rw [closed]; rfl⟩⟩

/-- In a run whose accepts all wait for the handlers to read their argument and
whose threads are all created, connections are served once in every state; a run
in which all threads end and every connection was served once is such a run. -/
theorem served_once_iff (actions : List Action) (s : Server) (ran : run step idle actions = some s) :
    (Along step HandsOver idle actions → ServedOnce s) ∧
      (Finished s → (ServedOnce s ↔ Along step HandsOver idle actions)) := by
  have inTime (meets : Along step HandsOver idle actions) : ServedOnce s :=
    servedOnce_of_own (run_keeps_along Own own_idle (fun _ _ _ own first taken => own_step own first taken) meets ran)
  refine ⟨inTime, fun finished => ⟨fun served => ?_, inTime⟩⟩
  by_contra misses
  obtain ⟨connection, fd, orphaned⟩ := run_breaks Own (fun s => ∃ connection fd, Orphaned connection fd s) own_idle
    (fun _ _ _ own first taken => own_step own first taken)
    (fun _ _ _ own late taken => orphaned_step_late own late taken)
    (fun _ _ _ ⟨connection, fd, orphaned⟩ taken => ⟨connection, fd, orphaned_step orphaned taken⟩) misses ran
  obtain ⟨i, worked⟩ := served.complete finished connection orphaned.behind
  exact orphaned.unserved i worked

/-- Two visits, the second under the number that the first has given back. -/
def promptVisits : List Action :=
  [.accept 4, .create, .handle 0, .handle 0, .handle 0, .handle 0,
    .accept 4, .create, .handle 1, .handle 1, .handle 1, .handle 1]

theorem prompt_visits_served_once : ServedOnce ((run step idle promptVisits).get (by decide)) :=
  (served_once_iff promptVisits _ (Option.some_get _).symm).1 (by decide)

/-- The second connection arrives before the first handler has run: both
handlers read 5 and receive from that connection. -/
def hurriedVisits : List Action :=
  [.accept 4, .create, .accept 5, .create, .handle 0, .handle 1, .handle 0, .handle 1]

theorem hurried_visit_served_twice : ¬ ∀ actions s, run step idle actions = some s → ServedOnce s := by
  intro claimed
  have possible : (run step idle hurriedVisits).isSome := by decide
  have both : ((run step idle hurriedVisits).get (by decide)).worked = [(0, 1), (1, 1)] := by decide
  have served := claimed hurriedVisits _ (Option.some_get possible).symm
  exact absurd (served.exclusive 0 1 1 (by rw [both]; simp) (by rw [both]; simp)) (by decide)

end SysProg.EchoThreads
