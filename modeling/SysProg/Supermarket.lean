import Mathlib.Data.UInt
import SysProg.Lib.Crew
import SysProg.Lib.Positions
import SysProg.Lib.Transition

/-! `thread-supermarket.c`: customers wait on a counting semaphore, take a
register off a stack that a mutex guards, and put it back. A step is one call
of a customer, or one access to `top` inside the mutex, so `registers[top--]`
and `registers[++top]` take two steps each. -/
namespace SysProg.Supermarket
open Crew Positions Transition

/-- A `customer` thread, by what it does next; `reg` is its `reg_id`. -/
inductive Customer where
  /-- Before `sem_wait`; a thread not created yet is here as well. -/
  | arriving
  /-- In `get_register`, before the lock. -/
  | admitted
  | popping
  /-- It has loaded `top` for `registers[top--]`. -/
  | loaded (top : Int)
  | popped (reg : Int32)
  | checkingOut (reg : Int32)
  /-- In `release_register`, before the lock. -/
  | finished (reg : Int32)
  | pushing (reg : Int32)
  /-- It has loaded `top` for `registers[++top] = reg_id`. -/
  | raising (reg : Int32) (top : Int)
  | pushed
  /-- Before `sem_post`. -/
  | leaving
  | left
  deriving DecidableEq

/-- The globals of the program and its threads. -/
structure Market where
  checkoutLines : Nat
  /-- Who holds `reg_mutex`. -/
  regMutex : Option Nat
  registers : List Int32
  top : Int
  customers : List Customer
  /-- An access outside `registers` has happened. -/
  faulted : Bool
  deriving DecidableEq

namespace Market

def become (s : Market) (i : Nat) (moved : Customer) : Market :=
  { s with customers := s.customers.set i moved }

/-- `pthread_mutex_lock`; a thread that has to wait takes no step. -/
def lock (s : Market) (i : Nat) : Option Market :=
  if s.regMutex = none then some { s with regMutex := some i } else none

def unlock (s : Market) : Market := { s with regMutex := none }

end Market

/-- The next step of customer `i`. -/
def customer (s : Market) (i : Nat) : Customer → Option Market
  | .arriving =>
    if s.checkoutLines = 0 then none
    else some ({ s with checkoutLines := s.checkoutLines - 1 }.become i .admitted)
  | .admitted => (s.lock i).map fun s => s.become i .popping
  | .popping => some (s.become i (.loaded s.top))
  | .loaded top =>
    match if top < 0 then none else s.registers[top.toNat]? with
    | none => some { s with faulted := true }
    | some reg => some ({ s with top := top - 1 }.become i (.popped reg))
  | .popped reg => some (s.unlock.become i (.checkingOut reg))
  | .checkingOut reg => some (s.become i (.finished reg))
  | .finished reg => (s.lock i).map fun s => s.become i (.pushing reg)
  | .pushing reg => some (s.become i (.raising reg s.top))
  | .raising reg top =>
    if top + 1 < 0 ∨ s.registers.length ≤ top + 1 then some { s with faulted := true }
    else some ({ s with
      top := top + 1
      registers := s.registers.set (top + 1).toNat reg }.become i .pushed)
  | .pushed => some (s.unlock.become i .leaving)
  | .leaving => some ({ s with checkoutLines := s.checkoutLines + 1 }.become i .left)
  | .left => none

/-- The scheduler picks a customer. -/
def step (s : Market) (i : Nat) : Option Market :=
  if s.faulted then none else s.customers[i]?.bind (customer s i)

/-- `main` has initialised the semaphore; `NUM_CHECKOUTS` is the number of
registers. -/
def opening (registers : List Int32) (customers : Nat) : Market where
  checkoutLines := registers.length
  regMutex := none
  registers := registers
  top := registers.length - 1
  customers := List.replicate customers .arriving
  faulted := false

/-! ### Registers in use and free registers -/

namespace Customer

/-- The register a customer has popped and not pushed back. -/
def register : Customer → Option Int32
  | .popped reg | .checkingOut reg | .finished reg | .pushing reg | .raising reg _ => some reg
  | .arriving | .admitted | .popping | .loaded _ | .pushed | .leaving | .left => none

/-- Between `sem_wait` and `sem_post`. -/
def inside : Customer → Bool
  | .arriving | .left => false
  | .admitted | .popping | .loaded _ | .popped _ | .checkingOut _ | .finished _ | .pushing _ | .raising .. | .pushed
  | .leaving => true

/-- Inside `reg_mutex`. -/
def locked : Customer → Bool
  | .popping | .loaded _ | .popped _ | .pushing _ | .raising .. | .pushed => true
  | .arriving | .admitted | .checkingOut _ | .finished _ | .leaving | .left => false

/-- The value of `top` that a customer is about to change. -/
def loadedTop : Customer → Option Int
  | .loaded top | .raising _ top => some top
  | .arriving | .admitted | .popping | .popped _ | .checkingOut _ | .finished _ | .pushing _ | .pushed | .leaving
  | .left => none

end Customer

def held (s : Market) : List Int32 := s.customers.filterMap Customer.register

/-- `registers[0..top]`. -/
def free (s : Market) : List Int32 := s.registers.take (s.top + 1).toNat

/-- What the program promises about its registers. -/
structure NeverShared (initial : List Int32) (s : Market) : Prop where
  accounted : (held s ++ free s).Perm initial
  distinct : (held s ++ free s).Nodup
  popInside : ∀ top, .loaded top ∈ s.customers → 0 ≤ top ∧ top < s.registers.length
  pushInside : ∀ reg top, .raising reg top ∈ s.customers → 0 ≤ top + 1 ∧ top + 1 < s.registers.length
  noFault : s.faulted = false
  exclusive : ∀ (i j : Nat) (one other : Customer) (reg : Int32), s.customers[i]? = some one →
    s.customers[j]? = some other → one.register = some reg → other.register = some reg → i = j
  allFree : (∀ customer ∈ s.customers, customer = .left) → (free s).Perm initial

/-! ### The invariant -/

/-- Semaphore, mutex and stack in step: the permits and the customers inside
make up the number of registers, and so do the registers held and free. -/
structure Inv (initial : List Int32) (s : Market) : Prop where
  noFault : s.faulted = false
  size : s.registers.length = initial.length
  topInside : 0 ≤ s.top + 1 ∧ s.top + 1 ≤ s.registers.length
  accounted : (held s ++ free s).Perm initial
  permits : s.checkoutLines + s.customers.countP Customer.inside = initial.length
  mutex : ∀ i, s.regMutex = some i ↔ ∃ customer, s.customers[i]? = some customer ∧ customer.locked = true
  upToDate : ∀ (i : Nat) customer top, s.customers[i]? = some customer → customer.loadedTop = some top → s.top = top

theorem inv_opening (registers : List Int32) (customers : Nat) : Inv registers (opening registers customers) := by
  have nobody {i : Nat} {customer : Customer} (found : (opening registers customers).customers[i]? = some customer) :
      customer = .arriving := List.eq_of_mem_replicate (List.mem_of_getElem? found)
  constructor
  · rfl
  · rfl
  · simp only [opening]
    omega
  · simp [held, free, opening, Customer.register, List.filterMap_replicate]
  · simp [opening, Customer.inside, List.countP_replicate]
  · intro i
    refine iff_of_false (fun impossible => by cases impossible) ?_
    rintro ⟨customer, found, locked⟩
    rw [nobody found] at locked
    cases locked
  · intro i customer top found loaded
    rw [nobody found] at loaded
    cases loaded

section Moves
variable {initial : List Int32} {s next : Market} {i : Nat} {customer moved : Customer}

theorem locked_of_loadedTop {top : Int} (loaded : customer.loadedTop = some top) : customer.locked = true := by
  cases customer <;> first | rfl | cases loaded

theorem inside_of_register (holds : customer.register.isSome) : customer.inside = true := by
  cases customer <;> first | rfl | cases holds

/-- The sizes of the two parts. -/
theorem Inv.count (inv : Inv initial s) : ((held s).length : Int) + (s.top + 1) = initial.length := by
  have size := inv.accounted.length_eq
  have topInside := inv.topInside
  rw [List.length_append, free, List.length_take] at size
  omega

/-- What a move of customer `i` has to satisfy to keep the invariant: permits
and registers are handed over one for one, the mutex is taken when free and
given back by its holder, and `top` changes inside the mutex only. -/
theorem inv_move (inv : Inv initial s) (place : s.customers[i]? = some customer) (lines : Nat)
    (mutex : Option Nat) (registers : List Int32) (top : Int) (size : registers.length = s.registers.length)
    (topInside : 0 ≤ top + 1 ∧ top + 1 ≤ registers.length)
    (handed : (moved.register.toList ++ registers.take (top + 1).toNat).Perm (customer.register.toList ++ free s))
    (permits : lines + (if moved.inside then 1 else 0) = s.checkoutLines + if customer.inside then 1 else 0)
    (guarded : mutex = s.regMutex ∧ moved.locked = customer.locked ∨
      s.regMutex = none ∧ mutex = some i ∧ moved.locked = true ∨
      customer.locked = true ∧ mutex = none ∧ moved.locked = false)
    (changes : top = s.top ∨ customer.locked = true)
    (loads : ∀ value, moved.loadedTop = some value → top = value) :
    Inv initial ⟨lines, mutex, registers, top, s.customers.set i moved, false⟩ := by
  constructor
  · rfl
  · exact size.trans inv.size
  · exact topInside
  · exact (hand_over Customer.register place moved handed).trans inv.accounted
  · have counted := countP_move Customer.inside place moved
    have before := inv.permits
    show lines + (s.customers.set i moved).countP Customer.inside = initial.length
    omega
  · exact owner_move inv.mutex place moved guarded
  · intro j other value found loaded
    rcases getElem?_set_cases found with ⟨-, rfl⟩ | ⟨different, old⟩
    · exact loads value loaded
    · rcases changes with rfl | locked
      · exact inv.upToDate j other value old loaded
      · have owner := (inv.mutex j).mpr ⟨other, old, locked_of_loadedTop loaded⟩
        rw [(owner_iff inv.mutex place).mpr locked] at owner
        exact absurd (Option.some.inj owner) different

/-- A customer with a permit and no register finds one on the stack. -/
theorem Inv.canPop (inv : Inv initial s) (place : s.customers[i]? = some customer) (inside : customer.inside = true)
    (nothing : customer.register = none) : 0 ≤ s.top := by
  have fewer := length_collect_lt Customer.register Customer.inside (fun _ => inside_of_register) place inside nothing
  have permits := inv.permits
  have count := inv.count
  have length : (held s).length = (s.customers.filterMap Customer.register).length := rfl
  omega

/-- A customer with a register leaves room for it on the stack. -/
theorem Inv.canPush {reg : Int32} (inv : Inv initial s) (place : s.customers[i]? = some customer)
    (holds : customer.register = some reg) : s.top + 1 < s.registers.length := by
  have member : reg ∈ held s := List.mem_filterMap.mpr ⟨customer, List.mem_of_getElem? place, holds⟩
  have positive := List.length_pos_of_mem member
  have count := inv.count
  have size := inv.size
  omega

/-- A move that leaves the stack alone. -/
theorem inv_move_beside (inv : Inv initial s) (place : s.customers[i]? = some customer) (lines : Nat)
    (mutex : Option Nat) (sameRegister : moved.register = customer.register)
    (permits : lines + (if moved.inside then 1 else 0) = s.checkoutLines + if customer.inside then 1 else 0)
    (guarded : mutex = s.regMutex ∧ moved.locked = customer.locked ∨
      s.regMutex = none ∧ mutex = some i ∧ moved.locked = true ∨
      customer.locked = true ∧ mutex = none ∧ moved.locked = false)
    (loads : ∀ value, moved.loadedTop = some value → s.top = value) :
    Inv initial ⟨lines, mutex, s.registers, s.top, s.customers.set i moved, false⟩ :=
  inv_move inv place lines mutex s.registers s.top rfl inv.topInside (by rw [sameRegister]; exact .refl _) permits
    guarded (.inl rfl) loads

theorem lock_eq_some (locked : s.lock i = some next) : s.regMutex = none ∧ next = { s with regMutex := some i } := by
  rw [Market.lock] at locked
  split at locked
  · exact ⟨‹_›, (Option.some.inj locked).symm⟩
  · cases locked

/-- `registers[top--]` takes the top register off the stack. -/
theorem inv_pop {top : Int} (inv : Inv initial s) (place : s.customers[i]? = some (.loaded top))
    (taken : Supermarket.customer s i (.loaded top) = some next) : Inv initial next := by
  have sameTop := inv.upToDate i _ top place rfl
  subst sameTop
  have positive := inv.canPop place rfl rfl
  have below := inv.topInside
  have within : s.top.toNat < s.registers.length := by omega
  have found : (if s.top < 0 then none else s.registers[s.top.toNat]?) = some s.registers[s.top.toNat] := by
    rw [if_neg (not_lt.mpr positive), List.getElem?_eq_getElem within]
  simp only [Supermarket.customer, found, Option.some.injEq] at taken
  rw [← taken, Market.become, inv.noFault]
  refine inv_move inv place s.checkoutLines s.regMutex s.registers (s.top - 1) rfl ⟨by omega, by omega⟩ ?_ rfl
    (.inl ⟨rfl, rfl⟩) (.inr rfl) fun value loaded => by cases loaded
  have sizes : (s.top + 1).toNat = s.top.toNat + 1 ∧ (s.top - 1 + 1).toNat = s.top.toNat := by omega
  show ([s.registers[s.top.toNat]] ++ s.registers.take (s.top - 1 + 1).toNat).Perm ([] ++ free s)
  rw [free, sizes.1, sizes.2, List.take_succ_eq_append_getElem within, List.nil_append]
  exact List.perm_append_comm

/-- `registers[++top] = reg_id` puts the register on top of the stack. -/
theorem inv_push {reg : Int32} {top : Int} (inv : Inv initial s) (place : s.customers[i]? = some (.raising reg top))
    (taken : Supermarket.customer s i (.raising reg top) = some next) : Inv initial next := by
  have sameTop := inv.upToDate i _ top place rfl
  subst sameTop
  have room := inv.canPush place rfl
  have below := inv.topInside
  have inBounds : ¬ (s.top + 1 < 0 ∨ (s.registers.length : Int) ≤ s.top + 1) := by omega
  simp only [Supermarket.customer, if_neg inBounds, Option.some.injEq] at taken
  rw [← taken, Market.become, inv.noFault]
  refine inv_move inv place s.checkoutLines s.regMutex (s.registers.set (s.top + 1).toNat reg) (s.top + 1)
    (List.length_set ..) ⟨by omega, by rw [List.length_set]; omega⟩ ?_ rfl (.inl ⟨rfl, rfl⟩) (.inr rfl)
    fun value loaded => by cases loaded
  have within : (s.top + 1).toNat < (s.registers.set (s.top + 1).toNat reg).length := by
    rw [List.length_set]
    omega
  have above : (s.top + 1 + 1).toNat = (s.top + 1).toNat + 1 := by omega
  show ([] ++ (s.registers.set (s.top + 1).toNat reg).take (s.top + 1 + 1).toNat).Perm ([reg] ++ free s)
  rw [above, List.take_succ_eq_append_getElem within, List.getElem_set_self, List.take_set_of_le (Nat.le_refl _),
    List.nil_append]
  exact List.perm_append_comm

theorem inv_step (inv : Inv initial s) (taken : step s i = some next) : Inv initial next := by
  simp only [step, inv.noFault, Bool.false_eq_true, if_false] at taken
  obtain ⟨customer, place, taken⟩ := Option.bind_eq_some_iff.mp taken
  have kept (moved : Customer) : s.become i moved = ⟨s.checkoutLines, s.regMutex, s.registers, s.top,
      s.customers.set i moved, false⟩ := by rw [Market.become, inv.noFault]
  cases customer with
  | arriving =>
    simp only [Supermarket.customer] at taken
    split at taken
    · cases taken
    · rename_i permit
      rw [← Option.some.inj taken, Market.become, inv.noFault]
      refine inv_move_beside inv place _ _ rfl ?_ (.inl ⟨rfl, rfl⟩) fun _ loaded => by cases loaded
      simp only [Customer.inside, if_true, Bool.false_eq_true, if_false]
      omega
  | admitted =>
    obtain ⟨middle, locked, rfl⟩ := Option.map_eq_some_iff.mp taken
    obtain ⟨unowned, rfl⟩ := lock_eq_some locked
    rw [Market.become, inv.noFault]
    exact inv_move_beside inv place _ _ rfl rfl (.inr (.inl ⟨unowned, rfl, rfl⟩)) fun _ loaded => by cases loaded
  | popping =>
    rw [← Option.some.inj taken, kept]
    exact inv_move_beside inv place _ _ rfl rfl (.inl ⟨rfl, rfl⟩) fun _ loaded => Option.some.inj loaded
  | loaded top => exact inv_pop inv place taken
  | popped reg =>
    rw [← Option.some.inj taken, Market.become, Market.unlock, inv.noFault]
    exact inv_move_beside inv place _ _ rfl rfl (.inr (.inr ⟨rfl, rfl, rfl⟩)) fun _ loaded => by cases loaded
  | checkingOut reg =>
    rw [← Option.some.inj taken, kept]
    exact inv_move_beside inv place _ _ rfl rfl (.inl ⟨rfl, rfl⟩) fun _ loaded => by cases loaded
  | finished reg =>
    obtain ⟨middle, locked, rfl⟩ := Option.map_eq_some_iff.mp taken
    obtain ⟨unowned, rfl⟩ := lock_eq_some locked
    rw [Market.become, inv.noFault]
    exact inv_move_beside inv place _ _ rfl rfl (.inr (.inl ⟨unowned, rfl, rfl⟩)) fun _ loaded => by cases loaded
  | pushing reg =>
    rw [← Option.some.inj taken, kept]
    exact inv_move_beside inv place _ _ rfl rfl (.inl ⟨rfl, rfl⟩) fun _ loaded => Option.some.inj loaded
  | raising reg top => exact inv_push inv place taken
  | pushed =>
    rw [← Option.some.inj taken, Market.become, Market.unlock, inv.noFault]
    exact inv_move_beside inv place _ _ rfl rfl (.inr (.inr ⟨rfl, rfl, rfl⟩)) fun _ loaded => by cases loaded
  | leaving =>
    rw [← Option.some.inj taken, Market.become, inv.noFault]
    refine inv_move_beside inv place _ _ rfl ?_ (.inl ⟨rfl, rfl⟩) fun _ loaded => by cases loaded
    simp only [Customer.inside, if_true, Bool.false_eq_true, if_false]
  | left => cases taken

end Moves

/-! ### All schedules -/

theorem inv_run {registers : List Int32} {customers : Nat} {schedule : List Nat} {s : Market}
    (ran : run step (opening registers customers) schedule = some s) : Inv registers s :=
  run_keeps (Inv registers) (inv_opening registers customers) (fun _ _ _ inv taken => inv_step inv taken) ran

/-- Whatever the schedule, no register is lost, doubled or shared, and the
stack is never popped empty nor pushed full. -/
theorem registers_never_shared (registers : List Int32) (distinct : registers.Nodup) (customers : Nat)
    (schedule : List Nat) (s : Market) (ran : run step (opening registers customers) schedule = some s) :
    NeverShared registers s := by
  have inv := inv_run ran
  have apart : (held s ++ free s).Nodup := inv.accounted.nodup_iff.mpr distinct
  refine ⟨inv.accounted, apart, fun top loaded => ?_, fun reg top raising => ?_, inv.noFault, ?_, fun allLeft => ?_⟩
  · obtain ⟨i, place⟩ := List.mem_iff_getElem?.mp loaded
    have sameTop := inv.upToDate i _ top place rfl
    have positive := inv.canPop place rfl rfl
    have below := inv.topInside
    omega
  · obtain ⟨i, place⟩ := List.mem_iff_getElem?.mp raising
    have sameTop := inv.upToDate i _ top place rfl
    have room := inv.canPush place rfl
    have below := inv.topInside
    omega
  · intro i j one other reg place place' has has'
    exact same_of_nodup (List.nodup_append.mp apart).1 place place' has has'
  · have none : held s = [] := by
      rw [held, List.filterMap_eq_nil_iff]
      intro customer member
      rw [allLeft customer member]
      rfl
    have accounted := inv.accounted
    rwa [none, List.nil_append] at accounted

/-- Two registers and three customers: while the first is checking out, the
third pops the register that the second has put back. -/
def rushHour : List Nat := [0, 1, 0, 0, 0, 0] ++ List.replicate 10 1 ++ [2, 2, 2, 2]

theorem rush_hour_never_shared :
    NeverShared [1, 2] ((run step (opening [1, 2] 3) rushHour).get (by decide)) :=
  registers_never_shared [1, 2] (by decide) 3 rushHour _ (Option.some_get _).symm

/-! ### Nobody waits for ever -/

/-- A customer inside can go on, unless somebody else is in the mutex. -/
theorem moves_inside {s : Market} {i : Nat} {c : Customer} (inside : c.inside = true)
    (mine : s.regMutex = none ∨ c.locked = true) : (customer s i c).isSome := by
  have enters (unowned : s.regMutex = none) : s.lock i = some { s with regMutex := some i } := if_pos unowned
  cases c with
  | arriving => cases inside
  | admitted =>
    rw [customer, enters (mine.resolve_right Bool.false_ne_true)]
    rfl
  | finished reg =>
    rw [customer, enters (mine.resolve_right Bool.false_ne_true)]
    rfl
  | loaded top =>
    rw [customer]
    split <;> rfl
  | raising reg top =>
    rw [customer]
    split <;> rfl
  | popping | popped reg | checkingOut reg | pushing reg | pushed | leaving => rfl
  | left => cases inside

/-- With any register at all, somebody can move until all customers have left. -/
theorem somebody_moves {registers : List Int32} {customers : Nat} {schedule : List Nat} {s : Market}
    (stocked : registers ≠ []) (ran : run step (opening registers customers) schedule = some s) :
    (∀ customer ∈ s.customers, customer = .left) ∨ ∃ i, (step s i).isSome := by
  have inv := inv_run ran
  have steps {i : Nat} {c : Customer} (place : s.customers[i]? = some c) (moves : (customer s i c).isSome) :
      (step s i).isSome := by
    rwa [step, inv.noFault, if_neg Bool.false_ne_true, place, Option.bind_some]
  cases owner : s.regMutex with
  | some i =>
    obtain ⟨c, place, locked⟩ := (inv.mutex i).mp owner
    have inside : c.inside = true := by cases c <;> first | rfl | cases locked
    exact .inr ⟨i, steps place (moves_inside inside (.inr locked))⟩
  | none =>
    by_cases anybody : ∃ c ∈ s.customers, c.inside = true
    · obtain ⟨c, member, inside⟩ := anybody
      obtain ⟨i, place⟩ := List.mem_iff_getElem?.mp member
      exact .inr ⟨i, steps place (moves_inside inside (.inl owner))⟩
    · have outside : ∀ c ∈ s.customers, ¬ c.inside = true := fun c member inside => anybody ⟨c, member, inside⟩
      have permits := inv.permits
      rw [List.countP_eq_zero.mpr outside, Nat.add_zero] at permits
      have positive := List.length_pos_of_ne_nil stocked
      by_cases allLeft : ∀ c ∈ s.customers, c = .left
      · exact .inl allLeft
      · obtain ⟨c, member, present⟩ : ∃ c ∈ s.customers, c ≠ .left := by simpa using allLeft
        obtain ⟨i, place⟩ := List.mem_iff_getElem?.mp member
        have waiting : c = .arriving := by
          have out := outside c member
          cases c <;> first | rfl | exact absurd rfl present | exact absurd rfl out
        subst waiting
        refine .inr ⟨i, steps place ?_⟩
        rw [customer, if_neg (by omega)]
        rfl

end SysProg.Supermarket
