import SysProg.CompressFailures

/-! What `add_student` and `del_student` report about their write. Both are
cut at that call: up to it a function may return early, and from it on the
result depends on how much of the record the kernel took. Only `del_student`
compares the count with the record size. -/
namespace SysProg.PartialWrites
open CString SparseFile StudentRecord StudentDb CompressFailures

/-- A call of one of the two functions that change a record. -/
inductive Call where
  | add (id : Int32) (fname lname : List UInt8) (gpa : Int32)
  | del (id : Int32)

def Call.result (call : Call) (k : Kernel) : Int × Kernel :=
  match call with
  | .add id fname lname gpa => addStudent id fname lname gpa k
  | .del id => delStudent id k

/-! ### Cutting the functions at their write -/

/-- How the part before the write ends. -/
inductive Progress where
  | returned (result : Int × Kernel)
  | writes (record : Student) (k : Kernel)

def addUntilWrite (id : Int32) (fname lname : List UInt8) (gpa : Int32) (k : Kernel) : Progress :=
  let (sought, k) := lseek (recordOffset id) k
  if sought = -1 then .returned (errDbFile, k.say .errDbRead) else
  let (bytesRead, data, k) := read studentRecordSize k
  if bytesRead = -1 then .returned (errDbFile, k.say .errDbRead) else
  if (emptyStudentRecord.overlay data).id ≠ 0 then .returned (errDbOp, k.say (.errDbAddDup id)) else
  .writes (newRecord id fname lname gpa) k

def delUntilWrite (id : Int32) (k : Kernel) : Progress :=
  let (sought, k) := lseek (recordOffset id) k
  if sought = -1 then .returned (errDbFile, k.say .errDbRead) else
  let (bytesRead, data, k) := read studentRecordSize k
  if bytesRead = -1 then .returned (errDbFile, k.say .errDbRead) else
  if (emptyStudentRecord.overlay data).id = 0 then .returned (errDbOp, k.say (.stdNotFndMsg id)) else
  let (sought, k) := lseek (recordOffset id) k
  if sought = -1 then .returned (errDbFile, k.say .errDbRead) else
  .writes emptyStudentRecord k

def Call.untilWrite (call : Call) (k : Kernel) : Progress :=
  match call with
  | .add id fname lname gpa => addUntilWrite id fname lname gpa k
  | .del id => delUntilWrite id k

/-- What a function does with the result of its write: `add_student` tests for
-1, `del_student` for anything but the record size. -/
def Call.afterWrite (call : Call) (written : Int × Kernel) : Int × Kernel :=
  match call with
  | .add id .. =>
    if written.1 = -1 then (errDbFile, written.2.say .errDbWrite) else (noError, written.2.say (.stdAdded id))
  | .del id =>
    if written.1 ≠ studentRecordSize then (errDbFile, written.2.say .errDbWrite)
    else (noError, written.2.say (.stdDelMsg id))

theorem result_eq (call : Call) (k : Kernel) :
    call.result k = match call.untilWrite k with
      | .returned result => result
      | .writes record k => call.afterWrite (write record.toBytes k) := by
  cases call with
  | add id fname lname gpa =>
    simp only [Call.result, Call.untilWrite, Call.afterWrite, addStudent, addUntilWrite]
    split
    · rfl
    split
    · rfl
    split <;> rfl
  | del id =>
    simp only [Call.result, Call.untilWrite, Call.afterWrite, delStudent, delUntilWrite]
    split
    · rfl
    split
    · rfl
    split
    · rfl
    split <;> rfl

/-! ### What success promises -/

/-- Success means that the write took the whole record, and a return before
the write has changed nothing. -/
structure ReportsItsWrite (call : Call) (k : Kernel) : Prop where
  complete : (call.result k).1 = noError → ∃ record reached,
    call.untilWrite k = .writes record reached ∧ (write record.toBytes reached).1 = studentRecordSize
  untouched : ∀ early, call.untilWrite k = .returned early → (call.result k).2.db.data = k.db.data

/-- The kernel lets an addition get as far as its write: the seek succeeds,
and what the read brings of the slot leaves the record variable without an id. -/
def ReadsFree (id : Int32) (k : Kernel) : Prop :=
  first k.script ≠ .fail ∧ 0 ≤ recordOffset id ∧
    ∃ moved, (first k.script.tail).transfer studentRecordSize = some moved ∧
      (emptyStudentRecord.overlay (readAt k.db.data (recordOffset id).toNat moved)).id = 0

/-- A transfer that succeeds without moving a whole record. -/
def Short (outcome : Outcome) : Prop := ∃ moved < studentRecordSize, outcome.transfer studentRecordSize = some moved

/-- An addition whose write the kernel cuts short. -/
def WritesShort (call : Call) (k : Kernel) : Prop :=
  match call with
  | .add id .. => ReadsFree id k ∧ Short (first k.script.tail.tail)
  | .del _ => False

/-! ### The calls before the write -/

/-- An addition gets to its write exactly when the slot reads as free, with two
outcomes used up and the file as it was. -/
theorem addUntilWrite_cases (id : Int32) (fname lname : List UInt8) (gpa : Int32) (k : Kernel) :
    (∃ early, addUntilWrite id fname lname gpa k = .returned early ∧ early.1 ≠ noError ∧
      early.2.db.data = k.db.data ∧ ¬ ReadsFree id k) ∨
    ReadsFree id k ∧ ∃ reached, addUntilWrite id fname lname gpa k = .writes (newRecord id fname lname gpa) reached ∧
      reached.script = k.script.tail.tail := by
  have failed : errDbFile ≠ noError := by decide
  have refused : errDbOp ≠ noError := by decide
  by_cases noSeek : first k.script = .fail ∨ recordOffset id < 0
  · left
    have seek : lseek (recordOffset id) k = (-1, k.spent) := if_pos noSeek
    refine ⟨(errDbFile, k.spent.say .errDbRead), ?_, failed, rfl, ?_⟩
    · simp only [addUntilWrite, seek, if_true]
    · rintro ⟨sought, valid, -⟩
      exact noSeek.elim sought (not_lt.mpr valid)
  have sought : first k.script ≠ .fail := fun fails => noSeek (.inl fails)
  have valid : 0 ≤ recordOffset id := not_lt.mp fun negative => noSeek (.inr negative)
  have seek : lseek (recordOffset id) k = (recordOffset id, k.spent.at (recordOffset id).toNat) := if_neg noSeek
  have notMinusOne : recordOffset id ≠ -1 := by omega
  cases transfer : (first k.script.tail).transfer studentRecordSize with
  | none =>
    left
    have noRead : read studentRecordSize (k.spent.at (recordOffset id).toNat) =
        (-1, [], (k.spent.at (recordOffset id).toNat).spent) := by
      simp only [StudentDb.read, next_first, at_script, spent_script, transfer]
    refine ⟨(errDbFile, (k.spent.at (recordOffset id).toNat).spent.say .errDbRead), ?_, failed, rfl, ?_⟩
    · simp only [addUntilWrite, seek, notMinusOne, noRead, if_false, if_true]
    · rintro ⟨-, -, moved, moves, -⟩
      rw [transfer] at moves
      cases moves
  | some moved =>
    obtain ⟨after, reads, same, left⟩ : ∃ after,
        read studentRecordSize (k.spent.at (recordOffset id).toNat) =
          (((readAt k.db.data (recordOffset id).toNat moved).length : Int),
            readAt k.db.data (recordOffset id).toNat moved, after) ∧
        after.db.data = k.db.data ∧ after.script = k.script.tail.tail := by
      simp only [StudentDb.read, next_first, at_script, spent_script, transfer]
      exact ⟨_, rfl, rfl, rfl⟩
    have moves : ((readAt k.db.data (recordOffset id).toNat moved).length : Int) ≠ -1 := by omega
    by_cases free : (emptyStudentRecord.overlay (readAt k.db.data (recordOffset id).toNat moved)).id = 0
    · refine .inr ⟨⟨sought, valid, moved, transfer, free⟩, after, ?_, left⟩
      simp only [addUntilWrite, seek, notMinusOne, reads, moves, free, ne_eq, not_true_eq_false, if_false]
    · refine .inl ⟨(errDbOp, after.say (.errDbAddDup id)), ?_, refused, same, ?_⟩
      · simp only [addUntilWrite, seek, notMinusOne, reads, moves, free, ne_eq, not_false_eq_true, if_false, if_true]
      · rintro ⟨-, -, other, transfer', free'⟩
        rw [transfer] at transfer'
        cases transfer'
        exact free free'

/-- A deletion that does not get to its write has changed nothing. -/
theorem delUntilWrite_returned {id : Int32} {k : Kernel} {early : Int × Kernel}
    (ends : delUntilWrite id k = .returned early) : early.1 ≠ noError ∧ early.2.db.data = k.db.data := by
  have failed : errDbFile ≠ noError := by decide
  have refused : errDbOp ≠ noError := by decide
  rcases lseek_cases (recordOffset id) k with noSeek | ⟨valid, seek⟩
  · simp only [delUntilWrite, noSeek, if_true, Progress.returned.injEq] at ends
    exact ends ▸ ⟨failed, rfl⟩
  have sought : recordOffset id ≠ -1 := by omega
  rcases read_cases studentRecordSize (k.spent.at (recordOffset id).toNat) with noRead | ⟨moved, -, reads⟩
  · simp only [delUntilWrite, seek, sought, noRead, if_false, if_true, Progress.returned.injEq] at ends
    exact ends ▸ ⟨failed, rfl⟩
  have moves : ((readAt (k.spent.at (recordOffset id).toNat).db.data (k.spent.at (recordOffset id).toNat).db.pos
      moved).length : Int) ≠ -1 := by omega
  simp only [delUntilWrite, seek, sought, reads, moves, if_false] at ends
  split at ends
  · cases ends
    exact ⟨refused, rfl⟩
  · split at ends
    · cases ends
      refine ⟨failed, ?_⟩
      rcases lseek_cases (recordOffset id) _ with noSeek | ⟨-, back⟩
      · rw [noSeek]; rfl
      · rw [back]; rfl
    · cases ends

/-! ### The write -/

theorem write_result (bytes : List UInt8) (k : Kernel) :
    (write bytes k).1 = match (first k.script).transfer bytes.length with
      | none => -1
      | some moved => (moved : Int) := by
  simp only [StudentDb.write, next_first]
  cases (first k.script).transfer bytes.length with
  | none => rfl
  | some moved => rfl

/-- A write that does not fail takes the whole record or is cut short. -/
theorem written_whole_iff {k : Kernel} (record : Student) (accepted : (write record.toBytes k).1 ≠ -1) :
    (write record.toBytes k).1 = studentRecordSize ↔ ¬ Short (first k.script) := by
  rw [write_result, length_toBytes] at accepted ⊢
  cases transfer : (first k.script).transfer studentRecordSize with
  | none =>
    rw [transfer] at accepted
    exact absurd rfl accepted
  | some moved =>
    have bound := transfer_le transfer
    constructor
    · rintro whole ⟨other, less, same⟩
      rw [transfer] at same
      cases same
      have : moved = studentRecordSize := Int.ofNat_inj.mp whole
      omega
    · intro notShort
      by_contra different
      have less : moved < studentRecordSize := by
        refine lt_of_le_of_ne bound fun same => different ?_
        rw [same]
      exact notShort ⟨moved, less, transfer⟩

theorem short_not_failed {k : Kernel} (record : Student) (short : Short (first k.script)) :
    (write record.toBytes k).1 ≠ -1 := by
  obtain ⟨moved, -, transfer⟩ := short
  rw [write_result, length_toBytes, transfer]
  have nonneg : (0 : Int) ≤ moved := Int.natCast_nonneg moved
  show (moved : Int) ≠ -1
  omega

/-! ### When success is reported truthfully -/

theorem del_reports (id : Int32) (k : Kernel) : ReportsItsWrite (.del id) k := by
  constructor
  · intro success
    rw [result_eq] at success
    cases progress : (Call.del id).untilWrite k with
    | returned early =>
      rw [progress] at success
      exact absurd success (delUntilWrite_returned progress).1
    | writes record reached =>
      refine ⟨record, reached, rfl, ?_⟩
      rw [progress] at success
      by_contra short
      simp only [Call.afterWrite, ne_eq, short, not_false_eq_true, if_true] at success
      exact absurd success (by decide)
  · intro early ends
    rw [result_eq, ends]
    exact (delUntilWrite_returned ends).2

theorem add_reports_iff (id : Int32) (fname lname : List UInt8) (gpa : Int32) (k : Kernel) :
    ReportsItsWrite (.add id fname lname gpa) k ↔ ¬ (ReadsFree id k ∧ Short (first k.script.tail.tail)) := by
  have result := result_eq (.add id fname lname gpa) k
  rcases addUntilWrite_cases id fname lname gpa k with
    ⟨early, ends, failed, same, notFree⟩ | ⟨free, reached, writes, left⟩
  · have ends : (Call.add id fname lname gpa).untilWrite k = .returned early := ends
    rw [ends] at result
    refine iff_of_true ⟨fun success => ?_, fun _ _ => ?_⟩ (fun both => notFree both.1)
    · rw [result] at success
      exact absurd success failed
    · rw [result, same]
  · have writes : (Call.add id fname lname gpa).untilWrite k = .writes (newRecord id fname lname gpa) reached := writes
    rw [writes] at result
    rw [← left]
    constructor
    · rintro ⟨complete, -⟩ ⟨-, short⟩
      have accepted := short_not_failed (newRecord id fname lname gpa) short
      simp only [Call.afterWrite, if_neg accepted] at result
      obtain ⟨record, other, same, whole⟩ := complete (by rw [result])
      rw [writes] at same
      cases same
      exact (written_whole_iff _ accepted).mp whole short
    · intro notShort
      have notShort : ¬ Short (first reached.script) := fun short => notShort ⟨free, short⟩
      refine ⟨fun success => ⟨_, reached, writes, (written_whole_iff _ fun failed => ?_).mpr notShort⟩,
        fun early ends => ?_⟩
      · simp only [result, Call.afterWrite, if_pos failed] at success
        exact absurd success (by decide)
      · rw [writes] at ends
        cases ends

/-- Success is reported for complete writes only, and early returns change
nothing, exactly when the kernel does not cut the write of an addition short. -/
theorem reports_its_write_iff (call : Call) (k : Kernel) : ReportsItsWrite call k ↔ ¬ WritesShort call k := by
  cases call with
  | add id fname lname gpa => exact add_reports_iff id fname lname gpa k
  | del id => exact iff_of_true (del_reports id k) not_false

/-- An empty database on a disk that takes ten bytes of the record. -/
def almostFull : Kernel where
  db := ⟨[], 0⟩
  tmp := ⟨[], 0⟩
  script := [.full, .full, .short 10]
  console := []

theorem short_write_reported_as_success :
    ¬ ReportsItsWrite (.add 1 (text "john") (text "doe") 345) almostFull := by
  rintro ⟨complete, -⟩
  obtain ⟨record, reached, writes, whole⟩ := complete (by decide +kernel)
  have short : ∀ record reached,
      (Call.add 1 (text "john") (text "doe") 345).untilWrite almostFull = .writes record reached →
        first reached.script = .short 10 := by
    rintro record reached writes
    cases writes
    decide
  rw [write_result, short record reached writes, length_toBytes] at whole
  exact absurd whole (by decide)

end SysProg.PartialWrites
