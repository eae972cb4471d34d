import SysProg.CompressFailures
import SysProg.ScanReaders

/-! A compression that meets no failure. It packs the non-empty records in
their order, which are the very records that the scanning readers look at, so
they read the same before and after it, and there is nothing left to remove. -/
namespace SysProg.CompressScans
open SparseFile StudentRecord StudentDb CompressFailures ScanReaders

/-- The file `compress_db` should leave behind. -/
def packed (data : List UInt8) : List UInt8 := ((records data).filter occupied).flatMap Student.toBytes

theorem records_packed (data : List UInt8) : records (packed data) = (records data).filter occupied :=
  records_flatMap _

theorem whole_packed (data : List UInt8) : studentRecordSize ∣ (packed data).length := by
  simp [packed, List.length_flatMap]

theorem packed_packed (data : List UInt8) : packed (packed data) = packed data := by
  rw [packed, records_packed, List.filter_filter]
  simp only [Bool.and_self]
  rfl

/-! ### The copy without failures -/

theorem copyPlan_full (list : List Student) : copyPlan [] list = some (list.filter occupied, []) := by
  have moves : MovesRecord (first []) := rfl
  induction list with
  | nil => rfl
  | cons record rest ih =>
    cases full : occupied record with
    | true => simp [copyPlan, moves, full, ih]
    | false => simp [copyPlan, moves, full, ih]

theorem compressDb_full (newFd : Nat) (stack : Student) {k : Kernel} (full : k.script = []) :
    ∃ after, compressDb newFd stack k = ((newFd : Int), after) ∧ after.db.data = packed k.db.data ∧
      after.script = [] := by
  have notMinusOne : (0 : Int) ≠ -1 := by decide
  have opened : Outcome.full ≠ .fail := by decide
  let start : Kernel := { k with tmp := ⟨[], 0⟩, db := ⟨k.db.data, 0⟩ }
  have follows := copyRecords_plan stack (i := 0) (k := start) rfl rfl
  rw [List.drop_zero, show start.script = [] from full, copyPlan_full] at follows
  obtain ⟨written, -, left, copied⟩ := follows
  have sought : lseek 0 { k with tmp := ⟨[], 0⟩ } = (0, start) := lseek_full full (Int.le_refl 0)
  have reopened := next_full (k := { (copyRecords stack start).kernel with
    db := ⟨(copyRecords stack start).kernel.tmp.data, 0⟩ }) left
  simp only [compressDb, next_full full, opened, sought, notMinusOne, written, Bool.false_eq_true, if_false,
    next_full left, reopened]
  exact ⟨_, rfl, copied, left⟩

/-! ### The readers before and after -/

/-- Two files that every scanning reader reads alike. -/
structure ReadAlike (before after : Kernel) : Prop where
  counted : ∀ stack stack', (countDbRecords stack before).1 = (countDbRecords stack' after).1
  printed : ∀ stack stack', printedRows stack before = printedRows stack' after
  found : ∀ id s stack stack', (getStudent id s stack before).1 = (getStudent id s stack' after).1 ∧
    (getStudent id s stack before).2.1 = (getStudent id s stack' after).2.1

/-- The readers look at the non-empty records only. -/
theorem readAlike_of_same {before after : Kernel} (beforeFull : before.script = []) (afterFull : after.script = [])
    (beforeWhole : studentRecordSize ∣ before.db.data.length) (afterWhole : studentRecordSize ∣ after.db.data.length)
    (same : (records before.db.data).filter occupied = (records after.db.data).filter occupied) :
    ReadAlike before after := by
  constructor
  · intro stack stack'
    obtain ⟨_, countBefore, -⟩ := countDbRecords_full stack beforeFull beforeWhole
    obtain ⟨_, countAfter, -⟩ := countDbRecords_full stack' afterFull afterWhole
    rw [countBefore, countAfter, List.countP_eq_length_filter, List.countP_eq_length_filter, same]
  · intro stack stack'
    rw [printedRows_eq stack beforeFull beforeWhole, printedRows_eq stack' afterFull afterWhole, same]
  · intro id s stack stack'
    cases s with
    | none => exact ⟨rfl, rfl⟩
    | some s =>
      obtain ⟨_, getBefore⟩ := getStudent_full id s stack beforeFull beforeWhole
      obtain ⟨_, getAfter⟩ := getStudent_full id s stack' afterFull afterWhole
      have sameFind : (records before.db.data).find? (fun record => occupied record && record.id = id) =
          (records after.db.data).find? fun record => occupied record && record.id = id := by
        have found := congrArg (List.find? fun record => record.id = id) same
        simpa [List.find?_filter] using found
      rw [getBefore, getAfter, sameFind]
      split <;> exact ⟨rfl, rfl⟩

/-- What a compression does when nothing fails: it leaves the non-empty records
in their order, no reader sees a difference, and doing it again changes no byte. -/
structure KeepsLive (newFd : Nat) (stack : Student) (k : Kernel) : Prop where
  reported : (compressDb newFd stack k).1 = newFd
  kept : (compressDb newFd stack k).2.db.data =
    ((records k.db.data).filter occupied).flatMap Student.toBytes
  alike : ReadAlike k (compressDb newFd stack k).2
  idempotent : ∀ otherFd otherStack,
    (compressDb otherFd otherStack (compressDb newFd stack k).2).2.db.data = (compressDb newFd stack k).2.db.data

theorem compress_keeps_live (newFd : Nat) (stack : Student) (k : Kernel) (full : k.script = [])
    (whole : studentRecordSize ∣ k.db.data.length) : KeepsLive newFd stack k := by
  obtain ⟨after, result, kept, left⟩ := compressDb_full newFd stack full
  have same : (records k.db.data).filter occupied = (records after.db.data).filter occupied := by
    rw [kept, records_packed, List.filter_filter]
    simp only [Bool.and_self]
  constructor
  · rw [result]
  · rw [result]
    exact kept
  · rw [result]
    exact readAlike_of_same full left whole (kept ▸ whole_packed _) same
  · intro otherFd otherStack
    obtain ⟨again, resultAgain, keptAgain, -⟩ := compressDb_full otherFd otherStack left
    rw [result, resultAgain]
    exact keptAgain.trans ((congrArg packed kept).trans ((packed_packed _).trans kept.symm))

theorem compress_keeps_live_threeSlots : KeepsLive 4 emptyStudentRecord threeSlots :=
  compress_keeps_live 4 emptyStudentRecord threeSlots rfl (by decide +kernel)

example : (compressDb 4 emptyStudentRecord threeSlots).2.db.data.length = 128 := by decide +kernel

end SysProg.CompressScans
