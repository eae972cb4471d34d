import SysProg.Lib.Machine
import SysProg.StudentDbScans

/-! The operations of the database as one type, so that runs of any length
and order can be stated, and what each of them does to the bytes of a file of
whole records when every call succeeds in full. -/
namespace SysProg.StudentDb
open CString SparseFile StudentRecord

/-- The arguments of `add_student` after `main` has checked them. -/
structure NewStudent where
  id : Int32
  fname : List UInt8
  lname : List UInt8
  gpa : Int32
  valid : validateRange id gpa = noError

/-- Operations on an open database. `stack` is the uninitialised memory of the
local record of a scan. -/
inductive Op where
  | add (student : NewStudent)
  | del (id : Int32)
  | get (id : Int32) (stack : Student)
  | count (stack : Student)
  | zero

/-- The answer to an operation: its return code, and the record `get_student`
copied out when it found one. -/
structure Answer where
  code : Int
  record : Option Student
  deriving DecidableEq

/-- What each operation does. `main` passes `get_student` a zeroed record. -/
def Op.exec (op : Op) (k : Kernel) : Answer × Kernel :=
  match op with
  | .add s =>
    let (code, k) := addStudent s.id s.fname s.lname s.gpa k
    (⟨code, none⟩, k)
  | .del id =>
    let (code, k) := delStudent id k
    (⟨code, none⟩, k)
  | .get id stack =>
    let (code, found, k) := getStudent id (some emptyStudentRecord) stack k
    (⟨code, if code = noError then found else none⟩, k)
  | .count stack =>
    let (code, k) := countDbRecords stack k
    (⟨code, none⟩, k)
  | .zero =>
    let (code, k) := zeroDb k
    (⟨code, none⟩, k)

/-- The same operations as functions of the bytes of the file. -/
def Op.effect (op : Op) (data : List UInt8) : Answer × List UInt8 :=
  match op with
  | .add s =>
    let i := s.id.toInt.toNat
    if (Student.ofBytes (slot studentRecordSize data i)).id = 0 then
      (⟨noError, none⟩, writeAt data
        (studentRecordSize * if studentRecordSize * i < data.length then i + 1 else i)
        (newRecord s.id s.fname s.lname s.gpa).toBytes)
    else (⟨errDbOp, none⟩, data)
  | .del id =>
    let i := (recordOffset id).toNat / studentRecordSize
    if recordOffset id < 0 then (⟨errDbFile, none⟩, data)
    else if (Student.ofBytes (slot studentRecordSize data i)).id = 0 then (⟨errDbOp, none⟩, data)
    else (⟨noError, none⟩, writeAt data (studentRecordSize * i) emptyStudentRecord.toBytes)
  | .get id _ =>
    match (records data).find? fun record => occupied record && record.id = id with
    | some record => (⟨noError, some record⟩, data)
    | none => (⟨srchNotFound, none⟩, data)
  | .count _ => (⟨(Int32.ofNat ((records data).countP occupied)).toInt, none⟩, data)
  | .zero => (⟨noError, none⟩, [])

/-- Deleting an id that can be added looks at the slot of that id. -/
theorem effect_del {id : Int32} (data : List UInt8) (lower : minStdId ≤ id.toInt) (upper : id.toInt ≤ maxStdId) :
    Op.effect (.del id) data =
      if (Student.ofBytes (slot studentRecordSize data id.toInt.toNat)).id = 0 then (⟨errDbOp, none⟩, data)
      else (⟨noError, none⟩,
        writeAt data (studentRecordSize * id.toInt.toNat) emptyStudentRecord.toBytes) := by
  have nonneg : 0 ≤ id.toInt := by simp only [minStdId] at lower; omega
  have place := recordOffset_in_range nonneg upper
  have index : (recordOffset id).toNat / studentRecordSize = id.toInt.toNat := by
    rw [place, Int.toNat_natCast, Nat.mul_div_cancel_left _ studentRecordSize_pos]
  have inside : ¬ recordOffset id < 0 := by omega
  simp only [Op.effect, if_neg inside, index]

theorem valid_range (s : NewStudent) : minStdId ≤ s.id.toInt ∧ s.id.toInt ≤ maxStdId := by
  have valid := s.valid
  unfold validateRange at valid
  split at valid
  · cases valid
  · omega

private theorem add_place (s : NewStudent) :
    recordOffset s.id = ((studentRecordSize * s.id.toInt.toNat : Nat) : Int) := by
  have valid := valid_range s
  exact recordOffset_in_range (by simp only [minStdId] at valid; omega) valid.2

/-- An operation whose calls all succeed does its effect, and leaves a file of
whole records behind. -/
theorem exec_full (op : Op) {k : Kernel} (full : k.script = [])
    (whole : studentRecordSize ∣ k.db.data.length) :
    (op.exec k).1 = (op.effect k.db.data).1 ∧ (op.exec k).2.db.data = (op.effect k.db.data).2 ∧
      (op.exec k).2.script = [] ∧ studentRecordSize ∣ (op.effect k.db.data).2.length := by
  cases op with
  | add s =>
    obtain ⟨after, script, result⟩ := addStudent_full s.fname s.lname s.gpa full whole (add_place s)
    by_cases empty : (Student.ofBytes (slot studentRecordSize k.db.data s.id.toInt.toNat)).id = 0
    · rw [if_pos empty] at result
      simp only [Op.exec, Op.effect, if_pos empty, result.1, result.2, script, true_and]
      exact whole_writeAt whole (length_toBytes _) studentRecordSize_pos
    · rw [if_neg empty] at result
      simp only [Op.exec, Op.effect, if_neg empty, result.1, result.2, script, whole, true_and]
  | del id =>
    by_cases negative : recordOffset id < 0
    · simp only [Op.exec, Op.effect, delStudent_negative full negative, if_pos negative, true_and]
      exact ⟨rfl, full, whole⟩
    · have place : recordOffset id =
          ((studentRecordSize * ((recordOffset id).toNat / studentRecordSize) : Nat) : Int) := by
        have aligned := recordOffset_aligned id
        simp only [studentRecordSize] at aligned ⊢
        omega
      obtain ⟨after, script, result⟩ := delStudent_full full whole place
      by_cases empty : (Student.ofBytes (slot studentRecordSize k.db.data
          ((recordOffset id).toNat / studentRecordSize))).id = 0
      · rw [if_pos empty] at result
        simp only [Op.exec, Op.effect, if_neg negative, if_pos empty, result.1, result.2, script, whole,
          true_and]
      · rw [if_neg empty] at result
        simp only [Op.exec, Op.effect, if_neg negative, if_neg empty, result.1, result.2, script, true_and]
        exact whole_writeAt whole (length_toBytes _) studentRecordSize_pos
  | get id stack =>
    obtain ⟨pos, result⟩ := getStudent_full id emptyStudentRecord stack full whole
    simp only [Op.exec, Op.effect, result]
    cases (records k.db.data).find? fun record => occupied record && record.id = id with
    | none => exact ⟨rfl, rfl, full, whole⟩
    | some record => exact ⟨rfl, rfl, full, whole⟩
  | count stack =>
    obtain ⟨after, result, file, script⟩ := countDbRecords_full stack full whole
    simp only [Op.exec, Op.effect, result]
    exact ⟨trivial, file, script, whole⟩
  | zero => simp [Op.exec, Op.effect, zeroDb, openDb, next_full full, full]

/-- Runs whose calls all succeed see the bytes of the file and nothing else. -/
theorem run_effect (ops : List Op) {k : Kernel} (full : k.script = [])
    (whole : studentRecordSize ∣ k.db.data.length) :
    (Machine.run Op.exec ops k).1 = (Machine.run Op.effect ops k.db.data).1 :=
  Machine.run_eq_of_simulation
    (fun (k : Kernel) data => k.script = [] ∧ studentRecordSize ∣ data.length ∧ k.db.data = data)
    (by rintro op k _ ⟨full, whole, rfl⟩; exact (exec_full op full whole).1)
    (by
      rintro op k _ ⟨full, whole, rfl⟩
      obtain ⟨_, file, script, whole⟩ := exec_full op full whole
      exact ⟨script, whole, file⟩)
    ops k k.db.data ⟨full, whole, rfl⟩

end SysProg.StudentDb
