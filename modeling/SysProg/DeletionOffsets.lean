import SysProg.CompressTransparency

/-! Which record `del_student` removes. `main` hands the id over unchecked and
its product with the record size is formed in `int`, so ids a multiple of 2^26
apart share a slot. The record found there is only asked whether its id is
zero. -/
namespace SysProg.DeletionOffsets
open CString SparseFile StudentRecord StudentDb CompressTransparency

/-- The student in slot `i`, if there is one. -/
def holds (data : List UInt8) (i : Nat) : Bool := occupied (Student.ofBytes (slot studentRecordSize data i))

/-- A deletion changes no record but one that carries the id it was asked to
delete, and reports success only when there is such a record. -/
def DeletesOnly (id : Int32) (k : Kernel) : Prop :=
  (∀ i, slot studentRecordSize (delStudent id k).2.db.data i ≠ slot studentRecordSize k.db.data i →
    holds k.db.data i = true ∧ (Student.ofBytes (slot studentRecordSize k.db.data i)).id = id) ∧
  ((delStudent id k).1 = noError →
    ∃ i, holds k.db.data i = true ∧ (Student.ofBytes (slot studentRecordSize k.db.data i)).id = id)

/-- The product of the id wraps around to the offset of a slot that is not
the id's own. -/
def WrapsOnto (id : Int32) (i : Nat) : Prop := id.toInt ≠ i ∧ i < 2 ^ 25 ∧ (2 ^ 26 : Int) ∣ id.toInt - i

/-! ### The offset -/

/-- Slot `i` is the one an id is sent to. -/
theorem recordOffset_eq_iff (id : Int32) (i : Nat) :
    recordOffset id = ((studentRecordSize * i : Nat) : Int) ↔ i < 2 ^ 25 ∧ (2 ^ 26 : Int) ∣ id.toInt - i := by
  rw [recordOffset, Int32.toInt_mul, studentRecordSizeInt_toInt, studentRecordSize, Int.bmod_eq_iff (by decide)]
  omega

/-- Every offset that `lseek` takes is that of a slot. -/
theorem exists_slot {id : Int32} (valid : 0 ≤ recordOffset id) :
    ∃ i : Nat, recordOffset id = ((studentRecordSize * i : Nat) : Int) := by
  obtain ⟨i, aligned⟩ := recordOffset_aligned id
  have nonneg : 0 ≤ i := by simp only [studentRecordSize] at aligned; omega
  obtain ⟨i, rfl⟩ := Int.eq_ofNat_of_zero_le nonneg
  exact ⟨i, by rw [aligned, Nat.cast_mul]⟩

/-! ### One deletion, whatever its calls do -/

/-- A deletion leaves the file alone and reports an error, or it has read a
nonzero id at its offset and zeroes bytes from there on. -/
theorem delStudent_cases (id : Int32) (k : Kernel) :
    ((delStudent id k).2.db.data = k.db.data ∧ (delStudent id k).1 ≠ noError) ∨
    (0 ≤ recordOffset id ∧
      (∃ moved ≤ studentRecordSize,
        (emptyStudentRecord.overlay (readAt k.db.data (recordOffset id).toNat moved)).id ≠ 0) ∧
      ∃ written ≤ studentRecordSize, (delStudent id k).2.db.data =
        writeAt k.db.data (recordOffset id).toNat (emptyStudentRecord.toBytes.take written)) := by
  have failed : errDbFile ≠ noError := by decide
  have refused : errDbOp ≠ noError := by decide
  rcases lseek_cases (recordOffset id) k with noSeek | ⟨valid, seek⟩
  · exact .inl (by simp [delStudent, noSeek, failed])
  have sought : recordOffset id ≠ -1 := by omega
  rcases read_cases studentRecordSize (k.spent.at (recordOffset id).toNat) with noRead | ⟨moved, part, read⟩
  · exact .inl (by simp [delStudent, seek, sought, noRead, failed])
  simp only [at_data, at_pos, spent_db] at read
  have moves : ((readAt k.db.data (recordOffset id).toNat moved).length : Int) ≠ -1 := by omega
  by_cases absent : (emptyStudentRecord.overlay (readAt k.db.data (recordOffset id).toNat moved)).id = 0
  · left
    simp only [delStudent, seek, sought, read, moves, absent, if_false, if_true]
    exact ⟨rfl, refused⟩
  refine .inr ⟨valid, ⟨moved, part, absent⟩, ?_⟩
  -- neither of the two calls left can touch the file but by writing zeros
  simp only [delStudent, seek, sought, read, moves, absent, if_false]
  have untouched : k.db.data =
      writeAt k.db.data (recordOffset id).toNat (emptyStudentRecord.toBytes.take 0) := rfl
  rcases lseek_cases (recordOffset id) ((k.spent.at (recordOffset id).toNat).spent.at
    ((recordOffset id).toNat + (readAt k.db.data (recordOffset id).toNat moved).length)) with noSeek | ⟨_, back⟩
  · rw [noSeek, if_pos rfl]
    exact ⟨0, Nat.zero_le _, untouched⟩
  rw [back, if_neg sought]
  rcases write_cases emptyStudentRecord.toBytes (((k.spent.at (recordOffset id).toNat).spent.at
    ((recordOffset id).toNat + (readAt k.db.data (recordOffset id).toNat moved).length)).spent.at
      (recordOffset id).toNat) with noWrite | ⟨written, fits, wrote⟩
  · rw [noWrite]
    exact ⟨0, Nat.zero_le _, untouched⟩
  · rw [wrote]
    refine ⟨written, fits.trans (Nat.le_of_eq (length_toBytes _)), ?_⟩
    dsimp only
    split <;> rfl

/-- Reading any first part of a slot without a student leaves the zeroed
record variable zeroed. -/
theorem overlay_unoccupied {data : List UInt8} (whole : studentRecordSize ∣ data.length)
    (empty : holds data i = false) (part : moved ≤ studentRecordSize) :
    emptyStudentRecord.overlay (readAt data (studentRecordSize * i) moved) = emptyStudentRecord := by
  have zeros : slot studentRecordSize data i = List.replicate studentRecordSize 0 := by
    rw [← toBytes_ofBytes (length_slot data i), ← toBytes_empty]
    exact congrArg Student.toBytes (by simpa [holds, occupied] using empty)
  rcases Nat.lt_or_ge (studentRecordSize * i) data.length with inside | past
  · have read : readAt data (studentRecordSize * i) moved = List.replicate moved 0 := by
      have full := readAt_slot (slot_inside whole inside)
      rw [zeros, readAt] at full
      rw [readAt, ← Nat.min_eq_left part, ← List.take_take, full, List.take_replicate, Nat.min_eq_left part]
    rw [read, Student.overlay, toBytes_empty, List.length_replicate, List.drop_replicate,
      List.replicate_append_replicate, Nat.add_sub_cancel' part, ofBytes_zeros]
  · rw [readAt_past_end past, overlay_nil]

/-! ### Ids that wrap around -/

/-- What a deletion can do to a file whose students are at the places of their
ids: it changes the slot its offset names and no other, and that slot has a
student. -/
theorem delStudent_placed (id : Int32) {k : Kernel} (addressed : Addressed k.db.data) :
    ((delStudent id k).2.db.data = k.db.data ∧ (delStudent id k).1 ≠ noError) ∨
    ∃ i, recordOffset id = ((studentRecordSize * i : Nat) : Int) ∧ holds k.db.data i = true ∧
      ∀ j, j ≠ i → slot studentRecordSize (delStudent id k).2.db.data j = slot studentRecordSize k.db.data j := by
  rcases delStudent_cases id k with refused | ⟨valid, ⟨moved, part, present⟩, written, fits, file⟩
  · exact .inl refused
  obtain ⟨i, place⟩ := exists_slot valid
  rw [place, Int.toNat_natCast] at present file
  refine .inr ⟨i, place, ?_, fun j other => ?_⟩
  · by_contra empty
    rw [overlay_unoccupied addressed.whole (by simpa using empty) part] at present
    exact present rfl
  · rw [file, slot_writeAt_part _ ((List.length_take_le ..).trans fits) (Ne.symm other)]

/-- An id whose product wraps onto no student deletes itself or nothing,
whatever the calls do. -/
theorem deletesOnly_of_clear {id : Int32} {k : Kernel} (addressed : Addressed k.db.data)
    (clear : ∀ i, WrapsOnto id i → holds k.db.data i = false) : DeletesOnly id k := by
  rcases delStudent_placed id addressed with ⟨same, refused⟩ | ⟨i, place, full, others⟩
  · exact ⟨fun i changed => absurd (by rw [same]) changed, fun success => absurd success refused⟩
  have own : id.toInt = i := by
    by_contra foreign
    have wraps := clear i ⟨foreign, (recordOffset_eq_iff id i).mp place⟩
    rw [full] at wraps
    cases wraps
  have carries : (Student.ofBytes (slot studentRecordSize k.db.data i)).id = id :=
    Int32.toInt_inj.mp ((addressed.placed i full).1.trans own.symm)
  refine ⟨fun j changed => ?_, fun _ => ⟨i, full, carries⟩⟩
  by_cases here : j = i
  · exact here ▸ ⟨full, carries⟩
  · exact absurd (others j here) changed

/-- An id that wraps onto a student reports that student's deletion as its
own, though no student carries the id. -/
theorem wrapped_deletes {id : Int32} {k : Kernel} (full : k.script = []) (addressed : Addressed k.db.data)
    (wraps : WrapsOnto id i) (student : holds k.db.data i = true) : ¬ DeletesOnly id k := by
  rintro ⟨_, reported⟩
  obtain ⟨foreign, within, multiple⟩ := wraps
  have place := (recordOffset_eq_iff id i).mpr ⟨within, multiple⟩
  have present : (Student.ofBytes (slot studentRecordSize k.db.data i)).id ≠ 0 := by
    obtain ⟨own, lower, _⟩ := addressed.placed i student
    intro zero
    rw [zero] at own
    simp only [minStdId, Int32.toInt_zero] at own lower
    omega
  obtain ⟨after, _, deleted⟩ := delStudent_full full addressed.whole place
  rw [if_neg present] at deleted
  obtain ⟨j, there, carries⟩ := reported (by rw [deleted.1])
  obtain ⟨own, _, upper⟩ := addressed.placed j there
  obtain ⟨_, _, limit⟩ := addressed.placed i student
  rw [carries] at own
  simp only [maxStdId] at upper limit
  omega

/-- A deletion of an id hits no other student, whatever the calls do, exactly
when the product of the id wraps around onto no student's slot. -/
theorem delete_hits_only_its_id_iff (id : Int32) {data : List UInt8} (addressed : Addressed data) :
    (∀ k : Kernel, k.db.data = data → DeletesOnly id k) ↔ ∀ i, WrapsOnto id i → holds data i = false := by
  constructor
  · intro only i wraps
    by_contra student
    exact wrapped_deletes (k := ⟨⟨data, 0⟩, ⟨[], 0⟩, [], []⟩) rfl addressed wraps (by simpa using student)
      (only _ rfl)
  · rintro clear k rfl
    exact deletesOnly_of_clear addressed clear

/-- A database of students 1 and 3. -/
def twoStudents : Kernel := (Op.exec (.add StudentMap.jane) oneStudent).2

theorem own_id_deletes_only : Addressed twoStudents.db.data ∧ holds twoStudents.db.data 3 = true ∧
    ∀ k : Kernel, k.db.data = twoStudents.db.data → DeletesOnly 1 k := by
  have addressed : Addressed twoStudents.db.data := addressed_of_inside (by decide +kernel) (by decide +kernel)
  refine ⟨addressed, by decide +kernel, (delete_hits_only_its_id_iff 1 addressed).mpr fun i wraps => ?_⟩
  obtain ⟨foreign, within, multiple⟩ := wraps
  simp only [Int32.toInt_one] at foreign multiple
  omega

/-- Asked to delete id 2^26 + 1, the code deletes student 1 and reports
success. -/
theorem wrapped_id_deletes_student : Addressed oneStudent.db.data ∧ oneStudent.script = [] ∧
    (delStudent 67108865 oneStudent).1 = noError ∧ ¬ DeletesOnly 67108865 oneStudent :=
  ⟨addressed_oneStudent, by decide +kernel, by decide +kernel,
    wrapped_deletes (i := 1) (by decide +kernel) addressed_oneStudent
      ⟨by decide +kernel, by decide, by decide +kernel⟩ (by decide +kernel)⟩

end SysProg.DeletionOffsets
