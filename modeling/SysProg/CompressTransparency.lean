import SysProg.CompressFailures
import SysProg.StudentMap

/-! What later operations see of a compression. Finding and counting scan the
file, but `add_student` and `del_student` compute the place of a record from
its id, and compression moves every record away from that place. -/
namespace SysProg.CompressTransparency
open CString SparseFile StudentRecord StudentDb Machine CompressFailures

/-- A file of whole records with every non-empty one at the place of its id. -/
structure Addressed (data : List UInt8) : Prop where
  whole : studentRecordSize ∣ data.length
  placed : ∀ i, occupied (Student.ofBytes (slot studentRecordSize data i)) = true →
    (Student.ofBytes (slot studentRecordSize data i)).id.toInt = i ∧
      minStdId ≤ (i : Int) ∧ (i : Int) ≤ maxStdId

/-- Operations that leave the database open: all but the truncation. -/
def KeepsOpen : Op → Prop
  | .zero => False
  | _ => True

/-- From here on every call succeeds in full. -/
def settled (k : Kernel) : Kernel := { k with script := [] }

/-- Every later run gets the same answers from both files. -/
def Transparent (before after : Kernel) : Prop :=
  ∀ ops : List Op, (∀ op ∈ ops, KeepsOpen op) →
    (run Op.exec ops (settled before)).1 = (run Op.exec ops (settled after)).1

/-- A compression that reports success leaves a sequence of students of the
old file, packed from the start of the new one. -/
theorem compressDb_packs {newFd : Nat} {stack : Student} {k : Kernel}
    (success : 0 ≤ (compressDb newFd stack k).1) :
    ∃ kept : List Student, kept.Sublist ((records k.db.data).filter occupied) ∧
      (compressDb newFd stack k).2.db.data = kept.flatMap Student.toBytes := by
  have failed : ¬ (0 ≤ errDbFile) := by decide
  by_cases started : first k.script ≠ .fail ∧ first k.script.tail ≠ .fail
  · have planned := compressDb_plan newFd stack started.1 started.2
    cases plan : copyPlan k.script.tail.tail (records k.db.data) with
    | none =>
      simp only [plan] at planned
      exact absurd (planned.2 ▸ success) failed
    | some outcome =>
      obtain ⟨kept, left⟩ := outcome
      simp only [plan] at planned
      by_cases renamed : first left = .fail
      · rw [if_pos renamed] at planned
        exact absurd (planned.2 ▸ success) failed
      · rw [if_neg renamed] at planned
        exact ⟨kept, copyPlan_sublist plan, planned.1⟩
  · have unopened := compressDb_unopened newFd stack ((not_and_or.mp started).imp not_not.mp not_not.mp)
    exact absurd (unopened.2 ▸ success) failed

/-! ### A student the compression moves -/

/-- With no student past slot `i` there are at most `i` students, since no
student has slot 0. -/
theorem students_le {data : List UInt8} (addressed : Addressed data)
    (last : ∀ j, i < j → occupied (Student.ofBytes (slot studentRecordSize data j)) = false) :
    ((records data).filter occupied).length ≤ i := by
  let holds (j : Nat) : Bool := occupied (Student.ofBytes (slot studentRecordSize data j))
  have places : (records data).filter occupied =
      ((List.range (data.length / studentRecordSize)).filter holds).map
        (Student.ofBytes ∘ slot studentRecordSize data) := by
    rw [records, slots, List.map_map, List.filter_map]
    rfl
  have between : (List.range (data.length / studentRecordSize)).filter holds ⊆ (List.range i).map (· + 1) := by
    intro j member
    have full : holds j = true := (List.mem_filter.mp member).2
    obtain ⟨_, positive, _⟩ := addressed.placed j full
    have bound : j ≤ i := by
      by_contra beyond
      exact Bool.false_ne_true ((last j (by omega)).symm.trans full)
    simp only [minStdId] at positive
    exact List.mem_map.mpr ⟨j - 1, List.mem_range.mpr (by omega), by omega⟩
  have bound := (List.subperm_of_subset (List.nodup_range.filter holds) between).length_le
  rw [places, List.length_map]
  simpa using bound

theorem slot_of_occupied {data : List UInt8} (whole : studentRecordSize ∣ data.length)
    (full : occupied (Student.ofBytes (slot studentRecordSize data i)) = true) :
    i < data.length / studentRecordSize := by
  by_contra beyond
  have past : data.length ≤ studentRecordSize * i := by
    obtain ⟨count, length⟩ := whole
    rw [length, Nat.mul_div_cancel_left _ studentRecordSize_pos] at beyond
    rw [length]
    exact Nat.mul_le_mul_left _ (not_lt.mp beyond)
  rw [slot_past_end past, ofBytes_zeros] at full
  exact absurd full (by decide)

/-- The last student of a file that has any. -/
theorem exists_last {data : List UInt8} (addressed : Addressed data)
    (full : occupied (Student.ofBytes (slot studentRecordSize data i)) = true) :
    ∃ j, occupied (Student.ofBytes (slot studentRecordSize data j)) = true ∧
      ∀ l, j < l → occupied (Student.ofBytes (slot studentRecordSize data l)) = false := by
  let holds (j : Nat) : Prop := occupied (Student.ofBytes (slot studentRecordSize data j)) = true
  have inside := slot_of_occupied addressed.whole full
  refine ⟨Nat.findGreatest holds (data.length / studentRecordSize),
    Nat.findGreatest_spec (P := holds) (Nat.le_of_lt inside) full, fun l beyond => ?_⟩
  by_contra student
  have student : holds l := by simpa [holds] using student
  exact Nat.findGreatest_is_greatest beyond (Nat.le_of_lt (slot_of_occupied addressed.whole student)) student

theorem length_packed (kept : List Student) :
    (kept.flatMap Student.toBytes).length = studentRecordSize * kept.length := by
  simp [List.length_flatMap, Nat.mul_comm]

private theorem deleted_ne_refused : (⟨noError, none⟩ : Answer) ≠ ⟨errDbOp, none⟩ := by decide

/-- The last student can be deleted before the compression and not after it:
there are too few students for one to be packed as far out as its place. -/
theorem del_last_differs {data : List UInt8} {kept : List Student} (addressed : Addressed data)
    (part : kept.Sublist ((records data).filter occupied))
    (full : occupied (Student.ofBytes (slot studentRecordSize data i)) = true)
    (last : ∀ j, i < j → occupied (Student.ofBytes (slot studentRecordSize data j)) = false) :
    (Op.effect (.del (Student.ofBytes (slot studentRecordSize data i)).id) data).1 ≠
      (Op.effect (.del (Student.ofBytes (slot studentRecordSize data i)).id)
        (kept.flatMap Student.toBytes)).1 := by
  obtain ⟨sameId, lower, upper⟩ := addressed.placed i full
  generalize found : Student.ofBytes (slot studentRecordSize data i) = student at sameId
  have few : kept.length ≤ i := part.length_le.trans (students_le addressed last)
  have past : (kept.flatMap Student.toBytes).length ≤ studentRecordSize * i := by
    rw [length_packed]
    exact Nat.mul_le_mul_left _ few
  have nonzero : student.id ≠ 0 := by
    intro zero
    rw [zero] at sameId
    simp [minStdId] at sameId lower
    omega
  have absent : (emptyStudentRecord).id = 0 := rfl
  rw [effect_del _ (sameId ▸ lower) (sameId ▸ upper), effect_del _ (sameId ▸ lower) (sameId ▸ upper), sameId,
    Int.toNat_natCast, found, if_neg nonzero, slot_past_end past, ofBytes_zeros, if_pos absent]
  exact deleted_ne_refused

/-- Without a student in slot 0 and past it, the whole file is empty slots. -/
theorem no_students {data : List UInt8}
    (unused : ∀ i, occupied (Student.ofBytes (slot studentRecordSize data i)) = false) :
    (records data).filter occupied = [] := by
  rw [List.filter_eq_nil_iff, records, slots]
  intro record member
  obtain ⟨bytes, inSlots, rfl⟩ := List.mem_map.mp member
  obtain ⟨i, _, rfl⟩ := List.mem_map.mp inSlots
  simp [unused i]

theorem empty_of_unoccupied {record : Student} (empty : occupied record = false) : record.id = 0 := by
  have same : record = emptyStudentRecord := by simpa [occupied] using empty
  rw [same]
  rfl

/-- A file of empty slots that reaches past slot 1 has no room there: student 1
lands in slot 2 and cannot be deleted, which the compressed file allows. -/
theorem add_differs {data : List UInt8} (wide : studentRecordSize < data.length)
    (unused : ∀ i, occupied (Student.ofBytes (slot studentRecordSize data i)) = false) :
    (run Op.effect [.add StudentMap.john, .del 1] data).1 ≠
      (run Op.effect [.add StudentMap.john, .del 1] []).1 := by
  have one : StudentMap.john.id.toInt.toNat = 1 := by decide
  have empty := empty_of_unoccupied (unused 1)
  have inside : studentRecordSize * 1 < data.length := by omega
  have left : (Op.effect (.add StudentMap.john) data).2 =
      writeAt data (studentRecordSize * 2) (newRecord StudentMap.john.id StudentMap.john.fname
        StudentMap.john.lname StudentMap.john.gpa).toBytes := by
    simp only [Op.effect, one, if_pos empty, if_pos inside]
  have slotOne : (Op.effect (.del 1) (Op.effect (.add StudentMap.john) data).2).1 = ⟨errDbOp, none⟩ := by
    rw [effect_del _ (by decide) (by decide), left]
    have index : (1 : Int32).toInt.toNat = 1 := by decide
    rw [index, slot_writeAt_other data (length_toBytes _) (by decide), if_pos empty]
  have right : (Op.effect (.del 1) (Op.effect (.add StudentMap.john) []).2).1 = ⟨noError, none⟩ := by
    decide +kernel
  simp only [run, slotOne, right]
  intro same
  exact deleted_ne_refused (List.cons.inj (List.cons.inj same).2).1.symm

/-! ### The files whose compression goes unseen -/

/-- The files that no operation tells from the empty one. -/
def Blank (data : List UInt8) : Prop := ∃ n ≤ studentRecordSize, data = List.replicate n 0

theorem slot_blank {data : List UInt8} (blank : Blank data) (i : Nat) :
    slot studentRecordSize data i = List.replicate studentRecordSize 0 := by
  obtain ⟨n, _, rfl⟩ := blank
  apply List.ext_getElem (by simp)
  intro j _ _
  simp [slot]

theorem students_blank {data : List UInt8} (blank : Blank data) : (records data).filter occupied = [] :=
  no_students fun i => by
    rw [slot_blank blank, ofBytes_zeros]
    rfl

theorem slot_id_blank {data : List UInt8} (blank : Blank data) (i : Nat) :
    (Student.ofBytes (slot studentRecordSize data i)).id = 0 := by
  rw [slot_blank blank, ofBytes_zeros]
  rfl

theorem add_blank (s : NewStudent) {data : List UInt8} (blank : Blank data) :
    Op.effect (.add s) data = (⟨noError, none⟩, List.replicate (studentRecordSize * s.id.toInt.toNat) 0 ++
      (newRecord s.id s.fname s.lname s.gpa).toBytes) := by
  have nonempty : (newRecord s.id s.fname s.lname s.gpa).toBytes ≠ [] := by
    intro empty
    have := congrArg List.length empty
    simp [studentRecordSize] at this
  have valid := (valid_range s).1
  have free := slot_id_blank blank s.id.toInt.toNat
  obtain ⟨n, short, rfl⟩ := blank
  simp only [minStdId, studentRecordSize] at valid short
  have past : n ≤ studentRecordSize * s.id.toInt.toNat := by
    simp only [studentRecordSize]
    omega
  have outside : ¬ studentRecordSize * s.id.toInt.toNat < (List.replicate n (0 : UInt8)).length := by
    simpa using past
  simp only [Op.effect, if_pos free, if_neg outside, writeAt_zeros past nonempty]

/-- An operation answers alike on two blank files, and leaves the same file or
two blank ones. -/
theorem effect_blank (op : Op) {left right : List UInt8} (leftBlank : Blank left) (rightBlank : Blank right) :
    (op.effect left).1 = (op.effect right).1 ∧
      ((op.effect left).2 = (op.effect right).2 ∨ Blank (op.effect left).2 ∧ Blank (op.effect right).2) := by
  cases op with
  | add s =>
    rw [add_blank s leftBlank, add_blank s rightBlank]
    exact ⟨rfl, .inl rfl⟩
  | del id =>
    simp only [Op.effect, slot_id_blank leftBlank, slot_id_blank rightBlank, if_true]
    split
    · exact ⟨rfl, .inr ⟨leftBlank, rightBlank⟩⟩
    · exact ⟨rfl, .inr ⟨leftBlank, rightBlank⟩⟩
  | get id stack =>
    have missing {data : List UInt8} (blank : Blank data) : Op.effect (.get id stack) data =
        (⟨srchNotFound, none⟩, data) := by
      have absent : (records data).find? (fun record => occupied record && record.id = id) = none := by
        have none_occupied := List.filter_eq_nil_iff.mp (students_blank blank)
        exact List.find?_eq_none.mpr fun record member => by simp [none_occupied record member]
      simp only [Op.effect, absent]
    rw [missing leftBlank, missing rightBlank]
    exact ⟨rfl, .inr ⟨leftBlank, rightBlank⟩⟩
  | count stack =>
    simp only [Op.effect, List.countP_eq_length_filter, students_blank leftBlank, students_blank rightBlank]
    exact ⟨trivial, .inr ⟨leftBlank, rightBlank⟩⟩
  | zero => exact ⟨rfl, .inl rfl⟩

theorem blank_runs (ops : List Op) {left right : List UInt8} (leftBlank : Blank left) (rightBlank : Blank right) :
    (run Op.effect ops left).1 = (run Op.effect ops right).1 := by
  refine run_eq_of_simulation (fun left right => left = right ∨ Blank left ∧ Blank right) ?_ ?_ ops left right
    (.inr ⟨leftBlank, rightBlank⟩)
  · rintro op left right (rfl | ⟨leftBlank, rightBlank⟩)
    · rfl
    · exact (effect_blank op leftBlank rightBlank).1
  · rintro op left right (rfl | ⟨leftBlank, rightBlank⟩)
    · exact .inl rfl
    · exact (effect_blank op leftBlank rightBlank).2

/-- Slot 0 is never used, so a file no longer than that is blank. -/
theorem blank_of_short {data : List UInt8} (addressed : Addressed data)
    (short : data.length ≤ studentRecordSize) : Blank data := by
  have unused : occupied (Student.ofBytes (slot studentRecordSize data 0)) = false := by
    by_contra full
    have positive := (addressed.placed 0 (by simpa using full)).2.1
    exact absurd positive (by decide)
  have zeros : slot studentRecordSize data 0 = List.replicate studentRecordSize 0 := by
    rw [← toBytes_ofBytes (length_slot data 0), ← toBytes_empty]
    exact congrArg Student.toBytes (by simpa [occupied] using unused)
  obtain ⟨count, length⟩ := addressed.whole
  rcases Nat.eq_zero_or_pos count with rfl | positive
  · exact ⟨0, by decide, List.eq_nil_of_length_eq_zero length⟩
  · have inside : studentRecordSize * 0 + studentRecordSize ≤ data.length := by
      have := Nat.le_mul_of_pos_right studentRecordSize positive
      omega
    have whole := readAt_slot inside
    rw [readAt, Nat.mul_zero, List.drop_zero, List.take_of_length_le short, zeros] at whole
    exact ⟨studentRecordSize, Nat.le_refl _, whole⟩

/-- Compression is invisible to later operations exactly on files that hold
nothing past the unused slot 0. -/
theorem compression_transparent_iff (newFd : Nat) (stack : Student) (k : Kernel)
    (addressed : Addressed k.db.data) (success : 0 ≤ (compressDb newFd stack k).1) :
    Transparent k (compressDb newFd stack k).2 ↔ k.db.data.length ≤ studentRecordSize := by
  obtain ⟨kept, part, packed⟩ := compressDb_packs success
  have packedWhole : studentRecordSize ∣ (compressDb newFd stack k).2.db.data.length := by
    rw [packed, length_packed]
    exact Nat.dvd_mul_right ..
  constructor
  · intro same
    have answers (ops : List Op) (keepsOpen : ∀ op ∈ ops, KeepsOpen op) :
        (run Op.effect ops k.db.data).1 = (run Op.effect ops (kept.flatMap Student.toBytes)).1 := by
      rw [← packed]
      exact (run_effect ops (k := settled k) rfl addressed.whole).symm.trans ((same ops keepsOpen).trans
        (run_effect ops (k := settled (compressDb newFd stack k).2) rfl packedWhole))
    by_contra wide
    by_cases students : ∃ i, occupied (Student.ofBytes (slot studentRecordSize k.db.data i)) = true
    · obtain ⟨i, full⟩ := students
      obtain ⟨j, full, last⟩ := exists_last addressed full
      have deleted := answers [.del (Student.ofBytes (slot studentRecordSize k.db.data j)).id] (by simp [KeepsOpen])
      exact del_last_differs addressed part full last (List.cons.inj deleted).1
    · have unused : ∀ i, occupied (Student.ofBytes (slot studentRecordSize k.db.data i)) = false := by
        simpa using students
      rw [no_students unused, List.sublist_nil] at part
      have added := answers [.add StudentMap.john, .del 1] (by simp [KeepsOpen])
      rw [part] at added
      exact add_differs (not_le.mp wide) unused added
  · intro short ops _
    have blank := blank_of_short addressed short
    rw [students_blank blank, List.sublist_nil] at part
    have emptied : Blank (compressDb newFd stack k).2.db.data := ⟨0, by decide, by rw [packed, part]; rfl⟩
    exact (run_effect ops (k := settled k) rfl addressed.whole).trans ((blank_runs ops blank emptied).trans
      (run_effect ops (k := settled (compressDb newFd stack k).2) rfl packedWhole).symm)

theorem empty_file_transparent : Transparent StudentMap.emptyKernel
    (compressDb 4 emptyStudentRecord StudentMap.emptyKernel).2 := by
  have addressed : Addressed StudentMap.emptyKernel.db.data := by
    refine ⟨by decide, fun i full => ?_⟩
    rw [show StudentMap.emptyKernel.db.data = [] from rfl, slot_past_end (Nat.zero_le _), ofBytes_zeros] at full
    exact absurd full (by decide)
  exact (compression_transparent_iff 4 emptyStudentRecord _ addressed (by decide +kernel)).mpr (by decide)

/-- A database of student 1, the slot of id 0 being a hole. -/
def oneStudent : Kernel := (Op.exec (.add StudentMap.john) StudentMap.emptyKernel).2

/-- Only the slots inside the file have to be looked at. -/
theorem addressed_of_inside {data : List UInt8} (whole : studentRecordSize ∣ data.length)
    (placed : ∀ i < data.length / studentRecordSize, occupied (Student.ofBytes (slot studentRecordSize data i)) = true →
      (Student.ofBytes (slot studentRecordSize data i)).id.toInt = i ∧
        minStdId ≤ (i : Int) ∧ (i : Int) ≤ maxStdId) : Addressed data := by
  refine ⟨whole, fun i full => ?_⟩
  by_cases inside : i < data.length / studentRecordSize
  · exact placed i inside full
  · have past : data.length ≤ studentRecordSize * i := by
      rw [← Nat.mul_div_cancel' whole]
      exact Nat.mul_le_mul_left _ (not_lt.mp inside)
    rw [slot_past_end past, ofBytes_zeros] at full
    exact absurd full (by decide)

theorem addressed_oneStudent : Addressed oneStudent.db.data :=
  addressed_of_inside (by decide +kernel) (by decide +kernel)

/-- Student 1 can be deleted by id before the compression, and is found but
cannot be deleted after it. -/
theorem packed_student_not_deleted :
    Addressed oneStudent.db.data ∧ 0 ≤ (compressDb 4 emptyStudentRecord oneStudent).1 ∧
      ¬ Transparent oneStudent (compressDb 4 emptyStudentRecord oneStudent).2 := by
  refine ⟨addressed_oneStudent, by decide +kernel, fun same => ?_⟩
  have answers := same [.get 1 emptyStudentRecord, .del 1] (by simp [KeepsOpen])
  exact absurd answers (by decide +kernel)

end SysProg.CompressTransparency
