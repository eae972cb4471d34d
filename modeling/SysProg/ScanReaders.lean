import SysProg.StudentDbScans

/-! `get_student`, `count_db_records` and `print_db` side by side. Each scans
the file with a loop of its own; on a file of whole records all three see the
same students in the same order. -/
namespace SysProg.ScanReaders
open SparseFile StudentRecord StudentDb

/-! ### What `print_db` prints -/

/-- The table `print_db` prints for some students, nothing for none. -/
def table : List Student → List Message
  | [] => []
  | students => .printHdr :: students.map .printRow

/-- The students among the rows of some output. -/
def rowsOf (output : List Message) : List Student :=
  output.filterMap fun
    | .printRow student => some student
    | _ => none

/-- The rows a call of `print_db` prints, in order. -/
def printedRows (stack : Student) (k : Kernel) : List Student :=
  rowsOf ((printDb stack k).2.console.drop k.console.length)

theorem table_eq_nil_iff (students : List Student) : table students = [] ↔ students = [] := by
  cases students <;> simp [table]

theorem table_concat (students : List Student) (record : Student) :
    table (students ++ [record]) =
      table students ++ (if table students = [] then [.printHdr] else []) ++ [.printRow record] := by
  cases students <;> simp [table]

/-- The header is printed before the first student, whenever that comes. -/
theorem walk_print (body : Student → List Message → ForInStep (List Message))
    (prints : ∀ record printed, body record printed = .yield (if occupied record then
      printed ++ (if printed = [] then [.printHdr] else []) ++ [.printRow record] else printed))
    (list seen : List Student) :
    walk body (table seen) list = (table (seen ++ list.filter occupied), false) := by
  induction list generalizing seen with
  | nil => simp [walk]
  | cons record rest ih =>
    simp only [walk, prints]
    cases full : occupied record with
    | true =>
      rw [if_pos rfl, ← table_concat, ih, List.filter_cons_of_pos full, List.append_assoc, List.singleton_append]
    | false =>
      rw [if_neg Bool.false_ne_true, ih, List.filter_cons_of_neg (by rw [full]; exact Bool.false_ne_true)]

theorem printDb_full (stack : Student) {k : Kernel} (full : k.script = [])
    (whole : studentRecordSize ∣ k.db.data.length) :
    ∃ after, printDb stack k = (noError, after) ∧ after.db.data = k.db.data ∧
      after.console = k.console ++ table ((records k.db.data).filter occupied) ++
        if (records k.db.data).filter occupied = [] then [.dbEmpty] else [] := by
  have notMinusOne : (0 : Int) ≠ -1 := by decide
  simp only [printDb, lseek_full full (Int.le_refl 0), notMinusOne, if_false]
  obtain ⟨last, pos, stop⟩ := scan_records (i := 0)
    (fun record (printed : List Message) => if record ≠ emptyStudentRecord then
      .yield (printed ++ (if printed = [] then [.printHdr] else []) ++ [.printRow record])
      else .yield printed)
    stack [] (k := k.at (0 : Int).toNat) full whole (by rfl)
  rw [stop]
  have walked := walk_print (fun record (printed : List Message) => if record ≠ emptyStudentRecord then
      .yield (printed ++ (if printed = [] then [.printHdr] else []) ++ [.printRow record])
      else .yield printed)
    (by intro record printed; by_cases empty : record = emptyStudentRecord <;> simp [occupied, empty])
    (records k.db.data) []
  rw [show table [] = [] from rfl, List.nil_append] at walked
  simp only [List.drop_zero, at_data, walked, Bool.false_eq_true, notMinusOne, if_false, table_eq_nil_iff]
  split
  · exact ⟨_, rfl, rfl, rfl⟩
  · exact ⟨_, rfl, rfl, (List.append_nil _).symm⟩

@[simp] theorem rowsOf_table (students : List Student) : rowsOf (table students) = students := by
  cases students with
  | nil => rfl
  | cons record rest => simp [table, rowsOf, List.filterMap_map]

/-- The rows printed are the non-empty records of the file. -/
theorem printedRows_eq (stack : Student) {k : Kernel} (full : k.script = [])
    (whole : studentRecordSize ∣ k.db.data.length) :
    printedRows stack k = (records k.db.data).filter occupied := by
  obtain ⟨after, result, -, console⟩ := printDb_full stack full whole
  have students := rowsOf_table ((records k.db.data).filter occupied)
  rw [printedRows, result, console, List.append_assoc, List.drop_left]
  split
  · rename_i none
    rw [none]
    rfl
  · rw [List.append_nil, students]

/-! ### The three readers -/

/-- `get_student` answers with the first row that carries the id. -/
theorem getStudent_rows (id : Int32) (s stack stack' : Student) {k : Kernel} (full : k.script = [])
    (whole : studentRecordSize ∣ k.db.data.length) :
    ∃ pos, getStudent id (some s) stack k =
      match (printedRows stack' k).find? fun row => row.id = id with
      | some row => (noError, some row, k.at pos)
      | none => (srchNotFound, some s, k.at pos) := by
  have filtered : (printedRows stack' k).find? (fun row => row.id = id) =
      (records k.db.data).find? fun record => occupied record && record.id = id := by
    rw [printedRows_eq stack' full whole, List.find?_filter]
    congr 1
    funext record
    simp
  rw [filtered]
  exact getStudent_full id s stack full whole

/-- What makes the three readers of one file consistent. The stacks are what
their record variables hold at the start. -/
structure Agree (k : Kernel) : Prop where
  counted : ∀ stack stack', (countDbRecords stack k).1 = (printedRows stack' k).length
  found : ∀ id s stack stack' row, (printedRows stack' k).find? (fun row => row.id = id) = some row →
    (getStudent id (some s) stack k).1 = noError ∧ (getStudent id (some s) stack k).2.1 = some row
  notFound : ∀ id s stack stack', (getStudent id (some s) stack k).1 = srchNotFound ↔
    ∀ row ∈ printedRows stack' k, row.id ≠ id
  unchanged : ∀ id s stack, (countDbRecords stack k).2.db.data = k.db.data ∧
    (printDb stack k).2.db.data = k.db.data ∧ (getStudent id s stack k).2.2.db.data = k.db.data

theorem count_rows (stack stack' : Student) {k : Kernel} (full : k.script = [])
    (whole : studentRecordSize ∣ k.db.data.length) (few : (records k.db.data).length < 2 ^ 31) :
    (countDbRecords stack k).1 = (printedRows stack' k).length := by
  obtain ⟨after, count, -, -⟩ := countDbRecords_full stack full whole
  have fits : (records k.db.data).countP occupied < 2 ^ 31 := List.countP_le_length.trans_lt few
  rw [count, printedRows_eq stack' full whole, ← List.countP_eq_length_filter]
  exact Int32.toInt_ofNat_of_lt fits

theorem getStudent_unchanged (id : Int32) (s : Option Student) (stack : Student) {k : Kernel} (full : k.script = [])
    (whole : studentRecordSize ∣ k.db.data.length) : (getStudent id s stack k).2.2.db.data = k.db.data := by
  cases s with
  | none => rfl
  | some s =>
    obtain ⟨pos, result⟩ := getStudent_full id s stack full whole
    rw [result]
    split <;> rfl

/-- On a file of whole records that `int` can count, the three readers agree. -/
theorem readers_agree (k : Kernel) (full : k.script = []) (whole : studentRecordSize ∣ k.db.data.length)
    (few : k.db.data.length / studentRecordSize < 2 ^ 31) : Agree k := by
  have found : noError ≠ srchNotFound := by decide
  constructor
  · intro stack stack'
    exact count_rows stack stack' full whole (by simpa [records] using few)
  · intro id s stack stack' row first
    obtain ⟨pos, result⟩ := getStudent_rows id s stack stack' full whole
    rw [first] at result
    rw [result]
    exact ⟨rfl, rfl⟩
  · intro id s stack stack'
    obtain ⟨pos, result⟩ := getStudent_rows id s stack stack' full whole
    rw [result]
    cases first : (printedRows stack' k).find? fun row => row.id = id with
    | some row =>
      have sameId : row.id = id := by simpa using List.find?_some first
      exact iff_of_false found fun other => other row (List.mem_of_find?_eq_some first) sameId
    | none =>
      have other := List.find?_eq_none.mp first
      exact iff_of_true rfl fun row member => by simpa using other row member
  · intro id s stack
    obtain ⟨after, counted, sameCount, -⟩ := countDbRecords_full stack full whole
    obtain ⟨printed, result, samePrint, -⟩ := printDb_full stack full whole
    rw [counted, result]
    exact ⟨sameCount, samePrint, getStudent_unchanged id s stack full whole⟩

/-- A file with an unused slot, a student and a record that has no id. -/
def threeSlots : Kernel where
  db := ⟨(List.map Student.toBytes [emptyStudentRecord, newRecord 7 [106] [100] 345,
    newRecord 0 [106] [] 0]).flatten, 0⟩
  tmp := ⟨[], 0⟩
  script := []
  console := []

theorem readers_agree_threeSlots : Agree threeSlots :=
  readers_agree threeSlots rfl (by decide +kernel) (by decide +kernel)

example : (printedRows emptyStudentRecord threeSlots).map (fun row => row.id) = [7, 0] := by decide +kernel

end SysProg.ScanReaders
