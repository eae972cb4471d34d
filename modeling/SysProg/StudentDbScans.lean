import SysProg.Lib.Fuel
import SysProg.StudentDb

/-! What the database functions do when every call succeeds in full. A scan
of a file of whole records is then a walk over the list of its records, and
the functions that address one record read and write one slot. -/
namespace SysProg.StudentDb
open CString Fuel SparseFile StudentRecord

/-! ### System calls that succeed in full -/

/-- The kernel with its database offset somewhere else, the only part of it
that a reader changes. -/
def Kernel.at (k : Kernel) (pos : Nat) : Kernel := { k with db := { k.db with pos := pos } }

@[simp] theorem at_data (k : Kernel) : (k.at pos).db.data = k.db.data := rfl
@[simp] theorem at_pos (k : Kernel) : (k.at pos).db.pos = pos := rfl
@[simp] theorem at_tmp (k : Kernel) : (k.at pos).tmp = k.tmp := rfl
@[simp] theorem at_script (k : Kernel) : (k.at pos).script = k.script := rfl
@[simp] theorem at_at (k : Kernel) : (k.at pos).at other = k.at other := rfl
@[simp] theorem say_db (k : Kernel) : (k.say message).db = k.db := rfl
@[simp] theorem say_tmp (k : Kernel) : (k.say message).tmp = k.tmp := rfl
@[simp] theorem say_script (k : Kernel) : (k.say message).script = k.script := rfl

/-- The kernel once the outcome of one call is used up. -/
def Kernel.spent (k : Kernel) : Kernel := { k with script := k.script.tail }

@[simp] theorem spent_db (k : Kernel) : k.spent.db = k.db := rfl
@[simp] theorem spent_tmp (k : Kernel) : k.spent.tmp = k.tmp := rfl
@[simp] theorem spent_script (k : Kernel) : k.spent.script = k.script.tail := rfl

theorem next_eq (k : Kernel) : k.next = (k.script.headD .full, k.spent) := rfl

theorem spent_full {k : Kernel} (full : k.script = []) : k.spent = k := by
  obtain ⟨db, tmp, script, console⟩ := k
  cases full
  rfl

theorem next_full {k : Kernel} (full : k.script = []) : k.next = (.full, k) := by
  rw [next_eq, spent_full full, full]
  rfl

theorem lseek_full {k : Kernel} (full : k.script = []) (valid : 0 ≤ offset) :
    lseek offset k = (offset, k.at offset.toNat) := by
  simp [lseek, next_full full, Kernel.at, not_lt.mpr valid]

/-- A seek fails, or sets the offset. -/
theorem lseek_cases (offset : Int) (k : Kernel) :
    lseek offset k = (-1, k.spent) ∨ 0 ≤ offset ∧ lseek offset k = (offset, k.spent.at offset.toNat) := by
  by_cases refused : k.script.headD .full = .fail ∨ offset < 0
  · exact .inl (if_pos refused)
  · exact .inr ⟨not_lt.mp fun negative => refused (.inr negative), if_neg refused⟩

/-- A read fails, or moves the bytes at the offset up to some bound. -/
theorem read_cases (count : Nat) (k : Kernel) :
    read count k = (-1, [], k.spent) ∨
    ∃ moved ≤ count, read count k = (((readAt k.db.data k.db.pos moved).length : Int),
      readAt k.db.data k.db.pos moved,
      k.spent.at (k.db.pos + (readAt k.db.data k.db.pos moved).length)) := by
  simp only [read, next_eq]
  cases k.script.headD .full with
  | full => exact .inr ⟨count, Nat.le_refl _, rfl⟩
  | short moved => exact .inr ⟨min moved count, Nat.min_le_right .., rfl⟩
  | fail => exact .inl rfl

theorem read_full (count : Nat) {k : Kernel} (full : k.script = []) :
    read count k = (((readAt k.db.data k.db.pos count).length : Int),
      readAt k.db.data k.db.pos count, k.at (k.db.pos + (readAt k.db.data k.db.pos count).length)) := by
  simp only [read, next_full full]
  rfl

/-- A write fails, or moves some first part of its bytes. -/
theorem writeTmp_cases (bytes : List UInt8) (k : Kernel) :
    writeTmp bytes k = (-1, k.spent) ∨
    ∃ moved ≤ bytes.length, writeTmp bytes k =
      ((moved : Int), { k.spent with tmp := k.tmp.write (bytes.take moved) }) := by
  simp only [writeTmp, next_eq]
  cases k.script.headD .full with
  | full => exact .inr ⟨bytes.length, Nat.le_refl _, rfl⟩
  | short moved => exact .inr ⟨min moved bytes.length, Nat.min_le_right .., rfl⟩
  | fail => exact .inl rfl

theorem write_cases (bytes : List UInt8) (k : Kernel) :
    write bytes k = (-1, k.spent) ∨
    ∃ moved ≤ bytes.length, write bytes k =
      ((moved : Int), { k.spent with db := k.db.write (bytes.take moved) }) := by
  simp only [write, next_eq]
  cases k.script.headD .full with
  | full => exact .inr ⟨bytes.length, Nat.le_refl _, rfl⟩
  | short moved => exact .inr ⟨min moved bytes.length, Nat.min_le_right .., rfl⟩
  | fail => exact .inl rfl

theorem write_full (bytes : List UInt8) {k : Kernel} (full : k.script = []) :
    write bytes k = ((bytes.length : Int), { k with db := k.db.write bytes }) := by
  simp only [write, next_full full, Outcome.transfer, List.take_length]

/-! ### The fuel of a scan is never used up -/

def Kernel.remaining (k : Kernel) : Nat := k.db.data.length - k.db.pos

/-- A read that moves bytes leaves less of the file to read. -/
theorem read_remaining (count : Nat) (k : Kernel) (progress : 0 < (read count k).1) :
    (read count k).2.2.remaining < k.remaining := by
  rcases read_cases count k with failed | ⟨moved, _, moves⟩
  · rw [failed] at progress
    cases progress
  · rw [moves] at progress ⊢
    have positive : 0 < (readAt k.db.data k.db.pos moved).length := Int.natCast_pos.mp progress
    simp only [Kernel.remaining, at_data, at_pos, spent_db]
    simp only [length_readAt] at positive ⊢
    omega

theorem writeTmp_remaining (bytes : List UInt8) (k : Kernel) :
    (writeTmp bytes k).2.remaining = k.remaining := by
  rcases writeTmp_cases bytes k with failed | ⟨moved, _, moves⟩
  · rw [failed]; rfl
  · rw [moves]; rfl

/-- One turn of a scan, with whatever follows it as a parameter. -/
def scanTurn (body : Student → σ → ForInStep σ) (next : Student × σ × Kernel → ScanEnd σ) :
    Student × σ × Kernel → ScanEnd σ
  | (record, vars, k) =>
    let (bytesRead, data, k) := read studentRecordSize k
    if bytesRead ≤ 0 then ⟨bytesRead, record, vars, k⟩
    else match body (record.overlay data) vars with
      | .done vars => ⟨bytesRead, record.overlay data, vars, k⟩
      | .yield vars => next (record.overlay data, vars, k)

theorem scanTurn_shrinks (body : Student → σ → ForInStep σ) (s : Student × σ × Kernel)
    (next next' : Student × σ × Kernel → ScanEnd σ)
    (same : ∀ t, t.2.2.remaining < s.2.2.remaining → next t = next' t) :
    scanTurn body next s = scanTurn body next' s := by
  obtain ⟨record, vars, k⟩ := s
  have progress := read_remaining studentRecordSize k
  simp only [scanTurn]
  generalize read studentRecordSize k = result at progress ⊢
  obtain ⟨bytesRead, data, after⟩ := result
  dsimp only at progress ⊢
  split
  · rfl
  · cases body (record.overlay data) vars with
    | done vars => rfl
    | yield vars => exact same _ (progress (by omega))

/-- The `while` loop of the source: a scan unfolds into one read, one turn of
the body and the scan of what is left. -/
theorem scan_unfold (body : Student → σ → ForInStep σ) (record : Student) (vars : σ) (k : Kernel) :
    scan body record vars k =
      let (bytesRead, data, k) := read studentRecordSize k
      if bytesRead ≤ 0 then ⟨bytesRead, record, vars, k⟩
      else match body (record.overlay data) vars with
        | .done vars => ⟨bytesRead, record.overlay data, vars, k⟩
        | .yield vars => scan body (record.overlay data) vars k :=
  run_unfold (fun s : Student × σ × Kernel => s.2.2.remaining) (fun fuel s => scanFuel body fuel s.1 s.2.1 s.2.2)
    (scanTurn body) (fun _ _ => rfl) (scanTurn_shrinks body) (record, vars, k)

/-- One turn of the copy loop of `compress_db`. -/
def copyTurn (next : Student × Kernel → CopyEnd) : Student × Kernel → CopyEnd
  | (student, k) =>
    let (bytesRead, data, k) := read studentRecordSize k
    if bytesRead ≠ studentRecordSize then ⟨false, k⟩
    else if student.overlay data ≠ emptyStudentRecord then
      let (bytesWritten, k) := writeTmp (student.overlay data).toBytes k
      if bytesWritten ≠ studentRecordSize then ⟨true, k⟩ else next (student.overlay data, k)
    else next (student.overlay data, k)

theorem copyTurn_shrinks (s : Student × Kernel) (next next' : Student × Kernel → CopyEnd)
    (same : ∀ t, t.2.remaining < s.2.remaining → next t = next' t) : copyTurn next s = copyTurn next' s := by
  obtain ⟨student, k⟩ := s
  have progress := read_remaining studentRecordSize k
  simp only [copyTurn]
  generalize read studentRecordSize k = result at progress ⊢
  obtain ⟨bytesRead, data, after⟩ := result
  dsimp only at progress ⊢
  split
  · rfl
  · rename_i whole
    have less := progress (by simp only [studentRecordSize] at whole; omega)
    have written := writeTmp_remaining (student.overlay data).toBytes after
    generalize writeTmp (student.overlay data).toBytes after = result at written ⊢
    obtain ⟨bytesWritten, final⟩ := result
    dsimp only at written ⊢
    split
    · split
      · rfl
      · exact same _ (written ▸ less)
    · exact same _ less

/-- The copy loop of `compress_db`, unfolded by one turn. -/
theorem copyRecords_unfold (student : Student) (k : Kernel) :
    copyRecords student k =
      let (bytesRead, data, k) := read studentRecordSize k
      if bytesRead ≠ studentRecordSize then ⟨false, k⟩
      else if student.overlay data ≠ emptyStudentRecord then
        let (bytesWritten, k) := writeTmp (student.overlay data).toBytes k
        if bytesWritten ≠ studentRecordSize then ⟨true, k⟩ else copyRecords (student.overlay data) k
      else copyRecords (student.overlay data) k :=
  run_unfold (fun s : Student × Kernel => s.2.remaining) (fun fuel s => copyFuel fuel s.1 s.2) copyTurn
    (fun _ _ => rfl) copyTurn_shrinks (student, k)

/-! ### Scans as walks over the records -/

/-- All records of a file, the empty ones included. -/
def records (data : List UInt8) : List Student := (slots studentRecordSize data).map Student.ofBytes

/-- A loop body run over a list of records: its final variables, and whether
it left the loop early. -/
def walk (body : Student → σ → ForInStep σ) : σ → List Student → σ × Bool
  | vars, [] => (vars, false)
  | vars, record :: rest => match body record vars with
    | .done vars => (vars, true)
    | .yield vars => walk body vars rest

theorem records_drop {data : List UInt8} (inside : i < data.length / studentRecordSize) :
    (records data).drop i =
      Student.ofBytes (slot studentRecordSize data i) :: (records data).drop (i + 1) := by
  have bound : i < (records data).length := by simpa [records] using inside
  rw [List.drop_eq_getElem_cons bound]
  simp [records, slots]

theorem records_drop_end {data : List UInt8} (past : data.length / studentRecordSize ≤ i) :
    (records data).drop i = [] :=
  List.drop_eq_nil_of_le (by simpa [records] using past)

theorem read_inside {k : Kernel} (full : k.script = []) (whole : studentRecordSize ∣ k.db.data.length)
    (aligned : k.db.pos = studentRecordSize * i) (inside : studentRecordSize * i < k.db.data.length) :
    read studentRecordSize k = ((studentRecordSize : Int), slot studentRecordSize k.db.data i,
      k.at (studentRecordSize * (i + 1))) := by
  rw [read_full _ full, aligned, readAt_slot (slot_inside whole inside), length_slot, Nat.mul_succ]

theorem read_past_end {k : Kernel} (full : k.script = []) (past : k.db.data.length ≤ k.db.pos) :
    read count k = (0, [], k) := by
  rw [read_full _ full, readAt_past_end past]
  rfl

/-- A scan from a record boundary runs its body over the records from there
on. What it read last decides nothing more than how the loop ended. -/
theorem scan_records (body : Student → σ → ForInStep σ) (record : Student) (vars : σ) {k : Kernel}
    (full : k.script = []) (whole : studentRecordSize ∣ k.db.data.length)
    (aligned : k.db.pos = studentRecordSize * i) :
    ∃ last pos, scan body record vars k =
      ⟨if (walk body vars ((records k.db.data).drop i)).2 then studentRecordSize else 0, last,
        (walk body vars ((records k.db.data).drop i)).1, k.at pos⟩ := by
  generalize left : k.db.data.length / studentRecordSize - i = count
  induction count generalizing i record vars k with
  | zero =>
    have past : k.db.data.length ≤ k.db.pos := by
      rw [aligned, ← Nat.mul_div_cancel' whole]
      exact Nat.mul_le_mul_left _ (by omega)
    rw [scan_unfold, read_past_end full past, records_drop_end (by omega)]
    exact ⟨record, k.db.pos, rfl⟩
  | succ count ih =>
    have inside : studentRecordSize * i < k.db.data.length := by
      rw [← Nat.mul_div_cancel' whole]
      exact Nat.mul_lt_mul_of_pos_left (by omega) studentRecordSize_pos
    have moved : ¬ (studentRecordSize : Int) ≤ 0 := by decide
    rw [scan_unfold, records_drop (by omega)]
    cases turn : body (Student.ofBytes (slot studentRecordSize k.db.data i)) vars with
    | done vars =>
      simp only [read_inside full whole aligned inside, walk, overlay_full record (length_slot k.db.data i),
        moved, if_false, turn, if_true]
      exact ⟨_, _, rfl⟩
    | yield vars =>
      simp only [read_inside full whole aligned inside, walk, overlay_full record (length_slot k.db.data i),
        moved, if_false, turn]
      exact ih (k := k.at (studentRecordSize * (i + 1))) _ vars full whole rfl (by simp; omega)

/-! ### The functions on a file of whole records -/

theorem walk_find (p : Student → Bool) {body : Student → Option Student → ForInStep (Option Student)}
    (stops : ∀ record vars, body record vars = if p record then .done (some record) else .yield none)
    (list : List Student) : (walk body none list).1 = list.find? p := by
  induction list with
  | nil => rfl
  | cons record rest ih =>
    simp only [walk, stops, List.find?_cons]
    cases p record with
    | true => rfl
    | false => exact ih

theorem walk_count (p : Student → Bool) {body : Student → Int32 → ForInStep Int32}
    (counts : ∀ record vars, body record vars = .yield (if p record then vars + 1 else vars))
    (list : List Student) (start : Int32) :
    walk body start list = (start + Int32.ofNat (list.countP p), false) := by
  induction list generalizing start with
  | nil => simp [walk]
  | cons record rest ih =>
    simp only [walk, counts, List.countP_cons, ih]
    cases p record with
    | true => simp [Int32.ofNat_add, Int32.add_assoc, Int32.add_comm 1]
    | false => simp

/-- The records a reader of the file takes for students. -/
def occupied (record : Student) : Bool := record ≠ emptyStudentRecord

theorem getStudent_full (id : Int32) (s stack : Student) {k : Kernel} (full : k.script = [])
    (whole : studentRecordSize ∣ k.db.data.length) :
    ∃ pos, getStudent id (some s) stack k =
      match (records k.db.data).find? fun record => occupied record && record.id = id with
      | some record => (noError, some record, k.at pos)
      | none => (srchNotFound, some s, k.at pos) := by
  have notMinusOne : (0 : Int) ≠ -1 := by decide
  have ended (early : Bool) : (if early then (studentRecordSize : Int) else 0) ≠ -1 := by
    cases early <;> decide
  simp only [getStudent, lseek_full full (Int.le_refl 0), reduceCtorEq, notMinusOne, if_false]
  obtain ⟨last, pos, stop⟩ := scan_records (i := 0) _ stack none
    (k := k.at (0 : Int).toNat) full whole (by rfl)
  rw [stop]
  simp only [List.drop_zero, at_data, ended, if_false]
  rw [walk_find fun record => occupied record && record.id = id]
  · refine ⟨pos, ?_⟩
    cases (records k.db.data).find? fun record => occupied record && record.id = id <;> rfl
  · intro record vars
    by_cases empty : record = emptyStudentRecord <;> by_cases same : record.id = id <;>
      simp [occupied, empty, same]

theorem countDbRecords_full (stack : Student) {k : Kernel} (full : k.script = [])
    (whole : studentRecordSize ∣ k.db.data.length) :
    ∃ after, countDbRecords stack k =
        ((Int32.ofNat ((records k.db.data).countP occupied)).toInt, after) ∧
      after.db.data = k.db.data ∧ after.script = [] := by
  have notMinusOne : (0 : Int) ≠ -1 := by decide
  simp only [countDbRecords, lseek_full full (Int.le_refl 0), notMinusOne, if_false]
  obtain ⟨last, pos, stop⟩ := scan_records (i := 0)
    (fun record (count : Int32) => .yield (if record ≠ emptyStudentRecord then count + 1 else count))
    stack 0 (k := k.at (0 : Int).toNat) full whole (by rfl)
  rw [stop, walk_count occupied (by simp [occupied])]
  simp only [List.drop_zero, at_data, Int32.zero_add, notMinusOne, Bool.false_eq_true, if_false]
  split
  · exact ⟨_, rfl, rfl, full⟩
  · exact ⟨_, rfl, rfl, full⟩

/-- A read at a slot, inside the file or past its end, leaves a zeroed record
variable with what the slot holds. -/
theorem overlay_read (data : List UInt8) (i : Nat) (whole : studentRecordSize ∣ data.length) :
    emptyStudentRecord.overlay (readAt data (studentRecordSize * i) studentRecordSize) =
      Student.ofBytes (slot studentRecordSize data i) := by
  rcases Nat.lt_or_ge (studentRecordSize * i) data.length with inside | past
  · rw [readAt_slot (slot_inside whole inside), overlay_full _ (length_slot ..)]
  · rw [readAt_past_end past, slot_past_end past, overlay_nil, ofBytes_zeros]

/-- How far a read at slot `i` moves the offset. -/
theorem length_read (data : List UInt8) (i : Nat) (whole : studentRecordSize ∣ data.length) :
    studentRecordSize * i + (readAt data (studentRecordSize * i) studentRecordSize).length =
      studentRecordSize * if studentRecordSize * i < data.length then i + 1 else i := by
  split
  · rename_i inside
    have := slot_inside whole inside
    rw [length_readAt, Nat.mul_succ]
    omega
  · rw [length_readAt]
    omega

theorem recordOffset_in_range {id : Int32} (lower : 0 ≤ id.toInt) (upper : id.toInt ≤ maxStdId) :
    recordOffset id = ((studentRecordSize * id.toInt.toNat : Nat) : Int) := by
  simp only [maxStdId] at upper
  rw [recordOffset, Int32.toInt_mul, studentRecordSizeInt_toInt, studentRecordSize,
    Int.bmod_eq_of_le (by omega) (by omega)]
  omega

/-- The product is a multiple of the record size even when it wraps around. -/
theorem recordOffset_aligned (id : Int32) : (studentRecordSize : Int) ∣ recordOffset id := by
  rw [recordOffset, Int32.toInt_mul, studentRecordSizeInt_toInt, studentRecordSize, Int.bmod_def]
  split <;> omega

theorem addStudent_full {id : Int32} (fname lname : List UInt8) (gpa : Int32) {k : Kernel} (full : k.script = [])
    (whole : studentRecordSize ∣ k.db.data.length)
    (place : recordOffset id = ((studentRecordSize * i : Nat) : Int)) :
    ∃ after, after.script = [] ∧
      if (Student.ofBytes (slot studentRecordSize k.db.data i)).id = 0 then
        addStudent id fname lname gpa k = (noError, after) ∧
        after.db.data = writeAt k.db.data
          (studentRecordSize * if studentRecordSize * i < k.db.data.length then i + 1 else i)
          (newRecord id fname lname gpa).toBytes
      else addStudent id fname lname gpa k = (errDbOp, after) ∧ after.db.data = k.db.data := by
  have sought : recordOffset id ≠ -1 := by omega
  have seekPos : (recordOffset id).toNat = studentRecordSize * i := by omega
  have readFull := read_full studentRecordSize (k := k.at (studentRecordSize * i)) full
  have moved : ((readAt k.db.data (studentRecordSize * i) studentRecordSize).length : Int) ≠ -1 := by omega
  simp only [at_data, at_pos, at_at, length_read k.db.data i whole] at readFull
  have wrote := write_full (newRecord id fname lname gpa).toBytes (k := k.at
    (studentRecordSize * if studentRecordSize * i < k.db.data.length then i + 1 else i)) full
  have written : ((newRecord id fname lname gpa).toBytes.length : Int) ≠ -1 := by omega
  simp only [newRecord] at wrote written
  simp only [addStudent, lseek_full full (show 0 ≤ recordOffset id by omega), sought, if_false, seekPos,
    readFull, moved, overlay_read k.db.data i whole, ne_eq, ite_not, newRecord, wrote, written]
  split
  · refine ⟨_, ?_, rfl, rfl⟩
    exact full
  · refine ⟨_, ?_, rfl, rfl⟩
    exact full

theorem delStudent_full {id : Int32} {k : Kernel} (full : k.script = [])
    (whole : studentRecordSize ∣ k.db.data.length)
    (place : recordOffset id = ((studentRecordSize * i : Nat) : Int)) :
    ∃ after, after.script = [] ∧
      if (Student.ofBytes (slot studentRecordSize k.db.data i)).id = 0 then
        delStudent id k = (errDbOp, after) ∧ after.db.data = k.db.data
      else delStudent id k = (noError, after) ∧
        after.db.data = writeAt k.db.data (studentRecordSize * i) emptyStudentRecord.toBytes := by
  have sought : recordOffset id ≠ -1 := by omega
  have seekPos : (recordOffset id).toNat = studentRecordSize * i := by omega
  have readFull := read_full studentRecordSize (k := k.at (studentRecordSize * i)) full
  have moved : ((readAt k.db.data (studentRecordSize * i) studentRecordSize).length : Int) ≠ -1 := by omega
  simp only [at_data, at_pos, at_at, length_read k.db.data i whole] at readFull
  have seekBack := lseek_full (k := k.at
    (studentRecordSize * if studentRecordSize * i < k.db.data.length then i + 1 else i)) full
    (show 0 ≤ recordOffset id by omega)
  have wrote := write_full emptyStudentRecord.toBytes (k := k.at (studentRecordSize * i)) full
  simp only [at_at, seekPos] at seekBack
  simp only [delStudent, lseek_full full (show 0 ≤ recordOffset id by omega), sought, if_false, seekPos,
    readFull, moved, overlay_read k.db.data i whole, seekBack, wrote, length_toBytes, ne_eq,
    not_true_eq_false]
  split
  · refine ⟨_, ?_, rfl, rfl⟩
    exact full
  · refine ⟨_, ?_, rfl, rfl⟩
    exact full

/-- A negative product is refused by `lseek`, before anything is read. -/
theorem delStudent_negative {id : Int32} {k : Kernel} (full : k.script = []) (negative : recordOffset id < 0) :
    delStudent id k = (errDbFile, k.say .errDbRead) := by
  simp [delStudent, lseek, next_full full, negative]

end SysProg.StudentDb
