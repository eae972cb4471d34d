import SysProg.DeletionOffsets
import SysProg.StudentIds
import SysProg.StudentReports

/-! What the database file holds after any runs of `sdbsc.c`, compressions
included, as long as no call moves a part only of what it was asked to. -/
namespace SysProg.StudentFiles
open CString SparseFile Atoi StudentRecord StudentDb StudentIds CompressFailures StudentProgram StudentReports

/-! ### Calls that move everything or fail -/

/-- No call is cut short, a read no more than a write: a short read misaligns
the write behind it. -/
def AllOrNothing (script : List Outcome) : Prop := ∀ outcome ∈ script, outcome = .full ∨ outcome = .fail

instance (script : List Outcome) : Decidable (AllOrNothing script) := List.decidableBAll _ _

section Calls
variable {script : List Outcome} {k : Kernel}

theorem AllOrNothing.tail (sound : AllOrNothing script) : AllOrNothing script.tail :=
  fun outcome member => sound outcome (List.mem_of_mem_tail member)

theorem AllOrNothing.first (sound : AllOrNothing script) : first script = .full ∨ first script = .fail := by
  cases script with
  | nil => exact .inl rfl
  | cons outcome rest => exact sound outcome (by simp)

theorem read_sound (sound : AllOrNothing k.script) (count : Nat) :
    read count k = (-1, [], k.spent) ∨
      read count k = (((readAt k.db.data k.db.pos count).length : Int), readAt k.db.data k.db.pos count,
        k.spent.at (k.db.pos + (readAt k.db.data k.db.pos count).length)) := by
  simp only [StudentDb.read, next_first]
  rcases sound.first with full | failed
  · simp only [full]
    exact .inr rfl
  · simp only [failed]
    exact .inl rfl

theorem write_sound (sound : AllOrNothing k.script) (bytes : List UInt8) :
    write bytes k = (-1, k.spent) ∨
      write bytes k = ((bytes.length : Int), { k.spent with db := k.db.write bytes }) := by
  simp only [StudentDb.write, next_first]
  rcases sound.first with full | failed
  · simp only [full, Outcome.transfer, List.take_length]
    exact .inr rfl
  · simp only [failed]
    exact .inl rfl

end Calls

/-! ### What a run does to the file -/

/-- The file is as it was, has another record in one slot, holds some of its
students and nothing else, or is empty. -/
inductive Rewrites (added : Student → Prop) (old : List UInt8) : List UInt8 → Prop where
  | same : Rewrites added old old
  | slot (i : Nat) (record : Student) (here : i ≤ maxStdId + 1 ∨ studentRecordSize * i < old.length)
      (known : record = emptyStudentRecord ∨ added record) :
      Rewrites added old (writeAt old (studentRecordSize * i) record.toBytes)
  | packed (kept : List Student) (part : kept.Sublist (records old)) :
      Rewrites added old (kept.flatMap Student.toBytes)
  | zeroed : Rewrites added old []

/-- The file is rewritten by a call that succeeds, and otherwise left alone. -/
def Commits (added : Student → Prop) (old : List UInt8) (result : Int × Kernel) : Prop :=
  result.2.db.data = old ∨ 0 ≤ result.1 ∧ Rewrites added old result.2.db.data

/-- The student a command line adds. -/
def Adds (argv : List (List UInt8)) (record : Student) : Prop :=
  opt argv = letter 'a' ∧ argv.length = 6 ∧ validateRange (atoi (arg argv 2)) (atoi (arg argv 5)) = noError ∧
    record = newRecord (atoi (arg argv 2)) (arg argv 3) (arg argv 4) (atoi (arg argv 5))

section Functions
variable {k : Kernel} {added : Student → Prop}

/-- Seeking to a slot and reading it: a failure that is reported, or the whole
slot with the offset behind it. -/
theorem seek_read {offset : Int} (sound : AllOrNothing k.script) (whole : studentRecordSize ∣ k.db.data.length)
    (place : offset = ((studentRecordSize * i : Nat) : Int)) :
    (∃ after, lseek offset k = (-1, after) ∧ after.db.data = k.db.data) ∨
    ∃ sought, lseek offset k = (offset, sought) ∧
      ((∃ after, read studentRecordSize sought = (-1, [], after) ∧ after.db.data = k.db.data) ∨
      ∃ after, read studentRecordSize sought =
          (((readAt k.db.data (studentRecordSize * i) studentRecordSize).length : Int),
            readAt k.db.data (studentRecordSize * i) studentRecordSize, after) ∧
        after.db = ⟨k.db.data,
          studentRecordSize * if studentRecordSize * i < k.db.data.length then i + 1 else i⟩ ∧
        AllOrNothing after.script) := by
  have target : offset.toNat = studentRecordSize * i := by omega
  rcases lseek_cases offset k with failed | ⟨-, seek⟩
  · exact .inl ⟨_, failed, rfl⟩
  rw [target] at seek
  refine .inr ⟨_, seek, ?_⟩
  rcases read_sound (k := k.spent.at (studentRecordSize * i)) sound.tail studentRecordSize with failed | reads
  · exact .inl ⟨_, failed, rfl⟩
  simp only [at_data, at_pos, spent_db, length_read k.db.data i whole] at reads
  exact .inr ⟨_, reads, rfl, sound.tail.tail⟩

theorem addStudent_commits {id : Int32} {fname lname : List UInt8} {gpa : Int32} (sound : AllOrNothing k.script)
    (whole : studentRecordSize ∣ k.db.data.length) (valid : validateRange id gpa = noError)
    (known : added (newRecord id fname lname gpa)) :
    Commits added k.db.data (addStudent id fname lname gpa k) := by
  have range := valid_range ⟨id, fname, lname, gpa, valid⟩
  simp only [minStdId, maxStdId] at range
  have place : recordOffset id = ((studentRecordSize * id.toInt.toNat : Nat) : Int) :=
    recordOffset_in_range (by omega) range.2
  have sought : recordOffset id ≠ -1 := by omega
  have moves : ∀ n : Nat, (n : Int) ≠ -1 := fun n => by omega
  rcases seek_read sound whole place with ⟨after, noSeek, same⟩ | ⟨start, seek, rest⟩
  · exact .inl (by simpa only [addStudent, noSeek, if_true, say_db] using same)
  rcases rest with ⟨after, noRead, same⟩ | ⟨after, reads, file, left⟩
  · exact .inl (by simpa only [addStudent, seek, sought, noRead, if_false, if_true, say_db] using same)
  simp only [addStudent, seek, sought, reads, moves, if_false]
  split
  · exact .inl (by simp only [say_db, file])
  rcases write_sound left (newRecord id fname lname gpa).toBytes with noWrite | writes
  · simp only [newRecord] at noWrite
    exact .inl (by simp only [noWrite, if_true, say_db, spent_db, file])
  · simp only [newRecord] at writes
    simp only [writes, moves, if_false, OpenFile.write, file]
    refine .inr ⟨Int.le_refl _, .slot _ (newRecord id fname lname gpa) (.inl ?_) (.inr known)⟩
    simp only [maxStdId]
    split <;> omega

theorem delStudent_commits (id : Int32) (sound : AllOrNothing k.script)
    (whole : studentRecordSize ∣ k.db.data.length) :
    Commits added k.db.data (delStudent id k) := by
  rcases lseek_cases (recordOffset id) k with noSeek | ⟨valid, -⟩
  · exact .inl (by simp only [delStudent, noSeek, if_true, say_db, spent_db])
  obtain ⟨i, place⟩ := DeletionOffsets.exists_slot valid
  have sought : recordOffset id ≠ -1 := by omega
  have target : (recordOffset id).toNat = studentRecordSize * i := by omega
  have moves : ∀ n : Nat, (n : Int) ≠ -1 := fun n => by omega
  rcases seek_read sound whole place with ⟨after, noSeek, same⟩ | ⟨start, seek, rest⟩
  · exact .inl (by simpa only [delStudent, noSeek, if_true, say_db] using same)
  rcases rest with ⟨after, noRead, same⟩ | ⟨after, reads, file, left⟩
  · exact .inl (by simpa only [delStudent, seek, sought, noRead, if_false, if_true, say_db] using same)
  simp only [delStudent, seek, sought, reads, moves, if_false, overlay_read k.db.data i whole]
  split
  · exact .inl (by simp only [say_db, file])
  next present =>
  rcases lseek_cases (recordOffset id) after with noSeek | ⟨-, back⟩
  · exact .inl (by simp only [noSeek, if_true, say_db, spent_db, file])
  rw [target] at back
  simp only [back, sought, if_false]
  rcases write_sound (k := after.spent.at (studentRecordSize * i)) left.tail emptyStudentRecord.toBytes
    with noWrite | writes
  · have short : (-1 : Int) ≠ studentRecordSize := by decide
    exact .inl (by simp only [noWrite, short, ne_eq, not_false_eq_true, if_true, say_db, spent_db, at_data, file])
  · have inside : studentRecordSize * i < k.db.data.length := by
      by_contra past
      exact present (congrArg Student.id (recordAt_past_end (not_lt.mp past)))
    simp only [writes, length_toBytes, ne_eq, not_true_eq_false, if_false, OpenFile.write, at_data, at_pos, spent_db,
      file]
    exact .inr ⟨Int.le_refl _, .slot i emptyStudentRecord (.inr inside) (.inl rfl)⟩

/-- The copy takes the place of the database before `compress_db` opens it, and
stays there if that fails. -/
theorem compressDb_commits (newFd : Nat) (stack : Student) :
    Commits added k.db.data (compressDb newFd stack k) ∨
      ∃ kept : List Student, kept.Sublist (records k.db.data) ∧
        (compressDb newFd stack k).2.db.data = kept.flatMap Student.toBytes := by
  by_cases started : first k.script ≠ .fail ∧ first k.script.tail ≠ .fail
  swap
  · exact .inl (.inl (compressDb_unopened newFd stack ((not_and_or.mp started).imp not_not.mp not_not.mp)).1)
  have planned := compressDb_plan newFd stack started.1 started.2
  cases plan : copyPlan k.script.tail.tail (records k.db.data) with
  | none =>
    simp only [plan] at planned
    exact .inl (.inl planned.1)
  | some outcome =>
    obtain ⟨kept, left⟩ := outcome
    simp only [plan] at planned
    split at planned
    · exact .inl (.inl planned.1)
    · exact .inr ⟨kept, (copyPlan_sublist plan).trans List.filter_sublist, planned.1⟩

theorem zeroDb_commits : Commits added k.db.data (zeroDb k) := by
  simp only [zeroDb, openDb, next_first]
  by_cases failed : first k.script = .fail
  · simp only [failed, if_true, Bool.false_eq_true, if_false]
    exact .inl rfl
  · simp only [failed, if_false, if_true]
    exact .inr ⟨Int.le_refl _, .zeroed⟩

/-- What reads the file leaves it alone. -/
theorem scan_data (body : Student → σ → ForInStep σ) (record : Student) (vars : σ) (k : Kernel) :
    (scan body record vars k).kernel.db.data = k.db.data :=
  scan_keeps (fun after => after.db.data = k.db.data)
    (fun after same => by
      rcases read_cases studentRecordSize after with failed | ⟨moved, -, moves⟩
      · rwa [failed]
      · rwa [moves])
    body record vars rfl

theorem countDbRecords_data (stack : Student) : (countDbRecords stack k).2.db.data = k.db.data := by
  have sought := lseek_start_data k
  simp only [countDbRecords]
  split
  · exact sought
  split
  · exact (scan_data ..).trans sought
  split <;> exact (scan_data ..).trans sought

theorem printDb_data (stack : Student) : (printDb stack k).2.db.data = k.db.data := by
  have sought := lseek_start_data k
  simp only [printDb]
  split
  · exact sought
  split <;> split <;> exact (scan_data ..).trans sought

theorem getStudent_data (id : Int32) (s stack : Student) :
    (getStudent id (some s) stack k).2.2.db.data = k.db.data := by
  have sought := lseek_start_data k
  simp only [getStudent, reduceCtorEq, if_false]
  split
  · exact sought
  split
  · exact (scan_data ..).trans sought
  split <;> exact (scan_data ..).trans sought

end Functions

/-! ### One run of the program -/

/-- The file is as it was unless the run succeeds, or is a compression that has
its copy in place already. -/
structure Settled (argv : List (List UInt8)) (old : List UInt8) (exit : Exit) : Prop where
  rewrites : Rewrites (Adds argv) old exit.kernel.db.data
  failed : exit.code ≠ exitOk → opt argv ≠ letter 'x' → exit.kernel.db.data = old

section Runs
variable {argv : List (List UInt8)} {old : List UInt8}

theorem settled_same {exit : Exit} (same : exit.kernel.db.data = old) : Settled argv old exit :=
  ⟨same ▸ .same, fun _ _ => same⟩

theorem settled_commits {result : Int × Kernel} (commits : Commits (Adds argv) old result) :
    Settled argv old (finish (exitCode result.1) own result.2) := by
  rcases commits with same | ⟨succeeded, rewrites⟩
  · exact settled_same same
  · refine ⟨rewrites, fun failed => absurd ?_ failed⟩
    simp only [finish, exitCode, if_neg (not_lt.mpr succeeded)]

theorem valid_of_accepted {id gpa : Int32} (accepted : validateRange id gpa ≠ exitFailArgs) :
    validateRange id gpa = noError := by
  simp only [validateRange] at accepted ⊢
  split at accepted
  · exact absurd rfl accepted
  next known =>
  split at accepted
  · exact absurd rfl accepted
  next graded => rw [if_neg known, if_neg graded]

theorem switch_settled (newFd : Nat) (stack : Student) {k : Kernel} (sound : AllOrNothing k.script)
    (whole : studentRecordSize ∣ k.db.data.length) : Settled argv k.db.data (switch argv newFd stack k) := by
  simp only [switch]
  split
  next add =>
    split
    · exact settled_same rfl
    next six =>
    split
    · exact settled_same rfl
    next accepted =>
    have valid := valid_of_accepted accepted
    exact settled_commits (addStudent_commits sound whole valid ⟨add, not_not.mp six, valid, rfl⟩)
  split
  · exact settled_same (countDbRecords_data stack)
  split
  · split
    · exact settled_same rfl
    · exact settled_commits (delStudent_commits _ sound whole)
  split
  · split
    · exact settled_same rfl
    have unchanged := getStudent_data (k := k) (atoi (arg argv 2)) emptyStudentRecord stack
    split
    · exact settled_same unchanged
    split <;> exact settled_same unchanged
  split
  · exact settled_same (printDb_data stack)
  split
  next compress =>
    rcases compressDb_commits newFd stack with commits | ⟨kept, part, packed⟩
    · exact settled_commits commits
    · refine ⟨?_, fun _ other => absurd compress other⟩
      simpa only [finish, packed] using .packed kept part
  split
  · exact settled_commits zeroDb_commits
  · exact settled_same rfl

theorem exec_settled (line : Invocation) (disk : Disk) (sound : AllOrNothing line.script)
    (whole : studentRecordSize ∣ disk.db.length) : Settled line.argv disk.db (line.exec disk).1 := by
  simp only [Invocation.exec, main]
  split
  · exact settled_same rfl
  split
  · exact settled_same rfl
  simp only [openDb, next_first]
  by_cases failed : first (line.kernel disk).script = .fail
  · simp only [failed, if_true, Bool.false_eq_true, not_false_eq_true]
    exact settled_same rfl
  · simp only [failed, if_false, not_true_eq_false, Bool.false_eq_true]
    exact switch_settled (k := { (line.kernel disk).spent with db := ⟨disk.db, 0⟩ }) line.newFd line.stack
      sound.tail whole

end Runs

/-! ### Any runs of the program -/

/-- A file of whole records, none of them beyond the slot behind the last id,
and each of them empty or known. -/
structure Sound (known : Student → Prop) (data : List UInt8) : Prop where
  whole : studentRecordSize ∣ data.length
  short : data.length ≤ studentRecordSize * (maxStdId.toNat + 2)
  members : ∀ i, recordAt data i = emptyStudentRecord ∨ known (recordAt data i)

section Soundness
variable {known added : Student → Prop} {old new data : List UInt8}

theorem Sound.mono (sound : Sound known data) (more : ∀ record, known record → added record) : Sound added data :=
  ⟨sound.whole, sound.short, fun i => (sound.members i).imp_right (more _)⟩

theorem recordAt_cases (whole : studentRecordSize ∣ data.length) (i : Nat) :
    recordAt data i ∈ records data ∨ recordAt data i = emptyStudentRecord := by
  rcases Nat.lt_or_ge (studentRecordSize * i) data.length with starts | past
  · have inside := slot_inside whole starts
    refine .inl ?_
    simp only [records, slots, List.map_map, List.mem_map, List.mem_range, Function.comp_apply]
    refine ⟨i, ?_, rfl⟩
    simp only [studentRecordSize] at inside ⊢
    omega
  · exact .inr (recordAt_past_end past)

theorem sound_rewrites (sound : Sound known old) (rewrites : Rewrites added old new) :
    Sound (fun record => known record ∨ added record) new := by
  have before : Sound (fun record => known record ∨ added record) old := sound.mono fun _ => .inl
  cases rewrites with
  | same => exact before
  | slot i record here new =>
    refine ⟨whole_writeAt sound.whole (length_toBytes record) studentRecordSize_pos, ?_, fun j => ?_⟩
    · have short := sound.short
      have nonempty : record.toBytes ≠ [] := List.ne_nil_of_length_pos (by simp [studentRecordSize])
      rw [length_writeAt _ nonempty, length_toBytes]
      simp only [maxStdId, studentRecordSize] at here short ⊢
      omega
    · rw [recordAt_writeAt]
      by_cases same : j = i
      · subst same
        rw [Function.update_self]
        exact new.imp_right .inr
      · rw [Function.update_of_ne same]
        exact before.members j
  | packed kept part =>
    have wide : ∀ record ∈ kept.map Student.toBytes, record.length = studentRecordSize := by simp
    have whole := (slots_flatten wide studentRecordSize_pos).1
    rw [← List.flatMap_def] at whole
    refine ⟨whole, ?_, fun j => ?_⟩
    · have fewer := part.length_le
      have short := sound.short
      simp only [records, List.length_map, length_slots] at fewer
      rw [CompressTransparency.length_packed]
      simp only [studentRecordSize] at fewer short ⊢
      omega
    · rcases recordAt_cases whole j with member | empty
      · rw [records_flatMap] at member
        obtain ⟨i, found⟩ := List.mem_iff_getElem?.mp (part.subset member)
        rw [← records_getElem? found]
        exact before.members i
      · exact .inl empty
  | zeroed => exact ⟨by simp, by simp, fun j => .inl (recordAt_past_end (Nat.zero_le _))⟩

end Soundness

/-- One run after another, from the files as they are. -/
def runs (lines : List Invocation) (disk : Disk) : List Exit × Disk := Machine.run Invocation.exec lines disk

theorem runs_sound {known : Student → Prop} (lines : List Invocation) (disk : Disk) (start : Sound known disk.db)
    (sound : ∀ line ∈ lines, AllOrNothing line.script) :
    Sound (fun record => known record ∨ ∃ line ∈ lines, Adds line.argv record) (runs lines disk).2.db := by
  induction lines generalizing known disk with
  | nil => exact start.mono fun _ => .inl
  | cons line rest ih =>
    have after := sound_rewrites start (exec_settled line disk (sound line (by simp)) start.whole).rewrites
    refine (ih _ after fun other member => sound other (List.mem_cons_of_mem _ member)).mono fun record known => ?_
    rcases known with (known | adds) | ⟨other, member, adds⟩
    · exact .inl known
    · exact .inr ⟨line, by simp, adds⟩
    · exact .inr ⟨other, List.mem_cons_of_mem _ member, adds⟩

theorem runs_from_empty (lines : List Invocation) (tmp : List UInt8)
    (sound : ∀ line ∈ lines, AllOrNothing line.script) :
    Sound (fun record => ∃ line ∈ lines, Adds line.argv record) (runs lines ⟨[], tmp⟩).2.db := by
  have start : Sound (fun _ => False) [] := ⟨by simp, by simp, fun i => .inl (recordAt_past_end (Nat.zero_le _))⟩
  exact (runs_sound lines ⟨[], tmp⟩ start sound).mono fun _ known => known.resolve_left id

/-- After any command lines, compressions included, an initially empty database
is a file of whole records, at most two more than there are ids, each of them
empty or a student that one of the command lines added: so with an id and a GPA
in range, and names cut to their fields. -/
theorem file_holds_added_students (lines : List Invocation) (tmp : List UInt8)
    (sound : ∀ line ∈ lines, AllOrNothing line.script) :
    let db := (runs lines ⟨[], tmp⟩).2.db
    studentRecordSize ∣ db.length ∧ db.length ≤ studentRecordSize * (maxStdId.toNat + 2) ∧
      ∀ record ∈ records db, record = emptyStudentRecord ∨ ∃ line ∈ lines, Adds line.argv record := by
  have after := runs_from_empty lines tmp sound
  refine ⟨after.whole, after.short, fun record member => ?_⟩
  obtain ⟨i, found⟩ := List.mem_iff_getElem?.mp member
  rw [← records_getElem? found]
  exact after.members i

def addJohn : Invocation :=
  ⟨[text "sdbsc", text "-a", text "1", text "john", text "doe", text "345"], 4, emptyStudentRecord, []⟩

def compress : Invocation := ⟨[text "sdbsc", text "-x"], 4, emptyStudentRecord, [.full, .full, .full, .full, .fail]⟩

theorem john_compressed_sound : studentRecordSize ∣ (runs [addJohn, compress, addJohn] ⟨[], []⟩).2.db.length :=
  (file_holds_added_students [addJohn, compress, addJohn] [] (by decide)).1

/-- After any command lines, one more that fails leaves the database as it was,
unless it is a compression, which may fail with its copy in place. -/
theorem failed_run_keeps_file (lines : List Invocation) (tmp : List UInt8) (line : Invocation)
    (sound : ∀ other ∈ line :: lines, AllOrNothing other.script) (other : opt line.argv ≠ letter 'x')
    (failed : (line.exec (runs lines ⟨[], tmp⟩).2).1.code ≠ exitOk) :
    (line.exec (runs lines ⟨[], tmp⟩).2).2.db = (runs lines ⟨[], tmp⟩).2.db := by
  have before := runs_from_empty lines tmp fun other member => sound other (List.mem_cons_of_mem _ member)
  exact (exec_settled line _ (sound line (by simp)) before.whole).failed failed other

/-- A second student with the same id is refused. -/
theorem second_john_refused :
    (addJohn.exec (runs [addJohn] ⟨[], []⟩).2).2.db = (runs [addJohn] ⟨[], []⟩).2.db :=
  failed_run_keeps_file [addJohn] [] addJohn (by decide) (by decide +kernel) (by decide +kernel)

end SysProg.StudentFiles
