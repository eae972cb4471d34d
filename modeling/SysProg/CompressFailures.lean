import Mathlib.Data.List.Perm.Subperm
import SysProg.StudentDbOps

/-! `compress_db` under every assignment of outcomes to its system calls. The
copy loop takes every result of `read` other than a whole record for the end
of the file, so a read that fails or falls short lets the rename replace the
database by the records copied so far. -/
namespace SysProg.CompressFailures
open CString SparseFile StudentRecord StudentDb

/-! ### What the copy loop does with a script of outcomes -/

/-- The call moves a whole record when there is one to move. -/
def MovesRecord (outcome : Outcome) : Prop := outcome.transfer studentRecordSize = some studentRecordSize

instance (outcome : Outcome) : Decidable (MovesRecord outcome) := by
  unfold MovesRecord; infer_instance

/-- The outcome the next call takes. -/
def first (script : List Outcome) : Outcome := script.headD .full

/-- The records the loop copies from a list of unread ones, and the outcomes
left after it; `none` when a write falls short. -/
def copyPlan : List Outcome → List Student → Option (List Student × List Outcome)
  | script, [] => some ([], script.tail)
  | script, record :: rest =>
    if ¬ MovesRecord (first script) then some ([], script.tail)
    else if ¬ occupied record then copyPlan script.tail rest
    else if ¬ MovesRecord (first script.tail) then none
    else (copyPlan script.tail.tail rest).map fun plan => (record :: plan.1, plan.2)

/-- Students lost by the loop: a read fails or falls short while a non-empty
record is unread, no write before it falls short, and the rename succeeds. -/
def losesStudents : List Outcome → List Student → Bool
  | _, [] => false
  | script, record :: rest =>
    if ¬ MovesRecord (first script) then (record :: rest).any occupied && first script.tail ≠ .fail
    else if ¬ occupied record then losesStudents script.tail rest
    else MovesRecord (first script.tail) && losesStudents script.tail.tail rest

theorem copyPlan_sublist {script left : List Outcome} {list kept : List Student}
    (plan : copyPlan script list = some (kept, left)) : kept.Sublist (list.filter occupied) := by
  induction list generalizing script kept with
  | nil =>
    cases plan
    exact List.nil_sublist _
  | cons record rest ih =>
    simp only [copyPlan] at plan
    split at plan
    · cases plan
      exact List.nil_sublist _
    split at plan
    · rename_i empty
      rw [List.filter_cons_of_neg (by simpa using empty)]
      exact ih plan
    · rename_i full
      rw [List.filter_cons_of_pos (by simpa using full)]
      split at plan
      · cases plan
      · obtain ⟨⟨kept', left'⟩, inner, same⟩ := Option.map_eq_some_iff.mp plan
        cases same
        exact (ih inner).cons_cons record

/-- The loop and the rename after it lose students exactly when the plan keeps
fewer records than there are and the rename goes through. -/
theorem losesStudents_iff {script left : List Outcome} {list kept : List Student}
    (plan : copyPlan script list = some (kept, left)) :
    losesStudents script list = true ↔ kept ≠ list.filter occupied ∧ first left ≠ .fail := by
  induction list generalizing script kept with
  | nil =>
    cases plan
    simp [losesStudents]
  | cons record rest ih =>
    simp only [copyPlan] at plan
    simp only [losesStudents]
    split at plan
    · rename_i short
      cases plan
      simp only [if_pos short, Bool.and_eq_true, decide_eq_true_eq, ne_eq, eq_comm (a := []),
        List.filter_eq_nil_iff, List.any_eq_true, not_forall, not_not, exists_prop]
    rename_i whole
    rw [if_neg whole]
    split at plan
    · rename_i empty
      rw [if_pos empty, List.filter_cons_of_neg (by simpa using empty)]
      exact ih plan
    rename_i full
    rw [if_neg full, List.filter_cons_of_pos (by simpa using full)]
    split at plan
    · cases plan
    · rename_i written
      obtain ⟨⟨kept', left'⟩, inner, same⟩ := Option.map_eq_some_iff.mp plan
      cases same
      simp only [not_not.mp written, decide_true, Bool.true_and, ih inner, ne_eq, List.cons.injEq, true_and]

theorem losesStudents_of_none {script : List Outcome} {list : List Student}
    (plan : copyPlan script list = none) : losesStudents script list = false := by
  induction list generalizing script with
  | nil => rfl
  | cons record rest ih =>
    simp only [copyPlan] at plan
    simp only [losesStudents]
    split at plan
    · cases plan
    rename_i whole
    rw [if_neg whole]
    split at plan
    · rename_i empty
      rw [if_pos empty]
      exact ih plan
    rename_i full
    rw [if_neg full]
    split at plan
    · rename_i short
      simp [short]
    · rw [ih (Option.map_eq_none_iff.mp plan), Bool.and_false]

/-! ### The loop follows its plan -/

theorem transfer_le {outcome : Outcome} (moves : outcome.transfer count = some moved) : moved ≤ count := by
  cases outcome with
  | full => cases moves; exact Nat.le_refl _
  | short bound => cases moves; exact Nat.min_le_right ..
  | fail => cases moves

/-- A read that cannot move a whole record is not taken for one. -/
theorem read_not_whole {k : Kernel}
    (short : ¬ MovesRecord (first k.script) ∨ k.db.data.length < k.db.pos + studentRecordSize) :
    (read studentRecordSize k).1 ≠ studentRecordSize ∧
      ∃ pos, (read studentRecordSize k).2.2 = k.spent.at pos := by
  simp only [StudentDb.read, next_eq]
  cases moves : (k.script.headD .full).transfer studentRecordSize with
  | none =>
    have failed : (-1 : Int) ≠ studentRecordSize := by decide
    exact ⟨failed, k.db.pos, rfl⟩
  | some moved =>
    refine ⟨?_, _, rfl⟩
    have bound := transfer_le moves
    simp only [length_readAt, spent_db, studentRecordSize] at *
    rcases short with partially | past
    · have : moved ≠ 64 := fun whole => partially (by rw [MovesRecord, first, studentRecordSize, moves, whole])
      omega
    · omega

theorem read_whole {k : Kernel} (moves : MovesRecord (first k.script)) (aligned : k.db.pos = studentRecordSize * i)
    (inside : studentRecordSize * i + studentRecordSize ≤ k.db.data.length) :
    read studentRecordSize k = ((studentRecordSize : Int), slot studentRecordSize k.db.data i,
      k.spent.at (studentRecordSize * (i + 1))) := by
  have moves : (k.script.headD .full).transfer studentRecordSize = some studentRecordSize := moves
  simp only [StudentDb.read, next_eq, moves, spent_db, aligned, readAt_slot inside, length_slot, Nat.mul_succ]
  rfl

theorem writeTmp_whole {k : Kernel} (moves : MovesRecord (first k.script)) (record : Student)
    (atEnd : k.tmp.pos = k.tmp.data.length) :
    writeTmp record.toBytes k = ((studentRecordSize : Int), { k.spent with
      tmp := ⟨k.tmp.data ++ record.toBytes, (k.tmp.data ++ record.toBytes).length⟩ }) := by
  have moves : (k.script.headD .full).transfer studentRecordSize = some studentRecordSize := moves
  have all : record.toBytes.take studentRecordSize = record.toBytes :=
    List.take_of_length_le (by simp)
  simp only [writeTmp, next_eq, length_toBytes, moves, all, spent_tmp, OpenFile.write, atEnd, writeAt_end,
    List.length_append]

theorem writeTmp_not_whole {k : Kernel} (short : ¬ MovesRecord (first k.script)) (record : Student) :
    (writeTmp record.toBytes k).1 ≠ studentRecordSize ∧ (writeTmp record.toBytes k).2.db = k.db := by
  simp only [writeTmp, next_eq, length_toBytes]
  cases moves : (k.script.headD .full).transfer studentRecordSize with
  | none =>
    have failed : (-1 : Int) ≠ studentRecordSize := by decide
    exact ⟨failed, rfl⟩
  | some moved =>
    have partially : moved ≠ studentRecordSize := fun whole => short (by rw [MovesRecord, first, moves, whole])
    exact ⟨fun same => partially (Int.ofNat.inj same), rfl⟩

/-- Where the copy loop stops, as its plan foresees. -/
def FollowsPlan (k : Kernel) (stop : CopyEnd) : Option (List Student × List Outcome) → Prop
  | none => stop.writeFailed = true ∧ stop.kernel.db.data = k.db.data
  | some (kept, left) => stop.writeFailed = false ∧ stop.kernel.db.data = k.db.data ∧
      stop.kernel.script = left ∧ stop.kernel.tmp.data = k.tmp.data ++ kept.flatMap Student.toBytes

/-- A turn that copies nothing leaves the rest of the plan as it is. -/
private theorem follows_skip {k next : Kernel} {stop : CopyEnd} (sameDb : next.db.data = k.db.data)
    (sameTmp : next.tmp = k.tmp) (follows : FollowsPlan next stop plan) : FollowsPlan k stop plan := by
  cases plan with
  | none => exact ⟨follows.1, follows.2.trans sameDb⟩
  | some plan => exact ⟨follows.1, follows.2.1.trans sameDb, follows.2.2.1, by rw [follows.2.2.2, sameTmp]⟩

/-- A turn that copies a record puts it before what the rest copies. -/
private theorem follows_copy {k next : Kernel} {stop : CopyEnd} (record : Student)
    (sameDb : next.db.data = k.db.data) (copied : next.tmp.data = k.tmp.data ++ record.toBytes)
    (follows : FollowsPlan next stop plan) :
    FollowsPlan k stop (plan.map fun plan => (record :: plan.1, plan.2)) := by
  cases plan with
  | none => exact ⟨follows.1, follows.2.trans sameDb⟩
  | some plan =>
    exact ⟨follows.1, follows.2.1.trans sameDb, follows.2.2.1, by
      rw [follows.2.2.2, copied, List.flatMap_cons, List.append_assoc]⟩

/-- A read that is not a whole record ends the loop. -/
theorem copyRecords_stops (student : Student) {k : Kernel}
    (short : ¬ MovesRecord (first k.script) ∨ k.db.data.length < k.db.pos + studentRecordSize) :
    FollowsPlan k (copyRecords student k) (some ([], k.script.tail)) := by
  obtain ⟨stops, pos, after⟩ := read_not_whole short
  rw [copyRecords_unfold]
  generalize read studentRecordSize k = result at stops after
  obtain ⟨bytesRead, data, final⟩ := result
  dsimp only at stops after ⊢
  rw [if_pos stops, after]
  exact ⟨rfl, rfl, rfl, by simp⟩

theorem copyRecords_plan (student : Student) {k : Kernel} (aligned : k.db.pos = studentRecordSize * i)
    (atEnd : k.tmp.pos = k.tmp.data.length) :
    FollowsPlan k (copyRecords student k) (copyPlan k.script ((records k.db.data).drop i)) := by
  generalize left : k.db.data.length / studentRecordSize - i = count
  induction count generalizing i student k with
  | zero =>
    have past : k.db.data.length < k.db.pos + studentRecordSize := by
      rw [aligned]
      simp only [studentRecordSize] at left ⊢
      omega
    rw [records_drop_end (by omega)]
    exact copyRecords_stops student (.inr past)
  | succ count ih =>
    have inside : studentRecordSize * i + studentRecordSize ≤ k.db.data.length := by
      simp only [studentRecordSize] at left ⊢
      omega
    rw [records_drop (by omega), copyPlan]
    by_cases moves : MovesRecord (first k.script)
    · rw [if_neg (not_not.mpr moves), copyRecords_unfold, read_whole moves aligned inside]
      simp only [ne_eq, not_true_eq_false, if_false, overlay_full student (length_slot k.db.data i)]
      generalize Student.ofBytes (slot studentRecordSize k.db.data i) = record
      by_cases full : occupied record = true
      · have nonempty : record ≠ emptyStudentRecord := by simpa [occupied] using full
        rw [if_neg (not_not.mpr full), if_pos nonempty]
        by_cases written : MovesRecord (first k.script.tail)
        · rw [if_neg (not_not.mpr written),
            writeTmp_whole (k := k.spent.at (studentRecordSize * (i + 1))) written record atEnd]
          simp only [not_true_eq_false, if_false]
          have later := ih record (i := i + 1) (k := { (k.spent.at (studentRecordSize * (i + 1))).spent with
            tmp := ⟨k.tmp.data ++ record.toBytes, (k.tmp.data ++ record.toBytes).length⟩ }) rfl rfl
            (by simp; omega)
          refine follows_copy record ?_ ?_ later
          · rfl
          · rfl
        · obtain ⟨stops, sameDb⟩ :=
            writeTmp_not_whole (k := k.spent.at (studentRecordSize * (i + 1))) written record
          rw [if_pos written]
          generalize writeTmp record.toBytes (k.spent.at (studentRecordSize * (i + 1))) = result at stops sameDb
          obtain ⟨bytesWritten, final⟩ := result
          dsimp only at stops sameDb ⊢
          rw [if_pos stops]
          exact ⟨rfl, by rw [sameDb]; rfl⟩
      · have blank : record = emptyStudentRecord := by simpa [occupied] using full
        rw [if_pos full, if_neg (not_not.mpr blank)]
        exact follows_skip rfl rfl
          (ih record (k := k.spent.at (studentRecordSize * (i + 1))) rfl atEnd (by simp; omega))
    · rw [if_pos moves]
      exact copyRecords_stops student (.inl moves)

/-! ### Every exit of `compress_db` -/

/-- Every non-empty record of the old file is in the new one, as often as it
was in the old. -/
def Keeps (old new : List UInt8) : Prop := ((records old).filter occupied).Subperm (records new)

/-- The exit loses nothing, and a descriptor is returned only for a file that
has every student. -/
def SafeExit (k : Kernel) (result : Int × Kernel) : Prop :=
  (result.2.db.data = k.db.data ∨ Keeps k.db.data result.2.db.data) ∧
  (0 ≤ result.1 → Keeps k.db.data result.2.db.data)

theorem records_flatMap (list : List Student) : records (list.flatMap Student.toBytes) = list := by
  have wide : ∀ record ∈ list.map Student.toBytes, record.length = studentRecordSize := by simp
  rw [List.flatMap_def, records, (slots_flatten wide studentRecordSize_pos).2, List.map_map]
  simp [Function.comp_def]

theorem next_first (k : Kernel) : k.next = (first k.script, k.spent) := rfl

theorem lseek_start (k : Kernel) :
    lseek 0 k = if first k.script = .fail then (-1, k.spent) else (0, k.spent.at 0) := by
  simp only [lseek, next_first, Int.lt_irrefl, or_false]
  rfl

/-- An exit that leaves the file alone and returns an error is safe. -/
theorem safeExit_unchanged {k : Kernel} {result : Int × Kernel} (same : result.2.db.data = k.db.data)
    (failed : result.1 = errDbFile) : SafeExit k result := by
  refine ⟨.inl same, fun opened => ?_⟩
  rw [failed] at opened
  exact absurd opened (by decide)

theorem compressDb_unopened (newFd : Nat) (stack : Student) {k : Kernel}
    (failed : first k.script = .fail ∨ first k.script.tail = .fail) :
    (compressDb newFd stack k).2.db.data = k.db.data ∧ (compressDb newFd stack k).1 = errDbFile := by
  by_cases opened : first k.script = .fail
  · simp only [compressDb, next_first, opened, if_true]
    exact ⟨rfl, trivial⟩
  · have unsought := failed.resolve_left opened
    simp only [compressDb, next_first, opened, if_false, lseek_start, spent_script, unsought, if_true]
    exact ⟨rfl, trivial⟩

/-- What `compress_db` leaves behind, as its plan foresees: the records kept,
unless a write or the rename fails. -/
theorem compressDb_plan (newFd : Nat) (stack : Student) {k : Kernel} (opened : first k.script ≠ .fail)
    (sought : first k.script.tail ≠ .fail) :
    match copyPlan k.script.tail.tail (records k.db.data) with
    | none => (compressDb newFd stack k).2.db.data = k.db.data ∧ (compressDb newFd stack k).1 = errDbFile
    | some (kept, left) =>
      if first left = .fail then
        (compressDb newFd stack k).2.db.data = k.db.data ∧ (compressDb newFd stack k).1 = errDbFile
      else (compressDb newFd stack k).2.db.data = kept.flatMap Student.toBytes ∧
        (compressDb newFd stack k).1 = if first left.tail = .fail then errDbFile else newFd := by
  have started : (0 : Int) ≠ -1 := by decide
  simp only [compressDb, next_first, opened, if_false, lseek_start, spent_script, sought, started]
  generalize begun : (Kernel.spent { k.spent with tmp := ⟨[], 0⟩, script := k.script.tail }).at 0 = start
  have follows := copyRecords_plan stack (i := 0) (k := start) (by rw [← begun]; rfl) (by rw [← begun]; rfl)
  rw [List.drop_zero, show start.script = k.script.tail.tail by rw [← begun]; rfl,
    show start.db.data = k.db.data by rw [← begun]; rfl] at follows
  have sameStart : start.db.data = k.db.data ∧ start.tmp.data = [] := by rw [← begun]; exact ⟨rfl, rfl⟩
  generalize copyPlan k.script.tail.tail (records k.db.data) = plan at follows ⊢
  generalize copyRecords stack start = stop at follows ⊢
  cases plan with
  | none =>
    obtain ⟨writeFailed, sameDb⟩ := follows
    simp only [writeFailed, if_true]
    exact ⟨sameDb.trans sameStart.1, trivial⟩
  | some plan =>
    obtain ⟨written, sameDb, left, copied⟩ := follows
    rw [sameStart.2, List.nil_append] at copied
    simp only [written, Bool.false_eq_true, if_false, left]
    by_cases renamed : first plan.2 = .fail
    · simp only [renamed, if_true]
      exact ⟨sameDb.trans sameStart.1, trivial⟩
    · simp only [renamed, if_false]
      by_cases reopened : first plan.2.tail = .fail
      · simp only [reopened, if_true]
        exact ⟨copied, trivial⟩
      · simp only [reopened, if_false]
        exact ⟨copied, trivial⟩

/-- A file that was rewritten with some of its students keeps all of them or
is not what it was. -/
theorem keeps_iff {list kept : List Student} {data : List UInt8} (holds : records data = list)
    (part : kept.Sublist (list.filter occupied)) :
    Keeps data (kept.flatMap Student.toBytes) ↔ kept = list.filter occupied := by
  simp only [Keeps, records_flatMap, holds]
  exact ⟨fun all => part.eq_of_length_le all.length_le, fun same => same ▸ List.Subperm.refl _⟩

theorem rewritten_differs {kept : List Student} {data : List UInt8}
    (part : kept.Sublist ((records data).filter occupied)) (same : kept.flatMap Student.toBytes = data) :
    kept = (records data).filter occupied := by
  have all : records data = kept := by rw [← same, records_flatMap]
  rw [all] at part ⊢
  exact (List.filter_eq_self.mpr fun record member => (List.mem_filter.mp (part.subset member)).2).symm

/-- `compress_db` is safe exactly when no read fails or falls short with a
student still unread and the rename nevertheless goes through. -/
theorem compressDb_safe_iff (newFd : Nat) (stack : Student) (k : Kernel) :
    SafeExit k (compressDb newFd stack k) ↔
      ¬ (first k.script ≠ .fail ∧ first k.script.tail ≠ .fail ∧
        losesStudents k.script.tail.tail (records k.db.data)) := by
  by_cases started : first k.script ≠ .fail ∧ first k.script.tail ≠ .fail
  swap
  · have unopened := compressDb_unopened newFd stack ((not_and_or.mp started).imp not_not.mp not_not.mp)
    exact ⟨fun _ lost => started ⟨lost.1, lost.2.1⟩, fun _ => safeExit_unchanged unopened.1 unopened.2⟩
  have planned := compressDb_plan newFd stack started.1 started.2
  simp only [started.1, started.2, ne_eq, not_false_eq_true, true_and]
  cases plan : copyPlan k.script.tail.tail (records k.db.data) with
  | none =>
    simp only [plan] at planned
    simp only [losesStudents_of_none plan, Bool.false_eq_true, not_false_eq_true, iff_true]
    exact safeExit_unchanged planned.1 planned.2
  | some outcome =>
    obtain ⟨kept, left⟩ := outcome
    have part := copyPlan_sublist plan
    simp only [plan] at planned
    rw [losesStudents_iff plan]
    by_cases renamed : first left = .fail
    · rw [if_pos renamed] at planned
      exact ⟨fun _ lost => lost.2 renamed, fun _ => safeExit_unchanged planned.1 planned.2⟩
    rw [if_neg renamed] at planned
    simp only [SafeExit, planned.1, keeps_iff rfl part]
    constructor
    · intro safe lost
      exact lost.1 (safe.1.elim (rewritten_differs part) id)
    · intro safe
      have all : kept = (records k.db.data).filter occupied := not_not.mp fun lost => safe ⟨lost, renamed⟩
      exact ⟨.inr all, fun _ => all⟩

/-- A database of one student whose first record cannot be read: the error is
taken for the end of the file, and the empty copy replaces the database. -/
def unreadableStudent : Kernel where
  db := ⟨(newRecord 1 (text "john") (text "doe") 345).toBytes, 0⟩
  tmp := ⟨[], 0⟩
  script := [.full, .full, .fail]
  console := []

/-- `compress_db` reports success and returns a descriptor of the empty file. -/
theorem unreadable_student_lost :
    ¬ SafeExit unreadableStudent (compressDb 4 emptyStudentRecord unreadableStudent) := by
  have reported : 0 ≤ (compressDb 4 emptyStudentRecord unreadableStudent).1 := by decide +kernel
  have students : ((records unreadableStudent.db.data).filter occupied).length = 1 := by decide +kernel
  have left : (records (compressDb 4 emptyStudentRecord unreadableStudent).2.db.data).length = 0 := by
    decide +kernel
  intro safe
  have kept := (safe.2 reported).length_le
  omega

end SysProg.CompressFailures
