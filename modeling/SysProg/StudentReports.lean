import SysProg.StudentProgram

/-! What the exit code of `sdbsc.c` promises. Each function returns a negative
code exactly when it says that something went wrong, whatever the system calls
do, and `main` turns that into its exit code. -/
namespace SysProg.StudentReports
open CString SparseFile Atoi StudentRecord StudentDb CompressFailures StudentProgram

/-! ### Messages -/

/-- The messages that report a failure. -/
def Fails : Message → Prop
  | .errDbCreate | .errDbOpen | .errDbRead | .errDbWrite | .errDbAddDup _ | .stdNotFndMsg _ => True
  | .stdAdded _ | .stdDelMsg _ | .dbCompressedOk | .dbZeroOk | .dbEmpty | .dbRecordCnt _ | .printHdr | .printRow _ =>
    False

instance : DecidablePred Fails := fun message => by
  cases message <;> unfold Fails <;> infer_instance

/-- A function has said something, and a failure exactly if its result is negative. -/
def Reports (k : Kernel) (result : Int × Kernel) : Prop :=
  ∃ said, result.2.console = k.console ++ said ∧ (result.1 < 0 ↔ ∃ message ∈ said, Fails message)

@[simp] theorem spent_console (k : Kernel) : k.spent.console = k.console := rfl
@[simp] theorem at_console (k : Kernel) : (k.at pos).console = k.console := rfl
@[simp] theorem say_console (k : Kernel) : (k.say message).console = k.console ++ [message] := rfl

/-- One message, and the result that goes with it. -/
theorem reports_say {k after : Kernel} {rc : Int} (quiet : after.console = k.console)
    (fits : rc < 0 ↔ Fails message) : Reports k (rc, after.say message) :=
  ⟨[message], by rw [say_console, quiet], by simpa using fits⟩

/-! ### System calls print nothing -/

section Calls
variable (k : Kernel)

theorem lseek_console (offset : Int) : (lseek offset k).2.console = k.console := by
  rcases lseek_cases offset k with failed | ⟨-, sought⟩
  · rw [failed, spent_console]
  · rw [sought, at_console, spent_console]

theorem read_console (count : Nat) : (read count k).2.2.console = k.console := by
  rcases read_cases count k with failed | ⟨moved, -, moves⟩
  · rw [failed, spent_console]
  · rw [moves, at_console, spent_console]

theorem write_console (bytes : List UInt8) : (write bytes k).2.console = k.console := by
  rcases write_cases bytes k with failed | ⟨moved, -, moves⟩
  · rw [failed, spent_console]
  · rw [moves]
    rfl

theorem writeTmp_console (bytes : List UInt8) : (writeTmp bytes k).2.console = k.console := by
  rcases writeTmp_cases bytes k with failed | ⟨moved, -, moves⟩
  · rw [failed, spent_console]
  · rw [moves]
    rfl

end Calls

/-- What reads keep, a scan keeps. -/
theorem scan_keeps (P : Kernel → Prop) (reads : ∀ k, P k → P (read studentRecordSize k).2.2)
    (body : Student → σ → ForInStep σ) (record : Student) (vars : σ) {k : Kernel} (holds : P k) :
    P (scan body record vars k).kernel := by
  rw [scan]
  generalize k.db.data.length - k.db.pos + 1 = fuel
  induction fuel generalizing record vars k with
  | zero => exact holds
  | succ fuel ih =>
    have next := reads k holds
    simp only [scanFuel]
    split
    · exact next
    · cases body (record.overlay (read studentRecordSize k).2.1) vars with
      | done vars => exact next
      | yield vars => exact ih _ vars next

theorem scan_console (body : Student → σ → ForInStep σ) (record : Student) (vars : σ) (k : Kernel) :
    (scan body record vars k).kernel.console = k.console :=
  scan_keeps (fun after => after.console = k.console) (fun after same => (read_console after _).trans same)
    body record vars rfl

/-- What each turn of a scan adds at most once. -/
theorem scan_grows (P : Nat → σ → Prop) (body : Student → σ → ForInStep σ)
    (done : ∀ n record vars after, P n vars → body record vars = .done after → P (n + 1) after)
    (yield : ∀ n record vars after, P n vars → body record vars = .yield after → P (n + 1) after)
    (record : Student) {vars : σ} (k : Kernel) (holds : P 0 vars) :
    ∃ n ≤ k.db.data.length + 1, P n (scan body record vars k).vars := by
  have all (fuel n : Nat) (record : Student) (vars : σ) (k : Kernel) (holds : P n vars) :
      ∃ m ≤ n + fuel, P m (scanFuel body fuel record vars k).vars := by
    induction fuel generalizing n record vars k with
    | zero => exact ⟨n, Nat.le_refl _, holds⟩
    | succ fuel ih =>
      simp only [scanFuel]
      split
      · exact ⟨n, Nat.le_add_right .., holds⟩
      · cases turn : body (record.overlay (read studentRecordSize k).2.1) vars with
        | done vars => exact ⟨n + 1, by omega, done n _ _ _ holds turn⟩
        | yield vars =>
          obtain ⟨m, few, reached⟩ := ih (n + 1) _ vars _ (yield n _ _ _ holds turn)
          exact ⟨m, by omega, reached⟩
  obtain ⟨n, few, reached⟩ := all (k.db.data.length - k.db.pos + 1) 0 record vars k holds
  exact ⟨n, by omega, reached⟩

/-- What the body of a scan keeps of its variables. -/
theorem scan_vars (P : σ → Prop) (body : Student → σ → ForInStep σ)
    (done : ∀ record vars after, P vars → body record vars = .done after → P after)
    (yield : ∀ record vars after, P vars → body record vars = .yield after → P after)
    (record : Student) {vars : σ} (k : Kernel) (holds : P vars) : P (scan body record vars k).vars := by
  obtain ⟨_, _, kept⟩ := scan_grows (fun _ => P) body (fun _ => done) (fun _ => yield) record k holds
  exact kept

theorem copyRecords_console (student : Student) (k : Kernel) : (copyRecords student k).kernel.console = k.console := by
  rw [copyRecords]
  generalize k.db.data.length - k.db.pos + 1 = fuel
  induction fuel generalizing student k with
  | zero => rfl
  | succ fuel ih =>
    have next := read_console k studentRecordSize
    simp only [copyFuel]
    split
    · exact next
    split
    · have written := (writeTmp_console _ (student.overlay (read studentRecordSize k).2.1).toBytes).trans next
      split
      · exact written
      · exact (ih _ _).trans written
    · exact (ih _ _).trans next

/-! ### The functions -/

section Functions
variable (k : Kernel)

theorem addStudent_reports (id : Int32) (fname lname : List UInt8) (gpa : Int32) :
    Reports k (addStudent id fname lname gpa k) := by
  have sought := lseek_console k (recordOffset id)
  simp only [addStudent]
  split
  · exact reports_say sought (by decide)
  have moved := (read_console _ studentRecordSize).trans sought
  split
  · exact reports_say moved (by decide)
  split
  · exact reports_say moved (by simp [Fails, errDbOp])
  split
  · exact reports_say ((write_console _ _).trans moved) (by decide)
  · exact reports_say ((write_console _ _).trans moved) (by simp [Fails, noError])

theorem delStudent_reports (id : Int32) : Reports k (delStudent id k) := by
  have sought := lseek_console k (recordOffset id)
  simp only [delStudent]
  split
  · exact reports_say sought (by decide)
  have moved := (read_console _ studentRecordSize).trans sought
  split
  · exact reports_say moved (by decide)
  split
  · exact reports_say moved (by simp [Fails, errDbOp])
  have back := (lseek_console _ (recordOffset id)).trans moved
  split
  · exact reports_say back (by decide)
  split
  · exact reports_say ((write_console _ _).trans back) (by decide)
  · exact reports_say ((write_console _ _).trans back) (by simp [Fails, noError])

theorem lseek_start_data (k : Kernel) : (lseek 0 k).2.db.data = k.db.data := by
  rw [lseek_start]
  split <;> rfl

theorem counted_turn (n : Nat) (record : Student) (count after : Int32) (counted : ∃ m ≤ n, count = Int32.ofNat m)
    (turn : ForInStep.yield (if record ≠ emptyStudentRecord then count + 1 else count) = .yield after) :
    ∃ m ≤ n + 1, after = Int32.ofNat m := by
  obtain ⟨m, few, rfl⟩ := counted
  cases turn
  split
  · exact ⟨m + 1, by omega, (Int32.ofNat_add m 1).symm⟩
  · exact ⟨m, by omega, rfl⟩

/-- The count is that of a file that fits into an `int`. -/
theorem countDbRecords_reports (stack : Student) (size : k.db.data.length + 1 < 2 ^ 31) :
    Reports k (countDbRecords stack k) := by
  have sought := lseek_console k 0
  simp only [countDbRecords]
  split
  · exact reports_say sought (by decide)
  have scanned (body : Student → Int32 → ForInStep Int32) :=
    (scan_console body stack 0 (lseek 0 k).2).trans sought
  split
  · exact reports_say (scanned _) (by decide)
  have none : ∃ m ≤ 0, (0 : Int32) = Int32.ofNat m := ⟨0, Nat.le_refl _, rfl⟩
  obtain ⟨n, few, m, fewer, counted⟩ := scan_grows (fun n (count : Int32) => ∃ m ≤ n, count = Int32.ofNat m)
    (fun record count => .yield (if record ≠ emptyStudentRecord then count + 1 else count))
    (by simp) counted_turn stack (lseek 0 k).2 none
  rw [lseek_start_data] at few
  have nonneg : ¬ (Int32.ofNat m).toInt < 0 := by
    rw [Int32.toInt_ofNat_of_lt (by omega)]
    omega
  rw [counted]
  split
  · exact reports_say (scanned _) (by simpa [Fails] using nonneg)
  · exact reports_say (scanned _) (by simpa [Fails] using nonneg)

/-- The body of the loop in `print_db`. -/
def printBody (record : Student) (printed : List Message) : ForInStep (List Message) :=
  if record ≠ emptyStudentRecord then
    .yield (printed ++ (if printed = [] then [.printHdr] else []) ++ [.printRow record])
  else .yield printed

theorem printBody_rows (record : Student) (printed after : List Message)
    (rows : ∀ message ∈ printed, ¬ Fails message)
    (turn : printBody record printed = .yield after) : ∀ message ∈ after, ¬ Fails message := by
  simp only [printBody] at turn
  split at turn
  · cases turn
    intro message member
    simp only [List.mem_append, List.mem_singleton] at member
    rcases member with (old | header) | rfl
    · exact rows message old
    · split at header
      · rw [List.mem_singleton.mp header]
        exact id
      · cases header
    · exact id
  · cases turn
    exact rows

theorem printDb_reports (stack : Student) : Reports k (printDb stack k) := by
  have sought := lseek_console k 0
  simp only [printDb]
  split
  · exact reports_say sought (by decide)
  have scanned := (scan_console printBody stack [] (lseek 0 k).2).trans sought
  have none : ∀ message ∈ ([] : List Message), ¬ Fails message := fun _ member => absurd member List.not_mem_nil
  have rows := scan_vars (fun printed => ∀ message ∈ printed, ¬ Fails message) printBody
    (by
      intro record printed after _ turn
      simp only [printBody] at turn
      split at turn <;> cases turn)
    printBody_rows stack (lseek 0 k).2 none
  unfold printBody at scanned rows
  generalize scan _ stack [] (lseek 0 k).2 = stop at scanned rows ⊢
  have quiet : ∀ message ∈ stop.vars ++ (if stop.vars = [] then [Message.dbEmpty] else []), ¬ Fails message := by
    intro message member
    rcases List.mem_append.mp member with row | empty
    · exact rows message row
    · split at empty
      · rw [List.mem_singleton.mp empty]
        exact id
      · cases empty
  have shown : (if stop.vars = [] then
        Kernel.say { stop.kernel with console := stop.kernel.console ++ stop.vars } .dbEmpty
      else { stop.kernel with console := stop.kernel.console ++ stop.vars }).console =
      k.console ++ (stop.vars ++ if stop.vars = [] then [.dbEmpty] else []) := by
    split <;> simp [scanned]
  split
  · refine ⟨(stop.vars ++ if stop.vars = [] then [.dbEmpty] else []) ++ [.errDbRead], ?_, ?_⟩
    · simp only [say_console, shown, List.append_assoc]
    · exact ⟨fun _ => ⟨.errDbRead, by simp, trivial⟩, fun _ => Int.negSucc_lt_zero 0⟩
  · refine ⟨_, shown, ?_⟩
    simpa [noError] using quiet

theorem zeroDb_reports : Reports k (zeroDb k) := by
  simp only [zeroDb, openDb, next_first]
  by_cases failed : first k.script = .fail
  · simp only [failed, if_true, Bool.false_eq_true, if_false]
    exact reports_say rfl (by decide)
  · simp only [failed, if_false, if_true]
    exact reports_say rfl (by decide)

theorem compressDb_reports (newFd : Nat) (stack : Student) : Reports k (compressDb newFd stack k) := by
  simp only [compressDb]
  split
  · exact reports_say rfl (by decide)
  have sought := lseek_console { k.next.2 with tmp := ⟨[], 0⟩ } 0
  split
  · exact reports_say sought (by decide)
  have copied := (copyRecords_console stack _).trans sought
  split
  · exact reports_say copied (by decide)
  split
  · exact reports_say copied (by decide)
  split
  · exact reports_say copied (by decide)
  · exact reports_say copied (by simp [Fails])

/-- What `get_student` leaves to `main` to report. -/
theorem getStudent_reports (id : Int32) (s stack : Student) :
    (∃ record after, getStudent id (some s) stack k = (noError, some record, after) ∧ record.id = id ∧
      after.console = k.console) ∨
    (∃ after, getStudent id (some s) stack k = (srchNotFound, some s, after) ∧ after.console = k.console) ∨
    ∃ after : Kernel, getStudent id (some s) stack k = (errDbFile, some s, after.say .errDbRead) ∧
      after.console = k.console := by
  have sought := lseek_console k 0
  simp only [getStudent, reduceCtorEq, if_false]
  split
  · exact .inr (.inr ⟨_, rfl, sought⟩)
  have scanned (body : Student → Option Student → ForInStep (Option Student)) :=
    (scan_console body stack none (lseek 0 k).2).trans sought
  have found := scan_vars (fun found : Option Student => ∀ record ∈ found, record.id = id)
    (fun record _ => if record ≠ emptyStudentRecord then if record.id = id then .done (some record) else .yield none
      else .yield none)
    (by
      intro record _ after _ turn record' member
      split at turn
      · split at turn
        · cases turn
          cases member
          assumption
        · cases turn
      · cases turn)
    (by
      intro record _ after _ turn record' member
      split at turn
      · split at turn
        · cases turn
        · cases turn
          cases member
      · cases turn
        cases member) stack (lseek 0 k).2 (fun _ member => absurd member (Option.not_mem_none _))
  have quiet := scanned fun record _ =>
    if record ≠ emptyStudentRecord then if record.id = id then .done (some record) else .yield none else .yield none
  generalize scan _ stack none (lseek 0 k).2 = stop at found quiet ⊢
  cases vars : stop.vars with
  | some record => exact .inl ⟨record, _, rfl, found record vars, quiet⟩
  | none =>
    dsimp only
    split
    · exact .inr (.inr ⟨_, rfl, quiet⟩)
    · exact .inr (.inl ⟨_, rfl, quiet⟩)

end Functions

/-! ### The exit code -/

def Complains : Printed → Prop
  | .usage | .errStdRng | .errStdPrint => True
  | .db message => Fails message

/-- The command line asks for the usage, which is then no complaint. -/
def AsksHelp (argv : List (List UInt8)) : Prop :=
  2 ≤ argv.length ∧ (arg argv 1).headD 0 = letter '-' ∧ opt argv = letter 'h'

instance (argv : List (List UInt8)) : Decidable (AsksHelp argv) := inferInstanceAs (Decidable (_ ∧ _ ∧ _))

/-- The run exits with a nonzero code if it complains and with zero if not. -/
def Honest (exit : Exit) : Prop := exit.code ≠ exitOk ↔ ∃ printed ∈ exit.printed, Complains printed

section Exits
variable {k after : Kernel}

/-- `main` prints nothing itself and takes the result of a function over. -/
theorem honest_result {result : Int × Kernel} (quiet : k.console = []) (reports : Reports k result) :
    Honest (finish (exitCode result.1) [] result.2) := by
  obtain ⟨said, console, fits⟩ := reports
  rw [quiet, List.nil_append] at console
  simp only [Honest, finish, console, List.append_nil, List.mem_map, exists_exists_and_eq_and, Complains, ← fits,
    exitCode]
  split
  · simpa [exitFailDb, exitOk]
  · simpa using Int.not_lt.mp ‹_›

/-- `main` complains by itself. -/
theorem honest_own {printed : Printed} (complains : Complains printed) (failed : code ≠ exitOk) :
    Honest (finish code [printed] k) :=
  ⟨fun _ => ⟨printed, by simp [finish], complains⟩, fun _ => failed⟩

theorem honest_said {message : Message} (fails : Fails message) (failed : code ≠ exitOk) :
    Honest (finish code [] (k.say message)) :=
  ⟨fun _ => ⟨.db message, by simp [finish], fails⟩, fun _ => failed⟩

theorem find_honest (id : Int32) (stack : Student) (quiet : k.console = []) (named : id ≠ 0) :
    Honest (match getStudent id (some emptyStudentRecord) stack k with
      | (rc, student, k) =>
        if rc = noError then finish exitOk (printStudent (student.getD emptyStudentRecord)) k
        else if rc = srchNotFound then finish exitFailDb [] (k.say (.stdNotFndMsg id))
        else finish exitFailDb [] (k.say .errDbRead)) := by
  have different : errDbFile ≠ noError ∧ errDbFile ≠ srchNotFound ∧ srchNotFound ≠ noError := by decide
  rcases getStudent_reports k id emptyStudentRecord stack with
    ⟨record, after, found, same, silent⟩ | ⟨after, missing, -⟩ | ⟨after, failed, -⟩
  · rw [← same] at named
    rw [quiet] at silent
    simp [found, Honest, finish, printStudent, named, silent, Complains, Fails]
  · simp only [missing, different.2.2, if_false, if_true]
    exact honest_said trivial (by decide)
  · simp only [failed, different.1, different.2.1, if_false]
    exact honest_said trivial (by decide)

theorem switch_honest (argv : List (List UInt8)) (newFd : Nat) (stack : Student) (quiet : k.console = [])
    (size : k.db.data.length + 1 < 2 ^ 31)
    (named : opt argv = letter 'f' → argv.length = 3 → atoi (arg argv 2) ≠ 0) :
    Honest (switch argv newFd stack k) := by
  have failArgs : exitFailArgs ≠ exitOk := by decide
  simp only [switch]
  split
  · split
    · exact honest_own trivial failArgs
    split
    · exact honest_own trivial failArgs
    · exact honest_result quiet (addStudent_reports k _ _ _ _)
  split
  · exact honest_result quiet (countDbRecords_reports k stack size)
  split
  · split
    · exact honest_own trivial failArgs
    · exact honest_result quiet (delStudent_reports k _)
  split
  next find =>
    split
    · exact honest_own trivial failArgs
    next three => exact find_honest _ stack quiet (named find (not_not.mp three))
  split
  · exact honest_result quiet (printDb_reports k stack)
  split
  · exact honest_result quiet (compressDb_reports k newFd stack)
  split
  · exact honest_result quiet (zeroDb_reports k)
  · exact honest_own trivial failArgs

end Exits

/-- Whatever the command line is and the system calls do: apart from a request
for help, the program exits with a nonzero code exactly when it complains. The
count of a file cut into single bytes has to fit an `int`, and looking for
student 0 is left out, who may be there after a read cut short. -/
theorem exit_code_honest (line : Invocation) (disk : Disk) (size : disk.db.length + 1 < 2 ^ 31)
    (named : opt line.argv = letter 'f' → line.argv.length = 3 → atoi (arg line.argv 2) ≠ 0) :
    Honest (line.exec disk).1 ↔ ¬ AsksHelp line.argv := by
  simp only [Invocation.exec, main]
  split
  next noOption =>
    refine ⟨fun _ help => ?_, fun _ => honest_own trivial (by decide)⟩
    rcases noOption with few | other
    · exact absurd help.1 (by omega)
    · exact other help.2.1
  next option =>
  rw [not_or, not_lt, not_not] at option
  split
  next help =>
    refine ⟨fun honest => absurd rfl (honest.mpr ⟨.usage, by simp [finish], trivial⟩), fun asked => ?_⟩
    exact absurd ⟨option.1, option.2, help⟩ asked
  next noHelp =>
  refine iff_of_true ?_ fun help => noHelp help.2.2
  simp only [openDb, next_first]
  by_cases failed : first (line.kernel disk).script = .fail
  · simp only [failed, if_true, Bool.false_eq_true, not_false_eq_true]
    exact honest_said trivial (by decide)
  · simp only [failed, if_false, not_true_eq_false, Bool.false_eq_true]
    exact switch_honest line.argv line.newFd line.stack rfl size named

/-- Deleting a student from an empty database. -/
def deleteSeven : Invocation := ⟨[text "sdbsc", text "-d", text "7"], 4, emptyStudentRecord, []⟩

theorem delete_missing_honest : Honest (deleteSeven.exec ⟨[], []⟩).1 :=
  (exit_code_honest deleteSeven ⟨[], []⟩ (by decide) (by decide +kernel)).mpr (by decide +kernel)

end SysProg.StudentReports
