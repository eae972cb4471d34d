import SysProg.StudentRecord
import SysProg.Lib.SparseFile

/-! `sdbsc.c`: the student database on one open file. Every system call takes
the next outcome of a script, so that one definition of each function serves
runs in which all calls succeed in full (the empty script) and runs in which
any call fails or transfers less than it was asked to. -/
namespace SysProg.StudentDb
open CString SparseFile StudentRecord

/-! ### The kernel side -/

/-- What the kernel does with one system call. A `short` transfer moves at
most that many bytes; calls that transfer nothing treat it as success. -/
inductive Outcome where
  | full
  | short (count : Nat)
  | fail
  deriving DecidableEq

/-- The messages of `sdbsc.h`, named after their `M_` macros, and the two
lines of the record table. -/
inductive Message where
  | errDbCreate
  | errDbOpen
  | errDbRead
  | errDbWrite
  | errDbAddDup (id : Int32)
  | stdAdded (id : Int32)
  | stdDelMsg (id : Int32)
  | stdNotFndMsg (id : Int32)
  | dbCompressedOk
  | dbZeroOk
  | dbEmpty
  | dbRecordCnt (count : Int32)
  | printHdr
  | printRow (student : Student)
  deriving DecidableEq

/-- A file and the offset its descriptor stands at. -/
structure OpenFile where
  data : List UInt8
  pos : Nat
  deriving DecidableEq

/-- `db` is the file named `DB_FILE`, open as `fd`; `tmp` is `TMP_DB_FILE`. -/
structure Kernel where
  db : OpenFile
  tmp : OpenFile
  script : List Outcome
  console : List Message
  deriving DecidableEq

def Kernel.next (k : Kernel) : Outcome × Kernel :=
  (k.script.headD .full, { k with script := k.script.tail })

def Kernel.say (k : Kernel) (message : Message) : Kernel :=
  { k with console := k.console ++ [message] }

/-- How many of `count` bytes a call may move, `none` when it fails. -/
def Outcome.transfer (outcome : Outcome) (count : Nat) : Option Nat :=
  match outcome with
  | .full => some count
  | .short moved => some (min moved count)
  | .fail => none

/-- `lseek(fd, offset, SEEK_SET)`; a negative offset is `EINVAL`. -/
def lseek (offset : Int) (k : Kernel) : Int × Kernel :=
  let (outcome, k) := k.next
  if outcome = .fail ∨ offset < 0 then (-1, k)
  else (offset, { k with db := { k.db with pos := offset.toNat } })

/-- `read(fd, .., count)`: the result, the bytes moved and the kernel after it. -/
def read (count : Nat) (k : Kernel) : Int × List UInt8 × Kernel :=
  let (outcome, k) := k.next
  match outcome.transfer count with
  | none => (-1, [], k)
  | some moved =>
    let data := readAt k.db.data k.db.pos moved
    (data.length, data, { k with db := { k.db with pos := k.db.pos + data.length } })

def OpenFile.write (file : OpenFile) (bytes : List UInt8) : OpenFile where
  data := writeAt file.data file.pos bytes
  pos := file.pos + bytes.length

/-- `write(fd, bytes, ..)`. -/
def write (bytes : List UInt8) (k : Kernel) : Int × Kernel :=
  let (outcome, k) := k.next
  match outcome.transfer bytes.length with
  | none => (-1, k)
  | some moved => (moved, { k with db := k.db.write (bytes.take moved) })

/-- `write(temp_fd, bytes, ..)`. -/
def writeTmp (bytes : List UInt8) (k : Kernel) : Int × Kernel :=
  let (outcome, k) := k.next
  match outcome.transfer bytes.length with
  | none => (-1, k)
  | some moved => (moved, { k with tmp := k.tmp.write (bytes.take moved) })

/-! ### Return codes -/

def noError : Int := 0
def errDbFile : Int := -1
def errDbOp : Int := -2
def srchNotFound : Int := -3
def exitFailArgs : Int := 2

/-! ### Scanning the file -/

/-- Where a scan stopped: the last result of `read`, the record variable and
the variables of the loop body. -/
structure ScanEnd (σ : Type) where
  bytesRead : Int
  record : Student
  vars : σ
  kernel : Kernel

def scanFuel (body : Student → σ → ForInStep σ) : Nat → Student → σ → Kernel → ScanEnd σ
  | 0, record, vars, k => ⟨0, record, vars, k⟩
  | fuel + 1, record, vars, k =>
    let (bytesRead, data, k) := read studentRecordSize k
    if bytesRead ≤ 0 then ⟨bytesRead, record, vars, k⟩
    else
      let record := record.overlay data
      match body record vars with
      | .done vars => ⟨bytesRead, record, vars, k⟩
      | .yield vars => scanFuel body fuel record vars k

/-- `while ((bytesRead = read(fd, &record, STUDENT_RECORD_SIZE)) > 0) body`,
where the body leaves the loop by `done`. Every turn moves at least one byte,
so the fuel is never used up (`scan_unfold`). -/
def scan (body : Student → σ → ForInStep σ) (record : Student) (vars : σ) (k : Kernel) : ScanEnd σ :=
  scanFuel body (k.db.data.length - k.db.pos + 1) record vars k

/-! ### The functions of `sdbsc.c` -/

/-- `id * STUDENT_RECORD_SIZE` in `int` arithmetic, widened to `off_t`. -/
def recordOffset (id : Int32) : Int := (id * studentRecordSizeInt).toInt

/-- `stack` is whatever the local `record` holds before the first read, and
`s` is the caller's record, `none` for a NULL pointer. -/
def getStudent (id : Int32) (s : Option Student) (stack : Student) (k : Kernel) :
    Int × Option Student × Kernel :=
  if s = none then (errDbFile, s, k) else
  let (sought, k) := lseek 0 k
  if sought = -1 then (errDbFile, s, k.say .errDbRead) else
  let body (record : Student) (_ : Option Student) : ForInStep (Option Student) :=
    if record ≠ emptyStudentRecord then
      if record.id = id then .done (some record) else .yield none
    else .yield none
  let stop := scan body stack none k
  match stop.vars with
  | some record => (noError, some record, stop.kernel)
  | none =>
    if stop.bytesRead = -1 then (errDbFile, s, stop.kernel.say .errDbRead)
    else (srchNotFound, s, stop.kernel)

/-- The record `add_student` builds; all of the old one is overwritten. -/
def newRecord (id : Int32) (fname lname : List UInt8) (gpa : Int32) : Student where
  id := id
  fname := ⟨strncpy 24 fname, length_strncpy ..⟩
  lname := ⟨strncpy 32 lname, length_strncpy ..⟩
  gpa := gpa

def addStudent (id : Int32) (fname lname : List UInt8) (gpa : Int32) (k : Kernel) : Int × Kernel :=
  let newS := emptyStudentRecord
  let (sought, k) := lseek (recordOffset id) k
  if sought = -1 then (errDbFile, k.say .errDbRead) else
  let (bytesRead, data, k) := read studentRecordSize k
  if bytesRead = -1 then (errDbFile, k.say .errDbRead) else
  let newS := newS.overlay data
  if newS.id ≠ 0 then (errDbOp, k.say (.errDbAddDup id)) else
  let newS := { newS with
    id := id
    gpa := gpa
    fname := ⟨strncpy 24 fname, length_strncpy ..⟩
    lname := ⟨strncpy 32 lname, length_strncpy ..⟩ }
  -- no seek back: the write starts where the read above stopped
  let (written, k) := write newS.toBytes k
  if written = -1 then (errDbFile, k.say .errDbWrite) else
  (noError, k.say (.stdAdded newS.id))

def delStudent (id : Int32) (k : Kernel) : Int × Kernel :=
  let student := emptyStudentRecord
  let offset := recordOffset id
  let (sought, k) := lseek offset k
  if sought = -1 then (errDbFile, k.say .errDbRead) else
  let (bytesRead, data, k) := read studentRecordSize k
  if bytesRead = -1 then (errDbFile, k.say .errDbRead) else
  let student := student.overlay data
  if student.id = 0 then (errDbOp, k.say (.stdNotFndMsg id)) else
  let (sought, k) := lseek offset k
  if sought = -1 then (errDbFile, k.say .errDbRead) else
  let (bytesWritten, k) := write emptyStudentRecord.toBytes k
  if bytesWritten ≠ studentRecordSize then (errDbFile, k.say .errDbWrite) else
  (noError, k.say (.stdDelMsg id))

def countDbRecords (stack : Student) (k : Kernel) : Int × Kernel :=
  let (sought, k) := lseek 0 k
  if sought = -1 then (errDbFile, k.say .errDbRead) else
  let body (record : Student) (count : Int32) : ForInStep Int32 :=
    .yield (if record ≠ emptyStudentRecord then count + 1 else count)
  let stop := scan body stack 0 k
  if stop.bytesRead = -1 then (errDbFile, stop.kernel.say .errDbRead) else
  if 0 < stop.vars then (stop.vars.toInt, stop.kernel.say (.dbRecordCnt stop.vars))
  else (stop.vars.toInt, stop.kernel.say .dbEmpty)

def printDb (stack : Student) (k : Kernel) : Int × Kernel :=
  let (sought, k) := lseek 0 k
  if sought = -1 then (errDbFile, k.say .errDbRead) else
  let body (record : Student) (printed : List Message) : ForInStep (List Message) :=
    if record ≠ emptyStudentRecord then
      let header := if printed = [] then [.printHdr] else []
      .yield (printed ++ header ++ [.printRow record])
    else .yield printed
  let stop := scan body stack [] k
  let k := { stop.kernel with console := stop.kernel.console ++ stop.vars }
  let k := if stop.vars = [] then k.say .dbEmpty else k
  if stop.bytesRead = -1 then (errDbFile, k.say .errDbRead) else (noError, k)

/-- `open_db(DB_FILE, should_truncate)`; the descriptor itself is not modelled,
only whether there is one. -/
def openDb (shouldTruncate : Bool) (k : Kernel) : Bool × Kernel :=
  let (outcome, k) := k.next
  if outcome = .fail then (false, k.say .errDbOpen)
  else (true, { k with db := ⟨if shouldTruncate then [] else k.db.data, 0⟩ })

/-- The `-z` option of `main`: close the file and reopen it truncated. -/
def zeroDb (k : Kernel) : Int × Kernel :=
  let (opened, k) := openDb true k
  if opened then (noError, k.say .dbZeroOk) else (errDbFile, k)

def validateRange (id gpa : Int32) : Int :=
  if id.toInt < minStdId ∨ maxStdId < id.toInt then exitFailArgs
  else if gpa.toInt < minStdGpa ∨ maxStdGpa < gpa.toInt then exitFailArgs
  else noError

/-! ### Compression -/

/-- How the copy loop of `compress_db` ends: a write that fell short returns
from the function, any read other than a whole record leaves the loop. -/
structure CopyEnd where
  writeFailed : Bool
  kernel : Kernel

def copyFuel : Nat → Student → Kernel → CopyEnd
  | 0, _, k => ⟨false, k⟩
  | fuel + 1, student, k =>
    let (bytesRead, data, k) := read studentRecordSize k
    if bytesRead ≠ studentRecordSize then ⟨false, k⟩
    else
      let student := student.overlay data
      if student ≠ emptyStudentRecord then
        let (bytesWritten, k) := writeTmp student.toBytes k
        if bytesWritten ≠ studentRecordSize then ⟨true, k⟩ else copyFuel fuel student k
      else copyFuel fuel student k

/-- `while (read(fd, &student, sizeof(student_t)) == sizeof(student_t)) ..` -/
def copyRecords (student : Student) (k : Kernel) : CopyEnd :=
  copyFuel (k.db.data.length - k.db.pos + 1) student k

/-- `newFd` is the number the kernel gives to the reopened `DB_FILE`. After
the rename `DB_FILE` names what was written to `TMP_DB_FILE`. -/
def compressDb (newFd : Nat) (stack : Student) (k : Kernel) : Int × Kernel :=
  let (opened, k) := k.next
  if opened = .fail then (errDbFile, k.say .errDbOpen) else
  let k := { k with tmp := ⟨[], 0⟩ }
  let (sought, k) := lseek 0 k
  if sought = -1 then (errDbFile, k.say .errDbRead) else
  let copied := copyRecords stack k
  let k := copied.kernel
  if copied.writeFailed then (errDbFile, k.say .errDbWrite) else
  let (renamed, k) := k.next
  if renamed = .fail then (errDbFile, k.say .errDbCreate) else
  let k := { k with db := ⟨k.tmp.data, 0⟩ }
  let (reopened, k) := k.next
  if reopened = .fail then (errDbFile, k.say .errDbOpen) else
  (newFd, k.say .dbCompressedOk)

end SysProg.StudentDb
