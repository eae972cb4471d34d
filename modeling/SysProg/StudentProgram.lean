import SysProg.CompressFailures
import SysProg.Lib.Atoi

/-! `main` of `sdbsc.c`: one run of the program for each command line, on the
file that the runs before it have left. -/
namespace SysProg.StudentProgram
open CString SparseFile Atoi StudentRecord StudentDb CompressFailures

/-! ### The program -/

def exitOk : Int := 0
def exitFailDb : Int := 1

/-- What a run prints: the usage, the two messages of `main` and
`print_student`, and those of the other functions. -/
inductive Printed where
  | usage
  | errStdRng
  | errStdPrint
  | db (message : Message)
  deriving DecidableEq

structure Exit where
  code : Int
  printed : List Printed
  kernel : Kernel

/-- `exit(exit_code)` with what has been printed up to then. -/
def finish (exitCode : Int) (own : List Printed) (k : Kernel) : Exit :=
  ⟨exitCode, k.console.map .db ++ own, k⟩

/-- `argv[i]`, which is only looked at where there is one. -/
def arg (argv : List (List UInt8)) (i : Nat) : List UInt8 := argv.getD i []

/-- `*(argv[1] + 1)`, the terminator if the argument is a dash. -/
def opt (argv : List (List UInt8)) : UInt8 := (arg argv 1).getD 1 0

def letter (c : Char) : UInt8 := c.toNat.toUInt8

/-- `if (rc < 0) exit_code = EXIT_FAIL_DB`. -/
def exitCode (rc : Int) : Int := if rc < 0 then exitFailDb else exitOk

/-- `print_student` of the record that was found. -/
def printStudent (s : Student) : List Printed :=
  if s.id = 0 then [.errStdPrint] else [.db .printHdr, .db (.printRow s)]

/-- The `switch` of `main`, on the open file. `stack` is what the local record
of a scan holds before its first read and `newFd` the number of the descriptor
that `compress_db` opens. -/
def switch (argv : List (List UInt8)) (newFd : Nat) (stack : Student) (k : Kernel) : Exit :=
  if opt argv = letter 'a' then
    if argv.length ≠ 6 then finish exitFailArgs [.usage] k
    else
      let id := atoi (arg argv 2)
      let gpa := atoi (arg argv 5)
      if validateRange id gpa = exitFailArgs then finish exitFailArgs [.errStdRng] k
      else
        let (rc, k) := addStudent id (arg argv 3) (arg argv 4) gpa k
        finish (exitCode rc) [] k
  else if opt argv = letter 'c' then
    let (rc, k) := countDbRecords stack k
    finish (exitCode rc) [] k
  else if opt argv = letter 'd' then
    if argv.length ≠ 3 then finish exitFailArgs [.usage] k
    else
      let (rc, k) := delStudent (atoi (arg argv 2)) k
      finish (exitCode rc) [] k
  else if opt argv = letter 'f' then
    if argv.length ≠ 3 then finish exitFailArgs [.usage] k
    else
      let id := atoi (arg argv 2)
      let (rc, student, k) := getStudent id (some emptyStudentRecord) stack k
      if rc = noError then finish exitOk (printStudent (student.getD emptyStudentRecord)) k
      else if rc = srchNotFound then finish exitFailDb [] (k.say (.stdNotFndMsg id))
      else finish exitFailDb [] (k.say .errDbRead)
  else if opt argv = letter 'p' then
    let (rc, k) := printDb stack k
    finish (exitCode rc) [] k
  else if opt argv = letter 'x' then
    let (fd, k) := compressDb newFd stack k
    finish (exitCode fd) [] k
  else if opt argv = letter 'z' then
    let (rc, k) := zeroDb k
    finish (exitCode rc) [] k
  else finish exitFailArgs [.usage] k

def main (argv : List (List UInt8)) (newFd : Nat) (stack : Student) (k : Kernel) : Exit :=
  if argv.length < 2 ∨ (arg argv 1).headD 0 ≠ letter '-' then finish 1 [.usage] k
  else if opt argv = letter 'h' then finish exitOk [.usage] k
  else
    let (opened, k) := openDb false k
    if ¬ opened then finish exitFailDb [] k else switch argv newFd stack k

/-! ### Runs of the program -/

/-- The two files between runs. -/
structure Disk where
  db : List UInt8
  tmp : List UInt8

/-- A run: its command line, and what the outside decides. -/
structure Invocation where
  argv : List (List UInt8)
  newFd : Nat
  stack : Student
  script : List Outcome

def Invocation.kernel (line : Invocation) (disk : Disk) : Kernel :=
  ⟨⟨disk.db, 0⟩, ⟨disk.tmp, 0⟩, line.script, []⟩

def Invocation.exec (line : Invocation) (disk : Disk) : Exit × Disk :=
  let exit := main line.argv line.newFd line.stack (line.kernel disk)
  (exit, ⟨exit.kernel.db.data, exit.kernel.tmp.data⟩)

end SysProg.StudentProgram
