import Mathlib.Data.UInt
import SysProg.Lib.CString
import SysProg.Lib.LittleEndian

/-! `db.h`: the student record and its 64 bytes in memory and on disk. The
struct has no padding, so copying a record, comparing it with `memcmp` and
comparing its fields are the same thing. -/
namespace SysProg.StudentRecord
open CString LittleEndian

/-- A `char` array of a struct: its length is part of the type. -/
abbrev CharArray (n : Nat) := { bytes : List UInt8 // bytes.length = n }

/-- `student_t`. -/
structure Student where
  id : Int32
  fname : CharArray 24
  lname : CharArray 32
  gpa : Int32
  deriving DecidableEq

def minStdId : Int := 1
def maxStdId : Int := 100000
def minStdGpa : Int := 0
def maxStdGpa : Int := 500

/-- `STUDENT_RECORD_SIZE`, which is `sizeof(struct student)`. -/
def studentRecordSize : Nat := 64

/-- The same constant as the `int` that `id * STUDENT_RECORD_SIZE` multiplies by. -/
def studentRecordSizeInt : Int32 := 64

/-- The first `n` bytes of some memory, NULs where the memory is too short. -/
def charArray (n : Nat) (bytes : List UInt8) : CharArray n :=
  ⟨(bytes ++ List.replicate n 0).take n, by simp⟩

def emptyStudentRecord : Student where
  id := 0
  fname := charArray 24 []
  lname := charArray 32 []
  gpa := 0

namespace Student

def toBytes (s : Student) : List UInt8 :=
  encodeInt32 s.id ++ s.fname.1 ++ s.lname.1 ++ encodeInt32 s.gpa

def ofBytes (bytes : List UInt8) : Student where
  id := decodeInt32 (bytes.take 4)
  fname := charArray 24 (bytes.drop 4)
  lname := charArray 32 (bytes.drop 28)
  gpa := decodeInt32 ((bytes.drop 60).take 4)

/-- What a variable holds after a read of `data.length` bytes into it: the
rest of its memory keeps its old bytes. -/
def overlay (s : Student) (data : List UInt8) : Student :=
  ofBytes (data ++ s.toBytes.drop data.length)

end Student

theorem studentRecordSize_pos : 0 < studentRecordSize := by decide

theorem studentRecordSizeInt_toInt : studentRecordSizeInt.toInt = studentRecordSize := by decide

@[simp] theorem length_toBytes (s : Student) : s.toBytes.length = studentRecordSize := by
  simp [Student.toBytes, s.fname.2, s.lname.2, studentRecordSize]

private theorem charArray_append (field : CharArray n) (rest : List UInt8) :
    charArray n (field.1 ++ rest) = field := by
  apply Subtype.ext
  simp only [charArray, List.append_assoc]
  exact List.take_left' field.2

@[simp] theorem ofBytes_toBytes (s : Student) : Student.ofBytes s.toBytes = s := by
  obtain ⟨id, fname, lname, gpa⟩ := s
  have fnameWide := fname.2
  have lnameWide := lname.2
  simp only [Student.ofBytes, Student.toBytes, List.append_assoc, Student.mk.injEq]
  refine ⟨?_, ?_, ?_, ?_⟩
  · rw [List.take_left' (length_encodeInt32 id), decode_encodeInt32]
  · rw [List.drop_left' (length_encodeInt32 id), charArray_append]
  · rw [← List.append_assoc, List.drop_left' (by simp [fnameWide]), charArray_append]
  · rw [← List.append_assoc, ← List.append_assoc, List.drop_left' (by simp [fnameWide, lnameWide]),
      List.take_of_length_le (by simp), decode_encodeInt32]

private theorem charArray_exact (wide : n ≤ bytes.length) : (charArray n bytes).1 = bytes.take n := by
  simp [charArray, List.take_append_of_le_length wide]

theorem toBytes_ofBytes (wide : bytes.length = studentRecordSize) :
    (Student.ofBytes bytes).toBytes = bytes := by
  rw [studentRecordSize] at wide
  have id : encodeInt32 (decodeInt32 (bytes.take 4)) = bytes.take 4 :=
    encode_decodeInt32 (by simp [wide])
  have gpa : encodeInt32 (decodeInt32 ((bytes.drop 60).take 4)) = (bytes.drop 60).take 4 :=
    encode_decodeInt32 (by simp [wide])
  simp only [Student.toBytes, Student.ofBytes, id, gpa]
  rw [charArray_exact (by simp [wide]), charArray_exact (by simp [wide])]
  apply List.ext_getElem (by simp [wide])
  intro i _ _
  simp only [List.getElem_append, List.getElem_take, List.getElem_drop, List.length_append,
    List.length_take, List.length_drop, wide]
  split
  · split
    · split
      · rfl
      · congr 1; omega
    · congr 1; omega
  · congr 1; omega

/-- `memcmp` over whole records tells records apart exactly. -/
theorem toBytes_injective : Function.Injective Student.toBytes := by
  intro left right same
  rw [← ofBytes_toBytes left, same, ofBytes_toBytes]

theorem toBytes_empty : emptyStudentRecord.toBytes = List.replicate studentRecordSize 0 := by
  decide

@[simp] theorem ofBytes_zeros :
    Student.ofBytes (List.replicate studentRecordSize 0) = emptyStudentRecord := by
  rw [← toBytes_empty, ofBytes_toBytes]

/-- A full read replaces every byte of the variable. -/
theorem overlay_full (s : Student) (wide : data.length = studentRecordSize) :
    s.overlay data = Student.ofBytes data := by
  rw [Student.overlay, wide, List.drop_eq_nil_of_le (by simp), List.append_nil]

@[simp] theorem overlay_nil (s : Student) : s.overlay [] = s := by
  simp [Student.overlay]

end SysProg.StudentRecord
