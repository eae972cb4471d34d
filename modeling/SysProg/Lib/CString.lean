import Mathlib.Data.List.Basic
import Mathlib.Data.List.TakeWhile

/-! NUL-terminated strings in memory, and the parts of the C library that
walk them. A string is the run of bytes up to the first NUL; everything
behind that NUL is memory the string functions never look at. -/
namespace SysProg.CString

/-- The bytes of an ASCII literal, without its terminator. -/
def text (literal : String) : List UInt8 := literal.toList.map fun c => c.toNat.toUInt8

/-- The string that starts at the beginning of some memory. -/
def cString (memory : List UInt8) : List UInt8 := memory.takeWhile (· ≠ 0)

/-- `isspace` in the C locale: the blank and the five control characters
from tab to carriage return. -/
def isspace (c : UInt8) : Bool := c == 32 || (9 ≤ c && c ≤ 13)

/-- `strncpy(dst, src, n)`: at most `n` bytes, padded with NULs to exactly `n`. -/
def strncpy (n : Nat) (src : List UInt8) : List UInt8 :=
  let copied := (cString src).take n
  copied ++ List.replicate (n - copied.length) 0

/-- `strcpy(dst, src)` into memory of a known size; `none` when the string and
its terminator do not fit, where the real call overruns the memory. -/
def strcpy (dst src : List UInt8) : Option (List UInt8) :=
  if src.length + 1 ≤ dst.length then some (src ++ 0 :: dst.drop (src.length + 1)) else none

/-- `memcpy(dst, src, n)` of the `n` bytes of `src`. -/
def memcpy (dst src : List UInt8) : List UInt8 := src ++ dst.drop src.length

/-- `snprintf(dst, size, ..)` of a formatted text: the length of the whole text,
and `dst` with as much of it as leaves room for the NUL. -/
def snprintf (size : Nat) (dst formatted : List UInt8) : Nat × List UInt8 :=
  (formatted.length, if size = 0 then dst else memcpy dst (formatted.take (size - 1) ++ [0]))

/-- A byte sequence without NUL, the contents of some C string. -/
def NulFree (bytes : List UInt8) : Prop := ∀ byte ∈ bytes, byte ≠ 0

instance (bytes : List UInt8) : Decidable (NulFree bytes) := List.decidableBAll _ bytes

@[simp] theorem nulFree_nil : NulFree [] := by simp [NulFree]

@[simp] theorem nulFree_cons : NulFree (byte :: bytes) ↔ byte ≠ 0 ∧ NulFree bytes := by
  simp [NulFree]

@[simp] theorem nulFree_append : NulFree (left ++ right) ↔ NulFree left ∧ NulFree right := by
  simp [NulFree, or_imp, forall_and]

theorem nulFree_cString (memory : List UInt8) : NulFree (cString memory) := by
  intro byte member
  simpa using List.mem_takeWhile_imp member

theorem NulFree.take (free : NulFree bytes) : NulFree (bytes.take n) :=
  fun byte member => free byte (List.mem_of_mem_take member)

theorem NulFree.drop (free : NulFree bytes) : NulFree (bytes.drop n) :=
  fun byte member => free byte (List.mem_of_mem_drop member)

/-- A string ends exactly at its terminator, whatever memory follows. -/
theorem cString_terminated (free : NulFree bytes) : cString (bytes ++ 0 :: rest) = bytes := by
  induction bytes with
  | nil => simp [cString]
  | cons byte bytes ih =>
    obtain ⟨nonzero, restFree⟩ := nulFree_cons.mp free
    simpa [cString, nonzero] using ih restFree

/-- What `snprintf` has written is the beginning of the text. -/
theorem cString_snprintf (dst : List UInt8) (room : 0 < size) (free : NulFree formatted) :
    cString (snprintf size dst formatted).2 = formatted.take (size - 1) := by
  rw [snprintf, if_neg (Nat.pos_iff_ne_zero.mp room), memcpy, List.append_assoc, List.singleton_append]
  exact cString_terminated free.take

theorem cString_of_nulFree (free : NulFree bytes) : cString bytes = bytes := by
  apply List.takeWhile_eq_self_iff.mpr
  simpa [NulFree] using free

theorem length_cString_le (memory : List UInt8) : (cString memory).length ≤ memory.length :=
  (List.takeWhile_sublist _).length_le

/-- What white space in front of a text does not change. -/
theorem skip_spaces {f : List UInt8 → α} (skips : ∀ c rest, isspace c = true → f (c :: rest) = f rest)
    (text : List UInt8) : f (text.dropWhile isspace) = f text := by
  induction text with
  | nil => rfl
  | cons c rest ih =>
    by_cases space : isspace c = true
    · rw [List.dropWhile_cons_of_pos space, ih, skips c rest space]
    · rw [List.dropWhile_cons_of_neg space]

@[simp] theorem length_strncpy (n : Nat) (src : List UInt8) : (strncpy n src).length = n := by
  rw [strncpy, List.length_append, List.length_replicate, List.length_take]
  omega

/-- Cutting the source to the field first makes no difference. -/
theorem strncpy_cut (n : Nat) (src : List UInt8) : strncpy n ((cString src).take n) = strncpy n src := by
  have free : NulFree ((cString src).take n) := (nulFree_cString src).take
  simp only [strncpy, cString_of_nulFree free, List.take_take, Nat.min_self]

end SysProg.CString
