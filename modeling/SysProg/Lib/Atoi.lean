import Mathlib.Data.UInt
import SysProg.Lib.CString

/-! `atoi`: the number at the beginning of a string, and no report of what is
not one. The digits are read as a `long`, which stops at its limits, and the
low 32 bits of it are the result. -/
namespace SysProg.Atoi
open CString

def isdigit (c : UInt8) : Bool := 48 ≤ c && c ≤ 57

/-- The value of decimal digits. -/
def magnitude (digits : List UInt8) : Nat :=
  digits.foldl (fun value digit => 10 * value + (digit.toNat - 48)) 0

def longMax : Int := 2 ^ 63 - 1
def longMin : Int := -2 ^ 63

/-- `strtol(string, NULL, 10)`. -/
def strtol (string : List UInt8) : Int :=
  match string.dropWhile isspace with
  | 45 :: rest => max longMin (-(magnitude (rest.takeWhile isdigit) : Int))
  | 43 :: rest => min longMax (magnitude (rest.takeWhile isdigit))
  | rest => min longMax (magnitude (rest.takeWhile isdigit))

/-- `atoi(string)`. -/
def atoi (string : List UInt8) : Int32 := Int32.ofInt (strtol string)

/-! ### Printed numbers -/

theorem digit_of_mem {n : Nat} {digit : Char} (member : digit ∈ (toString n).toList) :
    48 ≤ digit.toNat ∧ digit.toNat ≤ 57 := by
  have isOne := Nat.isDigit_of_mem_toDigits (by decide) (by decide) (Nat.toList_repr (n := n) ▸ member)
  simp only [Char.isDigit, Bool.and_eq_true, decide_eq_true_eq] at isOne
  exact ⟨UInt32.le_iff_toNat_le.mp isOne.1, UInt32.le_iff_toNat_le.mp isOne.2⟩

theorem isdigit_text {n : Nat} : ∀ c ∈ text (toString n), isdigit c = true := by
  intro c member
  obtain ⟨digit, isOne, rfl⟩ := List.mem_map.mp member
  obtain ⟨low, high⟩ := digit_of_mem isOne
  simp [isdigit, UInt8.le_iff_toNat_le]
  omega

/-- The digits that are printed of a number have that number as their value. -/
theorem magnitude_text (n : Nat) : magnitude (text (toString n)) = n := by
  have bytes : ∀ c ∈ (toString n).toList, c.toNat < 256 := by
    intro c member
    have := (digit_of_mem member).2
    omega
  have valued : ∀ cs : List Char, (∀ c ∈ cs, c.toNat < 256) → ∀ value,
      (cs.map fun c => c.toNat.toUInt8).foldl (fun value digit => 10 * value + (digit.toNat - 48)) value =
        Nat.ofDigitChars 10 cs value := by
    intro cs bytes
    induction cs with
    | nil => simp
    | cons c cs ih =>
      obtain ⟨byte, bytes⟩ := List.forall_mem_cons.mp bytes
      intro value
      simp only [List.map_cons, List.foldl_cons, Nat.ofDigitChars_cons, ih bytes]
      simp [Nat.mod_eq_of_lt byte]
  rw [magnitude, text, valued _ bytes, Nat.toString_eq_repr, Nat.toList_repr]
  exact Nat.ofDigitChars_toDigits (by decide) (by decide)

theorem strtol_digits {string : List UInt8} (digits : ∀ c ∈ string, isdigit c = true) :
    strtol string = min longMax (magnitude string) := by
  have all : string.takeWhile isdigit = string := List.takeWhile_eq_self_iff.mpr digits
  cases string with
  | nil => simp [strtol]
  | cons first rest =>
    have isOne := digits first (List.mem_cons_self ..)
    simp only [isdigit, Bool.and_eq_true, decide_eq_true_eq, UInt8.le_iff_toNat_le] at isOne
    have noSpace : isspace first = false := by
      simp [isspace, UInt8.le_iff_toNat_le, ← UInt8.toNat_inj]
      simp at isOne
      omega
    rw [strtol, List.dropWhile_cons, noSpace]
    split
    · rename_i same
      cases same
      simp at isOne
    · rename_i same
      cases same
      simp at isOne
    · simpa using congrArg (fun run => min longMax (magnitude run : Int)) all

/-- `atoi` reads back what `%d` prints. -/
theorem atoi_text {n : Nat} (fits : n < 2 ^ 31) : (atoi (text (toString n))).toInt = n := by
  rw [atoi, strtol_digits isdigit_text, magnitude_text, longMax, min_eq_right (by omega), Int32.toInt_ofInt]
  exact Int.bmod_eq_of_le (by simp [Int32.size]) (by simp only [Int32.size]; omega)

end SysProg.Atoi
