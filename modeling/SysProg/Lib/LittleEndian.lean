import Mathlib.Data.List.Basic
import Mathlib.Algebra.Group.Nat.Defs

/-! Little-endian integers as byte strings. A value and its bytes determine
each other at every width that is large enough to hold it. -/
namespace SysProg.LittleEndian

/-- The low `width` bytes of a value, least significant first. -/
def encode : Nat → Nat → List UInt8
  | 0, _ => []
  | width + 1, value => value.toUInt8 :: encode width (value / 256)

def decode : List UInt8 → Nat
  | [] => 0
  | byte :: bytes => byte.toNat + 256 * decode bytes

@[simp] theorem length_encode (width value : Nat) : (encode width value).length = width := by
  induction width generalizing value with
  | zero => rfl
  | succ width ih => simp [encode, ih]

theorem decode_encode {width value : Nat} (fits : value < 256 ^ width) :
    decode (encode width value) = value := by
  induction width generalizing value with
  | zero => simp at fits; simp [encode, decode, fits]
  | succ width ih =>
    have quotient : value / 256 < 256 ^ width := by
      rw [Nat.div_lt_iff_lt_mul (by decide), Nat.mul_comm]
      rwa [Nat.pow_succ, Nat.mul_comm] at fits
    simp only [encode, decode, ih quotient, Nat.toUInt8, UInt8.toNat_ofNat']
    omega

theorem encode_decode (bytes : List UInt8) : encode bytes.length (decode bytes) = bytes := by
  induction bytes with
  | nil => rfl
  | cons byte bytes ih =>
    have bound := byte.toNat_lt
    have low : (byte.toNat + 256 * decode bytes).toUInt8 = byte := by
      apply UInt8.toNat_inj.mp
      simp only [Nat.toUInt8, UInt8.toNat_ofNat']
      omega
    have high : (byte.toNat + 256 * decode bytes) / 256 = decode bytes := by omega
    simp only [List.length_cons, encode, decode, low, high, ih]

theorem decode_lt (bytes : List UInt8) : decode bytes < 256 ^ bytes.length := by
  induction bytes with
  | nil => simp [decode]
  | cons byte bytes ih =>
    have bound := byte.toNat_lt
    simp only [decode, List.length_cons, Nat.pow_succ]
    omega

/-! ### Two's complement 32-bit integers -/

def encodeInt32 (value : Int32) : List UInt8 := encode 4 value.toUInt32.toNat

def decodeInt32 (bytes : List UInt8) : Int32 := Int32.ofUInt32 (UInt32.ofNat (decode bytes))

@[simp] theorem length_encodeInt32 (value : Int32) : (encodeInt32 value).length = 4 := length_encode ..

@[simp] theorem decode_encodeInt32 (value : Int32) : decodeInt32 (encodeInt32 value) = value := by
  have bound : value.toUInt32.toNat < 256 ^ 4 := by simpa using value.toUInt32.toNat_lt
  simp [decodeInt32, encodeInt32, decode_encode bound]

theorem encode_decodeInt32 (wide : bytes.length = 4) : encodeInt32 (decodeInt32 bytes) = bytes := by
  have bound := decode_lt bytes
  rw [wide] at bound
  have value : (UInt32.ofNat (decode bytes)).toNat = decode bytes := by
    rw [UInt32.toNat_ofNat']
    exact Nat.mod_eq_of_lt (by simpa using bound)
  have back := encode_decode bytes
  rw [wide] at back
  simpa [encodeInt32, decodeInt32, value] using back

/-! ### Unsigned 16-bit integers -/

def encodeUInt16 (value : UInt16) : List UInt8 := encode 2 value.toNat

def decodeUInt16 (bytes : List UInt8) : UInt16 := UInt16.ofNat (decode bytes)

@[simp] theorem length_encodeUInt16 (value : UInt16) : (encodeUInt16 value).length = 2 := length_encode ..

@[simp] theorem decode_encodeUInt16 (value : UInt16) : decodeUInt16 (encodeUInt16 value) = value := by
  have bound : value.toNat < 256 ^ 2 := by simpa using value.toNat_lt
  rw [decodeUInt16, encodeUInt16, decode_encode bound, UInt16.ofNat_toNat]

end SysProg.LittleEndian
