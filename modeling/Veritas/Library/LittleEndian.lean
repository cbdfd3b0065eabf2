import Mathlib.Data.Nat.Digits.Defs
import Mathlib.Tactic.NormNum
import Mathlib.Tactic.Ring

/-!
# Little-endian byte strings

A natural number written least significant byte first, and the number that such bytes spell.
-/

namespace LittleEndian

def toNat (bytes : List UInt8) : ℕ := Nat.ofDigits 256 (bytes.map UInt8.toNat)

/-- The low `width` bytes of a natural number. -/
def encode : ℕ → ℕ → List UInt8
  | 0, _ => []
  | width + 1, value => UInt8.ofNat value :: encode width (value / 256)

theorem toNat_cons (byte : UInt8) (bytes : List UInt8) :
    toNat (byte :: bytes) = 2 ^ 8 * toNat bytes + byte.toNat := by
  rw [toNat, List.map_cons, Nat.ofDigits_cons, add_comm]
  rfl

theorem toNat_lt (bytes : List UInt8) : toNat bytes < 2 ^ (bytes.length * 8) := by
  induction bytes with
  | nil => exact Nat.one_pos
  | cons byte bytes ih =>
      have hbyte := byte.toNat_lt
      rw [toNat_cons, List.length_cons, Nat.succ_mul, pow_add]
      omega

@[simp]
theorem length_encode (width value : ℕ) : (encode width value).length = width := by
  induction width generalizing value with
  | zero => rfl
  | succ width ih => rw [encode, List.length_cons, ih]

theorem encode_add (a b value : ℕ) :
    encode (a + b) value = encode a value ++ encode b (value / 256 ^ a) := by
  induction a generalizing value with
  | zero => rw [Nat.zero_add, pow_zero, Nat.div_one]; rfl
  | succ a ih =>
      rw [Nat.succ_add, encode, encode, ih, Nat.div_div_eq_div_mul, pow_succ']
      rfl

theorem encode_mod (width value : ℕ) : encode width (value % 256 ^ width) = encode width value := by
  induction width generalizing value with
  | zero => rfl
  | succ width ih =>
      have hbyte : UInt8.ofNat (value % 256 ^ (width + 1)) = UInt8.ofNat value := by
        rw [← UInt8.toNat_inj, UInt8.toNat_ofNat', UInt8.toNat_ofNat', pow_succ']
        exact Nat.mod_mod_of_dvd value (dvd_mul_right 256 _)
      rw [encode, encode, hbyte, pow_succ', Nat.mod_mul_right_div_self, ih]

theorem toNat_encode (width value : ℕ) : toNat (encode width value) = value % 256 ^ width := by
  induction width generalizing value with
  | zero => exact (Nat.mod_one value).symm
  | succ width ih =>
      rw [encode, toNat_cons, ih, UInt8.toNat_ofNat', pow_succ' 256, Nat.mod_mul, add_comm]
      rfl

end LittleEndian
