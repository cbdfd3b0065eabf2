import Mathlib.Data.Nat.Digits.Defs
import Mathlib.Tactic.NormNum

/-!
# Little-endian words

A natural number as a list of 64-bit words, least significant first, and the four-word numbers.
-/

/-- The number that words spell, least significant first. -/
def Words.value (words : List UInt64) : ℕ := Nat.ofDigits (2 ^ 64) (words.map UInt64.toNat)

@[simp]
theorem Words.value_nil : value [] = 0 := rfl

@[simp]
theorem Words.value_cons (word : UInt64) (words : List UInt64) :
    value (word :: words) = word.toNat + 2 ^ 64 * value words := by
  rw [value, List.map_cons, Nat.ofDigits_cons]
  rfl

@[ext]
structure Limbs where
  l0 : UInt64
  l1 : UInt64
  l2 : UInt64
  l3 : UInt64
deriving DecidableEq

namespace Limbs

def toNat (x : Limbs) : ℕ := Words.value [x.l0, x.l1, x.l2, x.l3]

def ofNat (n : ℕ) : Limbs where
  l0 := UInt64.ofNat n
  l1 := UInt64.ofNat (n / 2 ^ 64)
  l2 := UInt64.ofNat (n / 2 ^ 128)
  l3 := UInt64.ofNat (n / 2 ^ 192)

theorem toNat_eq (x : Limbs) :
    x.toNat = x.l0.toNat + 2 ^ 64 * x.l1.toNat + 2 ^ 128 * x.l2.toNat + 2 ^ 192 * x.l3.toNat := by
  simp only [toNat, Words.value_cons, Words.value_nil]
  omega

theorem toNat_lt (x : Limbs) : x.toNat < 2 ^ 256 := by
  have h0 := x.l0.toNat_lt
  have h1 := x.l1.toNat_lt
  have h2 := x.l2.toNat_lt
  have h3 := x.l3.toNat_lt
  rw [toNat_eq]
  omega

theorem toNat_ofNat {n : ℕ} (h : n < 2 ^ 256) : (ofNat n).toNat = n := by
  rw [toNat_eq, ofNat]
  simp only [UInt64.toNat_ofNat']
  omega

theorem toNat_injective : Function.Injective toNat := by
  intro x y h
  have hx0 := x.l0.toNat_lt
  have hx1 := x.l1.toNat_lt
  have hx2 := x.l2.toNat_lt
  have hy0 := y.l0.toNat_lt
  have hy1 := y.l1.toNat_lt
  have hy2 := y.l2.toNat_lt
  rw [toNat_eq, toNat_eq] at h
  ext
  · omega
  · omega
  · omega
  · omega

theorem ofNat_toNat (x : Limbs) : ofNat x.toNat = x :=
  toNat_injective (toNat_ofNat x.toNat_lt)

end Limbs
