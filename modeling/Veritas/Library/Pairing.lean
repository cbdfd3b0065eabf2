import Mathlib.Algebra.BigOperators.Group.Finset.Basic
import Mathlib.Algebra.BigOperators.Intervals
import Mathlib.Data.ZMod.Basic
import Mathlib.GroupTheory.SpecificGroups.Cyclic.Basic

/-!
# Pairings of groups of prime order

Two groups of the same prime order are paired into a third, bilinearly and not trivially. Every
non-zero element generates its group, so the pairing with a fixed non-zero element is injective, and
a linear form whose coefficients are non-zero group elements changes when one of its scalars does.
-/

namespace Pairing

variable {p : ℕ} [Fact p.Prime]

section PrimeOrder

variable {G : Type*} [AddCommGroup G]

theorem nsmul_val_injective (hcard : Nat.card G = p) {a : G} (ha : a ≠ 0) {s t : ZMod p}
    (h : s.val • a = t.val • a) : s = t := by
  have hzero : p • a = 0 := by
    rw [← hcard]
    exact card_nsmul_eq_zero'
  have horder : addOrderOf a = p := addOrderOf_eq_prime hzero ha
  have hs : s.val ∈ Set.Iio (addOrderOf a) := by
    rw [horder]
    exact s.val_lt
  have ht : t.val ∈ Set.Iio (addOrderOf a) := by
    rw [horder]
    exact t.val_lt
  exact ZMod.val_injective p (nsmul_injOn_Iio_addOrderOf hs ht h)

/-- Two points of a linear form that differ in one coordinate at most have different values, unless
they are the same point or the coefficient vanishes. -/
theorem eq_of_linear_form_eq (hcard : Nat.card G = p) (coefficient : ℕ → G) {n j : ℕ} (hj : j < n)
    (hne : coefficient j ≠ 0) {s t : ℕ → ZMod p} (hagree : ∀ i, i ≠ j → s i = t i)
    (h : ∑ i ∈ Finset.range n, (s i).val • coefficient i
      = ∑ i ∈ Finset.range n, (t i).val • coefficient i) : s j = t j := by
  have hmem : j ∈ Finset.range n := Finset.mem_range.mpr hj
  rw [← Finset.sum_erase_add _ _ hmem, ← Finset.sum_erase_add _ _ hmem] at h
  have hrest : ∑ i ∈ (Finset.range n).erase j, (s i).val • coefficient i
      = ∑ i ∈ (Finset.range n).erase j, (t i).val • coefficient i := by
    refine Finset.sum_congr rfl fun i hi => ?_
    rw [hagree i (Finset.ne_of_mem_erase hi)]
  rw [hrest] at h
  exact nsmul_val_injective hcard hne (add_left_cancel h)

end PrimeOrder

/-- A bilinear map that is not constant. -/
structure Bilinear (G₁ G₂ GT : Type*) [AddCommGroup G₁] [AddCommGroup G₂] [CommGroup GT] where
  e : G₁ → G₂ → GT
  add_left : ∀ a b c, e (a + b) c = e a c * e b c
  add_right : ∀ a b c, e a (b + c) = e a b * e a c
  nondegenerate : ∃ a b, e a b ≠ 1

namespace Bilinear

variable {G₁ G₂ GT : Type*} [AddCommGroup G₁] [AddCommGroup G₂] [CommGroup GT]
  (pairing : Bilinear G₁ G₂ GT)

theorem zero_left (b : G₂) : pairing.e 0 b = 1 := by
  have h := pairing.add_left 0 0 b
  rw [add_zero] at h
  exact mul_eq_left.mp h.symm

theorem zero_right (a : G₁) : pairing.e a 0 = 1 := by
  have h := pairing.add_right a 0 0
  rw [add_zero] at h
  exact mul_eq_left.mp h.symm

theorem nsmul_left (n : ℕ) (a : G₁) (b : G₂) : pairing.e (n • a) b = pairing.e a b ^ n := by
  induction n with
  | zero => rw [zero_nsmul, pairing.zero_left, pow_zero]
  | succ n ih => rw [succ_nsmul, pairing.add_left, ih, pow_succ]

theorem nsmul_right (n : ℕ) (a : G₁) (b : G₂) : pairing.e a (n • b) = pairing.e a b ^ n := by
  induction n with
  | zero => rw [zero_nsmul, pairing.zero_right, pow_zero]
  | succ n ih => rw [succ_nsmul, pairing.add_right, ih, pow_succ]

theorem neg_left (a : G₁) (b : G₂) : pairing.e (-a) b = (pairing.e a b)⁻¹ := by
  rw [eq_inv_iff_mul_eq_one, ← pairing.add_left, neg_add_cancel, pairing.zero_left]

theorem ne_one (hcard₁ : Nat.card G₁ = p) (hcard₂ : Nat.card G₂ = p) {a : G₁} {b : G₂}
    (ha : a ≠ 0) (hb : b ≠ 0) : pairing.e a b ≠ 1 := by
  intro hone
  obtain ⟨x, y, hxy⟩ := pairing.nondegenerate
  obtain ⟨m, rfl⟩ : x ∈ AddSubmonoid.multiples a := mem_multiples_of_prime_card hcard₁ ha
  obtain ⟨n, rfl⟩ : y ∈ AddSubmonoid.multiples b := mem_multiples_of_prime_card hcard₂ hb
  apply hxy
  change pairing.e (m • a) (n • b) = 1
  rw [pairing.nsmul_left, pairing.nsmul_right, hone, one_pow, one_pow]

theorem left_injective (hcard₁ : Nat.card G₁ = p) (hcard₂ : Nat.card G₂ = p) {b : G₂} (hb : b ≠ 0)
    {a a' : G₁} (h : pairing.e a b = pairing.e a' b) : a = a' := by
  by_contra hne
  have hdiff : a + -a' ≠ 0 := by
    intro hzero
    exact hne (add_neg_eq_zero.mp hzero)
  apply pairing.ne_one hcard₁ hcard₂ hdiff hb
  rw [pairing.add_left, pairing.neg_left, h, mul_inv_cancel]

end Bilinear

end Pairing
