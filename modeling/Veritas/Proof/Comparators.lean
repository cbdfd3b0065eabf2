import Veritas.Circuits
import Veritas.Field

/-!
# Comparators over the scalar field

On numbers of at most 16 bits the comparators compute the order. Of arbitrary field elements a
comparison with a fixed outcome only bounds the difference, so an age gate bounds how far the age is
ahead of the threshold, and a range check against a constant below the width of the comparison also
passes at the top of the field.
-/

namespace Veritas

/-- The assignment of a holder who has a signature on the age. -/
def CredentialAge.ofSignature (lib : Circomlib Fr)
    (age holderSecret sigR8x sigR8y sigS issuerAx issuerAy threshold : Fr) : CredentialAge Fr where
  age := age
  holderSecret := holderSecret
  sigR8x := sigR8x
  sigR8y := sigR8y
  sigS := sigS
  issuerAx := issuerAx
  issuerAy := issuerAy
  threshold := threshold
  nullifier := lib.poseidon [holderSecret]
  signedMsg := lib.poseidon [age, holderSecret]
  ge := 1
  nf := lib.poseidon [holderSecret]

variable {lib : Circomlib Fr} (hlib : lib.Comparators)

include hlib

namespace Circomlib.Comparators

/-! ### Numbers in range -/

theorem lessThan_nat {n a b : ℕ} (hn : n ≤ 16) (ha : a < 2 ^ n) (hb : b ≤ 2 ^ n) {out : Fr} :
    lib.lessThan n (a : Fr) (b : Fr) out ↔ out = if a < b then 1 else 0 := by
  have hp : 2 ^ (n + 1) ≤ frModulus := by
    calc
      2 ^ (n + 1) ≤ 2 ^ 17 := Nat.pow_le_pow_right (by omega) (by omega)
      _ ≤ frModulus := by norm_num
  rw [hlib.lessThan]
  exact BitDecomposition.lessThan_natCast_iff hp ha hb

theorem lessThan_of_lt {n a b : ℕ} (hn : n ≤ 16) (hab : a < b) (hb : b ≤ 2 ^ n) :
    lib.lessThan n (a : Fr) (b : Fr) 1 := by
  rw [hlib.lessThan_nat hn (hab.trans_le hb) hb, if_pos hab]

theorem isEqual_nat {a b : ℕ} (ha : a < 2 ^ 16) (hb : b < 2 ^ 16) {out : Fr} :
    lib.isEqual (a : Fr) (b : Fr) out ↔ out = if a = b then 1 else 0 := by
  have hp : 2 ^ 16 ≤ frModulus := by norm_num
  have hcast : (a : Fr) = (b : Fr) ↔ a = b := by
    rw [ZMod.natCast_eq_natCast_iff', Nat.mod_eq_of_lt (ha.trans_le hp),
      Nat.mod_eq_of_lt (hb.trans_le hp)]
  rw [hlib.isEqual, ne_eq, hcast]
  by_cases hab : a = b <;> simp [hab]

/-! ### Any field elements -/

theorem greaterEqThan_one_iff {a b : Fr} :
    lib.greaterEqThan 16 a b 1 ↔ (a - b).val < 2 ^ 16 := by
  have hp : 2 ^ 16 ≤ frModulus := by norm_num
  rw [hlib.greaterEqThan, hlib.lessThan, BitDecomposition.lessThan_succ_iff,
    BitDecomposition.exists_natCast_iff hp]

theorem lessThan_zero_iff {a b : Fr} : lib.lessThan 16 a b 0 ↔ (a - b).val < 2 ^ 16 := by
  have hp : 2 ^ 16 ≤ frModulus := by norm_num
  rw [hlib.lessThan, BitDecomposition.lessThan_zero_iff, BitDecomposition.exists_natCast_iff hp]

theorem lessThan_self (n : ℕ) (a : Fr) : lib.lessThan n a a 0 := by
  rw [hlib.lessThan, BitDecomposition.lessThan_zero_iff]
  exact ⟨0, Nat.two_pow_pos n, by rw [sub_self, Nat.cast_zero]⟩

/-- The check of a month: thirteen is nineteen short of the width. -/
theorem month_ok_iff {month : Fr} :
    lib.lessThan 5 month 13 1 ↔ month.val ≤ 12 ∨ frModulus ≤ month.val + 19 := by
  have hp : 2 ^ 5 < frModulus := by norm_num
  have hconst := BitDecomposition.lessThan_natCast_one_iff (c := 13) hp (by omega) (x := month)
  rw [Nat.cast_ofNat] at hconst
  rw [hlib.lessThan, hconst]
  omega

/-- The check of a day has the full width. -/
theorem day_ok_iff {day : Fr} : lib.lessThan 5 day 32 1 ↔ day.val ≤ 31 := by
  have hp : 2 ^ 5 < frModulus := by norm_num
  have hconst := BitDecomposition.lessThan_natCast_one_iff (c := 32) hp (by omega) (x := day)
  have hday := day.val_lt
  rw [Nat.cast_ofNat] at hconst
  rw [hlib.lessThan, hconst]
  omega

end Circomlib.Comparators

/-! ### The age gates -/

theorem CredentialAge.Satisfied.val_sub_lt {w : CredentialAge Fr} (hw : w.Satisfied lib) :
    (w.age - w.threshold).val < 2 ^ 16 := by
  have hge := hw.ge
  rw [hw.ge_one] at hge
  exact hlib.greaterEqThan_one_iff.mp hge

theorem CredentialAge.ofSignature_satisfied
    {age holderSecret sigR8x sigR8y sigS issuerAx issuerAy threshold : Fr}
    (heddsa : lib.eddsaPoseidonVerifier 1 issuerAx issuerAy sigS sigR8x sigR8y
      (lib.poseidon [age, holderSecret])) (hthreshold : (age - threshold).val < 2 ^ 16) :
    (ofSignature lib age holderSecret sigR8x sigR8y sigS issuerAx issuerAy threshold).Satisfied
      lib where
  signedMsg := rfl
  eddsa := heddsa
  ge := hlib.greaterEqThan_one_iff.mpr hthreshold
  ge_one := rfl
  nf := rfl
  nullifier := rfl

theorem CommittedAgeGte.Satisfied.val_sub_lt {w : CommittedAgeGte Fr} (hw : w.Satisfied lib) :
    (w.age - w.threshold).val < 2 ^ 16 := by
  have hge := hw.ge
  rw [hw.ge_one] at hge
  exact hlib.greaterEqThan_one_iff.mp hge

theorem AgeGte.Satisfied.val_sub_lt {w : AgeGte Fr} (hw : w.Satisfied lib) :
    (w.age - w.threshold).val < 2 ^ 16 :=
  hlib.lessThan_zero_iff.mp hw.ageLt

end Veritas
