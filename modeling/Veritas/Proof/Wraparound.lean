import Veritas.Proof.Comparators

/-!
# What the comparators let through

Without range assumptions a comparison only bounds a difference modulo the field order. A threshold
close to the order is passed by small ages, and a month may be one of the last nineteen residues,
since thirteen is smaller than the width of the comparison. The days have no such gap.
-/

namespace Veritas

/-! ### The age gates -/

/-- Some signature makes the credential pass. -/
def Signed (lib : Circomlib Fr) (age holderSecret : Fr) : Prop :=
  ∃ ax ay s r8x r8y, lib.eddsaPoseidonVerifier 1 ax ay s r8x r8y (lib.poseidon [age, holderSecret])

/-- Born on the reference date, in any month the range check lets through. -/
def AgeGte.newborn (lib : Circomlib Fr) (month threshold : Fr) : AgeGte Fr where
  dobYear := 0
  dobMonth := month
  dobDay := 1
  salt := 0
  nowYear := 0
  nowMonth := month
  nowDay := 1
  threshold := threshold
  commitment := lib.poseidon [0, month, 1, 0]
  ageGte := 1
  monthBefore := 0
  monthEqual := 1
  dayBefore := 0
  notHadBday := 0
  age := 0

def CommittedAgeGte.newborn (lib : Circomlib Fr) (threshold : Fr) : CommittedAgeGte Fr where
  age := 0
  salt := 0
  threshold := threshold
  commitment := lib.poseidon [0, 0]
  ageGte := 1
  ge := 1

section Newborn

variable {lib : Circomlib Fr} (hlib : lib.Comparators)

include hlib

theorem AgeGte.newborn_satisfied {month threshold : Fr} (hmonth : lib.lessThan 5 month 13 1)
    (hthreshold : (0 - threshold).val < 2 ^ 16) : (newborn lib month threshold).Satisfied lib := by
  have hday : lib.lessThan 5 1 32 1 := hlib.day_ok_iff.mpr (by decide)
  constructor
  case dayOk => exact hday
  case monthOk => exact hmonth
  case ndayOk => exact hday
  case nmonOk => exact hmonth
  case monthBefore => exact hlib.lessThan_self 5 month
  case monthEqual => exact hlib.isEqual.mpr (.inl ⟨rfl, rfl⟩)
  case dayBefore => exact hlib.lessThan_self 5 1
  case notHadBday =>
    change (0 : Fr) = 0 + 1 * 0
    rw [mul_zero, add_zero]
  case age =>
    change (0 : Fr) = 0 - 0 - 0
    rw [sub_zero, sub_zero]
  case ageLt => exact hlib.lessThan_zero_iff.mpr hthreshold
  case ageGte => rfl
  case commitment => rfl

theorem CommittedAgeGte.newborn_satisfied {threshold : Fr}
    (hthreshold : (0 - threshold).val < 2 ^ 16) : (newborn lib threshold).Satisfied lib :=
  ⟨hlib.greaterEqThan_one_iff.mpr hthreshold, rfl, rfl, rfl⟩

theorem CredentialAge.exists_satisfied {age holderSecret threshold : Fr}
    (hsigned : Signed lib age holderSecret) (hthreshold : (age - threshold).val < 2 ^ 16) :
    ∃ w : CredentialAge Fr, w.Satisfied lib ∧ w.age = age ∧ w.threshold = threshold := by
  obtain ⟨ax, ay, s, r8x, r8y, heddsa⟩ := hsigned
  exact ⟨_, ofSignature_satisfied hlib heddsa hthreshold, rfl, rfl⟩

end Newborn

/-- A small difference keeps the order unless the threshold is within its width of the modulus. -/
theorem val_le_of_sub_lt {age threshold : Fr} (hsub : (age - threshold).val < 2 ^ 16)
    (hwrap : threshold.val + 2 ^ 16 ≤ frModulus + age.val) : threshold.val ≤ age.val := by
  rcases BitDecomposition.val_sub_lt_iff.mp hsub with ⟨hle, -⟩ | ⟨-, hlt⟩
  · exact hle
  · omega

theorem sub_lt_of_wrap {age threshold : Fr}
    (hwrap : ¬ threshold.val + 2 ^ 16 ≤ frModulus + age.val) :
    age.val < threshold.val ∧ (age - threshold).val < 2 ^ 16 := by
  have hthreshold := threshold.val_lt
  have hbelow : age.val < threshold.val := by
    have hp : 2 ^ 16 ≤ frModulus := by norm_num
    omega
  exact ⟨hbelow, BitDecomposition.val_sub_lt_iff.mpr (.inr ⟨hbelow, by omega⟩)⟩

theorem newborn_wrap {threshold : Fr} (hwrap : ¬ threshold.val + 2 ^ 16 ≤ frModulus) :
    ¬ threshold.val ≤ (0 : Fr).val ∧ (0 - threshold).val < 2 ^ 16 := by
  have hzero : ¬ threshold.val + 2 ^ 16 ≤ frModulus + (0 : Fr).val := by
    rwa [ZMod.val_zero, Nat.add_zero]
  obtain ⟨hbelow, hsub⟩ := sub_lt_of_wrap hzero
  exact ⟨Nat.not_le_of_lt hbelow, hsub⟩

/-- **When an age gate keeps its threshold.** For the two gates without a signature, every
assignment has an age of at least the threshold exactly when the threshold is 2^16 away from the
modulus; for the signed one, exactly when no signed age lies behind it around the modulus. -/
theorem age_gate_sound_iff (lib : Circomlib Fr) (hlib : lib.Comparators) (threshold : Fr) :
    ((∀ w : CredentialAge Fr, w.Satisfied lib → w.threshold = threshold →
        threshold.val ≤ w.age.val) ↔
      ∀ age holderSecret, Signed lib age holderSecret →
        threshold.val + 2 ^ 16 ≤ frModulus + age.val) ∧
    ((∀ w : AgeGte Fr, w.Satisfied lib → w.threshold = threshold → threshold.val ≤ w.age.val) ↔
      threshold.val + 2 ^ 16 ≤ frModulus) ∧
    ((∀ w : CommittedAgeGte Fr, w.Satisfied lib → w.threshold = threshold →
        threshold.val ≤ w.age.val) ↔ threshold.val + 2 ^ 16 ≤ frModulus) := by
  refine ⟨⟨?_, ?_⟩, ⟨?_, ?_⟩, ⟨?_, ?_⟩⟩
  · intro hsound age holderSecret hsigned
    by_contra hwrap
    obtain ⟨hbelow, hsub⟩ := sub_lt_of_wrap hwrap
    obtain ⟨w, hw, hage, hthreshold⟩ := CredentialAge.exists_satisfied hlib hsigned hsub
    have hle := hsound w hw hthreshold
    rw [hage] at hle
    exact absurd hle (Nat.not_le_of_lt hbelow)
  · rintro hsigned w hw rfl
    have heddsa := hw.eddsa
    rw [hw.signedMsg] at heddsa
    exact val_le_of_sub_lt (hw.val_sub_lt hlib) (hsigned _ _ ⟨_, _, _, _, _, heddsa⟩)
  · intro hsound
    by_contra hwrap
    obtain ⟨hbelow, hsub⟩ := newborn_wrap hwrap
    have hmonth : lib.lessThan 5 1 13 1 := hlib.month_ok_iff.mpr (.inl (by decide))
    exact hbelow (hsound _ (AgeGte.newborn_satisfied hlib hmonth hsub) rfl)
  · rintro hthreshold w hw rfl
    exact val_le_of_sub_lt (hw.val_sub_lt hlib) (by omega)
  · intro hsound
    by_contra hwrap
    obtain ⟨hbelow, hsub⟩ := newborn_wrap hwrap
    exact hbelow (hsound _ (CommittedAgeGte.newborn_satisfied hlib hsub) rfl)
  · rintro hthreshold w hw rfl
    exact val_le_of_sub_lt (hw.val_sub_lt hlib) (by omega)

theorem age_gate_sound_eighteen :
    ¬ ∃ w : AgeGte Fr, w.Satisfied (.summed [0]) ∧ w.threshold = 18 ∧ w.age.val < 18 := by
  rintro ⟨w, hw, hthreshold, hage⟩
  have hsound := (age_gate_sound_iff (.summed [0]) (Circomlib.standard_comparators ..) 18).2.1.mpr
    (by decide) w hw hthreshold
  have heighteen : (18 : Fr).val = 18 := by decide
  omega

/-- Age zero passes the threshold `-1` in all three circuits. -/
theorem newborn_passes_wrapped_threshold :
    (∃ w : CredentialAge Fr, w.Satisfied (.summed [7]) ∧ w.threshold = -1 ∧ w.age = 0 ∧
      ¬ w.threshold.val ≤ w.age.val) ∧
    (∃ w : AgeGte Fr, w.Satisfied (.summed [7]) ∧ w.threshold = -1 ∧ w.age = 0 ∧
      ¬ w.threshold.val ≤ w.age.val) ∧
    ∃ w : CommittedAgeGte Fr, w.Satisfied (.summed [7]) ∧ w.threshold = -1 ∧ w.age = 0 ∧
      ¬ w.threshold.val ≤ w.age.val := by
  have hlib : (Circomlib.summed [7] : Circomlib Fr).Comparators := Circomlib.standard_comparators ..
  have hbelow : ¬ (-1 : Fr).val ≤ (0 : Fr).val := by decide
  have hsub : (0 - -1 : Fr).val < 2 ^ 16 := by decide
  have hmonth : (Circomlib.summed [7] : Circomlib Fr).lessThan 5 1 13 1 :=
    hlib.month_ok_iff.mpr (.inl (by decide))
  have hsigned : Signed (.summed [7]) (0 : Fr) 7 := ⟨0, 0, 0, 0, 0, List.mem_singleton.mpr rfl⟩
  obtain ⟨w, hw, hage, hthreshold⟩ := CredentialAge.exists_satisfied hlib hsigned hsub
  refine ⟨⟨w, hw, hthreshold, hage, by rwa [hthreshold, hage]⟩, ?_, ?_⟩
  · exact ⟨_, AgeGte.newborn_satisfied hlib hmonth hsub, rfl, rfl, hbelow⟩
  · exact ⟨_, CommittedAgeGte.newborn_satisfied hlib hsub, rfl, rfl, hbelow⟩

/-! ### Months and days -/

/-- **When the dates are real.** The days of a satisfying assignment are at most 31, and its months
are at most 12 exactly when neither is one of the last nineteen residues. -/
theorem date_ranges_iff (lib : Circomlib Fr) (hlib : lib.Comparators) (w : AgeGte Fr)
    (hw : w.Satisfied lib) :
    (w.dobMonth.val ≤ 12 ∧ w.nowMonth.val ≤ 12 ∧ w.dobDay.val ≤ 31 ∧ w.nowDay.val ≤ 31) ↔
      w.dobMonth.val + 19 < frModulus ∧ w.nowMonth.val + 19 < frModulus := by
  have hdobMonth := hlib.month_ok_iff.mp hw.monthOk
  have hnowMonth := hlib.month_ok_iff.mp hw.nmonOk
  have hdobDay := hlib.day_ok_iff.mp hw.dayOk
  have hnowDay := hlib.day_ok_iff.mp hw.ndayOk
  have hp : 31 < frModulus := by norm_num
  constructor
  · rintro ⟨hdob, hnow, -, -⟩
    constructor <;> omega
  · rintro ⟨hdob, hnow⟩
    exact ⟨by omega, by omega, hdobDay, hnowDay⟩

theorem newborn_zero_satisfied {month : Fr}
    (hmonth : month.val ≤ 12 ∨ frModulus ≤ month.val + 19) :
    (AgeGte.newborn (.summed [0]) month 0).Satisfied (.summed [0]) := by
  have hlib : (Circomlib.summed [0] : Circomlib Fr).Comparators := Circomlib.standard_comparators ..
  exact AgeGte.newborn_satisfied hlib (hlib.month_ok_iff.mpr hmonth) (by decide)

theorem date_ranges_june :
    (6 : Fr).val ≤ 12 ∧ (6 : Fr).val ≤ 12 ∧ (1 : Fr).val ≤ 31 ∧ (1 : Fr).val ≤ 31 :=
  (date_ranges_iff (.summed [0]) (Circomlib.standard_comparators ..)
    (AgeGte.newborn (.summed [0]) 6 0) (newborn_zero_satisfied (.inl (by decide)))).mpr
    (by decide)

/-- Both months may be minus one. -/
theorem wrapped_month_accepted :
    ∃ w : AgeGte Fr, w.Satisfied (.summed [0]) ∧ w.dobMonth = -1 ∧ w.nowMonth = -1 ∧
      ¬ w.dobMonth.val ≤ 12 ∧ ¬ w.nowMonth.val ≤ 12 :=
  ⟨AgeGte.newborn (.summed [0]) (-1) 0, newborn_zero_satisfied (.inr (by decide)), rfl, rfl,
    by decide, by decide⟩

end Veritas
