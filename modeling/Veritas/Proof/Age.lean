import Veritas.Library.Calendar
import Veritas.Proof.Comparators

/-!
# Calendar age in the circuit

On inputs in their declared ranges the comparators compute the order of months and days, at most one
of the two terms of `notHadBday` is one, and the age is an integer of 17 bits with its sign. So the
circuit accepts exactly the dates whose calendar age reaches the threshold.
-/

namespace Veritas

/-! ### Inputs -/

/-- The inputs of `AgeGte`, each in its range. -/
structure AgeInputs where
  dobYear : ℕ
  dobMonth : ℕ
  dobDay : ℕ
  salt : Fr
  nowYear : ℕ
  nowMonth : ℕ
  nowDay : ℕ
  threshold : ℕ
  dobYear_lt : dobYear < 2 ^ 16
  dobMonth_mem : 1 ≤ dobMonth ∧ dobMonth ≤ 12
  dobDay_mem : 1 ≤ dobDay ∧ dobDay ≤ 31
  nowYear_lt : nowYear < 2 ^ 16
  nowMonth_mem : 1 ≤ nowMonth ∧ nowMonth ≤ 12
  nowDay_mem : 1 ≤ nowDay ∧ nowDay ≤ 31
  threshold_lt : threshold < 2 ^ 16

namespace AgeInputs

variable (x : AgeInputs)

def birthDay : ℕ ×ₗ ℕ := toLex (x.dobMonth, x.dobDay)

def today : ℕ ×ₗ ℕ := toLex (x.nowMonth, x.nowDay)

/-- The birthdays up to the reference date, numbered from the birth. -/
def birthdays : Set ℤ := Calendar.birthdays x.dobYear x.birthDay (Calendar.date x.nowYear x.today)

def calendarAge : ℤ := (x.nowYear : ℤ) - x.dobYear - if x.today < x.birthDay then 1 else 0

theorem isGreatest_calendarAge : IsGreatest x.birthdays x.calendarAge :=
  Calendar.isGreatest_birthdays ..

theorem today_lt_birthDay_iff :
    x.today < x.birthDay ↔
      x.nowMonth < x.dobMonth ∨ x.nowMonth = x.dobMonth ∧ x.nowDay < x.dobDay :=
  Prod.Lex.toLex_lt_toLex

/-- The sum in the circuit is the disjunction, since its terms exclude each other. -/
theorem notHadBday_eq :
    ((if x.nowMonth < x.dobMonth then 1 else 0)
        + (if x.nowMonth = x.dobMonth then 1 else 0) * (if x.nowDay < x.dobDay then 1 else 0) : Fr)
      = if x.today < x.birthDay then 1 else 0 := by
  simp only [today_lt_birthDay_iff]
  rcases Nat.lt_trichotomy x.nowMonth x.dobMonth with hlt | heq | hgt
  · simp [hlt, hlt.ne]
  · simp [heq]
  · simp [hgt.ne', Nat.lt_asymm hgt]

theorem cast_calendarAge :
    ((x.calendarAge : ℤ) : Fr)
      = (x.nowYear : Fr) - x.dobYear - if x.today < x.birthDay then 1 else 0 := by
  rw [calendarAge]
  push_cast
  rfl

end AgeInputs

/-! ### The constraints -/

namespace AgeGte

/-- The inputs of the assignment are these. -/
structure Has (w : AgeGte Fr) (x : AgeInputs) : Prop where
  dobYear : w.dobYear = x.dobYear
  dobMonth : w.dobMonth = x.dobMonth
  dobDay : w.dobDay = x.dobDay
  salt : w.salt = x.salt
  nowYear : w.nowYear = x.nowYear
  nowMonth : w.nowMonth = x.nowMonth
  nowDay : w.nowDay = x.nowDay
  threshold : w.threshold = x.threshold

/-- The values the witness generator computes. -/
def ofInputs (lib : Circomlib Fr) (x : AgeInputs) : AgeGte Fr where
  dobYear := x.dobYear
  dobMonth := x.dobMonth
  dobDay := x.dobDay
  salt := x.salt
  nowYear := x.nowYear
  nowMonth := x.nowMonth
  nowDay := x.nowDay
  threshold := x.threshold
  commitment := lib.poseidon [(x.dobYear : Fr), (x.dobMonth : Fr), (x.dobDay : Fr), x.salt]
  ageGte := 1
  monthBefore := if x.nowMonth < x.dobMonth then 1 else 0
  monthEqual := if x.nowMonth = x.dobMonth then 1 else 0
  dayBefore := if x.nowDay < x.dobDay then 1 else 0
  notHadBday := if x.today < x.birthDay then 1 else 0
  age := ((x.calendarAge : ℤ) : Fr)

variable {lib : Circomlib Fr} (hlib : lib.Comparators) {w : AgeGte Fr} {x : AgeInputs}

include hlib

theorem Satisfied.notHadBday_eq (hw : w.Satisfied lib) (hx : w.Has x) :
    w.notHadBday = if x.today < x.birthDay then 1 else 0 := by
  have hmonths := x.nowMonth_mem
  have hmonths' := x.dobMonth_mem
  have hdays := x.nowDay_mem
  have hdays' := x.dobDay_mem
  have hbefore := hw.monthBefore
  have hequal := hw.monthEqual
  have hday := hw.dayBefore
  rw [hx.nowMonth, hx.dobMonth, hlib.lessThan_nat (by omega) (by omega) (by omega)] at hbefore
  rw [hx.nowMonth, hx.dobMonth, hlib.isEqual_nat (by omega) (by omega)] at hequal
  rw [hx.nowDay, hx.dobDay, hlib.lessThan_nat (by omega) (by omega) (by omega)] at hday
  rw [hw.notHadBday, hbefore, hequal, hday, x.notHadBday_eq]

theorem Satisfied.age_eq (hw : w.Satisfied lib) (hx : w.Has x) :
    w.age = ((x.calendarAge : ℤ) : Fr) := by
  rw [hw.age, hw.notHadBday_eq hlib hx, hx.nowYear, hx.dobYear, x.cast_calendarAge]

/-- The last comparison is the order of the integers. -/
theorem ageLt_iff (x : AgeInputs) :
    lib.lessThan 16 ((x.calendarAge : ℤ) : Fr) (x.threshold : Fr) 0
      ↔ (x.threshold : ℤ) ≤ x.calendarAge := by
  have hnow := x.nowYear_lt
  have hdob := x.dobYear_lt
  have hthreshold := x.threshold_lt
  have hp : 2 ^ 18 ≤ frModulus := by norm_num
  have hage : -(2 ^ 16 : ℤ) ≤ x.calendarAge ∧ x.calendarAge < 2 ^ 16 := by
    unfold AgeInputs.calendarAge
    split_ifs <;> omega
  have hcast (v : ℕ) (hv : v < 2 ^ 16) :
      ((x.calendarAge : ℤ) : Fr) - x.threshold = v ↔ x.calendarAge - x.threshold = v := by
    rw [← BitDecomposition.intCast_inj_of_lt (p := frModulus) (by omega)]
    push_cast
    rfl
  rw [hlib.lessThan, BitDecomposition.lessThan_zero_iff]
  constructor
  · rintro ⟨v, hv, hvalue⟩
    rw [hcast v hv] at hvalue
    omega
  · intro hle
    refine ⟨(x.calendarAge - x.threshold).toNat, by omega, ?_⟩
    rw [hcast _ (by omega)]
    omega

theorem ofInputs_satisfied (h : (x.threshold : ℤ) ≤ x.calendarAge) :
    (ofInputs lib x).Satisfied lib := by
  have hmonths := x.nowMonth_mem
  have hmonths' := x.dobMonth_mem
  have hdays := x.nowDay_mem
  have hdays' := x.dobDay_mem
  have hday (d : ℕ) (hd : d ≤ 31) : lib.lessThan 5 (d : Fr) 32 1 := by
    exact_mod_cast hlib.lessThan_of_lt (n := 5) (b := 32) (by omega) (Nat.lt_succ_of_le hd) le_rfl
  have hmonth (m : ℕ) (hm : m ≤ 12) : lib.lessThan 5 (m : Fr) 13 1 := by
    exact_mod_cast
      hlib.lessThan_of_lt (n := 5) (b := 13) (by omega) (Nat.lt_succ_of_le hm) (by omega)
  constructor
  case dayOk => exact hday x.dobDay hdays'.2
  case monthOk => exact hmonth x.dobMonth hmonths'.2
  case ndayOk => exact hday x.nowDay hdays.2
  case nmonOk => exact hmonth x.nowMonth hmonths.2
  case monthBefore => exact (hlib.lessThan_nat (by omega) (by omega) (by omega)).mpr rfl
  case monthEqual => exact (hlib.isEqual_nat (by omega) (by omega)).mpr rfl
  case dayBefore => exact (hlib.lessThan_nat (by omega) (by omega) (by omega)).mpr rfl
  case notHadBday => exact x.notHadBday_eq.symm
  case age => exact x.cast_calendarAge
  case ageLt => exact (ageLt_iff hlib x).mpr h
  case ageGte => rfl
  case commitment => rfl

end AgeGte

/-- **The circuit computes the calendar age.** On inputs in their ranges the constraints can be met
exactly when the calendar age is at least the threshold, and every way to meet them has the birthday
bit, that age, the flag and the commitment. -/
theorem ageGte_calendar_exact (lib : Circomlib Fr) (hlib : lib.Comparators) (x : AgeInputs) :
    ∃ age : ℤ, IsGreatest x.birthdays age ∧
      ((∃ w : AgeGte Fr, w.Has x ∧ w.Satisfied lib) ↔ (x.threshold : ℤ) ≤ age) ∧
      ∀ w : AgeGte Fr, w.Has x → w.Satisfied lib →
        (w.notHadBday = 0 ∨ w.notHadBday = 1) ∧ w.age = (age : Fr) ∧ w.ageGte = 1 ∧
          w.commitment
            = lib.poseidon [(x.dobYear : Fr), (x.dobMonth : Fr), (x.dobDay : Fr), x.salt] := by
  refine ⟨x.calendarAge, x.isGreatest_calendarAge, ⟨?_, ?_⟩, ?_⟩
  · rintro ⟨w, hx, hw⟩
    have hageLt := hw.ageLt
    rw [hw.age_eq hlib hx, hx.threshold] at hageLt
    exact (AgeGte.ageLt_iff hlib x).mp hageLt
  · intro hle
    exact ⟨AgeGte.ofInputs lib x, ⟨rfl, rfl, rfl, rfl, rfl, rfl, rfl, rfl⟩,
      AgeGte.ofInputs_satisfied hlib hle⟩
  · intro w hx hw
    refine ⟨?_, hw.age_eq hlib hx, hw.ageGte, ?_⟩
    · rw [hw.notHadBday_eq hlib hx]
      split_ifs
      · exact .inr rfl
      · exact .inl rfl
    · rw [hw.commitment, hx.dobYear, hx.dobMonth, hx.dobDay, hx.salt]

/-- The sample input of the repository: born 2003-06-15, seen on 2026-06-20, threshold 18. -/
def sampleInputs : AgeInputs where
  dobYear := 2003
  dobMonth := 6
  dobDay := 15
  salt := 777777777777777777
  nowYear := 2026
  nowMonth := 6
  nowDay := 20
  threshold := 18
  dobYear_lt := by decide
  dobMonth_mem := by decide
  dobDay_mem := by decide
  nowYear_lt := by decide
  nowMonth_mem := by decide
  nowDay_mem := by decide
  threshold_lt := by decide

theorem ageGte_calendar_exact_sample :
    ∃ w : AgeGte Fr, w.Has sampleInputs ∧ w.Satisfied (.summed [0]) := by
  obtain ⟨age, hgreatest, hiff, -⟩ := ageGte_calendar_exact (.summed [0])
    (Circomlib.standard_comparators ..) sampleInputs
  have hbirthday : (18 : ℤ) ∈ sampleInputs.birthdays :=
    Calendar.mem_birthdays_iff.mpr (.inl (by decide))
  exact hiff.mpr (hgreatest.2 hbirthday)

end Veritas
