import Mathlib.Data.Int.Basic
import Mathlib.Data.Prod.Lex
import Mathlib.Order.Bounds.Basic

/-!
# Calendar age

A date is a year and a day in the year, compared lexicographically; the days of a year are any
linear order. The age on a date is the number of the last birthday up to it, which is negative
before the birth.
-/

namespace Calendar

variable {Day : Type*} [LinearOrder Day]

def date (year : ℤ) (day : Day) : ℤ ×ₗ Day := toLex (year, day)

/-- The numbers of the birthdays up to a date. -/
def birthdays (birthYear : ℤ) (birthDay : Day) (now : ℤ ×ₗ Day) : Set ℤ :=
  {a | date (birthYear + a) birthDay ≤ now}

theorem mem_birthdays_iff {birthYear nowYear a : ℤ} {birthDay nowDay : Day} :
    a ∈ birthdays birthYear birthDay (date nowYear nowDay) ↔
      birthYear + a < nowYear ∨ birthYear + a = nowYear ∧ birthDay ≤ nowDay :=
  Prod.Lex.toLex_le_toLex

/-- **Age by year and day.** The last birthday is that of the current year, or of the year before
while the day of the birth is still to come. -/
theorem isGreatest_birthdays (birthYear nowYear : ℤ) (birthDay nowDay : Day) :
    IsGreatest (birthdays birthYear birthDay (date nowYear nowDay))
      (nowYear - birthYear - if nowDay < birthDay then 1 else 0) := by
  constructor
  · apply mem_birthdays_iff.mpr
    split_ifs with hday
    · left
      omega
    · right
      exact ⟨by omega, not_lt.mp hday⟩
  · intro a ha
    rcases mem_birthdays_iff.mp ha with hyear | ⟨hyear, hday⟩
    · split_ifs <;> omega
    · rw [if_neg (not_lt.mpr hday)]
      omega

end Calendar
