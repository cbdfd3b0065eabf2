import Mathlib.Algebra.BigOperators.Intervals
import Mathlib.Algebra.Field.ZMod
import Mathlib.Data.ZMod.Basic
import Mathlib.Tactic.LinearCombination

/-!
# Bit decompositions in a ring

A constraint system bounds a field element by decomposing it: it asks for elements that are each
zero or one and whose weighted sum is the element. Comparison is decomposition of a shifted
difference, whose top bit is the borrow. What such a decomposition says is that the element is the
image of a small natural number.
-/

namespace BitDecomposition

variable {R : Type*} [CommRing R]

structure Num2Bits (n : ℕ) (x : R) (bits : ℕ → R) : Prop where
  isBit : ∀ i < n, bits i * (bits i - 1) = 0
  sum : ∑ i ∈ Finset.range n, bits i * 2 ^ i = x

/-- The output of the `n`-bit comparison: one minus the top bit of `a + 2 ^ n - b`. -/
def LessThan (n : ℕ) (a b out : R) : Prop :=
  ∃ bits, Num2Bits (n + 1) (a + 2 ^ n - b) bits ∧ out = 1 - bits n

/-! ### Every small number has a decomposition -/

def binaryDigits (v : ℕ) (i : ℕ) : R := ((v / 2 ^ i % 2 : ℕ) : R)

theorem binaryDigits_isBit (v i : ℕ) :
    (binaryDigits v i : R) * (binaryDigits v i - 1) = 0 := by
  rcases Nat.mod_two_eq_zero_or_one (v / 2 ^ i) with hzero | hone
  · rw [binaryDigits, hzero, Nat.cast_zero, zero_mul]
  · rw [binaryDigits, hone, Nat.cast_one, sub_self, mul_zero]

theorem sum_binaryDigits (v n : ℕ) :
    ∑ i ∈ Finset.range n, (binaryDigits v i : R) * 2 ^ i = ((v % 2 ^ n : ℕ) : R) := by
  induction n with
  | zero => simp [Nat.mod_one]
  | succ n ih =>
      calc
        ∑ i ∈ Finset.range (n + 1), (binaryDigits v i : R) * 2 ^ i
            = ((v % 2 ^ n : ℕ) : R) + ((v / 2 ^ n % 2 : ℕ) : R) * 2 ^ n := by
          rw [Finset.sum_range_succ, ih, binaryDigits]
        _ = ((v % 2 ^ n + 2 ^ n * (v / 2 ^ n % 2) : ℕ) : R) := by
          push_cast
          rw [mul_comm]
        _ = ((v % 2 ^ (n + 1) : ℕ) : R) := by
          rw [Nat.mod_pow_succ]

theorem num2Bits_binaryDigits {v n : ℕ} (hv : v < 2 ^ n) :
    Num2Bits n (v : R) (binaryDigits v) where
  isBit i _ := binaryDigits_isBit v i
  sum := by rw [sum_binaryDigits, Nat.mod_eq_of_lt hv]

theorem LessThan.of_lt {n a b : ℕ} (hab : a < b) (hclose : b ≤ a + 2 ^ n) :
    LessThan n (a : R) (b : R) 1 := by
  have hvalue : (a : R) + 2 ^ n - b = ((a + 2 ^ n - b : ℕ) : R) := by
    rw [Nat.cast_sub hclose]
    push_cast
    rfl
  have hlt : a + 2 ^ n - b < 2 ^ n := by omega
  refine ⟨binaryDigits (a + 2 ^ n - b), ?_, ?_⟩
  · rw [hvalue]
    exact num2Bits_binaryDigits (hlt.trans (Nat.pow_lt_pow_right one_lt_two n.lt_succ_self))
  · rw [binaryDigits, Nat.div_eq_of_lt hlt, Nat.zero_mod, Nat.cast_zero, sub_zero]

/-! ### What a decomposition says -/

variable [IsDomain R]

theorem eq_zero_or_eq_one {b : R} (h : b * (b - 1) = 0) : b = 0 ∨ b = 1 := by
  rcases mul_eq_zero.mp h with hzero | hone
  · exact .inl hzero
  · exact .inr (sub_eq_zero.mp hone)

theorem exists_sum_eq_natCast {n : ℕ} {bits : ℕ → R}
    (hbit : ∀ i < n, bits i * (bits i - 1) = 0) :
    ∃ v : ℕ, v < 2 ^ n ∧ ∑ i ∈ Finset.range n, bits i * 2 ^ i = (v : R) := by
  induction n with
  | zero => exact ⟨0, Nat.one_pos, by simp⟩
  | succ n ih =>
      obtain ⟨v, hv, hvalue⟩ := ih fun i hi => hbit i (by omega)
      rw [Finset.sum_range_succ, hvalue, pow_succ]
      rcases eq_zero_or_eq_one (hbit n (by omega)) with hzero | hone
      · exact ⟨v, by omega, by rw [hzero, zero_mul, add_zero]⟩
      · refine ⟨v + 2 ^ n, by omega, ?_⟩
        rw [hone, one_mul]
        push_cast
        rfl

/-- The low bits are a number below `2 ^ n`, and the top bit is the borrow. -/
theorem Num2Bits.exists_top {n : ℕ} {x : R} {bits : ℕ → R} (h : Num2Bits (n + 1) x bits) :
    ∃ v : ℕ, v < 2 ^ n ∧ x = (v : R) + bits n * 2 ^ n := by
  obtain ⟨v, hv, hvalue⟩ := exists_sum_eq_natCast fun i hi => h.isBit i (Nat.lt_succ_of_lt hi)
  refine ⟨v, hv, ?_⟩
  rw [← h.sum, Finset.sum_range_succ, hvalue]

/-- **What a comparison constrains.** The output is one when `b - a` is the image of a number from
`1` to `2 ^ n`, and zero when `a - b` is the image of one below `2 ^ n`; no other operands
satisfy it. -/
theorem lessThan_iff {n : ℕ} {a b out : R} :
    LessThan n a b out ↔
      (out = 1 ∧ ∃ v : ℕ, 0 < v ∧ v ≤ 2 ^ n ∧ b - a = (v : R)) ∨
        (out = 0 ∧ ∃ v : ℕ, v < 2 ^ n ∧ a - b = (v : R)) := by
  constructor
  · rintro ⟨bits, hbits, rfl⟩
    obtain ⟨v, hv, hvalue⟩ := hbits.exists_top
    rcases eq_zero_or_eq_one (hbits.isBit n n.lt_succ_self) with hzero | hone
    · left
      refine ⟨by rw [hzero, sub_zero], 2 ^ n - v, by omega, by omega, ?_⟩
      rw [hzero] at hvalue
      rw [Nat.cast_sub hv.le]
      push_cast
      linear_combination -hvalue
    · right
      refine ⟨by rw [hone, sub_self], v, hv, ?_⟩
      rw [hone] at hvalue
      linear_combination hvalue
  · rintro (⟨rfl, v, hpos, hv, hvalue⟩ | ⟨rfl, v, hv, hvalue⟩)
    · have hlt : 2 ^ n - v < 2 ^ n := by omega
      refine ⟨binaryDigits (2 ^ n - v), ?_, ?_⟩
      · have hsum : a + 2 ^ n - b = ((2 ^ n - v : ℕ) : R) := by
          rw [Nat.cast_sub hv]
          push_cast
          linear_combination -hvalue
        rw [hsum]
        exact num2Bits_binaryDigits (hlt.trans (Nat.pow_lt_pow_right one_lt_two n.lt_succ_self))
      · rw [binaryDigits, Nat.div_eq_of_lt hlt, Nat.zero_mod, Nat.cast_zero, sub_zero]
    · have hlt : 2 ^ n + v < 2 ^ (n + 1) := by
        rw [pow_succ]
        omega
      refine ⟨binaryDigits (2 ^ n + v), ?_, ?_⟩
      · have hsum : a + 2 ^ n - b = ((2 ^ n + v : ℕ) : R) := by
          push_cast
          linear_combination hvalue
        rw [hsum]
        exact num2Bits_binaryDigits hlt
      · have htop : (2 ^ n + v) / 2 ^ n % 2 = 1 := by
          rw [Nat.add_div_left _ (Nat.two_pow_pos n), Nat.div_eq_of_lt hv]
        rw [binaryDigits, htop, Nat.cast_one, sub_self]

/-- When `b < a + 1` comes out true, the difference is the image of a number below `2 ^ n`. -/
theorem lessThan_succ_iff {n : ℕ} {a b : R} :
    LessThan n b (a + 1) 1 ↔ ∃ v : ℕ, v < 2 ^ n ∧ a - b = (v : R) := by
  rw [lessThan_iff]
  constructor
  · rintro (⟨-, v, hpos, hv, hvalue⟩ | ⟨habsurd, -⟩)
    · refine ⟨v - 1, by omega, ?_⟩
      rw [Nat.cast_sub hpos, Nat.cast_one]
      linear_combination hvalue
    · exact absurd habsurd one_ne_zero
  · rintro ⟨v, hv, hvalue⟩
    refine .inl ⟨rfl, v + 1, by omega, by omega, ?_⟩
    rw [Nat.cast_add, Nat.cast_one]
    linear_combination hvalue

theorem lessThan_one_iff {n : ℕ} {a b : R} :
    LessThan n a b 1 ↔ ∃ v : ℕ, 0 < v ∧ v ≤ 2 ^ n ∧ b - a = (v : R) := by
  rw [lessThan_iff]
  simp

theorem lessThan_zero_iff {n : ℕ} {a b : R} :
    LessThan n a b 0 ↔ ∃ v : ℕ, v < 2 ^ n ∧ a - b = (v : R) := by
  rw [lessThan_iff]
  simp

/-! ### Numbers in range -/

theorem intCast_inj_of_lt {p : ℕ} {x y : ℤ} (hlt : (x - y).natAbs < p) :
    (x : ZMod p) = (y : ZMod p) ↔ x = y := by
  constructor
  · intro h
    have hdvd : (p : ℤ) ∣ y - x := (ZMod.intCast_eq_intCast_iff_dvd_sub x y p).mp h
    have hzero : y - x = 0 := by
      apply Int.eq_zero_of_dvd_of_natAbs_lt_natAbs hdvd
      omega
    omega
  · intro h
    rw [h]

/-- On numbers of `n` bits the comparison is the order. -/
theorem lessThan_natCast_iff {p n a b : ℕ} [Fact p.Prime] (hp : 2 ^ (n + 1) ≤ p) (ha : a < 2 ^ n)
    (hb : b ≤ 2 ^ n) {out : ZMod p} :
    LessThan n (a : ZMod p) (b : ZMod p) out ↔ out = if a < b then 1 else 0 := by
  rw [pow_succ] at hp
  have hpos (v : ℕ) (hv : v ≤ 2 ^ n) : (b : ZMod p) - a = v ↔ (b : ℤ) - a = v := by
    rw [← intCast_inj_of_lt (p := p) (by omega)]
    push_cast
    rfl
  have hneg (v : ℕ) (hv : v < 2 ^ n) : (a : ZMod p) - b = v ↔ (a : ℤ) - b = v := by
    rw [← intCast_inj_of_lt (p := p) (by omega)]
    push_cast
    rfl
  rw [lessThan_iff]
  constructor
  · rintro (⟨rfl, v, hv, hle, hvalue⟩ | ⟨rfl, v, hlt, hvalue⟩)
    · rw [hpos v hle] at hvalue
      rw [if_pos (by omega)]
    · rw [hneg v hlt] at hvalue
      rw [if_neg (by omega)]
  · rintro rfl
    by_cases hab : a < b
    · refine .inl ⟨if_pos hab, b - a, by omega, by omega, ?_⟩
      rw [hpos _ (by omega)]
      omega
    · refine .inr ⟨if_neg hab, a - b, by omega, ?_⟩
      rw [hneg _ (by omega)]
      omega

/-! ### Any field elements -/

section Val

variable {p : ℕ} [NeZero p]

theorem exists_natCast_iff {bound : ℕ} (hbound : bound ≤ p) {x : ZMod p} :
    (∃ v : ℕ, v < bound ∧ x = (v : ZMod p)) ↔ x.val < bound := by
  constructor
  · rintro ⟨v, hv, rfl⟩
    rwa [ZMod.val_natCast_of_lt (hv.trans_le hbound)]
  · intro hx
    exact ⟨x.val, hx, (ZMod.natCast_zmod_val x).symm⟩

theorem val_sub_eq (a b : ZMod p) :
    (a - b).val = if b.val ≤ a.val then a.val - b.val else p + a.val - b.val := by
  have ha := a.val_lt
  have hb := b.val_lt
  split_ifs with hle
  · exact ZMod.val_sub hle
  · have hvalue : a - b = ((p + a.val - b.val : ℕ) : ZMod p) := by
      rw [Nat.cast_sub (by omega), Nat.cast_add, ZMod.natCast_self, ZMod.natCast_zmod_val,
        ZMod.natCast_zmod_val, zero_add]
    rw [hvalue, ZMod.val_natCast_of_lt (by omega)]

/-- A small difference: either the representatives are close in the right order, or the subtraction
wrapped around the modulus. -/
theorem val_sub_lt_iff {a b : ZMod p} {bound : ℕ} :
    (a - b).val < bound ↔
      b.val ≤ a.val ∧ a.val < b.val + bound ∨ a.val < b.val ∧ p + a.val < b.val + bound := by
  have hb := b.val_lt
  rw [val_sub_eq]
  split_ifs <;> omega

end Val

/-- Against a constant, the comparison also lets the top of the field through. -/
theorem lessThan_natCast_one_iff {p n c : ℕ} [Fact p.Prime] (hp : 2 ^ n < p) (hc : c ≤ 2 ^ n)
    {x : ZMod p} : LessThan n x (c : ZMod p) 1 ↔ x.val < c ∨ p + c ≤ x.val + 2 ^ n := by
  have hx := x.val_lt
  have hcast : (c : ZMod p).val = c := ZMod.val_natCast_of_lt (by omega)
  have hval : LessThan n x (c : ZMod p) 1 ↔
      0 < ((c : ZMod p) - x).val ∧ ((c : ZMod p) - x).val ≤ 2 ^ n := by
    rw [lessThan_one_iff]
    constructor
    · rintro ⟨v, hpos, hv, hvalue⟩
      rw [hvalue, ZMod.val_natCast_of_lt (by omega)]
      exact ⟨hpos, hv⟩
    · rintro ⟨hpos, hle⟩
      exact ⟨_, hpos, hle, (ZMod.natCast_zmod_val _).symm⟩
  rw [hval, val_sub_eq, hcast]
  split_ifs <;> omega

end BitDecomposition
