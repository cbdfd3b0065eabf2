import Veritas.Proof.Calls

/-!
# The element routines compute in the field

A routine on elements gives the sum, difference or product of its operands' values whatever their
representations are, and a well-formed element. The result may be an operand of every routine but
the sum and the difference, which write the result's type before they convert an operand.
-/

namespace Veritas

/-! ### Values -/

namespace FrElement

/-- What every routine gives and relies on. -/
def WellFormed (x : FrElement) : Prop :=
  match x.type with
  | .short => True
  | .shortMontgomery => Holds x.longVal (x.shortVal.toInt * radix)
  | .long | .longMontgomery => x.longVal.toNat < frModulus

def value (x : FrElement) : Fr :=
  match x.type with
  | .short | .shortMontgomery => x.shortVal.toInt
  | .long => x.longVal.toNat
  | .longMontgomery => x.longVal.toNat / radix

end FrElement

def FrType.Montgomery (t : FrType) : Prop := t = .shortMontgomery ∨ t = .longMontgomery

def FrType.Short (t : FrType) : Prop := t = .short ∨ t = .shortMontgomery

theorem value_of_short {x : FrElement} (h : x.type.Short) : x.value = x.shortVal.toInt := by
  rcases h with h | h <;> rw [FrElement.value, h]

/-- A long element's words. -/
theorem holds_of_long {x : FrElement} (h : x.WellFormed) (hlong : x.type = .long) :
    Holds x.longVal x.value := by
  rw [FrElement.WellFormed, hlong] at h
  refine ⟨h, ?_⟩
  rw [FrElement.value, hlong]

/-- A Montgomery element's words. -/
theorem holds_of_montgomery {x : FrElement} (h : x.WellFormed) (hm : x.type.Montgomery) :
    Holds x.longVal (x.value * radix) := by
  rcases hm with hm | hm
  · rw [FrElement.WellFormed, hm] at h
    rwa [FrElement.value, hm]
  · rw [FrElement.WellFormed, hm] at h
    refine ⟨h, ?_⟩
    rw [FrElement.value, hm, div_mul_cancel₀ _ radix_ne_zero]

/-! ### Results -/

variable {Addr : Type} [DecidableEq Addr]

/-- A routine has put an element with the value into the result. It may use the stack. -/
structure Stores (m m' : Memory Addr) (rdi : Place Addr) (v : Fr) : Prop where
  wellFormed : (m' rdi).WellFormed
  value : (m' rdi).value = v
  frame : ∀ p, p ≠ rdi → p ≠ .stack → m' p = m p

theorem Stores.update {m : Memory Addr} {rdi : Place Addr} {x : FrElement} {v : Fr}
    (hx : x.WellFormed) (hv : x.value = v) : Stores m (Function.update m rdi x) rdi v where
  wellFormed := by rwa [Function.update_self]
  value := by rwa [Function.update_self]
  frame _ hp _ := Function.update_of_ne hp _ _

theorem setType_type (m : Memory Addr) (rdi : Place Addr) (t : FrType) :
    (setType m rdi t rdi).type = t := by
  rw [setType, Function.update_self]

/-- The type of a result is set before the call. -/
theorem Sets.stores_long {m m' : Memory Addr} {rdi : Place Addr} {v : Fr}
    (h : Sets (setType m rdi .long) m' rdi v) : Stores m m' rdi v := by
  obtain ⟨x, hx, rfl⟩ := h
  rw [setType, Function.update_idem, Function.update_self]
  exact .update hx.1 hx.2

theorem Sets.stores_longMontgomery {m m' : Memory Addr} {rdi : Place Addr} {v : Fr}
    (h : Sets (setType m rdi .longMontgomery) m' rdi (v * radix)) : Stores m m' rdi v := by
  obtain ⟨x, hx, rfl⟩ := h
  rw [setType, Function.update_idem, Function.update_self]
  refine .update hx.1 ?_
  rw [FrElement.value, hx.2, mul_div_cancel_right₀ _ radix_ne_zero]

@[simp]
theorem longVal_setType (m : Memory Addr) (rdi p : Place Addr) (t : FrType) :
    (setType m rdi t p).longVal = (m p).longVal := by
  by_cases h : p = rdi
  · rw [h, setType, Function.update_self]
  · rw [setType, Function.update_of_ne h]

@[simp]
theorem number_setType (m : Memory Addr) (rdi : Place Addr) (t : FrType) (x : Arg Addr) :
    x.number (setType m rdi t) = x.number m := by
  cases x with
  | element p => exact congrArg Limbs.toNat (longVal_setType m rdi p t)
  | datum | word => rfl

/-! ### The radix constants -/

theorem toNat_R2 : Datum.R2.limbs.toNat = 2 ^ 256 * 2 ^ 256 % frModulus := by
  rw [Limbs.toNat_eq]
  rfl

theorem toNat_R3 : Datum.R3.limbs.toNat = 2 ^ 256 * 2 ^ 256 * 2 ^ 256 % frModulus := by
  rw [Limbs.toNat_eq]
  rfl

theorem cast_radix : ((2 ^ 256 : ℕ) : Fr) = radix := rfl

theorem holds_R2 : Holds Datum.R2.limbs (radix ^ 2) := by
  rw [Holds, toNat_R2]
  refine ⟨Nat.mod_lt _ frModulus_prime.pos, ?_⟩
  rw [ZMod.natCast_mod, Nat.cast_mul, cast_radix, pow_two]

theorem holds_R3 : Holds Datum.R3.limbs (radix ^ 3) := by
  rw [Holds, toNat_R3]
  refine ⟨Nat.mod_lt _ frModulus_prime.pos, ?_⟩
  rw [ZMod.natCast_mod, Nat.cast_mul, Nat.cast_mul, cast_radix, pow_three']

theorem mul_radix_pow_div (v : Fr) (n : ℕ) : v * radix ^ (n + 1) / radix = v * radix ^ n := by
  rw [pow_succ, ← mul_assoc, mul_div_cancel_right₀ _ radix_ne_zero]

/-- The product with the cube puts a product that a multiplication divided into Montgomery form. -/
theorem Sets.mulR3 {m m' : Memory Addr} {rdi : Place Addr} {v : Fr}
    (h : Sets m m' rdi (v / radix)) : Sets m (mulR3 m' rdi) rdi (v * radix) := by
  obtain ⟨x, hx, heq⟩ := h
  have hcube := rawMMul_sets m' rdi (.element rdi) (.datum .R3) holds_R3.1
  have hnumber : (Arg.element rdi).number m' = x.toNat := by
    rw [heq, Arg.number, Function.update_self]
  have hset := Sets.trans ⟨x, hx, heq⟩ hcube
  rw [hnumber, hx.2, Arg.number, holds_R3.2, mul_radix_pow_div, pow_two, ← mul_assoc,
    div_mul_cancel₀ _ radix_ne_zero] at hset
  exact hset

/-! ### Short operands -/

theorem copyS2L_stores (m : Memory Addr) (rdi : Place Addr) {v : ℤ} (hlow : -2 ^ 63 ≤ v)
    (hhigh : v < 2 ^ 63) : Stores m (copyS2L m rdi v) rdi v := by
  obtain ⟨x, hx, heq⟩ := copyS2L_eq m rdi hlow hhigh
  rw [heq]
  exact .update hx.1 hx.2

theorem shortResult_stores (m : Memory Addr) (rdi : Place Addr) {v : ℤ} (hlow : -2 ^ 63 ≤ v)
    (hhigh : v < 2 ^ 63) : Stores m (shortResult m rdi v) rdi v := by
  rw [shortResult]
  split_ifs with hfits
  · rw [fits, decide_eq_true_eq] at hfits
    refine .update trivial ?_
    rw [FrElement.value]
    exact congrArg Int.cast (toInt_ofInt hfits)
  · exact copyS2L_stores m rdi hlow hhigh

theorem shortProduct_stores (m : Memory Addr) (rdi : Place Addr) {v : ℤ} (hlow : -2 ^ 63 ≤ v)
    (hhigh : v < 2 ^ 63) : Stores m (shortProduct m rdi v) rdi v := by
  have h := copyS2L_stores (if fits v then setHeader m rdi (Int32.ofInt v) .short else m) rdi hlow
    hhigh
  refine ⟨h.wellFormed, h.value, fun p hp hstack => (h.frame p hp hstack).trans ?_⟩
  split_ifs
  · exact Function.update_of_ne hp _ _
  · rfl

/-! ### Products -/

theorem small_product {a b : ℤ} (ha : Small a) (hb : Small b) : -2 ^ 63 ≤ a * b ∧ a * b < 2 ^ 63 := by
  obtain ⟨halow, hahigh⟩ := ha
  obtain ⟨hblow, hbhigh⟩ := hb
  constructor <;> nlinarith

section Products

variable {m : Memory Addr} (rdi : Place Addr) {rsi rdx : Place Addr}

theorem shorts_mul (ha : (m rsi).type.Short) (hb : (m rdx).type.Short) :
    Stores m (shortProduct m rdi ((m rsi).shortVal.toInt * (m rdx).shortVal.toInt)) rdi
      ((m rsi).value * (m rdx).value) := by
  obtain ⟨hlow, hhigh⟩ := small_product (small_toInt (m rsi).shortVal) (small_toInt (m rdx).shortVal)
  have h := shortProduct_stores m rdi hlow hhigh
  rwa [Int.cast_mul, ← value_of_short ha, ← value_of_short hb] at h

/-- A raw multiplication on the operands' words, after the type of the result is set. -/
theorem rawMMul_typed {v w : Fr} (t : FrType) (ha : Holds (m rsi).longVal v)
    (hb : Holds (m rdx).longVal w) :
    Sets (setType m rdi t) (call rawMMul (setType m rdi t) rdi (.element rsi) (.element rdx)) rdi
      (v * w / radix) := by
  have h := rawMMul_sets (setType m rdi t) rdi (.element rsi) (.element rdx)
    (by rw [number_setType]; exact hb.1)
  rwa [number_setType, number_setType, Arg.number, Arg.number, ha.2, hb.2] at h

theorem mulShort_typed {v : Fr} {n : ℤ} (t : FrType) (ha : Holds (m rsi).longVal v)
    (hn : Small n) :
    Sets (setType m rdi t) (mulShort (setType m rdi t) rdi (.element rsi) n) rdi
      (n * v / radix) := by
  have h := mulShort_sets (setType m rdi t) rdi (.element rsi) hn
    (by rw [number_setType]; exact ha.1)
  rwa [number_setType, Arg.number, ha.2] at h

variable {v w : Fr}

theorem mul_left_montgomery (ha : Holds (m rsi).longVal (v * radix))
    (hb : Holds (m rdx).longVal w) :
    Stores m (call rawMMul (setType m rdi .long) rdi (.element rsi) (.element rdx)) rdi
      (v * w) := by
  have h := rawMMul_typed rdi .long ha hb
  rw [mul_right_comm, mul_div_cancel_right₀ _ radix_ne_zero] at h
  exact h.stores_long

theorem mul_right_montgomery (ha : Holds (m rsi).longVal v)
    (hb : Holds (m rdx).longVal (w * radix)) :
    Stores m (call rawMMul (setType m rdi .long) rdi (.element rsi) (.element rdx)) rdi
      (v * w) := by
  have h := rawMMul_typed rdi .long ha hb
  rw [← mul_assoc, mul_div_cancel_right₀ _ radix_ne_zero] at h
  exact h.stores_long

theorem mul_both_montgomery (ha : Holds (m rsi).longVal (v * radix))
    (hb : Holds (m rdx).longVal (w * radix)) :
    Stores m (call rawMMul (setType m rdi .longMontgomery) rdi (.element rsi) (.element rdx)) rdi
      (v * w) := by
  have h := rawMMul_typed rdi .longMontgomery ha hb
  rw [← mul_assoc, mul_div_cancel_right₀ _ radix_ne_zero, mul_right_comm] at h
  exact h.stores_longMontgomery

theorem mul_longs (ha : Holds (m rsi).longVal v) (hb : Holds (m rdx).longVal w) :
    Stores m
      (mulR3 (call rawMMul (setType m rdi .longMontgomery) rdi (.element rsi) (.element rdx)) rdi)
      rdi (v * w) :=
  (rawMMul_typed rdi .longMontgomery ha hb).mulR3.stores_longMontgomery

theorem scale_montgomery {n : ℤ} (hn : Small n) (ha : Holds (m rsi).longVal (v * radix)) :
    Stores m (mulShort (setType m rdi .long) rdi (.element rsi) n) rdi (n * v) := by
  have h := mulShort_typed rdi .long ha hn
  rw [← mul_assoc, mul_div_cancel_right₀ _ radix_ne_zero] at h
  exact h.stores_long

theorem scale_long {n : ℤ} (hn : Small n) (ha : Holds (m rsi).longVal v) :
    Stores m (mulR3 (mulShort (setType m rdi .longMontgomery) rdi (.element rsi) n) rdi) rdi
      (n * v) :=
  (mulShort_typed rdi .longMontgomery ha hn).mulR3.stores_longMontgomery

theorem frMul_stores (m : Memory Addr) (rdi rsi rdx : Place Addr) (ha : (m rsi).WellFormed)
    (hb : (m rdx).WellFormed) :
    Stores m (frMul m rdi rsi rdx) rdi ((m rsi).value * (m rdx).value) := by
  have hsmall := small_toInt (m rsi).shortVal
  have hsmall' := small_toInt (m rdx).shortVal
  cases hrsi : (m rsi).type with
  | short =>
      have hvalue := value_of_short (.inl hrsi : (m rsi).type.Short)
      cases hrdx : (m rdx).type with
      | short =>
          simp only [frMul, hrsi, hrdx]
          exact shorts_mul rdi (.inl hrsi) (.inl hrdx)
      | shortMontgomery =>
          simp only [frMul, hrsi, hrdx]
          exact shorts_mul rdi (.inl hrsi) (.inr hrdx)
      | long =>
          simp only [frMul, hrsi, hrdx, hvalue]
          exact scale_long rdi hsmall (holds_of_long hb hrdx)
      | longMontgomery =>
          simp only [frMul, hrsi, hrdx, hvalue]
          exact scale_montgomery rdi hsmall (holds_of_montgomery hb (.inr hrdx))
  | shortMontgomery =>
      have hwords := holds_of_montgomery ha (.inl hrsi)
      cases hrdx : (m rdx).type with
      | short =>
          simp only [frMul, hrsi, hrdx]
          exact shorts_mul rdi (.inr hrsi) (.inl hrdx)
      | shortMontgomery =>
          simp only [frMul, hrsi, hrdx]
          exact shorts_mul rdi (.inr hrsi) (.inr hrdx)
      | long =>
          simp only [frMul, hrsi, hrdx]
          exact mul_left_montgomery rdi hwords (holds_of_long hb hrdx)
      | longMontgomery =>
          simp only [frMul, hrsi, hrdx]
          exact mul_both_montgomery rdi hwords (holds_of_montgomery hb (.inr hrdx))
  | long =>
      have hwords := holds_of_long ha hrsi
      cases hrdx : (m rdx).type with
      | short =>
          simp only [frMul, hrsi, hrdx, value_of_short (.inl hrdx : (m rdx).type.Short)]
          rw [mul_comm]
          exact scale_long rdi hsmall' hwords
      | shortMontgomery =>
          simp only [frMul, hrsi, hrdx]
          exact mul_right_montgomery rdi hwords (holds_of_montgomery hb (.inl hrdx))
      | long =>
          simp only [frMul, hrsi, hrdx]
          exact mul_longs rdi hwords (holds_of_long hb hrdx)
      | longMontgomery =>
          simp only [frMul, hrsi, hrdx]
          exact mul_right_montgomery rdi hwords (holds_of_montgomery hb (.inr hrdx))
  | longMontgomery =>
      have hwords := holds_of_montgomery ha (.inr hrsi)
      cases hrdx : (m rdx).type with
      | short =>
          simp only [frMul, hrsi, hrdx, value_of_short (.inl hrdx : (m rdx).type.Short)]
          rw [mul_comm]
          exact scale_montgomery rdi hsmall' hwords
      | shortMontgomery =>
          simp only [frMul, hrsi, hrdx]
          exact mul_both_montgomery rdi hwords (holds_of_montgomery hb (.inl hrdx))
      | long =>
          simp only [frMul, hrsi, hrdx]
          exact mul_left_montgomery rdi hwords (holds_of_long hb hrdx)
      | longMontgomery =>
          simp only [frMul, hrsi, hrdx]
          exact mul_both_montgomery rdi hwords (holds_of_montgomery hb (.inr hrdx))

theorem frSquare_stores (m : Memory Addr) (rdi rsi : Place Addr) (ha : (m rsi).WellFormed) :
    Stores m (frSquare m rdi rsi) rdi ((m rsi).value * (m rsi).value) := by
  have hsquare {v : Fr} (t : FrType) (hv : Holds (m rsi).longVal v) :
      Sets (setType m rdi t) (call rawMSquare (setType m rdi t) rdi (.element rsi) (.word 0)) rdi
        (v * v / radix) := by
    have h := rawMSquare_sets (setType m rdi t) rdi (.element rsi) (.word 0)
      (by rw [number_setType]; exact hv.1)
    rwa [number_setType, Arg.number, hv.2] at h
  cases hrsi : (m rsi).type with
  | short =>
      simp only [frSquare, hrsi]
      exact shorts_mul rdi (.inl hrsi) (.inl hrsi)
  | shortMontgomery =>
      simp only [frSquare, hrsi]
      exact shorts_mul rdi (.inr hrsi) (.inr hrsi)
  | long =>
      simp only [frSquare, hrsi]
      exact (hsquare .longMontgomery (holds_of_long ha hrsi)).mulR3.stores_longMontgomery
  | longMontgomery =>
      simp only [frSquare, hrsi]
      have h := hsquare .longMontgomery (holds_of_montgomery ha (.inr hrsi))
      rw [← mul_assoc, mul_div_cancel_right₀ _ radix_ne_zero, mul_right_comm] at h
      exact h.stores_longMontgomery

end Products

/-! ### Conversions -/

section Conversions

theorem number_setHeader (m : Memory Addr) (rdi : Place Addr) (n : Int32) (t : FrType)
    (x : Arg Addr) : x.number (setHeader m rdi n t) = x.number m := by
  cases x with
  | element p =>
      by_cases h : p = rdi
      · rw [h, Arg.number, Arg.number, setHeader, Function.update_self]
      · rw [Arg.number, Arg.number, setHeader, Function.update_of_ne h]
  | datum | word => rfl

/-- A call between a header and a type. -/
theorem Sets.retype {m m' : Memory Addr} {rdi : Place Addr} {n : Int32} {t : FrType} {v : Fr}
    (h : Sets (setHeader m rdi n t) m' rdi v) (t' : FrType) :
    ∃ x, Holds x v ∧ setType m' rdi t' = Function.update m rdi ⟨n, t', x⟩ := by
  obtain ⟨x, hx, rfl⟩ := h
  refine ⟨x, hx, ?_⟩
  rw [setType, setHeader, Function.update_idem, Function.update_self, Function.update_idem,
    Function.update_self]

theorem frCopy_stores (m : Memory Addr) (rdi rsi : Place Addr) (ha : (m rsi).WellFormed) :
    Stores m (frCopy m rdi rsi) rdi (m rsi).value :=
  .update ha rfl

theorem frToMontgomery_stores (m : Memory Addr) (rdi rsi : Place Addr) (ha : (m rsi).WellFormed) :
    Stores m (frToMontgomery m rdi rsi) rdi (m rsi).value ∧
      (frToMontgomery m rdi rsi rdi).type.Montgomery := by
  cases hrsi : (m rsi).type with
  | short =>
      have hset := mulShort_sets (setHeader m rdi (m rsi).shortVal .short) rdi (.datum .R2)
        (small_toInt (m rsi).shortVal) holds_R2.1
      rw [Arg.number, holds_R2.2, mul_radix_pow_div, pow_one] at hset
      obtain ⟨x, hx, heq⟩ := hset.retype .shortMontgomery
      simp only [frToMontgomery, hrsi, heq]
      refine ⟨.update hx ?_, .inl (by rw [Function.update_self])⟩
      rw [value_of_short (.inl hrsi : (m rsi).type.Short)]
      rfl
  | long =>
      have hwords := holds_of_long ha hrsi
      have hset := rawMMul_sets (setHeader m rdi (m rsi).shortVal .long) rdi (.element rsi)
        (.datum .R2) holds_R2.1
      rw [number_setHeader, Arg.number, Arg.number, hwords.2, holds_R2.2, mul_radix_pow_div,
        pow_one] at hset
      obtain ⟨x, hx, heq⟩ := hset.retype .longMontgomery
      simp only [frToMontgomery, hrsi, heq]
      refine ⟨.update hx.1 ?_, .inr (by rw [Function.update_self])⟩
      rw [FrElement.value, hx.2, mul_div_cancel_right₀ _ radix_ne_zero]
  | shortMontgomery =>
      simp only [frToMontgomery, hrsi]
      refine ⟨frCopy_stores m rdi rsi ha, ?_⟩
      rw [frCopy, Function.update_self]
      exact .inl hrsi
  | longMontgomery =>
      simp only [frToMontgomery, hrsi]
      refine ⟨frCopy_stores m rdi rsi ha, ?_⟩
      rw [frCopy, Function.update_self]
      exact .inr hrsi

/-- A long element out of Montgomery form. -/
theorem fromMontgomery_stores (m : Memory Addr) (rdi rsi : Place Addr) (ha : (m rsi).WellFormed)
    (hrsi : (m rsi).type = .longMontgomery) :
    Stores m (setType (call rawFromMontgomery m rdi (.element rsi) (.word 0)) rdi .long) rdi
      (m rsi).value := by
  have hwords := holds_of_montgomery ha (.inr hrsi)
  obtain ⟨x, hx, heq⟩ := rawFromMontgomery_sets m rdi (.element rsi) (.word 0) hwords.1
  rw [Arg.number, hwords.2, mul_div_cancel_right₀ _ radix_ne_zero] at hx
  rw [heq, setType, Function.update_idem, Function.update_self]
  exact .update hx.1 hx.2

theorem frToNormal_stores (m : Memory Addr) (rdi rsi : Place Addr) (ha : (m rsi).WellFormed) :
    Stores m (frToNormal m rdi rsi) rdi (m rsi).value := by
  cases hrsi : (m rsi).type with
  | longMontgomery =>
      simp only [frToNormal, hrsi]
      exact fromMontgomery_stores m rdi rsi ha hrsi
  | short | shortMontgomery | long =>
      simp only [frToNormal, hrsi]
      exact frCopy_stores m rdi rsi ha

theorem frToLongNormal_stores (m : Memory Addr) (rdi rsi : Place Addr) (ha : (m rsi).WellFormed) :
    Stores m (frToLongNormal m rdi rsi) rdi (m rsi).value ∧
      (frToLongNormal m rdi rsi rdi).type = .long := by
  have hshort (h : (m rsi).type.Short) :
      Stores m (setType (copyS2L m rdi (m rsi).shortVal.toInt) rdi .long) rdi (m rsi).value := by
    obtain ⟨hlow, hhigh⟩ := small_toInt (m rsi).shortVal
    obtain ⟨x, hx, heq⟩ := copyS2L_eq m rdi (v := (m rsi).shortVal.toInt) (by omega) (by omega)
    rw [heq, setType, Function.update_idem, Function.update_self, value_of_short h]
    exact .update hx.1 hx.2
  cases hrsi : (m rsi).type with
  | short =>
      simp only [frToLongNormal, hrsi]
      exact ⟨hshort (.inl hrsi), setType_type _ _ _⟩
  | shortMontgomery =>
      simp only [frToLongNormal, hrsi]
      exact ⟨hshort (.inr hrsi), setType_type _ _ _⟩
  | longMontgomery =>
      simp only [frToLongNormal, hrsi]
      exact ⟨fromMontgomery_stores m rdi rsi ha hrsi, setType_type _ _ _⟩
  | long =>
      simp only [frToLongNormal, hrsi]
      refine ⟨frCopy_stores m rdi rsi ha, ?_⟩
      rw [frCopy, Function.update_self, hrsi]

theorem frNeg_stores (m : Memory Addr) (rdi rsi : Place Addr) (ha : (m rsi).WellFormed) :
    Stores m (frNeg m rdi rsi) rdi (-(m rsi).value) := by
  have hshort (h : (m rsi).type.Short) :
      Stores m (shortResult m rdi (-(m rsi).shortVal.toInt)) rdi (-(m rsi).value) := by
    obtain ⟨hlow, hhigh⟩ := small_toInt (m rsi).shortVal
    rw [value_of_short h, ← Int.cast_neg]
    exact shortResult_stores m rdi (by omega) (by omega)
  have hlong {v : Fr} (hv : Holds (m rsi).longVal v) :
      ∃ x, Holds x (-v) ∧ call rawNegL (setHeader m rdi (m rsi).shortVal (m rsi).type) rdi
        (.element rsi) (.word 0) = Function.update m rdi ⟨(m rsi).shortVal, (m rsi).type, x⟩ := by
    obtain ⟨x, hx, heq⟩ := rawNegL_sets (setHeader m rdi (m rsi).shortVal (m rsi).type) rdi
      (.element rsi) (.word 0) (by rw [number_setHeader]; exact hv.1)
    rw [number_setHeader, Arg.number, hv.2] at hx
    refine ⟨x, hx, ?_⟩
    rw [heq, setHeader, Function.update_idem, Function.update_self]
  cases hrsi : (m rsi).type with
  | short =>
      simp only [frNeg, hrsi]
      exact hshort (.inl hrsi)
  | shortMontgomery =>
      simp only [frNeg, hrsi]
      exact hshort (.inr hrsi)
  | long =>
      obtain ⟨x, hx, heq⟩ := hlong (holds_of_long ha hrsi)
      rw [hrsi] at heq
      simp only [frNeg, hrsi, heq]
      exact .update hx.1 hx.2
  | longMontgomery =>
      obtain ⟨x, hx, heq⟩ := hlong (holds_of_montgomery ha (.inr hrsi))
      rw [hrsi] at heq
      simp only [frNeg, hrsi, heq]
      refine .update hx.1 ?_
      rw [FrElement.value, hx.2, ← neg_mul, mul_div_cancel_right₀ _ radix_ne_zero]

end Conversions

end Veritas
