import Veritas.Library.LittleEndian
import Veritas.Numbers
import Veritas.Proof.Element
import Mathlib.Data.Nat.Bitwise

/-!
# Integers, elements and powers

An element goes to the least integer of its residue and comes back; the operations on integers
compute on residues. The exponentiation scans the scalar from its highest bit, and the element it
has built is the power to the bits it has passed.
-/

namespace Veritas

variable {Addr : Type} [DecidableEq Addr]

/-! ### Integers -/

theorem q_eq : q = frModulus := congrArg Nat.cast toNat_q

/-- The least integer of a residue. -/
theorem val_eq {x : Fr} {n : ℤ} (hlow : 0 ≤ n) (hhigh : n < frModulus) (h : (n : Fr) = x) :
    (x.val : ℤ) = n := by
  rw [← h, ZMod.val_intCast]
  exact Int.emod_eq_of_lt hlow hhigh

/-- A short value, brought above zero. -/
theorem val_short {x : Fr} {n : ℤ} (hn : Small n) (h : (n : Fr) = x) :
    (if n < 0 then n + q else n) = x.val := by
  have hlarge : (2 ^ 31 : ℤ) < frModulus := by norm_num
  obtain ⟨hlow, hhigh⟩ := hn
  split_ifs with hneg
  · refine (val_eq (by rw [q_eq]; omega) (by rw [q_eq]; omega) ?_).symm
    rw [q_eq, Int.cast_add, Int.cast_natCast, ZMod.natCast_self, add_zero, h]
  · exact (val_eq (by omega) (by omega) h).symm

theorem val_long {x : FrElement} (h : x.WellFormed) (hlong : x.type = .long) :
    (x.longVal.toNat : ℤ) = x.value.val := by
  obtain ⟨hlt, hvalue⟩ := holds_of_long h hlong
  refine (val_eq (by omega) (by exact_mod_cast hlt) ?_).symm
  rwa [Int.cast_natCast]

theorem frToNormal_type (m : Memory Addr) (rdi rsi : Place Addr) :
    (frToNormal m rdi rsi rdi).type ≠ .longMontgomery := by
  cases hrsi : (m rsi).type with
  | longMontgomery =>
      simp only [frToNormal, hrsi, setType_type]
      decide
  | short | shortMontgomery | long =>
      simp only [frToNormal, hrsi, frCopy, Function.update_self]
      decide

theorem frToMpz_eq (m : Memory Addr) (pE : Place Addr) (h : (m pE).WellFormed) :
    frToMpz m pE = (m pE).value.val := by
  obtain ⟨hwf, hvalue, -⟩ := frToNormal_stores m .stack pE h
  rw [← hvalue]
  have hshort (hs : (frToNormal m .stack pE .stack).type.Short) :=
    val_short (small_toInt _) (value_of_short hs).symm
  cases htype : (frToNormal m .stack pE .stack).type with
  | short =>
      simp only [frToMpz, htype]
      exact hshort (.inl htype)
  | shortMontgomery =>
      simp only [frToMpz, htype]
      exact hshort (.inr htype)
  | long =>
      simp only [frToMpz, htype]
      exact val_long hwf htype
  | longMontgomery => exact absurd htype (frToNormal_type m .stack pE)

theorem frElement2str_eq (m : Memory Addr) (pE : Place Addr) (h : (m pE).WellFormed) :
    frElement2str m pE = (m pE).value.val := by
  obtain ⟨hwf, hvalue, -⟩ := frToNormal_stores m .stack pE h
  have hshort (hs : (m pE).type.Short) :
      (if 0 ≤ (m pE).shortVal.toInt then (m pE).shortVal.toInt else (m pE).shortVal.toInt + q)
        = (m pE).value.val := by
    rw [← val_short (small_toInt _) (value_of_short hs).symm]
    split_ifs <;> omega
  cases htype : (m pE).type with
  | short =>
      simp only [frElement2str, htype]
      exact hshort (.inl htype)
  | shortMontgomery =>
      simp only [frElement2str, htype]
      exact hshort (.inr htype)
  | long =>
      simp only [frElement2str, htype, ← hvalue]
      refine val_long hwf ?_
      simp only [frToNormal, htype, frCopy, Function.update_self]
  | longMontgomery =>
      simp only [frElement2str, htype, ← hvalue]
      refine val_long hwf ?_
      simp only [frToNormal, htype, setType_type]

theorem frFromMpz_stores (m : Memory Addr) (pE : Place Addr) {v : ℤ} (hlow : 0 ≤ v)
    (hhigh : v < frModulus) : Stores m (frFromMpz m pE v) pE v := by
  rw [frFromMpz]
  split_ifs with hfits
  · rw [fits, decide_eq_true_eq] at hfits
    refine .update trivial ?_
    exact congrArg Int.cast (toInt_ofInt hfits)
  · have hnat : v.natAbs < frModulus := by omega
    have hwords : (Limbs.ofNat v.natAbs).toNat = v.natAbs :=
      Limbs.toNat_ofNat (hnat.trans (by norm_num))
    refine .update ?_ ?_
    · rw [FrElement.WellFormed]
      simp only [hwords]
      exact hnat
    · rw [FrElement.value]
      simp only [hwords]
      rw [← Int.cast_natCast, Int.natAbs_of_nonneg hlow]

theorem fmod_q (v : ℤ) : 0 ≤ v.fmod q ∧ v.fmod q < frModulus ∧ ((v.fmod q : ℤ) : Fr) = v := by
  have hpos : (0 : ℤ) < frModulus := by norm_num
  rw [q_eq, Int.fmod_eq_emod_of_nonneg _ hpos.le]
  refine ⟨Int.emod_nonneg _ hpos.ne', Int.emod_lt_of_pos _ hpos, ?_⟩
  exact (ZMod.intCast_eq_intCast_iff' _ _ _).mpr (Int.emod_emod_of_dvd v dvd_rfl)

/-- A number that a string spells becomes its residue. -/
theorem frStr2element_stores (m : Memory Addr) (pE : Place Addr) (mr : ℤ) :
    Stores m (frStr2element m pE mr) pE mr := by
  obtain ⟨hlow, hhigh, hcast⟩ := fmod_q mr
  have h := frFromMpz_stores m pE hlow hhigh
  rwa [hcast] at h

/-- A memory with one element in each of three representations. -/
def sampleMemory : Memory (Fin 3)
  | .cell 0 => ⟨-3, .short, Limbs.ofNat 0⟩
  | .cell 1 => ⟨0, .longMontgomery, Limbs.ofNat 5⟩
  | _ => ⟨0, .long, Limbs.ofNat 7⟩

theorem toNat_small {n : ℕ} (h : n < 2 ^ 64) : (Limbs.ofNat n).toNat = n :=
  Limbs.toNat_ofNat (h.trans (by norm_num))

theorem sampleMemory_wellFormed (p : Place (Fin 3)) : (sampleMemory p).WellFormed := by
  have hlarge : 2 ^ 3 < frModulus := by norm_num
  have hlong : (Limbs.ofNat 7).toNat < frModulus := by
    rw [toNat_small (by norm_num)]
    omega
  have hmontgomery : (Limbs.ofNat 5).toNat < frModulus := by
    rw [toNat_small (by norm_num)]
    omega
  rcases p with (a | _)
  · fin_cases a
    · trivial
    · exact hmontgomery
    · exact hlong
  · exact hlong

theorem frToMpz_eq_zero (m : Memory Addr) (b : Place Addr) (hb : (m b).WellFormed) :
    frToMpz m b = 0 ↔ (m b).value = 0 := by
  rw [frToMpz_eq m b hb, Int.natCast_eq_zero, ZMod.val_eq_zero]

theorem frIdiv_stores (m : Memory Addr) (r a b : Place Addr) (ha : (m a).WellFormed)
    (hb : (m b).WellFormed) (hzero : (m b).value ≠ 0) :
    ∃ m', frIdiv m r a b = some m' ∧
      Stores m m' r (((m a).value.val / (m b).value.val : ℕ) : Fr) := by
  have hquotient : (frToMpz m a).fdiv (frToMpz m b)
      = ((m a).value.val / (m b).value.val : ℕ) := by
    rw [frToMpz_eq m a ha, frToMpz_eq m b hb, Int.fdiv_eq_ediv_of_nonneg _ (Nat.cast_nonneg _)]
    exact (Int.natCast_div _ _).symm
  refine ⟨_, if_neg (mt (frToMpz_eq_zero m b hb).mp hzero), ?_⟩
  rw [hquotient, ← Int.cast_natCast (R := Fr)]
  refine frFromMpz_stores m r (Nat.cast_nonneg _) (Nat.cast_lt.mpr ?_)
  exact (Nat.div_le_self _ _).trans_lt (ZMod.val_lt _)

theorem frMod_stores (m : Memory Addr) (r a b : Place Addr) (ha : (m a).WellFormed)
    (hb : (m b).WellFormed) (hzero : (m b).value ≠ 0) :
    ∃ m', frMod m r a b = some m' ∧
      Stores m m' r (((m a).value.val % (m b).value.val : ℕ) : Fr) := by
  have hremainder : (frToMpz m a).fmod (frToMpz m b)
      = ((m a).value.val % (m b).value.val : ℕ) := by
    rw [frToMpz_eq m a ha, frToMpz_eq m b hb, Int.fmod_eq_emod_of_nonneg _ (Nat.cast_nonneg _)]
    exact (Int.natCast_mod _ _).symm
  refine ⟨_, if_neg (mt (frToMpz_eq_zero m b hb).mp hzero), ?_⟩
  rw [hremainder, ← Int.cast_natCast (R := Fr)]
  refine frFromMpz_stores m r (Nat.cast_nonneg _) (Nat.cast_lt.mpr ?_)
  exact (Nat.mod_le _ _).trans_lt (ZMod.val_lt _)

/-- **`Fr_idiv` and `Fr_mod` divide the canonical numbers with remainder.** Both stop the program
exactly on a zero divisor, in whatever representation it comes. -/
theorem frIdiv_frMod_euclidean (m : Memory Addr) (r r' a b : Place Addr) (ha : (m a).WellFormed)
    (hb : (m b).WellFormed) :
    (frIdiv m r a b = none ↔ (m b).value = 0) ∧ (frMod m r' a b = none ↔ (m b).value = 0) ∧
      ∀ m₁ m₂, frIdiv m r a b = some m₁ → frMod m r' a b = some m₂ →
        ∃ quotient remainder : Fr, Stores m m₁ r quotient ∧ Stores m m₂ r' remainder ∧
          (m a).value.val = (m b).value.val * quotient.val + remainder.val ∧
          remainder.val < (m b).value.val := by
  by_cases hzero : (m b).value = 0
  · have hmpz := (frToMpz_eq_zero m b hb).mpr hzero
    have hidiv : frIdiv m r a b = none := if_pos hmpz
    have hmod : frMod m r' a b = none := if_pos hmpz
    exact ⟨iff_of_true hidiv hzero, iff_of_true hmod hzero,
      fun m₁ _ h _ => absurd (hidiv.symm.trans h) (Option.some_ne_none m₁).symm⟩
  obtain ⟨m₁, hidiv, hquotient⟩ := frIdiv_stores m r a b ha hb hzero
  obtain ⟨m₂, hmod, hremainder⟩ := frMod_stores m r' a b ha hb hzero
  have hpos : 0 < (m b).value.val := ZMod.val_pos.mpr hzero
  have hsmall := ZMod.val_lt (m a).value
  refine ⟨iff_of_false (by simp [hidiv]) hzero, iff_of_false (by simp [hmod]) hzero, ?_⟩
  rintro m₁' m₂' h₁ h₂
  cases hidiv.symm.trans h₁
  cases hmod.symm.trans h₂
  refine ⟨_, _, hquotient, hremainder, ?_, ?_⟩
  · rw [ZMod.val_natCast_of_lt ((Nat.div_le_self _ _).trans_lt hsmall),
      ZMod.val_natCast_of_lt ((Nat.mod_le _ _).trans_lt hsmall)]
    exact (Nat.div_add_mod _ _).symm
  · rw [ZMod.val_natCast_of_lt ((Nat.mod_le _ _).trans_lt hsmall)]
    exact Nat.mod_lt _ hpos

theorem frIdiv_frMod_euclidean_sample :
    (frIdiv sampleMemory (.cell 0) (.cell 1) (.cell 2) = none ↔
        (sampleMemory (.cell 2)).value = 0) ∧
      (frMod sampleMemory (.cell 0) (.cell 1) (.cell 2) = none ↔
        (sampleMemory (.cell 2)).value = 0) ∧
      ∀ m₁ m₂, frIdiv sampleMemory (.cell 0) (.cell 1) (.cell 2) = some m₁ →
        frMod sampleMemory (.cell 0) (.cell 1) (.cell 2) = some m₂ →
        ∃ quotient remainder : Fr, Stores sampleMemory m₁ (.cell 0) quotient ∧
          Stores sampleMemory m₂ (.cell 0) remainder ∧
          (sampleMemory (.cell 1)).value.val
            = (sampleMemory (.cell 2)).value.val * quotient.val + remainder.val ∧
          remainder.val < (sampleMemory (.cell 2)).value.val :=
  frIdiv_frMod_euclidean _ _ _ _ _ (sampleMemory_wellFormed _) (sampleMemory_wellFormed _)

/-- **`Fr_pow` is exponentiation by the canonical number of its second operand.** -/
theorem frPow_stores (m : Memory Addr) (r a b : Place Addr) (ha : (m a).WellFormed)
    (hb : (m b).WellFormed) :
    Stores m (frPow m r a b) r ((m a).value ^ (m b).value.val) := by
  rw [frPow, frToMpz_eq m a ha, frToMpz_eq m b hb, Int.toNat_natCast]
  obtain ⟨hlow, hhigh, hcast⟩ := fmod_q (((m a).value.val : ℤ) ^ (m b).value.val)
  have h := frFromMpz_stores m r hlow hhigh
  rwa [hcast, Int.cast_pow, Int.cast_natCast, ZMod.natCast_zmod_val] at h

theorem frPow_stores_sample :
    Stores sampleMemory (frPow sampleMemory (.cell 0) (.cell 1) (.cell 2)) (.cell 0)
      ((sampleMemory (.cell 1)).value ^ (sampleMemory (.cell 2)).value.val) :=
  frPow_stores _ _ _ _ (sampleMemory_wellFormed _) (sampleMemory_wellFormed _)

theorem invert_eq {x : Fr} (hx : x ≠ 0) :
    ∃ n : ℤ, invert x.val q = some n ∧ 0 ≤ n ∧ n < frModulus ∧ (n : Fr) = x⁻¹ := by
  have hpos : (0 : ℤ) < frModulus := by norm_num
  have hgcd : Nat.gcd x.val frModulus = 1 := by
    refine Nat.coprime_comm.mp ((Nat.Prime.coprime_iff_not_dvd frModulus_prime).mpr ?_)
    exact Nat.not_dvd_of_pos_of_lt (Nat.pos_of_ne_zero (mt (ZMod.val_eq_zero x).mp hx))
      (ZMod.val_lt x)
  rw [q_eq, invert]
  refine ⟨_, if_pos hgcd, Int.emod_nonneg _ hpos.ne', Int.emod_lt_of_pos _ hpos, ?_⟩
  have hcast : ((Int.gcdA x.val frModulus % frModulus : ℤ) : Fr) = Int.gcdA x.val frModulus :=
    (ZMod.intCast_eq_intCast_iff' _ _ _).mpr (Int.emod_emod_of_dvd _ dvd_rfl)
  have hbezout := congrArg (Int.cast : ℤ → Fr) (Int.gcd_eq_gcd_ab x.val frModulus)
  rw [Int.gcd_natCast_natCast, hgcd, Int.cast_add, Int.cast_mul, Int.cast_mul,
    Int.cast_natCast frModulus, ZMod.natCast_self, zero_mul, add_zero, Int.cast_natCast x.val,
    ZMod.natCast_zmod_val, Nat.cast_one, Int.cast_one] at hbezout
  exact hcast.trans (eq_inv_of_mul_eq_one_right hbezout.symm)

theorem frInv_stores (m : Memory Addr) (r a : Place Addr) (ha : (m a).WellFormed)
    (hzero : (m a).value ≠ 0) :
    ∃ m', frInv m r a = some m' ∧ Stores m m' r (m a).value⁻¹ := by
  obtain ⟨n, hn, hlow, hhigh, hvalue⟩ := invert_eq hzero
  refine ⟨frFromMpz m r n, ?_, hvalue ▸ frFromMpz_stores m r hlow hhigh⟩
  rw [frInv, frToMpz_eq m a ha, hn]
  rfl

/-- **Division**, the result possibly one of the operands. -/
theorem frDiv_stores (m : Memory Addr) (r a b : Place Addr) (ha : (m a).WellFormed)
    (hb : (m b).WellFormed) (hzero : (m b).value ≠ 0) (hstack : a ≠ .stack) :
    ∃ m', frDiv m r a b = some m' ∧ Stores m m' r ((m a).value / (m b).value) := by
  obtain ⟨m', hm', hwf, hvalue, hframe⟩ := frInv_stores m .stack b hb hzero
  have hinv : (m' a) = m a := hframe a hstack hstack
  have hmul := frMul_stores m' r a .stack (hinv ▸ ha) hwf
  refine ⟨_, congrArg (Option.map _) hm', hmul.wellFormed, ?_, ?_⟩
  · rw [hmul.value, hinv, hvalue, div_eq_mul_inv]
  · intro p hr hp
    exact (hmul.frame p hr hp).trans (hframe p hp hp)

theorem sampleMemory_seven : (sampleMemory (.cell 2)).value ≠ 0 := by
  have hvalue : (sampleMemory (.cell 2)).value = (7 : ℕ) :=
    congrArg Nat.cast (toNat_small (by norm_num))
  rw [hvalue, Ne, ZMod.natCast_eq_zero_iff]
  norm_num

theorem frDiv_stores_sample :
    ∃ m', frDiv sampleMemory (.cell 0) (.cell 1) (.cell 2) = some m' ∧
      Stores sampleMemory m' (.cell 0)
        ((sampleMemory (.cell 1)).value / (sampleMemory (.cell 2)).value) :=
  frDiv_stores _ _ _ _ (sampleMemory_wellFormed _) (sampleMemory_wellFormed _) sampleMemory_seven
    nofun

/-! ### The scalar's bits -/

theorem bitIsSet_eq (scalar : List UInt8) (p : ℕ) :
    bitIsSet scalar p = (scalar.getD (p / 8) 0).toNat.testBit (p % 8) := by
  have hmod : p &&& 0x7 = p % 8 := Nat.and_two_pow_sub_one_eq_mod p 3
  have hlt : 2 ^ (p % 8) < 2 ^ 8 := Nat.pow_lt_pow_right (by norm_num) (Nat.mod_lt _ (by norm_num))
  rw [bitIsSet, hmod, Nat.shiftRight_eq_div_pow, Nat.one_shiftLeft]
  generalize scalar.getD (p / 2 ^ 3) 0 = b
  have hand : (b &&& UInt8.ofNat (2 ^ (p % 8))).toNat = b.toNat &&& 2 ^ (p % 8) := by
    rw [UInt8.toNat_and, UInt8.toNat_ofNat_of_lt' hlt]
  rw [Nat.and_two_pow] at hand
  cases hbit : b.toNat.testBit (p % 8) with
  | false =>
      rw [hbit, Bool.toNat_false, zero_mul] at hand
      rw [bne_eq_false_iff_eq]
      exact UInt8.toNat_inj.mp hand
  | true =>
      rw [hbit, Bool.toNat_true, one_mul] at hand
      rw [bne_iff_ne]
      intro hzero
      rw [hzero] at hand
      exact (Nat.two_pow_pos _).ne hand

/-- The macro reads the bits of the scalar. -/
theorem bitIsSet_testBit (scalar : List UInt8) (p : ℕ) :
    bitIsSet scalar p = (LittleEndian.toNat scalar).testBit p := by
  rw [bitIsSet_eq]
  induction scalar generalizing p with
  | nil => exact (Nat.zero_testBit _).trans (Nat.zero_testBit _).symm
  | cons b scalar ih =>
      rw [LittleEndian.toNat_cons, Nat.testBit_two_pow_mul_add _ b.toNat_lt]
      split_ifs with hp
      · rw [Nat.div_eq_of_lt hp, Nat.mod_eq_of_lt hp]
        rfl
      · obtain ⟨p, rfl⟩ := Nat.exists_eq_add_of_le' (Nat.le_of_not_lt hp)
        rw [Nat.add_div_right _ (by norm_num), Nat.add_mod_right, Nat.add_sub_cancel, ← ih]
        rfl

theorem shiftRight_bit (n i : ℕ) : n >>> i = 2 * (n >>> (i + 1)) + (n.testBit i).toNat := by
  rw [Nat.shiftRight_succ, Nat.testBit_eq_decide_div_mod_eq, ← Nat.shiftRight_eq_div_pow]
  have h := Nat.div_add_mod (n >>> i) 2
  rcases Nat.mod_two_eq_zero_or_one (n >>> i) with hm | hm
  · rw [hm] at h ⊢
    exact h.symm
  · rw [hm] at h ⊢
    exact h.symm

/-! ### The exponentiation -/

theorem rawCopy_sets (m : Memory Addr) (rdi p : Place Addr) (rdx : Arg Addr) {v : Fr}
    (h : Holds (m p).longVal v) : Sets m (call rawCopy m rdi (.element p) rdx) rdi v := by
  refine call_sets rfl ((rawCopy_leads _).mono ?_)
  intro s hs
  rw [Denotes, hs]
  exact h

theorem rawSquare_sets (m : Memory Addr) (rdi p : Place Addr) (rdx : Arg Addr) {v : Fr}
    (h : Holds (m p).longVal (v * radix)) :
    Sets m (call rawMSquare m rdi (.element p) rdx) rdi (v * v * radix) := by
  have hsets := rawMSquare_sets m rdi (.element p) rdx h.1
  have hne := radix_ne_zero
  simp only [Arg.number, h.2] at hsets
  convert hsets using 1
  field_simp

theorem rawMul_sets (m : Memory Addr) (rdi p p' : Place Addr) {v w : Fr}
    (h : Holds (m p).longVal (v * radix)) (h' : Holds (m p').longVal (w * radix)) :
    Sets m (call rawMMul m rdi (.element p) (.element p')) rdi (v * w * radix) := by
  have hsets := rawMMul_sets m rdi (.element p) (.element p') h'.1
  have hne := radix_ne_zero
  simp only [Arg.number, h.2, h'.2] at hsets
  convert hsets using 1
  field_simp

/-- What the loop keeps once it has passed the bits that spell a number. -/
structure Exp.Passed (m : Memory Addr) (r : Place Addr) (v : Fr) (passed : ℕ) (s : Exp Addr) :
    Prop where
  base : Holds (s.memory .stack).longVal (v * radix)
  missing : s.oneFound = false → passed = 0
  found : s.oneFound = true → Holds (s.memory r).longVal (v ^ passed * radix)
  frame : ∀ p, p ≠ r → p ≠ .stack → s.memory p = m p

theorem Exp.Passed.of_sets {m m' : Memory Addr} {r : Place Addr} {v : Fr} {passed passed' : ℕ}
    {s : Exp Addr} (h : s.Passed m r v passed) (hstack : r ≠ .stack)
    (hsets : Sets s.memory m' r (v ^ passed' * radix)) :
    Exp.Passed m r v passed' ⟨m', true⟩ := by
  obtain ⟨x, hx, rfl⟩ := hsets
  refine ⟨?_, nofun, fun _ => ?_, ?_⟩
  · simp only [Function.update_of_ne hstack.symm]
    exact h.base
  · simp only [Function.update_self]
    exact hx
  · intro p hr hp
    exact (Function.update_of_ne hr _ _).trans (h.frame p hr hp)

theorem Exp.turn_passed {m : Memory Addr} {r : Place Addr} {v : Fr} {n i : ℕ} {s : Exp Addr}
    {scalar : List UInt8} (hstack : r ≠ .stack) (hbit : bitIsSet scalar i = n.testBit i)
    (h : s.Passed m r v (n >>> (i + 1))) : (s.turn r scalar i).Passed m r v (n >>> i) := by
  rw [shiftRight_bit, turn, hbit]
  cases hfound : s.oneFound with
  | false =>
      have hzero := h.missing hfound
      cases n.testBit i with
      | false =>
          rw [hzero] at h ⊢
          exact h
      | true =>
          refine h.of_sets hstack ?_
          rw [hzero, Bool.toNat_true, mul_zero, zero_add, pow_one]
          exact rawCopy_sets _ _ _ _ h.base
  | true =>
      have hsquare := rawSquare_sets s.memory r r (.word 0) (h.found hfound)
      rw [← pow_add, ← two_mul] at hsquare
      cases n.testBit i with
      | false =>
          rw [Bool.toNat_false, add_zero]
          exact h.of_sets hstack hsquare
      | true =>
          rw [Bool.toNat_true]
          have hpassed := h.of_sets hstack hsquare
          have hproduct := rawMul_sets _ r r .stack (hpassed.found rfl) hpassed.base
          rw [← pow_succ] at hproduct
          simp only [Bool.not_true, Bool.false_eq_true, if_false, if_true]
          exact h.of_sets hstack (hsquare.trans hproduct)

theorem Exp.loop_passed {m : Memory Addr} {r : Place Addr} {v : Fr} {scalar : List UInt8}
    (hstack : r ≠ .stack) (i : ℕ) {s : Exp Addr}
    (h : s.Passed m r v (LittleEndian.toNat scalar >>> i)) :
    (Exp.loop r scalar i s).Passed m r v (LittleEndian.toNat scalar) := by
  induction i generalizing s with
  | zero => exact h
  | succ i ih => exact ih (turn_passed hstack (bitIsSet_testBit scalar i) h)

/-- The scalar may have leading zeros, and may be zero. The base may be the result. -/
theorem rawExp_eq (m : Memory Addr) (r base fOne : Place Addr) (scalar : List UInt8) {v : Fr}
    (hbase : Holds (m base).longVal (v * radix)) (hone : Holds (m fOne).longVal radix)
    (hr : r ≠ .stack) (hfOne : fOne ≠ .stack) (hne : fOne ≠ r) :
    Holds (rawExp m r base fOne scalar r).longVal (v ^ LittleEndian.toNat scalar * radix) ∧
      ∀ p, p ≠ r → p ≠ .stack → rawExp m r base fOne scalar p = m p := by
  obtain ⟨x, hx, hcopied⟩ := rawCopy_sets m .stack base (.word 0) hbase
  have hshift : LittleEndian.toNat scalar >>> (scalar.length * 8) = 0 := by
    rw [Nat.shiftRight_eq_div_pow]
    exact Nat.div_eq_of_lt (LittleEndian.toNat_lt scalar)
  have hstart : Exp.Passed m r v (LittleEndian.toNat scalar >>> (scalar.length * 8))
      ⟨call rawCopy m .stack (.element base) (.word 0), false⟩ := by
    refine ⟨?_, fun _ => hshift, nofun, ?_⟩
    · simp only [hcopied, Function.update_self]
      exact hx
    · intro p _ hp
      rw [hcopied]
      exact Function.update_of_ne hp _ _
  have hloop := Exp.loop_passed hr _ hstart
  rw [rawExp]
  cases hfound : (Exp.loop r scalar (scalar.length * 8)
      ⟨call rawCopy m .stack (.element base) (.word 0), false⟩).oneFound with
  | true => exact ⟨hloop.found hfound, hloop.frame⟩
  | false =>
      rw [← hloop.frame fOne hne hfOne] at hone
      have hcopy := rawCopy_sets _ r fOne (.word 0) hone
      obtain ⟨y, hy, heq⟩ := hcopy
      rw [hloop.missing hfound, pow_zero, one_mul]
      refine ⟨?_, fun p hpr hp => ?_⟩
      · simp only [Bool.not_false, if_true, heq, Function.update_self]
        exact hy
      · simp only [Bool.not_false, if_true, heq, Function.update_of_ne hpr]
        exact hloop.frame p hpr hp

/-- `RawFr::set` puts a number into Montgomery form. -/
theorem rawSet_sets (m : Memory Addr) (r : Place Addr) (value : Int32) :
    Sets m (rawSet m r value) r ((value.toInt : Fr) * radix) := by
  have hval := val_short (small_toInt value) (rfl : (value.toInt : Fr) = value.toInt)
  have hwords : Holds (Limbs.ofNat (value.toInt : Fr).val) (value.toInt : Fr) := by
    have hlt := ZMod.val_lt (value.toInt : Fr)
    have htoNat := Limbs.toNat_ofNat (hlt.trans (by norm_num))
    refine ⟨htoNat.trans_lt hlt, ?_⟩
    rw [htoNat, ZMod.natCast_zmod_val]
  have hset := rawMMul_sets (Function.update m r { m r with
    longVal := Limbs.ofNat (value.toInt : Fr).val }) r (.element r) (.datum .R2) holds_R2.1
  simp only [Arg.number, Function.update_self, hwords.2, holds_R2.2] at hset
  rw [mul_radix_pow_div, pow_one] at hset
  rw [rawSet, hval, Int.natAbs_natCast]
  exact Sets.trans ⟨_, hwords, rfl⟩ hset

/-- A raw element's residue. -/
def FrElement.rawValue (x : FrElement) : Fr := x.longVal.toNat / radix

theorem rawValue_of_holds {x : FrElement} {v : Fr} (h : Holds x.longVal (v * radix)) :
    x.rawValue = v := by
  rw [FrElement.rawValue, h.2, mul_div_cancel_right₀ _ radix_ne_zero]

/-- **Into Montgomery form and back leaves the residue of a number**, reduced. -/
theorem rawFromMontgomery_toMontgomery (m : Memory Addr) (r r' a : Place Addr) (rdx : Arg Addr) :
    (call rawFromMontgomery (rawToMontgomery m r a) r' (.element r) rdx r').longVal.toNat
      = (m a).longVal.toNat % frModulus := by
  obtain ⟨x, hx, hto⟩ := rawMMul_sets m r (.element a) (.datum .R2) holds_R2.1
  simp only [Arg.number, holds_R2.2] at hx
  rw [mul_radix_pow_div, pow_one] at hx
  have hwords : (rawToMontgomery m r a r).longVal = x := by
    rw [rawToMontgomery, hto, Function.update_self]
  obtain ⟨y, hy, hfrom⟩ := rawFromMontgomery_sets (rawToMontgomery m r a) r' (.element r) rdx
    (by rw [Arg.number, hwords]; exact hx.1)
  rw [Arg.number, hwords, hx.2, mul_div_cancel_right₀ _ radix_ne_zero] at hy
  rw [hfrom, Function.update_self]
  have hmod := (ZMod.natCast_eq_natCast_iff' _ _ _).mp hy.2
  rwa [Nat.mod_eq_of_lt hy.1] at hmod

end Veritas
