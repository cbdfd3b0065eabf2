import Veritas.Proof.RawField
import Mathlib.Tactic.LinearCombination

/-!
# The raw sums and differences

The additive routines compute word by word through the result's block and correct by the modulus.
They read a word before they write the one at the same offset, so the result may overlap an operand;
only `rawNegLS` reads an operand after it has written the result.
-/

namespace Veritas

open X64

variable {Block : Type} [DecidableEq Block]

/-! ### Corrections by the modulus -/

theorem sq_leads {s : State Block} (h : frModulus ≤ behind s .rdi) :
    Leads static sq s fun s' => behind s' .rdi + frModulus = behind s .rdi := by
  refine .mov (.sub fun t0 b0 _ _ _ ht0 => ?_)
  refine .mov (.sbb fun t1 b1 _ _ _ ht1 => ?_)
  refine .mov (.sbb fun t2 b2 _ _ _ ht2 => ?_)
  refine .mov (.sbb fun t3 b3 _ _ _ ht3 => ?_)
  refine .label (.ret ?_)
  have hq := mul_modulus 1
  have h0 := t0.toNat_lt
  have h1 := t1.toNat_lt
  have h2 := t2.toNat_lt
  have h3 := t3.toNat_lt
  have hborrow := b3.toNat_le
  simp [behind_eq] at h ht0 ht1 ht2 ht3 ⊢
  omega

theorem aq_leads (s : State Block) :
    Leads static aq s fun s' => ∃ c : ℕ,
      behind s' .rdi + 2 ^ 256 * c = behind s .rdi + frModulus := by
  refine .mov (.add fun t0 c0 _ _ _ ht0 => ?_)
  refine .mov (.adc fun t1 c1 _ _ _ ht1 => ?_)
  refine .mov (.adc fun t2 c2 _ _ _ ht2 => ?_)
  refine .mov (.adc fun t3 c3 _ _ _ ht3 => ?_)
  refine .label (.ret ⟨c3.toNat, ?_⟩)
  have hq := mul_modulus 1
  simp [behind_eq] at ht0 ht1 ht2 ht3 ⊢
  omega

theorem compareResult_leads {s : State Block} (hrax : s.reg .rax = s.mem (s.ptr .rdi) 24)
    (ht : behind s .rdi < 2 * frModulus) :
    Leads static compareResult s fun s' => behind s' .rdi < frModulus ∧
      behind s' .rdi ≡ behind s .rdi [MOD frModulus] := by
  have hless (t : State Block) (hsame : behind t .rdi = behind s .rdi)
      (h : behind s .rdi < frModulus) :
      Leads static ([.ret] : Code) t fun s' => behind s' .rdi < frModulus ∧
        behind s' .rdi ≡ behind s .rdi [MOD frModulus] := by
    have hvalue := sub_modulus ht (by rw [hsame, if_pos h] : behind t .rdi = _)
    exact .ret hvalue
  have hgreater (t : State Block) (hsame : behind t .rdi = behind s .rdi)
      (h : ¬ behind s .rdi < frModulus) :
      Leads static sq t fun s' => behind s' .rdi < frModulus ∧
        behind s' .rdi ≡ behind s .rdi [MOD frModulus] := by
    refine (sq_leads (by omega)).mono fun s' hs' => sub_modulus ht ?_
    rw [if_neg h]
    omega
  have hq := mul_modulus 1
  have hvalue := behind_eq s .rdi
  have hm0 := (s.mem (s.ptr .rdi) 0).toNat_lt
  have hm8 := (s.mem (s.ptr .rdi) 8).toNat_lt
  have hm16 := (s.mem (s.ptr .rdi) 16).toNat_lt
  have hq0 := (static .q 0).toNat_lt
  have hq8 := (static .q 8).toNat_lt
  have hq16 := (static .q 16).toNat_lt
  refine .threeWay (fun h3 c o z n => hless _ rfl ?_) (fun h3 c o z n => hgreater _ rfl ?_)
    fun h3 c o z n => .mov ?_
  · simp [hrax] at h3
    omega
  · simp [hrax] at h3
    omega
  refine .threeWay (fun h2 c o z n => hless _ rfl ?_) (fun h2 c o z n => hgreater _ rfl ?_)
    fun h2 c o z n => .mov ?_
  · simp [hrax] at h3 h2
    omega
  · simp [hrax] at h3 h2
    omega
  refine .threeWay (fun h1 c o z n => hless _ rfl ?_) (fun h1 c o z n => hgreater _ rfl ?_)
    fun h1 c o z n => .mov ?_
  · simp [hrax] at h3 h2 h1
    omega
  · simp [hrax] at h3 h2 h1
    omega
  refine .threeWay (fun h0 c o z n => hless _ rfl ?_) (fun h0 c o z n => hgreater _ rfl ?_)
    fun h0 c o z n => .label (hgreater _ rfl ?_)
  · simp [hrax] at h3 h2 h1 h0
    omega
  · simp [hrax] at h3 h2 h1 h0
    omega
  · simp [hrax] at h3 h2 h1 h0
    omega

/-! ### Sums -/

omit [DecidableEq Block] in
/-- The outcome of a correction, in the field. -/
theorem Denotes.of_modEq {s : State Block} {value : ℕ}
    (h : behind s .rdi < frModulus ∧ behind s .rdi ≡ value [MOD frModulus]) :
    Denotes (value : Fr) s :=
  ⟨h.1, (ZMod.natCast_eq_natCast_iff _ _ _).mpr h.2⟩

theorem word_lt_modulus (x : UInt64) : x.toNat < frModulus :=
  x.toNat_lt.trans (by norm_num)

theorem addLL_leads (s : State Block) :
    Leads static addLL s fun s' => s'.reg .rax = s'.mem (s'.ptr .rdi) 24 ∧
      behind s' .rdi + 2 ^ 256 * s'.cf.toNat = behind s .rsi + behind s .rdx := by
  refine .mov (.add fun t0 c0 _ _ _ ht0 => .mov ?_)
  refine .mov (.adc fun t1 c1 _ _ _ ht1 => .mov ?_)
  refine .mov (.adc fun t2 c2 _ _ _ ht2 => .mov ?_)
  refine .mov (.adc fun t3 c3 _ _ _ ht3 => .mov (.done ?_))
  simp [behind_eq] at ht0 ht1 ht2 ht3 ⊢
  omega

theorem addLS_leads (s : State Block) :
    Leads static addLS s fun s' =>
      behind s' .rdi + 2 ^ 256 * s'.cf.toNat = behind s .rsi + (s.reg .rdx).toNat := by
  refine .add fun t0 c0 _ _ _ ht0 => .mov ?_
  refine .mov (.adc fun t1 c1 _ _ _ ht1 => .mov ?_)
  refine .mov (.adc fun t2 c2 _ _ _ ht2 => .mov ?_)
  refine .mov (.adc fun t3 c3 _ _ _ ht3 => .mov (.done ?_))
  simp [behind_eq] at ht0 ht1 ht2 ht3 ⊢
  omega

theorem rawAddLL_leads (s : State Block) (ha : behind s .rsi < frModulus)
    (hb : behind s .rdx < frModulus) :
    Leads static rawAddLL s (Denotes (behind s .rsi + behind s .rdx)) := by
  refine .append rfl ((addLL_leads s).mono ?_)
  rintro s1 ⟨hrax, hsum⟩
  have hq := modulus_lt
  have hcarry : s1.cf = false := by
    rw [← Bool.toNat_eq_zero]
    omega
  refine .jump (fun h => ?_) fun _ => ?_
  · simp [hcarry] at h
  have hsum' : behind s1 .rdi = behind s .rsi + behind s .rdx := by
    simpa [hcarry] using hsum
  refine (compareResult_leads hrax (by omega)).mono fun s' hs' => ?_
  rw [← Nat.cast_add, ← hsum']
  exact .of_modEq hs'

theorem rawAddLS_leads (s : State Block) (ha : behind s .rsi < frModulus) :
    Leads static rawAddLS s (Denotes (behind s .rsi + (s.reg .rdx).toNat)) := by
  refine .append rfl ((addLS_leads s).mono ?_)
  intro s1 hsum
  have hq := modulus_lt
  have hword := word_lt_modulus (s.reg .rdx)
  have hcarry : s1.cf = false := by
    rw [← Bool.toNat_eq_zero]
    omega
  refine .jump (fun h => ?_) fun _ => .mov ?_
  · simp [hcarry] at h
  have hsum' : behind s1 .rdi = behind s .rsi + (s.reg .rdx).toNat := by
    simpa [hcarry] using hsum
  generalize hs2 : move static s1 (.reg .rax) (.mem .rdi 24 : Operand Datum) = s2
  have hsame : behind s2 .rdi = behind s1 .rdi := by rw [← hs2]; rfl
  refine (compareResult_leads (by simp [← hs2]) (by omega)).mono fun s' hs' => ?_
  rw [← Nat.cast_add, ← hsum', ← hsame]
  exact .of_modEq hs'

/-! ### Differences -/

theorem subLL_leads (s : State Block) :
    Leads static subLL s fun s' =>
      behind s' .rdi + behind s .rdx = behind s .rsi + 2 ^ 256 * s'.cf.toNat := by
  refine .mov (.sub fun t0 c0 _ _ _ ht0 => .mov ?_)
  refine .mov (.sbb fun t1 c1 _ _ _ ht1 => .mov ?_)
  refine .mov (.sbb fun t2 c2 _ _ _ ht2 => .mov ?_)
  refine .mov (.sbb fun t3 c3 _ _ _ ht3 => .mov (.done ?_))
  simp [behind_eq] at ht0 ht1 ht2 ht3 ⊢
  omega

theorem subLS_leads (s : State Block) :
    Leads static subLS s fun s' =>
      behind s' .rdi + (s.reg .rdx).toNat = behind s .rsi + 2 ^ 256 * s'.cf.toNat := by
  refine .mov (.sub fun t0 c0 _ _ _ ht0 => .mov (.mov ?_))
  refine .mov (.sbb fun t1 c1 _ _ _ ht1 => .mov ?_)
  refine .mov (.sbb fun t2 c2 _ _ _ ht2 => .mov ?_)
  refine .mov (.sbb fun t3 c3 _ _ _ ht3 => .mov (.done ?_))
  simp [behind_eq] at ht0 ht1 ht2 ht3 ⊢
  omega

theorem subSL_leads (s : State Block) :
    Leads static subSL s fun s' =>
      behind s' .rdi + behind s .rdx = (s.reg .rsi).toNat + 2 ^ 256 * s'.cf.toNat := by
  refine .sub fun t0 c0 _ _ _ ht0 => .mov ?_
  refine .mov (.sbb fun t1 c1 _ _ _ ht1 => .mov ?_)
  refine .mov (.sbb fun t2 c2 _ _ _ ht2 => .mov ?_)
  refine .mov (.sbb fun t3 c3 _ _ _ ht3 => .mov (.done ?_))
  simp [behind_eq] at ht0 ht1 ht2 ht3 ⊢
  omega

/-- The correction after a difference. -/
theorem difference_leads {a b : ℕ} {s : State Block} (ha : a < frModulus) (hb : b < frModulus)
    (hdiff : behind s .rdi + b = a + 2 ^ 256 * s.cf.toNat) :
    Leads static (.jump .noCarry .done :: aq) s (Denotes ((a : Fr) - b)) := by
  have hbalance {s' : State Block} (h : behind s' .rdi < frModulus ∧
      behind s' .rdi + b ≡ a [MOD frModulus]) : Denotes ((a : Fr) - b) s' := by
    refine ⟨h.1, eq_sub_of_add_eq ?_⟩
    exact_mod_cast (ZMod.natCast_eq_natCast_iff _ _ _).mpr h.2
  refine .jump (fun h => ?_) fun h => ?_
  · rw [Cond.holds, Bool.not_eq_true'] at h
    rw [h, Bool.toNat_false, Nat.mul_zero, Nat.add_zero] at hdiff
    have hdone : Denotes ((a : Fr) - b) s := hbalance ⟨by omega, by rw [hdiff]⟩
    exact .ret hdone
  · rw [Cond.holds, Bool.not_eq_false'] at h
    rw [h, Bool.toNat_true] at hdiff
    refine (aq_leads s).mono fun s' hs' => hbalance ?_
    obtain ⟨c, hc⟩ := hs'
    have hlt := behind_lt s' .rdi
    have hstart := behind_lt s .rdi
    have hq := modulus_lt
    have hresult : behind s' .rdi + b = a + frModulus := by omega
    refine ⟨by omega, ?_⟩
    rw [hresult]
    exact Nat.ModEq.symm (Nat.modEq_of_dvd ⟨1, by push_cast; ring⟩)

theorem rawSubLL_leads (s : State Block) (ha : behind s .rsi < frModulus)
    (hb : behind s .rdx < frModulus) :
    Leads static rawSubLL s (Denotes (behind s .rsi - behind s .rdx)) :=
  .append rfl ((subLL_leads s).mono fun _ h => difference_leads ha hb h)

theorem rawSubLS_leads (s : State Block) (ha : behind s .rsi < frModulus) :
    Leads static rawSubLS s (Denotes (behind s .rsi - (s.reg .rdx).toNat)) :=
  .append rfl ((subLS_leads s).mono fun _ h => difference_leads ha (word_lt_modulus _) h)

theorem rawSubSL_leads (s : State Block) (hb : behind s .rdx < frModulus) :
    Leads static rawSubSL s (Denotes ((s.reg .rsi).toNat - behind s .rdx)) :=
  .append rfl ((subSL_leads s).mono fun _ h => difference_leads (word_lt_modulus _) hb h)

/-! ### Opposites -/

theorem negate_leads (s : State Block) (ha : behind s .rsi < frModulus) :
    Leads static negate s fun s' => behind s' .rdi + behind s .rsi = frModulus := by
  refine .mov (.sub fun t0 b0 _ _ _ ht0 => .mov ?_)
  refine .mov (.sbb fun t1 b1 _ _ _ ht1 => .mov ?_)
  refine .mov (.sbb fun t2 b2 _ _ _ ht2 => .mov ?_)
  refine .mov (.sbb fun t3 b3 _ _ _ ht3 => .mov (.ret ?_))
  have hq := mul_modulus 1
  have h0 := t0.toNat_lt
  have h1 := t1.toNat_lt
  have h2 := t2.toNat_lt
  have h3 := t3.toNat_lt
  have hborrow := b3.toNat_le
  simp [behind_eq] at ha ht0 ht1 ht2 ht3 ⊢
  omega

theorem rawNegL_leads (s : State Block) (ha : behind s .rsi < frModulus) :
    Leads static rawNegL s (Denotes (-(behind s .rsi : Fr))) := by
  have hnegate (t : State Block) (hsame : behind t .rsi = behind s .rsi)
      (h : behind s .rsi ≠ 0) : Leads static negate t (Denotes (-(behind s .rsi : Fr))) := by
    refine (negate_leads t (hsame ▸ ha)).mono fun s' hs' => ⟨by omega, ?_⟩
    rw [eq_neg_iff_add_eq_zero, ← hsame, ← Nat.cast_add, hs']
    exact ZMod.natCast_self frModulus
  have hvalue := behind_eq s .rsi
  refine .clear (.cmp fun o => .jump (fun h0 => hnegate _ rfl ?_) fun h0 => ?_)
  · simp at h0
    omega
  refine .cmp fun o => .jump (fun h1 => hnegate _ rfl ?_) fun h1 => ?_
  · simp at h1
    omega
  refine .cmp fun o => .jump (fun h2 => hnegate _ rfl ?_) fun h2 => ?_
  · simp at h2
    omega
  refine .cmp fun o => .jump (fun h3 => hnegate _ rfl ?_) fun h3 => ?_
  · simp at h3
    omega
  refine .mov (.mov (.mov (.mov (.ret ?_))))
  simp at h0 h1 h2 h3
  have hzero : behind s .rsi = 0 := by
    simp [hvalue, h0, h1, h2, h3]
  rw [hzero, Denotes, behind_eq]
  simp

theorem negLS_leads (s : State Block) (hptr : s.ptr .rdi ≠ s.ptr .rsi) :
    Leads static negLS s fun s' =>
      behind s' .rdi + (behind s .rsi + (s.reg .rdx).toNat)
        = frModulus + 2 ^ 256 * (!s'.zf).toNat := by
  refine .mov (.sub fun t0 b0 _ _ _ ht0 => .mov ?_)
  refine .mov (.sbb fun t1 b1 _ _ _ ht1 => .mov ?_)
  refine .mov (.sbb fun t2 b2 _ _ _ ht2 => .mov ?_)
  refine .mov (.sbb fun t3 b3 _ _ _ ht3 => .mov (.setc ?_))
  refine .mov (.sub fun u0 c0 _ _ _ hu0 => .mov ?_)
  refine .mov (.sbb fun u1 c1 _ _ _ hu1 => .mov ?_)
  refine .mov (.sbb fun u2 c2 _ _ _ hu2 => .mov ?_)
  refine .mov (.sbb fun u3 c3 _ _ _ hu3 => .mov (.setc (.or fun n => .done ?_)))
  have hq := mul_modulus 1
  have hword := word_lt_modulus (s.reg .rdx)
  simp [behind_eq, hptr.symm] at ht0 ht1 ht2 ht3 hu0 hu1 hu2 hu3 ⊢
  have h0 := t0.toNat_lt
  have h1 := t1.toNat_lt
  have h2 := t2.toNat_lt
  have h3 := t3.toNat_lt
  -- the modulus is above the word, so only the second difference borrows
  have hfirst : b3 = false := by
    rw [← Bool.toNat_eq_zero]
    omega
  rw [hfirst, Bool.toNat_false] at ht3
  cases c3 <;> simp [hfirst] at hu3 ⊢ <;> omega

theorem rawNegLS_leads (s : State Block) (hptr : s.ptr .rdi ≠ s.ptr .rsi)
    (ha : behind s .rsi < frModulus) (hb : 0 < (s.reg .rdx).toNat) :
    Leads static rawNegLS s (Denotes (-(behind s .rsi : Fr) - (s.reg .rdx).toNat)) := by
  refine .append rfl ((negLS_leads s hptr).mono fun s1 hdiff => ?_)
  have hword := word_lt_modulus (s.reg .rdx)
  have hbalance {s' : State Block} (h : behind s' .rdi < frModulus ∧
      (behind s' .rdi + (behind s .rsi + (s.reg .rdx).toNat)) % frModulus = 0) :
      Denotes (-(behind s .rsi : Fr) - (s.reg .rdx).toNat) s' := by
    refine ⟨h.1, ?_⟩
    have hsum := (ZMod.natCast_eq_zero_iff _ _).mpr (Nat.dvd_of_mod_eq_zero h.2)
    push_cast at hsum
    linear_combination hsum
  refine .jump (fun h => ?_) fun h => ?_
  · rw [Cond.holds] at h
    rw [h, Bool.not_true, Bool.toNat_false, Nat.mul_zero, Nat.add_zero] at hdiff
    have hdone : Denotes (-(behind s .rsi : Fr) - (s.reg .rdx).toNat) s1 :=
      hbalance ⟨by omega, by rw [hdiff, Nat.mod_self]⟩
    exact .ret hdone
  · rw [Cond.holds] at h
    rw [h, Bool.not_false, Bool.toNat_true] at hdiff
    refine (aq_leads s1).mono fun s' hs' => hbalance ?_
    obtain ⟨c, hc⟩ := hs'
    have hlt := behind_lt s' .rdi
    have hstart := behind_lt s1 .rdi
    have hq := modulus_lt
    have hresult : behind s' .rdi + (behind s .rsi + (s.reg .rdx).toNat) = 2 * frModulus := by omega
    refine ⟨by omega, ?_⟩
    rw [hresult, Nat.mul_mod_left]

/-! ### Two's complement words -/

/-- The number after the header that a register points to. -/
def after (s : State Block) (r : Reg) : ℕ := (limbsAt fun o => s.mem (s.ptr r) (8 + o)).toNat

omit [DecidableEq Block] in
theorem after_eq (s : State Block) (r : Reg) :
    after s r = (s.mem (s.ptr r) 8).toNat + 2 ^ 64 * (s.mem (s.ptr r) 16).toNat
      + 2 ^ 128 * (s.mem (s.ptr r) 24).toNat + 2 ^ 192 * (s.mem (s.ptr r) 32).toNat :=
  Limbs.toNat_eq _

/-- A two's complement word as a residue. -/
theorem rawCopyS2L_leads (s : State Block) :
    Leads static rawCopyS2L s fun s' => s'.mem (s'.ptr .rdi) 0 = 0x8000000000000000 ∧
      after s' .rdi < frModulus ∧ (after s' .rdi : Fr) = signed (s.reg .rsi) := by
  have hfield {s' : State Block} (v : ℕ) (hv : after s' .rdi = v) (hlt : v < frModulus)
      (hsigned : (v : ℤ) = signed (s.reg .rsi) ∨ (v : ℤ) = signed (s.reg .rsi) + frModulus) :
      after s' .rdi < frModulus ∧ (after s' .rdi : Fr) = signed (s.reg .rsi) := by
    rw [hv, ← Int.cast_natCast]
    refine ⟨hlt, ?_⟩
    rcases hsigned with hsigned | hsigned
    · rw [hsigned]
    · rw [hsigned, Int.cast_add, Int.cast_natCast, ZMod.natCast_self, add_zero]
  have hsigned := signed_eq (s.reg .rsi)
  have hword := word_lt_modulus (s.reg .rsi)
  have hlt := (s.reg .rsi).toNat_lt
  refine .mov (.mov (.signTest (fun hnegative c o z n => ?_) fun hnegative c o z n => ?_))
  · refine .add fun t0 c0 _ _ _ ht0 => .mov (.mov (.mov ?_))
    refine .adc fun t1 c1 _ _ _ ht1 => .mov (.mov ?_)
    refine .adc fun t2 c2 _ _ _ ht2 => .mov (.mov ?_)
    refine .adc fun t3 c3 _ _ _ ht3 => .mov (.ret ⟨?_, ?_⟩)
    · simp
    have hq := mul_modulus 1
    have h0 := t0.toNat_lt
    have h1 := t1.toNat_lt
    have h2 := t2.toNat_lt
    have h3 := t3.toNat_lt
    change negative (s.reg .rsi) = true at hnegative
    have hlow := negative_eq_true.mp hnegative
    rw [hnegative, Bool.toNat_true] at hsigned
    simp at ht0 ht1 ht2 ht3
    have hbit := c3.toNat_le
    have hvalue : t0.toNat + 2 ^ 64 * t1.toNat + 2 ^ 128 * t2.toNat + 2 ^ 192 * t3.toNat + 2 ^ 64
        = (s.reg .rsi).toNat + frModulus := by omega
    refine hfield (t0.toNat + 2 ^ 64 * t1.toNat + 2 ^ 128 * t2.toNat + 2 ^ 192 * t3.toNat) ?_ ?_
      (Or.inr ?_)
    · simp [after_eq]
    · omega
    · omega
  · refine .mov (.clear (.mov (.mov (.mov (.ret ⟨?_, ?_⟩)))))
    · simp
    change negative (s.reg .rsi) = false at hnegative
    rw [hnegative, Bool.toNat_false] at hsigned
    refine hfield (s.reg .rsi).toNat (by simp [after_eq]) hword (Or.inl (by omega))

/-! ### Copies and tests -/

theorem rawCopy_leads (s : State Block) :
    Leads static rawCopy s fun s' => behind s' .rdi = behind s .rsi := by
  refine .mov (.mov (.mov (.mov (.mov (.mov (.mov (.mov (.ret ?_))))))))
  simp [behind_eq]

/-- The first number is written over, and the second becomes what `rbx` held, four times over. -/
theorem rawSwap_leads (s : State Block) :
    Leads static rawSwap s fun s' =>
      (s.ptr .rdi ≠ s.ptr .rsi → behind s' .rdi = behind s .rsi) ∧
      s'.ptr = s.ptr ∧
      limbsAt (s'.mem (s.ptr .rsi)) = ⟨s.reg .rbx, s.reg .rbx, s.reg .rbx, s.reg .rbx⟩ := by
  refine .mov (.mov (.mov (.mov (.mov (.mov (.mov (.mov ?_)))))))
  refine .mov (.mov (.mov (.mov (.mov (.mov (.mov (.mov (.ret ?_))))))))
  refine ⟨fun hptr => ?_, rfl, ?_⟩
  · simp [behind_eq, hptr]
  · simp [limbsAt]

/-- The two numbers of a state have changed places. -/
structure Exchanged (s s' : State Block) : Prop where
  first : behind s' .rdi = behind s .rsi
  second : behind s' .rsi = behind s .rdi

/-- **`swap` loses the first number.** It saves the number's words to `rcx` and restores them from
`rbx`, so the numbers change places only if `rbx` already held every word of the first. -/
theorem rawSwap_exchanged_iff (s : State Block) :
    Exchanged s (run static rawSwap none s) ↔
      limbsAt (s.mem (s.ptr .rdi)) = ⟨s.reg .rbx, s.reg .rbx, s.reg .rbx, s.reg .rbx⟩ := by
  obtain ⟨hfirst, hptr, hsecond⟩ := rawSwap_leads s
  constructor
  · intro h
    have hvalue := h.second
    rw [behind, hptr, hsecond] at hvalue
    exact (Limbs.toNat_injective hvalue).symm
  · intro h
    have hrestored : behind (run static rawSwap none s) .rsi = behind s .rdi := by
      rw [behind, hptr, hsecond, behind, h]
    refine ⟨?_, hrestored⟩
    by_cases hsame : s.ptr .rdi = s.ptr .rsi
    · -- With one block behind both pointers, the word written last is the one that stays.
      have hone (t : State Block) (ht : t.ptr = s.ptr) : behind t .rdi = behind t .rsi := by
        rw [behind, behind, ht, hsame]
      rw [hone _ hptr, hrestored, hone s rfl]
    · exact hfirst hsame

theorem rawIsEq_leads (s : State Block) :
    Leads static rawIsEq s fun s' =>
      s'.reg .rax = if behind s .rdi = behind s .rsi then 1 else 0 := by
  have hequal : behind s .rdi = behind s .rsi
      ↔ limbsAt (s.mem (s.ptr .rdi)) = limbsAt (s.mem (s.ptr .rsi)) :=
    Limbs.toNat_injective.eq_iff
  have hdiffer (t : State Block) (h : behind s .rdi ≠ behind s .rsi) :
      Leads static ([.instr (.clear .rax), .ret] : Code) t fun s' =>
        s'.reg .rax = if behind s .rdi = behind s .rsi then 1 else 0 := by
    refine .clear (.ret ?_)
    rw [if_neg h]
    rfl
  rw [limbsAt, limbsAt, Limbs.mk.injEq] at hequal
  refine .mov (.cmp fun o => .jump (fun h0 => hdiffer _ fun h => ?_) fun h0 => .mov ?_)
  · simp [(hequal.mp h).1] at h0
  refine .cmp fun o => .jump (fun h1 => hdiffer _ fun h => ?_) fun h1 => .mov ?_
  · simp [(hequal.mp h).2.1] at h1
  refine .cmp fun o => .jump (fun h2 => hdiffer _ fun h => ?_) fun h2 => .mov ?_
  · simp [(hequal.mp h).2.2.1] at h2
  refine .cmp fun o => .jump (fun h3 => hdiffer _ fun h => ?_) fun h3 => .mov (.ret ?_)
  · simp [(hequal.mp h).2.2.2] at h3
  simp [UInt64.toNat_inj] at h0 h1 h2 h3
  rw [if_pos (hequal.mpr ⟨h0, h1, h2, h3⟩)]
  rfl

end Veritas
