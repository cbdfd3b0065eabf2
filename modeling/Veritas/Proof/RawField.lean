import Veritas.Field
import Veritas.Library.Montgomery
import Veritas.RawField

/-!
# The raw routines compute in the field

Rows of the multiplication are proved once for an arbitrary state: the first loop adds a multiple of
a factor to the accumulator, the second divides it by a word modulo the field order. The routines
are sequences of rows, so their results are Montgomery products; the comparison at the end leaves
the residue below the modulus.
-/

namespace Veritas

open X64

/-! ### Constants -/

def Datum.limbs (datum : Datum) : Limbs := limbsAt (static datum)

theorem toNat_q : Datum.q.limbs.toNat = frModulus := by
  rw [Limbs.toNat_eq]
  rfl

theorem np_mul_modulus : (static .np 0).toNat * frModulus % 2 ^ 64 = 2 ^ 64 - 1 := by
  rfl

/-! ### The state between two rows -/

variable {Block : Type} [DecidableEq Block]

theorem move_reg (s : State Block) (dst src : Reg) :
    move static s (.reg dst) (.reg src) = (s.setReg dst (s.reg src)).setPtr dst (s.ptr src) :=
  rfl

theorem move_mem (s : State Block) (dst base : Reg) (offset : ℕ) :
    move static s (.reg dst) (.mem base offset) = s.setReg dst (s.mem (s.ptr base) offset) := rfl


/-- What a row relies on and restores. -/
structure Ready (rsi rcx : ℕ → UInt64) (s : State Block) : Prop where
  r9 : s.reg .r9 = static .np 0
  r10 : s.reg .r10 = 0
  cf : s.cf = false
  of : s.of = false
  rsi : s.mem (s.ptr .rsi) = rsi
  rcx : s.mem (s.ptr .rcx) = rcx

/-- The number in the accumulator registers. -/
def accumulator (s : State Block) (registers : List Reg) : ℕ := Words.value (registers.map s.reg)

omit [DecidableEq Block] in
theorem accumulator_four (s : State Block) :
    accumulator s [.r11, .r12, .r13, .r14]
      = (s.reg .r11).toNat + 2 ^ 64 * (s.reg .r12).toNat + 2 ^ 128 * (s.reg .r13).toNat
        + 2 ^ 192 * (s.reg .r14).toNat := by
  simp only [accumulator, List.map_cons, List.map_nil, Words.value_cons, Words.value_nil]
  omega

omit [DecidableEq Block] in
theorem accumulator_five (s : State Block) :
    accumulator s [.r11, .r12, .r13, .r14, .r15]
      = accumulator s [.r11, .r12, .r13, .r14] + 2 ^ 256 * (s.reg .r15).toNat := by
  simp only [accumulator, List.map_cons, List.map_nil, Words.value_cons, Words.value_nil]
  omega

theorem mul_modulus (m : ℕ) :
    m * frModulus = m * (static .q 0).toNat + 2 ^ 64 * (m * (static .q 8).toNat)
      + 2 ^ 128 * (m * (static .q 16).toNat) + 2 ^ 192 * (m * (static .q 24).toNat) := by
  rw [← toNat_q, Limbs.toNat_eq, Datum.limbs, limbsAt]
  ring

/-- The word that the second loop drops is zero. -/
theorem dropped_word {t m u l c w c' : ℕ} (hm : m + 2 ^ 64 * u = (static .np 0).toNat * t)
    (hmlt : m < 2 ^ 64) (hl : l + 2 ^ 64 * c = m * (static .q 0).toNat)
    (hw : w + 2 ^ 64 * c' = l + t) (hwlt : w < 2 ^ 64) : w = 0 := by
  have hmultiple : m = t * (static .np 0).toNat % 2 ^ 64 := by
    rw [Nat.mul_comm, ← hm, Nat.add_mul_mod_self_left, Nat.mod_eq_of_lt hmlt]
  obtain ⟨k, hk⟩ := Montgomery.dvd_add_mul (t := t) np_mul_modulus (by norm_num)
  rw [← hmultiple] at hk
  rw [mul_modulus] at hk
  omega

theorem secondLoop_leads {rsi rcx : ℕ → UInt64} {s : State Block} (h : Ready rsi rcx s)
    (hbound : accumulator s [.r11, .r12, .r13, .r14, .r15] + (2 ^ 64 - 1) * frModulus < 2 ^ 320) :
    Leads static secondLoop s fun s' => Ready rsi rcx s' ∧
      ∃ m < 2 ^ 64, 2 ^ 64 * accumulator s' [.r11, .r12, .r13, .r14]
        = accumulator s [.r11, .r12, .r13, .r14, .r15] + m * frModulus := by
  refine .mov ?_
  refine .mulx fun _ m hm => ?_
  refine .mulx fun u0 l0 h0 => ?_
  refine .adcx fun w0 c0 hw0 => ?_
  refine .mulx fun u1 l1 h1 => ?_
  refine .adcx fun w1 c1 hw1 => ?_
  refine .adox fun t1 o1 ht1 => ?_
  refine .mulx fun u2 l2 h2 => ?_
  refine .adcx fun w2 c2 hw2 => ?_
  refine .adox fun t2 o2 ht2 => ?_
  refine .mulx fun u3 l3 h3 => ?_
  refine .adcx fun w3 c3 hw3 => ?_
  refine .adox fun t3 o3 ht3 => ?_
  refine .mov ?_
  refine .adcx fun w4 c4 hw4 => ?_
  refine .adox fun t4 o4 ht4 => ?_
  refine .done ?_
  simp only [move_reg, State.setReg, State.setPtr, Operand.read,
    Function.update_apply, reduceCtorEq, if_true, if_false, h.cf, h.of, h.r9, h.r10,
    Bool.toNat_false, Nat.add_zero, UInt64.toNat_zero, Nat.zero_add] at *
  have hdropped : w0.toNat = 0 := dropped_word hm m.toNat_lt h0 hw0 w0.toNat_lt
  have hproduct := mul_modulus m.toNat
  have hmultiple : m.toNat * frModulus ≤ (2 ^ 64 - 1) * frModulus :=
    Nat.mul_le_mul_right _ (Nat.le_sub_one_of_lt m.toNat_lt)
  rw [accumulator_five, accumulator_four] at hbound ⊢
  have hcarries : c4.toNat = 0 ∧ o4.toNat = 0 := by omega
  refine ⟨⟨by simp [h.r9], by simp [h.r10], Bool.toNat_eq_zero.mp hcarries.1,
    Bool.toNat_eq_zero.mp hcarries.2, by simp [h.rsi], by simp [h.rcx]⟩, m.toNat, m.toNat_lt, ?_⟩
  rw [accumulator_four]
  simp only [Function.update_apply, reduceCtorEq, if_true, if_false]
  omega

theorem mul_limbs (a : ℕ) (block : ℕ → UInt64) :
    a * (limbsAt block).toNat = a * (block 0).toNat + 2 ^ 64 * (a * (block 8).toNat)
      + 2 ^ 128 * (a * (block 16).toNat) + 2 ^ 192 * (a * (block 24).toNat) := by
  rw [Limbs.toNat_eq, limbsAt]
  ring

theorem mul_limbs_le (a : UInt64) (block : ℕ → UInt64) :
    a.toNat * (limbsAt block).toNat ≤ (2 ^ 64 - 1) * (2 ^ 256 - 1) :=
  Nat.mul_le_mul (Nat.le_sub_one_of_lt a.toNat_lt) (Nat.le_sub_one_of_lt (Limbs.toNat_lt _))

theorem firstRow_leads {rsi rcx block : ℕ → UInt64} {s : State Block} {x0 : Operand Datum}
    {base : Reg} (h : Ready rsi rcx s) (hblock : s.mem (s.ptr base) = block) (hx0 : x0.read static s = block 0) :
    Leads static (firstRow x0 base) s fun s' => Ready rsi rcx s' ∧
      accumulator s' [.r11, .r12, .r13, .r14, .r15]
        = (s.reg .rdx).toNat * (limbsAt block).toNat := by
  refine .mulx fun u0 l0 h0 => ?_
  refine .mulx fun u1 l1 h1 => ?_
  refine .adcx fun t1 c1 ht1 => ?_
  refine .mulx fun u2 l2 h2 => ?_
  refine .adcx fun t2 c2 ht2 => ?_
  refine .mulx fun u3 l3 h3 => ?_
  refine .adcx fun t3 c3 ht3 => ?_
  refine .mov ?_
  refine .adcx fun t4 c4 ht4 => ?_
  refine .done ?_
  rw [hx0] at h0
  simp only [move_reg, State.setReg, State.setPtr, Operand.read,
    Function.update_apply, reduceCtorEq, if_true, if_false, h.cf, h.r10, hblock,
    Bool.toNat_false, Nat.add_zero, UInt64.toNat_zero, Nat.zero_add] at *
  have hproduct := mul_limbs (s.reg .rdx).toNat block
  have hbound := mul_limbs_le (s.reg .rdx) block
  have hcarry : c4.toNat = 0 := by omega
  refine ⟨⟨by simp [h.r9], by simp [h.r10], Bool.toNat_eq_zero.mp hcarry, h.of, by simp [h.rsi],
    by simp [h.rcx]⟩, ?_⟩
  rw [accumulator_five, accumulator_four]
  simp only [Function.update_apply, reduceCtorEq, if_true, if_false]
  omega

theorem firstLoop_leads {rsi rcx block : ℕ → UInt64} {s : State Block} {base : Reg}
    (offset : ℕ) (h : Ready rsi rcx s) (hbase : base ≠ .r15) (hblock : s.mem (s.ptr base) = block) :
    Leads static (firstLoop offset base) s fun s' => Ready rsi rcx s' ∧
      accumulator s' [.r11, .r12, .r13, .r14, .r15]
        = accumulator s [.r11, .r12, .r13, .r14]
          + (rsi offset).toNat * (limbsAt block).toNat := by
  refine .mov ?_
  refine .mov ?_
  refine .mulx fun u0 l0 h0 => ?_
  refine .adcx fun t0 c0 ht0 => ?_
  refine .adox fun w1 o1 hw1 => ?_
  refine .mulx fun u1 l1 h1 => ?_
  refine .adcx fun t1 c1 ht1 => ?_
  refine .adox fun w2 o2 hw2 => ?_
  refine .mulx fun u2 l2 h2 => ?_
  refine .adcx fun t2 c2 ht2 => ?_
  refine .adox fun w3 o3 hw3 => ?_
  refine .mulx fun u3 l3 h3 => ?_
  refine .adcx fun t3 c3 ht3 => ?_
  refine .adox fun w4 o4 hw4 => ?_
  refine .adcx fun t4 c4 ht4 => ?_
  refine .done ?_
  simp only [move_reg, move_mem, State.setReg, State.setPtr, Operand.read,
    Function.update_apply, reduceCtorEq, if_true, if_false, hbase, h.cf, h.of, h.r10, h.rsi,
    hblock, Bool.toNat_false, Nat.add_zero, UInt64.toNat_zero, Nat.zero_add] at *
  have hproduct := mul_limbs (rsi offset).toNat block
  have hbound := mul_limbs_le (rsi offset) block
  have h11 := (s.reg .r11).toNat_lt
  have h12 := (s.reg .r12).toNat_lt
  have h13 := (s.reg .r13).toNat_lt
  have h14 := (s.reg .r14).toNat_lt
  rw [accumulator_four]
  have hcarries : c4.toNat = 0 ∧ o4.toNat = 0 := by omega
  refine ⟨⟨by simp [h.r9], by simp [h.r10], Bool.toNat_eq_zero.mp hcarries.1,
    Bool.toNat_eq_zero.mp hcarries.2, by simp [h.rsi], by simp [h.rcx]⟩, ?_⟩
  rw [accumulator_five, accumulator_four]
  simp only [Function.update_apply, reduceCtorEq, if_true, if_false]
  omega

/-! ### The final subtraction -/

/-- The number behind a register. -/
def behind (s : State Block) (r : Reg) : ℕ := (limbsAt (s.mem (s.ptr r))).toNat

omit [DecidableEq Block] in
theorem behind_eq (s : State Block) (r : Reg) :
    behind s r = (s.mem (s.ptr r) 0).toNat + 2 ^ 64 * (s.mem (s.ptr r) 8).toNat
      + 2 ^ 128 * (s.mem (s.ptr r) 16).toNat + 2 ^ 192 * (s.mem (s.ptr r) 24).toNat :=
  Limbs.toNat_eq _

omit [DecidableEq Block] in
theorem behind_lt (s : State Block) (r : Reg) : behind s r < 2 ^ 256 := Limbs.toNat_lt _

theorem stores_lead (s : State Block) :
    Leads static stores s fun s' => behind s' .rdi = accumulator s [.r11, .r12, .r13, .r14] := by
  refine .mov (.mov (.mov (.mov (.ret ?_))))
  rw [behind_eq, accumulator_four]
  simp

theorem subtraction_leads {s : State Block}
    (h : frModulus ≤ accumulator s [.r11, .r12, .r13, .r14]) :
    Leads static subtraction s fun s' =>
      behind s' .rdi + frModulus = accumulator s [.r11, .r12, .r13, .r14] := by
  refine .sub fun t0 b0 _ _ _ ht0 => ?_
  refine .sbb fun t1 b1 _ _ _ ht1 => ?_
  refine .sbb fun t2 b2 _ _ _ ht2 => ?_
  refine .sbb fun t3 b3 _ _ _ ht3 => ?_
  refine .label (Leads.mono (stores_lead _) fun s' hs' => ?_)
  rw [hs']
  simp only [State.load, State.write, State.setReg, State.setFlags, Operand.read,
    Function.update_apply, reduceCtorEq, if_false] at ht0 ht1 ht2 ht3
  have hq := mul_modulus 1
  simp only [accumulator_four, State.write, State.setReg, State.setFlags, Function.update_apply,
    reduceCtorEq, if_true, if_false] at h ⊢
  have h0 := t0.toNat_lt
  have h1 := t1.toNat_lt
  have h2 := t2.toNat_lt
  have h3 := t3.toNat_lt
  have hborrow := b3.toNat_le
  omega

/-- The residue of a number below twice the modulus. -/
theorem sub_modulus {t v : ℕ} (ht : t < 2 * frModulus)
    (hv : v = if t < frModulus then t else t - frModulus) :
    v < frModulus ∧ v ≡ t [MOD frModulus] := by
  rw [hv]
  split_ifs with h
  · exact ⟨h, Nat.ModEq.refl _⟩
  · refine ⟨by omega, ?_⟩
    exact (Nat.modEq_iff_dvd' (by omega)).mpr ⟨1, by omega⟩

theorem comparison_leads {s : State Block}
    (ht : accumulator s [.r11, .r12, .r13, .r14] < 2 * frModulus) :
    Leads static comparison s fun s' => behind s' .rdi < frModulus ∧
      behind s' .rdi ≡ accumulator s [.r11, .r12, .r13, .r14] [MOD frModulus] := by
  have hless (t : State Block) (hreg : t.reg = s.reg)
      (h : accumulator s [.r11, .r12, .r13, .r14] < frModulus) :
      Leads static stores t fun s' => behind s' .rdi < frModulus ∧
        behind s' .rdi ≡ accumulator s [.r11, .r12, .r13, .r14] [MOD frModulus] := by
    refine (stores_lead t).mono fun s' hs' => sub_modulus ht ?_
    rw [hs', if_pos h, accumulator, accumulator, hreg]
  have hgreater (t : State Block) (hreg : t.reg = s.reg)
      (h : ¬ accumulator s [.r11, .r12, .r13, .r14] < frModulus) :
      Leads static subtraction t fun s' => behind s' .rdi < frModulus ∧
        behind s' .rdi ≡ accumulator s [.r11, .r12, .r13, .r14] [MOD frModulus] := by
    have hsame : accumulator t [.r11, .r12, .r13, .r14]
        = accumulator s [.r11, .r12, .r13, .r14] := by rw [accumulator, accumulator, hreg]
    refine (subtraction_leads (by omega)).mono fun s' hs' => sub_modulus ht ?_
    rw [if_neg h]
    omega
  have hq := mul_modulus 1
  have hvalue := accumulator_four s
  have h11 := (s.reg .r11).toNat_lt
  have h12 := (s.reg .r12).toNat_lt
  have h13 := (s.reg .r13).toNat_lt
  have hq0 := (static .q 0).toNat_lt
  have hq8 := (static .q 8).toNat_lt
  have hq16 := (static .q 16).toNat_lt
  -- each word decides unless it equals that of the modulus
  refine .threeWay (fun h3 c o z n => hless _ rfl ?_) (fun h3 c o z n => hgreater _ rfl ?_)
    fun h3 c o z n => ?_
  · simp only [State.load, Operand.read] at h3
    omega
  · simp only [State.load, Operand.read] at h3
    omega
  refine .threeWay (fun h2 c o z n => hless _ rfl ?_) (fun h2 c o z n => hgreater _ rfl ?_)
    fun h2 c o z n => ?_
  · simp only [State.load, State.setFlags, Operand.read] at h3 h2
    omega
  · simp only [State.load, State.setFlags, Operand.read] at h3 h2
    omega
  refine .threeWay (fun h1 c o z n => hless _ rfl ?_) (fun h1 c o z n => hgreater _ rfl ?_)
    fun h1 c o z n => ?_
  · simp only [State.load, State.setFlags, Operand.read] at h3 h2 h1
    omega
  · simp only [State.load, State.setFlags, Operand.read] at h3 h2 h1
    omega
  refine .threeWay (fun h0 c o z n => hless _ rfl ?_) (fun h0 c o z n => hgreater _ rfl ?_)
    fun h0 c o z n => .label (hgreater _ rfl ?_)
  · simp only [State.load, State.setFlags, Operand.read] at h3 h2 h1 h0
    omega
  · simp only [State.load, State.setFlags, Operand.read] at h3 h2 h1 h0
    omega
  · simp only [State.load, State.setFlags, Operand.read] at h3 h2 h1 h0
    omega

/-! ### Rounds -/

theorem modulus_lt : frModulus < 2 ^ 254 := by norm_num

/-- A round of the multiplication: the accumulator goes from one value to the other. -/
abbrev FieldRound (b a t t' : ℕ) : Prop := Montgomery.Round (2 ^ 64) frModulus b a t t'

theorem prologue_leads (s : State Block) :
    Leads static prologue s fun s' => Ready (s.mem (s.ptr .rsi)) (s.mem (s.ptr .rdx)) s' ∧
      s'.reg .rcx = s.reg .rdx := by
  refine .mov (.mov (.clear (.done ⟨⟨?_, ?_, rfl, rfl, ?_, ?_⟩, ?_⟩)))
  · simp
  · simp
  · simp
  · simp
  · simp

section Rounds

variable {rsi rcx block : ℕ → UInt64} {s : State Block} {base : Reg}

theorem mul_word_le (a : UInt64) {b : ℕ} (hb : b < frModulus) :
    a.toNat * b ≤ (2 ^ 64 - 1) * frModulus :=
  Nat.mul_le_mul (Nat.le_sub_one_of_lt a.toNat_lt) hb.le

theorem Ready.move_rdx (h : Ready rsi rcx s) (src : Operand Datum) :
    Ready rsi rcx (move static s (.reg .rdx) src) := by
  cases src <;> constructor <;> simp [h.r9, h.r10, h.cf, h.of, h.rsi, h.rcx]

theorem move_rdx_reg (s : State Block) (src : Operand Datum) :
    (move static s (.reg .rdx) src).reg .rdx = src.read static s := by
  cases src <;> simp

theorem move_rdx_block (s : State Block) (src : Operand Datum) (hbase : base ≠ .rdx) :
    (move static s (.reg .rdx) src).mem
      ((move static s (.reg .rdx) src).ptr base) = s.mem (s.ptr base) := by
  cases src <;> simp [hbase]

theorem firstRound_leads {scalar x0 : Operand Datum} (h : Ready rsi rcx s) (hbase : base ≠ .rdx)
    (hblock : s.mem (s.ptr base) = block)
    (hx0 : x0.read static (move static s (.reg .rdx) scalar) = block 0)
    (hb : (limbsAt block).toNat < frModulus) :
    Leads static (firstRound scalar x0 base) s fun s' => Ready rsi rcx s' ∧
      FieldRound (limbsAt block).toNat (scalar.read static s).toNat 0
        (accumulator s' [.r11, .r12, .r13, .r14]) := by
  have hbase' : (move static s (.reg .rdx) scalar).mem
      ((move static s (.reg .rdx) scalar).ptr base) = block := by
    rw [move_rdx_block s scalar hbase, hblock]
  refine .mov (.append rfl ((firstRow_leads (h.move_rdx scalar) hbase' hx0).mono ?_))
  rintro s1 ⟨h1, hrow⟩
  rw [move_rdx_reg] at hrow
  have hq := modulus_lt
  have hle := mul_word_le (scalar.read static s) hb
  refine (secondLoop_leads h1 (by omega)).mono ?_
  rintro s2 ⟨h2, m, hm, heq⟩
  exact ⟨h2, m, hm, by rw [heq, hrow, Nat.zero_add]⟩

theorem round_leads (offset : ℕ) (h : Ready rsi rcx s) (hbase : base ≠ .r15)
    (hblock : s.mem (s.ptr base) = block) (hb : (limbsAt block).toNat < frModulus)
    (ht : accumulator s [.r11, .r12, .r13, .r14] < 2 * frModulus) :
    Leads static (round offset base) s fun s' => Ready rsi rcx s' ∧
      FieldRound (limbsAt block).toNat (rsi offset).toNat
        (accumulator s [.r11, .r12, .r13, .r14]) (accumulator s' [.r11, .r12, .r13, .r14]) := by
  refine .append rfl ((firstLoop_leads offset h hbase hblock).mono ?_)
  rintro s1 ⟨h1, hrow⟩
  have hq := modulus_lt
  have hle := mul_word_le (rsi offset) hb
  refine (secondLoop_leads h1 (by omega)).mono ?_
  rintro s2 ⟨h2, m, hm, heq⟩
  exact ⟨h2, m, hm, by rw [heq, hrow]⟩

/-- A round without a first loop. -/
theorem reduction_leads (b : ℕ) (h : Ready rsi rcx s)
    (ht : accumulator s [.r11, .r12, .r13, .r14] < 2 * frModulus) :
    Leads static reduction s fun s' => Ready rsi rcx s' ∧
      FieldRound b 0 (accumulator s [.r11, .r12, .r13, .r14])
        (accumulator s' [.r11, .r12, .r13, .r14]) := by
  refine .mov ?_
  have h1 : Ready rsi rcx (move static s (.reg .r15) (.reg .r10)) := by
    constructor <;> simp [h.r9, h.r10, h.cf, h.of, h.rsi, h.rcx]
  have hrow : accumulator (move static s (.reg .r15) (.reg .r10)) [.r11, .r12, .r13, .r14, .r15]
      = accumulator s [.r11, .r12, .r13, .r14] := by
    rw [accumulator_five, accumulator_four, accumulator_four]
    simp [h.r10]
  have hq := modulus_lt
  refine (secondLoop_leads h1 (by omega)).mono ?_
  rintro s2 ⟨h2, m, hm, heq⟩
  exact ⟨h2, m, hm, by rw [heq, hrow, Nat.zero_mul, Nat.add_zero]⟩

end Rounds

/-! ### The routines -/

/-- A routine's outcome: the residue of a field element, below the modulus. -/
def Denotes (value : Fr) (s : State Block) : Prop :=
  behind s .rdi < frModulus ∧ (behind s .rdi : Fr) = value

/-- The factor that Montgomery form carries. -/
def radix : Fr := (2 ^ 256 : ℕ)

theorem radix_ne_zero : radix ≠ 0 := by
  rw [radix, Nat.cast_pow]
  exact pow_ne_zero 256 (by decide)

theorem word_lt (x : UInt64) : x.toNat < 2 ^ 64 := x.toNat_lt

theorem zero_lt_modulus : 0 < 2 * frModulus := by norm_num

/-- After the rounds for four words of a factor. -/
theorem finish {b a0 a1 a2 a3 t0 t1 t2 t3 : ℕ} {s : State Block} (hb : b < frModulus)
    (ht0 : t0 < 2 * frModulus) (ha0 : a0 < 2 ^ 64) (ha1 : a1 < 2 ^ 64) (ha2 : a2 < 2 ^ 64)
    (ha3 : a3 < 2 ^ 64) (h0 : FieldRound b a0 t0 t1) (h1 : FieldRound b a1 t1 t2)
    (h2 : FieldRound b a2 t2 t3)
    (h3 : FieldRound b a3 t3 (accumulator s [.r11, .r12, .r13, .r14])) :
    Leads static comparison s (Denotes
      (((t0 + Nat.ofDigits (2 ^ 64) [a0, a1, a2, a3] * b : ℕ) : Fr) / radix)) := by
  have hrounds := Montgomery.Rounds.cons h0 (.cons h1 (.cons h2 (.cons h3 .nil)))
  have hwords : ∀ a ∈ [a0, a1, a2, a3], a < 2 ^ 64 := by
    intro a ha
    simp only [List.mem_cons, List.not_mem_nil, or_false] at ha
    rcases ha with rfl | rfl | rfl | rfl <;> assumption
  refine (comparison_leads (hrounds.lt hb hwords ht0)).mono ?_
  rintro s' ⟨hresult, hmod⟩
  refine ⟨hresult, ?_⟩
  have hproduct := hrounds.modEq
  rw [← pow_mul, show 64 * [a0, a1, a2, a3].length = 256 from rfl] at hproduct
  have hfield := (ZMod.natCast_eq_natCast_iff _ _ _).mpr ((hmod.mul_left _).trans hproduct)
  rw [eq_div_iff radix_ne_zero, radix, ← hfield]
  push_cast
  ring

theorem ofDigits_limbs (block : ℕ → UInt64) :
    Nat.ofDigits (2 ^ 64) [(block 0).toNat, (block 8).toNat, (block 16).toNat, (block 24).toNat]
      = (limbsAt block).toNat := rfl

theorem ofDigits_word (a : ℕ) : Nat.ofDigits (2 ^ 64) [a, 0, 0, 0] = a := by
  simp only [Nat.ofDigits_cons, Nat.ofDigits_nil, Nat.mul_zero, Nat.add_zero]

section Tails

variable {rsi rcx block : ℕ → UInt64} {s : State Block} {base : Reg}

/-- A multiplication after its first round. -/
theorem rounds_lead (h : Ready rsi rcx s) (hbase : base ≠ .r15)
    (hblock : ∀ s' : State Block, Ready rsi rcx s' → s'.mem (s'.ptr base) = block)
    (hb : (limbsAt block).toNat < frModulus)
    (h0 : FieldRound (limbsAt block).toNat (rsi 0).toNat 0
      (accumulator s [.r11, .r12, .r13, .r14])) :
    Leads static (round 8 base ++ (round 16 base ++ (round 24 base ++ comparison))) s
      (Denotes ((limbsAt rsi).toNat * (limbsAt block).toNat / radix)) := by
  have ht1 := h0.lt hb (word_lt _) zero_lt_modulus
  refine .append rfl ((round_leads 8 h hbase (hblock _ h) hb ht1).mono ?_)
  rintro s2 ⟨hs2, h1⟩
  have ht2 := h1.lt hb (word_lt _) ht1
  refine .append rfl ((round_leads 16 hs2 hbase (hblock _ hs2) hb ht2).mono ?_)
  rintro s3 ⟨hs3, h2⟩
  have ht3 := h2.lt hb (word_lt _) ht2
  refine .append rfl ((round_leads 24 hs3 hbase (hblock _ hs3) hb ht3).mono ?_)
  rintro s4 ⟨-, h3⟩
  have hfinish := finish hb zero_lt_modulus (word_lt _) (word_lt _) (word_lt _) (word_lt _) h0 h1
    h2 h3
  rwa [ofDigits_limbs, Nat.zero_add, Nat.cast_mul] at hfinish

/-- The reductions after a first round, in which the other words of the factor are zero. -/
theorem reductions_lead {b a t : ℕ} (h : Ready rsi rcx s) (hb : b < frModulus) (ha : a < 2 ^ 64)
    (ht : t < 2 * frModulus)
    (h0 : FieldRound b a t (accumulator s [.r11, .r12, .r13, .r14])) :
    Leads static (reduction ++ (reduction ++ (reduction ++ comparison))) s
      (Denotes ((t + a * b : ℕ) / radix)) := by
  have hword : 0 < 2 ^ 64 := by norm_num
  have ht1 := h0.lt hb ha ht
  refine .append rfl ((reduction_leads b h ht1).mono ?_)
  rintro s2 ⟨hs2, h1⟩
  have ht2 := h1.lt hb hword ht1
  refine .append rfl ((reduction_leads b hs2 ht2).mono ?_)
  rintro s3 ⟨hs3, h2⟩
  have ht3 := h2.lt hb hword ht2
  refine .append rfl ((reduction_leads b hs3 ht3).mono ?_)
  rintro s4 ⟨-, h3⟩
  have hfinish := finish hb ht ha hword hword hword h0 h1 h2 h3
  rwa [ofDigits_word] at hfinish

end Tails

theorem rawMMul_leads (s : State Block) (hb : behind s .rdx < frModulus) :
    Leads static rawMMul s (Denotes (behind s .rsi * behind s .rdx / radix)) := by
  simp only [rawMMul, List.append_assoc]
  refine .append rfl ((prologue_leads s).mono ?_)
  rintro s0 ⟨hs0, -⟩
  refine .append rfl ((firstRound_leads hs0 (by decide) hs0.rcx ?_ hb).mono ?_)
  · rw [Operand.read, move_rdx_block _ _ (by decide), hs0.rcx]
  rintro s1 ⟨hs1, h0⟩
  rw [Operand.read, hs0.rsi] at h0
  exact rounds_lead hs1 (by decide) (fun _ h => h.rcx) hb h0

theorem rawMSquare_leads (s : State Block) (hb : behind s .rsi < frModulus) :
    Leads static rawMSquare s (Denotes (behind s .rsi * behind s .rsi / radix)) := by
  simp only [rawMSquare, List.append_assoc]
  refine .append rfl ((prologue_leads s).mono ?_)
  rintro s0 ⟨hs0, -⟩
  refine .append rfl ((firstRound_leads hs0 (by decide) hs0.rsi ?_ hb).mono ?_)
  · rw [Operand.read, move_rdx_reg, Operand.read, hs0.rsi]
  rintro s1 ⟨hs1, h0⟩
  rw [Operand.read, hs0.rsi] at h0
  exact rounds_lead hs1 (by decide) (fun _ h => h.rsi) hb h0

theorem rawMMul1_leads (s : State Block) (hb : behind s .rsi < frModulus) :
    Leads static rawMMul1 s (Denotes ((s.reg .rdx).toNat * behind s .rsi / radix)) := by
  simp only [rawMMul1, List.append_assoc]
  refine .append rfl ((prologue_leads s).mono ?_)
  rintro s0 ⟨hs0, hrcx⟩
  refine .append rfl ((firstRound_leads hs0 (by decide) hs0.rsi ?_ hb).mono ?_)
  · rw [Operand.read, move_rdx_block _ _ (by decide), hs0.rsi]
  rintro s1 ⟨hs1, h0⟩
  rw [Operand.read, hrcx] at h0
  have hreduced := reductions_lead hs1 hb (word_lt _) zero_lt_modulus h0
  rwa [Nat.zero_add, Nat.cast_mul] at hreduced

theorem loads_lead {rsi rcx : ℕ → UInt64} {s : State Block} (h : Ready rsi rcx s) :
    Leads static loads s fun s' => Ready rsi rcx s' ∧
      accumulator s' [.r11, .r12, .r13, .r14] = (limbsAt rsi).toNat := by
  refine .mov (.mov (.mov (.mov (.done ⟨?_, ?_⟩))))
  · constructor <;> simp [h.r9, h.r10, h.cf, h.of, h.rsi, h.rcx]
  · rw [accumulator_four, Limbs.toNat_eq]
    simp [h.rsi, limbsAt]

theorem rawFromMontgomery_leads (s : State Block) (hb : behind s .rsi < frModulus) :
    Leads static rawFromMontgomery s (Denotes (behind s .rsi / radix)) := by
  simp only [rawFromMontgomery, List.append_assoc]
  refine .append rfl ((prologue_leads s).mono ?_)
  rintro s0 ⟨hs0, -⟩
  refine .append rfl ((loads_lead hs0).mono ?_)
  rintro s1 ⟨hs1, hloaded⟩
  have hzero : 0 < frModulus := by norm_num
  have hvalue : behind s .rsi = accumulator s1 [.r11, .r12, .r13, .r14] := hloaded.symm
  have ht : behind s .rsi < 2 * frModulus := by omega
  refine .append rfl ((reduction_leads 0 hs1 (by omega)).mono ?_)
  rintro s2 ⟨hs2, h0⟩
  rw [← hvalue] at h0
  have hreduced := reductions_lead hs2 hzero (by norm_num) ht h0
  rwa [Nat.zero_mul, Nat.add_zero] at hreduced

/-- **The multiplication of any two numbers, the second below the modulus.** The result may be one
of the operands, and is the only block that changes. -/
theorem rawMMul_montgomery (s : State Block) (hb : behind s .rdx < frModulus) :
    behind (run static rawMMul none s) .rdi < frModulus ∧
      behind (run static rawMMul none s) .rdi * 2 ^ 256 ≡ behind s .rsi * behind s .rdx
        [MOD frModulus] ∧
      (run static rawMMul none s).ptr .rdi = s.ptr .rdi ∧
      ∀ b, b ≠ s.ptr .rdi → (run static rawMMul none s).mem b = s.mem b := by
  obtain ⟨hlt, hvalue⟩ := rawMMul_leads s hb
  refine ⟨hlt, (ZMod.natCast_eq_natCast_iff _ _ _).mp ?_,
    run_frame static (rfl : rawMMul.all (Line.writesThrough .rdi) = true) none s⟩
  rw [Nat.cast_mul, hvalue, Nat.cast_mul]
  exact div_mul_cancel₀ _ radix_ne_zero

/-- All pointers lead to one number. -/
def oneNumber (x : Limbs) : State Unit where
  reg _ := 0
  byte _ := 0
  ptr _ := ()
  mem _ := blockOf x
  cf := false
  of := false
  zf := false
  sf := false

theorem behind_oneNumber (x : Limbs) (r : Reg) : behind (oneNumber x) r = x.toNat := rfl

theorem rawMMul_montgomery_square :
    behind (run static rawMMul none (oneNumber (Limbs.ofNat 5))) .rdi * 2 ^ 256 ≡ 5 * 5
      [MOD frModulus] := by
  have hfive : (Limbs.ofNat 5).toNat = 5 := Limbs.toNat_ofNat (by norm_num)
  have h := rawMMul_montgomery (oneNumber (Limbs.ofNat 5)) (by
    rw [behind_oneNumber, hfive]
    norm_num)
  rw [behind_oneNumber, behind_oneNumber, hfive] at h
  exact h.2.1

end Veritas
