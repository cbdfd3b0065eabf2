import Veritas.Element
import Veritas.Proof.RawSums

/-!
# Calls of the raw routines

A call runs a raw routine on a memory of elements. By the frame rule it sets the result's words to
the residue the routine denotes and leaves the other elements, whichever of them the operands are.
-/

namespace Veritas

open X64

variable {Addr : Type}

/-! ### Calls -/

/-- Words below the modulus that spell a residue. -/
def Holds (x : Limbs) (v : Fr) : Prop := x.toNat < frModulus ∧ (x.toNat : Fr) = v

/-- The number that a register's pointer leads to. -/
def Arg.number (m : Memory Addr) : Arg Addr → ℕ
  | element p => (m p).longVal.toNat
  | datum d => d.limbs.toNat
  | word _ => 0

/-- The machine before a call on long values. -/
abbrev longEntry (m : Memory Addr) (rdi : Place Addr) (rsi rdx : Arg Addr) : State (Arg Addr) :=
  entry (fun x => blockOf x.longVal) m rdi rsi rdx

theorem behind_entry_rsi (m : Memory Addr) (rdi : Place Addr) (rsi rdx : Arg Addr) :
    behind (longEntry m rdi rsi rdx) .rsi = rsi.number m := by
  cases rsi <;> rfl

theorem behind_entry_rdx (m : Memory Addr) (rdi : Place Addr) (rsi rdx : Arg Addr) :
    behind (longEntry m rdi rsi rdx) .rdx = rdx.number m := by
  cases rdx <;> rfl

variable [DecidableEq Addr]

/-- A call has set the result's long value to a residue, and nothing else. -/
def Sets (m m' : Memory Addr) (rdi : Place Addr) (v : Fr) : Prop :=
  ∃ x, Holds x v ∧ m' = Function.update m rdi { m rdi with longVal := x }

theorem Sets.trans {m m' m'' : Memory Addr} {rdi : Place Addr} {v w : Fr} (h : Sets m m' rdi v)
    (h' : Sets m' m'' rdi w) : Sets m m'' rdi w := by
  obtain ⟨x, -, rfl⟩ := h
  obtain ⟨y, hy, rfl⟩ := h'
  refine ⟨y, hy, ?_⟩
  rw [Function.update_idem, Function.update_self]

/-- What a raw routine leads to, it does to the result of a call. -/
theorem call_sets {code : Code} {m : Memory Addr} {rdi : Place Addr} {rsi rdx : Arg Addr} {v : Fr}
    (hcode : code.all (Line.writesThrough .rdi) = true)
    (h : Leads static code (longEntry m rdi rsi rdx) (Denotes v)) :
    Sets m (call code m rdi rsi rdx) rdi v := by
  obtain ⟨hptr, hmem⟩ := run_frame static hcode none (longEntry m rdi rsi rdx)
  rw [Leads, Denotes, behind, hptr] at h
  refine ⟨_, h, ?_⟩
  funext p
  by_cases hp : p = rdi
  · rw [hp, Function.update_self]
    rfl
  · simp only [call]
    rw [Function.update_of_ne hp, hmem (.element p) fun h => hp (Arg.element.inj h)]
    rfl

section Calls

variable (m : Memory Addr) (rdi : Place Addr) (rsi rdx : Arg Addr)

theorem rawMMul_sets (hb : rdx.number m < frModulus) :
    Sets m (call rawMMul m rdi rsi rdx) rdi (rsi.number m * rdx.number m / radix) := by
  have h := rawMMul_leads (longEntry m rdi rsi rdx)
  rw [behind_entry_rsi, behind_entry_rdx] at h
  exact call_sets rfl (h hb)

theorem rawMSquare_sets (ha : rsi.number m < frModulus) :
    Sets m (call rawMSquare m rdi rsi rdx) rdi (rsi.number m * rsi.number m / radix) := by
  have h := rawMSquare_leads (longEntry m rdi rsi rdx)
  rw [behind_entry_rsi] at h
  exact call_sets rfl (h ha)

theorem rawMMul1_sets (ha : rsi.number m < frModulus) :
    Sets m (call rawMMul1 m rdi rsi rdx) rdi (rdx.value.toNat * rsi.number m / radix) := by
  have h := rawMMul1_leads (longEntry m rdi rsi rdx)
  rw [behind_entry_rsi] at h
  exact call_sets rfl (h ha)

theorem rawFromMontgomery_sets (ha : rsi.number m < frModulus) :
    Sets m (call rawFromMontgomery m rdi rsi rdx) rdi (rsi.number m / radix) := by
  have h := rawFromMontgomery_leads (longEntry m rdi rsi rdx)
  rw [behind_entry_rsi] at h
  exact call_sets rfl (h ha)

theorem rawNegL_sets (ha : rsi.number m < frModulus) :
    Sets m (call rawNegL m rdi rsi rdx) rdi (-(rsi.number m : Fr)) := by
  have h := rawNegL_leads (longEntry m rdi rsi rdx)
  rw [behind_entry_rsi] at h
  exact call_sets rfl (h ha)

theorem rawAddLL_sets (ha : rsi.number m < frModulus) (hb : rdx.number m < frModulus) :
    Sets m (call rawAddLL m rdi rsi rdx) rdi (rsi.number m + rdx.number m) := by
  have h := rawAddLL_leads (longEntry m rdi rsi rdx)
  rw [behind_entry_rsi, behind_entry_rdx] at h
  exact call_sets rfl (h ha hb)

theorem rawAddLS_sets (ha : rsi.number m < frModulus) :
    Sets m (call rawAddLS m rdi rsi rdx) rdi (rsi.number m + rdx.value.toNat) := by
  have h := rawAddLS_leads (longEntry m rdi rsi rdx)
  rw [behind_entry_rsi] at h
  exact call_sets rfl (h ha)

theorem rawSubLL_sets (ha : rsi.number m < frModulus) (hb : rdx.number m < frModulus) :
    Sets m (call rawSubLL m rdi rsi rdx) rdi (rsi.number m - rdx.number m) := by
  have h := rawSubLL_leads (longEntry m rdi rsi rdx)
  rw [behind_entry_rsi, behind_entry_rdx] at h
  exact call_sets rfl (h ha hb)

theorem rawSubLS_sets (ha : rsi.number m < frModulus) :
    Sets m (call rawSubLS m rdi rsi rdx) rdi (rsi.number m - rdx.value.toNat) := by
  have h := rawSubLS_leads (longEntry m rdi rsi rdx)
  rw [behind_entry_rsi] at h
  exact call_sets rfl (h ha)

theorem rawSubSL_sets (hb : rdx.number m < frModulus) :
    Sets m (call rawSubSL m rdi rsi rdx) rdi (rsi.value.toNat - rdx.number m) := by
  have h := rawSubSL_leads (longEntry m rdi rsi rdx)
  rw [behind_entry_rdx] at h
  exact call_sets rfl (h hb)

theorem rawNegLS_sets (hrsi : rsi ≠ .element rdi) (ha : rsi.number m < frModulus)
    (hb : 0 < rdx.value.toNat) :
    Sets m (call rawNegLS m rdi rsi rdx) rdi (-(rsi.number m : Fr) - rdx.value.toNat) := by
  have h := rawNegLS_leads (longEntry m rdi rsi rdx) hrsi.symm
  rw [behind_entry_rsi] at h
  exact call_sets rfl (h ha hb)

end Calls

/-! ### Words -/

theorem signed_word {v : ℤ} (hlow : -2 ^ 63 ≤ v) (hhigh : v < 2 ^ 63) : signed (word v) = v := by
  rw [signed, word, Int64.toInt64_toUInt64, Int64.toInt_ofInt]
  exact Int.bmod_eq_of_le (by norm_num [Int64.size]; omega) (by norm_num [Int64.size]; omega)

theorem toNat_word {v : ℤ} (hlow : 0 ≤ v) (hhigh : v < 2 ^ 63) : ((word v).toNat : ℤ) = v := by
  have hlt := (word v).toNat_lt
  have hbit := (negative (word v)).toNat_le
  have hsigned := signed_eq (word v)
  rw [signed_word (by omega) hhigh] at hsigned
  omega

/-- A 32-bit number. -/
def Small (v : ℤ) : Prop := -2 ^ 31 ≤ v ∧ v < 2 ^ 31

theorem small_toInt (x : Int32) : Small x.toInt := ⟨x.le_toInt, x.toInt_lt⟩

theorem cast_word {v : ℤ} (hlow : 0 ≤ v) (hhigh : v < 2 ^ 63) : ((word v).toNat : Fr) = v := by
  rw [← Int.cast_natCast, toNat_word hlow hhigh]

theorem toInt_ofInt {v : ℤ} (h : Small v) : (Int32.ofInt v).toInt = v := by
  obtain ⟨hlow, hhigh⟩ := h
  rw [Int32.toInt_ofInt]
  exact Int.bmod_eq_of_le (by norm_num [Int32.size]; omega) (by norm_num [Int32.size]; omega)

theorem mulShort_sets (m : Memory Addr) (rdi : Place Addr) (rsi : Arg Addr) {v : ℤ}
    (hv : Small v) (ha : rsi.number m < frModulus) :
    Sets m (mulShort m rdi rsi v) rdi (v * rsi.number m / radix) := by
  obtain ⟨hlow, hhigh⟩ := hv
  rw [mulShort]
  split_ifs with hneg
  · obtain ⟨x, hx, heq⟩ := rawMMul1_sets m rdi rsi (.word (word (-v))) ha
    have hnumber : (Arg.element rdi).number (call rawMMul1 m rdi rsi (.word (word (-v))))
        = x.toNat := by rw [heq, Arg.number, Function.update_self]
    have hnegated := rawNegL_sets (call rawMMul1 m rdi rsi (.word (word (-v)))) rdi (.element rdi)
      (.word 0) (by rw [hnumber]; exact hx.1)
    have hset := Sets.trans ⟨x, hx, heq⟩ hnegated
    rw [hnumber, hx.2, Arg.value, cast_word (by omega) (by omega)] at hset
    convert hset using 1
    push_cast
    ring
  · have hset := rawMMul1_sets m rdi rsi (.word (word v)) ha
    rwa [Arg.value, cast_word (by omega) (by omega)] at hset

/-! ### Headers -/

theorem ofHeader_bits (t : FrType) {low : ℕ} (h : low < 2 ^ 32) :
    FrType.ofHeader (t.bits * 2 ^ 32 + low) = t := by
  have hquotient : (t.bits * 2 ^ 32 + low) / 2 ^ 62 = t.bits / 2 ^ 30 := by omega
  rw [FrType.ofHeader, hquotient]
  cases t <;> rfl

theorem toNat_header (x : FrElement) :
    x.header.toNat = x.type.bits * 2 ^ 32 + x.shortVal.toUInt32.toNat := by
  have hshort := x.shortVal.toUInt32.toNat_lt
  have hbits : x.type.bits < 2 ^ 32 := by cases x.type <;> decide
  rw [FrElement.header, UInt64.toNat_ofNat']
  omega

theorem ofBlock_block (x : FrElement) : FrElement.ofBlock x.block = x := by
  have hshort := x.shortVal.toUInt32.toNat_lt
  have hword : UInt32.ofNat x.header.toNat = x.shortVal.toUInt32 := by
    rw [toNat_header, ← UInt32.toNat_inj, UInt32.toNat_ofNat']
    omega
  have htype := ofHeader_bits x.type hshort
  rw [← toNat_header] at htype
  rw [FrElement.ofBlock, show x.block 0 = x.header from rfl, hword, htype,
    Int32.toInt32_toUInt32]
  rfl

theorem toNat_longHeader : (0x8000000000000000 : UInt64).toNat = FrType.long.bits * 2 ^ 32 + 0 := rfl

theorem copyS2L_eq (m : Memory Addr) (rdi : Place Addr) {v : ℤ} (hlow : -2 ^ 63 ≤ v)
    (hhigh : v < 2 ^ 63) :
    ∃ x, Holds x (v : Fr) ∧ copyS2L m rdi v = Function.update m rdi ⟨0, .long, x⟩ := by
  have hrdi : (entry FrElement.block m rdi (.word (word v)) (.word 0)).ptr .rdi = .element rdi :=
    rfl
  have hword : signed ((entry FrElement.block m rdi (.word (word v)) (.word 0)).reg .rsi) = v :=
    signed_word hlow hhigh
  have hthrough : rawCopyS2L.all (Line.writesThrough .rdi) = true := rfl
  obtain ⟨hptr, hmem⟩ := run_frame static hthrough none
    (entry FrElement.block m rdi (.word (word v)) (.word 0))
  have h := rawCopyS2L_leads (entry FrElement.block m rdi (.word (word v)) (.word 0))
  rw [Leads, after, hptr, hrdi, hword] at h
  obtain ⟨hheader, hlt, hvalue⟩ := h
  refine ⟨_, ⟨hlt, hvalue⟩, ?_⟩
  funext p
  simp only [copyS2L]
  by_cases hp : p = rdi
  · rw [hp, Function.update_self, FrElement.ofBlock, hheader, toNat_longHeader,
      ofHeader_bits _ (by norm_num)]
    rfl
  · rw [Function.update_of_ne hp, hmem (.element p) fun h => hp (Arg.element.inj h)]
    exact ofBlock_block _

end Veritas
