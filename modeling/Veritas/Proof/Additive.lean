import Veritas.Proof.Element

/-!
# Sums and differences of elements

The dispatch is proved once, for an operation on residues and the raw routines that compute it. The
result may be an operand unless that operand is still to be converted to Montgomery form when the
result's type is written.
-/

namespace Veritas

variable {Addr : Type} [DecidableEq Addr]

/-! ### The dispatch -/

/-- The first operand is plain and the second a long one in Montgomery form. -/
def Converts (m : Memory Addr) (p q : Place Addr) : Prop :=
  ((m p).type = .short ∨ (m p).type = .long) ∧ (m q).type = .longMontgomery

/-- The routines compute an operation that commutes with Montgomery form. -/
structure Computes (op : Fr → Fr → Fr) (shorts : ℤ → ℤ → ℤ)
    (longShort : Memory Addr → Place Addr → Place Addr → ℤ → Memory Addr)
    (shortLong : Memory Addr → Place Addr → ℤ → Place Addr → Memory Addr) (longs : Code)
    (inPlace : ℤ → Prop) : Prop where
  radix (v w : Fr) : op (v * radix) (w * radix) = op v w * radix
  shorts_cast (a b : ℤ) : ((shorts a b : ℤ) : Fr) = op a b
  shorts_bound {a b : ℤ} : Small a → Small b → -2 ^ 63 ≤ shorts a b ∧ shorts a b < 2 ^ 63
  longShort {m : Memory Addr} {rsi : Place Addr} {v : Fr} {n : ℤ} (rdi : Place Addr) :
    Holds (m rsi).longVal v → Small n → Sets m (longShort m rdi rsi n) rdi (op v n)
  shortLong {m : Memory Addr} {rdi rdx : Place Addr} {v : Fr} {n : ℤ} :
    Holds (m rdx).longVal v → Small n → (rdx = rdi → inPlace n) →
      Sets m (shortLong m rdi n rdx) rdi (op n v)
  longs {m : Memory Addr} {rsi rdx : Place Addr} {v w : Fr} (rdi : Place Addr) :
    Holds (m rsi).longVal v → Holds (m rdx).longVal w →
      Sets m (call longs m rdi (.element rsi) (.element rdx)) rdi (op v w)

/-- The result may be written before the operands are read. -/
structure InPlace (inPlace : ℤ → Prop) (m : Memory Addr) (rdi rsi rdx : Place Addr) : Prop where
  left : rsi = rdi → ¬ Converts m rsi rdx
  right : rdx = rdi → ¬ Converts m rdx rsi
  short : rdx = rdi → (m rsi).type.Short → (m rdx).type = .long → inPlace (m rsi).shortVal.toInt

section Dispatch

variable {op : Fr → Fr → Fr} {shorts : ℤ → ℤ → ℤ}
  {longShort : Memory Addr → Place Addr → Place Addr → ℤ → Memory Addr}
  {shortLong : Memory Addr → Place Addr → ℤ → Place Addr → Memory Addr} {longs : Code}
  {inPlace : ℤ → Prop} {m : Memory Addr} {rdi rsi rdx : Place Addr} {v w : Fr}

/-- An operand in Montgomery form on the stack, after the type of the result is written. -/
theorem stack_converted {p : Place Addr} (hp : p ≠ rdi) (hrdi : rdi ≠ .stack)
    (h : (m p).WellFormed) :
    let m' := frToMontgomery (setType m rdi .longMontgomery) .stack p
    Holds (m' .stack).longVal ((m p).value * radix) ∧ (m' rdi).type = .longMontgomery ∧
      ∀ q, q ≠ .stack → (m' q).longVal = (m q).longVal ∧ (q ≠ rdi → m' q = m q) := by
  have hsame : setType m rdi .longMontgomery p = m p := Function.update_of_ne hp _ _
  obtain ⟨hstores, htype⟩ := frToMontgomery_stores (setType m rdi .longMontgomery) .stack p
    (by rwa [hsame])
  have hwords := holds_of_montgomery hstores.wellFormed htype
  rw [hstores.value, hsame] at hwords
  refine ⟨hwords, ?_, fun q hq => ⟨?_, fun hqrdi => ?_⟩⟩
  · rw [hstores.frame rdi hrdi hrdi, setType_type]
  · rw [hstores.frame q hq hq, longVal_setType]
  · rw [hstores.frame q hq hq]
    exact Function.update_of_ne hqrdi _ _

theorem Sets.stores_converted {m m' m'' : Memory Addr} {rdi : Place Addr} {v : Fr}
    (htype : (m' rdi).type = .longMontgomery)
    (hframe : ∀ q, q ≠ .stack → q ≠ rdi → m' q = m q)
    (h : Sets m' m'' rdi (v * radix)) : Stores m m'' rdi v := by
  obtain ⟨x, hx, rfl⟩ := h
  refine ⟨?_, ?_, fun p hp hstack => ?_⟩
  · rw [Function.update_self, FrElement.WellFormed, htype]
    exact hx.1
  · rw [Function.update_self, FrElement.value, htype]
    simp only [hx.2]
    exact mul_div_cancel_right₀ _ radix_ne_zero
  · rw [Function.update_of_ne hp]
    exact hframe p hstack hp

section Cases

variable (hop : Computes op shorts longShort shortLong longs inPlace)
include hop

theorem additive_shorts (hrsi : (m rsi).type.Short) (hrdx : (m rdx).type.Short) :
    Stores m (shortResult m rdi (shorts (m rsi).shortVal.toInt (m rdx).shortVal.toInt)) rdi
      (op (m rsi).value (m rdx).value) := by
  obtain ⟨hlow, hhigh⟩ := hop.shorts_bound (small_toInt (m rsi).shortVal)
    (small_toInt (m rdx).shortVal)
  rw [value_of_short hrsi, value_of_short hrdx, ← hop.shorts_cast]
  exact shortResult_stores m rdi hlow hhigh

theorem additive_long_short (ha : (m rsi).WellFormed) (hrsi : (m rsi).type = .long)
    (hrdx : (m rdx).type.Short) :
    Stores m (longShort (setType m rdi .long) rdi rsi (m rdx).shortVal.toInt) rdi
      (op (m rsi).value (m rdx).value) := by
  rw [value_of_short hrdx]
  refine (hop.longShort rdi ?_ (small_toInt _)).stores_long
  rw [longVal_setType]
  exact holds_of_long ha hrsi

theorem additive_short_long (hb : (m rdx).WellFormed) (hrsi : (m rsi).type.Short)
    (hrdx : (m rdx).type = .long) (hsafe : InPlace inPlace m rdi rsi rdx) :
    Stores m (shortLong (setType m rdi .long) rdi (m rsi).shortVal.toInt rdx) rdi
      (op (m rsi).value (m rdx).value) := by
  rw [value_of_short hrsi]
  refine (hop.shortLong ?_ (small_toInt _) fun h => hsafe.short h hrsi hrdx).stores_long
  rw [longVal_setType]
  exact holds_of_long hb hrdx

theorem additive_longs (ha : Holds (m rsi).longVal v) (hb : Holds (m rdx).longVal w) :
    Stores m (call longs (setType m rdi .long) rdi (.element rsi) (.element rdx)) rdi (op v w) := by
  refine (hop.longs rdi ?_ ?_).stores_long
  · rwa [longVal_setType]
  · rwa [longVal_setType]

theorem additive_montgomery (ha : Holds (m rsi).longVal (v * radix))
    (hb : Holds (m rdx).longVal (w * radix)) :
    Stores m (call longs (setType m rdi .longMontgomery) rdi (.element rsi) (.element rdx)) rdi
      (op v w) := by
  refine Sets.stores_longMontgomery ?_
  rw [← hop.radix]
  refine hop.longs rdi ?_ ?_
  · rwa [longVal_setType]
  · rwa [longVal_setType]

theorem additive_convert_right (ha : (m rsi).WellFormed) (hb : (m rdx).WellFormed)
    (hrdi : rdi ≠ .stack) (hstack : rsi ≠ .stack) (hrsi : (m rsi).type = .longMontgomery)
    (hplain : (m rdx).type = .short ∨ (m rdx).type = .long)
    (hsafe : InPlace inPlace m rdi rsi rdx) :
    Stores m (call longs (frToMontgomery (setType m rdi .longMontgomery) .stack rdx) rdi
      (.element rsi) (.element .stack)) rdi (op (m rsi).value (m rdx).value) := by
  have hne : rdx ≠ rdi := fun h => hsafe.right h ⟨hplain, hrsi⟩
  obtain ⟨hwords, htype, hframe⟩ := stack_converted hne hrdi hb
  refine Sets.stores_converted htype (fun q hq => (hframe q hq).2) ?_
  rw [← hop.radix]
  refine hop.longs rdi ?_ hwords
  rw [(hframe rsi hstack).1]
  exact holds_of_montgomery ha (.inr hrsi)

theorem additive_convert_left (ha : (m rsi).WellFormed) (hb : (m rdx).WellFormed)
    (hrdi : rdi ≠ .stack) (hstack : rdx ≠ .stack) (hrdx : (m rdx).type = .longMontgomery)
    (hplain : (m rsi).type = .short ∨ (m rsi).type = .long)
    (hsafe : InPlace inPlace m rdi rsi rdx) :
    Stores m (call longs (frToMontgomery (setType m rdi .longMontgomery) .stack rsi) rdi
      (.element .stack) (.element rdx)) rdi (op (m rsi).value (m rdx).value) := by
  have hne : rsi ≠ rdi := fun h => hsafe.left h ⟨hplain, hrdx⟩
  obtain ⟨hwords, htype, hframe⟩ := stack_converted hne hrdi ha
  refine Sets.stores_converted htype (fun q hq => (hframe q hq).2) ?_
  rw [← hop.radix]
  refine hop.longs rdi hwords ?_
  rw [(hframe rdx hstack).1]
  exact holds_of_montgomery hb (.inr hrdx)

end Cases

theorem additive_stores (hop : Computes op shorts longShort shortLong longs inPlace)
    (ha : (m rsi).WellFormed) (hb : (m rdx).WellFormed) (hrdi : rdi ≠ .stack)
    (hrsistack : rsi ≠ .stack) (hrdxstack : rdx ≠ .stack)
    (hsafe : InPlace inPlace m rdi rsi rdx) :
    Stores m (additive shorts longShort shortLong longs m rdi rsi rdx) rdi
      (op (m rsi).value (m rdx).value) := by
  cases hrsi : (m rsi).type with
  | short =>
      cases hrdx : (m rdx).type with
      | short =>
          simp only [additive, hrsi, hrdx]
          exact additive_shorts hop (.inl hrsi) (.inl hrdx)
      | shortMontgomery =>
          simp only [additive, hrsi, hrdx]
          exact additive_shorts hop (.inl hrsi) (.inr hrdx)
      | long =>
          simp only [additive, hrsi, hrdx]
          exact additive_short_long hop hb (.inl hrsi) hrdx hsafe
      | longMontgomery =>
          simp only [additive, hrsi, hrdx]
          exact additive_convert_left hop ha hb hrdi hrdxstack hrdx (.inl hrsi) hsafe
  | shortMontgomery =>
      have hwords := holds_of_montgomery ha (.inl hrsi)
      cases hrdx : (m rdx).type with
      | short =>
          simp only [additive, hrsi, hrdx]
          exact additive_shorts hop (.inr hrsi) (.inl hrdx)
      | shortMontgomery =>
          simp only [additive, hrsi, hrdx]
          exact additive_shorts hop (.inr hrsi) (.inr hrdx)
      | long =>
          simp only [additive, hrsi, hrdx]
          exact additive_short_long hop hb (.inr hrsi) hrdx hsafe
      | longMontgomery =>
          simp only [additive, hrsi, hrdx]
          exact additive_montgomery hop hwords (holds_of_montgomery hb (.inr hrdx))
  | long =>
      cases hrdx : (m rdx).type with
      | short =>
          simp only [additive, hrsi, hrdx]
          exact additive_long_short hop ha hrsi (.inl hrdx)
      | shortMontgomery =>
          simp only [additive, hrsi, hrdx]
          exact additive_long_short hop ha hrsi (.inr hrdx)
      | long =>
          simp only [additive, hrsi, hrdx]
          exact additive_longs hop (holds_of_long ha hrsi) (holds_of_long hb hrdx)
      | longMontgomery =>
          simp only [additive, hrsi, hrdx]
          exact additive_convert_left hop ha hb hrdi hrdxstack hrdx (.inr hrsi) hsafe
  | longMontgomery =>
      have hwords := holds_of_montgomery ha (.inr hrsi)
      cases hrdx : (m rdx).type with
      | short =>
          simp only [additive, hrsi, hrdx]
          exact additive_convert_right hop ha hb hrdi hrsistack hrsi (.inl hrdx) hsafe
      | shortMontgomery =>
          simp only [additive, hrsi, hrdx]
          exact additive_montgomery hop hwords (holds_of_montgomery hb (.inl hrdx))
      | long =>
          simp only [additive, hrsi, hrdx]
          exact additive_convert_right hop ha hb hrdi hrsistack hrsi (.inr hrdx) hsafe
      | longMontgomery =>
          simp only [additive, hrsi, hrdx]
          exact additive_montgomery hop hwords (holds_of_montgomery hb (.inr hrdx))

end Dispatch

/-! ### The two operations -/

section Operations

variable {m : Memory Addr} {rdi p : Place Addr} {v w : Fr} {n : ℤ}

theorem addShort_sets (rdi : Place Addr) (hv : Holds (m p).longVal v) (hn : Small n) :
    Sets m (addShort m rdi p n) rdi (v + n) := by
  obtain ⟨hlow, hhigh⟩ := hn
  rw [addShort]
  split_ifs with hneg
  · have h := rawSubLS_sets m rdi (.element p) (.word (word (-n))) hv.1
    rwa [Arg.number, hv.2, Arg.value, cast_word (by omega) (by omega), Int.cast_neg,
      sub_neg_eq_add] at h
  · have h := rawAddLS_sets m rdi (.element p) (.word (word n)) hv.1
    rwa [Arg.number, hv.2, Arg.value, cast_word (by omega) (by omega)] at h

theorem subShort_sets (rdi : Place Addr) (hv : Holds (m p).longVal v) (hn : Small n) :
    Sets m (subShort m rdi p n) rdi (v - n) := by
  obtain ⟨hlow, hhigh⟩ := hn
  rw [subShort]
  split_ifs with hneg
  · have h := rawAddLS_sets m rdi (.element p) (.word (word (-n))) hv.1
    rwa [Arg.number, hv.2, Arg.value, cast_word (by omega) (by omega), Int.cast_neg,
      ← sub_eq_add_neg] at h
  · have h := rawSubLS_sets m rdi (.element p) (.word (word n)) hv.1
    rwa [Arg.number, hv.2, Arg.value, cast_word (by omega) (by omega)] at h

theorem subFromShort_sets (hv : Holds (m p).longVal v) (hn : Small n)
    (hp : p = rdi → 0 ≤ n) : Sets m (subFromShort m rdi n p) rdi (n - v) := by
  obtain ⟨hlow, hhigh⟩ := hn
  rw [subFromShort]
  split_ifs with hneg
  · have hne : Arg.element p ≠ .element rdi := by
      intro h
      have hpos := hp (Arg.element.inj h)
      omega
    have hpos := toNat_word (v := -n) (by omega) (by omega)
    have h := rawNegLS_sets m rdi (.element p) (.word (word (-n))) hne hv.1
      (by rw [Arg.value]; omega)
    rw [Arg.number, hv.2, Arg.value, cast_word (by omega) (by omega), Int.cast_neg,
      sub_neg_eq_add, neg_add_eq_sub] at h
    exact h
  · have h := rawSubSL_sets m rdi (.word (word n)) (.element p) hv.1
    rwa [Arg.number, hv.2, Arg.value, cast_word (by omega) (by omega)] at h

theorem add_computes : Computes (· + ·) (· + ·) (@addShort Addr _)
    (fun m rdi v rdx => addShort m rdi rdx v) rawAddLL fun _ => True where
  radix v w := (add_mul v w radix).symm
  shorts_cast a b := Int.cast_add a b
  shorts_bound := fun ⟨halow, hahigh⟩ ⟨hblow, hbhigh⟩ => ⟨by omega, by omega⟩
  longShort rdi hv hn := addShort_sets rdi hv hn
  shortLong hv hn _ := by
    rw [add_comm]
    exact addShort_sets _ hv hn
  longs rdi hv hw := by
    have h := rawAddLL_sets _ rdi (.element _) (.element _) hv.1 hw.1
    rwa [Arg.number, Arg.number, hv.2, hw.2] at h

theorem sub_computes : Computes (· - ·) (· - ·) (@subShort Addr _) subFromShort rawSubLL
    fun n => 0 ≤ n where
  radix v w := (sub_mul v w radix).symm
  shorts_cast a b := Int.cast_sub a b
  shorts_bound := fun ⟨halow, hahigh⟩ ⟨hblow, hbhigh⟩ => ⟨by omega, by omega⟩
  longShort rdi hv hn := subShort_sets rdi hv hn
  shortLong hv hn hp := subFromShort_sets hv hn hp
  longs rdi hv hw := by
    have h := rawSubLL_sets _ rdi (.element _) (.element _) hv.1 hw.1
    rwa [Arg.number, Arg.number, hv.2, hw.2] at h

theorem frAdd_stores (m : Memory Addr) (rdi rsi rdx : Place Addr) (ha : (m rsi).WellFormed)
    (hb : (m rdx).WellFormed) (hrdi : rdi ≠ .stack) (hrsi : rsi ≠ .stack) (hrdx : rdx ≠ .stack)
    (hsafe : InPlace (fun _ => True) m rdi rsi rdx) :
    Stores m (frAdd m rdi rsi rdx) rdi ((m rsi).value + (m rdx).value) :=
  additive_stores add_computes ha hb hrdi hrsi hrdx hsafe

theorem frSub_stores (m : Memory Addr) (rdi rsi rdx : Place Addr) (ha : (m rsi).WellFormed)
    (hb : (m rdx).WellFormed) (hrdi : rdi ≠ .stack) (hrsi : rsi ≠ .stack) (hrdx : rdx ≠ .stack)
    (hsafe : InPlace (fun n => 0 ≤ n) m rdi rsi rdx) :
    Stores m (frSub m rdi rsi rdx) rdi ((m rsi).value - (m rdx).value) :=
  additive_stores sub_computes ha hb hrdi hrsi hrdx hsafe

end Operations

end Veritas
