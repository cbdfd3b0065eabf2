import Veritas.Proof.Additive
import Veritas.Proof.Numbers

/-!
# Straight-line code computes in the field

Generated code is a sequence of calls on elements in memory. A run of it refines the same sequence
of field operations: the elements it has written stay well formed, and their values are the ones the
field operations give, whatever representations the run starts from and passes through. What the
code has not written may be anything.
-/

namespace Veritas

variable {Addr : Type} [DecidableEq Addr]

/-! ### The abstract machine -/

/-- The call as an operation on residues. -/
def FrCall.denote (v : Addr → Fr) : FrCall Addr → Addr → Fr
  | copy r a | toNormal r a | toLongNormal r a | toMontgomery r a => Function.update v r (v a)
  | add r a b => Function.update v r (v a + v b)
  | sub r a b => Function.update v r (v a - v b)
  | neg r a => Function.update v r (-v a)
  | mul r a b => Function.update v r (v a * v b)
  | square r a => Function.update v r (v a * v a)

def FrCall.result : FrCall Addr → Addr
  | copy r _ | toNormal r _ | toLongNormal r _ | toMontgomery r _ => r
  | neg r _ | square r _ => r
  | add r _ _ | sub r _ _ | mul r _ _ => r

def FrCall.operands : FrCall Addr → List Addr
  | copy _ a | toNormal _ a | toLongNormal _ a | toMontgomery _ a => [a]
  | neg _ a | square _ a => [a]
  | add _ a b | sub _ a b | mul _ a b => [a, b]

/-- The result of a sum or a difference is not one of its operands. -/
def FrCall.Separate : FrCall Addr → Prop
  | add r a b | sub r a b => a ≠ r ∧ b ≠ r
  | _ => True

/-- The code reads what is initialised only. -/
def Scoped (initialised : Set Addr) : List (FrCall Addr) → Prop
  | [] => True
  | c :: code => (∀ a ∈ c.operands, a ∈ initialised) ∧ c.Separate ∧
      Scoped (insert c.result initialised) code

/-- What is initialised after a run. -/
def written (initialised : Set Addr) (code : List (FrCall Addr)) : Set Addr :=
  code.foldl (fun known c => insert c.result known) initialised

/-- The initialised elements of the memory hold the residues. -/
def Models (m : Memory Addr) (initialised : Set Addr) (v : Addr → Fr) : Prop :=
  ∀ a ∈ initialised, (m (.cell a)).WellFormed ∧ (m (.cell a)).value = v a

theorem Stores.models {m m' : Memory Addr} {initialised : Set Addr} {v : Addr → Fr} {r : Addr}
    {x : Fr} (h : Stores m m' (.cell r) x) (hm : Models m initialised v) :
    Models m' (insert r initialised) (Function.update v r x) := by
  intro a hmem
  by_cases ha : a = r
  · rw [ha, Function.update_self]
    exact ⟨h.wellFormed, h.value⟩
  · rw [Function.update_of_ne ha, h.frame (.cell a) (fun heq => ha (Place.cell.inj heq)) nofun]
    exact hm a (hmem.resolve_left ha)

omit [DecidableEq Addr] in
theorem inPlace_of_ne {inPlace : ℤ → Prop} {m : Memory Addr} {r a b : Addr}
    (h : a ≠ r ∧ b ≠ r) : InPlace inPlace m (.cell r) (.cell a) (.cell b) where
  left heq := absurd (Place.cell.inj heq) h.1
  right heq := absurd (Place.cell.inj heq) h.2
  short heq := absurd (Place.cell.inj heq) h.2

/-! ### Refinement -/

theorem exec_models {m : Memory Addr} {initialised : Set Addr} {v : Addr → Fr} (c : FrCall Addr)
    (hread : ∀ a ∈ c.operands, a ∈ initialised) (hc : c.Separate) (hm : Models m initialised v) :
    Models (c.exec m) (insert c.result initialised) (c.denote v) := by
  cases c with
  | copy r a =>
      obtain ⟨ha, hvalue⟩ := hm a (hread a List.mem_cons_self)
      exact (hvalue ▸ frCopy_stores m (.cell r) (.cell a) ha).models hm
  | add r a b =>
      obtain ⟨ha, hvalue⟩ := hm a (hread a List.mem_cons_self)
      obtain ⟨hb, hvalue'⟩ := hm b (hread b (List.mem_cons_of_mem a List.mem_cons_self))
      have h := frAdd_stores m (.cell r) (.cell a) (.cell b) ha hb nofun nofun nofun
        (inPlace_of_ne hc)
      rw [hvalue, hvalue'] at h
      exact h.models hm
  | sub r a b =>
      obtain ⟨ha, hvalue⟩ := hm a (hread a List.mem_cons_self)
      obtain ⟨hb, hvalue'⟩ := hm b (hread b (List.mem_cons_of_mem a List.mem_cons_self))
      have h := frSub_stores m (.cell r) (.cell a) (.cell b) ha hb nofun nofun nofun
        (inPlace_of_ne hc)
      rw [hvalue, hvalue'] at h
      exact h.models hm
  | neg r a =>
      obtain ⟨ha, hvalue⟩ := hm a (hread a List.mem_cons_self)
      exact (hvalue ▸ frNeg_stores m (.cell r) (.cell a) ha).models hm
  | mul r a b =>
      obtain ⟨ha, hvalue⟩ := hm a (hread a List.mem_cons_self)
      obtain ⟨hb, hvalue'⟩ := hm b (hread b (List.mem_cons_of_mem a List.mem_cons_self))
      have h := frMul_stores m (.cell r) (.cell a) (.cell b) ha hb
      rw [hvalue, hvalue'] at h
      exact h.models hm
  | square r a =>
      obtain ⟨ha, hvalue⟩ := hm a (hread a List.mem_cons_self)
      exact (hvalue ▸ frSquare_stores m (.cell r) (.cell a) ha).models hm
  | toNormal r a =>
      obtain ⟨ha, hvalue⟩ := hm a (hread a List.mem_cons_self)
      exact (hvalue ▸ frToNormal_stores m (.cell r) (.cell a) ha).models hm
  | toLongNormal r a =>
      obtain ⟨ha, hvalue⟩ := hm a (hread a List.mem_cons_self)
      exact (hvalue ▸ (frToLongNormal_stores m (.cell r) (.cell a) ha).1).models hm
  | toMontgomery r a =>
      obtain ⟨ha, hvalue⟩ := hm a (hread a List.mem_cons_self)
      exact (hvalue ▸ (frToMontgomery_stores m (.cell r) (.cell a) ha).1).models hm

theorem run_models (code : List (FrCall Addr)) {m : Memory Addr} {initialised : Set Addr}
    {v : Addr → Fr} (hcode : Scoped initialised code) (hm : Models m initialised v) :
    Models (code.foldl FrCall.exec m) (written initialised code) (code.foldl FrCall.denote v) := by
  induction code generalizing m initialised v with
  | nil => exact hm
  | cons c code ih =>
      obtain ⟨hread, hseparate, hrest⟩ := hcode
      exact ih hrest (exec_models c hread hseparate hm)

/-- **A run of generated code refines the field operations it names**, from the values that its
inputs have in any representations and whatever else the memory holds. -/
theorem run_refines (code : List (FrCall Addr)) (inputs : Set Addr) (m : Memory Addr)
    (hcode : Scoped inputs code) (hinputs : ∀ a ∈ inputs, (m (.cell a)).WellFormed) :
    Models (code.foldl FrCall.exec m) (written inputs code)
      (code.foldl FrCall.denote fun a => (m (.cell a)).value) :=
  run_models code hcode fun a ha => ⟨hinputs a ha, rfl⟩

/-- `x * y - x` with a conversion in between. -/
def sampleCode : List (FrCall (Fin 3)) := [.mul 2 0 1, .toMontgomery 0 0, .sub 1 2 0]

theorem run_refines_sample :
    (sampleCode.foldl FrCall.exec sampleMemory (.cell 1)).value
      = (sampleMemory (.cell 0)).value * (sampleMemory (.cell 1)).value
        - (sampleMemory (.cell 0)).value := by
  have hscoped : Scoped ({0, 1} : Set (Fin 3)) sampleCode := by
    simp [Scoped, sampleCode, FrCall.operands, FrCall.result, FrCall.Separate]
  have h := run_refines sampleCode {0, 1} sampleMemory hscoped
    fun a _ => sampleMemory_wellFormed (.cell a)
  exact (h 1 (.inl rfl)).2

/-! ### In place -/

theorem radix_ne_one : radix ≠ 1 := by
  rw [← cast_radix, ← Nat.cast_one, Ne, ZMod.natCast_eq_natCast_iff']
  norm_num

/-- A long element that a sum writes onto, with a second operand in Montgomery form: its type is
overwritten before the conversion reads it, so the conversion copies its words. -/
theorem frAdd_in_place {m : Memory Addr} {p q : Place Addr} (hp : (m p).WellFormed)
    (hq : (m q).WellFormed) (hpstack : p ≠ .stack) (hqstack : q ≠ .stack) (hne : q ≠ p)
    (hlong : (m p).type = .long) (hmontgomery : (m q).type = .longMontgomery) :
    Stores m (frAdd m p p q) p ((m p).value / radix + (m q).value) := by
  have hwords := holds_of_long hp hlong
  have hwords' := holds_of_montgomery hq (.inr hmontgomery)
  have hcopied : frToMontgomery (setType m p .longMontgomery) .stack p
      = Function.update (setType m p .longMontgomery) .stack
        { m p with type := .longMontgomery } := by
    simp only [frToMontgomery, setType_type, frCopy]
    rw [setType, Function.update_self]
  simp only [frAdd, additive, hlong, hmontgomery, hcopied]
  have hframe (r : Place Addr) (hr : r ≠ .stack) (hrp : r ≠ p) :
      Function.update (setType m p .longMontgomery) .stack
        { m p with type := .longMontgomery } r = m r := by
    rw [Function.update_of_ne hr]
    exact Function.update_of_ne hrp _ _
  refine Sets.stores_converted ?_ hframe ?_
  · rw [Function.update_of_ne hpstack, setType_type]
  rw [add_mul, div_mul_cancel₀ _ radix_ne_zero]
  refine add_computes.longs p ?_ ?_
  · rw [Function.update_self]
    exact hwords
  · rw [hframe q hqstack hne]
    exact hwords'

/-- **A sum onto a long operand is right unless the other one is in Montgomery form**, and then only
onto zero. -/
theorem frAdd_in_place_iff {m : Memory Addr} {p q : Place Addr} (hp : (m p).WellFormed)
    (hq : (m q).WellFormed) (hpstack : p ≠ .stack) (hqstack : q ≠ .stack) (hne : q ≠ p)
    (hlong : (m p).type = .long) :
    (frAdd m p p q p).value = (m p).value + (m q).value ↔
      ((m q).type = .longMontgomery → (m p).value = 0) := by
  by_cases hmontgomery : (m q).type = .longMontgomery
  · rw [(frAdd_in_place hp hq hpstack hqstack hne hlong hmontgomery).value, add_left_inj,
      div_eq_iff radix_ne_zero, eq_comm, mul_right_eq_self₀, or_iff_right radix_ne_one]
    exact ⟨fun h _ => h, fun h => h hmontgomery⟩
  · refine iff_of_true (frAdd_stores m p p q hp hq hpstack hpstack hqstack ?_).value
      fun h => absurd h hmontgomery
    exact ⟨fun _ h => hmontgomery h.2, fun h => absurd h hne, fun h => absurd h hne⟩

theorem frAdd_in_place_iff_sample :
    (frAdd sampleMemory (.cell 2) (.cell 2) (.cell 1) (.cell 2)).value
      ≠ (sampleMemory (.cell 2)).value + (sampleMemory (.cell 1)).value := by
  have h := frAdd_in_place_iff (p := .cell 2) (q := .cell 1) (sampleMemory_wellFormed _)
    (sampleMemory_wellFormed _) nofun nofun (by decide) rfl
  exact fun heq => sampleMemory_seven (h.mp heq rfl)

end Veritas
