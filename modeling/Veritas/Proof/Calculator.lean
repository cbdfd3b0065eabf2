import Veritas.Calculator
import Veritas.Proof.Numbers
import Veritas.Proof.Program
import Mathlib.Data.List.Intervals
import Mathlib.Data.List.Perm.Subperm

/-!
# Runs of the witness calculator

A sequence of assignments succeeds when each names an input of the table and no two name the same
one. The state then depends on the set of assignments alone, and the circuit's code has run, once,
when all inputs are set.
-/

namespace Veritas

namespace CircomCircuit

variable (c : CircomCircuit)

/-! ### The table -/

/-- The name in a slot. A slot without a signal is vacant. -/
def key (pos : ℕ) : Option UInt64 :=
  if (c.slot pos).signalid = 0 then none else some (c.slot pos).hash

/-- The tables that a circuit comes with. -/
structure WellFormed : Prop where
  inputs : 0 < c.mainInputSignalNo
  packed : Probing.Packed c.key (fun h => h.toNat % c.inputHashMap.length) c.inputHashMap.length
  room : ∃ pos < c.inputHashMap.length, (c.slot pos).signalid = 0
  vacant : ∀ pos < c.inputHashMap.length, (c.slot pos).signalid = 0 →
    (c.slot pos).hash = 0 ∧ (c.slot pos).signalsize = 0
  taken : ∀ pos < c.inputHashMap.length, (c.slot pos).signalid ≠ 0 →
    (c.slot pos).hash ≠ 0 ∧ c.mainInputSignalStart ≤ (c.slot pos).signalid ∧
      (c.slot pos).signalid + (c.slot pos).signalsize
        ≤ c.mainInputSignalStart + c.mainInputSignalNo

variable {c}

theorem getInputSignalHashPosition_eq_ok_iff (h : UInt64) (pos : ℕ) :
    c.getInputSignalHashPosition h = .ok pos ↔
      Probing.lookup (fun pos => (c.slot pos).hash == h) (fun pos => (c.slot pos).signalid == 0)
        c.inputHashMap.length (h.toNat % c.inputHashMap.length) = .found pos := by
  rw [getInputSignalHashPosition]
  split <;> simp_all

theorem key_eq_some_iff (pos : ℕ) (h : UInt64) :
    c.key pos = some h ↔ (c.slot pos).signalid ≠ 0 ∧ (c.slot pos).hash = h := by
  rw [key]
  split_ifs with hvacant
  · exact ⟨nofun, fun ⟨hne, _⟩ => absurd hvacant hne⟩
  · rw [Option.some_inj]
    exact ⟨fun heq => ⟨hvacant, heq⟩, And.right⟩

theorem WellFormed.home_lt (hc : c.WellFormed) (h : UInt64) :
    h.toNat % c.inputHashMap.length < c.inputHashMap.length := hc.packed.home_lt h

/-- A name is found where it is. -/
theorem WellFormed.position_iff (hc : c.WellFormed) {h : UInt64} (hne : h ≠ 0) (pos : ℕ) :
    c.getInputSignalHashPosition h = .ok pos ↔
      pos < c.inputHashMap.length ∧ (c.slot pos).signalid ≠ 0 ∧ (c.slot pos).hash = h := by
  rw [getInputSignalHashPosition_eq_ok_iff, ← key_eq_some_iff]
  refine hc.packed.lookup_found_iff (fun p hp => ?_) (fun p _ hvacant => ?_) pos
  · rw [beq_iff_eq, key_eq_some_iff]
    refine ⟨fun heq => ⟨fun hvacant => hne ?_, heq⟩, And.right⟩
    rw [← heq]
    exact (hc.vacant p hp hvacant).1
  · rw [key, if_pos (beq_iff_eq.mp hvacant)]

theorem WellFormed.position_sound (hc : c.WellFormed) {h : UInt64} {pos : ℕ}
    (hpos : c.getInputSignalHashPosition h = .ok pos) :
    pos < c.inputHashMap.length ∧ (c.slot pos).hash = h := by
  rw [getInputSignalHashPosition_eq_ok_iff] at hpos
  obtain ⟨hlt, hhit⟩ := Probing.lookup_sound (hc.home_lt h) hpos
  exact ⟨hlt, beq_iff_eq.mp hhit⟩

/-- The hash of a vacant slot is found, and has no signals. -/
theorem WellFormed.position_zero (hc : c.WellFormed) :
    ∃ pos, c.getInputSignalHashPosition 0 = .ok pos ∧ (c.slot pos).signalsize = 0 := by
  obtain ⟨room, hroom, hfree⟩ := hc.room
  have hvacant (p : ℕ) (hp : p < c.inputHashMap.length)
      (hfree : ((c.slot p).signalid == 0) = true) : ((c.slot p).hash == 0) = true :=
    beq_iff_eq.mpr (hc.vacant p hp (beq_iff_eq.mp hfree)).1
  obtain ⟨pos, hpos⟩ := Probing.exists_lookup_found (hc.home_lt 0) hvacant hroom
    (hvacant room hroom (beq_iff_eq.mpr hfree))
  rw [← getInputSignalHashPosition_eq_ok_iff] at hpos
  obtain ⟨hlt, hhash⟩ := hc.position_sound hpos
  refine ⟨pos, hpos, (hc.vacant pos hlt ?_).2⟩
  exact of_not_not fun hne => (hc.taken pos hlt hne).1 hhash

theorem getInputSignalSize_eq (h : UInt64) :
    c.getInputSignalSize h =
      (c.getInputSignalHashPosition h).map fun pos => (c.slot pos).signalsize := by
  rw [getInputSignalSize]
  cases c.getInputSignalHashPosition h <;> rfl

/-! ### Assignments -/

/-- A call of `setInputSignal`. -/
structure Assignment where
  hash : UInt64
  index : ℕ
  val : FrElement

variable (c)

/-- The signal that a hash and an index name. -/
def target (h : UInt64) (i : ℕ) : Option ℕ :=
  match c.getInputSignalHashPosition h with
  | .ok pos => if i < (c.slot pos).signalsize then some ((c.slot pos).signalid + i) else none
  | .error _ => none

def site (a : Assignment) : ℕ := (c.target a.hash a.index).getD 0

/-- Every assignment names an input, each a different one. -/
structure Legal (calls : List Assignment) : Prop where
  named : ∀ a ∈ calls, (c.target a.hash a.index).isSome
  distinct : (calls.map c.site).Nodup

def assign (s : CalcWit) (calls : List Assignment) : Except String CalcWit :=
  calls.foldlM (fun s a => c.setInputSignal s a.hash a.index a.val) s

/-- The memory with the inputs set. -/
def fill (m : Memory Cell) (calls : List Assignment) : Memory Cell :=
  calls.foldl (fun m a => Function.update m (.cell (.signal (c.site a))) a.val) m

def execute (m : Memory Cell) : Memory Cell := c.run.foldl FrCall.exec m

/-- The state that assignments lead to from a memory. -/
def outcome (m : Memory Cell) (calls : List Assignment) : CalcWit where
  signalValues :=
    if calls.length = c.mainInputSignalNo then c.execute (c.fill m calls) else c.fill m calls
  inputSignalAssigned j := decide (j + c.mainInputSignalStart ∈ calls.map c.site)
  inputSignalAssignedCounter := c.mainInputSignalNo - calls.length

variable {c}

theorem target_eq_some_iff (h : UInt64) (i si : ℕ) :
    c.target h i = some si ↔ ∃ pos, c.getInputSignalHashPosition h = .ok pos ∧
      i < (c.slot pos).signalsize ∧ (c.slot pos).signalid + i = si := by
  rw [target]
  split
  next pos hpos =>
    rw [Option.ite_none_right_eq_some, Option.some_inj, hpos]
    refine ⟨fun h => ⟨pos, rfl, h⟩, ?_⟩
    rintro ⟨pos', heq, h⟩
    obtain rfl := Except.ok.inj heq
    exact h
  next e he =>
    rw [he]
    exact ⟨nofun, fun ⟨_, h, _⟩ => absurd h nofun⟩

theorem WellFormed.target_range (hc : c.WellFormed) {h : UInt64} {i si : ℕ}
    (htarget : c.target h i = some si) :
    c.mainInputSignalStart ≤ si ∧ si < c.mainInputSignalStart + c.mainInputSignalNo := by
  obtain ⟨pos, hpos, hindex, rfl⟩ := (target_eq_some_iff h i si).mp htarget
  obtain ⟨hlt, -⟩ := hc.position_sound hpos
  have htaken : (c.slot pos).signalid ≠ 0 := by
    intro hvacant
    rw [(hc.vacant pos hlt hvacant).2] at hindex
    exact Nat.not_lt_zero _ hindex
  obtain ⟨-, hlow, hhigh⟩ := hc.taken pos hlt htaken
  omega

theorem target_eq_some_site {a : Assignment} (h : (c.target a.hash a.index).isSome) :
    c.target a.hash a.index = some (c.site a) := by
  obtain ⟨si, hsi⟩ := Option.isSome_iff_exists.mp h
  rw [site, hsi, Option.getD_some]

theorem Legal.subset (hc : c.WellFormed) {calls : List Assignment} (h : c.Legal calls) :
    calls.map c.site ⊆ List.Ico c.mainInputSignalStart
      (c.mainInputSignalStart + c.mainInputSignalNo) := by
  intro si hsi
  obtain ⟨a, ha, rfl⟩ := List.mem_map.mp hsi
  exact List.Ico.mem.mpr (hc.target_range (target_eq_some_site (h.named a ha)))

theorem Legal.length_le (hc : c.WellFormed) {calls : List Assignment} (h : c.Legal calls) :
    calls.length ≤ c.mainInputSignalNo := by
  have hlength := (h.distinct.subperm (h.subset hc)).length_le
  rwa [List.length_map, List.Ico.length, Nat.add_sub_cancel_left] at hlength

theorem legal_concat_iff (calls : List Assignment) (a : Assignment) :
    c.Legal (calls ++ [a]) ↔
      c.Legal calls ∧ (c.target a.hash a.index).isSome ∧ c.site a ∉ calls.map c.site := by
  constructor
  · rintro ⟨hnamed, hdistinct⟩
    rw [List.map_append, List.map_singleton, List.nodup_append] at hdistinct
    obtain ⟨hnodup, -, hdisjoint⟩ := hdistinct
    refine ⟨⟨fun b hb => hnamed b (List.mem_append_left _ hb), hnodup⟩,
      hnamed a (List.mem_append_right _ (List.mem_singleton_self a)), fun hmem => ?_⟩
    exact hdisjoint _ hmem _ (List.mem_singleton_self _) rfl
  · rintro ⟨⟨hnamed, hdistinct⟩, hname, hnew⟩
    refine ⟨fun b hb => ?_, ?_⟩
    · rcases List.mem_append.mp hb with hb | hb
      · exact hnamed b hb
      · rwa [List.mem_singleton.mp hb]
    · rw [List.map_append, List.map_singleton]
      exact List.nodup_append.mpr ⟨hdistinct, List.nodup_singleton _, fun x hx y hy heq =>
        hnew (List.mem_singleton.mp hy ▸ heq ▸ hx)⟩

/-! ### Runs -/

/-- A check that ends the program. -/
theorem guard_eq_ok_iff {α : Type} {p : Prop} [Decidable p] {e : String} {a : α}
    (next : Except String α) :
    (do if p then throw e
        next) = .ok a ↔ ¬ p ∧ next = .ok a := by
  by_cases hp : p
  · rw [if_pos hp]
    exact ⟨nofun, fun h => absurd hp h.1⟩
  · rw [if_neg hp]
    exact (and_iff_right hp).symm

theorem setInputSignal_eq_ok_iff (s s' : CalcWit) (a : Assignment) :
    c.setInputSignal s a.hash a.index a.val = .ok s' ↔
      s.inputSignalAssignedCounter ≠ 0 ∧ ∃ si, c.target a.hash a.index = some si ∧
        s.inputSignalAssigned (si - c.mainInputSignalStart) = false ∧
        c.tryRunCircuit
          { signalValues := Function.update s.signalValues (.cell (.signal si)) a.val
            inputSignalAssigned :=
              Function.update s.inputSignalAssigned (si - c.mainInputSignalStart) true
            inputSignalAssignedCounter := s.inputSignalAssignedCounter - 1 } = s' := by
  rw [setInputSignal]
  by_cases hcounter : s.inputSignalAssignedCounter = 0
  · rw [if_pos hcounter]
    exact ⟨nofun, fun h => absurd hcounter h.1⟩
  rw [if_neg hcounter, target]
  cases hpos : c.getInputSignalHashPosition a.hash with
  | error e => exact ⟨nofun, fun ⟨_, _, h, _⟩ => absurd h nofun⟩
  | ok pos =>
      refine (guard_eq_ok_iff _).trans ?_
      rw [Nat.not_le]
      by_cases hindex : a.index < (c.slot pos).signalsize
      · simp only [hindex, if_true, Option.some_inj, exists_eq_left', true_and]
        refine (guard_eq_ok_iff _).trans ?_
        rw [Bool.not_eq_true]
        exact ⟨fun h => ⟨hcounter, h.1, Except.ok.inj h.2⟩,
          fun h => ⟨h.2.1, congrArg Except.ok h.2.2⟩⟩
      · simp only [hindex, if_false]
        exact ⟨fun h => absurd h.1 id, fun ⟨_, _, h, _⟩ => absurd h nofun⟩

@[simp]
theorem outcome_values (m : Memory Cell) (calls : List Assignment) :
    (c.outcome m calls).signalValues =
      if calls.length = c.mainInputSignalNo then c.execute (c.fill m calls)
      else c.fill m calls := rfl

@[simp]
theorem outcome_assigned (m : Memory Cell) (calls : List Assignment) (j : ℕ) :
    (c.outcome m calls).inputSignalAssigned j
      = decide (j + c.mainInputSignalStart ∈ calls.map c.site) := rfl

@[simp]
theorem outcome_counter (m : Memory Cell) (calls : List Assignment) :
    (c.outcome m calls).inputSignalAssignedCounter = c.mainInputSignalNo - calls.length := rfl

theorem outcome_nil (hc : c.WellFormed) (m : Memory Cell) :
    c.outcome (c.calcWit m).signalValues [] = c.calcWit m := by
  ext1
  · rw [outcome_values, List.length_nil, if_neg hc.inputs.ne, fill, List.foldl_nil]
  · funext j
    rw [outcome_assigned, List.map_nil]
    exact decide_eq_false List.not_mem_nil
  · rw [outcome_counter, List.length_nil, Nat.sub_zero, calcWit]

theorem fill_concat (m : Memory Cell) (calls : List Assignment) (a : Assignment) :
    c.fill m (calls ++ [a])
      = Function.update (c.fill m calls) (.cell (.signal (c.site a))) a.val := by
  rw [fill, List.foldl_append]
  rfl

/-- One more legal assignment. -/
theorem outcome_concat (hc : c.WellFormed) (m : Memory Cell) {calls : List Assignment}
    {a : Assignment} (hlegal : c.Legal (calls ++ [a])) :
    c.setInputSignal (c.outcome m calls) a.hash a.index a.val
      = .ok (c.outcome m (calls ++ [a])) := by
  obtain ⟨-, hnamed, hnew⟩ := (legal_concat_iff calls a).mp hlegal
  have htarget := target_eq_some_site hnamed
  obtain ⟨hlow, -⟩ := hc.target_range htarget
  have hlength := hlegal.length_le hc
  rw [List.length_append, List.length_singleton] at hlength
  refine (setInputSignal_eq_ok_iff _ _ a).mpr ⟨?_, c.site a, htarget, ?_, ?_⟩
  · rw [outcome_counter]
    omega
  · rw [outcome_assigned, Nat.sub_add_cancel hlow]
    exact decide_eq_false hnew
  have hvalues : Function.update (c.outcome m calls).signalValues
      (.cell (.signal (c.site a))) a.val = c.fill m (calls ++ [a]) := by
    rw [outcome_values, if_neg (by omega), fill_concat]
  have hassigned : Function.update (c.outcome m calls).inputSignalAssigned
      (c.site a - c.mainInputSignalStart) true
      = (c.outcome m (calls ++ [a])).inputSignalAssigned := by
    funext j
    rw [outcome_assigned, List.map_append, List.map_singleton]
    by_cases hj : j = c.site a - c.mainInputSignalStart
    · rw [hj, Function.update_self, Nat.sub_add_cancel hlow]
      exact (decide_eq_true (List.mem_append_right _ (List.mem_singleton_self _))).symm
    · rw [Function.update_of_ne hj, outcome_assigned]
      refine decide_eq_decide.mpr (Iff.trans ?_ List.mem_append.symm)
      rw [List.mem_singleton]
      exact (or_iff_left (by omega)).symm
  have hcounter : (c.outcome m calls).inputSignalAssignedCounter - 1
      = (c.outcome m (calls ++ [a])).inputSignalAssignedCounter := by
    rw [outcome_counter, outcome_counter, List.length_append, List.length_singleton]
    omega
  have hlast : (c.outcome m (calls ++ [a])).inputSignalAssignedCounter = 0
      ↔ (calls ++ [a]).length = c.mainInputSignalNo := by
    rw [outcome_counter, List.length_append, List.length_singleton]
    omega
  rw [hassigned, hvalues, hcounter, tryRunCircuit]
  dsimp only
  by_cases hfull : (calls ++ [a]).length = c.mainInputSignalNo
  · rw [if_pos (hlast.mpr hfull)]
    ext1
    · rw [outcome_values, if_pos hfull, execute]
    · rfl
    · rfl
  · rw [if_neg (mt hlast.mp hfull)]
    ext1
    · rw [outcome_values, if_neg hfull]
    · rfl
    · rfl

/-- An assignment that succeeds was legal. -/
theorem legal_concat_of_ok (hc : c.WellFormed) {m : Memory Cell} {calls : List Assignment}
    {a : Assignment} {s : CalcWit} (hlegal : c.Legal calls)
    (h : c.setInputSignal (c.outcome m calls) a.hash a.index a.val = .ok s) :
    c.Legal (calls ++ [a]) := by
  obtain ⟨-, si, htarget, hunassigned, -⟩ := (setInputSignal_eq_ok_iff _ _ a).mp h
  obtain ⟨hlow, -⟩ := hc.target_range htarget
  rw [outcome_assigned, Nat.sub_add_cancel hlow, decide_eq_false_iff_not] at hunassigned
  refine (legal_concat_iff calls a).mpr ⟨hlegal, Option.isSome_of_eq_some htarget, ?_⟩
  rwa [site, htarget]

theorem assign_concat (s : CalcWit) (calls : List Assignment) (a : Assignment) :
    c.assign s (calls ++ [a])
      = c.assign s calls >>= fun s => c.setInputSignal s a.hash a.index a.val := by
  rw [assign, List.foldlM_append]
  simp only [List.foldlM_cons, List.foldlM_nil, bind_pure]
  rfl

theorem legal_nil : c.Legal [] := ⟨nofun, List.nodup_nil⟩

theorem Legal.of_append {calls calls' : List Assignment} (h : c.Legal (calls ++ calls')) :
    c.Legal calls := by
  refine ⟨fun a ha => h.named a (List.mem_append_left _ ha), ?_⟩
  have hdistinct := h.distinct
  rw [List.map_append] at hdistinct
  exact (List.nodup_append.mp hdistinct).1

/-- The run of assignments from the start, one step at a time from the last. -/
theorem assign_eq_ok_iff (hc : c.WellFormed) (m : Memory Cell) (calls : List Assignment)
    (s : CalcWit) :
    c.assign (c.calcWit m) calls = .ok s ↔
      c.Legal calls ∧ s = c.outcome (c.calcWit m).signalValues calls := by
  induction calls using List.reverseRecOn generalizing s with
  | nil =>
      rw [outcome_nil hc]
      refine ⟨fun h => ⟨legal_nil, (Except.ok.inj h).symm⟩, ?_⟩
      rintro ⟨-, rfl⟩
      rfl
  | append_singleton calls a ih =>
      rw [assign_concat]
      constructor
      · intro h
        cases hcalls : c.assign (c.calcWit m) calls with
        | error e =>
            rw [hcalls] at h
            exact absurd h nofun
        | ok s' =>
            obtain ⟨hlegal, rfl⟩ := (ih s').mp hcalls
            rw [hcalls] at h
            have hlegal' := legal_concat_of_ok hc hlegal h
            have hset := outcome_concat hc (c.calcWit m).signalValues hlegal'
            exact ⟨hlegal', Except.ok.inj (h.symm.trans hset)⟩
      · rintro ⟨hlegal, rfl⟩
        rw [(ih _).mpr ⟨hlegal.of_append, rfl⟩]
        exact outcome_concat hc (c.calcWit m).signalValues hlegal

/-! ### Orders of the assignments -/

theorem Legal.perm {calls calls' : List Assignment} (h : c.Legal calls)
    (hperm : calls.Perm calls') : c.Legal calls' where
  named a ha := h.named a (hperm.mem_iff.mpr ha)
  distinct := (hperm.map c.site).nodup_iff.mp h.distinct

theorem fill_perm (m : Memory Cell) {calls calls' : List Assignment} (h : c.Legal calls)
    (hperm : calls.Perm calls') : c.fill m calls = c.fill m calls' := by
  refine hperm.foldl_eq' (fun a ha b hb m => ?_) m
  by_cases hsite : c.site a = c.site b
  · rw [List.inj_on_of_nodup_map h.distinct ha hb hsite]
  · exact Function.update_comm (by simpa using hsite) _ _ _

theorem outcome_perm (m : Memory Cell) {calls calls' : List Assignment} (h : c.Legal calls)
    (hperm : calls.Perm calls') : c.outcome m calls = c.outcome m calls' := by
  have hmem (si : ℕ) : si ∈ calls.map c.site ↔ si ∈ calls'.map c.site :=
    (hperm.map c.site).mem_iff
  ext1
  · rw [outcome_values, outcome_values, hperm.length_eq, fill_perm m h hperm]
  · funext j
    rw [outcome_assigned, outcome_assigned]
    exact decide_eq_decide.mpr (hmem _)
  · rw [outcome_counter, outcome_counter, hperm.length_eq]

/-! ### The memory of a complete run -/

theorem fill_of_notMem (m : Memory Cell) {calls : List Assignment} {si : ℕ}
    (h : si ∉ calls.map c.site) :
    c.fill m calls (.cell (.signal si)) = m (.cell (.signal si)) := by
  induction calls using List.reverseRecOn with
  | nil => rfl
  | append_singleton calls a ih =>
      rw [List.map_append, List.mem_append, not_or, List.map_singleton, List.mem_singleton] at h
      rw [fill_concat, Function.update_of_ne (by simpa using h.2), ih h.1]

theorem fill_of_mem (m : Memory Cell) {calls : List Assignment} (h : c.Legal calls)
    {a : Assignment} (ha : a ∈ calls) :
    c.fill m calls (.cell (.signal (c.site a))) = a.val := by
  induction calls using List.reverseRecOn with
  | nil => exact absurd ha List.not_mem_nil
  | append_singleton calls b ih =>
      obtain ⟨hlegal, -, hnew⟩ := (legal_concat_iff calls b).mp h
      rw [fill_concat]
      rcases List.mem_append.mp ha with ha | ha
      · have hne : c.site a ≠ c.site b := fun heq => hnew (heq ▸ List.mem_map_of_mem ha)
        rw [Function.update_of_ne (by simpa using hne), ih hlegal ha]
      · rw [List.mem_singleton.mp ha, Function.update_self]

/-- As many legal assignments as there are inputs set each of them. -/
theorem Legal.complete (hc : c.WellFormed) {calls : List Assignment} (h : c.Legal calls)
    (hlength : calls.length = c.mainInputSignalNo) {si : ℕ} (hlow : c.mainInputSignalStart ≤ si)
    (hhigh : si < c.mainInputSignalStart + c.mainInputSignalNo) :
    ∃ a ∈ calls, c.site a = si := by
  have hperm := (h.distinct.subperm (h.subset hc)).perm_of_length_le
    (by rw [List.Ico.length, List.length_map]; omega)
  exact List.mem_map.mp (hperm.mem_iff.mpr (List.Ico.mem.mpr ⟨hlow, hhigh⟩))

end CircomCircuit

end Veritas
