import Veritas.Proof.Calculator

/-!
# The witness file

A complete run of the calculator writes the residues that the circuit's code denotes on the inputs,
whatever the memory holds at the start and whatever representations the elements pass through.
-/

namespace Veritas

namespace CircomCircuit

variable (c : CircomCircuit)

/-! ### The circuit as a function of its inputs -/

/-- The residues before the code runs: the constant, and the inputs. -/
def initial (inputs : ℕ → Fr) : Cell → Fr
  | .signal 0 => 1
  | .signal si => inputs si
  | .expaux _ => 0

/-- The residues of all signals. -/
def signals (inputs : ℕ → Fr) (si : ℕ) : Fr :=
  c.run.foldl FrCall.denote (initial inputs) (.signal si)

def inputCells : Set Cell :=
  {cell | cell = .signal 0 ∨ ∃ si, c.mainInputSignalStart ≤ si ∧
    si < c.mainInputSignalStart + c.mainInputSignalNo ∧ cell = .signal si}

/-- What the compiler promises of a circuit: its code reads what is written, and writes what the
witness takes. -/
structure Compiled : Prop extends c.WellFormed where
  start : 0 < c.mainInputSignalStart
  reads : Scoped c.inputCells c.run
  covered : ∀ si ∈ c.witness2SignalList, .signal si ∈ written c.inputCells c.run

/-- The file with the residues of a witness. -/
def wtns (w : ℕ → Fr) : List UInt8 :=
  c.wtnsHeader ++ c.witness2SignalList.flatMap fun si => LittleEndian.encode 32 (w si).val

variable {c}

/-! ### Words -/

theorem wordBytes_eq (x : Limbs) : wordBytes x = LittleEndian.encode 32 x.toNat := by
  have h0 := x.l0.toNat_lt
  have h1 := x.l1.toNat_lt
  have h2 := x.l2.toNat_lt
  have h3 := x.l3.toNat_lt
  have hnat := x.toNat_eq
  have hword (k w : ℕ) (hw : x.toNat / 256 ^ k % 256 ^ 8 = w) :
      LittleEndian.encode 8 (x.toNat / 256 ^ k) = LittleEndian.encode 8 w := by
    rw [← LittleEndian.encode_mod, hw]
  rw [show 32 = 8 + 8 + 8 + 8 from rfl, LittleEndian.encode_add, LittleEndian.encode_add,
    LittleEndian.encode_add, wordBytes, hword _ x.l1.toNat (by omega),
    hword _ x.l2.toNat (by omega), hword _ x.l3.toNat (by omega),
    ← LittleEndian.encode_mod 8 x.toNat, show x.toNat % 256 ^ 8 = x.l0.toNat by omega]

/-- The words that the file takes of a well-formed element. -/
theorem witnessWords_eq {m : Memory Cell} {si : ℕ} (h : (m (.cell (.signal si))).WellFormed) :
    (witnessWords m si).toNat = (m (.cell (.signal si))).value.val := by
  obtain ⟨hcopy, hvalue, -⟩ := frCopy_stores m .stack (.cell (.signal si)) h
  obtain ⟨hstores, htype⟩ := frToLongNormal_stores _ .stack .stack hcopy
  have hlong := val_long hstores.wellFormed htype
  rw [hstores.value, hvalue] at hlong
  exact_mod_cast hlong

/-! ### Complete runs -/

theorem calcWit_values (m : Memory Cell) :
    (c.calcWit m).signalValues = frStr2element m (.cell (.signal 0)) 1 := by
  rw [calcWit]

theorem calcWit_signal (m : Memory Cell) :
    Stores m (c.calcWit m).signalValues (.cell (.signal 0)) 1 := by
  have h := frStr2element_stores m (.cell (.signal 0)) 1
  rw [Int.cast_one] at h
  rw [calcWit_values]
  exact h

/-- The inputs that assignments spell. -/
def Spells (calls : List Assignment) (inputs : ℕ → Fr) : Prop :=
  ∀ a ∈ calls, a.val.WellFormed ∧ a.val.value = inputs (c.site a)

theorem fill_models (hc : c.Compiled) (m : Memory Cell) {calls : List Assignment}
    (hlegal : c.Legal calls) (hlength : calls.length = c.mainInputSignalNo) {inputs : ℕ → Fr}
    (hinputs : c.Spells calls inputs) :
    Models (c.fill (c.calcWit m).signalValues calls) c.inputCells (initial inputs) := by
  rintro cell (rfl | ⟨si, hlow, hhigh, rfl⟩)
  · have hzero : 0 ∉ calls.map c.site := by
      intro hmem
      have hrange := List.Ico.mem.mp (hlegal.subset hc.toWellFormed hmem)
      have hstart := hc.start
      omega
    obtain ⟨hwf, hvalue, -⟩ := calcWit_signal (c := c) m
    rw [fill_of_notMem _ hzero]
    exact ⟨hwf, hvalue⟩
  · obtain ⟨a, ha, rfl⟩ := hlegal.complete hc.toWellFormed hlength hlow hhigh
    obtain ⟨hwf, hvalue⟩ := hinputs a ha
    rw [fill_of_mem _ hlegal ha]
    refine ⟨hwf, hvalue.trans ?_⟩
    have hstart := hc.start
    cases hsite : c.site a with
    | zero => omega
    | succ si => rfl

/-- The file of a complete run. -/
theorem writeBinWitness_eq (hc : c.Compiled) (m : Memory Cell) {calls : List Assignment}
    (hlegal : c.Legal calls) (hlength : calls.length = c.mainInputSignalNo) {inputs : ℕ → Fr}
    (hinputs : c.Spells calls inputs) :
    c.writeBinWitness (c.outcome (c.calcWit m).signalValues calls).signalValues
      = c.wtns (c.signals inputs) := by
  have hmodels := run_models c.run hc.reads (fill_models hc m hlegal hlength hinputs)
  rw [outcome_values, if_pos hlength, execute, writeBinWitness, wtns, List.append_cancel_left_eq]
  refine List.flatMap_congr fun si hsi => ?_
  obtain ⟨hwf, hvalue⟩ := hmodels _ (hc.covered si hsi)
  rw [wordBytes_eq, witnessWords_eq hwf, hvalue, signals]

end CircomCircuit

/-! ### Values of the input file -/

mutual

/-- The integers of a value, its arrays flattened. -/
def jsonIntegers : Json → Except String (List ℤ)
  | .array vals => arrayIntegers vals
  | .string s => do return [← jsonInteger (.string s)]
  | .number vd => do return [← jsonInteger (.number vd)]
  | .boolean b => do return [← jsonInteger (.boolean b)]
  | .null => do return [← jsonInteger .null]
  | .object fields => do return [← jsonInteger (.object fields)]

def arrayIntegers : List Json → Except String (List ℤ)
  | [] => .ok []
  | val :: vals => do return (← jsonIntegers val) ++ (← arrayIntegers vals)

end

theorem str2element_stores (uninitialised : FrElement) (n : ℤ) :
    (str2element uninitialised n).WellFormed ∧ (str2element uninitialised n).value = n := by
  have h := frStr2element_stores (fun _ : Place Cell => uninitialised) .stack n
  exact ⟨h.wellFormed, h.value⟩

section Elements

variable (u : FrElement)

theorem map_singleton (x : Except String ℤ) :
    (do return [str2element u (← x)]) = (do return [← x]).map (List.map (str2element u)) := by
  cases x <;> rfl

mutual

theorem json2FrElements_eq (val : Json) :
    json2FrElements u val = (jsonIntegers val).map (List.map (str2element u)) := by
  cases val with
  | array vals =>
      rw [json2FrElements, jsonIntegers]
      exact jsonElements_eq vals
  | string | number | boolean | null | object =>
      rw [json2FrElements, jsonIntegers]
      exact map_singleton u _

theorem jsonElements_eq (vals : List Json) :
    jsonElements u vals = (arrayIntegers vals).map (List.map (str2element u)) := by
  cases vals with
  | nil =>
      rw [jsonElements, arrayIntegers]
      rfl
  | cons val vals =>
      rw [jsonElements, arrayIntegers, json2FrElements_eq val, jsonElements_eq vals]
      cases jsonIntegers val with
      | error e => rfl
      | ok ns =>
          cases arrayIntegers vals with
          | error e => rfl
          | ok ms => exact congrArg Except.ok (List.map_append ..).symm

end

end Elements

/-! ### Items -/

namespace CircomCircuit

variable (c : CircomCircuit)

/-- The assignments of an item. -/
def itemAssignments (u : FrElement) (item : String × Json) : List Assignment :=
  match jsonIntegers item.2 with
  | .ok ns => ns.zipIdx.map fun x => ⟨hashOf item.1, x.2, str2element u x.1⟩
  | .error _ => []

/-- An item has the number of values of the input it names. -/
def Sized (item : String × Json) : Prop :=
  ∃ ns, jsonIntegers item.2 = .ok ns ∧ c.getInputSignalSize (hashOf item.1) = .ok ns.length

variable {c} (u : FrElement)

theorem loadItem_eq_ok_iff (s s' : CalcWit) (item : String × Json) :
    c.loadItem u s item = .ok s' ↔
      c.Sized item ∧ c.assign s (itemAssignments u item) = .ok s' := by
  rw [loadItem, json2FrElements_eq, itemAssignments, Sized]
  cases hread : jsonIntegers item.2 with
  | error e =>
      constructor
      · intro h
        cases h
      · rintro ⟨⟨ns, h, -⟩, -⟩
        cases h
  | ok ns =>
      cases hsize : c.getInputSignalSize (hashOf item.1) with
      | error e =>
          constructor
          · intro h
            cases h
          · rintro ⟨⟨ns, -, h⟩, -⟩
            cases h
      | ok size =>
          refine (guard_eq_ok_iff _).trans ((and_congr_right' (guard_eq_ok_iff _)).trans ?_)
          have hcalls : (ns.map (str2element u)).zipIdx.foldlM (fun s x =>
              c.setInputSignal s (hashOf item.1) x.2 x.1) s
              = c.assign s (ns.zipIdx.map fun x => ⟨hashOf item.1, x.2, str2element u x.1⟩) := by
            rw [assign, List.foldlM_map, List.zipIdx_map, List.foldlM_map]
            rfl
          rw [hcalls, List.length_map, ← and_assoc]
          refine and_congr_left' ?_
          constructor
          · rintro ⟨hlow, hhigh⟩
            exact ⟨ns, rfl, congrArg Except.ok (by omega)⟩
          · rintro ⟨ns', heq, hlength⟩
            obtain rfl := Except.ok.inj heq
            obtain rfl := Except.ok.inj hlength
            exact ⟨lt_irrefl _, lt_irrefl _⟩

theorem foldlM_loadItem_eq_ok_iff (s s' : CalcWit) (j : List (String × Json)) :
    j.foldlM (c.loadItem u) s = .ok s' ↔
      (∀ item ∈ j, c.Sized item) ∧ c.assign s (j.flatMap (itemAssignments u)) = .ok s' := by
  induction j generalizing s with
  | nil => exact (and_iff_right nofun).symm
  | cons item j ih =>
      have happend : c.assign s ((item :: j).flatMap (itemAssignments u))
          = c.assign s (itemAssignments u item) >>= fun s =>
            c.assign s (j.flatMap (itemAssignments u)) := by
        rw [List.flatMap_cons]
        exact List.foldlM_append
      rw [List.foldlM_cons, List.forall_mem_cons, happend]
      constructor
      · intro h
        cases hitem : c.loadItem u s item with
        | error e =>
            rw [hitem] at h
            exact absurd h nofun
        | ok t =>
            rw [hitem] at h
            obtain ⟨hsized, hassign⟩ := (loadItem_eq_ok_iff u s t item).mp hitem
            obtain ⟨hrest, hassign'⟩ := (ih t).mp h
            rw [hassign]
            exact ⟨⟨hsized, hrest⟩, hassign'⟩
      · rintro ⟨⟨hsized, hrest⟩, h⟩
        cases hassign : c.assign s (itemAssignments u item) with
        | error e =>
            rw [hassign] at h
            exact absurd h nofun
        | ok t =>
            rw [hassign] at h
            rw [(loadItem_eq_ok_iff u s t item).mpr ⟨hsized, hassign⟩]
            exact (ih t).mpr ⟨hrest, h⟩

/-! ### The whole calculation -/

variable (c)

/-- The inputs that an item names, with their integers. -/
def itemInputs (item : String × Json) : List (ℕ × ℤ) :=
  match jsonIntegers item.2 with
  | .ok ns => ns.zipIdx.map fun x => ((c.target (hashOf item.1) x.2).getD 0, x.1)
  | .error _ => []

/-- The items give each input once, and spell these residues. -/
structure Reads (j : List (String × Json)) (inputs : ℕ → Fr) : Prop where
  sized : ∀ item ∈ j, c.Sized item
  distinct : ((j.flatMap c.itemInputs).map Prod.fst).Nodup
  complete : (j.flatMap c.itemInputs).length = c.mainInputSignalNo
  spelled : ∀ x ∈ j.flatMap c.itemInputs, ((x.2 : ℤ) : Fr) = inputs x.1

variable {c}

theorem itemInputs_eq (item : String × Json) :
    (c.itemInputs item).map Prod.fst = (itemAssignments u item).map c.site := by
  rw [itemInputs, itemAssignments]
  cases jsonIntegers item.2 with
  | error e => rfl
  | ok ns =>
      rw [List.map_map, List.map_map]
      rfl

theorem inputs_eq (j : List (String × Json)) :
    (j.flatMap c.itemInputs).map Prod.fst = (j.flatMap (itemAssignments u)).map c.site := by
  rw [List.map_flatMap, List.map_flatMap]
  exact List.flatMap_congr fun item _ => itemInputs_eq u item

theorem length_inputs (j : List (String × Json)) :
    (j.flatMap c.itemInputs).length = (j.flatMap (itemAssignments u)).length := by
  have h := congrArg List.length (inputs_eq (c := c) u j)
  rwa [List.length_map, List.length_map] at h

theorem mem_itemInputs {item : String × Json} {a : Assignment}
    (ha : a ∈ itemAssignments u item) :
    ∃ n : ℤ, (c.site a, n) ∈ c.itemInputs item ∧ a.val = str2element u n := by
  rw [itemAssignments] at ha
  rw [itemInputs]
  cases hread : jsonIntegers item.2 with
  | error e =>
      rw [hread] at ha
      exact absurd ha List.not_mem_nil
  | ok ns =>
      rw [hread] at ha
      obtain ⟨x, hx, rfl⟩ := List.mem_map.mp ha
      exact ⟨x.1, List.mem_map_of_mem hx, rfl⟩

theorem mem_itemAssignments {item : String × Json} {x : ℕ × ℤ} (hx : x ∈ c.itemInputs item) :
    ∃ a ∈ itemAssignments u item, c.site a = x.1 ∧ a.val = str2element u x.2 := by
  rw [itemInputs] at hx
  rw [itemAssignments]
  cases hread : jsonIntegers item.2 with
  | error e =>
      rw [hread] at hx
      exact absurd hx List.not_mem_nil
  | ok ns =>
      rw [hread] at hx
      obtain ⟨y, hy, rfl⟩ := List.mem_map.mp hx
      exact ⟨_, List.mem_map_of_mem hy, rfl, rfl⟩

/-- An item of the right size names signals of the table. -/
theorem Sized.named {item : String × Json} (h : c.Sized item) {a : Assignment}
    (ha : a ∈ itemAssignments u item) : (c.target a.hash a.index).isSome := by
  obtain ⟨ns, hread, hsize⟩ := h
  rw [itemAssignments, hread] at ha
  obtain ⟨x, hx, rfl⟩ := List.mem_map.mp ha
  rw [getInputSignalSize_eq] at hsize
  cases hpos : c.getInputSignalHashPosition (hashOf item.1) with
  | error e =>
      rw [hpos] at hsize
      exact absurd hsize nofun
  | ok pos =>
      rw [hpos] at hsize
      have hlength : (c.slot pos).signalsize = ns.length := Except.ok.inj hsize
      have hindex := List.snd_lt_of_mem_zipIdx hx
      refine Option.isSome_of_eq_some ((target_eq_some_iff _ _ _).mpr ⟨pos, hpos, ?_, rfl⟩)
      exact hindex.trans_eq hlength.symm

theorem Reads.legal {j : List (String × Json)} {inputs : ℕ → Fr} (h : c.Reads j inputs) :
    c.Legal (j.flatMap (itemAssignments u)) where
  named a ha := by
    obtain ⟨item, hitem, ha⟩ := List.mem_flatMap.mp ha
    exact (h.sized item hitem).named u ha
  distinct := by
    rw [← inputs_eq]
    exact h.distinct

theorem Reads.spells {j : List (String × Json)} {inputs : ℕ → Fr} (h : c.Reads j inputs) :
    c.Spells (j.flatMap (itemAssignments u)) inputs := by
  intro a ha
  obtain ⟨item, hitem, ha⟩ := List.mem_flatMap.mp ha
  obtain ⟨n, hn, hval⟩ := mem_itemInputs (c := c) u ha
  obtain ⟨hwf, hvalue⟩ := str2element_stores u n
  rw [hval]
  exact ⟨hwf, hvalue.trans (h.spelled _ (List.mem_flatMap_of_mem hitem hn))⟩

theorem loadJson_eq_ok_iff (hc : c.WellFormed) (m : Memory Cell) (jin : Json) (s : CalcWit) :
    c.loadJson u (c.calcWit m) jin = .ok s ↔ ∃ j, qualifyInput "" jin [] = .ok j ∧
      (∀ item ∈ j, c.Sized item) ∧ c.Legal (j.flatMap (itemAssignments u)) ∧
      s = c.outcome (c.calcWit m).signalValues (j.flatMap (itemAssignments u)) := by
  have hidle : c.tryRunCircuit (c.calcWit m) = c.calcWit m := if_neg hc.inputs.ne'
  rw [loadJson, hidle]
  cases hqualify : qualifyInput "" jin [] with
  | error e => exact ⟨nofun, fun ⟨_, h, _⟩ => absurd h nofun⟩
  | ok j =>
      simp only [Except.ok.injEq, exists_eq_left', ite_self]
      refine (foldlM_loadItem_eq_ok_iff u _ s j).trans ?_
      rw [assign_eq_ok_iff hc]

/-- The residues that legal assignments spell can be read off the memory they fill. -/
theorem reads_of_legal {j : List (String × Json)} (hsized : ∀ item ∈ j, c.Sized item)
    (hlegal : c.Legal (j.flatMap (itemAssignments u)))
    (hlength : (j.flatMap (itemAssignments u)).length = c.mainInputSignalNo) (m : Memory Cell) :
    c.Reads j fun si => (c.fill m (j.flatMap (itemAssignments u)) (.cell (.signal si))).value where
  sized := hsized
  distinct := by
    rw [inputs_eq u]
    exact hlegal.distinct
  complete := by
    rw [length_inputs u]
    exact hlength
  spelled x hx := by
    obtain ⟨item, hitem, hx⟩ := List.mem_flatMap.mp hx
    obtain ⟨a, ha, hsite, hval⟩ := mem_itemAssignments u hx
    rw [← hsite, fill_of_mem m hlegal (List.mem_flatMap_of_mem hitem ha), hval]
    exact (str2element_stores u x.2).2.symm

/-- The three parts of a run. -/
theorem calculate_eq_ok_iff (m : Memory Cell) (jin : Json) (file : List UInt8) :
    c.calculate u m jin = .ok file ↔ ∃ s, c.loadJson u (c.calcWit m) jin = .ok s ∧
      s.inputSignalAssignedCounter = 0 ∧ c.writeBinWitness s.signalValues = file := by
  rw [calculate]
  cases c.loadJson u (c.calcWit m) jin with
  | error e => exact ⟨nofun, fun ⟨_, h, _⟩ => absurd h nofun⟩
  | ok s =>
      simp only [Except.ok.injEq, exists_eq_left']
      refine (guard_eq_ok_iff _).trans ?_
      rw [not_not]
      exact and_congr_right' ⟨Except.ok.inj, congrArg Except.ok⟩

theorem calculate_of_reads (hc : c.Compiled) (m : Memory Cell) {jin : Json}
    {j : List (String × Json)} {inputs : ℕ → Fr} (hqualify : qualifyInput "" jin [] = .ok j)
    (hreads : c.Reads j inputs) :
    c.calculate u m jin = .ok (c.wtns (c.signals inputs)) := by
  have hlength := (length_inputs u j).symm.trans hreads.complete
  refine (calculate_eq_ok_iff u m jin _).mpr ⟨_, (loadJson_eq_ok_iff u hc.toWellFormed m jin _).mpr
    ⟨j, hqualify, hreads.sized, hreads.legal u, rfl⟩, ?_, ?_⟩
  · rw [outcome_counter, hlength, Nat.sub_self]
  · exact writeBinWitness_eq hc m (hreads.legal u) hlength (hreads.spells u)

end CircomCircuit

end Veritas
