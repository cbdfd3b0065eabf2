import Veritas.Proof.Witness

/-!
# The preimage circuit's calculator

The table of `preimage.dat` has one name, at its home. The circuit's code squares the input, so the
calculator writes the witness of the circuit for whatever number its input file spells.
-/

namespace Veritas

/-- The constraint of `PreimageKnowledge`. -/
structure PreimageKnowledge where
  x : Fr
  y : Fr
  square : y = x * x

namespace PreimageKnowledge

/-- The signals of the circuit as circom numbers them. -/
def signal (w : PreimageKnowledge) : ℕ → Fr
  | 0 => 1
  | 1 => w.y
  | _ => w.x

end PreimageKnowledge

/-! ### The table -/

theorem preimage_length : preimage.inputHashMap.length = 256 := by
  rw [preimage, List.length_append, List.length_replicate, List.length_cons, List.length_replicate]

theorem preimage_slot_home : preimage.slot 7 = ⟨0xaf63f54c86021707, 2, 1⟩ := rfl

theorem preimage_slot {pos : ℕ} (h : pos ≠ 7) : preimage.slot pos = ⟨0, 0, 0⟩ := by
  have hvacant (n i : ℕ) : (List.replicate n (⟨0, 0, 0⟩ : HashSignalInfo)).getD i default
      = ⟨0, 0, 0⟩ := by
    rw [List.getD_eq_getElem?_getD, List.getElem?_replicate]
    split_ifs <;> rfl
  rw [CircomCircuit.slot, preimage]
  rcases Nat.lt_or_ge pos 7 with hlt | hge
  · rw [List.getD_append _ _ _ _ (by rwa [List.length_replicate])]
    exact hvacant 7 pos
  · rw [List.getD_append_right _ _ _ _ (by rwa [List.length_replicate]), List.length_replicate]
    obtain ⟨i, hi⟩ := Nat.exists_eq_add_of_lt (lt_of_le_of_ne hge h.symm)
    rw [show pos - 7 = i + 1 by omega, List.getD_cons_succ]
    exact hvacant 248 i

theorem preimage_taken {pos : ℕ} (h : (preimage.slot pos).signalid ≠ 0) : pos = 7 := by
  by_contra hne
  rw [preimage_slot hne] at h
  exact h rfl

theorem preimage_wellFormed : preimage.WellFormed where
  inputs := Nat.one_pos
  packed := by
    rw [preimage_length]
    have hkey (pos : ℕ) (k : UInt64) (h : preimage.key pos = some k) :
        pos = 7 ∧ k = 0xaf63f54c86021707 := by
      rw [CircomCircuit.key_eq_some_iff] at h
      obtain rfl := preimage_taken h.1
      exact ⟨rfl, h.2.symm⟩
    refine ⟨fun k => Nat.mod_lt _ (by norm_num), fun p _ k hk => ?_, fun p _ p' _ k hk hk' => ?_⟩
    · obtain ⟨rfl, rfl⟩ := hkey p k hk
      exact ⟨0, by norm_num, rfl, fun e he => absurd he (Nat.not_lt_zero e)⟩
    · rw [(hkey p k hk).1, (hkey p' k hk').1]
  room := ⟨0, by rw [preimage_length]; norm_num, rfl⟩
  vacant pos _ h := by
    have hne : pos ≠ 7 := by
      rintro rfl
      rw [preimage_slot_home] at h
      exact absurd h (by decide)
    rw [preimage_slot hne]
    exact ⟨rfl, rfl⟩
  taken pos _ h := by
    obtain rfl := preimage_taken h
    rw [preimage_slot_home]
    exact ⟨by decide, le_rfl, le_rfl⟩

theorem preimage_listed {si : ℕ} (h : si ∈ preimage.witness2SignalList) :
    si = 0 ∨ si = 1 ∨ si = 2 := by
  have hmem : si ∈ [0, 1, 2] := h
  simpa using hmem

theorem preimage_compiled : preimage.Compiled where
  toWellFormed := preimage_wellFormed
  start := Nat.two_pos
  reads := by
    have hinput : (.signal 2 : Cell) ∈ preimage.inputCells := .inr ⟨2, le_rfl, by decide, rfl⟩
    refine ⟨fun a ha => ?_, trivial, fun a ha => ?_, trivial, trivial⟩
    · have hmem : a ∈ ([.signal 2, .signal 2] : List Cell) := ha
      rw [List.mem_pair, or_self] at hmem
      rwa [hmem]
    · exact .inl (List.mem_singleton.mp ha)
  covered si hsi := by
    rcases preimage_listed hsi with rfl | rfl | rfl
    · exact .inr (.inr (.inl rfl))
    · exact .inl rfl
    · exact .inr (.inr (.inr ⟨2, le_rfl, by decide, rfl⟩))

/-! ### The witness -/

theorem preimage_signals (inputs : ℕ → Fr) :
    preimage.wtns (preimage.signals inputs)
      = preimage.wtns (PreimageKnowledge.signal ⟨inputs 2, inputs 2 * inputs 2, rfl⟩) := by
  rw [CircomCircuit.wtns, CircomCircuit.wtns, List.append_cancel_left_eq]
  refine List.flatMap_congr fun si hsi => ?_
  rcases preimage_listed hsi with rfl | rfl | rfl <;> rfl

theorem preimage_position : preimage.getInputSignalHashPosition (hashOf "x") = .ok 7 :=
  (preimage_wellFormed.position_iff (by decide) 7).mpr
    ⟨by rw [preimage_length]; norm_num, by rw [preimage_slot_home]; decide, rfl⟩

theorem preimage_target : preimage.target (hashOf "x") 0 = some 2 :=
  (CircomCircuit.target_eq_some_iff _ _ _).mpr ⟨7, preimage_position, Nat.one_pos, rfl⟩

theorem preimage_reads {s : String} {n : ℤ} (h : jsonInteger (.string s) = .ok n)
    (inputs : ℕ → Fr) (hinputs : inputs 2 = n) :
    preimage.Reads [("x", .string s)] inputs := by
  have hintegers : jsonIntegers (.string s) = .ok [n] := by
    rw [jsonIntegers, h]
    rfl
  have hitem : preimage.itemInputs ("x", .string s) = [(2, n)] := by
    simp only [CircomCircuit.itemInputs, hintegers, List.zipIdx_cons, List.zipIdx_nil,
      List.map_cons, List.map_nil, preimage_target, Option.getD_some]
  have hitems : [("x", Json.string s)].flatMap preimage.itemInputs = [(2, n)] := by
    rw [List.flatMap_singleton, hitem]
  refine ⟨fun item hmem => ?_, ?_, ?_, fun x hx => ?_⟩
  · rw [List.mem_singleton.mp hmem]
    refine ⟨[n], hintegers, ?_⟩
    rw [CircomCircuit.getInputSignalSize_eq, preimage_position]
    rfl
  · rw [hitems]
    exact List.nodup_singleton 2
  · rw [hitems]
    rfl
  · rw [hitems] at hx
    rw [List.mem_singleton.mp hx, hinputs]

theorem qualify_x (s : String) :
    qualifyInput "" (.object [("x", .string s)]) [] = .ok [("x", .string s)] := by
  rw [qualifyInput, qualifyFields, qualifyInput]
  rfl

/-! ### Results -/

/-- Zeroed memory. -/
def blank : FrElement := ⟨0, .short, Limbs.ofNat 0⟩

namespace CircomCircuit

variable {c : CircomCircuit} (u : FrElement)

/-- A name that no slot holds is refused, unless its hash is that of a vacant slot and it comes
without values. -/
theorem loadItem_unknown_iff (hc : c.WellFormed) (s s' : CalcWit) (item : String × Json)
    (hunknown : ∀ pos < c.inputHashMap.length, (c.slot pos).signalid ≠ 0 →
      (c.slot pos).hash ≠ hashOf item.1) :
    c.loadItem u s item = .ok s' ↔
      hashOf item.1 = 0 ∧ jsonIntegers item.2 = .ok [] ∧ s' = s := by
  obtain ⟨pos, hpos, hnone⟩ := hc.position_zero
  have hsize : c.getInputSignalSize 0 = .ok 0 := by
    rw [getInputSignalSize_eq, hpos, Except.map, hnone]
  rw [loadItem_eq_ok_iff]
  constructor
  · rintro ⟨⟨ns, hread, hlength⟩, hassign⟩
    have hzero : hashOf item.1 = 0 := by
      by_contra hne
      rw [getInputSignalSize_eq] at hlength
      cases hfound : c.getInputSignalHashPosition (hashOf item.1) with
      | error e =>
          rw [hfound] at hlength
          exact absurd hlength nofun
      | ok pos =>
          obtain ⟨hlt, htaken, hhash⟩ := (hc.position_iff hne pos).mp hfound
          exact hunknown pos hlt htaken hhash
    rw [hzero, hsize] at hlength
    obtain rfl := List.length_eq_zero_iff.mp (Except.ok.inj hlength).symm
    rw [itemAssignments, hread] at hassign
    exact ⟨hzero, hread, (Except.ok.inj hassign).symm⟩
  · rintro ⟨hzero, hread, rfl⟩
    rw [Sized, hread, hzero, hsize, itemAssignments, hread]
    exact ⟨⟨[], rfl, rfl⟩, rfl⟩

theorem loadItem_unknown_iff_zero_hash :
    preimage.loadItem blank (preimage.calcWit fun _ => blank) ("77kepQFQ8Kl", .array [])
      = .ok (preimage.calcWit fun _ => blank) := by
  have hzero : hashOf "77kepQFQ8Kl" = 0 := by decide
  refine (loadItem_unknown_iff blank preimage_wellFormed _ _ _ ?_).mpr ⟨hzero, rfl, rfl⟩
  intro pos hpos htaken
  rw [hzero]
  exact (preimage_wellFormed.taken pos hpos htaken).1

end CircomCircuit

/-- **The calculator squares the number that its input spells.** The elements it starts from do not
matter, and a string that spells no number stops it. -/
theorem preimage_calculates (u : FrElement) (m : Memory Cell) (s : String) :
    preimage.calculate u m (.object [("x", .string s)])
      = (jsonInteger (.string s)).map fun n =>
        preimage.wtns (PreimageKnowledge.signal ⟨n, n * n, rfl⟩) := by
  cases hread : jsonInteger (.string s) with
  | ok n =>
      rw [CircomCircuit.calculate_of_reads u preimage_compiled m (qualify_x s)
        (preimage_reads hread (fun _ => n) rfl), preimage_signals]
      rfl
  | error e =>
      rw [CircomCircuit.calculate, CircomCircuit.loadJson, qualify_x]
      have hitem (t : CalcWit) : preimage.loadItem u t ("x", .string s) = .error e := by
        rw [CircomCircuit.loadItem, json2FrElements, hread]
        rfl
      have hload (t : CalcWit) :
          [("x", Json.string s)].foldlM (preimage.loadItem u) t = .error e := by
        rw [List.foldlM_cons, hitem]
        rfl
      exact congrArg (Except.bind · _) (hload _)

end Veritas
