import Veritas.Proof.Paths

/-!
# The published allow-set

The tree of `gen_test_inputs.js` has a leaf in every slot, and the circuit cannot tell a listed
country from what fills the slots left over. The fill is zero, so a root admits the listed countries
alone exactly when the list leaves no slot unused.
-/

namespace Veritas

variable {p : ℕ} (lib : Circomlib (ZMod p))

/-! ### The tree of the script -/

namespace GenTestInputs

variable {countries : List ℤ}

theorem size_eq : size = 2 ^ 16 := rfl

theorem length_leafLevel (hlength : countries.length ≤ 2 ^ 16) :
    (leafLevel lib countries).length = 2 ^ 16 := by
  rw [leafLevel, List.length_append, List.length_map, List.length_replicate, size_eq]
  omega

theorem leafOf_listed {j : ℕ} (hj : j < countries.length) :
    leafOf (leafLevel lib countries) j = pHash lib [countries[j]] := by
  have hmap : j < (countries.map fun c => pHash lib [c]).length := by
    rwa [List.length_map]
  rw [leafOf, leafLevel, List.getElem?_append_left hmap, List.getElem?_eq_getElem hmap,
    Option.getD_some, List.getElem_map]

theorem leafOf_unused {j : ℕ} (hj : countries.length ≤ j) :
    leafOf (leafLevel lib countries) j = 0 := by
  have hmap : (countries.map fun c => pHash lib [c]).length ≤ j := by
    rwa [List.length_map]
  rw [leafOf, leafLevel, List.getElem?_append_right hmap, List.getElem?_replicate]
  split_ifs <;> rfl

theorem rows_eq {level : List ℤ} (hlength : level.length = 2 ^ 16) :
    ∀ l ≤ 16, (List.range l).foldlM (fun cur _ => nextLevel lib cur) level
      = some (pathRow lib level l 0 (2 ^ (16 - l))) := by
  intro l
  induction l with
  | zero =>
      intro _
      have hrow := pathRow_zero lib level
      rw [hlength] at hrow
      exact congrArg some hrow.symm
  | succ l ih =>
      intro hl
      have hwidth := two_pow_sub_of_lt (Nat.lt_of_succ_le hl)
      rw [List.range_succ, List.foldlM_append, ih (by omega), hwidth]
      change (nextLevel lib (pathRow lib level l 0 (2 * 2 ^ (16 - (l + 1))))).bind some = _
      rw [nextLevel_row, Option.bind_some]

theorem merkleRoot_eq (hlength : countries.length ≤ 2 ^ 16) :
    merkleRoot lib countries = some (pathNode lib (leafLevel lib countries) 16 0) := by
  have hrow := rows_eq lib (length_leafLevel lib hlength) 16 le_rfl
  have htop : Js.element (pathRow lib (leafLevel lib countries) 16 0 1) 0
      = some (pathNode lib (leafLevel lib countries) 16 0) :=
    (Js.element_natCast _ 0).trans (MerkleTree.getElem?_row (by omega))
  rw [merkleRoot, depth, hrow]
  exact htop

/-- What the script writes for a listed country carries that root. -/
theorem jurisdictionAllowed_eq {target : ℤ} (hlength : countries.length ≤ 2 ^ 16)
    (htarget : target ∈ countries) :
    ∃ proof, jurisdictionAllowed lib countries target = some (pHash lib [target], proof) ∧
      merkleRoot lib countries = some proof.root := by
  have hindex : countries.idxOf target < countries.length := List.idxOf_lt_length_of_mem htarget
  have hleaf : Js.element (leafLevel lib countries) (countries.idxOf target)
      = some (pHash lib [target]) := by
    have hlisted := leafOf_listed lib hindex
    rw [List.getElem_idxOf] at hlisted
    have hlevel : countries.idxOf target < (leafLevel lib countries).length := by
      rw [length_leafLevel lib hlength]
      omega
    rw [leafOf, List.getElem?_eq_getElem hlevel, Option.getD_some] at hlisted
    rw [Js.element_natCast, List.getElem?_eq_getElem hlevel, hlisted]
  have hwalk : walk lib 16 (leafLevel lib countries) (countries.idxOf target) = some _ :=
    walk_eq (by decide) (length_leafLevel lib hlength) (hindex.trans_le hlength)
  refine ⟨pathOf lib (leafLevel lib countries) 16 (countries.idxOf target), ?_,
    merkleRoot_eq lib hlength⟩
  rw [jurisdictionAllowed, if_pos htarget, hleaf, depth, hwalk]
  rfl

end GenTestInputs

/-! ### Who is admitted -/

variable [Fact p.Prime]

/-- The leaves of the published tree. -/
def publishedLeaves (countries : List ℤ) : Vector (ZMod p) (2 ^ 16) :=
  leafVector (GenTestInputs.leafLevel lib countries) 16

/-- Only the hash of a listed country satisfies the circuit with this root, short of a collision
with the published tree. -/
def AdmitsOnlyListed (countries : List ℤ) (root : ℤ) : Prop :=
  ∀ w : JurisdictionAllowed (ZMod p) 16, w.Satisfied lib → w.merkleRoot = root →
    (∃ c ∈ countries, w.countryHash = lib.poseidon [(c : ZMod p)]) ∨
      w.tree.Collides lib (publishedLeaves lib countries)

variable {countries : List ℤ}

theorem cast_pHash (c : ℤ) : ((pHash lib [c] : ℤ) : ZMod p) = lib.poseidon [(c : ZMod p)] := by
  rw [pHash, Int.cast_natCast, ZMod.natCast_zmod_val]
  rfl

theorem treeRoot_published (hlength : countries.length ≤ 2 ^ 16) :
    ((pathNode lib (GenTestInputs.leafLevel lib countries) 16 0 : ℤ) : ZMod p)
      = treeRoot lib (publishedLeaves lib countries) :=
  cast_pathNode lib (GenTestInputs.length_leafLevel lib hlength).le 16 0

/-- Zero, in the first slot left over. -/
theorem unused_slot (hlength : countries.length < 2 ^ 16) :
    (JurisdictionAllowed.honest lib (publishedLeaves lib countries) countries.length).countryHash
      = 0 := by
  have hlevel := (GenTestInputs.length_leafLevel lib hlength.le).le
  calc
    leafAt (publishedLeaves lib countries) countries.length
        = ((leafOf (GenTestInputs.leafLevel lib countries) countries.length : ℤ) : ZMod p) :=
      leafAt_leafVector hlevel countries.length
    _ = 0 := by
      rw [GenTestInputs.leafOf_unused lib le_rfl, Int.cast_zero]

theorem listed_of_full (hfull : countries.length = 2 ^ 16) {x : ZMod p}
    (hx : x ∈ publishedLeaves lib countries) :
    ∃ c ∈ countries, x = lib.poseidon [(c : ZMod p)] := by
  obtain ⟨j, hj, rfl⟩ := Vector.mem_iff_getElem.mp hx
  have hlisted : j < countries.length := by omega
  refine ⟨countries[j], List.getElem_mem hlisted, ?_⟩
  unfold publishedLeaves leafVector
  rw [Vector.getElem_ofFn, GenTestInputs.leafOf_listed lib hlisted, cast_pHash]

/-- **When the published root admits the listed countries alone.** It does exactly when the list
fills the tree: a slot left over holds zero, and zero is then a member. -/
theorem allow_set_exact_iff (countries : List ℤ) (hlength : countries.length ≤ 2 ^ 16)
    (hnonzero : ∀ c ∈ countries, lib.poseidon [(c : ZMod p)] ≠ 0) :
    ∃ root, GenTestInputs.merkleRoot lib countries = some root ∧
      (AdmitsOnlyListed lib countries root ↔ countries.length = 2 ^ 16) := by
  refine ⟨_, GenTestInputs.merkleRoot_eq lib hlength, ?_⟩
  have hroot := treeRoot_published lib hlength
  constructor
  · intro honly
    by_contra hne
    have hshort : countries.length < 2 ^ 16 := by omega
    rcases honly _ (JurisdictionAllowed.honest_satisfied lib _ hshort) hroot.symm with
      ⟨c, hc, hhash⟩ | hcollides
    · rw [unused_slot lib hshort] at hhash
      exact hnonzero c hc hhash.symm
    · exact MerklePoseidonVerifier.honest_not_collides lib _ hshort hcollides
  · intro hfull w hw hmerkleRoot
    have htree : w.tree.root = treeRoot lib (publishedLeaves lib countries) := by
      rw [← hw.computedRoot, hw.root, hmerkleRoot, hroot]
    rcases hw.tree.opens_or_collides htree with hopens | hcollides
    · left
      rw [← hw.leaf]
      exact listed_of_full lib hfull hopens.leaf_mem
    · exact .inr hcollides

/-- The list in the script. -/
def scriptCountries : List ℤ := [840, 124, 826, 276, 392, 410, 528, 724]

theorem scriptCountries_nonzero :
    ∀ c ∈ scriptCountries, sumCircomlib.poseidon [(c : Fr)] ≠ 0 := by
  decide

theorem allow_set_exact_script :
    ∃ root, GenTestInputs.merkleRoot sumCircomlib scriptCountries = some root ∧
      ¬ AdmitsOnlyListed sumCircomlib scriptCountries root := by
  obtain ⟨root, hroot, hiff⟩ :=
    allow_set_exact_iff sumCircomlib scriptCountries (by decide) scriptCountries_nonzero
  refine ⟨root, hroot, ?_⟩
  rw [hiff]
  decide

/-- Zero, which is no listed country's hash, is a member of the tree over the script's list. -/
theorem zero_admitted_script :
    ∃ (root : ℤ) (w : JurisdictionAllowed Fr 16),
      GenTestInputs.merkleRoot sumCircomlib scriptCountries = some root ∧
      w.Satisfied sumCircomlib ∧ w.merkleRoot = root ∧ w.countryHash = 0 ∧
      (¬ ∃ c ∈ scriptCountries, w.countryHash = sumCircomlib.poseidon [(c : Fr)]) ∧
      ¬ w.tree.Collides sumCircomlib (publishedLeaves sumCircomlib scriptCountries) := by
  have hshort : scriptCountries.length < 2 ^ 16 := by decide
  have hzero := unused_slot sumCircomlib hshort
  refine ⟨_, JurisdictionAllowed.honest sumCircomlib (publishedLeaves sumCircomlib scriptCountries)
    scriptCountries.length, GenTestInputs.merkleRoot_eq sumCircomlib hshort.le,
    JurisdictionAllowed.honest_satisfied sumCircomlib _ hshort,
    (treeRoot_published sumCircomlib hshort.le).symm, hzero, ?_,
    MerklePoseidonVerifier.honest_not_collides sumCircomlib _ hshort⟩
  rintro ⟨c, hc, hhash⟩
  rw [hzero] at hhash
  exact scriptCountries_nonzero c hc hhash.symm

end Veritas
