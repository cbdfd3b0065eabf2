import Veritas.MerklePaths
import Veritas.Proof.Membership
import Mathlib.Data.Nat.Bitwise

/-!
# The paths the scripts build

Both loops keep one row of the tree over the integers and the index of the current node in it. They
return the siblings and direction bits of the leaf in closed form, so they agree, and an assignment
with those values satisfies the verifier template.
-/

namespace Veritas

/-! ### Indices below 2^31 -/

namespace Js

section Small

variable {n : ℕ} (hn : n < 2 ^ 31)

include hn

theorem toNat_toInt32 : (toInt32 n).toNat = n := by
  rw [toInt32, BitVec.ofInt_natCast, BitVec.toNat_ofNat, Nat.mod_eq_of_lt (by omega)]

theorem xor_one : xor n 1 = MerkleTree.siblingIndex n := by
  have hone : (toInt32 1).toNat = 1 := rfl
  have hxor : (toInt32 n ^^^ toInt32 1).toNat = MerkleTree.siblingIndex n := by
    rw [BitVec.toNat_xor, toNat_toInt32 hn, hone, MerkleTree.siblingIndex]
    split_ifs with heven
    · exact Nat.xor_one_of_even (Nat.even_iff.mpr heven)
    · exact Nat.xor_one_of_odd (Nat.odd_iff.mpr (by omega))
  have hlt : MerkleTree.siblingIndex n < 2 ^ 31 := by
    unfold MerkleTree.siblingIndex
    split_ifs <;> omega
  rw [xor, BitVec.toInt_eq_toNat_of_lt (by omega), hxor]

theorem and_one : and n 1 = (n % 2 : ℕ) := by
  have hone : (toInt32 1).toNat = 1 := rfl
  have hand : (toInt32 n &&& toInt32 1).toNat = n % 2 := by
    rw [BitVec.toNat_and, toNat_toInt32 hn, hone, Nat.and_one_is_mod]
  rw [and, BitVec.toInt_eq_toNat_of_lt (by omega), hand]

theorem shiftRight_one : shiftRight n 1 = (n / 2 : ℕ) := by
  have hint : (toInt32 n).toInt = n := by
    rw [BitVec.toInt_eq_toNat_of_lt (by rw [toNat_toInt32 hn]; omega), toNat_toInt32 hn]
  rw [shiftRight, BitVec.toInt_sshiftRight, hint, Int.shiftRight_eq_div_pow]
  rfl

end Small

theorem element_natCast (array : List ℤ) (i : ℕ) : element array i = array[i]? := by
  simp [element]

end Js

/-! ### Rows -/

section Walk

variable {p : ℕ} (lib : Circomlib (ZMod p)) (level : List ℤ)

/-- The leaves a loop starts from. -/
def leafOf (j : ℕ) : ℤ := level[j]?.getD 0

def hashPair (a b : ℤ) : ℤ := pHash lib [a, b]

def pathNode (l j : ℕ) : ℤ := MerkleTree.node (hashPair lib) (leafOf level) l j

def pathRow (l start width : ℕ) : List ℤ :=
  MerkleTree.row (hashPair lib) (leafOf level) l start width

theorem pathRow_zero : pathRow lib level 0 0 level.length = level := by
  apply List.ext_getElem?
  intro j
  by_cases hj : j < level.length
  · rw [pathRow, MerkleTree.getElem?_row hj, MerkleTree.node, leafOf, List.getElem?_eq_getElem hj,
      Option.getD_some]
  · rw [List.getElem?_eq_none (by simpa [pathRow] using hj), List.getElem?_eq_none (by omega)]

theorem ZkHelpers.nextLevel_row (l start width : ℕ) :
    ZkHelpers.nextLevel lib (pathRow lib level l (2 * start) (2 * width))
      = some (pathRow lib level (l + 1) start width) := by
  induction width generalizing start with
  | zero => rfl
  | succ width ih =>
      unfold pathRow at *
      have hwidth : 2 * (width + 1) = 2 * width + 1 + 1 := by ring
      have hstart : 2 * start + 1 + 1 = 2 * (start + 1) := by ring
      rw [hwidth, MerkleTree.row_succ, MerkleTree.row_succ, hstart, ZkHelpers.nextLevel, ih,
        MerkleTree.row_succ]
      rfl

theorem mapM_eq_some {α β : Type} {f : α → Option β} {g : α → β} {xs : List α}
    (h : ∀ x ∈ xs, f x = some (g x)) : xs.mapM f = some (xs.map g) := by
  induction xs with
  | nil => rfl
  | cons x xs ih =>
      rw [List.mapM_cons, h x List.mem_cons_self, ih fun y hy => h y (List.mem_cons_of_mem x hy)]
      rfl

theorem GenTestInputs.nextLevel_row (l width : ℕ) :
    GenTestInputs.nextLevel lib (pathRow lib level l 0 (2 * width))
      = some (pathRow lib level (l + 1) 0 width) := by
  have hhalf : ((pathRow lib level l 0 (2 * width)).length + 1) / 2 = width := by
    rw [pathRow, MerkleTree.length_row]
    omega
  rw [GenTestInputs.nextLevel, hhalf]
  have hrow : pathRow lib level (l + 1) 0 width
      = (List.range width).map (pathNode lib level (l + 1)) := by
    rw [pathRow, MerkleTree.row, ← List.range_eq_range']
    rfl
  rw [hrow]
  apply mapM_eq_some
  intro j hj
  rw [List.mem_range] at hj
  rw [pathRow, MerkleTree.getElem?_row (by omega), MerkleTree.getElem?_row (by omega)]
  rfl

/-! ### The loops in closed form -/

def pathSibling (index i : ℕ) : ℤ :=
  pathNode lib level i (MerkleTree.siblingIndex (index / 2 ^ i))

def pathBit (index i : ℕ) : ℤ := (index / 2 ^ i % 2 : ℕ)

/-- Siblings, direction bits and root of the leaf at an index. -/
def pathOf (depth index : ℕ) : MerkleProof where
  root := pathNode lib level depth 0
  pathElements := (List.range depth).map (pathSibling lib level index)
  pathIndices := (List.range depth).map (pathBit index)

variable {nextLevel : List ℤ → Option (List ℤ)} {depth index : ℕ} {lib level}

theorem MerkleWalk.step_row (hnext : ∀ l width, nextLevel (pathRow lib level l 0 (2 * width))
      = some (pathRow lib level (l + 1) 0 width)) {l width j : ℕ} (hj : j < 2 * width)
    (hsmall : j < 2 ^ 31) (elements indices : List ℤ) :
    (⟨elements, indices, pathRow lib level l 0 (2 * width), j⟩ : MerkleWalk).step nextLevel
      = some ⟨elements ++ [pathNode lib level l (MerkleTree.siblingIndex j)],
          indices ++ [((j % 2 : ℕ) : ℤ)], pathRow lib level (l + 1) 0 width,
          ((j / 2 : ℕ) : ℤ)⟩ := by
  have hsibling : MerkleTree.siblingIndex j < 2 * width := by
    unfold MerkleTree.siblingIndex
    split_ifs <;> omega
  have hrow : (pathRow lib level l 0 (2 * width))[MerkleTree.siblingIndex j]?
      = some (pathNode lib level l (MerkleTree.siblingIndex j)) := MerkleTree.getElem?_row hsibling
  rw [MerkleWalk.step]
  dsimp only
  rw [Js.xor_one hsmall, Js.and_one hsmall, Js.shiftRight_one hsmall, Js.element_natCast, hrow,
    hnext]
  rfl

theorem two_pow_sub_of_lt {l : ℕ} (h : l < depth) :
    2 ^ (depth - l) = 2 * 2 ^ (depth - (l + 1)) := by
  rw [← pow_succ', Nat.sub_add_eq, Nat.sub_add_cancel (by omega)]

/-- After some levels the loop holds the row of that level and what it has recorded so far. -/
theorem MerkleWalk.run_eq (hnext : ∀ l width, nextLevel (pathRow lib level l 0 (2 * width))
      = some (pathRow lib level (l + 1) 0 width)) (hdepth : depth ≤ 31)
    (hlength : level.length = 2 ^ depth) (hindex : index < 2 ^ depth) :
    ∀ l ≤ depth, (MerkleWalk.start level index).run nextLevel l
      = some ⟨(List.range l).map (pathSibling lib level index), (List.range l).map (pathBit index),
          pathRow lib level l 0 (2 ^ (depth - l)), ((index / 2 ^ l : ℕ) : ℤ)⟩ := by
  intro l
  induction l with
  | zero =>
      intro _
      have hrow := pathRow_zero lib level
      rw [hlength] at hrow
      simp [MerkleWalk.run, MerkleWalk.start, hrow]
  | succ l ih =>
      intro hl
      have hwidth := two_pow_sub_of_lt (Nat.lt_of_succ_le hl)
      have hj : index / 2 ^ l < 2 * 2 ^ (depth - (l + 1)) := by
        rw [← hwidth, Nat.div_lt_iff_lt_mul (Nat.two_pow_pos l), ← pow_add,
          Nat.sub_add_cancel (by omega)]
        exact hindex
      have hsmall : index / 2 ^ l < 2 ^ 31 :=
        (Nat.div_le_self _ _).trans_lt
          (hindex.trans_le (Nat.pow_le_pow_right (by omega) hdepth))
      calc
        (MerkleWalk.start level index).run nextLevel (l + 1)
            = ((MerkleWalk.start level index).run nextLevel l).bind
                (fun walk => walk.step nextLevel) := by
          unfold MerkleWalk.run
          rw [List.range_succ, List.foldlM_append]
          simp
        _ = _ := by
          rw [ih (by omega), Option.bind_some, hwidth, MerkleWalk.step_row hnext hj hsmall,
            List.range_succ, List.map_append, List.map_append, Nat.div_div_eq_div_mul, ← pow_succ]
          rfl

theorem MerkleWalk.run_finish (hnext : ∀ l width, nextLevel (pathRow lib level l 0 (2 * width))
      = some (pathRow lib level (l + 1) 0 width)) (hdepth : depth ≤ 31)
    (hlength : level.length = 2 ^ depth) (hindex : index < 2 ^ depth) :
    ((MerkleWalk.start level index).run nextLevel depth).bind MerkleWalk.finish
      = some (pathOf lib level depth index) := by
  have hroot : Js.element (pathRow lib level depth 0 1) 0 = some (pathNode lib level depth 0) :=
    (Js.element_natCast _ 0).trans (MerkleTree.getElem?_row (by omega))
  rw [MerkleWalk.run_eq hnext hdepth hlength hindex depth le_rfl, Option.bind_some,
    MerkleWalk.finish, Nat.sub_self, pow_zero]
  dsimp only
  rw [hroot]
  rfl

theorem GenTestInputs.walk_eq (hdepth : depth ≤ 31) (hlength : level.length = 2 ^ depth)
    (hindex : index < 2 ^ depth) :
    GenTestInputs.walk lib depth level index = some (pathOf lib level depth index) :=
  MerkleWalk.run_finish (GenTestInputs.nextLevel_row lib level) hdepth hlength hindex

theorem ZkHelpers.length_pad {leaves : List ℤ} {n : ℕ} (h : leaves.length ≤ n) :
    (ZkHelpers.pad leaves n).length = n := by
  rw [ZkHelpers.pad, List.length_append, List.length_replicate]
  omega

theorem ZkHelpers.merkleProof_eq {leaves : List ℤ} (hdepth : depth ≤ 31)
    (hlength : leaves.length ≤ 2 ^ depth) (hindex : index < 2 ^ depth) :
    ZkHelpers.merkleProof lib leaves depth index
      = some (pathOf lib (ZkHelpers.pad leaves (2 ^ depth)) depth index) := by
  have hrow (l width : ℕ) :=
    ZkHelpers.nextLevel_row lib (ZkHelpers.pad leaves (2 ^ depth)) l 0 width
  have hwalk := MerkleWalk.run_finish hrow hdepth (ZkHelpers.length_pad hlength) hindex
  have hrange : ¬ (index : ℤ) ≥ ((2 ^ depth : ℕ) : ℤ) := by
    rw [ge_iff_le, Nat.cast_le]
    omega
  rw [ZkHelpers.merkleProof]
  dsimp only
  rw [if_neg hrange]
  exact hwalk

end Walk

/-! ### The paths in the circuit -/

section Circuit

variable {p : ℕ} [Fact p.Prime] (lib : Circomlib (ZMod p)) {depth : ℕ}

/-- A row of integers as the leaves of a tree over the field. -/
def leafVector (level : List ℤ) (depth : ℕ) : Vector (ZMod p) (2 ^ depth) :=
  Vector.ofFn fun j => ((leafOf level j : ℤ) : ZMod p)

/-- The members, and the first of them in every slot left over. -/
def paddedVector (members : List ℤ) (depth : ℕ) : Vector (ZMod p) (2 ^ depth) :=
  Vector.ofFn fun j => ((members[(j : ℕ)]?.getD (members.headD 0) : ℤ) : ZMod p)

theorem leafAt_leafVector {level : List ℤ} (hlength : level.length ≤ 2 ^ depth) (j : ℕ) :
    leafAt (leafVector level depth) j = ((leafOf level j : ℤ) : ZMod p) := by
  unfold leafAt leafVector
  by_cases hj : j < 2 ^ depth
  · simp [hj]
  · rw [Vector.getElem?_eq_none (by omega), leafOf, List.getElem?_eq_none (by omega)]
    simp

theorem leafVector_pad {members : List ℤ} (hlength : members.length ≤ 2 ^ depth) :
    (leafVector (ZkHelpers.pad members (2 ^ depth)) depth : Vector (ZMod p) (2 ^ depth))
      = paddedVector members depth := by
  unfold leafVector paddedVector
  congr 1
  funext j
  congr 1
  rw [leafOf, ZkHelpers.pad]
  by_cases hj : (j : ℕ) < members.length
  · rw [List.getElem?_append_left hj, List.getElem?_eq_getElem hj, Option.getD_some,
      Option.getD_some]
  · have hslot : (j : ℕ) - members.length < 2 ^ depth - members.length := by omega
    rw [List.getElem?_append_right (by omega), List.getElem?_replicate_of_lt hslot,
      List.getElem?_eq_none (by omega)]
    rfl

theorem cast_hashPair (a b : ℤ) :
    ((hashPair lib a b : ℤ) : ZMod p) = compress lib (a : ZMod p) (b : ZMod p) := by
  rw [hashPair, pHash, Int.cast_natCast, ZMod.natCast_zmod_val]
  rfl

/-- The integer tree reduces to the tree over the field. -/
theorem cast_pathNode {level : List ℤ} (hlength : level.length ≤ 2 ^ depth) (l j : ℕ) :
    ((pathNode lib level l j : ℤ) : ZMod p) = treeNode lib (leafVector level depth) l j := by
  have hleaf : (fun i => ((leafOf level i : ℤ) : ZMod p)) = leafAt (leafVector level depth) := by
    funext i
    rw [leafAt_leafVector hlength]
  rw [treeNode, ← hleaf]
  exact MerkleTree.node_map (fun x : ℤ => (x : ZMod p)) (cast_hashPair lib) l j

namespace MerklePoseidonVerifier

/-- Leaf, siblings and direction bits determine the assignment up to the root. -/
theorem Satisfied.root_eq {w other : MerklePoseidonVerifier (ZMod p) depth} {lib}
    (hw : w.Satisfied lib) (hother : other.Satisfied lib) (hleaf : w.leaf = other.leaf)
    (helements : w.pathElements = other.pathElements)
    (hindices : w.pathIndices = other.pathIndices) : w.root = other.root := by
  have hhash : ∀ i, w.hash i = other.hash i := by
    intro i
    induction i using Fin.induction with
    | zero => rw [hw.leaf, hother.leaf, hleaf]
    | succ i ih =>
        rw [hw.hash, hother.hash, hw.left, hw.right, hother.left, hother.right, ih, helements,
          hindices]
  rw [hw.root, hother.root, hhash]

/-- The inputs of the template are a leaf and a built path, modulo the field order. -/
structure Takes (w : MerklePoseidonVerifier (ZMod p) depth) (leaf : ℤ) (proof : MerkleProof) :
    Prop where
  leaf : w.leaf = leaf
  pathElements : List.ofFn w.pathElements = proof.pathElements.map fun x : ℤ => (x : ZMod p)
  pathIndices : List.ofFn w.pathIndices = proof.pathIndices.map fun x : ℤ => (x : ZMod p)

variable {lib} {level : List ℤ} {index : ℕ}

theorem honest_takes (hlength : level.length ≤ 2 ^ depth) :
    (honest lib (leafVector level depth) index).Takes (leafOf level index)
      (pathOf lib level depth index) := by
  refine ⟨leafAt_leafVector hlength index, ?_, ?_⟩
  · apply List.ext_getElem
    · simp [pathOf]
    · intro i _ _
      rw [List.getElem_ofFn, List.getElem_map]
      simp only [pathOf, List.getElem_map, List.getElem_range]
      rw [pathSibling, cast_pathNode lib hlength]
      rfl
  · apply List.ext_getElem
    · simp [pathOf]
    · intro i _ _
      rw [List.getElem_ofFn, List.getElem_map]
      simp only [pathOf, List.getElem_map, List.getElem_range]
      rw [pathBit, Int.cast_natCast]
      rfl

theorem Takes.root_eq {w : MerklePoseidonVerifier (ZMod p) depth} (hw : w.Satisfied lib)
    (hlength : level.length ≤ 2 ^ depth) (hindex : index < 2 ^ depth)
    (htakes : w.Takes (leafOf level index) (pathOf lib level depth index)) :
    w.root = treeRoot lib (leafVector level depth) := by
  have hhonest : (honest lib (leafVector level depth) index).Takes (leafOf level index)
      (pathOf lib level depth index) := honest_takes hlength
  apply hw.root_eq (honest_satisfied lib (leafVector level depth) hindex)
  · rw [htakes.leaf, hhonest.leaf]
  · apply List.ofFn_injective
    rw [htakes.pathElements, hhonest.pathElements]
  · apply List.ofFn_injective
    rw [htakes.pathIndices, hhonest.pathIndices]

end MerklePoseidonVerifier

/-- **The built paths are accepted, and the two builders agree.** For up to `2 ^ depth` members and
any index among them, `merkleProof` returns `depth` siblings, `depth` direction bits and the root of
the padded vector, whichever the index; the verifier template is satisfiable with these inputs and
the member as leaf, and then its root is that root. On the padded row the walk of the other script
returns the same. -/
theorem merkle_paths_accepted (depth : ℕ) (members : List ℤ) (index : ℕ) (hdepth : depth ≤ 30)
    (hmembers : members.length ≤ 2 ^ depth) (hindex : index < members.length) :
    ∃ proof, ZkHelpers.merkleProof lib members depth index = some proof ∧
      proof.pathElements.length = depth ∧ proof.pathIndices.length = depth ∧
      (∀ bit ∈ proof.pathIndices, bit = 0 ∨ bit = 1) ∧
      (∃ w : MerklePoseidonVerifier (ZMod p) depth, w.Satisfied lib ∧
        w.Takes members[index] proof) ∧
      (∀ w : MerklePoseidonVerifier (ZMod p) depth, w.Satisfied lib →
        w.Takes members[index] proof → w.root = (proof.root : ZMod p)) ∧
      (proof.root : ZMod p) = treeRoot lib (paddedVector members depth) ∧
      (∀ other < members.length, ∃ proof',
        ZkHelpers.merkleProof lib members depth other = some proof' ∧
          proof'.root = proof.root) ∧
      GenTestInputs.walk lib depth (ZkHelpers.pad members (2 ^ depth)) index = some proof := by
  have hpad := ZkHelpers.length_pad hmembers
  have hbuilt (other : ℕ) (hother : other < members.length) :=
    @ZkHelpers.merkleProof_eq p lib depth other members (by omega) hmembers
      (hother.trans_le hmembers)
  have hleaf : members[index] = leafOf (ZkHelpers.pad members (2 ^ depth)) index := by
    rw [leafOf, ZkHelpers.pad, List.getElem?_append_left hindex, List.getElem?_eq_getElem hindex,
      Option.getD_some]
  have hroot : ((pathNode lib (ZkHelpers.pad members (2 ^ depth)) depth 0 : ℤ) : ZMod p)
      = treeRoot lib (leafVector (ZkHelpers.pad members (2 ^ depth)) depth) :=
    cast_pathNode lib hpad.le depth 0
  rw [hleaf]
  refine ⟨_, hbuilt index hindex, by simp [pathOf], by simp [pathOf], ?_, ?_, ?_, ?_, ?_, ?_⟩
  · intro bit hbit
    obtain ⟨i, -, rfl⟩ := List.mem_map.mp hbit
    unfold pathBit
    omega
  · exact ⟨_, MerklePoseidonVerifier.honest_satisfied lib _ (hindex.trans_le hmembers),
      MerklePoseidonVerifier.honest_takes hpad.le⟩
  · intro w hw htakes
    exact (htakes.root_eq hw hpad.le (hindex.trans_le hmembers)).trans hroot.symm
  · rw [← leafVector_pad hmembers]
    exact hroot
  · intro other hother
    exact ⟨_, hbuilt other hother, rfl⟩
  · exact GenTestInputs.walk_eq (by omega) hpad (hindex.trans_le hmembers)

theorem merkle_paths_accepted_three :
    ∃ proof, ZkHelpers.merkleProof sumCircomlib [840, 124, 528] 8 1 = some proof ∧
      (proof.root : Fr) = treeRoot sumCircomlib (paddedVector [840, 124, 528] 8) := by
  obtain ⟨proof, hproof, -, -, -, -, -, hroot, -⟩ :=
    merkle_paths_accepted sumCircomlib 8 [840, 124, 528] 1 (by decide) (by decide) (by decide)
  exact ⟨proof, hproof, hroot⟩

end Circuit

end Veritas
