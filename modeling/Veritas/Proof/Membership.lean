import Veritas.Circuits
import Veritas.Field
import Veritas.Library.MerkleTree
import Mathlib.Algebra.BigOperators.Fin
import Mathlib.Algebra.Field.ZMod

/-!
# Membership and position

The constraints of a level swap the running hash and the sibling when the direction bit is one and
leave them when it is zero, and over a field the bit is one of the two. So every satisfying
assignment is a path in the sense of the tree library, whose binding theorem applies to it for any
depth and any values a prover may choose.
-/

namespace Veritas

variable {p : ℕ} [Fact p.Prime] (lib : Circomlib (ZMod p)) {depth : ℕ}

def compress (a b : ZMod p) : ZMod p := lib.poseidon [a, b]

def leafAt (leaves : Vector (ZMod p) (2 ^ depth)) (j : ℕ) : ZMod p := leaves[j]?.getD 0

/-- The reference node: each internal node is Poseidon of its two children. -/
def treeNode (leaves : Vector (ZMod p) (2 ^ depth)) (level j : ℕ) : ZMod p :=
  MerkleTree.node (compress lib) (leafAt leaves) level j

def treeRoot (leaves : Vector (ZMod p) (2 ^ depth)) : ZMod p := treeNode lib leaves depth 0

namespace MerklePoseidonVerifier

variable (w : MerklePoseidonVerifier (ZMod p) depth)

def index : ℕ := ∑ i : Fin depth, (w.pathIndices i).val * 2 ^ (i : ℕ)

/-- The assignment opens the tree at its index: leaf and siblings are the tree's. -/
structure Opens (leaves : Vector (ZMod p) (2 ^ depth)) : Prop where
  index_lt : w.index < 2 ^ depth
  leaf : w.leaf = leaves[w.index]
  siblings : ∀ i : Fin depth,
    w.pathElements i = treeNode lib leaves i (MerkleTree.siblingIndex (w.index / 2 ^ (i : ℕ)))

/-- At some level the pair hashed by the assignment is not the tree's at the same node, and has the
same hash. -/
def Collides (leaves : Vector (ZMod p) (2 ^ depth)) : Prop :=
  ∃ i : Fin depth, MerkleTree.Collision (compress lib) (w.left i, w.right i)
    (treeNode lib leaves i (2 * (w.index / 2 ^ ((i : ℕ) + 1))),
      treeNode lib leaves i (2 * (w.index / 2 ^ ((i : ℕ) + 1)) + 1))

/-! ### The assignment as a path -/

def bitAt (i : ℕ) : Bool := if h : i < depth then decide (w.pathIndices ⟨i, h⟩ = 1) else false

def siblingAt (i : ℕ) : ZMod p := if h : i < depth then w.pathElements ⟨i, h⟩ else 0

def hashAt (i : ℕ) : ZMod p := if h : i < depth + 1 then w.hash ⟨i, h⟩ else 0

variable {lib w}

theorem Satisfied.isBit (hw : w.Satisfied lib) (i : Fin depth) :
    w.pathIndices i = 0 ∨ w.pathIndices i = 1 :=
  BitDecomposition.eq_zero_or_eq_one (hw.binary i)

theorem Satisfied.pair_eq (hw : w.Satisfied lib) (i : Fin depth) :
    MerkleTree.pair (w.bitAt i) (w.hashAt i) (w.siblingAt i) = (w.left i, w.right i) := by
  have hbit : w.bitAt i = decide (w.pathIndices i = 1) := by simp [bitAt]
  have hhash : w.hashAt i = w.hash i.castSucc := by
    rw [hashAt, dif_pos (by omega)]
    rfl
  have hsibling : w.siblingAt i = w.pathElements i := by simp [siblingAt]
  rw [hbit, hhash, hsibling, hw.left, hw.right]
  rcases hw.isBit i with hzero | hone
  · simp [hzero, MerkleTree.pair]
  · simp [hone, MerkleTree.pair]

theorem Satisfied.isPath (hw : w.Satisfied lib) :
    MerkleTree.IsPath (compress lib) depth w.bitAt w.siblingAt w.hashAt := by
  intro i hi
  have hnext : w.hashAt (i + 1) = w.hash (Fin.succ ⟨i, hi⟩) := by
    rw [hashAt, dif_pos (by omega)]
    rfl
  rw [hw.pair_eq ⟨i, hi⟩, hnext, hw.hash]
  rfl

theorem Satisfied.position_eq (hw : w.Satisfied lib) :
    MerkleTree.position depth w.bitAt = w.index := by
  rw [MerkleTree.position, index, Finset.sum_range]
  refine Finset.sum_congr rfl fun i _ => ?_
  have hbit : w.bitAt i = decide (w.pathIndices i = 1) := by simp [bitAt]
  rw [hbit]
  rcases hw.isBit i with hzero | hone
  · simp [hzero]
  · simp [hone, ZMod.val_one]

theorem Satisfied.opens_or_collides (hw : w.Satisfied lib)
    {leaves : Vector (ZMod p) (2 ^ depth)} (hroot : w.root = treeRoot lib leaves) :
    w.Opens lib leaves ∨ w.Collides lib leaves := by
  have htop : w.hashAt depth
      = MerkleTree.node (compress lib) (leafAt leaves) depth 0 := by
    rw [hashAt, dif_pos (by omega)]
    exact hw.root.symm.trans hroot
  have hindex := hw.position_eq
  have hlt : w.index < 2 ^ depth := hindex ▸ MerkleTree.position_lt w.bitAt depth
  rcases MerkleTree.binding hw.isPath htop with ⟨hleaf, hsiblings⟩ | ⟨i, hi, hcollision⟩
  · left
    refine ⟨hlt, ?_, fun i => ?_⟩
    · have hbottom : w.hashAt 0 = w.leaf := by
        rw [hashAt, dif_pos (by omega)]
        exact hw.leaf
      calc
        w.leaf = leafAt leaves w.index := by
          rw [← hbottom, hleaf, hindex]
        _ = leaves[w.index] := by
          rw [leafAt, Vector.getElem?_eq_getElem hlt, Option.getD_some]
    · have hsibling := hsiblings i i.isLt
      rw [hindex] at hsibling
      rw [← show w.siblingAt i = w.pathElements i by simp [siblingAt], hsibling]
      rfl
  · right
    refine ⟨⟨i, hi⟩, ?_⟩
    rw [hw.pair_eq ⟨i, hi⟩, hindex] at hcollision
    exact hcollision

end MerklePoseidonVerifier

theorem MerklePoseidonVerifier.Opens.leaf_mem {lib : Circomlib (ZMod p)}
    {leaves : Vector (ZMod p) (2 ^ depth)} {w : MerklePoseidonVerifier (ZMod p) depth}
    (h : w.Opens lib leaves) : w.leaf ∈ leaves := by
  have hlt := h.index_lt
  rw [h.leaf]
  exact Vector.getElem_mem hlt

/-! ### Assignments from a path or a tree -/

/-- Some path of the depth leads from the leaf to the root. -/
def HasPath (depth : ℕ) (root leaf : ZMod p) : Prop :=
  ∃ (bit : ℕ → Bool) (sibling hash : ℕ → ZMod p),
    MerkleTree.IsPath (compress lib) depth bit sibling hash ∧ hash 0 = leaf ∧ hash depth = root

namespace MerklePoseidonVerifier

def ofPath (depth : ℕ) (bit : ℕ → Bool) (sibling hash : ℕ → ZMod p) :
    MerklePoseidonVerifier (ZMod p) depth where
  leaf := hash 0
  pathElements i := sibling i
  pathIndices i := if bit i then 1 else 0
  root := hash depth
  hash i := hash i
  left i := (MerkleTree.pair (bit i) (hash i) (sibling i)).1
  right i := (MerkleTree.pair (bit i) (hash i) (sibling i)).2

variable {lib} in
theorem ofPath_satisfied {bit : ℕ → Bool} {sibling hash : ℕ → ZMod p}
    (h : MerkleTree.IsPath (compress lib) depth bit sibling hash) :
    (ofPath depth bit sibling hash).Satisfied lib where
  leaf := rfl
  binary i := by cases hbit : bit i <;> simp [ofPath, hbit]
  left i := by cases hbit : bit i <;> simp [ofPath, MerkleTree.pair, hbit]
  right i := by cases hbit : bit i <;> simp [ofPath, MerkleTree.pair, hbit]
  hash i := h i i.isLt
  root := rfl

variable {lib} in
theorem Satisfied.hasPath {w : MerklePoseidonVerifier (ZMod p) depth} (hw : w.Satisfied lib) :
    HasPath lib depth w.root w.leaf := by
  refine ⟨w.bitAt, w.siblingAt, w.hashAt, hw.isPath, ?_, ?_⟩
  · rw [hashAt, dif_pos (Nat.succ_pos depth)]
    exact hw.leaf
  · rw [hashAt, dif_pos (Nat.lt_succ_self depth)]
    exact hw.root.symm

/-- The assignment of someone who knows the leaves, for the leaf at an index. -/
def honest (leaves : Vector (ZMod p) (2 ^ depth)) (k : ℕ) :
    MerklePoseidonVerifier (ZMod p) depth where
  leaf := leafAt leaves k
  pathElements i := treeNode lib leaves i (MerkleTree.siblingIndex (k / 2 ^ (i : ℕ)))
  pathIndices i := ((k / 2 ^ (i : ℕ) % 2 : ℕ) : ZMod p)
  root := treeRoot lib leaves
  hash i := treeNode lib leaves i (k / 2 ^ (i : ℕ))
  left i := treeNode lib leaves i (2 * (k / 2 ^ ((i : ℕ) + 1)))
  right i := treeNode lib leaves i (2 * (k / 2 ^ ((i : ℕ) + 1)) + 1)

theorem honest_pathIndices (leaves : Vector (ZMod p) (2 ^ depth)) (k : ℕ) (i : Fin depth) :
    (honest lib leaves k).pathIndices i = if k / 2 ^ (i : ℕ) % 2 = 1 then 1 else 0 := by
  unfold honest
  rcases Nat.mod_two_eq_zero_or_one (k / 2 ^ (i : ℕ)) with hzero | hone
  · simp [hzero]
  · simp [hone]

theorem honest_satisfied (leaves : Vector (ZMod p) (2 ^ depth)) {k : ℕ} (hk : k < 2 ^ depth) :
    (honest lib leaves k).Satisfied lib := by
  have hpair (i : Fin depth) : MerkleTree.pair (decide (k / 2 ^ (i : ℕ) % 2 = 1))
      ((honest lib leaves k).hash i.castSucc) ((honest lib leaves k).pathElements i)
        = ((honest lib leaves k).left i, (honest lib leaves k).right i) :=
    MerkleTree.pair_node k i
  constructor
  case leaf => simp [honest, treeNode, MerkleTree.node]
  case binary =>
    intro i
    rw [honest_pathIndices]
    split_ifs <;> simp
  case left =>
    intro i
    have hleft : (MerkleTree.pair _ _ _).1 = (honest lib leaves k).left i :=
      congrArg Prod.fst (hpair i)
    rw [honest_pathIndices, ← hleft, MerkleTree.pair]
    split_ifs <;> simp_all
  case right =>
    intro i
    have hright : (MerkleTree.pair _ _ _).2 = (honest lib leaves k).right i :=
      congrArg Prod.snd (hpair i)
    rw [honest_pathIndices, ← hright, MerkleTree.pair]
    split_ifs <;> simp_all
  case hash =>
    intro i
    rfl
  case root => simp [honest, treeRoot, Nat.div_eq_of_lt hk]

theorem honest_index (leaves : Vector (ZMod p) (2 ^ depth)) {k : ℕ} (hk : k < 2 ^ depth) :
    (honest lib leaves k).index = k := by
  have hbit : ∀ i < depth, (honest lib leaves k).bitAt i = decide (k / 2 ^ i % 2 = 1) := by
    intro i hi
    rw [bitAt, dif_pos hi, honest_pathIndices]
    split_ifs with hbit <;> simp [hbit]
  calc
    (honest lib leaves k).index
        = MerkleTree.position depth (honest lib leaves k).bitAt :=
      (honest_satisfied lib leaves hk).position_eq.symm
    _ = MerkleTree.position depth (fun i => decide (k / 2 ^ i % 2 = 1)) :=
      MerkleTree.position_congr _ hbit
    _ = k := by
      rw [MerkleTree.position_digits, Nat.mod_eq_of_lt hk]

theorem honest_not_collides (leaves : Vector (ZMod p) (2 ^ depth)) {k : ℕ} (hk : k < 2 ^ depth) :
    ¬ (honest lib leaves k).Collides lib leaves := by
  rintro ⟨i, hne, -⟩
  rw [honest_index lib leaves hk] at hne
  exact hne rfl

end MerklePoseidonVerifier

namespace JurisdictionAllowed

def honest {depth : ℕ} (leaves : Vector (ZMod p) (2 ^ depth)) (k : ℕ) :
    JurisdictionAllowed (ZMod p) depth where
  countryHash := leafAt leaves k
  pathElements := (MerklePoseidonVerifier.honest lib leaves k).pathElements
  pathIndices := (MerklePoseidonVerifier.honest lib leaves k).pathIndices
  merkleRoot := treeRoot lib leaves
  computedRoot := treeRoot lib leaves
  allowed := 1
  tree := MerklePoseidonVerifier.honest lib leaves k

theorem honest_satisfied {depth k : ℕ} (leaves : Vector (ZMod p) (2 ^ depth)) (hk : k < 2 ^ depth) :
    (honest lib leaves k).Satisfied lib where
  tree := MerklePoseidonVerifier.honest_satisfied lib leaves hk
  leaf := rfl
  pathElements _ := rfl
  pathIndices _ := rfl
  computedRoot := rfl
  root := rfl
  allowed := rfl

end JurisdictionAllowed

/-- The path with a signature on its leaf. -/
def MerklePoseidonVerifier.signed (mt : MerklePoseidonVerifier (ZMod p) depth)
    (holderSecret sigR8x sigR8y sigS issuerAx issuerAy : ZMod p) :
    SignedJurisdictionAllowed (ZMod p) depth where
  country := mt.leaf
  holderSecret := holderSecret
  sigR8x := sigR8x
  sigR8y := sigR8y
  sigS := sigS
  pathElements := mt.pathElements
  pathIndices := mt.pathIndices
  issuerAx := issuerAx
  issuerAy := issuerAy
  allowedRoot := mt.root
  nullifier := lib.poseidon [holderSecret]
  signedMsg := lib.poseidon [mt.leaf, holderSecret]
  mt := mt
  nf := lib.poseidon [holderSecret]

variable {lib} in
theorem MerklePoseidonVerifier.Satisfied.signed {mt : MerklePoseidonVerifier (ZMod p) depth}
    (h : mt.Satisfied lib) {holderSecret sigR8x sigR8y sigS issuerAx issuerAy : ZMod p}
    (heddsa : lib.eddsaPoseidonVerifier 1 issuerAx issuerAy sigS sigR8x sigR8y
      (lib.poseidon [mt.leaf, holderSecret])) :
    (mt.signed lib holderSecret sigR8x sigR8y sigS issuerAx issuerAy).Satisfied lib where
  signedMsg := rfl
  eddsa := heddsa
  mt := h
  leaf := rfl
  pathElements _ := rfl
  pathIndices _ := rfl
  root := rfl
  nf := rfl
  nullifier := rfl

/-! ### Soundness -/

/-- **Merkle membership is sound at every depth.** An assignment that reaches the root of a complete
vector of leaves has binary direction bits and opens the tree at the index they spell, or exhibits a
collision of Poseidon. So neither allow-set circuit can use a leaf outside the vector without one.
-/
theorem merkle_membership_sound (lib : Circomlib (ZMod p)) :
    (∀ (depth : ℕ) (leaves : Vector (ZMod p) (2 ^ depth))
        (w : MerklePoseidonVerifier (ZMod p) depth),
      w.Satisfied lib → w.root = treeRoot lib leaves →
      (∀ i, w.pathIndices i = 0 ∨ w.pathIndices i = 1) ∧
        (w.Opens lib leaves ∨ w.Collides lib leaves)) ∧
    (∀ (leaves : Vector (ZMod p) (2 ^ 16)) (w : JurisdictionAllowed (ZMod p) 16),
      w.Satisfied lib → w.merkleRoot = treeRoot lib leaves →
      w.countryHash ∈ leaves ∨ w.tree.Collides lib leaves) ∧
    ∀ (leaves : Vector (ZMod p) (2 ^ 8)) (w : SignedJurisdictionAllowed (ZMod p) 8),
      w.Satisfied lib → w.allowedRoot = treeRoot lib leaves →
      w.country ∈ leaves ∨ w.mt.Collides lib leaves := by
  refine ⟨?_, ?_, ?_⟩
  · intro depth leaves w hw hroot
    exact ⟨hw.isBit, hw.opens_or_collides hroot⟩
  · intro leaves w hw hroot
    have htree : w.tree.root = treeRoot lib leaves := by
      rw [← hw.computedRoot, hw.root, hroot]
    rcases hw.tree.opens_or_collides htree with hopens | hcollides
    · left
      rw [← hw.leaf]
      exact hopens.leaf_mem
    · exact .inr hcollides
  · intro leaves w hw hroot
    rcases hw.mt.opens_or_collides (hw.root.trans hroot) with hopens | hcollides
    · left
      rw [← hw.leaf]
      exact hopens.leaf_mem
    · exact .inr hcollides

abbrev sumCircomlib : Circomlib Fr := .summed [0]

def secondLeafPath : MerklePoseidonVerifier Fr 1 where
  leaf := 4
  pathElements := ![3]
  pathIndices := ![1]
  root := (7 : ℕ)
  hash := ![4, (7 : ℕ)]
  left := ![3]
  right := ![4]

theorem secondLeafPath_satisfied : secondLeafPath.Satisfied sumCircomlib where
  leaf := rfl
  binary := by simp [secondLeafPath]
  left := by simp [secondLeafPath]
  right := by simp [secondLeafPath]
  hash i := by
    have hsum : ([3, 4] : List Fr).sum = 7 := by decide
    rw [Fin.fin_one_eq_zero i]
    exact hsum.symm
  root := rfl

/-- Consecutive numbers as leaves. -/
def numbered (first depth : ℕ) : Vector Fr (2 ^ depth) := Vector.ofFn fun j => (first + j : ℕ)

theorem leafAt_numbered {first depth k : ℕ} (hk : k < 2 ^ depth) :
    leafAt (numbered first depth) k = (first + k : ℕ) := by
  simp [leafAt, numbered, hk]

def fifthSigned : SignedJurisdictionAllowed Fr 8 :=
  (MerklePoseidonVerifier.honest sumCircomlib (numbered 100 8) 5).signed sumCircomlib
    (-(105 : ℕ)) 0 0 0 11 12

theorem fifthSigned_satisfied : fifthSigned.Satisfied sumCircomlib := by
  have hfive : 5 < 2 ^ 8 := by decide
  have hmessage : sumCircomlib.poseidon [leafAt (numbered 100 8) 5, -(105 : ℕ)] = 0 := by
    rw [leafAt_numbered hfive]
    decide
  exact (MerklePoseidonVerifier.honest_satisfied sumCircomlib (numbered 100 8) hfive).signed
    (List.mem_singleton.mpr hmessage)

theorem merkle_membership_sound_second_leaf :
    (secondLeafPath.Opens sumCircomlib #v[3, 4] ∨ secondLeafPath.Collides sumCircomlib #v[3, 4]) ∧
      ((JurisdictionAllowed.honest sumCircomlib (numbered 100 16) 5).countryHash
          ∈ numbered 100 16 ∨
        (JurisdictionAllowed.honest sumCircomlib (numbered 100 16) 5).tree.Collides sumCircomlib
          (numbered 100 16)) ∧
      (fifthSigned.country ∈ numbered 100 8 ∨
        fifthSigned.mt.Collides sumCircomlib (numbered 100 8)) := by
  obtain ⟨hpath, hallowed, hsigned⟩ := merkle_membership_sound sumCircomlib
  have hroot : ([3, 4] : List Fr).sum = 7 := by decide
  refine ⟨(hpath 1 #v[3, 4] secondLeafPath secondLeafPath_satisfied hroot.symm).2, ?_, ?_⟩
  · exact hallowed _ _ (JurisdictionAllowed.honest_satisfied sumCircomlib _ (by norm_num)) rfl
  · exact hsigned _ fifthSigned fifthSigned_satisfied rfl

end Veritas
