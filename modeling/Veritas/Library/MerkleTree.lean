import Mathlib.Algebra.BigOperators.Intervals
import Mathlib.Tactic.Ring

/-!
# Complete binary trees under a compression function

The nodes of a tree over a sequence of leaves, and the paths that recompute its root from one leaf:
at each level a bit says on which side of the sibling the running value stands. A path that reaches
the root is the path of the leaf at the position its bits spell, and its siblings are the true ones;
otherwise, at some level, the path compressed a pair other than the tree's to the same value.
-/

namespace MerkleTree

variable {α : Type*} (compress : α → α → α)

/-- The node of a level, counted from the leaves, at an index. -/
def node (leaf : ℕ → α) : ℕ → ℕ → α
  | 0, j => leaf j
  | level + 1, j => compress (node leaf level (2 * j)) (node leaf level (2 * j + 1))

/-- The two children a path hashes: the running value is the left one when the bit is zero. -/
def pair (bit : Bool) (current sibling : α) : α × α :=
  if bit then (sibling, current) else (current, sibling)

def IsPath (depth : ℕ) (bit : ℕ → Bool) (sibling hash : ℕ → α) : Prop :=
  ∀ i < depth, hash (i + 1) = compress (pair (bit i) (hash i) (sibling i)).1
    (pair (bit i) (hash i) (sibling i)).2

/-- The leaf index the bits spell, least significant first. -/
def position (depth : ℕ) (bit : ℕ → Bool) : ℕ :=
  ∑ i ∈ Finset.range depth, (bit i).toNat * 2 ^ i

def siblingIndex (j : ℕ) : ℕ := if j % 2 = 0 then j + 1 else j - 1

def Collision (a b : α × α) : Prop := a ≠ b ∧ compress a.1 a.2 = compress b.1 b.2

/-! ### Nodes -/

section Node

variable {compress} {leaf : ℕ → α}

theorem node_map {β : Type*} {compressed : β → β → β} (f : α → β)
    (hf : ∀ a b, f (compress a b) = compressed (f a) (f b)) (level j : ℕ) :
    f (node compress leaf level j) = node compressed (fun i => f (leaf i)) level j := by
  induction level generalizing j with
  | zero => rfl
  | succ level ih => rw [node, hf, ih, ih, node]

variable (compress leaf) in
/-- The nodes of a level, from an index on. -/
def row (level start width : ℕ) : List α :=
  (List.range' start width).map (node compress leaf level)

@[simp]
theorem length_row (level start width : ℕ) :
    (row compress leaf level start width).length = width := by
  simp [row]

theorem row_succ (level start width : ℕ) :
    row compress leaf level start (width + 1)
      = node compress leaf level start :: row compress leaf level (start + 1) width := by
  rw [row, List.range'_succ, List.map_cons, row]

theorem getElem?_row {level width j : ℕ} (hj : j < width) :
    (row compress leaf level 0 width)[j]? = some (node compress leaf level j) := by
  simp [row, hj]

end Node

/-! ### Positions -/

section Position

variable {depth : ℕ} (bit : ℕ → Bool)

theorem position_succ (depth : ℕ) :
    position (depth + 1) bit = position depth bit + (bit depth).toNat * 2 ^ depth :=
  Finset.sum_range_succ ..

theorem position_lt (depth : ℕ) : position depth bit < 2 ^ depth := by
  induction depth with
  | zero => simp [position]
  | succ depth ih =>
      have hbit : (bit depth).toNat * 2 ^ depth ≤ 1 * 2 ^ depth :=
        Nat.mul_le_mul_right _ (Bool.toNat_le _)
      rw [position_succ, pow_succ]
      omega

theorem position_div_pow_mod {i : ℕ} (hi : i < depth) :
    position depth bit / 2 ^ i % 2 = (bit i).toNat := by
  induction depth with
  | zero => omega
  | succ depth ih =>
      have hpos : 0 < 2 ^ i := Nat.two_pow_pos i
      rw [position_succ]
      rcases Nat.lt_succ_iff_lt_or_eq.mp hi with hlt | rfl
      · obtain ⟨gap, rfl⟩ : ∃ gap, depth = i + (gap + 1) := ⟨depth - i - 1, by omega⟩
        have hterm : (bit (i + (gap + 1))).toNat * 2 ^ (i + (gap + 1))
            = 2 * ((bit (i + (gap + 1))).toNat * 2 ^ gap) * 2 ^ i := by ring
        rw [hterm, Nat.add_mul_div_right _ _ hpos, Nat.add_mul_mod_self_left, ih hlt]
      · have hbit : (bit i).toNat < 2 := Bool.toNat_lt _
        rw [Nat.add_mul_div_right _ _ hpos, Nat.div_eq_of_lt (position_lt bit i), Nat.zero_add,
          Nat.mod_eq_of_lt hbit]

theorem position_div_pow {i : ℕ} (hi : i < depth) :
    position depth bit / 2 ^ i = 2 * (position depth bit / 2 ^ (i + 1)) + (bit i).toNat := by
  have hmod := position_div_pow_mod bit hi
  rw [pow_succ, ← Nat.div_div_eq_div_mul]
  omega

theorem position_congr {other : ℕ → Bool} (h : ∀ i < depth, bit i = other i) :
    position depth bit = position depth other := by
  unfold position
  apply Finset.sum_congr rfl
  intro i hi
  rw [h i (Finset.mem_range.mp hi)]

/-- The binary digits of an index point to it. -/
theorem position_digits (k depth : ℕ) :
    position depth (fun i => decide (k / 2 ^ i % 2 = 1)) = k % 2 ^ depth := by
  induction depth with
  | zero => rw [pow_zero, Nat.mod_one]; rfl
  | succ depth ih =>
      have hdigit : (decide (k / 2 ^ depth % 2 = 1)).toNat = k / 2 ^ depth % 2 := by
        rcases Nat.mod_two_eq_zero_or_one (k / 2 ^ depth) with hzero | hone
        · rw [hzero]; rfl
        · rw [hone]; rfl
      rw [position_succ, ih, hdigit, Nat.mod_pow_succ, mul_comm]

end Position

/-! ### Binding -/

section Binding

variable {compress} {leaf : ℕ → α} {depth : ℕ} {bit : ℕ → Bool} {sibling hash : ℕ → α}

def children (compress : α → α → α) (leaf : ℕ → α) (k i : ℕ) : α × α :=
  (node compress leaf i (2 * (k / 2 ^ (i + 1))), node compress leaf i (2 * (k / 2 ^ (i + 1)) + 1))

theorem siblingIndex_two_mul (j : ℕ) : siblingIndex (2 * j) = 2 * j + 1 := by
  rw [siblingIndex, if_pos (by omega)]

theorem siblingIndex_two_mul_add_one (j : ℕ) : siblingIndex (2 * j + 1) = 2 * j := by
  rw [siblingIndex, if_neg (by omega), Nat.add_sub_cancel]

theorem div_two_pow (k i : ℕ) : k / 2 ^ i = 2 * (k / 2 ^ (i + 1)) + k / 2 ^ i % 2 := by
  rw [pow_succ, ← Nat.div_div_eq_div_mul]
  omega

/-- The true node on the way from a leaf, with its sibling, is the pair of children above. -/
theorem pair_node (k i : ℕ) :
    pair (decide (k / 2 ^ i % 2 = 1)) (node compress leaf i (k / 2 ^ i))
        (node compress leaf i (siblingIndex (k / 2 ^ i))) = children compress leaf k i := by
  have hindex := div_two_pow k i
  rcases Nat.mod_two_eq_zero_or_one (k / 2 ^ i) with hzero | hone
  · rw [hzero, Nat.add_zero] at hindex
    rw [hzero, hindex, siblingIndex_two_mul]
    rfl
  · rw [hone] at hindex
    rw [hone, hindex, siblingIndex_two_mul_add_one]
    rfl

theorem eq_of_pair_eq_children {i : ℕ} (hi : i < depth)
    (h : pair (bit i) (hash i) (sibling i) = children compress leaf (position depth bit) i) :
    hash i = node compress leaf i (position depth bit / 2 ^ i) ∧
      sibling i = node compress leaf i (siblingIndex (position depth bit / 2 ^ i)) := by
  rw [position_div_pow bit hi]
  cases hbit : bit i with
  | false =>
      rw [hbit] at h
      obtain ⟨hleft, hright⟩ := Prod.mk.inj h
      rw [Bool.toNat_false, Nat.add_zero, siblingIndex_two_mul]
      exact ⟨hleft, hright⟩
  | true =>
      rw [hbit] at h
      obtain ⟨hleft, hright⟩ := Prod.mk.inj h
      rw [Bool.toNat_true, siblingIndex_two_mul_add_one]
      exact ⟨hright, hleft⟩

/-- **Position binding.** A path that reaches the root of the tree over the leaves starts at the
leaf its bits point to and runs along that leaf's siblings, or it exhibits a collision. -/
theorem binding (hpath : IsPath compress depth bit sibling hash)
    (hroot : hash depth = node compress leaf depth 0) :
    (hash 0 = leaf (position depth bit) ∧
      ∀ i < depth, sibling i
        = node compress leaf i (siblingIndex (position depth bit / 2 ^ i))) ∨
    ∃ i < depth, Collision compress (pair (bit i) (hash i) (sibling i))
      (children compress leaf (position depth bit) i) := by
  by_cases hcollision : ∃ i < depth, Collision compress (pair (bit i) (hash i) (sibling i))
      (children compress leaf (position depth bit) i)
  · exact .inr hcollision
  left
  -- without a collision the true value above a level forces the true pair at it
  have hdown : ∀ i < depth,
      hash (i + 1) = node compress leaf (i + 1) (position depth bit / 2 ^ (i + 1)) →
      pair (bit i) (hash i) (sibling i) = children compress leaf (position depth bit) i := by
    intro i hi habove
    by_contra hne
    apply hcollision
    refine ⟨i, hi, hne, ?_⟩
    rw [← hpath i hi, habove]
    rfl
  have htrue : ∀ gap ≤ depth, hash (depth - gap)
      = node compress leaf (depth - gap) (position depth bit / 2 ^ (depth - gap)) := by
    intro gap
    induction gap with
    | zero =>
        intro _
        rw [Nat.sub_zero, hroot, Nat.div_eq_of_lt (position_lt bit depth)]
    | succ gap ih =>
        intro hgap
        have hlevel : depth - gap = depth - (gap + 1) + 1 := by omega
        have habove := ih (by omega)
        rw [hlevel] at habove
        have hi : depth - (gap + 1) < depth := by omega
        exact (eq_of_pair_eq_children hi (hdown _ hi habove)).1
  constructor
  · have hbottom := htrue depth le_rfl
    rwa [Nat.sub_self, pow_zero, Nat.div_one] at hbottom
  · intro i hi
    have habove := htrue (depth - (i + 1)) (by omega)
    rw [Nat.sub_sub_self hi] at habove
    exact (eq_of_pair_eq_children hi (hdown i hi habove)).2

end Binding

end MerkleTree
