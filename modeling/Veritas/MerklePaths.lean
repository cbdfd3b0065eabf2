import Veritas.Circuits
import Veritas.Field

/-!
# The path builders

The two scripts that build Merkle paths off-chain: `merkleProof` of `zk_helpers.js`, which pads with
the first member, and the walk of `gen_test_inputs.js`, whose tree has Poseidon of each country in
its first leaves and zero in the others. A JavaScript number or BigInt is an integer here, a decimal
string the integer it denotes, and a thrown exception is `none`.
-/

namespace Veritas

/-! ### JavaScript -/

namespace Js

/-- `ToInt32`. -/
def toInt32 (a : ℤ) : BitVec 32 := BitVec.ofInt 32 a

/-- `a ^ b`. -/
def xor (a b : ℤ) : ℤ := (toInt32 a ^^^ toInt32 b).toInt

/-- `a & b`. -/
def and (a b : ℤ) : ℤ := (toInt32 a &&& toInt32 b).toInt

/-- `a >> n`. -/
def shiftRight (a : ℤ) (n : ℕ) : ℤ := ((toInt32 a).sshiftRight n).toInt

/-- `array[i]`, where `undefined` makes the caller throw. -/
def element (array : List ℤ) (i : ℤ) : Option ℤ :=
  if 0 ≤ i then array[i.toNat]? else none

end Js

variable {p : ℕ} (lib : Circomlib (ZMod p))

/-- `F.toObject(poseidon(inputs))`: the inputs are reduced, the output is canonical. -/
def pHash (inputs : List ℤ) : ℤ :=
  (lib.poseidon (inputs.map fun x : ℤ => (x : ZMod p))).val

structure MerkleProof where
  root : ℤ
  pathElements : List ℤ
  pathIndices : List ℤ
deriving DecidableEq

/-- The variables of either loop. -/
structure MerkleWalk where
  pathElements : List ℤ
  pathIndices : List ℤ
  level : List ℤ
  idx : ℤ

def MerkleWalk.start (level : List ℤ) (index : ℤ) : MerkleWalk := ⟨[], [], level, index⟩

def MerkleWalk.finish (walk : MerkleWalk) : Option MerkleProof := do
  return ⟨← Js.element walk.level 0, walk.pathElements, walk.pathIndices⟩

/-- One level: record the sibling and the direction bit, then hash the pairs. -/
def MerkleWalk.step (nextLevel : List ℤ → Option (List ℤ)) (walk : MerkleWalk) :
    Option MerkleWalk := do
  let sibIdx := Js.xor walk.idx 1
  let sibling ← Js.element walk.level sibIdx
  let next ← nextLevel walk.level
  return {
    pathElements := walk.pathElements ++ [sibling]
    pathIndices := walk.pathIndices ++ [Js.and walk.idx 1]
    level := next
    idx := Js.shiftRight walk.idx 1 }

def MerkleWalk.run (nextLevel : List ℤ → Option (List ℤ)) (depth : ℕ) (walk : MerkleWalk) :
    Option MerkleWalk :=
  (List.range depth).foldlM (fun walk _ => walk.step nextLevel) walk

/-! ### `zk_helpers.js` -/

namespace ZkHelpers

/-- `while (pad.length < n) pad.push(padLeaf)`. -/
def pad (leaves : List ℤ) (n : ℕ) : List ℤ :=
  leaves ++ List.replicate (n - leaves.length) (leaves.headD 0)

/-- `for (let j = 0; j < level.length; j += 2)`. -/
def nextLevel : List ℤ → Option (List ℤ)
  | [] => some []
  | [_] => none
  | a :: b :: level => do return pHash lib [a, b] :: (← nextLevel level)

def merkleProof (leaves : List ℤ) (depth : ℕ) (index : ℤ) : Option MerkleProof := do
  let n : ℕ := 2 ^ depth
  if index ≥ n then none
  let walk ← (MerkleWalk.start (pad leaves n) index).run (nextLevel lib) depth
  walk.finish

end ZkHelpers

/-! ### `gen_test_inputs.js` -/

namespace GenTestInputs

def depth : ℕ := 16

def size : ℕ := 1 <<< depth

/-- `next[j] = pHash([cur[i], cur[i + 1]])` with `i = 2 * j`. -/
def nextLevel (cur : List ℤ) : Option (List ℤ) :=
  (List.range ((cur.length + 1) / 2)).mapM fun j => do
    return pHash lib [← cur[2 * j]?, ← cur[2 * j + 1]?]

def walk (depth : ℕ) (level : List ℤ) (targetIdx : ℤ) : Option MerkleProof := do
  let walk ← (MerkleWalk.start level targetIdx).run (nextLevel lib) depth
  walk.finish

/-- `new Array(SIZE).fill(0n)`, with Poseidon of each country in the first slots. -/
def leafLevel (countries : List ℤ) : List ℤ :=
  (countries.map fun c => pHash lib [c]) ++ List.replicate (size - countries.length) 0

/-- `cur` after the loop, which does not depend on the target. -/
def merkleRoot (countries : List ℤ) : Option ℤ := do
  let top ← (List.range depth).foldlM (fun cur _ => nextLevel lib cur) (leafLevel lib countries)
  Js.element top 0

/-- The input the script writes for `JurisdictionAllowed`. -/
def jurisdictionAllowed (countries : List ℤ) (target : ℤ) : Option (ℤ × MerkleProof) := do
  let targetIdx : ℤ := if target ∈ countries then countries.idxOf target else -1
  let countryHash ← Js.element (leafLevel lib countries) targetIdx
  return (countryHash, ← walk lib depth (leafLevel lib countries) targetIdx)

end GenTestInputs

end Veritas
