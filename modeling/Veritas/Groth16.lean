import Veritas.Runtime

/-!
# The Groth16 verification core

`groth16.rs` is written against arkworks: it decides when to call curve and pairing operations and
on which points, and arkworks computes them. Those operations are the fields of `Bn254`; the
verifier is a function of them.
-/

namespace Veritas

abbrev Scalar := Fr

/-- An affine point as arkworks stores it: coordinates and a flag for the point at infinity. -/
structure G1Affine where
  x : Fq
  y : Fq
  infinity : Bool
deriving DecidableEq

structure G2Affine where
  x : Fq2
  y : Fq2
  infinity : Bool
deriving DecidableEq

def G1Affine.newUnchecked (x y : Fq) : G1Affine := ⟨x, y, false⟩

def G2Affine.newUnchecked (x y : Fq2) : G2Affine := ⟨x, y, false⟩

structure VerifyingKey where
  alphaG1 : G1Affine
  betaG2 : G2Affine
  gammaG2 : G2Affine
  deltaG2 : G2Affine
  /-- `nPublic + 1` points. `ic[0]` is the constant term. -/
  ic : List G1Affine
deriving DecidableEq

structure Proof where
  a : G1Affine
  b : G2Affine
  c : G1Affine
deriving DecidableEq

/-- The arkworks operations the verifier calls. -/
structure Bn254 where
  G1Projective : Type
  PairingOutput : Type
  g1IsOnCurve : G1Affine → Bool
  g1IsInCorrectSubgroupAssumingOnCurve : G1Affine → Bool
  g2IsOnCurve : G2Affine → Bool
  g2IsInCorrectSubgroupAssumingOnCurve : G2Affine → Bool
  fromAffine : G1Affine → G1Projective
  addAssign : G1Projective → G1Projective → G1Projective
  mulBigint : G1Affine → ℕ → G1Projective
  intoAffine : G1Projective → G1Affine
  neg : G1Affine → G1Affine
  multiPairing : List G1Affine → List G2Affine → PairingOutput
  isOne : PairingOutput → Bool

variable (curve : Bn254)

def g1Ok (p : G1Affine) : Bool :=
  curve.g1IsOnCurve p && curve.g1IsInCorrectSubgroupAssumingOnCurve p

def g2Ok (p : G2Affine) : Bool :=
  curve.g2IsOnCurve p && curve.g2IsInCorrectSubgroupAssumingOnCurve p

def pointsValid (vk : VerifyingKey) (proof : Proof) : Except Trap Bool :=
  if !(g1Ok curve vk.alphaG1 && g2Ok curve vk.betaG2 && g2Ok curve vk.gammaG2
      && g2Ok curve vk.deltaG2 && g1Ok curve proof.a && g2Ok curve proof.b
      && g1Ok curve proof.c) then
    .ok false
  else
    (List.range vk.ic.length).allM fun i => do
      let point ← index vk.ic i
      return g1Ok curve point

/-- `acc += vk.ic[i + 1].mul_bigint(public[i].into_bigint())` for `i` below `public.len()`. -/
def accumulate (ic : List G1Affine) (pub : List Scalar) (acc : curve.G1Projective) :
    Except Trap curve.G1Projective :=
  (List.range pub.length).foldlM (fun acc i => do
    let point ← index ic (i + 1)
    let scalar ← index pub i
    return curve.addAssign acc (curve.mulBigint point scalar.val)) acc

def verifyGroth16 (vk : VerifyingKey) (pub : List Scalar) (proof : Proof) : Except Trap Bool :=
  if pub.length + 1 != vk.ic.length then .ok false
  else do
    if !(← pointsValid curve vk proof) then
      return false
    let first ← index vk.ic 0
    let acc ← accumulate curve vk.ic pub (curve.fromAffine first)
    let ic := curve.intoAffine acc
    -- e(-A, B) · e(ic, γ₂) · e(C, δ₂) · e(α₁, β₂) == 1
    let negA := curve.neg proof.a
    let g1s := [negA, ic, proof.c, vk.alphaG1]
    let g2s := [proof.b, vk.gammaG2, vk.deltaG2, vk.betaG2]
    return curve.isOne (curve.multiPairing g1s g2s)

end Veritas
