import Veritas.Groth16
import Veritas.Library.Pairing

/-!
# The curve behind the operations

What arkworks documents about the operations the verifier calls: valid affine points denote elements
of groups whose order is the scalar modulus, the point at infinity is the only one that denotes
zero, the projective operations are those of the group, and the multi-pairing is a product of
pairings. Nothing is said about points that fail the validity checks, nor about projective values
that do not come from valid points.
-/

namespace Veritas

/-- The projective values computed from valid points. -/
inductive Bn254.Computed (curve : Bn254) : curve.G1Projective → Prop
  | fromAffine {p : G1Affine} (hp : g1Ok curve p = true) : curve.Computed (curve.fromAffine p)
  | mulBigint {p : G1Affine} (n : ℕ) (hp : g1Ok curve p = true) :
      curve.Computed (curve.mulBigint p n)
  | addAssign {x y : curve.G1Projective} (hx : curve.Computed x) (hy : curve.Computed y) :
      curve.Computed (curve.addAssign x y)

structure Bn254.Lawful (curve : Bn254) where
  G₁ : Type
  G₂ : Type
  GT : Type
  [group₁ : AddCommGroup G₁]
  [group₂ : AddCommGroup G₂]
  [groupT : CommGroup GT]
  card₁ : Nat.card G₁ = frModulus
  card₂ : Nat.card G₂ = frModulus
  pairing : Pairing.Bilinear G₁ G₂ GT
  element₁ : G1Affine → G₁
  element₂ : G2Affine → G₂
  projective : curve.G1Projective → G₁
  output : curve.PairingOutput → GT
  element₁_eq_zero_iff {p : G1Affine} :
    g1Ok curve p = true → (element₁ p = 0 ↔ p.infinity = true)
  element₂_eq_zero_iff {q : G2Affine} :
    g2Ok curve q = true → (element₂ q = 0 ↔ q.infinity = true)
  fromAffine {p : G1Affine} :
    g1Ok curve p = true → projective (curve.fromAffine p) = element₁ p
  addAssign {x y : curve.G1Projective} : curve.Computed x → curve.Computed y →
    projective (curve.addAssign x y) = projective x + projective y
  mulBigint {p : G1Affine} (n : ℕ) :
    g1Ok curve p = true → projective (curve.mulBigint p n) = n • element₁ p
  g1Ok_intoAffine {x : curve.G1Projective} :
    curve.Computed x → g1Ok curve (curve.intoAffine x) = true
  intoAffine {x : curve.G1Projective} :
    curve.Computed x → element₁ (curve.intoAffine x) = projective x
  g1Ok_neg {p : G1Affine} : g1Ok curve p = true → g1Ok curve (curve.neg p) = true
  neg {p : G1Affine} : g1Ok curve p = true → element₁ (curve.neg p) = -element₁ p
  multiPairing {ps : List G1Affine} {qs : List G2Affine} :
    (∀ p ∈ ps, g1Ok curve p = true) → (∀ q ∈ qs, g2Ok curve q = true) →
      output (curve.multiPairing ps qs)
        = (List.zipWith (fun p q => pairing.e (element₁ p) (element₂ q)) ps qs).prod
  isOne (o : curve.PairingOutput) : curve.isOne o = true ↔ output o = 1

attribute [instance] Bn254.Lawful.group₁ Bn254.Lawful.group₂ Bn254.Lawful.groupT

end Veritas
