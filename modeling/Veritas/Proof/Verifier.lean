import Veritas.Curve

/-!
# The Groth16 equation

Once the lengths agree and every point passes its check, the verifier decides one equation between
pairings, and none of its array accesses can be out of bounds. The public inputs enter through a
linear form in the key's `ic` points, which the accumulator loop computes.
-/

namespace Veritas

variable {curve : Bn254}

def pointsOk (curve : Bn254) (vk : VerifyingKey) (proof : Proof) : Bool :=
  (g1Ok curve vk.alphaG1 && g2Ok curve vk.betaG2 && g2Ok curve vk.gammaG2
    && g2Ok curve vk.deltaG2 && g1Ok curve proof.a && g2Ok curve proof.b
    && g1Ok curve proof.c) && vk.ic.all (g1Ok curve)

theorem allM_index (v : List G1Affine) (f : G1Affine → Bool) (indices : List ℕ)
    (h : ∀ i ∈ indices, i < v.length) :
    indices.allM (fun i => do
      let point ← index v i
      return f point) = (.ok (indices.all fun i => (v[i]?).any f) : Except Trap Bool) := by
  induction indices with
  | nil => rfl
  | cons i indices ih =>
      have hi : i < v.length := h i List.mem_cons_self
      have hrest := ih fun k hk => h k (List.mem_cons_of_mem i hk)
      rw [List.allM, index_of_lt hi, hrest, List.all_cons, List.getElem?_eq_getElem hi]
      cases hf : f v[i] <;> simp [hf]

theorem pointsValid_eq (vk : VerifyingKey) (proof : Proof) :
    pointsValid curve vk proof = .ok (pointsOk curve vk proof) := by
  have hic : ((List.range vk.ic.length).all fun i => (vk.ic[i]?).any (g1Ok curve))
      = vk.ic.all (g1Ok curve) := by
    rw [Bool.eq_iff_iff, List.all_eq_true, List.all_eq_true]
    constructor
    · intro h p hp
      obtain ⟨i, hi, rfl⟩ := List.mem_iff_getElem.mp hp
      simpa [hi] using h i (List.mem_range.mpr hi)
    · intro h i hi
      rw [List.mem_range] at hi
      simpa [hi] using h _ (List.getElem_mem hi)
  rw [pointsValid, pointsOk, allM_index _ _ _ fun i hi => List.mem_range.mp hi, hic]
  generalize (g1Ok curve vk.alphaG1 && g2Ok curve vk.betaG2 && g2Ok curve vk.gammaG2
    && g2Ok curve vk.deltaG2 && g1Ok curve proof.a && g2Ok curve proof.b
    && g1Ok curve proof.c) = fixed
  cases fixed <;> rfl

/-! ### The accumulator -/

/-- A counted loop returns, and keeps what each of its steps keeps. -/
theorem foldlM_range_invariant {ε β : Type} {body : β → ℕ → Except ε β} (inv : ℕ → β → Prop)
    {n : ℕ} {acc : β} (hinit : inv 0 acc)
    (hstep : ∀ i < n, ∀ acc, inv i acc → ∃ next, body acc i = .ok next ∧ inv (i + 1) next) :
    ∃ result, (List.range n).foldlM body acc = .ok result ∧ inv n result := by
  induction n with
  | zero => exact ⟨acc, rfl, hinit⟩
  | succ n ih =>
      obtain ⟨result, hresult, hinv⟩ := ih fun i hi => hstep i (by omega)
      obtain ⟨next, hnext, hinv'⟩ := hstep n (by omega) result hinv
      refine ⟨next, ?_, hinv'⟩
      rw [List.range_succ, List.foldlM_append, hresult]
      change List.foldlM body result [n] = .ok next
      rw [List.foldlM_cons, hnext]
      rfl

/-- The loop stays inside both arrays, so it keeps what one addition keeps. -/
theorem accumulate_invariant {ic : List G1Affine} {pub : List Scalar}
    (hlength : pub.length < ic.length) (inv : ℕ → curve.G1Projective → Prop)
    {acc : curve.G1Projective} (hinit : inv 0 acc)
    (hstep : ∀ i (hi : i < pub.length) acc, inv i acc →
      inv (i + 1) (curve.addAssign acc (curve.mulBigint ic[i + 1] pub[i].val))) :
    ∃ result, accumulate curve ic pub acc = .ok result ∧ inv pub.length result := by
  refine foldlM_range_invariant inv hinit fun i hi acc hinv => ?_
  have hpoint : i + 1 < ic.length := by omega
  exact ⟨_, by rw [index_of_lt hpoint, index_of_lt hi]; rfl, hstep i hi acc hinv⟩

theorem verifyGroth16_of_accumulate {vk : VerifyingKey} {pub : List Scalar} {proof : Proof}
    (hlength : pub.length + 1 = vk.ic.length) (hfirst : 0 < vk.ic.length)
    {acc : curve.G1Projective}
    (hacc : accumulate curve vk.ic pub (curve.fromAffine vk.ic[0]) = .ok acc) :
    verifyGroth16 curve vk pub proof
      = .ok (pointsOk curve vk proof && curve.isOne (curve.multiPairing
          [curve.neg proof.a, curve.intoAffine acc, proof.c, vk.alphaG1]
          [proof.b, vk.gammaG2, vk.deltaG2, vk.betaG2])) := by
  rw [verifyGroth16, if_neg (by simpa using hlength), pointsValid_eq]
  cases pointsOk curve vk proof with
  | false => rfl
  | true => simp [index_of_lt hfirst, hacc]

/-- The verifier returns whatever the curve operations compute. -/
theorem verifyGroth16_returns (curve : Bn254) (vk : VerifyingKey) (pub : List Scalar)
    (proof : Proof) : ∃ verdict, verifyGroth16 curve vk pub proof = .ok verdict := by
  by_cases hlength : pub.length + 1 = vk.ic.length
  swap
  · exact ⟨false, by rw [verifyGroth16, if_pos (by simpa using hlength)]⟩
  have hshort : pub.length < vk.ic.length := by omega
  have hfirst : 0 < vk.ic.length := by omega
  obtain ⟨acc, hacc, -⟩ : ∃ acc,
      accumulate curve vk.ic pub (curve.fromAffine vk.ic[0]) = .ok acc ∧ True :=
    accumulate_invariant hshort (fun _ _ => True) trivial fun _ _ _ _ => trivial
  exact ⟨_, verifyGroth16_of_accumulate hlength hfirst hacc⟩

section Accumulator

variable (lawful : curve.Lawful)

def coefficient (ic : List G1Affine) (i : ℕ) : lawful.G₁ := (ic[i]?.map lawful.element₁).getD 0

def scalarAt (pub : List Scalar) (i : ℕ) : Scalar := pub[i]?.getD 0

/-- The linear form of a key in the public inputs. -/
def publicPoint (ic : List G1Affine) (pub : List Scalar) : lawful.G₁ :=
  coefficient lawful ic 0
    + ∑ i ∈ Finset.range pub.length, (scalarAt pub i).val • coefficient lawful ic (i + 1)

/-- The loop adds one term of the linear form at a time. -/
theorem accumulate_eq {ic : List G1Affine} {pub : List Scalar} (hlength : pub.length < ic.length)
    (hvalid : ∀ p ∈ ic, g1Ok curve p = true) {acc : curve.G1Projective}
    (hacc : curve.Computed acc) :
    ∃ result, accumulate curve ic pub acc = .ok result ∧ curve.Computed result ∧
      lawful.projective result = lawful.projective acc
        + ∑ i ∈ Finset.range pub.length,
            (scalarAt pub i).val • coefficient lawful ic (i + 1) := by
  refine accumulate_invariant hlength (fun n result => curve.Computed result ∧
    lawful.projective result = lawful.projective acc
      + ∑ i ∈ Finset.range n, (scalarAt pub i).val • coefficient lawful ic (i + 1))
    ⟨hacc, by simp⟩ ?_
  rintro n hn result ⟨hresult, hvalue⟩
  have hpoint : n + 1 < ic.length := by omega
  have hok : g1Ok curve ic[n + 1] = true := hvalid _ (List.getElem_mem hpoint)
  have hcoefficient : coefficient lawful ic (n + 1) = lawful.element₁ ic[n + 1] := by
    simp [coefficient, hpoint]
  have hat : scalarAt pub n = pub[n] := by
    simp [scalarAt, hn]
  have hterm : curve.Computed (curve.mulBigint ic[n + 1] pub[n].val) := .mulBigint _ hok
  refine ⟨.addAssign hresult hterm, ?_⟩
  rw [lawful.addAssign hresult hterm, lawful.mulBigint _ hok, hvalue, Finset.sum_range_succ,
    hcoefficient, hat]
  apply add_assoc

/-! ### The verdict -/

/-- `e(-A, B) · e(ic, γ) · e(C, δ) · e(α, β) = 1`. -/
def Equation (vk : VerifyingKey) (pub : List Scalar) (proof : Proof) : Prop :=
  lawful.pairing.e (-lawful.element₁ proof.a) (lawful.element₂ proof.b)
    * lawful.pairing.e (publicPoint lawful vk.ic pub) (lawful.element₂ vk.gammaG2)
    * lawful.pairing.e (lawful.element₁ proof.c) (lawful.element₂ vk.deltaG2)
    * lawful.pairing.e (lawful.element₁ vk.alphaG1) (lawful.element₂ vk.betaG2) = 1

/-- **What the verifier decides.** It returns, and it returns true exactly when the lengths match,
every point is valid and the pairing equation holds. -/
theorem verifyGroth16_eq (vk : VerifyingKey) (pub : List Scalar) (proof : Proof) :
    ∃ verdict, verifyGroth16 curve vk pub proof = .ok verdict ∧
      (verdict = true ↔ pub.length + 1 = vk.ic.length ∧ pointsOk curve vk proof = true ∧
        Equation lawful vk pub proof) := by
  by_cases hlength : pub.length + 1 = vk.ic.length
  swap
  · exact ⟨false, by rw [verifyGroth16, if_pos (by simpa using hlength)], by simp [hlength]⟩
  cases hpoints : pointsOk curve vk proof with
  | false =>
      refine ⟨false, ?_, by simp⟩
      rw [verifyGroth16, if_neg (by simpa using hlength), pointsValid_eq, hpoints]
      rfl
  | true =>
      have hall := hpoints
      simp only [pointsOk, Bool.and_eq_true, List.all_eq_true] at hall
      obtain ⟨⟨⟨⟨⟨⟨⟨halpha, hbeta⟩, hgamma⟩, hdelta⟩, ha⟩, hb⟩, hc⟩, hic⟩ := hall
      have hfirst : 0 < vk.ic.length := by omega
      have hfirstOk : g1Ok curve vk.ic[0] = true := hic _ (List.getElem_mem hfirst)
      have hshort : pub.length < vk.ic.length := by omega
      obtain ⟨acc, hacc, hcomputed, hvalue⟩ :=
        accumulate_eq lawful hshort hic (.fromAffine hfirstOk)
      have hpublic : lawful.element₁ (curve.intoAffine acc) = publicPoint lawful vk.ic pub := by
        rw [lawful.intoAffine hcomputed, hvalue, lawful.fromAffine hfirstOk, publicPoint]
        simp [coefficient, hfirst]
      have hg1s : ∀ p ∈ [curve.neg proof.a, curve.intoAffine acc, proof.c, vk.alphaG1],
          g1Ok curve p = true := by
        simp [lawful.g1Ok_neg ha, lawful.g1Ok_intoAffine hcomputed, hc, halpha]
      have hg2s : ∀ q ∈ [proof.b, vk.gammaG2, vk.deltaG2, vk.betaG2], g2Ok curve q = true := by
        simp [hb, hgamma, hdelta, hbeta]
      refine ⟨_, verifyGroth16_of_accumulate hlength hfirst hacc, ?_⟩
      rw [hpoints, Bool.true_and, lawful.isOne, lawful.multiPairing hg1s hg2s]
      simp only [List.zipWith_cons_cons, List.zipWith_nil_right, List.prod_cons, List.prod_nil,
        mul_one, lawful.neg ha, hpublic, Equation, mul_assoc]
      simp [hlength]

/-- The four pairings multiply to one exactly when the textbook equation holds. -/
theorem equation_iff (vk : VerifyingKey) (pub : List Scalar) (proof : Proof) :
    Equation lawful vk pub proof ↔
      lawful.pairing.e (lawful.element₁ proof.a) (lawful.element₂ proof.b)
        = lawful.pairing.e (lawful.element₁ vk.alphaG1) (lawful.element₂ vk.betaG2)
          * lawful.pairing.e (publicPoint lawful vk.ic pub) (lawful.element₂ vk.gammaG2)
          * lawful.pairing.e (lawful.element₁ proof.c) (lawful.element₂ vk.deltaG2) := by
  rw [Equation, lawful.pairing.neg_left, mul_assoc, mul_assoc, inv_mul_eq_one]
  apply iff_of_eq
  congr 1
  rw [← mul_assoc, mul_comm, ← mul_assoc]

/-- The points of the first group that the verifier receives. -/
def g1Points (vk : VerifyingKey) (proof : Proof) : List G1Affine :=
  vk.alphaG1 :: proof.a :: proof.c :: vk.ic

def g2Points (vk : VerifyingKey) (proof : Proof) : List G2Affine :=
  [vk.betaG2, vk.gammaG2, vk.deltaG2, proof.b]

/-- Every point is on its curve and in the right subgroup. -/
structure ValidPoints (curve : Bn254) (vk : VerifyingKey) (proof : Proof) : Prop where
  g1 : ∀ p ∈ g1Points vk proof,
    curve.g1IsOnCurve p = true ∧ curve.g1IsInCorrectSubgroupAssumingOnCurve p = true
  g2 : ∀ q ∈ g2Points vk proof,
    curve.g2IsOnCurve q = true ∧ curve.g2IsInCorrectSubgroupAssumingOnCurve q = true

theorem pointsOk_iff (vk : VerifyingKey) (proof : Proof) :
    pointsOk curve vk proof = true ↔ ValidPoints curve vk proof := by
  simp only [pointsOk, g1Ok, g2Ok, Bool.and_eq_true, List.all_eq_true]
  constructor
  · rintro ⟨⟨⟨⟨⟨⟨⟨halpha, hbeta⟩, hgamma⟩, hdelta⟩, ha⟩, hb⟩, hc⟩, hic⟩
    constructor
    · simpa [g1Points, halpha, ha, hc] using hic
    · simp [g2Points, hbeta, hgamma, hdelta, hb]
  · rintro ⟨hg1, hg2⟩
    simp only [g1Points, List.forall_mem_cons] at hg1
    simp only [g2Points, List.forall_mem_cons] at hg2
    obtain ⟨halpha, ha, hc, hic⟩ := hg1
    obtain ⟨hbeta, hgamma, hdelta, hb, -⟩ := hg2
    exact ⟨⟨⟨⟨⟨⟨⟨halpha, hbeta⟩, hgamma⟩, hdelta⟩, ha⟩, hb⟩, hc⟩, hic⟩

/-- **The verifier decides the Groth16 equation.** For a key, a vector and a proof of any shape it
returns without touching an index out of range, and it returns true exactly when the lengths match,
every point is valid and `e(A, B) = e(α, β) · e(IC[0] + Σ public[i] · IC[i + 1], γ) · e(C, δ)`. -/
theorem verifyGroth16_decides (vk : VerifyingKey) (pub : List Scalar) (proof : Proof) :
    ∃ verdict, verifyGroth16 curve vk pub proof = .ok verdict ∧
      (verdict = true ↔ pub.length + 1 = vk.ic.length ∧ ValidPoints curve vk proof ∧
        lawful.pairing.e (lawful.element₁ proof.a) (lawful.element₂ proof.b)
          = lawful.pairing.e (lawful.element₁ vk.alphaG1) (lawful.element₂ vk.betaG2)
            * lawful.pairing.e (publicPoint lawful vk.ic pub) (lawful.element₂ vk.gammaG2)
            * lawful.pairing.e (lawful.element₁ proof.c) (lawful.element₂ vk.deltaG2)) := by
  obtain ⟨verdict, hverdict, htrue⟩ := verifyGroth16_eq lawful vk pub proof
  refine ⟨verdict, hverdict, ?_⟩
  rw [htrue, pointsOk_iff, equation_iff]

end Accumulator

end Veritas
