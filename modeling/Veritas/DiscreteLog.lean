import Veritas.Proof.Acceptance
import Veritas.Proof.Verifier
import Mathlib.Tactic.LinearCombination

/-!
# The pairing in the exponent

A computable instance of the curve operations, which shows that the laws asked of them can be met:
group elements are represented by their discrete logarithms. The generators, the negative of the
first one and the points at infinity have their real coordinates, other logarithms are stored in the
first coordinate. Under the key and the proof whose points are all generators, the verifier accepts
exactly the vectors with sum -2, and it does so on the real curve as well; with the last point of
the proof negated the sum is zero.
-/

namespace Veritas

def g1Encode (k : Fr) : G1Affine :=
  if k = 0 then ⟨0, 0, true⟩
  else if k = 1 then ⟨1, (2 : ℕ), false⟩
  else if k = -1 then ⟨1, -(2 : ℕ), false⟩
  else ⟨(k.val : Fq), 0, false⟩

def g1Decode (p : G1Affine) : Fr :=
  if p.infinity then 0
  else if p.y = 0 then (p.x.val : Fr)
  else if p.y = (2 : ℕ) then 1
  else -1

def g1Generator : G1Affine := .newUnchecked 1 (2 : ℕ)

def g2Generator : G2Affine :=
  .newUnchecked
    ⟨10857046999023057135944570762232829481370756359578518086990519993285655852781,
      11559732032986387107991004021392285783925812861821192530917403151452391805634⟩
    ⟨8495653923123431417604973247489272438418190587263600148770280649306958101930,
      4082367875863433681332203403145435568316851327593401208105741076214120093531⟩

def g2Encode (k : Fr) : G2Affine :=
  if k = 0 then ⟨⟨0, 0⟩, ⟨0, 0⟩, true⟩
  else if k = 1 then g2Generator
  else ⟨⟨(k.val : Fq), 0⟩, ⟨0, 0⟩, false⟩

def g2Decode (q : G2Affine) : Fr :=
  if q.infinity then 0
  else if q.y = ⟨0, 0⟩ then (q.x.c0.val : Fr)
  else 1

theorem val_cast_val (k : Fr) : ((k.val : Fq)).val = k.val :=
  ZMod.val_natCast_of_lt (k.val_lt.trans (by norm_num))

theorem g1Decode_g1Encode (k : Fr) : g1Decode (g1Encode k) = k := by
  have htwo : (2 : Fq) ≠ 0 := by decide
  have hneg : (-2 : Fq) ≠ 0 := by decide
  have hne : (-2 : Fq) ≠ 2 := by decide
  rw [g1Encode]
  split_ifs with hzero hone hminus
  · simp [g1Decode, hzero]
  · simp [g1Decode, htwo, hone]
  · simp [g1Decode, hminus, hneg, hne]
  · change ((k.val : Fq).val : Fr) = k
    rw [val_cast_val, ZMod.natCast_zmod_val]

theorem g2Decode_g2Encode (k : Fr) : g2Decode (g2Encode k) = k := by
  have hgenerator : g2Decode g2Generator = 1 := by decide
  rw [g2Encode]
  split_ifs with hzero hone
  · simp [g2Decode, hzero]
  · rw [hgenerator, hone]
  · change ((k.val : Fq).val : Fr) = k
    rw [val_cast_val, ZMod.natCast_zmod_val]

def discreteLog : Bn254 where
  G1Projective := Fr
  PairingOutput := Fr
  g1IsOnCurve p := decide (g1Encode (g1Decode p) = p)
  g1IsInCorrectSubgroupAssumingOnCurve _ := true
  g2IsOnCurve q := decide (g2Encode (g2Decode q) = q)
  g2IsInCorrectSubgroupAssumingOnCurve _ := true
  fromAffine := g1Decode
  addAssign x y := x + y
  mulBigint p n := n • g1Decode p
  intoAffine := g1Encode
  neg p := g1Encode (-g1Decode p)
  multiPairing ps qs := (List.zipWith (fun p q => g1Decode p * g2Decode q) ps qs).sum
  isOne o := decide (o = 0)

theorem g1Ok_g1Encode (k : Fr) : g1Ok discreteLog (g1Encode k) = true := by
  simp [g1Ok, discreteLog, g1Decode_g1Encode]

theorem infinity_g1Encode (k : Fr) : (g1Encode k).infinity = decide (k = 0) := by
  rw [g1Encode]
  split_ifs <;> simp [*]

theorem infinity_g2Encode (k : Fr) : (g2Encode k).infinity = decide (k = 0) := by
  rw [g2Encode]
  split_ifs <;> simp [*, g2Generator, G2Affine.newUnchecked]

def productPairing : Pairing.Bilinear Fr Fr (Multiplicative Fr) where
  e a b := Multiplicative.ofAdd (a * b)
  add_left a b c := by rw [add_mul, ofAdd_add]
  add_right a b c := by rw [mul_add, ofAdd_add]
  nondegenerate := ⟨1, 1, by decide⟩

def discreteLogLawful : discreteLog.Lawful where
  G₁ := Fr
  G₂ := Fr
  GT := Multiplicative Fr
  card₁ := Nat.card_zmod frModulus
  card₂ := Nat.card_zmod frModulus
  pairing := productPairing
  element₁ := g1Decode
  element₂ := g2Decode
  projective x := x
  output o := Multiplicative.ofAdd o
  element₁_eq_zero_iff {p} hp := by
    have hcode : g1Encode (g1Decode p) = p := by simpa [g1Ok, discreteLog] using hp
    rw [← hcode, g1Decode_g1Encode, infinity_g1Encode, decide_eq_true_eq]
  element₂_eq_zero_iff {q} hq := by
    have hcode : g2Encode (g2Decode q) = q := by simpa [g2Ok, discreteLog] using hq
    rw [← hcode, g2Decode_g2Encode, infinity_g2Encode, decide_eq_true_eq]
  fromAffine _ := rfl
  addAssign _ _ := rfl
  mulBigint _ _ := rfl
  g1Ok_intoAffine {x} _ := g1Ok_g1Encode x
  intoAffine {x} _ := g1Decode_g1Encode x
  g1Ok_neg {p} _ := g1Ok_g1Encode (-g1Decode p)
  neg {p} _ := g1Decode_g1Encode (-g1Decode p)
  multiPairing {ps qs} _ _ := by
    change Multiplicative.ofAdd (List.zipWith (fun p q => g1Decode p * g2Decode q) ps qs).sum
      = (List.zipWith (fun p q => Multiplicative.ofAdd (g1Decode p * g2Decode q)) ps qs).prod
    rw [ofAdd_list_prod, List.map_zipWith]
  isOne := fun (o : Fr) => by
    change decide (o = 0) = true ↔ Multiplicative.ofAdd o = 1
    rw [decide_eq_true_eq, ofAdd_eq_one]

/-! ### The key of generators -/

/-- The key for `n` public inputs whose points are all generators. -/
def generatorKey (n : ℕ) : VerifyingKey where
  alphaG1 := g1Generator
  betaG2 := g2Generator
  gammaG2 := g2Generator
  deltaG2 := g2Generator
  ic := List.replicate (n + 1) g1Generator

def generatorProof : Proof := ⟨g1Generator, g2Generator, g1Generator⟩

theorem generatorKey_finite (n : ℕ) : (generatorKey n).Finite := by
  refine ⟨rfl, rfl, rfl, rfl, fun p hp => ?_⟩
  rw [List.eq_of_mem_replicate hp]
  rfl

theorem generatorProof_finite : generatorProof.Finite := ⟨rfl, rfl, rfl⟩

def negatedProof : Proof := ⟨g1Generator, g2Generator, .newUnchecked 1 (-(2 : ℕ))⟩

theorem negatedProof_finite : negatedProof.Finite := ⟨rfl, rfl, rfl⟩

theorem g1Decode_g1Generator : g1Decode g1Generator = 1 := by decide

theorem g2Decode_g2Generator : g2Decode g2Generator = 1 := by decide

/-- The points of the proof are in the image of the encoding. -/
def Proof.Encoded (proof : Proof) : Prop :=
  g1Ok discreteLog proof.a = true ∧ g2Ok discreteLog proof.b = true ∧
    g1Ok discreteLog proof.c = true

theorem generatorProof_encoded : generatorProof.Encoded := by
  refine ⟨?_, ?_, ?_⟩ <;> decide

theorem negatedProof_encoded : negatedProof.Encoded := by
  refine ⟨?_, ?_, ?_⟩ <;> decide

theorem pointsOk_generatorKey {proof : Proof} (hproof : proof.Encoded) (n : ℕ) :
    pointsOk discreteLog (generatorKey n) proof = true := by
  obtain ⟨ha, hb, hc⟩ := hproof
  have hg1 : g1Ok discreteLog g1Generator = true := by decide
  have hg2 : g2Ok discreteLog g2Generator = true := by decide
  simp [pointsOk, generatorKey, ha, hb, hc, hg1, hg2]

theorem sum_scalarAt (pub : List Fr) :
    ∑ i ∈ Finset.range pub.length, scalarAt pub i = pub.sum := by
  induction pub with
  | nil => rfl
  | cons x pub ih =>
      have htail : ∀ i, scalarAt (x :: pub) (i + 1) = scalarAt pub i := fun i => by simp [scalarAt]
      rw [List.length_cons, Finset.sum_range_succ', List.sum_cons, add_comm]
      simp only [htail, ih]
      rfl

theorem publicPoint_generator (pub : List Fr) :
    @Eq Fr (publicPoint discreteLogLawful (generatorKey pub.length).ic pub) (1 + pub.sum) := by
  have hone : ∀ i ≤ pub.length,
      @Eq Fr (coefficient discreteLogLawful (generatorKey pub.length).ic i) 1 := by
    intro i hi
    rw [coefficient, generatorKey, List.getElem?_replicate_of_lt (by omega)]
    exact g1Decode_g1Generator
  have hterm : ∀ i ∈ Finset.range pub.length,
      @Eq Fr ((scalarAt pub i).val • coefficient discreteLogLawful
        (generatorKey pub.length).ic (i + 1)) (scalarAt pub i) := by
    intro i hi
    rw [hone (i + 1) (Finset.mem_range.mp hi)]
    change (scalarAt pub i).val • (1 : Fr) = scalarAt pub i
    rw [nsmul_one, ZMod.natCast_zmod_val]
  rw [publicPoint, hone 0 (Nat.zero_le _), ← sum_scalarAt pub]
  exact congrArg (fun s : Fr => 1 + s) (Finset.sum_congr rfl hterm)

def requiredSum (proof : Proof) : Fr :=
  g1Decode proof.a * g2Decode proof.b - g1Decode proof.c - (2 : ℕ)

theorem equation_generatorKey (pub : List Fr) (proof : Proof) :
    Equation discreteLogLawful (generatorKey pub.length) pub proof ↔
      pub.sum = requiredSum proof := by
  have hexponent : ∀ point : Fr,
      @Eq Fr (publicPoint discreteLogLawful (generatorKey pub.length).ic pub) point →
      (Equation discreteLogLawful (generatorKey pub.length) pub proof ↔
        -g1Decode proof.a * g2Decode proof.b + point * g2Decode g2Generator
          + g1Decode proof.c * g2Decode g2Generator
          + g1Decode g1Generator * g2Decode g2Generator = 0) := by
    rintro point rfl
    exact Iff.rfl
  rw [hexponent _ (publicPoint_generator pub), g1Decode_g1Generator, g2Decode_g2Generator,
    requiredSum]
  constructor
  · intro h
    linear_combination h
  · intro h
    linear_combination h

theorem verifyGroth16_generatorKey {proof : Proof} (hproof : proof.Encoded) (n : ℕ)
    (pub : List Fr) :
    verifyGroth16 discreteLog (generatorKey n) pub proof
      = .ok (decide (pub.length = n ∧ pub.sum = requiredSum proof)) := by
  obtain ⟨verdict, hverdict, hiff⟩ :=
    verifyGroth16_eq discreteLogLawful (generatorKey n) pub proof
  have hic : (generatorKey n).ic.length = n + 1 := List.length_replicate
  rw [hverdict, Except.ok.injEq, Bool.eq_iff_iff, hiff, decide_eq_true_eq, hic]
  by_cases hn : pub.length = n
  · subst hn
    simp [pointsOk_generatorKey hproof, equation_generatorKey]
  · simp [hn]

/-- One vector with the sum the key of generators asks for, and one without. -/
theorem verifyGroth16_decides_generators :
    (∃ verdict, verifyGroth16 discreteLog (generatorKey 1) [-2] generatorProof = .ok verdict ∧
        verdict = true) ∧
      ∃ verdict, verifyGroth16 discreteLog (generatorKey 1) [0] generatorProof = .ok verdict ∧
        ¬ verdict = true := by
  have hsum : ∀ scalar : Fr, Equation discreteLogLawful (generatorKey 1) [scalar] generatorProof ↔
      [scalar].sum = requiredSum generatorProof :=
    fun scalar => equation_generatorKey [scalar] generatorProof
  obtain ⟨verdict, hverdict, htrue⟩ :=
    verifyGroth16_decides discreteLogLawful (generatorKey 1) [-2] generatorProof
  obtain ⟨verdict', hverdict', hfalse⟩ :=
    verifyGroth16_decides discreteLogLawful (generatorKey 1) [0] generatorProof
  rw [← equation_iff, hsum] at htrue hfalse
  have hvalid := (pointsOk_iff ..).mp (pointsOk_generatorKey generatorProof_encoded 1)
  refine ⟨⟨verdict, hverdict, htrue.mpr ⟨rfl, hvalid, by decide⟩⟩, verdict', hverdict', ?_⟩
  intro h
  exact absurd (hfalse.mp h).2.2 (by decide)

theorem verifyForVerdict_generatorKey {storage : Storage} {circuit : UInt32} {n : ℕ}
    {proof : Proof} (hproof : proof.Encoded) (hfinite : proof.Finite) (hcircuit : circuit ≤ 3)
    (hn : n < 256)
    (hraw : storage (.data (.verifyingKey circuit)) = some (vkBlob (generatorKey n) n))
    (pub : List Fr) :
    verifyForVerdict (verifyGroth16 discreteLog) storage circuit (proofBlob proof) (pubBlob pub)
      = .ok (decide (pub.length = n ∧ pub.sum = requiredSum proof)) := by
  rw [verifyForVerdict_blob _ hcircuit hraw (generatorKey_finite n) hn List.length_replicate
    hfinite, verifyGroth16_generatorKey hproof]

theorem proved_generatorKey {storage : Storage} {circuit : UInt32} {n : ℕ} {proof : Proof}
    (hproof : proof.Encoded) (hfinite : proof.Finite) (hcircuit : circuit ≤ 3) (hn : n < 256)
    (hraw : storage (.data (.verifyingKey circuit)) = some (vkBlob (generatorKey n) n))
    {pub : List Fr} (hlength : pub.length = n) (hsum : pub.sum = requiredSum proof) :
    Proved (verifyGroth16 discreteLog) storage circuit n (proofBlob proof) (pubBlob pub) := by
  rw [proved_iff _ hcircuit, verifyForVerdict_generatorKey hproof hfinite hcircuit hn hraw]
  exact ⟨by rw [length_pubBlob, hlength], by simp [hlength, hsum]⟩

theorem requiredSum_generatorProof : requiredSum generatorProof = -2 := by decide

theorem requiredSum_negatedProof : requiredSum negatedProof = 0 := by decide

theorem proved_generator {storage : Storage} {circuit : UInt32} {n : ℕ}
    (hcircuit : circuit ≤ 3) (hn : n < 256)
    (hraw : storage (.data (.verifyingKey circuit)) = some (vkBlob (generatorKey n) n))
    {pub : List Fr} (hlength : pub.length = n) (hsum : pub.sum = -2) :
    Proved (verifyGroth16 discreteLog) storage circuit n (proofBlob generatorProof)
      (pubBlob pub) :=
  proved_generatorKey generatorProof_encoded generatorProof_finite hcircuit hn hraw hlength
    (by rw [hsum, requiredSum_generatorProof])

theorem proved_negated {storage : Storage} {circuit : UInt32} {n : ℕ}
    (hcircuit : circuit ≤ 3) (hn : n < 256)
    (hraw : storage (.data (.verifyingKey circuit)) = some (vkBlob (generatorKey n) n))
    {pub : List Fr} (hlength : pub.length = n) (hsum : pub.sum = 0) :
    Proved (verifyGroth16 discreteLog) storage circuit n (proofBlob negatedProof)
      (pubBlob pub) :=
  proved_generatorKey negatedProof_encoded negatedProof_finite hcircuit hn hraw hlength
    (by rw [hsum, requiredSum_negatedProof])

def zeroAccount : Address := .account (Vector.replicate 32 0)

def generatorSetup (circuit : UInt32) (issuerAx issuerAy : Fr) : List Invocation :=
  [⟨⟨[zeroAccount]⟩, .setVerifyingKey circuit (vkBlob (generatorKey 4) 4)⟩,
    ⟨⟨[zeroAccount]⟩, .setIssuer (frToBytesn issuerAx) (frToBytesn issuerAy)⟩]

def credentialCall (circuit : UInt32) (proof : Proof) (pub : List Fr) : Invocation :=
  ⟨⟨[]⟩, .verifyCredential circuit (proofBlob proof) (pubBlob pub)⟩

def generatorSubmission (circuit : UInt32) (pub : List Fr) : Submission :=
  ⟨circuit, proofBlob generatorProof, pubBlob pub⟩

def generatorClaim (circuit : UInt32) (pub : List Fr) : Invocation :=
  ⟨⟨[zeroAccount]⟩, .claimFaucet zeroAccount circuit (proofBlob generatorProof) (pubBlob pub)⟩

/-! ### A submission that is accepted -/

/-- A nullifier, an issuer and a threshold that add up to what the key of generators asks for. -/
def sampleVector : List Fr := [(7 : ℕ), (11 : ℕ), -(38 : ℕ), (18 : ℕ)]

def sampleSetup : List Invocation := generatorSetup 3 (11 : ℕ) (-(38 : ℕ))

def sampleLedger : Ledger := Reached (verifyGroth16 discreteLog) zeroAccount sampleSetup

theorem sampleLedger_eq :
    sampleLedger = setupLedger zeroAccount 3 (vkBlob (generatorKey 4) 4) (frToBytesn (11 : ℕ))
      (frToBytesn (-(38 : ℕ))) :=
  reached_setup ..

theorem publicSignal_sampleVector {i : ℕ} {f : Fr} (h : sampleVector[i]? = some f) :
    publicSignal (pubBlob sampleVector) i = f := publicSignal_pubBlob h

theorem sample_accepted :
    Accepted (verifyGroth16 discreteLog) sampleLedger.storage 3 (proofBlob generatorProof)
      (pubBlob sampleVector) := by
  have hsum : sampleVector.sum = -2 := by decide
  rw [sampleLedger_eq]
  refine (accepted_credentialAge_iff ..).mpr ⟨proved_generator (by decide) (by decide)
    (setupLedger_key ..) rfl hsum, ⟨?_, ?_⟩, setupLedger_nullifier ..⟩
  · rw [setupLedger_issAx, publicSignal_sampleVector rfl]
  · rw [setupLedger_issAy, publicSignal_sampleVector rfl]

theorem sample_verified (env : Env) :
    (step (verifyGroth16 discreteLog) sampleLedger
      ⟨env, .verifyCredential 3 (proofBlob generatorProof) (pubBlob sampleVector)⟩).2
      = .ok (.bool true) :=
  (verifyCredential_eq_true_iff ..).mpr sample_accepted

theorem sample_claimed :
    (step (verifyGroth16 discreteLog) sampleLedger (generatorClaim 3 sampleVector)).2
      = .ok (.bool true) :=
  (claimFaucet_eq_true_iff ..).mpr ⟨List.mem_singleton_self zeroAccount, .inr rfl, sample_accepted⟩

end Veritas
