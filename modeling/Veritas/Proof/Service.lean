import Veritas.Deployment
import Veritas.Proof.Administration
import Veritas.Proof.Credential
import Veritas.Proof.Eligibility

/-!
# An honest holder is served

The other direction of soundness, from the issuer's signature to the answer of the contract. Once
the administrator has installed the key file and registered the printed issuer key, a holder of age
can complete the circuit, the script encodes the proof, and the contract accepts the blobs as long
as no accepted submission has spent the nullifier; whatever else was called in between makes no
difference.
-/

namespace Veritas

variable (groth16 : Groth16)

/-! ### What the scripts write -/

theorem bigInt_toStr (e : Fr) : bigInt (toStr e) = e.val := bigInt_ofNat e.val

/-- The printed issuer key spells the bytes the contract compares with. -/
theorem decode_onchainHex (coord : Fr) :
    Hex.decode (onchainHex (toStr coord)) = (frToBytesn coord).toList := by
  rw [onchainHex, bigInt_toStr, toList_frToBytesn, List.leftpad]
  exact Hex.decode_padded (by omega) (val_lt_pow coord)

theorem toList_eq_decode_iff {coord : Fr} {key : BytesN 32} :
    Hex.decode (onchainHex (toStr coord)) = key.toList ↔ key = frToBytesn coord := by
  rw [decode_onchainHex, Vector.toList_inj, eq_comm]

theorem publicJson_value (w : CredentialAge Fr) :
    (publicJson w).map (fun s => (bigInt s : Fr)) = w.publicSignals := by
  rw [publicJson, List.map_map]
  refine (List.map_congr_left fun f _ => ?_).trans (List.map_id _)
  rw [Function.comp_apply, bigInt_toStr, ZMod.natCast_rightInverse, id]

theorem prove_eq {snark : CredentialAge Fr → ProofJson} {vkey : VkeyJson} {w : CredentialAge Fr}
    (hvkey : vkey.Reduced) (hproof : (snark w).Reduced) :
    prove snark vkey w
      = .ok ⟨proofBlob (snark w).value, pubBlob w.publicSignals, vkBlob vkey.value 4⟩ := by
  have hpub : ∀ s ∈ publicJson w, bigInt s < frModulus := by
    intro s hs
    obtain ⟨f, -, rfl⟩ := List.mem_map.mp hs
    rw [bigInt_toStr]
    exact ZMod.val_lt f
  rw [prove, proofToBytes, proofBin_eq hproof, pubBin_eq hpub, vkBin_eq hvkey, publicJson_value]
  rfl

/-! ### The assignment of a holder -/

theorem HolderInput.assign_satisfied_iff {lib : Circomlib Fr} (hlib : lib.Comparators)
    {input : HolderInput} (hage : input.age < 2 ^ 16) (hthreshold : input.threshold < 2 ^ 16)
    (hsigned : lib.eddsaPoseidonVerifier 1 input.issuerAx input.issuerAy input.sigS input.sigR8x
      input.sigR8y (lib.poseidon [(input.age : Fr), input.holderSecret])) :
    (input.assign lib).Satisfied lib ↔ input.threshold ≤ input.age := by
  have hcompare : lib.greaterEqThan 16 (input.age : Fr) (input.threshold : Fr) 1 ↔
      input.threshold ≤ input.age := by
    have hsucc : (input.age : Fr) + 1 = ((input.age + 1 : ℕ) : Fr) := by push_cast; rfl
    rw [hlib.greaterEqThan, hsucc, hlib.lessThan_nat le_rfl hthreshold (by omega)]
    split_ifs with h
    · simp only [true_iff]
      omega
    · simp only [one_ne_zero, false_iff]
      omega
  constructor
  · intro hw
    exact hcompare.mp hw.ge
  · intro h
    exact ⟨rfl, hsigned, hcompare.mpr h, rfl, rfl, rfl⟩

/-! ### What a run has spent -/

theorem unspent_reached_iff (admin : Address) (invocations : List Invocation) (nullifier : Fr) :
    Unspent (Reached groth16 admin invocations).storage nullifier ↔
      ∀ entry ∈ History groth16 admin invocations, spentNullifier entry ≠ some nullifier := by
  rw [unspent_iff_notMem_spentKeys,
    ((nullifier_singleUse groth16).run (genesis admin) invocations).1, spentKeys_genesis,
    Set.empty_union, Set.mem_ofPred_eq, List.mem_filterMap]
  constructor
  · intro h entry hentry hspent
    exact h ⟨entry, hentry, by rw [hspent, Option.map_some]⟩
  · rintro h ⟨entry, hentry, hkey⟩
    obtain ⟨n, hn, hbytes⟩ := Option.map_eq_some_iff.mp hkey
    rw [frToBytesn_injective hbytes] at hn
    exact h entry hentry hn

/-- A submission that passes every other check is answered by the nullifier's state. -/
theorem credentialVerdict_of_eligible {storage : Storage} {circuit : UInt32} {proof pub : Bytes}
    (h : Eligible groth16 storage circuit proof pub) :
    credentialVerdict groth16 storage circuit proof pub
      = .ok (nullifierFresh storage (cid circuit) pub) := by
  rw [credentialVerdict, if_pos ⟨h.circuit_le, h.length⟩, h.verified, h.flag, h.issuer, h.root]
  rfl

/-- Whoever may submit the blobs gets the same answer, directly or through the faucet. -/
theorem output_of_submission (ledger : Ledger) {invocation : Invocation} {proof pub : Bytes}
    (hinvocation : invocation.IsSubmission)
    (hsubmission : invocation.call.submission = some ⟨3, proof, pub⟩) :
    (step groth16 ledger invocation).2
      = .bool <$> credentialVerdict groth16 ledger.storage 3 proof pub := by
  obtain ⟨env, call⟩ := invocation
  cases call with
  | verifyCredential circuit proof pub =>
      cases hsubmission
      rw [output_verifyCredential]
  | claimFaucet recipient circuit proof pub =>
      cases hsubmission
      have hauth : recipient ∈ env.authorized := hinvocation
      rw [output_claimFaucet, faucetVerdict, if_pos hauth]
      rfl
  | _ => cases hsubmission

theorem storedIssuer_eq_some_iff {storage : Storage} {ax ay : BytesN 32} :
    storedIssuer storage = some (ax, ay) ↔ storage .issAx = some ax ∧ storage .issAy = some ay := by
  unfold storedIssuer
  cases storage .issAx <;> cases storage .issAy <;> simp

/-! ### Service -/

/-- snarkjs proves every satisfying assignment, with reduced coordinates. -/
def SnarkComplete (lib : Circomlib Fr) (vkey : VkeyJson) (snark : CredentialAge Fr → ProofJson) :
    Prop :=
  ∀ w : CredentialAge Fr, w.Satisfied lib →
    (snark w).Reduced ∧ groth16 vkey.value w.publicSignals (snark w).value = .ok true

theorem eligible_honest {lib : Circomlib Fr} {vkey : VkeyJson}
    {snark : CredentialAge Fr → ProofJson} (hic : vkey.ic.length = 5)
    (hcomplete : SnarkComplete groth16 lib vkey snark) {storage : Storage} {w : CredentialAge Fr}
    (hw : w.Satisfied lib) (hkey : storage (.data (.verifyingKey 3)) = some (vkBlob vkey.value 4))
    (hax : storage .issAx = some (frToBytesn w.issuerAx))
    (hay : storage .issAy = some (frToBytesn w.issuerAy)) :
    Eligible groth16 storage 3 (proofBlob (snark w).value) (pubBlob w.publicSignals) := by
  have hkeys : vkey.value.ic.length = 4 + 1 := by
    rw [VkeyJson.value, List.length_map, hic]
  have hverdict := verifyForVerdict_blob groth16 (by decide) hkey vkey.value_finite (by omega)
    hkeys (snark w).value_finite w.publicSignals
  have hx : publicSignal (pubBlob w.publicSignals) 1 = w.issuerAx := publicSignal_pubBlob rfl
  have hy : publicSignal (pubBlob w.publicSignals) 2 = w.issuerAy := publicSignal_pubBlob rfl
  have hmatches : IssuerMatches storage (publicSignal (pubBlob w.publicSignals) 1)
      (publicSignal (pubBlob w.publicSignals) 2) := by
    rw [hx, hy]
    exact ⟨hax, hay⟩
  exact {
    circuit_le := by decide
    length := length_pubBlob w.publicSignals
    verified := hverdict.trans (hcomplete w hw).2
    flag := rfl
    issuer := (issuerVerdict_eq_true_iff rfl).mpr hmatches
    root := rfl }

/-- The proof with the first and the last point chosen to meet the equation of the generators. -/
def exponentProof (pub : List Fr) : Proof :=
  if pub.sum = -(3 : ℕ) then ⟨g1Encode (-(2 : ℕ)), g2Generator, g1Encode (-1)⟩
  else ⟨g1Encode (pub.sum + (3 : ℕ)), g2Generator, g1Generator⟩

def g1Json (p : G1Affine) : G1Json := ⟨.ofNat p.x.val, .ofNat p.y.val⟩

def g2Json (p : G2Affine) : G2Json :=
  ⟨(.ofNat p.x.c0.val, .ofNat p.x.c1.val), (.ofNat p.y.c0.val, .ofNat p.y.c1.val)⟩

def exponentSnark (w : CredentialAge Fr) : ProofJson :=
  let proof := exponentProof w.publicSignals
  ⟨g1Json proof.a, g2Json proof.b, g1Json proof.c⟩

def generatorVkey : VkeyJson :=
  ⟨g1GeneratorJson, g2GeneratorJson, g2GeneratorJson, g2GeneratorJson,
    List.replicate 5 g1GeneratorJson⟩

theorem g1Json_reduced (p : G1Affine) : (g1Json p).Reduced := by
  constructor <;> simp [g1Json, ZMod.val_lt]

theorem g2Json_reduced (p : G2Affine) : (g2Json p).Reduced := by
  constructor <;> simp [g2Json, ZMod.val_lt]

theorem g1Json_point {p : G1Affine} (h : p.infinity = false) : (g1Json p).point = p := by
  obtain ⟨x, y, infinity⟩ := p
  cases h
  simp [g1Json, G1Json.point, G1Affine.newUnchecked]

theorem g2Json_point {p : G2Affine} (h : p.infinity = false) : (g2Json p).point = p := by
  obtain ⟨⟨x0, x1⟩, ⟨y0, y1⟩, infinity⟩ := p
  cases h
  simp [g2Json, G2Json.point, G2Affine.newUnchecked]

theorem generatorVkey_reduced : generatorVkey.Reduced :=
  ⟨g1GeneratorJson_reduced, g2GeneratorJson_reduced, g2GeneratorJson_reduced,
    g2GeneratorJson_reduced, by simp [generatorVkey, g1GeneratorJson_reduced]⟩

theorem generatorVkey_value : generatorVkey.value = generatorKey 4 := by
  have hg1 : g1GeneratorJson.point = g1Generator := by
    simp [G1Json.point, g1GeneratorJson, g1Generator]
  have hg2 : g2GeneratorJson.point = g2Generator := by
    simp [G2Json.point, g2GeneratorJson, g2Generator]
  rw [VkeyJson.value, generatorKey, generatorVkey, List.map_replicate, hg1, hg2]

theorem exponentProof_finite (pub : List Fr) : (exponentProof pub).Finite := by
  rw [exponentProof]
  split_ifs with hsum
  · exact ⟨by rw [infinity_g1Encode]; decide, rfl, by rw [infinity_g1Encode]; decide⟩
  · refine ⟨?_, rfl, rfl⟩
    rw [infinity_g1Encode, decide_eq_false_iff_not]
    intro hzero
    exact hsum (eq_neg_of_add_eq_zero_left hzero)

theorem exponentProof_encoded (pub : List Fr) : (exponentProof pub).Encoded := by
  rw [exponentProof]
  split_ifs
  · exact ⟨g1Ok_g1Encode _, generatorProof_encoded.2.1, g1Ok_g1Encode _⟩
  · exact ⟨g1Ok_g1Encode _, generatorProof_encoded.2⟩

theorem requiredSum_exponentProof (pub : List Fr) :
    requiredSum (exponentProof pub) = pub.sum := by
  rw [exponentProof, requiredSum]
  split_ifs with hsum
  · rw [hsum, g1Decode_g1Encode, g1Decode_g1Encode, g2Decode_g2Generator]
    decide
  · rw [g1Decode_g1Encode, g1Decode_g1Generator, g2Decode_g2Generator]
    push_cast
    ring

theorem exponentSnark_value (w : CredentialAge Fr) :
    (exponentSnark w).value = exponentProof w.publicSignals := by
  have hfinite := exponentProof_finite w.publicSignals
  rw [exponentSnark, ProofJson.value, g1Json_point hfinite.a, g2Json_point hfinite.b,
    g1Json_point hfinite.c]

theorem exponentSnark_reduced (w : CredentialAge Fr) : (exponentSnark w).Reduced :=
  ⟨g1Json_reduced _, g2Json_reduced _, g1Json_reduced _⟩

theorem exponentSnark_complete (lib : Circomlib Fr) :
    SnarkComplete (verifyGroth16 discreteLog) lib generatorVkey exponentSnark := by
  intro w _
  refine ⟨exponentSnark_reduced w, ?_⟩
  rw [generatorVkey_value, exponentSnark_value,
    verifyGroth16_generatorKey (exponentProof_encoded _), requiredSum_exponentProof,
    decide_eq_true ⟨rfl, rfl⟩]

def adultInput : HolderInput := ⟨25, (7 : ℕ), 0, 0, 0, (11 : ℕ), (12 : ℕ), 18⟩

theorem adultInput_signed :
    (Circomlib.summed [32]).eddsaPoseidonVerifier 1 adultInput.issuerAx adultInput.issuerAy
      adultInput.sigS adultInput.sigR8x adultInput.sigR8y
      ((Circomlib.summed [32]).poseidon [(adultInput.age : Fr), adultInput.holderSecret]) := by
  have hmessage : (Circomlib.summed [32]).poseidon [(adultInput.age : Fr), adultInput.holderSecret]
      = 32 := by decide
  rw [hmessage]
  exact List.mem_singleton_self 32

end Veritas
