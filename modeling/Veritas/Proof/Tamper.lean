import Veritas.DiscreteLog

/-!
# Tamper evidence

An accepted proof is accepted for one vector of public inputs up to a change of several signals: the
pairing equation fixes the value of the linear form, no coefficient of the form is zero, and so no
single signal can be changed. On the wire this says that a public blob may be altered within a
32-byte chunk only between encodings of one residue.
-/

namespace Veritas

variable {curve : Bn254}

theorem publicPoint_eq_of_accepted (lawful : curve.Lawful) {vk : VerifyingKey} {proof : Proof}
    {s t : List Scalar} (hgamma : vk.gammaG2.infinity = false)
    (hs : verifyGroth16 curve vk s proof = .ok true)
    (ht : verifyGroth16 curve vk t proof = .ok true) :
    publicPoint lawful vk.ic s = publicPoint lawful vk.ic t := by
  obtain ⟨verdict, hverdict, hiff⟩ := verifyGroth16_eq lawful vk s proof
  rw [hs, Except.ok.injEq] at hverdict
  obtain ⟨-, hpoints, hequation⟩ := hiff.mp hverdict.symm
  obtain ⟨verdict', hverdict', hiff'⟩ := verifyGroth16_eq lawful vk t proof
  rw [ht, Except.ok.injEq] at hverdict'
  obtain ⟨-, -, hequation'⟩ := hiff'.mp hverdict'.symm
  have hok : g2Ok curve vk.gammaG2 = true := by
    simp only [pointsOk, Bool.and_eq_true] at hpoints
    exact hpoints.1.1.1.1.1.2
  have hne : lawful.element₂ vk.gammaG2 ≠ 0 := by
    intro hzero
    rw [lawful.element₂_eq_zero_iff hok, hgamma] at hzero
    cases hzero
  rw [Equation, ← hequation'] at hequation
  have hcancel := mul_left_cancel (mul_right_cancel (mul_right_cancel hequation))
  exact lawful.pairing.left_injective lawful.card₁ lawful.card₂ hne hcancel

/-- **One signal cannot be changed.** Vectors that agree off an index are accepted with the same
proof only if they agree there too. -/
theorem verifyGroth16_tamper (lawful : curve.Lawful) {vk : VerifyingKey} {proof : Proof}
    {s t : List Scalar} (hfinite : vk.Finite) (hlength : t.length = s.length) {j : ℕ}
    (hj : j < s.length) (hagree : ∀ i, i ≠ j → scalarAt t i = scalarAt s i)
    (hs : verifyGroth16 curve vk s proof = .ok true) :
    verifyGroth16 curve vk t proof = .ok (decide (scalarAt t j = scalarAt s j)) := by
  by_cases hsame : scalarAt t j = scalarAt s j
  · have hts : t = s := by
      refine List.ext_getElem hlength fun i hit his => ?_
      have hi : scalarAt t i = scalarAt s i := by
        by_cases hij : i = j
        · rw [hij, hsame]
        · exact hagree i hij
      simpa [scalarAt, hit, his] using hi
    rw [hts, hs]
    simp
  · obtain ⟨verdict, hverdict, -⟩ := verifyGroth16_eq lawful vk t proof
    cases verdict with
    | false => simpa [hsame] using hverdict
    | true =>
        exfalso
        apply hsame
        have hpoint := publicPoint_eq_of_accepted lawful hfinite.gammaG2 hverdict hs
        obtain ⟨_, hs', hiff⟩ := verifyGroth16_eq lawful vk s proof
        rw [hs, Except.ok.injEq] at hs'
        obtain ⟨hic, hpoints, -⟩ := hiff.mp hs'.symm
        have hvalid : ∀ p ∈ vk.ic, g1Ok curve p = true := by
          simp only [pointsOk, Bool.and_eq_true, List.all_eq_true] at hpoints
          exact hpoints.2
        have hjic : j + 1 < vk.ic.length := by omega
        have hne : coefficient lawful vk.ic (j + 1) ≠ 0 := by
          have hmem : vk.ic[j + 1] ∈ vk.ic := List.getElem_mem hjic
          intro hzero
          simp only [coefficient, List.getElem?_eq_getElem hjic, Option.map_some,
            Option.getD_some] at hzero
          rw [lawful.element₁_eq_zero_iff (hvalid _ hmem), hfinite.ic _ hmem] at hzero
          cases hzero
        rw [publicPoint, publicPoint, hlength] at hpoint
        exact Pairing.eq_of_linear_form_eq lawful.card₁ _ hj hne hagree (add_left_cancel hpoint)

/-! ### On the wire -/

def replaceChunk (pub : Bytes) (j : ℕ) (chunk : Bytes) : Bytes :=
  pub.take (j * 32) ++ chunk ++ pub.drop ((j + 1) * 32)

section ReplaceChunk

variable {pub chunk : Bytes} {j : ℕ}

theorem length_replaceChunk (hj : j < pub.length / 32) (hchunk : chunk.length = 32) :
    (replaceChunk pub j chunk).length = pub.length := by
  rw [replaceChunk, List.length_append, List.length_append, List.length_take, List.length_drop,
    hchunk]
  omega

theorem publicSignal_replaceChunk (hj : j < pub.length / 32) (hchunk : chunk.length = 32) (i : ℕ) :
    publicSignal (replaceChunk pub j chunk) i
      = if i = j then fromBeBytesModOrder frModulus chunk else publicSignal pub i := by
  have hprefix : (pub.take (j * 32)).length = j * 32 := by
    rw [List.length_take]
    omega
  rw [publicSignal, replaceChunk, List.append_assoc]
  rcases Nat.lt_trichotomy i j with hij | rfl | hij
  · rw [if_neg (by omega), publicSignal, Cursor.window_append_left _ (by omega)]
    conv_rhs => rw [← List.take_append_drop (j * 32) pub]
    rw [Cursor.window_append_left _ (by omega)]
  · rw [if_pos rfl, Cursor.window_append_right _ (by omega), hprefix, Nat.sub_self,
      Cursor.window_append_left _ (by omega), Cursor.window_self hchunk]
  · rw [if_neg (by omega), publicSignal, Cursor.window_append_right _ (by omega), hprefix,
      Cursor.window_append_right _ (by omega), hchunk, Cursor.window, Cursor.window, List.drop_drop]
    congr 3
    omega

end ReplaceChunk

/-- **Single-signal tamper evidence.** With the proof fixed and one 32-byte chunk of an accepted
public blob replaced, `verifyFor` accepts again exactly when the residue is the same. -/
theorem verifyFor_tamper (lawful : curve.Lawful) (ledger : Ledger) (circuit : UInt32)
    (proof pub : Bytes)
    (haccept : (verifyFor (verifyGroth16 curve) circuit proof pub).run ledger = .ok (true, ledger))
    (j : ℕ) (hj : j < pub.length / 32) (chunk : Bytes) (hchunk : chunk.length = 32) :
    (verifyFor (verifyGroth16 curve) circuit proof (replaceChunk pub j chunk)).run ledger
      = .ok (decide (fromBeBytesModOrder frModulus chunk = publicSignal pub j), ledger) := by
  have hverdict : verifyForVerdict (verifyGroth16 curve) ledger.storage circuit proof pub
      = .ok true := by
    rw [verifyFor_run] at haccept
    cases hv : verifyForVerdict (verifyGroth16 curve) ledger.storage circuit proof pub with
    | error trap => simp [hv] at haccept
    | ok verdict => simpa [hv] using haccept
  obtain ⟨hcircuit, hproof, hpub, raw, vk, hraw, hvk, hgroth16⟩ :=
    (verifyForVerdict_eq_true_iff ..).mp hverdict
  have hlength := length_replaceChunk hj hchunk
  have hscalar : ∀ i < pub.length / 32,
      ∀ blob : Bytes, scalarAt (publicSignals blob (pub.length / 32)) i = publicSignal blob i := by
    intro i hi blob
    rw [scalarAt, getElem?_publicSignals blob hi, Option.getD_some]
  have hagree : ∀ i, i ≠ j → scalarAt (publicSignals (replaceChunk pub j chunk) (pub.length / 32)) i
      = scalarAt (publicSignals pub (pub.length / 32)) i := by
    intro i hij
    by_cases hi : i < pub.length / 32
    · rw [hscalar i hi, hscalar i hi, publicSignal_replaceChunk hj hchunk, if_neg hij]
    · simp [scalarAt, publicSignals, hi]
  have htamper := verifyGroth16_tamper lawful (parseVk_finite hvk) (by simp) (by simpa using hj)
    hagree hgroth16
  rw [hscalar j hj, hscalar j hj, publicSignal_replaceChunk hj hchunk, if_pos rfl] at htamper
  rw [verifyFor_run, verifyForVerdict, if_pos ⟨hcircuit, hproof, by rw [hlength, hpub]⟩,
    groth16Verdict, hraw, hlength]
  simp only [hvk, ok_bind, htamper, map_ok]

def generatorLedger : Ledger :=
  Ledger.empty.set (.data (.verifyingKey 0)) (vkBlob (generatorKey 1) 1)

theorem verifyFor_tamper_generator :
    (verifyFor (verifyGroth16 discreteLog) 0 (proofBlob generatorProof) (pubBlob [-2])).run
        generatorLedger = .ok (true, generatorLedger) ∧
      (verifyFor (verifyGroth16 discreteLog) 0 (proofBlob generatorProof)
          (replaceChunk (pubBlob [-2]) 0 (BigEndian.encode 32 0))).run generatorLedger
        = .ok (false, generatorLedger) := by
  have haccept : (verifyFor (verifyGroth16 discreteLog) 0 (proofBlob generatorProof)
      (pubBlob [-2])).run generatorLedger = .ok (true, generatorLedger) := by
    have hraw : generatorLedger.storage (.data (.verifyingKey 0))
        = some (vkBlob (generatorKey 1) 1) := Ledger.set_storage_self ..
    rw [verifyFor_run, verifyForVerdict_generatorKey generatorProof_encoded generatorProof_finite
      (by decide) (by omega) hraw, requiredSum_generatorProof]
    simp
  refine ⟨haccept, ?_⟩
  have hzero : fromBeBytesModOrder frModulus (BigEndian.encode 32 0) = 0 := by
    rw [fromBeBytesModOrder, BigEndian.toNat_encode]
    simp
  have hminus : publicSignal (pubBlob [-2]) 0 = -2 := by
    have hsignals := publicSignals_pubBlob [-2]
    simpa [publicSignals] using hsignals
  have htamper := verifyFor_tamper discreteLogLawful generatorLedger 0 (proofBlob generatorProof)
    (pubBlob [-2]) haccept 0 (by simp) (BigEndian.encode 32 0) (by simp)
  rw [hzero, hminus] at htamper
  rw [htamper]
  have hne : (0 : Fr) ≠ -2 := by decide
  simp [hne]

end Veritas
