import Veritas.Proof.Frame

/-!
# The nullifier ledger

A nullifier is a single-use token of the contract. `verifyCredential` is the only code that writes
the entries, it writes the one its check just found absent, and the key is the canonical encoding of
a scalar; so over a whole run the stored keys are the nullifiers of the accepted submissions, each
used by one of them.
-/

namespace Veritas

variable (groth16 : Groth16)

def spentKeys (ledger : Ledger) : Set (BytesN 32) :=
  {key | (ledger.storage (.data (.nullifier key))).isSome}

theorem spentNullifier_of_accepted {entry : Entry} {submission : Submission}
    (h : accepted entry = some submission) :
    spentNullifier entry = if submission.circuit = 1 ∨ submission.circuit = 3 then
      some (publicSignal submission.pub 0) else none := by
  simp [spentNullifier, h, publicSignal]

theorem spentKeys_spend {ledger : Ledger} {circuit : UInt32} {pub : Bytes} (h : circuit ≤ 3) :
    spentKeys (ledger.spend (cid circuit) pub) = if circuit = 1 ∨ circuit = 3 then
      insert (frToBytesn (publicSignal pub 0)) (spentKeys ledger) else spentKeys ledger := by
  rw [Ledger.spend, nullifierIndex_cid h]
  by_cases hcircuit : circuit = 1 ∨ circuit = 3
  swap
  · simp [hcircuit]
  rw [if_pos hcircuit, if_pos hcircuit]
  ext key
  by_cases hkey : key = frToBytesn (publicSignal pub 0)
  · subst hkey
    simp [spentKeys]
  · have hne : StorageKey.data (.nullifier key)
        ≠ .data (.nullifier (frToBytesn (publicSignal pub 0))) := by simpa using hkey
    simp [spentKeys, hkey, Ledger.set_storage_of_ne _ _ _ hne]

theorem spentKeys_congr {ledger other : Ledger}
    (h : ∀ key, ledger.storage (.data (.nullifier key)) = other.storage (.data (.nullifier key))) :
    spentKeys ledger = spentKeys other := by
  ext key
  simp [spentKeys, h key]

theorem nullifier_singleUse :
    Machine.SingleUse (step groth16) (fun entry => (spentNullifier entry).map frToBytesn)
      spentKeys where
  unused {ledger invocation} htoken := by
    rw [Option.map_eq_none_iff] at htoken
    cases haccepted : accepted (Machine.record (step groth16) ledger invocation) with
    | none => exact spentKeys_congr (nullifier_frame groth16 haccepted)
    | some submission =>
        obtain ⟨hchecks, hpost⟩ := accepted_step groth16 haccepted
        rw [spentNullifier_of_accepted haccepted] at htoken
        have hcircuit : ¬ (submission.circuit = 1 ∨ submission.circuit = 3) := by
          intro hcircuit
          rw [if_pos hcircuit] at htoken
          cases htoken
        rw [spentKeys_congr hpost, spentKeys_spend hchecks.circuit_le, if_neg hcircuit]
  used {ledger invocation key} htoken := by
    obtain ⟨n, hn, rfl⟩ := Option.map_eq_some_iff.mp htoken
    cases haccepted : accepted (Machine.record (step groth16) ledger invocation) with
    | none =>
        rw [spentNullifier, haccepted] at hn
        cases hn
    | some submission =>
        obtain ⟨hchecks, hpost⟩ := accepted_step groth16 haccepted
        rw [spentNullifier_of_accepted haccepted] at hn
        split at hn
        swap
        · cases hn
        next hcircuit =>
          cases hn
          refine ⟨?_, ?_⟩
          · simp [spentKeys, hchecks.unspent groth16 hcircuit]
          · rw [spentKeys_congr hpost, spentKeys_spend hchecks.circuit_le, if_pos hcircuit]

theorem unspent_iff_notMem_spentKeys {ledger : Ledger} {nullifier : Fr} :
    Unspent ledger.storage nullifier ↔ frToBytesn nullifier ∉ spentKeys ledger := by
  simp [Unspent, spentKeys]

theorem spent_of_accepted {ledger : Ledger} {invocation : Invocation} {submission : Submission}
    (h : accepted (Machine.record (step groth16) ledger invocation) = some submission)
    (hcircuit : submission.circuit = 1 ∨ submission.circuit = 3) :
    ¬ Unspent (step groth16 ledger invocation).1.storage (publicSignal submission.pub 0) := by
  have htoken := spentNullifier_of_accepted h
  rw [if_pos hcircuit] at htoken
  rw [unspent_iff_notMem_spentKeys, not_not, (nullifier_singleUse groth16).spent_step_iff]
  right
  rw [htoken, Option.map_some]

theorem spentKeys_genesis (admin : Address) : spentKeys (genesis admin) = ∅ := by
  ext key
  have hne : StorageKey.data (.nullifier key) ≠ .admin := by simp
  simp [spentKeys, genesis, Ledger.set_storage_of_ne _ _ _ hne, Ledger.empty]

theorem nullifier_unique {admin : Address} {invocations : List Invocation} {i j : ℕ}
    {ei ej : Entry} {n : Fr} (hi : (History groth16 admin invocations)[i]? = some ei)
    (hni : spentNullifier ei = some n) (hj : (History groth16 admin invocations)[j]? = some ej)
    (hnj : spentNullifier ej = some n) : i = j :=
  (nullifier_singleUse groth16).unique (genesis admin) invocations hi
    (by rw [hni, Option.map_some]) hj (by rw [hnj, Option.map_some])

/-- **The nullifier ledger is exact and single-use.** After any run the stored nullifier keys are
the canonical encodings of the nullifiers of the accepted submissions, and each of these nullifiers
belongs to one step of the run. -/
theorem nullifier_ledger_exact (admin : Address) (invocations : List Invocation) :
    (∀ key : BytesN 32,
      ((Reached groth16 admin invocations).storage (.data (.nullifier key))).isSome ↔
        ∃ entry ∈ History groth16 admin invocations, ∃ n : Fr,
          spentNullifier entry = some n ∧ key.toList = BigEndian.encode 32 n.val) ∧
      ∀ n : Fr, (∃ entry ∈ History groth16 admin invocations, spentNullifier entry = some n) →
        ∃! i : ℕ, ∃ entry, (History groth16 admin invocations)[i]? = some entry ∧
          spentNullifier entry = some n := by
  constructor
  · intro key
    have hexact : key ∈ spentKeys (Reached groth16 admin invocations) ↔
        key ∈ (History groth16 admin invocations).filterMap
          (fun entry => (spentNullifier entry).map frToBytesn) := by
      rw [((nullifier_singleUse groth16).run (genesis admin) invocations).1, spentKeys_genesis,
        Set.empty_union]
      rfl
    refine hexact.trans ?_
    rw [List.mem_filterMap]
    refine exists_congr fun entry => and_congr_right fun _ => ?_
    rw [Option.map_eq_some_iff]
    refine exists_congr fun n => and_congr_right fun _ => ?_
    rw [← toList_frToBytesn, eq_comm, Vector.toList_inj]
  · rintro n ⟨entry, hmem, hn⟩
    obtain ⟨i, hi⟩ := List.mem_iff_getElem?.mp hmem
    refine ⟨i, ⟨entry, hi, hn⟩, ?_⟩
    rintro j ⟨other, hj, hother⟩
    exact nullifier_unique groth16 hj hother hi hn

theorem nullifier_ledger_exact_sample :
    ((Reached (verifyGroth16 discreteLog) zeroAccount
        (sampleSetup ++ [credentialCall 3 generatorProof sampleVector])).storage
          (.data (.nullifier (frToBytesn (7 : ℕ))))).isSome ∧
      ∃! i : ℕ, ∃ entry, (History (verifyGroth16 discreteLog) zeroAccount
          (sampleSetup ++ [credentialCall 3 generatorProof sampleVector]))[i]? = some entry ∧
        spentNullifier entry = some (7 : ℕ) := by
  obtain ⟨hkeys, hunique⟩ := nullifier_ledger_exact (verifyGroth16 discreteLog) zeroAccount
    (sampleSetup ++ [credentialCall 3 generatorProof sampleVector])
  have hentry := List.mem_of_getElem? (Machine.getElem?_history (step (verifyGroth16 discreteLog))
    (genesis zeroAccount) sampleSetup [] (credentialCall 3 generatorProof sampleVector))
  have haccepted := (accepted_verifyCredential_iff (verifyGroth16 discreteLog) ⟨[]⟩ sampleLedger 3
    (proofBlob generatorProof) (pubBlob sampleVector) _).mpr ⟨rfl, sample_accepted⟩
  have hspent := spentNullifier_of_accepted haccepted
  rw [if_pos (.inr rfl), publicSignal_sampleVector rfl] at hspent
  exact ⟨(hkeys _).mpr ⟨_, hentry, _, hspent, toList_frToBytesn _⟩, hunique _ ⟨_, hentry, hspent⟩⟩

end Veritas
