import Veritas.DiscreteLog
import Veritas.Proof.Comparators
import Veritas.Proof.Replay

/-!
# What an accepted credential proof means

Knowledge soundness turns an accepted public vector into an assignment of the circuit, the layout
says which signal stands where, and the checks after the pairing tie those signals to the ledger.
For the flagship circuit the three together give the statement the contract is there for.
-/

namespace Veritas

variable (groth16 : Groth16)

/-- Acceptance under the key implies that the statement holds of the public vector. -/
def KnowledgeSound (vk : VerifyingKey) (statement : List Fr → Prop) : Prop :=
  ∀ pub proof, groth16 vk pub proof = .ok true → statement pub

def InstalledSound (storage : Storage) (circuit : UInt32) (statement : List Fr → Prop) : Prop :=
  ∀ raw vk, storage (.data (.verifyingKey circuit)) = some raw → parseVk raw = .ok vk →
    KnowledgeSound groth16 vk statement

/-- Acceptance of one vector under the installed key implies that the statement holds of it. -/
def SoundFor (storage : Storage) (circuit : UInt32) (statement : List Fr → Prop)
    (pub : List Fr) : Prop :=
  ∀ raw vk proof, storage (.data (.verifyingKey circuit)) = some raw → parseVk raw = .ok vk →
    groth16 vk pub proof = .ok true → statement pub

def CredentialAge.Provable (lib : Circomlib Fr) (pub : List Fr) : Prop :=
  ∃ w : CredentialAge Fr, w.Satisfied lib ∧ w.publicSignals = pub

def restrict (vectors : List (List Fr)) : Groth16 := fun vk pub proof => do
  let verdict ← groth16 vk pub proof
  return verdict && decide (pub ∈ vectors)

theorem restrict_eq_true_iff {vectors : List (List Fr)} {vk : VerifyingKey} {pub : List Fr}
    {proof : Proof} :
    restrict groth16 vectors vk pub proof = .ok true ↔
      groth16 vk pub proof = .ok true ∧ pub ∈ vectors := by
  rw [restrict]
  rcases groth16 vk pub proof with trap | _ | _ <;> simp

theorem restrict_installedSound {vectors : List (List Fr)} {statement : List Fr → Prop}
    (h : ∀ pub ∈ vectors, statement pub) (storage : Storage) (circuit : UInt32) :
    InstalledSound (restrict groth16 vectors) storage circuit statement := by
  intro raw vk _ _ pub proof haccepted
  exact h pub ((restrict_eq_true_iff groth16).mp haccepted).2

theorem Proved.restrict {storage : Storage} {circuit : UInt32} {n : ℕ} {proof pub : Bytes}
    {vectors : List (List Fr)} (h : Proved groth16 storage circuit n proof pub)
    (hmem : publicSignals pub n ∈ vectors) :
    Proved (restrict groth16 vectors) storage circuit n proof pub := by
  obtain ⟨raw, vk, hraw, hvk, haccepted⟩ := h.key
  exact ⟨h.proof_length, h.pub_length, raw, vk, hraw, hvk,
    (restrict_eq_true_iff groth16).mpr ⟨haccepted, hmem⟩⟩

theorem InstalledSound.soundFor {storage : Storage} {circuit : UInt32}
    {statement : List Fr → Prop} (h : InstalledSound groth16 storage circuit statement)
    (pub : List Fr) : SoundFor groth16 storage circuit statement pub := by
  intro raw vk proof hraw hvk haccepted
  exact h raw vk hraw hvk pub proof haccepted

theorem Proved.statement {storage : Storage} {circuit : UInt32} {n : ℕ} {proof pub : Bytes}
    {statement : List Fr → Prop} (h : Proved groth16 storage circuit n proof pub)
    (hsound : SoundFor groth16 storage circuit statement (publicSignals pub n)) :
    statement (publicSignals pub n) := by
  obtain ⟨raw, vk, hraw, hvk, hgroth16⟩ := h.key
  exact hsound raw vk _ hraw hvk hgroth16

theorem publicSignals_eq_four {pub : Bytes} {a b c d : Fr}
    (h : publicSignals pub 4 = [a, b, c, d]) :
    publicSignal pub 0 = a ∧ publicSignal pub 1 = b ∧ publicSignal pub 2 = c ∧
      publicSignal pub 3 = d := by
  have hfour : publicSignals pub 4
      = [publicSignal pub 0, publicSignal pub 1, publicSignal pub 2, publicSignal pub 3] := rfl
  rw [hfour] at h
  simpa using h

/-- **The meaning of an accepted flagship proof.** Whatever happened before in the run, a submission
of `CredentialAge` that returned true, under a key that is knowledge sound for it, had behind it an
age and a holder secret that the stored issuer signed together; the age exceeds the public threshold
by less than 2^16 in the field; and the nullifier is the hash of the secret, unspent until then,
spent from then on, and used by no other step. -/
theorem credentialAge_meaning (lib : Circomlib Fr) (hlib : lib.Comparators) (admin : Address)
    (invocations : List Invocation) (i : ℕ) (entry : Entry) (submission : Submission)
    (hentry : (History groth16 admin invocations)[i]? = some entry)
    (haccepted : accepted entry = some submission) (hcircuit : submission.circuit = 3)
    (hsound : SoundFor groth16 entry.pre.storage 3 (CredentialAge.Provable lib)
      (publicSignals submission.pub 4)) :
    ∃ (ax ay : BytesN 32) (age holderSecret r8x r8y s : Fr),
      entry.pre.storage .issAx = some ax ∧ entry.pre.storage .issAy = some ay ∧
      lib.eddsaPoseidonVerifier 1 (fromBeBytesModOrder frModulus ax.toList)
        (fromBeBytesModOrder frModulus ay.toList) s r8x r8y (lib.poseidon [age, holderSecret]) ∧
      (age - publicSignal submission.pub 3).val < 2 ^ 16 ∧
      publicSignal submission.pub 0 = lib.poseidon [holderSecret] ∧
      Unspent entry.pre.storage (lib.poseidon [holderSecret]) ∧
      ¬ Unspent (step groth16 entry.pre entry.input).1.storage (lib.poseidon [holderSecret]) ∧
      ∀ (j : ℕ) (other : Entry), (History groth16 admin invocations)[j]? = some other →
        spentNullifier other = some (lib.poseidon [holderSecret]) → j = i := by
  obtain ⟨circuit, proof, pub⟩ := submission
  cases hcircuit
  have hrecord := Machine.eq_record_of_mem _ (List.mem_of_getElem? hentry)
  have hstep := haccepted
  rw [hrecord] at hstep
  obtain ⟨hchecks, -⟩ := accepted_step groth16 hstep
  have hspent := spent_of_accepted groth16 hstep (.inr rfl)
  obtain ⟨hproved, hissuer, hunspent⟩ := (accepted_credentialAge_iff ..).mp hchecks
  obtain ⟨w, hw, hpublic⟩ := hproved.statement groth16 hsound
  obtain ⟨hnullifier, hax, hay, hthreshold⟩ := publicSignals_eq_four hpublic.symm
  have hhash : publicSignal pub 0 = lib.poseidon [w.holderSecret] := by
    rw [hnullifier, hw.nullifier, hw.nf]
  have htoken : spentNullifier entry = some (lib.poseidon [w.holderSecret]) := by
    rw [spentNullifier_of_accepted haccepted, if_pos (.inr rfl), hhash]
  refine ⟨_, _, w.age, w.holderSecret, w.sigR8x, w.sigR8y, w.sigS, hissuer.x, hissuer.y, ?_, ?_,
    hhash, ?_, ?_, ?_⟩
  · rw [fromBeBytesModOrder_frToBytesn, fromBeBytesModOrder_frToBytesn, hax, hay,
      ← hw.signedMsg]
    exact hw.eddsa
  · rw [hthreshold]
    exact hw.val_sub_lt hlib
  · rw [← hhash]
    exact hunspent
  · rw [← hhash]
    exact hspent
  · intro j other hother hspent
    exact nullifier_unique groth16 hother hspent hentry htoken

def adultCredential : CredentialAge Fr where
  age := (25 : ℕ)
  holderSecret := (7 : ℕ)
  sigR8x := 0
  sigR8y := 0
  sigS := 0
  issuerAx := (11 : ℕ)
  issuerAy := -(38 : ℕ)
  threshold := (18 : ℕ)
  nullifier := (7 : ℕ)
  signedMsg := (32 : ℕ)
  ge := 1
  nf := (7 : ℕ)

theorem adultCredential_satisfied : adultCredential.Satisfied (.summed [32]) where
  signedMsg := by decide
  eddsa := List.mem_singleton_self 32
  ge := BitDecomposition.LessThan.of_lt (n := 16) (a := 18) (b := 26) (by norm_num) (by norm_num)
  ge_one := rfl
  nf := by decide
  nullifier := rfl

def adultGroth16 : Groth16 := restrict (verifyGroth16 discreteLog) [adultCredential.publicSignals]

def adultCall : Invocation := credentialCall 3 generatorProof adultCredential.publicSignals

def adultSubmission : Submission :=
  ⟨3, proofBlob generatorProof, pubBlob adultCredential.publicSignals⟩

theorem adultSubmission_accepted :
    accepted (Machine.record (step adultGroth16)
        (Reached adultGroth16 zeroAccount (generatorSetup 3 11 (-38))) adultCall)
      = some adultSubmission := by
  obtain ⟨hproved, hissuer, hunspent⟩ := (accepted_credentialAge_iff ..).mp sample_accepted
  have hledger : Reached adultGroth16 zeroAccount (generatorSetup 3 11 (-38)) = sampleLedger :=
    (reached_setup ..).trans sampleLedger_eq.symm
  have hvector : publicSignals (pubBlob sampleVector) 4 ∈ [adultCredential.publicSignals] :=
    List.mem_singleton.mpr (publicSignals_pubBlob sampleVector)
  rw [hledger]
  exact (accepted_verifyCredential_iff ..).mpr ⟨rfl, (accepted_credentialAge_iff ..).mpr
    ⟨hproved.restrict _ hvector, hissuer, hunspent⟩⟩

theorem credentialAge_meaning_adult :
    ∃ entry : Entry,
      (History adultGroth16 zeroAccount (generatorSetup 3 11 (-38) ++ [adultCall]))[2]?
        = some entry ∧
      accepted entry = some adultSubmission ∧
      ∃ age holderSecret : Fr, (age - publicSignal adultSubmission.pub 3).val < 2 ^ 16 ∧
        publicSignal adultSubmission.pub 0 = (Circomlib.summed [32]).poseidon [holderSecret] := by
  have hentry := Machine.getElem?_history (step adultGroth16) (genesis zeroAccount)
    (generatorSetup 3 11 (-38)) [] adultCall
  have hsound : InstalledSound adultGroth16
      (Reached adultGroth16 zeroAccount (generatorSetup 3 11 (-38))).storage 3
      (CredentialAge.Provable (.summed [32])) := by
    refine restrict_installedSound _ ?_ _ 3
    intro pub hpub
    rw [List.mem_singleton] at hpub
    exact ⟨adultCredential, adultCredential_satisfied, hpub.symm⟩
  obtain ⟨_, _, age, holderSecret, -, -, -, -, -, -, hage, hnullifier, -⟩ :=
    credentialAge_meaning adultGroth16 (.summed [32]) (Circomlib.standard_comparators ..)
      zeroAccount _ 2 _ adultSubmission hentry adultSubmission_accepted rfl
      (hsound.soundFor _ _)
  exact ⟨_, hentry, adultSubmission_accepted, age, holderSecret, hage, hnullifier⟩

end Veritas
