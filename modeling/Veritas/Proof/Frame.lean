import Veritas.DiscreteLog

/-!
# What a submission leaves behind

A verification call that fails, by returning false or by a trap, leaves storage and events as they
were, whichever of its exits it took. One that succeeds records the nullifier it checked, where its
circuit has one, and a claim adds the claimant and one event.
-/

namespace Veritas

variable (groth16 : Groth16)

def Call.IsVerification : Call → Prop
  | .verifyFor .. => True
  | .verify .. => True
  | .verifyCredential .. => True
  | .claimFaucet .. => True
  | _ => False

/-- One nullifier, absent before, is marked where the circuit has one, and nothing else changes. -/
def NullifierEffect (circuit : UInt32) (pub : Bytes) (pre post : Storage) : Prop :=
  if circuit = 1 ∨ circuit = 3 then
    Unspent pre (publicSignal pub 0) ∧
      post = Function.update pre (.data (.nullifier (frToBytesn (publicSignal pub 0)))) (some true)
  else post = pre

theorem nullifierIndex_cid {circuit : UInt32} (h : circuit ≤ 3) :
    (cid circuit).nullifierIndex = if circuit = 1 ∨ circuit = 3 then some 0 else none := by
  rcases circuit_cases h with rfl | rfl | rfl | rfl <;> rfl

/-- The nullifier check is about the key that a spend marks. -/
theorem Accepted.unspent {storage : Storage} {circuit : UInt32} {proof pub : Bytes}
    (h : Accepted groth16 storage circuit proof pub) (hcircuit : circuit = 1 ∨ circuit = 3) :
    storage (.data (.nullifier (frToBytesn (publicSignal pub 0)))) = none := by
  have hfresh := h.fresh
  rw [nullifierFresh, nullifierIndex_cid h.circuit_le, if_pos hcircuit] at hfresh
  simpa using hfresh

theorem Ledger.spend_events (ledger : Ledger) (id : CircuitId) (pub : Bytes) :
    (ledger.spend id pub).events = ledger.events := by
  rw [Ledger.spend]
  cases id.nullifierIndex <;> rfl

theorem Accepted.nullifierEffect {ledger : Ledger} {circuit : UInt32} {proof pub : Bytes}
    (h : Accepted groth16 ledger.storage circuit proof pub) :
    NullifierEffect circuit pub ledger.storage (ledger.spend (cid circuit) pub).storage := by
  rw [NullifierEffect, Ledger.spend, nullifierIndex_cid h.circuit_le]
  by_cases hcircuit : circuit = 1 ∨ circuit = 3
  · rw [if_pos hcircuit, if_pos hcircuit]
    exact ⟨h.unspent groth16 hcircuit, rfl⟩
  · rw [if_neg hcircuit, if_neg hcircuit]

theorem Call.IsVerification.configured_eq_none {call : Call} (h : call.IsVerification)
    (ledger : Ledger) : configured ledger call = none := by
  cases call with
  | verifyFor | verify | verifyCredential | claimFaucet => rfl
  | _ => exact h.elim

/-- A query changes nothing, and neither does a submission that does not return true. -/
theorem verification_frame (env : Env) (ledger : Ledger) {call : Call} (hcall : call.IsVerification)
    (houtput : (step groth16 ledger ⟨env, call⟩).2 ≠ .ok (.bool true)) :
    (step groth16 ledger ⟨env, call⟩).1 = ledger :=
  step_unaccepted groth16 env ledger (hcall.configured_eq_none ledger)
    (accepted_of_output_ne houtput)

/-- **Failed submissions leave no trace, and successful ones change only what they must.** -/
theorem submission_effects (ledger : Ledger) (env : Env) :
    (∀ call : Call, call.IsVerification →
      (step groth16 ledger ⟨env, call⟩).2 = .ok (.bool false) ∨
        (∃ trap, (step groth16 ledger ⟨env, call⟩).2 = .error trap) →
      (step groth16 ledger ⟨env, call⟩).1 = ledger) ∧
    (∀ (circuit : UInt32) (proof pub : Bytes),
      (step groth16 ledger ⟨env, .verifyCredential circuit proof pub⟩).2 = .ok (.bool true) →
      NullifierEffect circuit pub ledger.storage
          (step groth16 ledger ⟨env, .verifyCredential circuit proof pub⟩).1.storage ∧
        (step groth16 ledger ⟨env, .verifyCredential circuit proof pub⟩).1.events
          = ledger.events) ∧
    (∀ (recipient : Address) (circuit : UInt32) (proof pub : Bytes),
      (step groth16 ledger ⟨env, .claimFaucet recipient circuit proof pub⟩).2
        = .ok (.bool true) →
      (circuit = 0 ∨ circuit = 3) ∧
        (∃ spent : Storage, NullifierEffect circuit pub ledger.storage spent ∧
          (step groth16 ledger ⟨env, .claimFaucet recipient circuit proof pub⟩).1.storage
            = Function.update spent .claimed (some recipient)) ∧
        (step groth16 ledger ⟨env, .claimFaucet recipient circuit proof pub⟩).1.events
          = ledger.events ++ [⟨["faucet"], recipient⟩]) ∧
    (∀ proof pub : Bytes, (step groth16 ledger ⟨env, .verify proof pub⟩).1 = ledger) ∧
    ∀ (circuit : UInt32) (proof pub : Bytes),
      (step groth16 ledger ⟨env, .verifyFor circuit proof pub⟩).1 = ledger := by
  refine ⟨?_, ?_, ?_, ?_, ?_⟩
  · intro call hcall hfailed
    apply verification_frame groth16 env ledger hcall
    rcases hfailed with hfalse | ⟨trap, htrap⟩
    · rw [hfalse]
      simp
    · rw [htrap]
      simp
  · intro circuit proof pub houtput
    obtain ⟨haccepted, hpost⟩ := step_accepted_verifyCredential groth16 houtput
    rw [hpost]
    exact ⟨haccepted.nullifierEffect groth16, ledger.spend_events ..⟩
  · intro recipient circuit proof pub houtput
    obtain ⟨⟨-, hcircuit, haccepted⟩, hpost⟩ := step_accepted_claimFaucet groth16 houtput
    rw [hpost]
    refine ⟨hcircuit, ⟨_, haccepted.nullifierEffect groth16, rfl⟩, ?_⟩
    rw [Ledger.claim, Ledger.publish_events, Ledger.set_events, Ledger.spend_events]
  · intro proof pub
    exact step_query groth16 env ledger rfl rfl
  · intro circuit proof pub
    exact step_query groth16 env ledger rfl rfl

theorem submission_effects_sample :
    (step (verifyGroth16 discreteLog) sampleLedger ⟨⟨[]⟩, .verifyCredential 4 [] []⟩).1
        = sampleLedger ∧
      NullifierEffect 3 (pubBlob sampleVector) sampleLedger.storage
        (step (verifyGroth16 discreteLog) sampleLedger
          (credentialCall 3 generatorProof sampleVector)).1.storage ∧
      (step (verifyGroth16 discreteLog) sampleLedger (generatorClaim 3 sampleVector)).1.events
        = sampleLedger.events ++ [⟨["faucet"], zeroAccount⟩] := by
  have hunknown := (submission_effects (verifyGroth16 discreteLog) sampleLedger ⟨[]⟩).1
    (.verifyCredential 4 [] []) trivial (.inl rfl)
  have hverified := (submission_effects (verifyGroth16 discreteLog) sampleLedger ⟨[]⟩).2.1 3
    (proofBlob generatorProof) (pubBlob sampleVector) (sample_verified _)
  have hclaimed := (submission_effects (verifyGroth16 discreteLog) sampleLedger
    ⟨[zeroAccount]⟩).2.2.1 zeroAccount 3 (proofBlob generatorProof) (pubBlob sampleVector)
    sample_claimed
  rw [credentialCall, generatorClaim]
  exact ⟨hunknown, hverified.1, hclaimed.2.2⟩

end Veritas
