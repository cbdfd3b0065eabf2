import Veritas.Proof.Orders

/-!
# Who is served

From a reachable state a run of submissions is decided by the configuration and the order of the
calls: a submission is accepted exactly if its blobs pass every check but the one of the nullifier,
and no earlier call passed them with the same nullifier. The recipient of a claim is not among the
things checked, so a proof is a bearer token: whoever gets a claim with the blobs in first is paid.
-/

namespace Veritas

variable (groth16 : Groth16)

/-- The earlier call could spend the nullifier of the blob. -/
def Forestalls (storage : Storage) (pub : Bytes) (earlier : Invocation) : Prop :=
  earlier.Requests groth16 storage (frToBytesn (publicSignal pub 0))

theorem accepted_iff_spentKey {call : Invocation} {ledger : Ledger} {submission : Submission}
    (hsubmission : call.call.submission = some submission)
    (hcircuit : submission.circuit = 1 ∨ submission.circuit = 3) :
    (step groth16 ledger call).2 = .ok (.bool true) ↔
      spentKey (Machine.record (step groth16) ledger call)
        = some (frToBytesn (publicSignal submission.pub 0)) := by
  have haccepted : (step groth16 ledger call).2 = .ok (.bool true) ↔
      accepted (Machine.record (step groth16) ledger call) = some submission := by
    rw [accepted_eq_some_iff]
    exact (and_iff_left hsubmission).symm
  rw [haccepted]
  constructor
  · intro h
    rw [spentKey, spentNullifier_of_accepted h, if_pos hcircuit, Option.map_some]
  · intro h
    cases hother : accepted (Machine.record (step groth16) ledger call) with
    | none =>
        rw [spentKey, spentNullifier, hother] at h
        cases h
    | some other =>
        have hcall := (accepted_eq_some_iff.mp hother).2
        rw [Machine.record] at hcall
        rw [← hcall, hsubmission]

/-- **The first to submit is served, whoever that is.** In a run of submissions from a reachable
state, a call on a circuit with a nullifier returns true exactly if it passes the checks that the
configuration makes, its nullifier was unspent at the start, and no earlier call of the run passed
the checks with that nullifier; a call on another circuit returns true whenever it passes them. For
two authorised claims of the same blobs these conditions are the same whoever the recipients are. -/
theorem first_submission_served (admin : Address) (past before after : List Invocation)
    (call : Invocation) (submission : Submission)
    (hcalls : ∀ other ∈ before ++ call :: after, other.IsSubmission)
    (hsubmission : call.call.submission = some submission) :
    (submission.circuit = 1 ∨ submission.circuit = 3 →
      ((step groth16 (Machine.exec (step groth16) (Reached groth16 admin past) before) call).2
          = .ok (.bool true) ↔
        call.Passes groth16 (Reached groth16 admin past).storage submission ∧
          Unspent (Reached groth16 admin past).storage (publicSignal submission.pub 0) ∧
          ∀ earlier ∈ before,
            ¬ Forestalls groth16 (Reached groth16 admin past).storage submission.pub earlier)) ∧
    (¬ (submission.circuit = 1 ∨ submission.circuit = 3) →
      ((step groth16 (Machine.exec (step groth16) (Reached groth16 admin past) before) call).2
          = .ok (.bool true) ↔
        call.Passes groth16 (Reached groth16 admin past).storage submission)) ∧
    ∀ (storage : Storage) (env env' : Env) (recipient recipient' : Address),
      recipient ∈ env.authorized → recipient' ∈ env'.authorized →
      (Invocation.Passes groth16 storage
          ⟨env, .claimFaucet recipient submission.circuit submission.proof submission.pub⟩
          submission ↔
        Invocation.Passes groth16 storage
          ⟨env', .claimFaucet recipient' submission.circuit submission.proof submission.pub⟩
          submission) := by
  refine ⟨?_, ?_, ?_⟩
  · intro hcircuit
    have hrequests : call.Requests groth16 (Reached groth16 admin past).storage
        (frToBytesn (publicSignal submission.pub 0)) ↔
          call.Passes groth16 (Reached groth16 admin past).storage submission := by
      constructor
      · rintro ⟨other, hpasses, -⟩
        have hother : call.call.submission = some other := by
          obtain ⟨env, call⟩ := call
          cases call with
          | verifyCredential => exact congrArg some hpasses.1.symm
          | claimFaucet => exact congrArg some hpasses.1.symm
          | _ => exact hpasses.elim
        rw [hsubmission, Option.some.injEq] at hother
        rwa [hother]
      · intro hpasses
        exact ⟨submission, hpasses, hcircuit, rfl⟩
    rw [accepted_iff_spentKey groth16 hsubmission hcircuit,
      (submissions_firstCome groth16 (Reached groth16 admin past)).token_iff_first
        (fun _ _ => rfl) hcalls, hrequests, unspent_iff_notMem_spentKeys]
    rfl
  · intro hcircuit
    have hbefore : ∀ other ∈ before, other.IsSubmission := fun other hother =>
      hcalls other (List.mem_append_left _ hother)
    have hsame := sameConfig_exec groth16 (Reached groth16 admin past) hbefore
    have hfresh := fresh_of_no_nullifier
      (Machine.exec (step groth16) (Reached groth16 admin past) before).storage submission.pub
      hcircuit
    have haccepted := accepted_iff_passes groth16
      (Machine.exec (step groth16) (Reached groth16 admin past) before) call submission
    rw [accepted_eq_some_iff, passes_congr groth16 hsame, and_iff_left hfresh] at haccepted
    rw [← haccepted]
    exact (and_iff_left hsubmission).symm
  · intro storage env env' recipient recipient' hauth hauth'
    simp [Invocation.Passes, hauth, hauth']

def frontRunner : Address := .contract (Vector.replicate 32 1)

/-- The blobs of `raceClaim`, with another recipient. -/
def copiedClaim : Invocation :=
  ⟨⟨[frontRunner]⟩, .claimFaucet frontRunner 3 (proofBlob generatorProof)
    (pubBlob adultCredential.publicSignals)⟩

theorem first_submission_served_copied :
    (step (verifyGroth16 discreteLog) raceLedger copiedClaim).2 = .ok (.bool true) ∧
      (step (verifyGroth16 discreteLog)
        (Machine.exec (step (verifyGroth16 discreteLog)) raceLedger [copiedClaim]) raceClaim).2
        ≠ .ok (.bool true) := by
  have hsubmissions : ∀ call ∈ [copiedClaim, raceClaim], call.IsSubmission := by
    intro call hcall
    rcases List.mem_pair.mp hcall with rfl | rfl
    · exact List.mem_singleton_self frontRunner
    · exact List.mem_singleton_self zeroAccount
  have heligible := ((accepted_iff_eligible ..).mp race_accepted).1
  have hpasses : copiedClaim.Passes (verifyGroth16 discreteLog) raceLedger.storage
      ⟨3, proofBlob generatorProof, pubBlob adultCredential.publicSignals⟩ :=
    ⟨rfl, List.mem_singleton_self frontRunner, .inr rfl, heligible⟩
  have hcopied := first_submission_served (verifyGroth16 discreteLog) zeroAccount raceSetup []
    [raceClaim] copiedClaim _ hsubmissions rfl
  have hlate := first_submission_served (verifyGroth16 discreteLog) zeroAccount raceSetup
    [copiedClaim] [] raceClaim _ hsubmissions rfl
  constructor
  · exact (hcopied.1 (.inr rfl)).mpr ⟨hpasses, race_accepted.unspent _ (.inr rfl), by simp⟩
  · intro htrue
    obtain ⟨-, -, hnone⟩ := (hlate.1 (.inr rfl)).mp htrue
    exact hnone copiedClaim (List.mem_singleton_self _) ⟨_, hpasses, .inr rfl, rfl⟩

end Veritas
