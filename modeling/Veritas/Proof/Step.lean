import Veritas.Invocation
import Veritas.Proof.Submission

/-!
# What one invocation does

Entry points fall into three groups. Queries leave the ledger alone, configuration calls need the
administrator and then write their own keys, and submissions follow their verdict. Every property of
runs is derived from these three equations.
-/

namespace Veritas

variable (groth16 : Groth16)

def adminVerdict (env : Env) (storage : Storage) : Except Trap Unit :=
  match storage .admin with
  | none => .error .unwrapNone
  | some admin => if admin ∈ env.authorized then .ok () else .error .unauthorized

theorem requireAdmin_run (env : Env) (ledger : Ledger) :
    (requireAdmin env).run ledger
      = (fun _ => ((), ledger)) <$> adminVerdict env ledger.storage := by
  cases hadmin : ledger.storage .admin with
  | none => simp [requireAdmin, adminVerdict, hadmin]
  | some admin =>
      by_cases hauth : admin ∈ env.authorized <;>
        simp [requireAdmin, requireAuth, adminVerdict, hadmin, hauth]

/-- What a configuration call writes once the administrator has authorised it. -/
def configured (ledger : Ledger) : Call → Option Ledger
  | .setVerifyingKey circuit vk => some (ledger.set (.data (.verifyingKey circuit)) vk)
  | .setDefaultCircuit circuit => some (ledger.set .default circuit)
  | .setIssuer ax ay => some ((ledger.set .issAx ax).set .issAy ay)
  | .setAllowedRoot root => some (ledger.set .root root)
  | _ => none

theorem step_configure (env : Env) {ledger written : Ledger} {call : Call}
    (h : configured ledger call = some written) :
    step groth16 ledger ⟨env, call⟩ =
      match adminVerdict env ledger.storage with
      | .ok _ => (written, .ok .unit)
      | .error trap => (ledger, .error trap) := by
  have hadmin := requireAdmin_run env ledger
  cases call with
  | setVerifyingKey | setDefaultCircuit | setIssuer | setAllowedRoot =>
      cases h
      cases hverdict : adminVerdict env ledger.storage <;>
        simp [step, invoke, setVerifyingKey, setDefaultCircuit, setIssuer, setAllowedRoot, hadmin,
          hverdict]
  | _ => cases h

theorem step_configure_admin {ledger written : Ledger} {admin : Address} {call : Call}
    (hadmin : ledger.storage .admin = some admin) (h : configured ledger call = some written) :
    step groth16 ledger ⟨⟨[admin]⟩, call⟩ = (written, .ok .unit) := by
  have hverdict : adminVerdict ⟨[admin]⟩ ledger.storage = .ok () := by
    simp [adminVerdict, hadmin]
  rw [step_configure groth16 ⟨[admin]⟩ h, hverdict]

theorem genesis_admin (admin : Address) : (genesis admin).storage .admin = some admin :=
  Ledger.set_storage_self ..

theorem reached_install (admin : Address) (circuit : UInt32) (vk : Bytes) :
    Reached groth16 admin [⟨⟨[admin]⟩, .setVerifyingKey circuit vk⟩]
      = (genesis admin).set (.data (.verifyingKey circuit)) vk := by
  rw [Reached, Machine.exec_cons, step_configure_admin groth16 (genesis_admin admin) rfl,
    Machine.exec_nil]

def setupLedger (admin : Address) (circuit : UInt32) (vk : Bytes) (ax ay : BytesN 32) : Ledger :=
  (((genesis admin).set (.data (.verifyingKey circuit)) vk).set .issAx ax).set .issAy ay

section Setup

variable (admin : Address) (circuit : UInt32) (vk : Bytes) (ax ay : BytesN 32)

theorem reached_setup :
    Reached groth16 admin
        [⟨⟨[admin]⟩, .setVerifyingKey circuit vk⟩, ⟨⟨[admin]⟩, .setIssuer ax ay⟩]
      = setupLedger admin circuit vk ax ay := by
  have hadmin : ((genesis admin).set (.data (.verifyingKey circuit)) vk).storage .admin
      = some admin := by
    rw [Ledger.set_storage_of_ne _ _ _ (by simp), genesis_admin]
  rw [Reached, Machine.exec_cons, step_configure_admin groth16 (genesis_admin admin) rfl,
    Machine.exec_cons, step_configure_admin groth16 hadmin rfl, Machine.exec_nil]
  rfl

theorem setupLedger_key :
    (setupLedger admin circuit vk ax ay).storage (.data (.verifyingKey circuit)) = some vk := by
  rw [setupLedger, Ledger.set_storage_of_ne _ _ _ (by simp),
    Ledger.set_storage_of_ne _ _ _ (by simp), Ledger.set_storage_self]

theorem setupLedger_issAx : (setupLedger admin circuit vk ax ay).storage .issAx = some ax := by
  rw [setupLedger, Ledger.set_storage_of_ne _ _ _ (by simp), Ledger.set_storage_self]

theorem setupLedger_issAy : (setupLedger admin circuit vk ax ay).storage .issAy = some ay := by
  rw [setupLedger, Ledger.set_storage_self]

theorem setupLedger_nullifier (key : BytesN 32) :
    (setupLedger admin circuit vk ax ay).storage (.data (.nullifier key)) = none := by
  rw [setupLedger, Ledger.set_storage_of_ne _ _ _ (by simp),
    Ledger.set_storage_of_ne _ _ _ (by simp), Ledger.set_storage_of_ne _ _ _ (by simp), genesis,
    Ledger.set_storage_of_ne _ _ _ (by simp)]
  rfl

end Setup

theorem step_verifyCredential (env : Env) (ledger : Ledger) (circuit : UInt32)
    (proof pub : Bytes) :
    step groth16 ledger ⟨env, .verifyCredential circuit proof pub⟩ =
      match credentialVerdict groth16 ledger.storage circuit proof pub with
      | .ok true => (ledger.spend (cid circuit) pub, .ok (.bool true))
      | .ok false => (ledger, .ok (.bool false))
      | .error trap => (ledger, .error trap) := by
  rw [step, invoke, StateT.run_map, verifyCredential_run]
  rcases credentialVerdict groth16 ledger.storage circuit proof pub with trap | _ | _ <;> rfl

theorem step_claimFaucet (env : Env) (ledger : Ledger) (recipient : Address) (circuit : UInt32)
    (proof pub : Bytes) :
    step groth16 ledger ⟨env, .claimFaucet recipient circuit proof pub⟩ =
      match faucetVerdict groth16 env ledger.storage recipient circuit proof pub with
      | .ok true => ((ledger.spend (cid circuit) pub).claim recipient, .ok (.bool true))
      | .ok false => (ledger, .ok (.bool false))
      | .error trap => (ledger, .error trap) := by
  rw [step, invoke, StateT.run_map, claimFaucet_run]
  rcases faucetVerdict groth16 env ledger.storage recipient circuit proof pub with trap | _ | _ <;>
    rfl

theorem output_verifyCredential (env : Env) (ledger : Ledger) (circuit : UInt32)
    (proof pub : Bytes) :
    (step groth16 ledger ⟨env, .verifyCredential circuit proof pub⟩).2
      = .bool <$> credentialVerdict groth16 ledger.storage circuit proof pub := by
  rw [step_verifyCredential]
  rcases credentialVerdict groth16 ledger.storage circuit proof pub with trap | _ | _ <;> rfl

theorem output_claimFaucet (env : Env) (ledger : Ledger) (recipient : Address) (circuit : UInt32)
    (proof pub : Bytes) :
    (step groth16 ledger ⟨env, .claimFaucet recipient circuit proof pub⟩).2
      = .bool <$> faucetVerdict groth16 env ledger.storage recipient circuit proof pub := by
  rw [step_claimFaucet]
  rcases faucetVerdict groth16 env ledger.storage recipient circuit proof pub with trap | _ | _ <;>
    rfl

theorem bool_map_eq_true_iff {verdict : Except Trap Bool} :
    Answer.bool <$> verdict = .ok (.bool true) ↔ verdict = .ok true := by
  rcases verdict with trap | _ | _ <;> simp

theorem verifyCredential_eq_true_iff (env : Env) (ledger : Ledger) (circuit : UInt32)
    (proof pub : Bytes) :
    (step groth16 ledger ⟨env, .verifyCredential circuit proof pub⟩).2 = .ok (.bool true) ↔
      Accepted groth16 ledger.storage circuit proof pub := by
  rw [output_verifyCredential, bool_map_eq_true_iff, credentialVerdict_eq_true_iff]

theorem claimFaucet_eq_true_iff (env : Env) (ledger : Ledger) (recipient : Address)
    (circuit : UInt32) (proof pub : Bytes) :
    (step groth16 ledger ⟨env, .claimFaucet recipient circuit proof pub⟩).2 = .ok (.bool true) ↔
      recipient ∈ env.authorized ∧ (circuit = 0 ∨ circuit = 3) ∧
        Accepted groth16 ledger.storage circuit proof pub := by
  rw [output_claimFaucet, bool_map_eq_true_iff, faucetVerdict_eq_true_iff]

theorem step_verifyFor (env : Env) (ledger : Ledger) (circuit : UInt32) (proof pub : Bytes) :
    step groth16 ledger ⟨env, .verifyFor circuit proof pub⟩
      = (ledger, .bool <$> verifyForVerdict groth16 ledger.storage circuit proof pub) := by
  rw [step, invoke, StateT.run_map, verifyFor_run]
  cases verifyForVerdict groth16 ledger.storage circuit proof pub <;> rfl

theorem step_query (env : Env) (ledger : Ledger) {call : Call}
    (hconfigure : configured ledger call = none) (hsubmission : call.submission = none) :
    (step groth16 ledger ⟨env, call⟩).1 = ledger := by
  cases call with
  | admin =>
      cases hadmin : ledger.storage .admin <;> simp [step, invoke, admin, hadmin]
  | verifyFor circuit proof pub => rw [step_verifyFor]
  | verify proof pub =>
      cases hdefault : ledger.storage .default with
      | none => simp [step, invoke, verify, hdefault]
      | some circuit =>
          simp [step, invoke, verify, hdefault, verifyFor_run]
          cases verifyForVerdict groth16 ledger.storage circuit proof pub <;> rfl
  | lastClaimant => simp [step, invoke, lastClaimant]
  | verifyCredential | claimFaucet => cases hsubmission
  | setVerifyingKey | setDefaultCircuit | setIssuer | setAllowedRoot => cases hconfigure

/-! ### Accepted submissions -/

theorem accepted_eq_some_iff {entry : Entry} {submission : Submission} :
    accepted entry = some submission ↔
      entry.output = .ok (.bool true) ∧ entry.input.call.submission = some submission := by
  rw [accepted]
  split
  next houtput => simp [houtput]
  next houtput =>
    constructor
    · intro h
      cases h
    · rintro ⟨htrue, -⟩
      exact absurd htrue houtput

theorem accepted_verifyCredential_iff (env : Env) (ledger : Ledger) (circuit : UInt32)
    (proof pub : Bytes) (submission : Submission) :
    accepted (Machine.record (step groth16) ledger ⟨env, .verifyCredential circuit proof pub⟩)
        = some submission ↔
      submission = ⟨circuit, proof, pub⟩ ∧ Accepted groth16 ledger.storage circuit proof pub := by
  rw [accepted_eq_some_iff, Machine.record, verifyCredential_eq_true_iff, and_comm]
  simp [Call.submission, eq_comm]

theorem accepted_claimFaucet_iff (env : Env) (ledger : Ledger) (recipient : Address)
    (circuit : UInt32) (proof pub : Bytes) (submission : Submission) :
    accepted (Machine.record (step groth16) ledger
        ⟨env, .claimFaucet recipient circuit proof pub⟩) = some submission ↔
      submission = ⟨circuit, proof, pub⟩ ∧ recipient ∈ env.authorized ∧
        (circuit = 0 ∨ circuit = 3) ∧ Accepted groth16 ledger.storage circuit proof pub := by
  rw [accepted_eq_some_iff, Machine.record, claimFaucet_eq_true_iff, and_comm]
  simp [Call.submission, eq_comm]

theorem accepted_of_claimed {entry : Entry} {submission : Submission}
    (h : claimed entry = some submission) : accepted entry = some submission := by
  rw [claimed] at h
  split at h
  · exact h
  · cases h

theorem accepted_eq_none {entry : Entry} (h : entry.input.call.submission = none) :
    accepted entry = none := by
  rw [accepted]
  split
  · exact h
  · rfl

theorem accepted_of_output_ne {entry : Entry} (h : entry.output ≠ .ok (.bool true)) :
    accepted entry = none := by
  rw [accepted]
  split
  · next houtput => exact absurd houtput h
  · rfl

/-- Only configuration calls and accepted submissions write. -/
theorem step_unaccepted (env : Env) (ledger : Ledger) {call : Call}
    (hconfigure : configured ledger call = none)
    (h : accepted (Machine.record (step groth16) ledger ⟨env, call⟩) = none) :
    (step groth16 ledger ⟨env, call⟩).1 = ledger := by
  cases call with
  | verifyCredential circuit proof pub =>
      rw [step_verifyCredential]
      rcases hverdict : credentialVerdict groth16 ledger.storage circuit proof pub
        with trap | _ | _
      · rfl
      · rfl
      · have haccepted := (credentialVerdict_eq_true_iff ..).mp hverdict
        rw [(accepted_verifyCredential_iff ..).mpr ⟨rfl, haccepted⟩] at h
        cases h
  | claimFaucet recipient circuit proof pub =>
      rw [step_claimFaucet]
      rcases hverdict : faucetVerdict groth16 env ledger.storage recipient circuit proof pub
        with trap | _ | _
      · rfl
      · rfl
      · have hclaim := (faucetVerdict_eq_true_iff ..).mp hverdict
        rw [(accepted_claimFaucet_iff ..).mpr ⟨rfl, hclaim⟩] at h
        cases h
  | _ => exact step_query groth16 env ledger hconfigure rfl

theorem step_accepted_verifyCredential {env : Env} {ledger : Ledger} {circuit : UInt32}
    {proof pub : Bytes}
    (houtput : (step groth16 ledger ⟨env, .verifyCredential circuit proof pub⟩).2
      = .ok (.bool true)) :
    Accepted groth16 ledger.storage circuit proof pub ∧
      (step groth16 ledger ⟨env, .verifyCredential circuit proof pub⟩).1
        = ledger.spend (cid circuit) pub := by
  have hchecks := (verifyCredential_eq_true_iff ..).mp houtput
  refine ⟨hchecks, ?_⟩
  rw [step_verifyCredential, (credentialVerdict_eq_true_iff ..).mpr hchecks]

theorem step_accepted_claimFaucet {env : Env} {ledger : Ledger} {recipient : Address}
    {circuit : UInt32} {proof pub : Bytes}
    (houtput : (step groth16 ledger ⟨env, .claimFaucet recipient circuit proof pub⟩).2
      = .ok (.bool true)) :
    (recipient ∈ env.authorized ∧ (circuit = 0 ∨ circuit = 3) ∧
        Accepted groth16 ledger.storage circuit proof pub) ∧
      (step groth16 ledger ⟨env, .claimFaucet recipient circuit proof pub⟩).1
        = (ledger.spend (cid circuit) pub).claim recipient := by
  have hchecks := (claimFaucet_eq_true_iff ..).mp houtput
  refine ⟨hchecks, ?_⟩
  rw [step_claimFaucet, (faucetVerdict_eq_true_iff ..).mpr hchecks]

theorem Ledger.claim_storage_of_ne (ledger : Ledger) (recipient : Address) {key : StorageKey}
    (hne : key ≠ .claimed) : (ledger.claim recipient).storage key = ledger.storage key := by
  rw [Ledger.claim, Ledger.publish_storage, Ledger.set_storage_of_ne _ _ _ hne]

theorem configured_nullifier {ledger written : Ledger} {call : Call}
    (h : configured ledger call = some written) (key : BytesN 32) :
    written.storage (.data (.nullifier key)) = ledger.storage (.data (.nullifier key)) := by
  cases call with
  | setVerifyingKey | setDefaultCircuit | setIssuer | setAllowedRoot =>
      cases h
      simp [Ledger.set_storage_of_ne]
  | _ => cases h

/-- **What acceptance does.** The submission passed every check in the state before, and the
nullifier entries afterwards are those of a spend. -/
theorem accepted_step {ledger : Ledger} {invocation : Invocation} {submission : Submission}
    (h : accepted (Machine.record (step groth16) ledger invocation) = some submission) :
    Accepted groth16 ledger.storage submission.circuit submission.proof submission.pub ∧
      ∀ key, (step groth16 ledger invocation).1.storage (.data (.nullifier key))
        = (ledger.spend (cid submission.circuit) submission.pub).storage
            (.data (.nullifier key)) := by
  obtain ⟨env, call⟩ := invocation
  cases call with
  | verifyCredential circuit proof pub =>
      obtain ⟨houtput, hsubmission⟩ := accepted_eq_some_iff.mp h
      cases hsubmission
      obtain ⟨hchecks, hpost⟩ := step_accepted_verifyCredential groth16 houtput
      rw [hpost]
      exact ⟨hchecks, fun _ => rfl⟩
  | claimFaucet recipient circuit proof pub =>
      obtain ⟨houtput, hsubmission⟩ := accepted_eq_some_iff.mp h
      cases hsubmission
      obtain ⟨⟨-, -, hchecks⟩, hpost⟩ := step_accepted_claimFaucet groth16 houtput
      rw [hpost]
      exact ⟨hchecks, fun key => Ledger.claim_storage_of_ne _ recipient (by simp)⟩
  | _ =>
      rw [accepted_eq_none rfl] at h
      cases h

/-- Any other step leaves the nullifier entries alone. -/
theorem nullifier_frame {ledger : Ledger} {invocation : Invocation}
    (h : accepted (Machine.record (step groth16) ledger invocation) = none) (key : BytesN 32) :
    (step groth16 ledger invocation).1.storage (.data (.nullifier key))
      = ledger.storage (.data (.nullifier key)) := by
  obtain ⟨env, call⟩ := invocation
  cases hconfigure : configured ledger call with
  | some written =>
      rw [step_configure groth16 env hconfigure]
      cases adminVerdict env ledger.storage with
      | ok _ => exact configured_nullifier hconfigure key
      | error trap => rfl
  | none => rw [step_unaccepted groth16 env ledger hconfigure h]

end Veritas
