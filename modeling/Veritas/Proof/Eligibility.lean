import Veritas.Proof.Administration
import Veritas.Proof.Replay

/-!
# Eligible submissions

Of what `verifyCredential` checks, all but the nullifier depends on the configuration alone, which
no submission changes. So a submission asks for the same nullifier in every state with the same
configuration, and it gets the nullifier if nobody else has.
-/

namespace Veritas

variable (groth16 : Groth16)

/-! ### The checks that do not depend on the order -/

def SameConfig (storage other : Storage) : Prop :=
  ∀ key : StorageKey, key.IsConfig → storage key = other key

/-- Every check of `verifyCredential` but the one of the nullifier. -/
structure Eligible (storage : Storage) (circuit : UInt32) (proof pub : Bytes) : Prop where
  circuit_le : circuit ≤ 3
  length : pub.length = (cid circuit).nPublic * 32
  verified : verifyForVerdict groth16 storage circuit proof pub = .ok true
  flag : flagSet (cid circuit) pub = true
  issuer : issuerVerdict storage (cid circuit) pub = .ok true
  root : rootVerdict storage (cid circuit) pub = .ok true

section Congr

variable {storage other : Storage} (h : SameConfig storage other) (circuit : UInt32)
  (proof pub : Bytes)

include h

theorem verifyForVerdict_congr :
    verifyForVerdict groth16 storage circuit proof pub
      = verifyForVerdict groth16 other circuit proof pub := by
  unfold verifyForVerdict groth16Verdict
  rw [h (.data (.verifyingKey circuit)) trivial]

theorem issuerVerdict_congr (id : CircuitId) :
    issuerVerdict storage id pub = issuerVerdict other id pub := by
  unfold issuerVerdict
  rw [h .issAx trivial, h .issAy trivial]

theorem rootVerdict_congr (id : CircuitId) :
    rootVerdict storage id pub = rootVerdict other id pub := by
  unfold rootVerdict
  rw [h .root trivial]

theorem credentialVerdict_congr
    (hfresh : nullifierFresh storage (cid circuit) pub = nullifierFresh other (cid circuit) pub) :
    credentialVerdict groth16 storage circuit proof pub
      = credentialVerdict groth16 other circuit proof pub := by
  unfold credentialVerdict
  rw [verifyForVerdict_congr groth16 h, issuerVerdict_congr h, rootVerdict_congr h, hfresh]

theorem eligible_congr :
    Eligible groth16 storage circuit proof pub ↔ Eligible groth16 other circuit proof pub := by
  have hverified := verifyForVerdict_congr groth16 h circuit proof pub
  have hissuer := issuerVerdict_congr h pub (cid circuit)
  have hroot := rootVerdict_congr h pub (cid circuit)
  constructor
  · intro e
    exact ⟨e.circuit_le, e.length, hverified ▸ e.verified, e.flag, hissuer ▸ e.issuer,
      hroot ▸ e.root⟩
  · intro e
    exact ⟨e.circuit_le, e.length, hverified ▸ e.verified, e.flag, hissuer ▸ e.issuer,
      hroot ▸ e.root⟩

end Congr

theorem accepted_iff_eligible (storage : Storage) (circuit : UInt32) (proof pub : Bytes) :
    Accepted groth16 storage circuit proof pub ↔
      Eligible groth16 storage circuit proof pub ∧
        nullifierFresh storage (cid circuit) pub = true := by
  constructor
  · intro h
    exact ⟨⟨h.circuit_le, h.length, h.verified, h.flag, h.issuer, h.root⟩, h.fresh⟩
  · rintro ⟨h, hfresh⟩
    exact ⟨h.circuit_le, h.length, h.verified, h.flag, h.issuer, h.root, hfresh⟩

/-! ### Submissions -/

/-- A call to `verifyCredential`, or to `claimFaucet` with the recipient's authorisation. -/
def Invocation.IsSubmission (invocation : Invocation) : Prop :=
  match invocation.call with
  | .verifyCredential .. => True
  | .claimFaucet recipient .. => recipient ∈ invocation.env.authorized
  | _ => False

/-- The call passes every check except the one of the nullifier. -/
def Invocation.Passes (storage : Storage) (invocation : Invocation) (submission : Submission) :
    Prop :=
  match invocation.call with
  | .verifyCredential circuit proof pub =>
      submission = ⟨circuit, proof, pub⟩ ∧ Eligible groth16 storage circuit proof pub
  | .claimFaucet recipient circuit proof pub =>
      submission = ⟨circuit, proof, pub⟩ ∧ recipient ∈ invocation.env.authorized ∧
        (circuit = 0 ∨ circuit = 3) ∧ Eligible groth16 storage circuit proof pub
  | _ => False

/-- The call passes the other checks and carries the nullifier. -/
def Invocation.Requests (storage : Storage) (invocation : Invocation) (key : BytesN 32) : Prop :=
  ∃ submission, invocation.Passes groth16 storage submission ∧
    (submission.circuit = 1 ∨ submission.circuit = 3) ∧
    frToBytesn (publicSignal submission.pub 0) = key

def spentKey (entry : Entry) : Option (BytesN 32) := (spentNullifier entry).map frToBytesn

theorem passes_congr {storage other : Storage} (h : SameConfig storage other)
    (invocation : Invocation) (submission : Submission) :
    invocation.Passes groth16 storage submission ↔ invocation.Passes groth16 other submission := by
  obtain ⟨env, call⟩ := invocation
  unfold Invocation.Passes
  cases call with
  | verifyCredential circuit proof pub => simp only [eligible_congr groth16 h]
  | claimFaucet recipient circuit proof pub => simp only [eligible_congr groth16 h]
  | _ => rfl

theorem accepted_iff_passes (ledger : Ledger) (invocation : Invocation)
    (submission : Submission) :
    accepted (Machine.record (step groth16) ledger invocation) = some submission ↔
      invocation.Passes groth16 ledger.storage submission ∧
        nullifierFresh ledger.storage (cid submission.circuit) submission.pub = true := by
  obtain ⟨env, call⟩ := invocation
  cases call with
  | verifyCredential circuit proof pub =>
      rw [accepted_verifyCredential_iff, accepted_iff_eligible]
      constructor
      · rintro ⟨rfl, heligible, hfresh⟩
        exact ⟨⟨rfl, heligible⟩, hfresh⟩
      · rintro ⟨⟨rfl, heligible⟩, hfresh⟩
        exact ⟨rfl, heligible, hfresh⟩
  | claimFaucet recipient circuit proof pub =>
      rw [accepted_claimFaucet_iff, accepted_iff_eligible]
      constructor
      · rintro ⟨rfl, hauth, hcircuit, heligible, hfresh⟩
        exact ⟨⟨rfl, hauth, hcircuit, heligible⟩, hfresh⟩
      · rintro ⟨⟨rfl, hauth, hcircuit, heligible⟩, hfresh⟩
        exact ⟨rfl, hauth, hcircuit, heligible, hfresh⟩
  | _ =>
      rw [accepted_eq_none rfl]
      constructor
      · intro h
        cases h
      · rintro ⟨h, -⟩
        exact h.elim

theorem fresh_iff (ledger : Ledger) {circuit : UInt32} (pub : Bytes)
    (hcircuit : circuit = 1 ∨ circuit = 3) :
    nullifierFresh ledger.storage (cid circuit) pub = true ↔
      frToBytesn (publicSignal pub 0) ∉ spentKeys ledger := by
  rw [← unspent_iff_notMem_spentKeys]
  apply nullifierFresh_eq_true_iff
  rcases hcircuit with rfl | rfl <;> rfl

theorem fresh_of_no_nullifier (storage : Storage) {circuit : UInt32} (pub : Bytes)
    (hcircuit : ¬ (circuit = 1 ∨ circuit = 3)) :
    nullifierFresh storage (cid circuit) pub = true := by
  have hnone : (cid circuit).nullifierIndex = none := by
    unfold cid
    split <;> simp_all [CircuitId.nullifierIndex]
  rw [nullifierFresh, hnone]

/-- A successful call spends the key it asks for, and no other call spends it. -/
theorem spentKey_iff (ledger : Ledger) (invocation : Invocation) (key : BytesN 32) :
    spentKey (Machine.record (step groth16) ledger invocation) = some key ↔
      invocation.Requests groth16 ledger.storage key ∧ key ∉ spentKeys ledger := by
  have haccepted := accepted_iff_passes groth16 ledger invocation
  constructor
  · intro hkey
    obtain ⟨n, hn, rfl⟩ := Option.map_eq_some_iff.mp hkey
    cases hsubmission : accepted (Machine.record (step groth16) ledger invocation) with
    | none =>
        rw [spentNullifier, hsubmission] at hn
        cases hn
    | some submission =>
        obtain ⟨hpasses, hfresh⟩ := (haccepted submission).mp hsubmission
        rw [spentNullifier_of_accepted hsubmission] at hn
        split_ifs at hn with hcircuit
        cases hn
        exact ⟨⟨submission, hpasses, hcircuit, rfl⟩, (fresh_iff ledger _ hcircuit).mp hfresh⟩
  · rintro ⟨⟨submission, hpasses, hcircuit, rfl⟩, hunspent⟩
    have hfresh := (fresh_iff ledger submission.pub hcircuit).mpr hunspent
    have hsubmission := (haccepted submission).mpr ⟨hpasses, hfresh⟩
    rw [spentKey, spentNullifier_of_accepted hsubmission, if_pos hcircuit, Option.map_some]

theorem step_sameConfig (initial ledger : Ledger) {invocation : Invocation}
    (hsame : SameConfig ledger.storage initial.storage) (hsubmission : invocation.IsSubmission) :
    SameConfig (step groth16 ledger invocation).1.storage initial.storage := by
  intro key hkey
  obtain ⟨env, call⟩ := invocation
  have hcall : call.isSetter = false := by
    cases call with
    | verifyCredential | claimFaucet => rfl
    | _ => exact hsubmission.elim
  rw [step_config groth16 env ledger hcall hkey, hsame key hkey]

/-- Submissions are served first come, first served. -/
theorem submissions_firstCome (initial : Ledger) :
    Machine.FirstCome (step groth16) spentKey spentKeys
      (fun ledger => SameConfig ledger.storage initial.storage) Invocation.IsSubmission
      (fun invocation key => invocation.Requests groth16 initial.storage key) where
  toSingleUse := nullifier_singleUse groth16
  stable_step {ledger invocation} hsame hsubmission :=
    step_sameConfig groth16 initial ledger hsame hsubmission
  granted_iff {ledger invocation key} hsame _ := by
    rw [spentKey_iff]
    unfold Invocation.Requests
    simp only [passes_congr groth16 hsame]

/-- Without a nullifier, the outcome depends on the configuration alone. -/
theorem output_of_no_nullifier {ledger other : Ledger} (hsame : SameConfig ledger.storage
    other.storage) {invocation : Invocation} (hinvocation : invocation.IsSubmission)
    (hcircuit : ∀ submission, invocation.call.submission = some submission →
      ¬ (submission.circuit = 1 ∨ submission.circuit = 3)) :
    (step groth16 ledger invocation).2 = (step groth16 other invocation).2 := by
  have hverdict : ∀ circuit proof pub, ¬ (circuit = 1 ∨ circuit = 3) →
      credentialVerdict groth16 ledger.storage circuit proof pub
        = credentialVerdict groth16 other.storage circuit proof pub := by
    intro circuit proof pub hcircuit
    apply credentialVerdict_congr groth16 hsame
    rw [fresh_of_no_nullifier _ pub hcircuit, fresh_of_no_nullifier _ pub hcircuit]
  obtain ⟨env, call⟩ := invocation
  cases call with
  | verifyCredential circuit proof pub =>
      rw [output_verifyCredential, output_verifyCredential, hverdict _ _ _ (hcircuit _ rfl)]
  | claimFaucet recipient circuit proof pub =>
      have hfaucet : faucetVerdict groth16 env ledger.storage recipient circuit proof pub
          = faucetVerdict groth16 env other.storage recipient circuit proof pub := by
        unfold faucetVerdict
        rw [hverdict _ _ _ (hcircuit _ rfl)]
      rw [output_claimFaucet, output_claimFaucet, hfaucet]
  | _ => exact hinvocation.elim

end Veritas
