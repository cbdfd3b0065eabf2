import Veritas.Proof.Credential
import Veritas.Proof.Eligibility
import Veritas.Proof.Faucet

/-!
# The order of submissions

Submissions are served first come, first served. Executed in any order, each unspent nullifier goes
to one of those that ask for it and pass the other checks, and it is spent afterwards; only who was
the last to claim, and what was published, depends on the order.
-/

namespace Veritas

variable (groth16 : Groth16)

/-! ### Spent entries are true -/

/-- No nullifier entry holds false. -/
def Marked (ledger : Ledger) : Prop :=
  ∀ key : BytesN 32, ledger.storage (.data (.nullifier key)) ≠ some false

theorem spend_marked {ledger : Ledger} (h : Marked ledger) (id : CircuitId) (pub : Bytes) :
    Marked (ledger.spend id pub) := by
  intro key
  unfold Ledger.spend
  cases id.nullifierIndex with
  | none => exact h key
  | some ni =>
      by_cases hkey : key = frToBytesn (publicSignal pub ni)
      · subst hkey
        simp
      · rw [Ledger.set_storage_of_ne _ _ _ (by simpa using hkey)]
        exact h key

theorem step_marked {ledger : Ledger} (invocation : Invocation) (h : Marked ledger) :
    Marked (step groth16 ledger invocation).1 := by
  intro key
  cases haccepted : accepted (Machine.record (step groth16) ledger invocation) with
  | none =>
      rw [nullifier_frame groth16 haccepted]
      exact h key
  | some submission =>
      rw [(accepted_step groth16 haccepted).2]
      exact spend_marked h _ _ key

theorem reached_marked (admin : Address) (invocations : List Invocation) :
    Marked (Reached groth16 admin invocations) := by
  apply Machine.exec_invariant
  · intro key
    have hkey : key ∉ spentKeys (genesis admin) := by simp [spentKeys_genesis]
    rintro hfalse
    exact hkey (by simp [spentKeys, hfalse])
  · intro ledger invocation _ h
    exact step_marked groth16 invocation h

theorem storage_eq_of_spentKeys {ledger other : Ledger} (hledger : Marked ledger)
    (hother : Marked other) (h : spentKeys ledger = spentKeys other) (key : BytesN 32) :
    ledger.storage (.data (.nullifier key)) = other.storage (.data (.nullifier key)) := by
  have hmem : key ∈ spentKeys ledger ↔ key ∈ spentKeys other := by rw [h]
  have hkey := hledger key
  have hkey' := hother key
  unfold spentKeys at hmem
  rcases hvalue : ledger.storage (.data (.nullifier key)) with _ | _ | _ <;>
    rcases hvalue' : other.storage (.data (.nullifier key)) with _ | _ | _ <;>
    simp_all

/-! ### Runs of submissions -/

/-- The nullifier keys of the successful calls, in the order of the calls. -/
def keysSpent (ledger : Ledger) (calls : List Invocation) : List (BytesN 32) :=
  (Machine.history (step groth16) ledger calls).filterMap spentKey

/-- Some call could spend the key. -/
def Spendable (ledger : Ledger) (calls : List Invocation) (key : BytesN 32) : Prop :=
  ledger.storage (.data (.nullifier key)) = none ∧
    ∃ call ∈ calls, call.Requests groth16 ledger.storage key

section Run

variable (ledger : Ledger) {calls order : List Invocation}

theorem mem_keysSpent_iff (hcalls : ∀ call ∈ calls, call.IsSubmission) (key : BytesN 32) :
    key ∈ keysSpent groth16 ledger calls ↔ Spendable groth16 ledger calls key := by
  have hunspent : key ∉ spentKeys ledger ↔ ledger.storage (.data (.nullifier key)) = none := by
    simp [spentKeys]
  unfold Spendable
  rw [← hunspent]
  exact (submissions_firstCome groth16 ledger).mem_tokens_iff (fun _ _ => rfl) hcalls key

theorem count_keysSpent (hcalls : ∀ call ∈ calls, call.IsSubmission) (key : BytesN 32) :
    (Spendable groth16 ledger calls key → (keysSpent groth16 ledger calls).count key = 1) ∧
      (¬ Spendable groth16 ledger calls key → (keysSpent groth16 ledger calls).count key = 0) := by
  have hnodup : (keysSpent groth16 ledger calls).Nodup :=
    ((submissions_firstCome groth16 ledger).run ledger calls).2.1
  rw [← mem_keysSpent_iff groth16 ledger hcalls]
  constructor
  · intro hmem
    exact List.count_eq_one_of_mem hnodup hmem
  · intro hmem
    exact List.count_eq_zero_of_not_mem hmem

theorem spendable_perm (horder : calls.Perm order) (key : BytesN 32) :
    Spendable groth16 ledger calls key ↔ Spendable groth16 ledger order key := by
  unfold Spendable
  simp only [horder.mem_iff]

theorem sameConfig_exec (hcalls : ∀ call ∈ calls, call.IsSubmission) :
    SameConfig (Machine.exec (step groth16) ledger calls).storage ledger.storage :=
  (submissions_firstCome groth16 ledger).stable_exec (fun _ _ => rfl) hcalls

theorem spentKeys_exec_perm (hcalls : ∀ call ∈ calls, call.IsSubmission)
    (horder : calls.Perm order) :
    spentKeys (Machine.exec (step groth16) ledger calls)
      = spentKeys (Machine.exec (step groth16) ledger order) := by
  have hspent (calls : List Invocation) : spentKeys (Machine.exec (step groth16) ledger calls)
      = spentKeys ledger ∪ {key | key ∈ keysSpent groth16 ledger calls} :=
    ((submissions_firstCome groth16 ledger).run ledger calls).1
  have hcallsOrder : ∀ call ∈ order, call.IsSubmission := fun call hcall =>
    hcalls call (horder.mem_iff.mpr hcall)
  rw [hspent calls, hspent order]
  congr 1
  ext key
  rw [Set.mem_ofPred_eq, Set.mem_ofPred_eq, mem_keysSpent_iff groth16 ledger hcalls,
    mem_keysSpent_iff groth16 ledger hcallsOrder, spendable_perm groth16 ledger horder]

end Run

/-- **The order of submissions does not matter.** From a reachable state, any two orders of the same
submissions leave the same storage except for the last claimant, with the configuration as it was;
a nullifier key is spent once if it was unspent and some call asks for it and passes every other
check, and never otherwise; and a call on a circuit without a nullifier ends as it would have ended
first. -/
theorem submissions_order_independent (admin : Address) (past calls order : List Invocation)
    (hcalls : ∀ call ∈ calls, call.IsSubmission) (horder : calls.Perm order) :
    (∀ key : StorageKey, key ≠ .claimed →
      (Machine.exec (step groth16) (Reached groth16 admin past) order).storage key
        = (Machine.exec (step groth16) (Reached groth16 admin past) calls).storage key) ∧
    SameConfig (Machine.exec (step groth16) (Reached groth16 admin past) order).storage
      (Reached groth16 admin past).storage ∧
    (∀ key : BytesN 32,
      (Spendable groth16 (Reached groth16 admin past) calls key →
        (keysSpent groth16 (Reached groth16 admin past) order).count key = 1) ∧
      (¬ Spendable groth16 (Reached groth16 admin past) calls key →
        (keysSpent groth16 (Reached groth16 admin past) order).count key = 0)) ∧
    ∀ entry ∈ Machine.history (step groth16) (Reached groth16 admin past) order,
      (∀ submission, entry.input.call.submission = some submission →
        ¬ (submission.circuit = 1 ∨ submission.circuit = 3)) →
      entry.output = (step groth16 (Reached groth16 admin past) entry.input).2 := by
  have hcallsOrder : ∀ call ∈ order, call.IsSubmission := fun call hcall =>
    hcalls call (horder.mem_iff.mpr hcall)
  have hmarked : ∀ inputs : List Invocation,
      Marked (Machine.exec (step groth16) (Reached groth16 admin past) inputs) := by
    intro inputs
    rw [← Machine.exec_append]
    exact reached_marked groth16 admin (past ++ inputs)
  have hspent := spentKeys_exec_perm groth16 (Reached groth16 admin past) hcalls horder
  have hconfig := sameConfig_exec groth16 (Reached groth16 admin past) hcalls
  have hconfigOrder := sameConfig_exec groth16 (Reached groth16 admin past) hcallsOrder
  refine ⟨?_, hconfigOrder, ?_, ?_⟩
  · intro key hkey
    match key with
    | .data (.nullifier key) =>
        exact (storage_eq_of_spentKeys (hmarked calls) (hmarked order) hspent key).symm
    | .claimed => exact absurd rfl hkey
    | .admin | .default | .issAx | .issAy | .root | .data (.verifyingKey _) =>
        rw [hconfigOrder _ (by exact trivial), hconfig _ (by exact trivial)]
  · intro key
    rw [spendable_perm groth16 _ horder]
    exact count_keysSpent groth16 _ hcallsOrder key
  · intro entry hentry hcircuit
    obtain ⟨before, after, hinputs, hrecord⟩ := Machine.mem_history _ hentry
    have hmem : ∀ call ∈ before, call.IsSubmission := fun call hcall =>
      hcallsOrder call (by rw [hinputs]; exact List.mem_append_left _ hcall)
    have hinput : entry.input.IsSubmission := hcallsOrder _ (by rw [hinputs]; simp)
    have hbefore := sameConfig_exec groth16 (Reached groth16 admin past) hmem
    rw [← output_of_no_nullifier groth16 hbefore hinput hcircuit]
    exact congrArg Machine.Record.output hrecord

/-! ### A race for one nullifier -/

theorem output_ne_true_of_spent {ledger : Ledger} (invocation : Invocation)
    {submission : Submission} (hsubmission : invocation.call.submission = some submission)
    (hcircuit : submission.circuit = 1 ∨ submission.circuit = 3)
    (hspent : frToBytesn (publicSignal submission.pub 0) ∈ spentKeys ledger) :
    (step groth16 ledger invocation).2 ≠ .ok (.bool true) := by
  intro houtput
  have haccepted : accepted (Machine.record (step groth16) ledger invocation)
      = some submission := by
    rw [accepted, Machine.record_output, houtput]
    exact hsubmission
  have hfresh := ((accepted_iff_passes ..).mp haccepted).2
  exact (fresh_iff ledger submission.pub hcircuit).mp hfresh hspent

theorem mem_spentKeys_spend (ledger : Ledger) (pub : Bytes) :
    frToBytesn (publicSignal pub 0) ∈ spentKeys (ledger.spend (cid 3) pub) := by
  rw [spentKeys_spend (by decide), if_pos (.inr rfl)]
  exact Set.mem_insert _ _

section Race

variable {ledger : Ledger} {proof pub : Bytes}
  (haccepted : Accepted groth16 ledger.storage 3 proof pub) (env : Env) (recipient : Address)

include haccepted

theorem events_verify_first :
    (Machine.exec (step groth16) ledger
        [⟨env, .verifyCredential 3 proof pub⟩, ⟨env, .claimFaucet recipient 3 proof pub⟩]).events
      = ledger.events := by
  have hfirst : (step groth16 ledger ⟨env, .verifyCredential 3 proof pub⟩).1
      = ledger.spend (cid 3) pub := by
    rw [step_verifyCredential, (credentialVerdict_eq_true_iff ..).mpr haccepted]
  have hspent := mem_spentKeys_spend ledger pub
  have hsecond := output_ne_true_of_spent groth16 ⟨env, .claimFaucet recipient 3 proof pub⟩ rfl
    (.inr rfl) hspent
  rw [Machine.exec_cons, Machine.exec_cons, Machine.exec_nil, hfirst,
    verification_frame groth16 env _ (by exact trivial) hsecond, Ledger.spend_events]

theorem events_claim_first (hauth : recipient ∈ env.authorized) :
    (Machine.exec (step groth16) ledger
        [⟨env, .claimFaucet recipient 3 proof pub⟩, ⟨env, .verifyCredential 3 proof pub⟩]).events
      = ledger.events ++ [⟨["faucet"], recipient⟩] := by
  have hfirst : (step groth16 ledger ⟨env, .claimFaucet recipient 3 proof pub⟩).1
      = (ledger.spend (cid 3) pub).claim recipient := by
    rw [step_claimFaucet, (faucetVerdict_eq_true_iff ..).mpr ⟨hauth, .inr rfl, haccepted⟩]
  have hspent : frToBytesn (publicSignal pub 0)
      ∈ spentKeys ((ledger.spend (cid 3) pub).claim recipient) := by
    rw [spentKeys_congr fun key => Ledger.claim_storage_of_ne _ recipient (by simp)]
    exact mem_spentKeys_spend ledger pub
  have hsecond := output_ne_true_of_spent groth16 ⟨env, .verifyCredential 3 proof pub⟩ rfl
    (.inr rfl) hspent
  rw [Machine.exec_cons, Machine.exec_cons, Machine.exec_nil, hfirst,
    verification_frame groth16 env _ (by exact trivial) hsecond, Ledger.claim,
    Ledger.publish_events, Ledger.set_events, Ledger.spend_events]

end Race

def raceVerify : Invocation :=
  ⟨⟨[zeroAccount]⟩, .verifyCredential 3 (proofBlob generatorProof)
    (pubBlob adultCredential.publicSignals)⟩

def raceClaim : Invocation := generatorClaim 3 adultCredential.publicSignals

def raceSetup : List Invocation :=
  generatorSetup 3 adultCredential.issuerAx adultCredential.issuerAy

def raceLedger : Ledger := Reached (verifyGroth16 discreteLog) zeroAccount raceSetup

theorem race_accepted :
    Accepted (verifyGroth16 discreteLog) raceLedger.storage 3 (proofBlob generatorProof)
      (pubBlob adultCredential.publicSignals) :=
  sample_accepted

theorem race_submissions : ∀ call ∈ [raceVerify, raceClaim], call.IsSubmission := by
  intro call hcall
  rcases List.mem_pair.mp hcall with rfl | rfl
  · trivial
  · exact List.mem_singleton_self zeroAccount

/-- A credential used once in each way pays the faucet only if the claim comes first. -/
theorem submissions_events_differ :
    [raceVerify, raceClaim].Perm [raceClaim, raceVerify] ∧
      (∀ call ∈ [raceVerify, raceClaim], call.IsSubmission) ∧
      ¬ (Machine.exec (step (verifyGroth16 discreteLog)) raceLedger
            [raceVerify, raceClaim]).events.Perm
          (Machine.exec (step (verifyGroth16 discreteLog)) raceLedger
            [raceClaim, raceVerify]).events := by
  refine ⟨List.Perm.swap .., race_submissions, ?_⟩
  have hverify := events_verify_first _ race_accepted ⟨[zeroAccount]⟩ zeroAccount
  have hclaim := events_claim_first _ race_accepted ⟨[zeroAccount]⟩ zeroAccount
    (List.mem_singleton_self zeroAccount)
  intro hperm
  have hlength := hperm.length_eq
  rw [raceVerify, raceClaim, generatorClaim, hverify, hclaim, List.length_append] at hlength
  simp at hlength

theorem submissions_order_independent_race :
    (keysSpent (verifyGroth16 discreteLog) raceLedger [raceClaim, raceVerify]).count
      (frToBytesn adultCredential.nullifier) = 1 := by
  have hrace := submissions_order_independent (verifyGroth16 discreteLog) zeroAccount raceSetup
    [raceVerify, raceClaim] [raceClaim, raceVerify] race_submissions (List.Perm.swap ..)
  have hsignal : publicSignal (pubBlob adultCredential.publicSignals) 0
      = adultCredential.nullifier := publicSignal_pubBlob rfl
  have hunspent := race_accepted.unspent _ (.inr rfl)
  rw [hsignal] at hunspent
  refine (hrace.2.2.1 (frToBytesn adultCredential.nullifier)).1
    ⟨hunspent, raceVerify, List.mem_cons_self, ?_⟩
  have heligible := ((accepted_iff_eligible ..).mp race_accepted).1
  exact ⟨⟨3, proofBlob generatorProof, pubBlob adultCredential.publicSignals⟩, ⟨rfl, heligible⟩,
    .inr rfl, congrArg frToBytesn hsignal⟩

end Veritas
