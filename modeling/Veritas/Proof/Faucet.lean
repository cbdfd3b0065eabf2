import Veritas.Proof.Chunks
import Veritas.Proof.Replay
import Veritas.Proof.Traps

/-!
# The gated action

The faucet unlocks on an accepted submission of `AgeGte` or `CredentialAge`. Two things one might
expect of it hold in part only. The threshold is a public input that nothing compares with 18, so an
accepted claim may carry any threshold the proof was made for: the state rules out a low one only if
it rules out every claim. And the issuer and the nullifier belong to the layout of `CredentialAge`
alone, so only its claims are bound to the issuer and cannot be replayed.
-/

namespace Veritas

variable (groth16 : Groth16)

theorem claimed_record_iff {ledger : Ledger} {invocation : Invocation} {submission : Submission} :
    claimed (Machine.record (step groth16) ledger invocation) = some submission ↔
      ∃ env recipient, invocation
          = ⟨env, .claimFaucet recipient submission.circuit submission.proof submission.pub⟩ ∧
        recipient ∈ env.authorized ∧ (submission.circuit = 0 ∨ submission.circuit = 3) ∧
        Accepted groth16 ledger.storage submission.circuit submission.proof submission.pub := by
  obtain ⟨env, call⟩ := invocation
  cases call with
  | claimFaucet recipient circuit proof pub =>
      refine (accepted_claimFaucet_iff groth16 env ledger recipient circuit proof pub _).trans ?_
      constructor
      · rintro ⟨rfl, hclaim⟩
        exact ⟨env, recipient, rfl, hclaim⟩
      · rintro ⟨_, _, heq, hclaim⟩
        cases heq
        exact ⟨rfl, hclaim⟩
  | _ =>
      constructor
      · intro h
        cases h
      · rintro ⟨_, _, heq, _⟩
        cases heq

/-! ### The threshold -/

def ThresholdMet (submission : Submission) : Prop :=
  ∃ i, (cid submission.circuit).thresholdIndex = some i ∧ 18 ≤ (publicSignal submission.pub i).val

/-- The proofs that the predicate accepts under the installed keys gate on 18 by themselves. -/
structure KeysGate (storage : Storage) : Prop where
  ageGte : ∀ proof pub, Proved groth16 storage 0 6 proof pub → publicSignal pub 1 = 1 →
    18 ≤ (publicSignal pub 5).val
  credentialAge : ∀ proof pub, Proved groth16 storage 3 4 proof pub →
    IssuerMatches storage (publicSignal pub 1) (publicSignal pub 2) →
    Unspent storage (publicSignal pub 0) → 18 ≤ (publicSignal pub 3).val

theorem thresholdMet_iff {submission : Submission} {i : ℕ}
    (h : (cid submission.circuit).thresholdIndex = some i) :
    ThresholdMet submission ↔ 18 ≤ (publicSignal submission.pub i).val := by
  rw [ThresholdMet, h]
  constructor
  · rintro ⟨_, hj, hmet⟩
    cases hj
    exact hmet
  · intro hmet
    exact ⟨i, rfl, hmet⟩

/-- Every claim that the faucet would accept in the state has a threshold of at least 18. -/
def FaucetGates (ledger : Ledger) : Prop :=
  ∀ (env : Env) (recipient : Address) (circuit : UInt32) (proof pub : Bytes),
    (step groth16 ledger ⟨env, .claimFaucet recipient circuit proof pub⟩).2 = .ok (.bool true) →
    ThresholdMet ⟨circuit, proof, pub⟩

/-- The contract never looks at the threshold, so the gate is left to the predicate. -/
theorem faucetGates_iff_keysGate (ledger : Ledger) :
    FaucetGates groth16 ledger ↔ KeysGate groth16 ledger.storage := by
  have hauth : zeroAccount ∈ (⟨[zeroAccount]⟩ : Env).authorized := List.mem_singleton_self _
  constructor
  · intro h
    constructor
    · intro proof pub hproved hflag
      have haccepted := (accepted_ageGte_iff ..).mpr ⟨hproved, hflag⟩
      have htrue := (claimFaucet_eq_true_iff ..).mpr ⟨hauth, .inl rfl, haccepted⟩
      exact (thresholdMet_iff rfl).mp (h _ zeroAccount 0 proof pub htrue)
    · intro proof pub hproved hissuer hunspent
      have haccepted := (accepted_credentialAge_iff ..).mpr ⟨hproved, hissuer, hunspent⟩
      have htrue := (claimFaucet_eq_true_iff ..).mpr ⟨hauth, .inr rfl, haccepted⟩
      exact (thresholdMet_iff rfl).mp (h _ zeroAccount 3 proof pub htrue)
  · intro hgate env recipient circuit proof pub htrue
    obtain ⟨-, rfl | rfl, haccepted⟩ := (claimFaucet_eq_true_iff ..).mp htrue
    · obtain ⟨hproved, hflag⟩ := (accepted_ageGte_iff ..).mp haccepted
      exact (thresholdMet_iff rfl).mpr (hgate.ageGte proof pub hproved hflag)
    · obtain ⟨hproved, hissuer, hunspent⟩ := (accepted_credentialAge_iff ..).mp haccepted
      exact (thresholdMet_iff rfl).mpr (hgate.credentialAge proof pub hproved hissuer hunspent)

/-! ### States in which some predicate accepts -/

/-- A key that parses is stored for the circuit. -/
def KeyInstalled (storage : Storage) (circuit : UInt32) : Prop :=
  ∃ raw, storage (.data (.verifyingKey circuit)) = some raw ∧ ¬ Truncated raw

/-- Both coordinates of the issuer key are set, to integers below the field order. -/
structure IssuerInstalled (storage : Storage) : Prop where
  x : ∃ ax, storage .issAx = some ax ∧ Canonical ax
  y : ∃ ay, storage .issAy = some ay ∧ Canonical ay

/-- What has to be stored before a claim of `CredentialAge` can succeed. -/
structure CredentialAgeOpen (storage : Storage) : Prop where
  key : KeyInstalled storage 3
  issuer : IssuerInstalled storage
  nullifier : ∃ nullifier, Unspent storage nullifier

theorem Proved.keyInstalled {storage : Storage} {circuit : UInt32} {n : ℕ} {proof pub : Bytes}
    (h : Proved groth16 storage circuit n proof pub) : KeyInstalled storage circuit := by
  obtain ⟨raw, vk, hraw, hvk, -⟩ := h.key
  refine ⟨raw, hraw, ?_⟩
  intro htruncated
  rw [parseVk_truncated htruncated] at hvk
  cases hvk

theorem IssuerMatches.issuerInstalled {storage : Storage} {x y : Fr}
    (h : IssuerMatches storage x y) : IssuerInstalled storage :=
  ⟨⟨_, h.x, canonical_frToBytesn x⟩, ⟨_, h.y, canonical_frToBytesn y⟩⟩

theorem IssuerInstalled.exists_matches {storage : Storage} (h : IssuerInstalled storage) :
    ∃ x y, IssuerMatches storage x y := by
  obtain ⟨⟨ax, hax, hx⟩, ⟨ay, hay, hy⟩⟩ := h
  rw [← frToBytesn_scalarOf_eq_self_iff] at hx hy
  exact ⟨scalarOf ax, scalarOf ay, by rw [hx, hax], by rw [hy, hay]⟩

def acceptAll : Groth16 := fun _ _ _ => .ok true

theorem KeyInstalled.proved {storage : Storage} {circuit : UInt32} {n : ℕ}
    (h : KeyInstalled storage circuit) (pub : List Fr) (hlength : pub.length = n) :
    Proved acceptAll storage circuit n (List.replicate 256 0) (pubBlob pub) := by
  obtain ⟨raw, hraw, hcomplete⟩ := h
  exact ⟨List.length_replicate, by rw [length_pubBlob, hlength], raw, vkOf raw, hraw,
    parseVk_complete hcomplete, rfl⟩

/-- **When the faucet gates on 18.** In a reachable state no predicate lets a claim with a threshold
below 18 through exactly when the state lets no claim through at all: no key that parses is stored
for `AgeGte`, and for `CredentialAge` there is no such key, no canonical issuer key, or no nullifier
left. -/
theorem faucet_gates_iff (admin : Address) (invocations : List Invocation) :
    (∀ predicate : Groth16, FaucetGates predicate (Reached groth16 admin invocations)) ↔
      ¬ KeyInstalled (Reached groth16 admin invocations).storage 0 ∧
        ¬ CredentialAgeOpen (Reached groth16 admin invocations).storage := by
  simp only [faucetGates_iff_keysGate]
  generalize (Reached groth16 admin invocations).storage = storage
  have hlow : ¬ 18 ≤ (0 : Fr).val := by decide
  constructor
  · intro hgates
    constructor
    · intro hkey
      have hproved := hkey.proved [0, 1, 0, 0, 0, 0] rfl
      have hgate := (hgates acceptAll).ageGte _ _ hproved (publicSignal_pubBlob rfl)
      rw [publicSignal_pubBlob rfl] at hgate
      exact hlow hgate
    · rintro ⟨hkey, hissuer, nullifier, hunspent⟩
      obtain ⟨x, y, hmatches⟩ := hissuer.exists_matches
      have hsignal : ∀ i f, [nullifier, x, y, 0][i]? = some f →
          publicSignal (pubBlob [nullifier, x, y, 0]) i = f := fun _ _ => publicSignal_pubBlob
      have hproved := hkey.proved [nullifier, x, y, 0] rfl
      have hgate := (hgates acceptAll).credentialAge _ _ hproved
      rw [hsignal 0 _ rfl, hsignal 1 _ rfl, hsignal 2 _ rfl, hsignal 3 _ rfl] at hgate
      exact hlow (hgate hmatches hunspent)
  · rintro ⟨hageGte, hcredentialAge⟩ predicate
    constructor
    · intro proof pub hproved _
      exact absurd (hproved.keyInstalled predicate) hageGte
    · intro proof pub hproved hissuer hunspent
      exact absurd ⟨hproved.keyInstalled predicate, hissuer.issuerInstalled, _, hunspent⟩
        hcredentialAge

/-! ### A claim below 18 -/

def installAgeGte : Invocation :=
  ⟨⟨[zeroAccount]⟩, .setVerifyingKey 0 (vkBlob (generatorKey 6) 6)⟩

theorem claimed_generator {ledger : Ledger}
    (hraw : ledger.storage (.data (.verifyingKey 0)) = some (vkBlob (generatorKey 6) 6))
    {pub : List Fr} (hlength : pub.length = 6) (hflag : pub[1]? = some 1) (hsum : pub.sum = -2) :
    claimed (Machine.record (step (verifyGroth16 discreteLog)) ledger (generatorClaim 0 pub))
      = some (generatorSubmission 0 pub) := by
  have hproved := proved_generator (by decide) (by omega) hraw hlength hsum
  exact (claimed_record_iff _).mpr ⟨⟨[zeroAccount]⟩, zeroAccount, rfl, List.mem_singleton_self _,
    .inl rfl, (accepted_ageGte_iff ..).mpr ⟨hproved, publicSignal_pubBlob hflag⟩⟩

theorem step_generatorClaim {ledger : Ledger}
    (hraw : ledger.storage (.data (.verifyingKey 0)) = some (vkBlob (generatorKey 6) 6))
    {pub : List Fr} (hlength : pub.length = 6) (hflag : pub[1]? = some 1) (hsum : pub.sum = -2) :
    (step (verifyGroth16 discreteLog) ledger (generatorClaim 0 pub)).1
      = ledger.claim zeroAccount := by
  have hproved := proved_generator (by decide) (by omega) hraw hlength hsum
  have haccepted := (accepted_ageGte_iff ..).mpr ⟨hproved, publicSignal_pubBlob hflag⟩
  have hauth : zeroAccount ∈ (⟨[zeroAccount]⟩ : Env).authorized := List.mem_singleton_self _
  rw [generatorClaim, step_claimFaucet,
    (faucetVerdict_eq_true_iff ..).mpr ⟨hauth, .inl rfl, haccepted⟩]
  rfl

theorem installAgeGte_raw :
    (Reached (verifyGroth16 discreteLog) zeroAccount [installAgeGte]).storage
      (.data (.verifyingKey 0)) = some (vkBlob (generatorKey 6) 6) := by
  rw [installAgeGte, reached_install]
  exact Ledger.set_storage_self ..

theorem faucet_unlocks_below_eighteen :
    (step (verifyGroth16 discreteLog)
        (Reached (verifyGroth16 discreteLog) zeroAccount [installAgeGte])
        (generatorClaim 0 [-2050, 1, 2026, 6, 15, 0])).2 = .ok (.bool true) ∧
      ¬ ThresholdMet (generatorSubmission 0 [-2050, 1, 2026, 6, 15, 0]) := by
  have hthreshold : publicSignal (pubBlob [-2050, 1, 2026, 6, 15, 0]) 5 = 0 :=
    publicSignal_pubBlob rfl
  constructor
  · have hclaimed : claimed (Machine.record (step (verifyGroth16 discreteLog))
        (Reached (verifyGroth16 discreteLog) zeroAccount [installAgeGte])
        (generatorClaim 0 [-2050, 1, 2026, 6, 15, 0]))
        = some (generatorSubmission 0 [-2050, 1, 2026, 6, 15, 0]) :=
      claimed_generator installAgeGte_raw rfl rfl (by decide)
    have houtput := (accepted_eq_some_iff.mp (accepted_of_claimed hclaimed)).1
    rwa [Machine.record_output] at houtput
  · rw [generatorSubmission, thresholdMet_iff rfl]
    change ¬ 18 ≤ (publicSignal (pubBlob [-2050, 1, 2026, 6, 15, 0]) 5).val
    rw [hthreshold]
    decide

/-! ### The issuer and the nullifier -/

theorem spentNullifier_of_claimed {entry : Entry} {submission : Submission}
    (h : claimed entry = some submission) (hcircuit : submission.circuit = 3) :
    spentNullifier entry = some (publicSignal submission.pub 0) := by
  rw [spentNullifier_of_accepted (accepted_of_claimed h), if_pos (.inr hcircuit)]

theorem claimed_in_history {admin : Address} {invocations : List Invocation} {entry : Entry}
    {submission : Submission} (hentry : entry ∈ History groth16 admin invocations)
    (hclaimed : claimed entry = some submission) :
    (submission.circuit = 0 ∨ submission.circuit = 3) ∧
      Accepted groth16 entry.pre.storage submission.circuit submission.proof submission.pub := by
  rw [Machine.eq_record_of_mem _ hentry] at hclaimed
  obtain ⟨-, -, -, -, hcircuit, haccepted⟩ := (claimed_record_iff groth16).mp hclaimed
  exact ⟨hcircuit, haccepted⟩

/-- The two circuits of the faucet differ in the number of signals. -/
theorem Accepted.circuit_eq_three {storage : Storage} {circuit : UInt32} {proof pub : Bytes}
    (h : Accepted groth16 storage circuit proof pub) (hcircuit : circuit = 0 ∨ circuit = 3)
    (hcount : pub.length / 32 = 4) : circuit = 3 := by
  rcases hcircuit with rfl | rfl
  · have hlength : pub.length = 6 * 32 := h.length
    omega
  · rfl

/-- **Claims of `CredentialAge` are bound to the issuer and cannot be replayed.** Each carries the
stored issuer key and records a nullifier that was not there before, and no other successful claim
of the run has the same public inputs. -/
theorem credentialAge_claims_bound (admin : Address) (invocations : List Invocation) :
    (∀ entry ∈ History groth16 admin invocations, ∀ submission,
      claimed entry = some submission → submission.circuit = 3 →
      IssuerMatches entry.pre.storage (publicSignal submission.pub 1)
          (publicSignal submission.pub 2) ∧
        Unspent entry.pre.storage (publicSignal submission.pub 0) ∧
        ¬ Unspent (step groth16 entry.pre entry.input).1.storage
          (publicSignal submission.pub 0)) ∧
    ∀ (i j : ℕ) (ei ej : Entry) (si sj : Submission),
      (History groth16 admin invocations)[i]? = some ei → claimed ei = some si →
      (History groth16 admin invocations)[j]? = some ej → claimed ej = some sj →
      si.circuit = 3 →
      publicSignals si.pub (si.pub.length / 32) = publicSignals sj.pub (sj.pub.length / 32) →
      i = j := by
  constructor
  · rintro entry hentry ⟨circuit, proof, pub⟩ hclaimed rfl
    obtain ⟨-, haccepted⟩ := claimed_in_history groth16 hentry hclaimed
    obtain ⟨-, hissuer, hunspent⟩ := (accepted_credentialAge_iff ..).mp haccepted
    have haccept := accepted_of_claimed hclaimed
    rw [Machine.eq_record_of_mem _ hentry] at haccept
    have hspent := spent_of_accepted groth16 haccept (.inr rfl)
    exact ⟨hissuer, hunspent, hspent⟩
  · intro i j ei ej si sj hi hci hj hcj hcircuit hsame
    obtain ⟨-, hai⟩ := claimed_in_history groth16 (List.mem_of_getElem? hi) hci
    obtain ⟨hcircuitj, haj⟩ := claimed_in_history groth16 (List.mem_of_getElem? hj) hcj
    have hcounti : si.pub.length / 32 = 4 := by
      have hlength := hai.length
      rw [hcircuit] at hlength
      have hfour : si.pub.length = 4 * 32 := hlength
      omega
    have hcountj : sj.pub.length / 32 = 4 := by
      have hlengths := congrArg List.length hsame
      rw [length_publicSignals, length_publicSignals] at hlengths
      omega
    have hnullifier : publicSignal si.pub 0 = publicSignal sj.pub 0 := by
      have hfirst := congrArg (fun signals => signals[0]?) hsame
      rw [getElem?_publicSignals _ (by omega), getElem?_publicSignals _ (by omega),
        Option.some.injEq] at hfirst
      exact hfirst
    have htokeni := spentNullifier_of_claimed hci hcircuit
    have htokenj := spentNullifier_of_claimed hcj (haj.circuit_eq_three _ hcircuitj hcountj)
    rw [← hnullifier] at htokenj
    exact nullifier_unique groth16 hi htokeni hj htokenj

/-- A claim, and the same claim again. -/
theorem credentialAge_claims_bound_sample :
    ∃ first : Entry, claimed first = some (generatorSubmission 3 sampleVector) ∧
      (History (verifyGroth16 discreteLog) zeroAccount
        (sampleSetup ++ [generatorClaim 3 sampleVector, generatorClaim 3 sampleVector]))[2]?
          = some first ∧
      IssuerMatches first.pre.storage (11 : ℕ) (-(38 : ℕ)) ∧
      Unspent first.pre.storage (7 : ℕ) ∧
      ∀ (j : ℕ) (other : Entry),
        (History (verifyGroth16 discreteLog) zeroAccount
          (sampleSetup ++ [generatorClaim 3 sampleVector, generatorClaim 3 sampleVector]))[j]?
            = some other →
        claimed other = some (generatorSubmission 3 sampleVector) → 2 = j := by
  obtain ⟨hbound, hunique⟩ := credentialAge_claims_bound (verifyGroth16 discreteLog) zeroAccount
    (sampleSetup ++ [generatorClaim 3 sampleVector, generatorClaim 3 sampleVector])
  have hfirst := Machine.getElem?_history (step (verifyGroth16 discreteLog))
    (genesis zeroAccount) sampleSetup [generatorClaim 3 sampleVector]
    (generatorClaim 3 sampleVector)
  have hclaimed : claimed (Machine.record (step (verifyGroth16 discreteLog)) sampleLedger
      (generatorClaim 3 sampleVector)) = some (generatorSubmission 3 sampleVector) :=
    (claimed_record_iff _).mpr ⟨⟨[zeroAccount]⟩, zeroAccount, rfl, List.mem_singleton_self _,
      .inr rfl, sample_accepted⟩
  obtain ⟨hissuer, hunspent, -⟩ := hbound _ (List.mem_of_getElem? hfirst) _ hclaimed rfl
  refine ⟨_, hclaimed, hfirst, ?_, ?_, ?_⟩
  · rwa [generatorSubmission, publicSignal_sampleVector rfl, publicSignal_sampleVector rfl]
      at hissuer
  · rwa [generatorSubmission, publicSignal_sampleVector rfl] at hunspent
  · intro j other hother hagain
    exact hunique 2 j _ other _ _ hfirst hclaimed hother hagain rfl rfl

/-- One `AgeGte` proof, claimed twice, with no issuer ever set. -/
theorem ageGte_claim_replayed :
    ∃ first second : Entry,
      (History (verifyGroth16 discreteLog) zeroAccount
        [installAgeGte, generatorClaim 0 [-2068, 1, 2026, 6, 15, 18],
          generatorClaim 0 [-2068, 1, 2026, 6, 15, 18]])[1]? = some first ∧
      (History (verifyGroth16 discreteLog) zeroAccount
        [installAgeGte, generatorClaim 0 [-2068, 1, 2026, 6, 15, 18],
          generatorClaim 0 [-2068, 1, 2026, 6, 15, 18]])[2]? = some second ∧
      claimed first = some (generatorSubmission 0 [-2068, 1, 2026, 6, 15, 18]) ∧
      claimed second = some (generatorSubmission 0 [-2068, 1, 2026, 6, 15, 18]) ∧
      first.pre.storage .issAx = none := by
  have hissuer : (Reached (verifyGroth16 discreteLog) zeroAccount [installAgeGte]).storage
      .issAx = none := by
    rw [installAgeGte, reached_install, Ledger.set_storage_of_ne _ _ _ (by simp), genesis,
      Ledger.set_storage_of_ne _ _ _ (by simp)]
    rfl
  have hsum : ([-2068, 1, 2026, 6, 15, 18] : List Fr).sum = -2 := by decide
  have hpost : Reached (verifyGroth16 discreteLog) zeroAccount
      ([installAgeGte] ++ [generatorClaim 0 [-2068, 1, 2026, 6, 15, 18]])
      = (Reached (verifyGroth16 discreteLog) zeroAccount [installAgeGte]).claim zeroAccount := by
    rw [Reached, Machine.exec_concat, step_generatorClaim installAgeGte_raw rfl rfl hsum]
  have hraw : (Reached (verifyGroth16 discreteLog) zeroAccount
      ([installAgeGte] ++ [generatorClaim 0 [-2068, 1, 2026, 6, 15, 18]])).storage
      (.data (.verifyingKey 0)) = some (vkBlob (generatorKey 6) 6) := by
    rw [hpost, Ledger.claim_storage_of_ne _ _ (by simp)]
    exact installAgeGte_raw
  have hfirst := Machine.getElem?_history (step (verifyGroth16 discreteLog)) (genesis zeroAccount)
    [installAgeGte] [generatorClaim 0 [-2068, 1, 2026, 6, 15, 18]]
    (generatorClaim 0 [-2068, 1, 2026, 6, 15, 18])
  have hsecond := Machine.getElem?_history (step (verifyGroth16 discreteLog)) (genesis zeroAccount)
    ([installAgeGte] ++ [generatorClaim 0 [-2068, 1, 2026, 6, 15, 18]]) []
    (generatorClaim 0 [-2068, 1, 2026, 6, 15, 18])
  refine ⟨_, _, hfirst, hsecond, claimed_generator installAgeGte_raw rfl rfl hsum,
    claimed_generator hraw rfl rfl hsum, ?_⟩
  rw [Machine.record_pre]
  exact hissuer

end Veritas
