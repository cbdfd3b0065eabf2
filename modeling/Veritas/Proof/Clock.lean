import Veritas.Proof.Faucet

/-!
# The reference date

`AgeGte` measures age against a date that is a public input. The contract stores no date and
compares none, so which dates are accepted in a state is decided by the installed key alone: whoever
holds proofs for two dates can submit either, and no state with a key excludes two such proofs.
-/

namespace Veritas

variable (groth16 : Groth16)

structure SameDate (pub other : Bytes) : Prop where
  year : publicSignal pub 2 = publicSignal other 2
  month : publicSignal pub 3 = publicSignal other 3
  day : publicSignal pub 4 = publicSignal other 4

/-- The proofs that the predicate accepts under the key of `AgeGte`, with the flag set, are all for
one date. -/
def KeyFixesDate (storage : Storage) : Prop :=
  ∀ proof pub proof' pub', Proved groth16 storage 0 6 proof pub → publicSignal pub 1 = 1 →
    Proved groth16 storage 0 6 proof' pub' → publicSignal pub' 1 = 1 → SameDate pub pub'

theorem accepted_of_proved {ledger : Ledger} {proof pub : Bytes}
    (hproved : Proved groth16 ledger.storage 0 6 proof pub) (hflag : publicSignal pub 1 = 1)
    (env : Env) :
    accepted (Machine.record (step groth16) ledger ⟨env, .verifyCredential 0 proof pub⟩)
      = some ⟨0, proof, pub⟩ :=
  (accepted_verifyCredential_iff ..).mpr ⟨rfl, (accepted_ageGte_iff ..).mpr ⟨hproved, hflag⟩⟩

/-- The `AgeGte` submissions that would be accepted in the state are all for one date. -/
def DateFixed (ledger : Ledger) : Prop :=
  ∀ (first second : Invocation) (submission submission' : Submission),
    accepted (Machine.record (step groth16) ledger first) = some submission →
    submission.circuit = 0 →
    accepted (Machine.record (step groth16) ledger second) = some submission' →
    submission'.circuit = 0 → SameDate submission.pub submission'.pub

/-- The contract compares no date, so fixing it is left to the predicate. -/
theorem dateFixed_iff_keyFixesDate (ledger : Ledger) :
    DateFixed groth16 ledger ↔ KeyFixesDate groth16 ledger.storage := by
  constructor
  · intro h proof pub proof' pub' hproved hflag hproved' hflag'
    exact h _ _ _ _ (accepted_of_proved groth16 hproved hflag ⟨[]⟩) rfl
      (accepted_of_proved groth16 hproved' hflag' ⟨[]⟩) rfl
  · rintro hkey first second ⟨circuit, proof, pub⟩ ⟨circuit', proof', pub'⟩ hfirst rfl hsecond rfl
    obtain ⟨hchecks, -⟩ := accepted_step groth16 hfirst
    obtain ⟨hchecks', -⟩ := accepted_step groth16 hsecond
    obtain ⟨hproved, hflag⟩ := (accepted_ageGte_iff ..).mp hchecks
    obtain ⟨hproved', hflag'⟩ := (accepted_ageGte_iff ..).mp hchecks'
    exact hkey proof pub proof' pub' hproved hflag hproved' hflag'

/-- **When the prover cannot move the clock.** In a reachable state no predicate accepts `AgeGte`
submissions for two dates exactly when no key that parses is stored for the circuit. -/
theorem accepted_date_fixed_iff (admin : Address) (invocations : List Invocation) :
    (∀ predicate : Groth16, DateFixed predicate (Reached groth16 admin invocations)) ↔
      ¬ KeyInstalled (Reached groth16 admin invocations).storage 0 := by
  simp only [dateFixed_iff_keyFixesDate]
  generalize (Reached groth16 admin invocations).storage = storage
  constructor
  · intro hfixed hkey
    have hproved := hkey.proved [0, 1, 0, 0, 0, 0] rfl
    have hproved' := hkey.proved [0, 1, 1, 0, 0, 0] rfl
    have hsame := hfixed acceptAll _ _ _ _ hproved (publicSignal_pubBlob rfl) hproved'
      (publicSignal_pubBlob rfl)
    have hyear := hsame.year
    rw [publicSignal_pubBlob rfl, publicSignal_pubBlob rfl] at hyear
    exact absurd hyear (by decide)
  · intro hkey predicate proof _ _ _ hproved
    exact absurd (hproved.keyInstalled predicate) hkey

theorem accepted_dates_differ :
    accepted (Machine.record (step (verifyGroth16 discreteLog))
        (Reached (verifyGroth16 discreteLog) zeroAccount [installAgeGte])
        (generatorClaim 0 [-2068, 1, 2026, 6, 15, 18]))
        = some (generatorSubmission 0 [-2068, 1, 2026, 6, 15, 18]) ∧
      accepted (Machine.record (step (verifyGroth16 discreteLog))
        (Reached (verifyGroth16 discreteLog) zeroAccount [installAgeGte])
        (generatorClaim 0 [-2092, 1, 2050, 6, 15, 18]))
        = some (generatorSubmission 0 [-2092, 1, 2050, 6, 15, 18]) ∧
      ¬ SameDate (pubBlob [-2068, 1, 2026, 6, 15, 18]) (pubBlob [-2092, 1, 2050, 6, 15, 18]) := by
  refine ⟨accepted_of_claimed (claimed_generator installAgeGte_raw rfl rfl (by decide)),
    accepted_of_claimed (claimed_generator installAgeGte_raw rfl rfl (by decide)), ?_⟩
  intro hsame
  have hyear : publicSignal (pubBlob [-2068, 1, 2026, 6, 15, 18]) 2 = 2026 :=
    publicSignal_pubBlob rfl
  have hyear' : publicSignal (pubBlob [-2092, 1, 2050, 6, 15, 18]) 2 = 2050 :=
    publicSignal_pubBlob rfl
  have hequal := hsame.year
  rw [hyear, hyear'] at hequal
  exact absurd hequal (by decide)

end Veritas
