import Veritas.Proof.Credential
import Veritas.Proof.Issuance
import Mathlib.Data.Finset.Card

/-!
# One acceptance per holder

The nullifier of `CredentialAge` hashes the holder's secret alone, and the issuer signs the secret
with the age. So the accepted presentations of a run have pairwise different secrets behind them,
and each secret is one the issuer signed: however many credentials a holder collects and whatever
thresholds it proves, an issuer's log bounds how often the contract says yes.
-/

namespace Veritas

variable (groth16 : Groth16)

/-- The `CredentialAge` submission a step accepted while the ledger named the issuer. -/
def presented (issuerAx issuerAy : Fr) (entry : Entry) : Option Submission :=
  match accepted entry with
  | some submission =>
      if submission.circuit = 3 ∧ entry.pre.storage .issAx = some (frToBytesn issuerAx) ∧
          entry.pre.storage .issAy = some (frToBytesn issuerAy) then
        some submission
      else none
  | none => none

def presentations (admin : Address) (invocations : List Invocation) (issuerAx issuerAy : Fr) :
    List Entry :=
  (History groth16 admin invocations).filter fun entry =>
    (presented issuerAx issuerAy entry).isSome

/-- The assignment has the submitted public signals. -/
structure Explains (lib : Circomlib Fr) (submission : Submission) (w : CredentialAge Fr) :
    Prop where
  satisfied : w.Satisfied lib
  publicSignals : publicSignals submission.pub 4 = w.publicSignals

theorem presented_eq_some_iff {issuerAx issuerAy : Fr} {entry : Entry} {submission : Submission} :
    presented issuerAx issuerAy entry = some submission ↔
      accepted entry = some submission ∧ submission.circuit = 3 ∧
        entry.pre.storage .issAx = some (frToBytesn issuerAx) ∧
        entry.pre.storage .issAy = some (frToBytesn issuerAy) := by
  rw [presented]
  cases accepted entry with
  | none => simp
  | some other =>
      dsimp only
      split
      next h =>
        constructor
        · intro hsome
          cases hsome
          exact ⟨rfl, h⟩
        · rintro ⟨hsome, -⟩
          exact hsome
      next h =>
        constructor
        · intro hnone
          cases hnone
        · rintro ⟨hsome, hrest⟩
          cases hsome
          exact absurd hrest h

theorem Explains.nullifier {lib : Circomlib Fr} {submission : Submission} {w : CredentialAge Fr}
    (h : Explains lib submission w) :
    publicSignal submission.pub 0 = lib.poseidon [w.holderSecret] := by
  obtain ⟨hnullifier, -⟩ := publicSignals_eq_four h.publicSignals
  rw [hnullifier, h.satisfied.nullifier, h.satisfied.nf]

/-- A presentation is checked against the issuer the ledger names. -/
theorem Explains.issuer {lib : Circomlib Fr} {issuerAx issuerAy : Fr} {entry : Entry}
    {submission : Submission} {w : CredentialAge Fr} (h : Explains lib submission w)
    (hrecord : entry = Machine.record (step groth16) entry.pre entry.input)
    (hpresented : presented issuerAx issuerAy entry = some submission) :
    w.issuerAx = issuerAx ∧ w.issuerAy = issuerAy := by
  obtain ⟨haccepted, hcircuit, hax, hay⟩ := presented_eq_some_iff.mp hpresented
  rw [hrecord] at haccepted
  obtain ⟨hchecks, -⟩ := accepted_step groth16 haccepted
  rw [hcircuit] at hchecks
  obtain ⟨-, hissuer, -⟩ := (accepted_credentialAge_iff ..).mp hchecks
  obtain ⟨-, hx, hy, -⟩ := publicSignals_eq_four h.publicSignals
  have hkeyx := hissuer.x
  have hkeyy := hissuer.y
  rw [hax, Option.some.injEq, hx] at hkeyx
  rw [hay, Option.some.injEq, hy] at hkeyy
  exact ⟨(frToBytesn_injective hkeyx).symm, (frToBytesn_injective hkeyy).symm⟩

theorem spentNullifier_of_presented {issuerAx issuerAy : Fr} {entry : Entry}
    {submission : Submission} (h : presented issuerAx issuerAy entry = some submission) :
    spentNullifier entry = some (publicSignal submission.pub 0) := by
  obtain ⟨haccepted, hcircuit, -⟩ := presented_eq_some_iff.mp h
  rw [spentNullifier_of_accepted haccepted, if_pos (.inr hcircuit)]

section Run

variable {admin : Address} {invocations : List Invocation} {issuerAx issuerAy : Fr}

theorem exists_presented {entry : Entry}
    (h : entry ∈ presentations groth16 admin invocations issuerAx issuerAy) :
    entry ∈ History groth16 admin invocations ∧
      ∃ submission, presented issuerAx issuerAy entry = some submission := by
  obtain ⟨hmem, hsome⟩ := List.mem_filter.mp h
  exact ⟨hmem, Option.isSome_iff_exists.mp hsome⟩

/-- The presentations use pairwise different nullifiers. -/
theorem presentations_pairwise :
    (presentations groth16 admin invocations issuerAx issuerAy).Pairwise fun first second =>
      spentNullifier first ≠ spentNullifier second := by
  have hnodup := ((nullifier_singleUse groth16).run (genesis admin) invocations).2.1
  rw [List.Nodup, List.pairwise_filterMap] at hnodup
  have hsublist : (presentations groth16 admin invocations issuerAx issuerAy).Sublist
      (History groth16 admin invocations) := List.filter_sublist
  refine (hnodup.sublist hsublist).imp_of_mem ?_
  intro first second hfirst _ hdistinct hequal
  obtain ⟨-, submission, hpresented⟩ := exists_presented groth16 hfirst
  have htoken := spentNullifier_of_presented hpresented
  exact hdistinct _ (by rw [htoken, Option.map_some]) _ (by rw [← hequal, htoken, Option.map_some])
    rfl

/-- **An issuer's log bounds the accepted presentations.** Whatever assignments explain the
`CredentialAge` submissions accepted along a run while the ledger named an issuer, their holder
secrets are pairwise different. If the issuer's signatures are ideal and none of the signed pairs
collides with a pair it logged, each of the assignments was issued, and there are at most as many
presentations as holders in the log. -/
theorem credentialAge_holders_bound (admin : Address) (invocations : List Invocation)
    (lib : Circomlib Fr) (issuerAx issuerAy : Fr) (log : List (Issuance Fr))
    (hideal : IdealSignatures lib issuerAx issuerAy log) (witness : Entry → CredentialAge Fr)
    (hwitness : ∀ entry ∈ History groth16 admin invocations, ∀ submission,
      presented issuerAx issuerAy entry = some submission →
        Explains lib submission (witness entry)) :
    ((presentations groth16 admin invocations issuerAx issuerAy).map
      fun entry => (witness entry).holderSecret).Nodup ∧
    ((∃ entry ∈ presentations groth16 admin invocations issuerAx issuerAy, ∃ issuance ∈ log,
        lib.Collision [(witness entry).age, (witness entry).holderSecret]
          [issuance.field, issuance.holderSecret]) ∨
      (∀ entry ∈ presentations groth16 admin invocations issuerAx issuerAy, ∃ issuance ∈ log,
        issuance.field = (witness entry).age ∧
          issuance.holderSecret = (witness entry).holderSecret) ∧
      (presentations groth16 admin invocations issuerAx issuerAy).length
        ≤ (log.map Issuance.holderSecret).toFinset.card) := by
  have hexplains : ∀ entry ∈ presentations groth16 admin invocations issuerAx issuerAy,
      ∃ submission, presented issuerAx issuerAy entry = some submission ∧
        Explains lib submission (witness entry) := by
    intro entry hentry
    obtain ⟨hmem, submission, hpresented⟩ := exists_presented groth16 hentry
    exact ⟨submission, hpresented, hwitness entry hmem submission hpresented⟩
  have hnodup : ((presentations groth16 admin invocations issuerAx issuerAy).map
      fun entry => (witness entry).holderSecret).Nodup := by
    rw [List.Nodup, List.pairwise_map]
    refine (presentations_pairwise groth16).imp_of_mem ?_
    intro first second hfirst hsecond hdistinct hsecret
    obtain ⟨_, hpresented, hfirst⟩ := hexplains first hfirst
    obtain ⟨_, hpresented', hsecond⟩ := hexplains second hsecond
    apply hdistinct
    rw [spentNullifier_of_presented hpresented, spentNullifier_of_presented hpresented',
      hfirst.nullifier, hsecond.nullifier, hsecret]
  refine ⟨hnodup, ?_⟩
  by_cases hcollision : ∃ entry ∈ presentations groth16 admin invocations issuerAx issuerAy,
      ∃ issuance ∈ log, lib.Collision [(witness entry).age, (witness entry).holderSecret]
        [issuance.field, issuance.holderSecret]
  · exact .inl hcollision
  have hissued : ∀ entry ∈ presentations groth16 admin invocations issuerAx issuerAy,
      ∃ issuance ∈ log, issuance.field = (witness entry).age ∧
        issuance.holderSecret = (witness entry).holderSecret := by
    intro entry hentry
    obtain ⟨submission, hpresented, hexplain⟩ := hexplains entry hentry
    have hrecord := Machine.eq_record_of_mem _ (exists_presented groth16 hentry).1
    obtain ⟨hx, hy⟩ := hexplain.issuer groth16 hrecord hpresented
    have hsigned := hexplain.satisfied.eddsa
    rw [hexplain.satisfied.signedMsg, hx, hy] at hsigned
    obtain ⟨issuance, hmem, hpair | hcollides⟩ := issued_of_signed hideal hsigned
    · exact ⟨issuance, hmem, hpair⟩
    · exact absurd ⟨entry, hentry, issuance, hmem, hcollides⟩ hcollision
  refine .inr ⟨hissued, ?_⟩
  calc
    (presentations groth16 admin invocations issuerAx issuerAy).length
        = ((presentations groth16 admin invocations issuerAx issuerAy).map
            fun entry => (witness entry).holderSecret).toFinset.card := by
      rw [List.toFinset_card_of_nodup hnodup, List.length_map]
    _ ≤ (log.map Issuance.holderSecret).toFinset.card := by
      apply Finset.card_le_card
      intro secret hsecret
      obtain ⟨entry, hentry, rfl⟩ := List.mem_map.mp (List.mem_toFinset.mp hsecret)
      obtain ⟨issuance, hmem, -, hsecret⟩ := hissued entry hentry
      exact List.mem_toFinset.mpr (List.mem_map.mpr ⟨issuance, hmem, hsecret⟩)

end Run

def adultIssuance : Issuance Fr := ⟨.age, (25 : ℕ), (7 : ℕ)⟩

def adultLog : List (Issuance Fr) := [adultIssuance]

theorem adultLog_ideal (issuerAx issuerAy : Fr) :
    IdealSignatures (.summed [32]) issuerAx issuerAy adultLog := by
  intro m
  have hmessage : adultIssuance.message (.summed [32]) = 32 := by decide
  constructor
  · rintro ⟨_, _, _, hm⟩
    exact ⟨_, List.mem_singleton_self _, hmessage.trans (List.mem_singleton.mp hm).symm⟩
  · rintro ⟨issuance, hmem, rfl⟩
    rw [List.mem_singleton.mp hmem, hmessage]
    exact ⟨0, 0, 0, List.mem_singleton_self _⟩

/-- The predicate accepts one public vector, so one assignment explains whatever is accepted. -/
theorem adultCredential_explains {admin : Address} {invocations : List Invocation}
    {issuerAx issuerAy : Fr} {entry : Entry} {submission : Submission}
    (hentry : entry ∈ History adultGroth16 admin invocations)
    (hpresented : presented issuerAx issuerAy entry = some submission) :
    Explains (.summed [32]) submission adultCredential := by
  obtain ⟨haccepted, hcircuit, -⟩ := presented_eq_some_iff.mp hpresented
  rw [Machine.eq_record_of_mem _ hentry] at haccepted
  obtain ⟨hchecks, -⟩ := accepted_step adultGroth16 haccepted
  rw [hcircuit] at hchecks
  obtain ⟨hproved, -⟩ := (accepted_credentialAge_iff ..).mp hchecks
  obtain ⟨_, _, _, _, hverdict⟩ := hproved.key
  have hvector := ((restrict_eq_true_iff _).mp hverdict).2
  exact ⟨adultCredential_satisfied, List.mem_singleton.mp hvector⟩

theorem credentialAge_holders_bound_adult :
    (presentations adultGroth16 zeroAccount (generatorSetup 3 11 (-38) ++ [adultCall]) 11
      (-38)).length = 1 := by
  have hpresented : presented 11 (-38) (Machine.record (step adultGroth16)
      (Reached adultGroth16 zeroAccount (generatorSetup 3 11 (-38))) adultCall)
        = some adultSubmission := by
    refine presented_eq_some_iff.mpr ⟨adultSubmission_accepted, rfl, ?_, ?_⟩
    · rw [Machine.record_pre, generatorSetup, reached_setup, setupLedger_issAx]
    · rw [Machine.record_pre, generatorSetup, reached_setup, setupLedger_issAy]
  have hmem : Machine.record (step adultGroth16)
      (Reached adultGroth16 zeroAccount (generatorSetup 3 11 (-38))) adultCall
        ∈ presentations adultGroth16 zeroAccount (generatorSetup 3 11 (-38) ++ [adultCall]) 11
          (-38) := by
    refine List.mem_filter.mpr ⟨?_, by rw [hpresented, Option.isSome_some]⟩
    rw [History, Machine.history_append]
    exact List.mem_append_right _ (List.mem_singleton_self _)
  obtain ⟨-, ⟨_, _, issuance, hissuance, hcollision⟩ | ⟨-, hbound⟩⟩ :=
    credentialAge_holders_bound adultGroth16 zeroAccount
      (generatorSetup 3 11 (-38) ++ [adultCall]) (.summed [32]) 11 (-38) adultLog
      (adultLog_ideal 11 (-38)) (fun _ => adultCredential)
      (fun entry hentry submission => adultCredential_explains hentry)
  · rw [List.mem_singleton.mp hissuance] at hcollision
    exact absurd rfl hcollision.1
  · have hcard : (adultLog.map Issuance.holderSecret).toFinset.card = 1 := rfl
    have hpos := List.length_pos_of_mem hmem
    omega

end Veritas
