import Veritas.Proof.Credential
import Veritas.Proof.Eligibility

/-!
# Uses of an owner credential

The nullifier of `ValidOwner` hashes the signed claim together with a nonce that nothing else in the
circuit mentions. The contract refuses a nullifier it has seen, so what it refuses is a second use
with the same nonce: along any run a credential is spent once if the submissions for it keep one
nonce, and a holder who does not keep to one spends it again.
-/

namespace Veritas

variable (groth16 : Groth16) (lib : Circomlib Fr)

structure OwnerCredential where
  claimHash : Fr
  issuerAx : Fr
  issuerAy : Fr

def ValidOwner.credential (w : ValidOwner Fr) : OwnerCredential :=
  ⟨w.claimHash, w.issuerAx, w.issuerAy⟩

/-- The step accepted a submission of `ValidOwner`, and the assignment explains it. -/
structure Uses (entry : Entry) (w : ValidOwner Fr) : Prop where
  accepted : ∃ submission, accepted entry = some submission ∧ submission.circuit = 1 ∧
    publicSignals submission.pub 4 = w.publicSignals
  satisfied : w.Satisfied lib

def SpentOnce (history : List Entry) : Prop :=
  ∀ (i j : ℕ) (ei ej : Entry) (w w' : ValidOwner Fr), history[i]? = some ei → Uses lib ei w →
    history[j]? = some ej → Uses lib ej w' → w.credential = w'.credential → i = j

/-- The nonces are the same, or collide under the hash with the claim. -/
def NonceRepeats (w w' : ValidOwner Fr) : Prop :=
  w.nonce = w'.nonce ∨ lib.Collision [w.claimHash, w.nonce] [w'.claimHash, w'.nonce]

/-- The uses of each credential repeat one nonce. -/
def NonceFixed (history : List Entry) : Prop :=
  ∀ ei ∈ history, ∀ ej ∈ history, ∀ w w' : ValidOwner Fr, Uses lib ei w → Uses lib ej w' →
    w.credential = w'.credential → NonceRepeats lib w w'

variable {lib}

theorem ValidOwner.Satisfied.nullifier_eq {w : ValidOwner Fr} (hw : w.Satisfied lib) :
    w.nullifier = lib.poseidon [w.claimHash, w.nonce] := by
  rw [hw.nullifier, hw.nul]

theorem nonceRepeats_iff {w w' : ValidOwner Fr} (hclaim : w.claimHash = w'.claimHash) :
    NonceRepeats lib w w' ↔
      lib.poseidon [w.claimHash, w.nonce] = lib.poseidon [w'.claimHash, w'.nonce] := by
  constructor
  · rintro (hnonce | ⟨-, hhash⟩)
    · rw [hclaim, hnonce]
    · exact hhash
  · intro hhash
    by_cases hnonce : w.nonce = w'.nonce
    · exact .inl hnonce
    · refine .inr ⟨fun hequal => hnonce ?_, hhash⟩
      simpa [hclaim] using hequal

theorem ValidOwner.Satisfied.nullifier_eq_iff {w w' : ValidOwner Fr} (hw : w.Satisfied lib)
    (hw' : w'.Satisfied lib) (hclaim : w.claimHash = w'.claimHash) :
    w.nullifier = w'.nullifier ↔ NonceRepeats lib w w' := by
  rw [nonceRepeats_iff hclaim, hw.nullifier_eq, hw'.nullifier_eq]

theorem Uses.spentNullifier {entry : Entry} {w : ValidOwner Fr} (h : Uses lib entry w) :
    spentNullifier entry = some w.nullifier := by
  obtain ⟨submission, haccepted, hcircuit, hpublic⟩ := h.accepted
  obtain ⟨hnullifier, -⟩ := publicSignals_eq_four hpublic
  rw [spentNullifier_of_accepted haccepted, if_pos (.inl hcircuit), hnullifier]

theorem OwnerCredential.claimHash_eq {w w' : ValidOwner Fr} (h : w.credential = w'.credential) :
    w.claimHash = w'.claimHash := congrArg OwnerCredential.claimHash h

/-- The accepted uses of a credential are one step exactly when they repeat one nonce. -/
theorem spentOnce_iff_nonceFixed (admin : Address) (invocations : List Invocation) :
    SpentOnce lib (History groth16 admin invocations) ↔
      NonceFixed lib (History groth16 admin invocations) := by
  constructor
  · intro honce ei hei ej hej w w' huse huse' hcredential
    obtain ⟨i, hi⟩ := List.mem_iff_getElem?.mp hei
    obtain ⟨j, hj⟩ := List.mem_iff_getElem?.mp hej
    have hstep := honce i j ei ej w w' hi huse hj huse' hcredential
    have hentry : ei = ej := by
      rw [hstep, hj, Option.some.injEq] at hi
      exact hi.symm
    have hnullifier : w.nullifier = w'.nullifier := by
      have htoken := huse.spentNullifier
      rw [hentry, huse'.spentNullifier, Option.some.injEq] at htoken
      exact htoken.symm
    exact (huse.satisfied.nullifier_eq_iff huse'.satisfied
      (OwnerCredential.claimHash_eq hcredential)).mp hnullifier
  · intro hfixed i j ei ej w w' hi huse hj huse' hcredential
    have hrepeats := hfixed ei (List.mem_of_getElem? hi) ej (List.mem_of_getElem? hj) w w' huse
      huse' hcredential
    have hnullifier := (huse.satisfied.nullifier_eq_iff huse'.satisfied
      (OwnerCredential.claimHash_eq hcredential)).mpr hrepeats
    have htoken := huse'.spentNullifier
    rw [← hnullifier] at htoken
    exact nullifier_unique groth16 hi huse.spentNullifier hj htoken

/-! ### Submissions, whatever became of them -/

variable (lib) in
/-- The step submits to `ValidOwner` what passes every check but the one of the nullifier, and the
assignment explains it. -/
structure Presents (entry : Entry) (w : ValidOwner Fr) : Prop where
  passes : ∃ submission, entry.input.Passes groth16 entry.pre.storage submission ∧
    submission.circuit = 1 ∧ publicSignals submission.pub 4 = w.publicSignals
  satisfied : w.Satisfied lib

variable (lib) in
/-- The submissions for each credential keep one nonce. -/
def NonceKept (history : List Entry) : Prop :=
  ∀ ei ∈ history, ∀ ej ∈ history, ∀ w w' : ValidOwner Fr, Presents groth16 lib ei w →
    Presents groth16 lib ej w' → w.credential = w'.credential → NonceRepeats lib w w'

variable (lib) in
/-- A step that is no use of the credential has spent the nullifier. -/
def TakenByAnother (history : List Entry) (w : ValidOwner Fr) : Prop :=
  ∃ entry ∈ history, spentNullifier entry = some w.nullifier ∧
    ∀ v : ValidOwner Fr, Uses lib entry v → v.credential ≠ w.credential

section Run

variable {groth16} {admin : Address} {invocations : List Invocation} {entry : Entry}
  {w w' : ValidOwner Fr}

theorem Uses.presents (h : Uses lib entry w) (hentry : entry ∈ History groth16 admin invocations) :
    Presents groth16 lib entry w := by
  obtain ⟨submission, haccepted, hcircuit, hpublic⟩ := h.accepted
  rw [Machine.eq_record_of_mem _ hentry, accepted_iff_passes] at haccepted
  exact ⟨⟨submission, haccepted.1, hcircuit, hpublic⟩, h.satisfied⟩

/-- The nullifier of a submission is spent: by it, or by a step before it. -/
theorem Presents.exists_spent (h : Presents groth16 lib entry w)
    (hentry : entry ∈ History groth16 admin invocations) :
    ∃ other ∈ History groth16 admin invocations, spentNullifier other = some w.nullifier := by
  obtain ⟨submission, hpasses, hcircuit, hpublic⟩ := h.passes
  obtain ⟨hnullifier, -⟩ := publicSignals_eq_four hpublic
  have hfresh := fresh_iff entry.pre submission.pub (.inl hcircuit)
  by_cases hspent : frToBytesn w.nullifier ∈ spentKeys entry.pre
  · have hgenesis : frToBytesn w.nullifier ∉ spentKeys (genesis admin) := by
      simp [spentKeys_genesis]
    obtain ⟨other, hother, htoken⟩ :=
      (nullifier_singleUse groth16).exists_of_spent hentry hspent hgenesis
    obtain ⟨n, hn, hkey⟩ := Option.map_eq_some_iff.mp htoken
    rw [frToBytesn_injective hkey] at hn
    exact ⟨other, hother, hn⟩
  · rw [← hnullifier] at hspent
    have haccepted := (accepted_iff_passes ..).mpr ⟨hpasses, hfresh.mpr hspent⟩
    rw [← Machine.eq_record_of_mem _ hentry] at haccepted
    refine ⟨entry, hentry, ?_⟩
    rw [spentNullifier_of_accepted haccepted, if_pos (.inl hcircuit), hnullifier]

/-- Two submissions for a credential that is spent once repeat the nonce, unless something else took
one of their nullifiers. -/
theorem SpentOnce.nonceRepeats (honce : SpentOnce lib (History groth16 admin invocations))
    {other : Entry} (hentry : entry ∈ History groth16 admin invocations)
    (hother : other ∈ History groth16 admin invocations) (h : Presents groth16 lib entry w)
    (h' : Presents groth16 lib other w') (hcredential : w.credential = w'.credential) :
    NonceRepeats lib w w' ∨ TakenByAnother lib (History groth16 admin invocations) w ∨
      TakenByAnother lib (History groth16 admin invocations) w' := by
  obtain ⟨spender, hspender, hspent⟩ := h.exists_spent hentry
  obtain ⟨spender', hspender', hspent'⟩ := h'.exists_spent hother
  by_cases hown : ∃ v : ValidOwner Fr, Uses lib spender v ∧ v.credential = w.credential
  swap
  · exact .inr (.inl ⟨spender, hspender, hspent, fun v huse hv => hown ⟨v, huse, hv⟩⟩)
  by_cases hown' : ∃ v : ValidOwner Fr, Uses lib spender' v ∧ v.credential = w'.credential
  swap
  · exact .inr (.inr ⟨spender', hspender', hspent', fun v huse hv => hown' ⟨v, huse, hv⟩⟩)
  -- both nullifiers were spent by uses of the credential, which are one step
  left
  obtain ⟨v, huse, hv⟩ := hown
  obtain ⟨v', huse', hv'⟩ := hown'
  obtain ⟨i, hi⟩ := List.mem_iff_getElem?.mp hspender
  obtain ⟨j, hj⟩ := List.mem_iff_getElem?.mp hspender'
  have hcredentials : v.credential = v'.credential := by rw [hv, hv', hcredential]
  have hstep := honce i j spender spender' v v' hi huse hj huse' hcredentials
  rw [hstep, hj, Option.some.injEq] at hi
  rw [← hi, hspent', Option.some.injEq] at hspent
  exact (h.satisfied.nullifier_eq_iff h'.satisfied
    (OwnerCredential.claimHash_eq hcredential)).mp hspent.symm

end Run

/-- **When a `ValidOwner` credential is spent at most once.** Along every run it is, if the
submissions for it keep one nonce; in a run in which it is, they do, unless something else took one
of their nullifiers. Two assignments for one credential expose one nullifier exactly when they
repeat the nonce. Nothing in the circuit or the contract asks for it. -/
theorem validOwner_spent_once (admin : Address) (invocations : List Invocation)
    (lib : Circomlib Fr) :
    (NonceKept groth16 lib (History groth16 admin invocations) →
      SpentOnce lib (History groth16 admin invocations)) ∧
    (SpentOnce lib (History groth16 admin invocations) →
      ∀ ei ∈ History groth16 admin invocations, ∀ ej ∈ History groth16 admin invocations,
        ∀ w w' : ValidOwner Fr, Presents groth16 lib ei w → Presents groth16 lib ej w' →
          w.credential = w'.credential →
          NonceRepeats lib w w' ∨ TakenByAnother lib (History groth16 admin invocations) w ∨
            TakenByAnother lib (History groth16 admin invocations) w') ∧
    ∀ w w' : ValidOwner Fr, w.Satisfied lib → w'.Satisfied lib → w.credential = w'.credential →
      (w.nullifier = w'.nullifier ↔ NonceRepeats lib w w') := by
  refine ⟨?_, ?_, ?_⟩
  · intro hkept
    rw [spentOnce_iff_nonceFixed]
    intro ei hei ej hej w w' huse huse' hcredential
    exact hkept ei hei ej hej w w' (huse.presents hei) (huse'.presents hej) hcredential
  · intro honce ei hei ej hej w w' h h' hcredential
    exact honce.nonceRepeats hei hej h h' hcredential
  · intro w w' hw hw' hcredential
    exact hw.nullifier_eq_iff hw' (OwnerCredential.claimHash_eq hcredential)

def ownerUse (nonce : Fr) : ValidOwner Fr where
  claimHash := 5
  nonce := nonce
  sigR8x := 0
  sigR8y := 0
  sigS := 0
  issuerAx := (11 : ℕ)
  issuerAy := -20
  nullifier := 5 + nonce
  verified := 1
  nul := 5 + nonce

theorem ownerUse_satisfied (nonce : Fr) : (ownerUse nonce).Satisfied (.summed [5]) where
  eddsa := List.mem_singleton_self 5
  nul := by simp [ownerUse, Circomlib.summed, Circomlib.standard]
  nullifier := rfl
  verified := rfl

/-- The predicate under the key of generators, for the vectors of two nonces. -/
def ownerGroth16 : Groth16 :=
  restrict (verifyGroth16 discreteLog)
    [(ownerUse 1).publicSignals, (ownerUse (3 : ℕ)).publicSignals]

def ownerCall (nonce : Fr) (proof : Proof) : Invocation :=
  credentialCall 1 proof (ownerUse nonce).publicSignals

def ownerLedger : Ledger :=
  setupLedger zeroAccount 1 (vkBlob (generatorKey 4) 4) (frToBytesn (11 : ℕ)) (frToBytesn (-20))

theorem ownerUse_accepted {ledger : Ledger} {nonce : Fr} {proof : Proof}
    (hproved : Proved (verifyGroth16 discreteLog) ledger.storage 1 4 (proofBlob proof)
      (pubBlob (ownerUse nonce).publicSignals))
    (hnonce : nonce = 1 ∨ nonce = 3) (hx : ledger.storage .issAx = some (frToBytesn 11))
    (hy : ledger.storage .issAy = some (frToBytesn (-20)))
    (hunspent : Unspent ledger.storage (5 + nonce)) :
    Accepted ownerGroth16 ledger.storage 1 (proofBlob proof)
      (pubBlob (ownerUse nonce).publicSignals) := by
  have hvector : publicSignals (pubBlob (ownerUse nonce).publicSignals) 4
      = (ownerUse nonce).publicSignals := publicSignals_pubBlob (ownerUse nonce).publicSignals
  have hmem : publicSignals (pubBlob (ownerUse nonce).publicSignals) 4
      ∈ [(ownerUse 1).publicSignals, (ownerUse (3 : ℕ)).publicSignals] := by
    rw [hvector]
    rcases hnonce with rfl | rfl
    · exact List.mem_cons_self
    · exact List.mem_cons_of_mem _ (List.mem_singleton_self _)
  obtain ⟨hnullifier, hflag, hax, hay⟩ := publicSignals_eq_four hvector
  refine (accepted_validOwner_iff ..).mpr ⟨hproved.restrict _ hmem, hflag, ⟨?_, ?_⟩, ?_⟩
  · rw [hx, hax]
    rfl
  · rw [hy, hay]
    rfl
  · rw [hnullifier]
    exact hunspent

theorem ownerUse_uses {ledger : Ledger} {nonce : Fr} {proof : Proof}
    (h : Accepted ownerGroth16 ledger.storage 1 (proofBlob proof)
      (pubBlob (ownerUse nonce).publicSignals)) :
    Uses (.summed [5])
      (Machine.record (step ownerGroth16) ledger (ownerCall nonce proof)) (ownerUse nonce) where
  accepted := by
    have hvector : publicSignals (pubBlob (ownerUse nonce).publicSignals) 4
        = (ownerUse nonce).publicSignals := publicSignals_pubBlob (ownerUse nonce).publicSignals
    refine ⟨⟨1, proofBlob proof, pubBlob (ownerUse nonce).publicSignals⟩, ?_, ?_, ?_⟩
    · rw [ownerCall, credentialCall]
      exact (accepted_verifyCredential_iff ..).mpr ⟨rfl, h⟩
    · rfl
    · dsimp only
      exact hvector
  satisfied := ownerUse_satisfied nonce

theorem ownerLedger_unspent (nullifier : Fr) : Unspent ownerLedger.storage nullifier :=
  setupLedger_nullifier zeroAccount 1 _ _ _ (frToBytesn nullifier)

theorem ownerUse_first : Accepted ownerGroth16 ownerLedger.storage 1 (proofBlob generatorProof)
    (pubBlob (ownerUse 1).publicSignals) := by
  have hsum : (ownerUse 1).publicSignals.sum = -2 := by decide
  have hkey : ownerLedger.storage (.data (.verifyingKey 1)) = some (vkBlob (generatorKey 4) 4) :=
    setupLedger_key ..
  have hproved := proved_generator (by decide) (by decide) hkey rfl hsum
  exact ownerUse_accepted hproved (.inl rfl) (setupLedger_issAx ..) (setupLedger_issAy ..)
    (ownerLedger_unspent _)

def ownerLedgerSpent : Ledger := ownerLedger.set (.data (.nullifier (frToBytesn 6))) true

theorem step_ownerUse_first :
    (step ownerGroth16 ownerLedger (ownerCall 1 generatorProof)).1 = ownerLedgerSpent := by
  have hnullifier : publicSignal (pubBlob (ownerUse 1).publicSignals) 0 = 6 :=
    publicSignal_pubBlob (by decide)
  rw [ownerCall, credentialCall, step_verifyCredential,
    (credentialVerdict_eq_true_iff ..).mpr ownerUse_first, ownerLedgerSpent, ← hnullifier]
  rfl

theorem ownerUse_second :
    Accepted ownerGroth16 ownerLedgerSpent.storage 1 (proofBlob negatedProof)
      (pubBlob (ownerUse 3).publicSignals) := by
  have hsum : (ownerUse 3).publicSignals.sum = 0 := by decide
  have hkey : ownerLedgerSpent.storage (.data (.verifyingKey 1))
      = some (vkBlob (generatorKey 4) 4) := by
    rw [ownerLedgerSpent, Ledger.set_storage_of_ne _ _ _ (by simp)]
    exact setupLedger_key ..
  have hproved := proved_negated (by decide) (by decide) hkey rfl hsum
  have hfresh : frToBytesn (5 + 3) ≠ frToBytesn 6 := by
    intro hequal
    exact absurd (frToBytesn_injective hequal) (by decide)
  refine ownerUse_accepted hproved (.inr rfl) ?_ ?_ ?_
  · rw [ownerLedgerSpent, Ledger.set_storage_of_ne _ _ _ (by simp)]
    exact setupLedger_issAx ..
  · rw [ownerLedgerSpent, Ledger.set_storage_of_ne _ _ _ (by simp)]
    exact setupLedger_issAy ..
  · rw [Unspent, ownerLedgerSpent, Ledger.set_storage_of_ne _ _ _ (by simpa using hfresh)]
    exact ownerLedger_unspent _

theorem ownerCall_nullifier {entry : Entry} {w : ValidOwner Fr} {nonce : Fr}
    {proof : Proof} (hinput : entry.input = ownerCall nonce proof)
    (h : Presents ownerGroth16 (.summed [5]) entry w) : w.nullifier = 5 + nonce := by
  obtain ⟨submission, hpasses, -, hpublic⟩ := h.passes
  rw [hinput] at hpasses
  have hsubmission : submission = ⟨1, proofBlob proof, pubBlob (ownerUse nonce).publicSignals⟩ :=
    hpasses.1
  have hpub : submission.pub = pubBlob (ownerUse nonce).publicSignals := by rw [hsubmission]
  have hexposed : (ownerUse nonce).publicSignals[0]? = some (5 + nonce) := rfl
  obtain ⟨hnullifier, -⟩ := publicSignals_eq_four hpublic
  rw [← hnullifier, hpub, publicSignal_pubBlob hexposed]

/-- A credential used once, and the same submission again. -/
theorem validOwner_spent_once_replayed :
    SpentOnce (.summed [5]) (History ownerGroth16 zeroAccount (generatorSetup 1 11 (-20)
        ++ [ownerCall 1 generatorProof, ownerCall 1 generatorProof])) ∧
      ∃ first, (History ownerGroth16 zeroAccount (generatorSetup 1 11 (-20)
          ++ [ownerCall 1 generatorProof, ownerCall 1 generatorProof]))[2]? = some first ∧
        Uses (.summed [5]) first (ownerUse 1) := by
  have hsetup : Machine.exec (step ownerGroth16) (genesis zeroAccount) (generatorSetup 1 11 (-20))
      = ownerLedger := reached_setup ..
  have hfirst := Machine.getElem?_history (step ownerGroth16) (genesis zeroAccount)
    (generatorSetup 1 11 (-20)) [ownerCall 1 generatorProof] (ownerCall 1 generatorProof)
  rw [hsetup] at hfirst
  have hnullifier : ∀ entry ∈ History ownerGroth16 zeroAccount (generatorSetup 1 11 (-20)
      ++ [ownerCall 1 generatorProof, ownerCall 1 generatorProof]), ∀ w : ValidOwner Fr,
      Presents ownerGroth16 (.summed [5]) entry w → w.nullifier = 5 + 1 := by
    intro entry hentry w h
    obtain ⟨before, after, hinputs, -⟩ := Machine.mem_history _ hentry
    have hinput : entry.input ∈ generatorSetup 1 11 (-20)
        ++ [ownerCall 1 generatorProof, ownerCall 1 generatorProof] := by
      rw [hinputs]
      exact List.mem_append_right _ List.mem_cons_self
    rcases List.mem_append.mp hinput with hsetup | hcall
    · obtain ⟨submission, hpasses, -⟩ := h.passes
      rcases List.mem_pair.mp hsetup with hconfigure | hconfigure
      · rw [hconfigure] at hpasses
        exact hpasses.elim
      · rw [hconfigure] at hpasses
        exact hpasses.elim
    · exact ownerCall_nullifier (List.mem_pair.mp hcall |>.elim id id) h
  refine ⟨(validOwner_spent_once ownerGroth16 zeroAccount _ (.summed [5])).1 ?_, _, hfirst,
    ownerUse_uses ownerUse_first⟩
  intro ei hei ej hej w w' h h' hcredential
  rw [← h.satisfied.nullifier_eq_iff h'.satisfied (OwnerCredential.claimHash_eq hcredential),
    hnullifier ei hei w h, hnullifier ej hej w' h']

/-- One credential is used twice, with different nonces, under a knowledge-sound key. -/
theorem validOwner_spent_twice :
    ∃ first second : Entry,
      (History ownerGroth16 zeroAccount (generatorSetup 1 11 (-20)
        ++ [ownerCall 1 generatorProof, ownerCall 3 negatedProof]))[2]? = some first ∧
      (History ownerGroth16 zeroAccount (generatorSetup 1 11 (-20)
        ++ [ownerCall 1 generatorProof, ownerCall 3 negatedProof]))[3]? = some second ∧
      Uses (.summed [5]) first (ownerUse 1) ∧
      Uses (.summed [5]) second (ownerUse 3) ∧
      (ownerUse 1).credential = (ownerUse 3).credential ∧
      ∀ storage, InstalledSound ownerGroth16 storage 1
        fun pub => ∃ w : ValidOwner Fr, w.Satisfied (.summed [5]) ∧ w.publicSignals = pub := by
  have hsetup : Machine.exec (step ownerGroth16) (genesis zeroAccount) (generatorSetup 1 11 (-20))
      = ownerLedger := reached_setup ..
  have hpost : Machine.exec (step ownerGroth16) (genesis zeroAccount)
      (generatorSetup 1 11 (-20) ++ [ownerCall 1 generatorProof]) = ownerLedgerSpent := by
    rw [Machine.exec_concat, hsetup, step_ownerUse_first]
  have hfirst := Machine.getElem?_history (step ownerGroth16) (genesis zeroAccount)
    (generatorSetup 1 11 (-20)) [ownerCall 3 negatedProof] (ownerCall 1 generatorProof)
  have hsecond := Machine.getElem?_history (step ownerGroth16) (genesis zeroAccount)
    (generatorSetup 1 11 (-20) ++ [ownerCall 1 generatorProof]) [] (ownerCall 3 negatedProof)
  rw [hsetup] at hfirst
  rw [hpost] at hsecond
  refine ⟨_, _, hfirst, hsecond, ownerUse_uses ownerUse_first, ownerUse_uses ownerUse_second, rfl,
    fun storage => restrict_installedSound _ ?_ storage 1⟩
  intro pub hpub
  rcases List.mem_pair.mp hpub with rfl | rfl
  · exact ⟨ownerUse 1, ownerUse_satisfied 1, rfl⟩
  · exact ⟨ownerUse 3, ownerUse_satisfied 3, rfl⟩

end Veritas
