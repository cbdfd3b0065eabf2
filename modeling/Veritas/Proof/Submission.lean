import Veritas.Proof.RoundTrip

/-!
# What a submission does

`verifyFor` is a function of the stored key and its arguments. `verifyCredential` returns true
exactly when the submission passes every check, and then its only effect is the nullifier entry;
`claimFaucet` adds the claimant and one event. A false result or a trap leaves the ledger alone.
These lemmas are the interface the rest of the development uses; nothing after this module unfolds
the contract's code.
-/

namespace Veritas

variable (groth16 : Groth16)

def groth16Verdict (storage : Storage) (circuit : UInt32) (proof pub : Bytes) :
    Except Trap Bool :=
  match storage (.data (.verifyingKey circuit)) with
  | none => .error (.panic s!"vkey for circuit {circuit} not installed")
  | some raw => do
      let vk ← parseVk raw
      groth16 vk (publicSignals pub (pub.length / 32)) (proofOf proof)

def verifyForVerdict (storage : Storage) (circuit : UInt32) (proof pub : Bytes) :
    Except Trap Bool :=
  if circuit ≤ 3 ∧ proof.length = 256 ∧ pub.length % 32 = 0 then
    groth16Verdict groth16 storage circuit proof pub
  else .ok false

theorem storedVk_run (ledger : Ledger) (circuit : UInt32) :
    (storedVk circuit).run ledger =
      match ledger.storage (.data (.verifyingKey circuit)) with
      | none => .error (.panic s!"vkey for circuit {circuit} not installed")
      | some raw => (fun vk => (vk, ledger)) <$> parseVk raw := by
  cases hraw : ledger.storage (.data (.verifyingKey circuit)) with
  | none => simp [storedVk, hraw]
  | some raw =>
      simp [storedVk, hraw]
      cases parseVk raw <;> rfl

theorem verifyFor_run (ledger : Ledger) (circuit : UInt32) (proof pub : Bytes) :
    (verifyFor groth16 circuit proof pub).run ledger =
      (fun verdict => (verdict, ledger)) <$>
        verifyForVerdict groth16 ledger.storage circuit proof pub := by
  by_cases hcircuit : circuit ≤ 3
  swap
  · simp [verifyFor, verifyForVerdict, checkCircuitId, hcircuit]
  by_cases hproof : proof.length = 256
  swap
  · simp [verifyFor, verifyForVerdict, checkCircuitId, hproof]
  by_cases hpub : pub.length % 32 = 0
  swap
  · simp [verifyFor, verifyForVerdict, checkCircuitId, hpub]
  have hread : readPublic pub (pub.length / 32) = .ok (publicSignals pub (pub.length / 32)) := by
    rw [readPublic_eq, if_pos (by omega)]
  rw [verifyForVerdict, if_pos ⟨hcircuit, hproof, hpub⟩, groth16Verdict]
  simp [verifyFor, checkCircuitId, hcircuit, hproof, hpub, storedVk_run, parseProof_eq hproof,
    hread]
  cases ledger.storage (.data (.verifyingKey circuit)) with
  | none => rfl
  | some raw =>
      dsimp only
      cases parseVk raw with
      | error trap => rfl
      | ok vk =>
          simp only [map_ok, ok_bind]
          cases groth16 vk (publicSignals pub (pub.length / 32)) (proofOf proof) <;> rfl

/-- An accepted proof had an installed key that parses, and the predicate accepted under it. -/
theorem verifyForVerdict_eq_true_iff (storage : Storage) (circuit : UInt32) (proof pub : Bytes) :
    verifyForVerdict groth16 storage circuit proof pub = .ok true ↔
      circuit ≤ 3 ∧ proof.length = 256 ∧ pub.length % 32 = 0 ∧
        ∃ raw vk, storage (.data (.verifyingKey circuit)) = some raw ∧ parseVk raw = .ok vk ∧
          groth16 vk (publicSignals pub (pub.length / 32)) (proofOf proof) = .ok true := by
  by_cases hsize : circuit ≤ 3 ∧ proof.length = 256 ∧ pub.length % 32 = 0
  swap
  · rw [verifyForVerdict, if_neg hsize]
    constructor
    · intro h
      cases h
    · rintro ⟨hcircuit, hproof, hpub, _⟩
      exact absurd ⟨hcircuit, hproof, hpub⟩ hsize
  rw [verifyForVerdict, if_pos hsize, groth16Verdict]
  cases hraw : storage (.data (.verifyingKey circuit)) with
  | none => simp
  | some raw =>
      cases hvk : parseVk raw with
      | error trap => simp [hvk]
      | ok vk => simp [hvk, hsize]

/-- On canonical blobs the predicate sees the values. -/
theorem verifyForVerdict_blob {storage : Storage} {circuit : UInt32} {vk : VerifyingKey} {n : ℕ}
    {proof : Proof} (hcircuit : circuit ≤ 3)
    (hraw : storage (.data (.verifyingKey circuit)) = some (vkBlob vk n)) (hvk : vk.Finite)
    (hn : n < 256) (hic : vk.ic.length = n + 1) (hproof : proof.Finite) (pub : List Fr) :
    verifyForVerdict groth16 storage circuit (proofBlob proof) (pubBlob pub)
      = groth16 vk pub proof := by
  have hcount : (pubBlob pub).length / 32 = pub.length := by
    rw [length_pubBlob, Nat.mul_div_cancel _ (by omega)]
  have hvalue : proofOf (proofBlob proof) = proof := by
    have hparse := parseProof_proofBlob hproof
    rw [parseProof_eq (length_proofBlob proof), Except.ok.injEq] at hparse
    exact hparse
  rw [verifyForVerdict, if_pos ⟨hcircuit, length_proofBlob proof, by simp⟩, groth16Verdict, hraw]
  simp only [parseVk_vkBlob hvk hn hic, ok_bind, hcount, publicSignals_pubBlob, hvalue]

/-! ### The checks after the pairing -/

def issuerVerdict (storage : Storage) (cid : CircuitId) (pub : Bytes) : Except Trap Bool :=
  match cid.issuerIndex with
  | none => .ok true
  | some (ix, iy) =>
      match storage .issAx, storage .issAy with
      | some ax, some ay => .ok (decide (frToBytesn (publicSignal pub ix) = ax)
          && decide (frToBytesn (publicSignal pub iy) = ay))
      | _, _ => .error (.panic "no issuer set")

def rootVerdict (storage : Storage) (cid : CircuitId) (pub : Bytes) : Except Trap Bool :=
  match cid.rootIndex with
  | none => .ok true
  | some ri =>
      match storage .root with
      | some root => .ok (decide (frToBytesn (publicSignal pub ri) = root))
      | none => .error (.panic "no allowed root set")

def flagSet (cid : CircuitId) (pub : Bytes) : Bool :=
  cid.flagIndex == usizeMax || publicSignal pub cid.flagIndex == 1

def nullifierFresh (storage : Storage) (cid : CircuitId) (pub : Bytes) : Bool :=
  match cid.nullifierIndex with
  | none => true
  | some ni => !(storage (.data (.nullifier (frToBytesn (publicSignal pub ni))))).isSome

def credentialVerdict (storage : Storage) (circuit : UInt32) (proof pub : Bytes) :
    Except Trap Bool :=
  if circuit ≤ 3 ∧ pub.length = (cid circuit).nPublic * 32 then do
    if !(← verifyForVerdict groth16 storage circuit proof pub) then
      return false
    if !flagSet (cid circuit) pub then
      return false
    if !(← issuerVerdict storage (cid circuit) pub) then
      return false
    if !(← rootVerdict storage (cid circuit) pub) then
      return false
    return nullifierFresh storage (cid circuit) pub
  else .ok false

/-- The ledger after an accepted submission: the nullifier is recorded where there is one. -/
def Ledger.spend (ledger : Ledger) (cid : CircuitId) (pub : Bytes) : Ledger :=
  match cid.nullifierIndex with
  | none => ledger
  | some ni => ledger.set (.data (.nullifier (frToBytesn (publicSignal pub ni)))) true

/-! ### One check at a time -/

section Checks

variable (id : CircuitId) (pubFr : List Fr)

def checkFlag : Contract Bool := do
  if id.flagIndex != usizeMax then
    return (← index pubFr id.flagIndex) == 1
  return true

def checkIssuer : Contract Bool := do
  match id.issuerIndex with
  | none => return true
  | some (ix, iy) =>
      let ax ← unwrapOrPanic "no issuer set" (← persistentGet .issAx)
      let ay ← unwrapOrPanic "no issuer set" (← persistentGet .issAy)
      if frToBytesn (← index pubFr ix) != ax then
        return false
      return decide (frToBytesn (← index pubFr iy) = ay)

def checkRoot : Contract Bool := do
  match id.rootIndex with
  | none => return true
  | some ri =>
      let root ← unwrapOrPanic "no allowed root set" (← persistentGet .root)
      return decide (frToBytesn (← index pubFr ri) = root)

def recordNullifier : Contract Bool := do
  match id.nullifierIndex with
  | none => return true
  | some ni =>
      let nullifier := frToBytesn (← index pubFr ni)
      if ← persistentHas (.data (.nullifier nullifier)) then
        return false
      persistentSet (.data (.nullifier nullifier)) true
      return true

end Checks

theorem ite_bind {α γ : Type} (p : Prop) [Decidable p] (a b : Contract α)
    (next : α → Contract γ) :
    ((if p then a else b) >>= next) = if p then a >>= next else b >>= next := by
  split <;> rfl

/-- The function is its checks in sequence. -/
theorem verifyCredential_eq (circuit : UInt32) (proof pub : Bytes) :
    verifyCredential groth16 circuit proof pub =
      if circuit ≤ 3 ∧ pub.length = (cid circuit).nPublic * 32 then do
        if !(← verifyFor groth16 circuit proof pub) then return false
        let pubFr ← readPublic pub (cid circuit).nPublic
        if !(← checkFlag (cid circuit) pubFr) then return false
        if !(← checkIssuer (cid circuit) pubFr) then return false
        if !(← checkRoot (cid circuit) pubFr) then return false
        recordNullifier (cid circuit) pubFr
      else pure false := by
  simp only [verifyCredential, toVec_eq, checkCircuitId]
  by_cases hcircuit : circuit ≤ 3
  swap
  · simp [hcircuit]
  by_cases hlength : pub.length = (cid circuit).nPublic * 32
  swap
  · simp [hlength]
  simp only [hcircuit, hlength, and_self, if_true]
  generalize cid circuit = id
  cases id <;> simp [checkFlag, checkIssuer, checkRoot, recordNullifier, usizeMax, ite_bind]

/-- A check that only reads, and then the rest: only an accepted rest writes. -/
theorem check_then_run {check next : Contract Bool} {ledger written : Ledger}
    {verdict nextVerdict : Except Trap Bool}
    (hcheck : check.run ledger = (fun ok => (ok, ledger)) <$> verdict)
    (hnext : next.run ledger = (fun ok => (ok, if ok then written else ledger)) <$> nextVerdict) :
    (do if !(← check) then return false else next : Contract Bool).run ledger
      = (fun ok => (ok, if ok then written else ledger)) <$>
          (do if !(← verdict) then return false else nextVerdict) := by
  rw [StateT.run_bind, hcheck]
  rcases verdict with trap | _ | _
  · rfl
  · rfl
  · exact hnext

/-- Every index of a layout is below the number of signals. -/
structure CircuitId.InBounds (id : CircuitId) : Prop where
  flag : id.flagIndex ≠ usizeMax → id.flagIndex < id.nPublic
  issuer : ∀ ix iy, id.issuerIndex = some (ix, iy) → ix < id.nPublic ∧ iy < id.nPublic
  root : ∀ ri, id.rootIndex = some ri → ri < id.nPublic
  nullifier : ∀ ni, id.nullifierIndex = some ni → ni < id.nPublic

theorem CircuitId.inBounds (id : CircuitId) : id.InBounds := by
  constructor <;> cases id <;> simp [usizeMax]

theorem index_publicSignals (pub : Bytes) {n i : ℕ} (h : i < n) :
    index (publicSignals pub n) i = .ok (publicSignal pub i) :=
  index_of_getElem? (getElem?_publicSignals pub h)

section Runs

variable (id : CircuitId) (ledger : Ledger) (pub : Bytes)

theorem checkFlag_run :
    (checkFlag id (publicSignals pub id.nPublic)).run ledger
      = (fun ok => (ok, ledger)) <$> (.ok (flagSet id pub) : Except Trap Bool) := by
  by_cases hflag : id.flagIndex = usizeMax
  · simp [checkFlag, flagSet, hflag]
  · simp [checkFlag, flagSet, hflag, index_publicSignals pub (id.inBounds.flag hflag)]

theorem checkIssuer_run :
    (checkIssuer id (publicSignals pub id.nPublic)).run ledger
      = (fun ok => (ok, ledger)) <$> issuerVerdict ledger.storage id pub := by
  cases hissuer : id.issuerIndex with
  | none => simp [checkIssuer, issuerVerdict, hissuer]
  | some indices =>
      obtain ⟨ix, iy⟩ := indices
      obtain ⟨hix, hiy⟩ := id.inBounds.issuer ix iy hissuer
      cases hax : ledger.storage .issAx with
      | none => simp [checkIssuer, issuerVerdict, hissuer, hax]
      | some ax =>
          cases hay : ledger.storage .issAy with
          | none => simp [checkIssuer, issuerVerdict, hissuer, hax, hay]
          | some ay =>
              by_cases hx : frToBytesn (publicSignal pub ix) = ax <;>
                simp [checkIssuer, issuerVerdict, hissuer, hax, hay, index_publicSignals pub hix,
                  index_publicSignals pub hiy, hx]

theorem checkRoot_run :
    (checkRoot id (publicSignals pub id.nPublic)).run ledger
      = (fun ok => (ok, ledger)) <$> rootVerdict ledger.storage id pub := by
  cases hindex : id.rootIndex with
  | none => simp [checkRoot, rootVerdict, hindex]
  | some ri =>
      have hri : ri < id.nPublic := id.inBounds.root ri hindex
      cases hstored : ledger.storage .root <;>
        simp [checkRoot, rootVerdict, hindex, hstored, index_publicSignals pub hri]

theorem recordNullifier_run :
    (recordNullifier id (publicSignals pub id.nPublic)).run ledger
      = (fun ok => (ok, if ok then ledger.spend id pub else ledger)) <$>
          (.ok (nullifierFresh ledger.storage id pub) : Except Trap Bool) := by
  cases hindex : id.nullifierIndex with
  | none => simp [recordNullifier, nullifierFresh, Ledger.spend, hindex]
  | some ni =>
      have hni : ni < id.nPublic := id.inBounds.nullifier ni hindex
      cases hspent : ledger.storage (.data (.nullifier (frToBytesn (publicSignal pub ni)))) <;>
        simp [recordNullifier, nullifierFresh, Ledger.spend, hindex, hspent,
          index_publicSignals pub hni]

end Runs

theorem verifyCredential_run (ledger : Ledger) (circuit : UInt32) (proof pub : Bytes) :
    (verifyCredential groth16 circuit proof pub).run ledger =
      (fun ok => (ok, if ok then ledger.spend (cid circuit) pub else ledger)) <$>
        credentialVerdict groth16 ledger.storage circuit proof pub := by
  rw [verifyCredential_eq, credentialVerdict]
  by_cases hshape : circuit ≤ 3 ∧ pub.length = (cid circuit).nPublic * 32
  swap
  · rw [if_neg hshape, if_neg hshape]
    rfl
  have hread : readPublic pub (cid circuit).nPublic
      = .ok (publicSignals pub (cid circuit).nPublic) := by
    rw [readPublic_eq, if_pos (by omega)]
  have hroot := check_then_run (checkRoot_run (cid circuit) ledger pub)
    (recordNullifier_run (cid circuit) ledger pub)
  have hissuer := check_then_run (checkIssuer_run (cid circuit) ledger pub) hroot
  have hflag := check_then_run (checkFlag_run (cid circuit) ledger pub) hissuer
  rw [if_pos hshape, if_pos hshape, hread]
  exact check_then_run (verifyFor_run groth16 ledger circuit proof pub) hflag

/-! ### Acceptance -/

/-- **An accepted submission.** `verifyCredential` returns true exactly on these. -/
structure Accepted (storage : Storage) (circuit : UInt32) (proof pub : Bytes) : Prop where
  circuit_le : circuit ≤ 3
  length : pub.length = (cid circuit).nPublic * 32
  verified : verifyForVerdict groth16 storage circuit proof pub = .ok true
  flag : flagSet (cid circuit) pub = true
  issuer : issuerVerdict storage (cid circuit) pub = .ok true
  root : rootVerdict storage (cid circuit) pub = .ok true
  fresh : nullifierFresh storage (cid circuit) pub = true

theorem credentialVerdict_eq_true_iff (storage : Storage) (circuit : UInt32) (proof pub : Bytes) :
    credentialVerdict groth16 storage circuit proof pub = .ok true ↔
      Accepted groth16 storage circuit proof pub := by
  by_cases hsize : circuit ≤ 3 ∧ pub.length = (cid circuit).nPublic * 32
  swap
  · rw [credentialVerdict, if_neg hsize]
    constructor
    · intro h
      cases h
    · intro h
      exact absurd ⟨h.circuit_le, h.length⟩ hsize
  rw [credentialVerdict, if_pos hsize, check_then_eq_true_iff]
  cases hflag : flagSet (cid circuit) pub with
  | false =>
      constructor
      · rintro ⟨_, h⟩
        cases h
      · intro h
        exact absurd h.flag (by simp [hflag])
  | true =>
      rw [if_neg (by simp), check_then_eq_true_iff, check_then_eq_true_iff, pure_eq_ok,
        Except.ok.injEq]
      constructor
      · rintro ⟨hverified, hissuer, hroot, hfresh⟩
        exact ⟨hsize.1, hsize.2, hverified, hflag, hissuer, hroot, hfresh⟩
      · intro h
        exact ⟨h.verified, h.issuer, h.root, h.fresh⟩

def faucetVerdict (env : Env) (storage : Storage) (recipient : Address) (circuit : UInt32)
    (proof pub : Bytes) : Except Trap Bool :=
  if recipient ∈ env.authorized then
    match cid circuit with
    | .ageGte | .credentialAge => credentialVerdict groth16 storage circuit proof pub
    | _ => .ok false
  else .error .unauthorized

def Ledger.claim (ledger : Ledger) (recipient : Address) : Ledger :=
  (ledger.set .claimed recipient).publish ⟨["faucet"], recipient⟩

theorem claimFaucet_run (env : Env) (ledger : Ledger) (recipient : Address) (circuit : UInt32)
    (proof pub : Bytes) :
    (claimFaucet groth16 env recipient circuit proof pub).run ledger =
      (fun ok => (ok, if ok then (ledger.spend (cid circuit) pub).claim recipient else ledger)) <$>
        faucetVerdict groth16 env ledger.storage recipient circuit proof pub := by
  by_cases hauth : recipient ∈ env.authorized
  swap
  · simp [claimFaucet, requireAuth, faucetVerdict, hauth]
  cases hcid : cid circuit <;>
    simp [claimFaucet, requireAuth, faucetVerdict, hauth, hcid, verifyCredential_run]
  all_goals
    rcases credentialVerdict groth16 ledger.storage circuit proof pub with trap | _ | _ <;> rfl

theorem circuit_cases {circuit : UInt32} (h : circuit ≤ 3) :
    circuit = 0 ∨ circuit = 1 ∨ circuit = 2 ∨ circuit = 3 := by
  rw [UInt32.le_iff_toNat_le] at h
  simp only [← UInt32.toNat_inj] at *
  simp at *
  omega

theorem faucetVerdict_eq_true_iff (env : Env) (storage : Storage) (recipient : Address)
    (circuit : UInt32) (proof pub : Bytes) :
    faucetVerdict groth16 env storage recipient circuit proof pub = .ok true ↔
      recipient ∈ env.authorized ∧ (circuit = 0 ∨ circuit = 3) ∧
        Accepted groth16 storage circuit proof pub := by
  by_cases hauth : recipient ∈ env.authorized
  swap
  · simp [faucetVerdict, hauth]
  by_cases hcircuit : circuit ≤ 3
  · rcases circuit_cases hcircuit with rfl | rfl | rfl | rfl <;>
      simp [faucetVerdict, hauth, cid, credentialVerdict_eq_true_iff]
  · constructor
    · intro h
      rw [faucetVerdict, if_pos hauth] at h
      split at h
      · exact absurd ((credentialVerdict_eq_true_iff ..).mp h).circuit_le hcircuit
      · exact absurd ((credentialVerdict_eq_true_iff ..).mp h).circuit_le hcircuit
      · cases h
    · rintro ⟨_, _, h⟩
      exact absurd h.circuit_le hcircuit

end Veritas
