import Veritas.Library.Register
import Veritas.Proof.Documented
import Veritas.Proof.Frame

/-!
# Who decides what is accepted

The administrator, the keys, the default circuit, the issuer and the root are registers of the
contract that only setters authorised by the administrator write. What an accepted submission was
checked against is therefore the latest such call for its circuit, whoever else called in between.
-/

namespace Veritas

variable (groth16 : Groth16)

/-! ### Calls that configure -/

def Call.isSetter : Call → Bool
  | .setVerifyingKey .. => true
  | .setDefaultCircuit .. => true
  | .setIssuer .. => true
  | .setAllowedRoot .. => true
  | _ => false

def Invocation.isAdminSetter (admin : Address) (invocation : Invocation) : Bool :=
  decide (admin ∈ invocation.env.authorized) && invocation.call.isSetter

def writtenKey (circuit : UInt32) : Call → Option Bytes
  | .setVerifyingKey other vk => if other = circuit then some vk else none
  | _ => none

def writtenDefault : Call → Option UInt32
  | .setDefaultCircuit circuit => some circuit
  | _ => none

def writtenIssuer : Call → Option (BytesN 32 × BytesN 32)
  | .setIssuer ax ay => some (ax, ay)
  | _ => none

def writtenRoot : Call → Option (BytesN 32)
  | .setAllowedRoot root => some root
  | _ => none

/-- The argument of the call, if the administrator authorised it. -/
def byAdmin {Value : Type} (admin : Address) (written : Call → Option Value)
    (invocation : Invocation) : Option Value :=
  if admin ∈ invocation.env.authorized then written invocation.call else none

/-- The keys submissions never write. -/
def StorageKey.IsConfig : StorageKey → Prop
  | .claimed => False
  | .data (.nullifier _) => False
  | _ => True

def storedIssuer (storage : Storage) : Option (BytesN 32 × BytesN 32) :=
  Option.map₂ Prod.mk (storage .issAx) (storage .issAy)

theorem storedIssuer_eq_some {storage : Storage} {ax ay : BytesN 32}
    (hax : storage .issAx = some ax) (hay : storage .issAy = some ay) :
    storedIssuer storage = some (ax, ay) := by
  rw [storedIssuer, hax, hay]
  rfl

def Administered (admin : Address) (ledger : Ledger) : Prop := ledger.storage .admin = some admin

/-! ### One step -/

theorem Ledger.spend_storage_of_config (ledger : Ledger) (id : CircuitId) (pub : Bytes)
    {key : StorageKey} (hkey : key.IsConfig) :
    (ledger.spend id pub).storage key = ledger.storage key := by
  unfold Ledger.spend
  cases id.nullifierIndex with
  | none => rfl
  | some ni =>
      apply Ledger.set_storage_of_ne
      rintro rfl
      exact hkey

theorem Ledger.claim_storage_of_config (ledger : Ledger) (recipient : Address) {key : StorageKey}
    (hkey : key.IsConfig) : (ledger.claim recipient).storage key = ledger.storage key := by
  apply Ledger.claim_storage_of_ne
  rintro rfl
  exact hkey

theorem configured_eq_none (ledger : Ledger) {call : Call} (hcall : call.isSetter = false) :
    configured ledger call = none := by
  cases call with
  | setVerifyingKey | setDefaultCircuit | setIssuer | setAllowedRoot => cases hcall
  | _ => rfl

theorem configured_isSome (ledger : Ledger) {call : Call} (hcall : call.isSetter = true) :
    ∃ written, configured ledger call = some written := by
  cases call with
  | setVerifyingKey | setDefaultCircuit | setIssuer | setAllowedRoot => exact ⟨_, rfl⟩
  | _ => cases hcall

/-- Only setters touch the configuration. -/
theorem step_config (env : Env) (ledger : Ledger) {call : Call} (hcall : call.isSetter = false)
    {key : StorageKey} (hkey : key.IsConfig) :
    (step groth16 ledger ⟨env, call⟩).1.storage key = ledger.storage key := by
  have hconfigure := configured_eq_none ledger hcall
  by_cases houtput : (step groth16 ledger ⟨env, call⟩).2 = .ok (.bool true)
  swap
  · rw [step_unaccepted groth16 env ledger hconfigure (accepted_of_output_ne houtput)]
  cases call with
  | verifyCredential circuit proof pub =>
      rw [(step_accepted_verifyCredential groth16 houtput).2,
        Ledger.spend_storage_of_config _ _ _ hkey]
  | claimFaucet recipient circuit proof pub =>
      rw [(step_accepted_claimFaucet groth16 houtput).2, Ledger.claim_storage_of_config _ _ hkey,
        Ledger.spend_storage_of_config _ _ _ hkey]
  | _ => rw [step_query groth16 env ledger hconfigure rfl]

theorem step_setter {admin : Address} {env : Env} {ledger written : Ledger} {call : Call}
    (hadmin : Administered admin ledger) (h : configured ledger call = some written) :
    (step groth16 ledger ⟨env, call⟩).1
      = if admin ∈ env.authorized then written else ledger := by
  rw [step_configure groth16 env h, adminVerdict, hadmin]
  dsimp only
  split_ifs <;> rfl

theorem step_administered {admin : Address} {ledger : Ledger} (invocation : Invocation)
    (hadmin : Administered admin ledger) :
    Administered admin (step groth16 ledger invocation).1 := by
  obtain ⟨env, call⟩ := invocation
  unfold Administered at *
  cases hcall : call.isSetter with
  | false => rw [step_config groth16 env ledger hcall (by exact trivial), hadmin]
  | true =>
      obtain ⟨post, hpost⟩ := configured_isSome ledger hcall
      rw [step_setter groth16 hadmin hpost]
      split_ifs
      · cases call with
        | setVerifyingKey | setDefaultCircuit | setIssuer | setAllowedRoot =>
            cases hpost
            simpa [Ledger.set_storage_of_ne] using hadmin
        | _ => cases hcall
      · exact hadmin

/-! ### Settings -/

/-- A part of the configuration: what is read of it from storage depends on the configuration keys
alone, and the setters have the effect of writing their argument. -/
structure Setting (Value : Type) where
  written : Call → Option Value
  read : Storage → Option Value
  read_empty : read (fun _ => none) = none
  read_congr {storage other : Storage} :
    (∀ key : StorageKey, key ≠ .admin → key.IsConfig → storage key = other key) →
      read storage = read other
  read_configured {ledger post : Ledger} {call : Call} : configured ledger call = some post →
    read post.storage = (written call).or (read ledger.storage)
  written_eq_none {call : Call} : call.isSetter = false → written call = none

def keySetting (circuit : UInt32) : Setting Bytes where
  written := writtenKey circuit
  read storage := storage (.data (.verifyingKey circuit))
  read_empty := rfl
  read_congr h := h _ (by simp) trivial
  read_configured {ledger post call} h := by
    cases call with
    | setVerifyingKey other vk =>
        cases h
        by_cases hother : other = circuit
        · subst hother
          simp [writtenKey]
        · have hne : StorageKey.data (.verifyingKey circuit) ≠ .data (.verifyingKey other) := by
            simpa using Ne.symm hother
          simp [writtenKey, hother, Ledger.set_storage_of_ne _ _ _ hne]
    | setDefaultCircuit | setIssuer | setAllowedRoot =>
        cases h
        simp [writtenKey, Ledger.set_storage_of_ne]
    | _ => cases h
  written_eq_none {call} h := by cases call <;> first | rfl | cases h

def defaultSetting : Setting UInt32 where
  written := writtenDefault
  read storage := storage .default
  read_empty := rfl
  read_congr h := h .default (by simp) trivial
  read_configured {ledger post call} h := by
    cases call <;> cases h <;> simp [writtenDefault, Ledger.set_storage_of_ne]
  written_eq_none {call} h := by cases call <;> first | rfl | cases h

def issuerSetting : Setting (BytesN 32 × BytesN 32) where
  written := writtenIssuer
  read := storedIssuer
  read_empty := rfl
  read_congr h := by
    rw [storedIssuer, h .issAx (by simp) trivial, h .issAy (by simp) trivial, storedIssuer]
  read_configured {ledger post call} h := by
    cases call <;> cases h <;> simp [writtenIssuer, storedIssuer, Ledger.set_storage_of_ne]
  written_eq_none {call} h := by cases call <;> first | rfl | cases h

/-- One coordinate of the issuer, whether or not the other is there. -/
def axSetting : Setting (BytesN 32) where
  written call := (writtenIssuer call).map Prod.fst
  read storage := storage .issAx
  read_empty := rfl
  read_congr h := h .issAx (by simp) trivial
  read_configured {ledger post call} h := by
    cases call <;> cases h <;> simp [writtenIssuer, Ledger.set_storage_of_ne]
  written_eq_none {call} h := by cases call <;> first | rfl | cases h

def aySetting : Setting (BytesN 32) where
  written call := (writtenIssuer call).map Prod.snd
  read storage := storage .issAy
  read_empty := rfl
  read_congr h := h .issAy (by simp) trivial
  read_configured {ledger post call} h := by
    cases call <;> cases h <;> simp [writtenIssuer, Ledger.set_storage_of_ne]
  written_eq_none {call} h := by cases call <;> first | rfl | cases h

def rootSetting : Setting (BytesN 32) where
  written := writtenRoot
  read storage := storage .root
  read_empty := rfl
  read_congr h := h .root (by simp) trivial
  read_configured {ledger post call} h := by
    cases call <;> cases h <;> simp [writtenRoot, Ledger.set_storage_of_ne]
  written_eq_none {call} h := by cases call <;> first | rfl | cases h

namespace Setting

variable {Value : Type} (setting : Setting Value) (admin : Address)

/-- The argument of the latest setter call the administrator authorised. -/
def lastSet (invocations : List Invocation) : Option Value :=
  Machine.latest (byAdmin admin setting.written) invocations

theorem register :
    Machine.Register (step groth16) (Administered admin) (byAdmin admin setting.written)
      (fun ledger => setting.read ledger.storage) where
  keeps {ledger invocation} hadmin := step_administered groth16 invocation hadmin
  read_step {ledger invocation} hadmin := by
    obtain ⟨env, call⟩ := invocation
    cases hcall : call.isSetter with
    | false =>
        have hsame := setting.read_congr fun key _ hkey => step_config groth16 env ledger hcall hkey
        rw [hsame, byAdmin, setting.written_eq_none hcall, ite_self, Option.none_or]
    | true =>
        obtain ⟨post, hpost⟩ := configured_isSome ledger hcall
        rw [step_setter groth16 hadmin hpost, byAdmin]
        split_ifs
        · exact setting.read_configured hpost
        · rfl

theorem read_genesis : setting.read (genesis admin).storage = none := by
  rw [← setting.read_empty]
  apply setting.read_congr
  intro key hkey _
  exact Ledger.set_storage_of_ne _ _ _ hkey

theorem read_reached (invocations : List Invocation) :
    setting.read (Reached groth16 admin invocations).storage
      = setting.lastSet admin invocations := by
  calc
    setting.read (Reached groth16 admin invocations).storage
        = (setting.lastSet admin invocations).or (setting.read (genesis admin).storage) :=
      (setting.register groth16 admin).read_exec (genesis_admin admin) invocations
    _ = setting.lastSet admin invocations := by
      rw [setting.read_genesis, Option.or_none]

theorem read_reached_filter (invocations : List Invocation) :
    setting.read
        (Reached groth16 admin (invocations.filter (Invocation.isAdminSetter admin))).storage
      = setting.read (Reached groth16 admin invocations).storage := by
  apply (setting.register groth16 admin).read_exec_filter (genesis_admin admin)
  intro invocation _ hkeep
  rw [Invocation.isAdminSetter, Bool.and_eq_false_iff, decide_eq_false_iff_not] at hkeep
  unfold byAdmin
  rcases hkeep with hauth | hcall
  · rw [if_neg hauth]
  · rw [setting.written_eq_none hcall, ite_self]

end Setting

/-! ### Runs -/

theorem reached_administered (admin : Address) (invocations : List Invocation) :
    Administered admin (Reached groth16 admin invocations) :=
  (rootSetting.register groth16 admin).invariant_exec (genesis_admin admin) invocations

theorem setter_nullifier (env : Env) (ledger : Ledger) {call : Call}
    (hcall : call.isSetter = true) (key : BytesN 32) :
    (step groth16 ledger ⟨env, call⟩).1.storage (.data (.nullifier key))
      = ledger.storage (.data (.nullifier key)) := by
  apply nullifier_frame
  apply accepted_eq_none
  cases call with
  | setVerifyingKey | setDefaultCircuit | setIssuer | setAllowedRoot => rfl
  | _ => cases hcall

/-- **Only the administrator's latest configuration decides acceptance.** In every run the
administrator stays who it was. An accepted submission was checked with the key, the issuer and the
root that the administrator set last before it. Leaving out every other call gives the same
configuration, and no setter touches a nullifier. -/
theorem configuration_provenance (admin : Address) (invocations : List Invocation) :
    (Reached groth16 admin invocations).storage .admin = some admin ∧
    (∀ (i : ℕ) (entry : Entry) (submission : Submission),
      (History groth16 admin invocations)[i]? = some entry →
      accepted entry = some submission →
      (∃ raw vk parsed,
        (keySetting submission.circuit).lastSet admin (invocations.take i) = some raw ∧
          parseVk raw = .ok vk ∧ parseProof submission.proof = .ok parsed ∧
          groth16 vk (decoded submission.circuit submission.pub) parsed = .ok true) ∧
      (submission.circuit = 1 ∨ submission.circuit = 3 → ∃ x y,
        Carries submission.circuit submission.pub .issuerAx x ∧
          Carries submission.circuit submission.pub .issuerAy y ∧
          issuerSetting.lastSet admin (invocations.take i)
            = some (frToBytesn x, frToBytesn y)) ∧
      (submission.circuit = 2 → ∃ root,
        Carries submission.circuit submission.pub .merkleRoot root ∧
          rootSetting.lastSet admin (invocations.take i) = some (frToBytesn root))) ∧
    (∀ key : StorageKey, key.IsConfig →
      (Reached groth16 admin (invocations.filter (Invocation.isAdminSetter admin))).storage key
        = (Reached groth16 admin invocations).storage key) ∧
    ∀ (env : Env) (ledger : Ledger) (call : Call), call.isSetter = true → ∀ key : BytesN 32,
      (step groth16 ledger ⟨env, call⟩).1.storage (.data (.nullifier key))
        = ledger.storage (.data (.nullifier key)) := by
  have hadmin := reached_administered groth16 admin
  refine ⟨hadmin invocations, ?_, ?_, ?_⟩
  · intro i entry submission hentry haccepted
    have hrecord := Machine.eq_record_of_getElem? _ hentry
    rw [hrecord] at haccepted
    have hdocumented := (accepted_iff_documented ..).mp (accepted_step groth16 haccepted).1
    refine ⟨?_, ?_, ?_⟩
    · obtain ⟨raw, vk, parsed, hraw, hproved⟩ := hdocumented.proved
      refine ⟨raw, vk, parsed, ?_, hproved⟩
      rw [← Setting.read_reached groth16]
      exact hraw
    · intro hcircuit
      obtain ⟨x, y, hx, hy, hax, hay⟩ := hdocumented.issuer hcircuit
      refine ⟨x, y, hx, hy, ?_⟩
      rw [← Setting.read_reached groth16]
      exact storedIssuer_eq_some (spells_iff.mp hax) (spells_iff.mp hay)
    · intro hcircuit
      obtain ⟨root, hcarries, hroot⟩ := hdocumented.root hcircuit
      refine ⟨root, hcarries, ?_⟩
      rw [← Setting.read_reached groth16]
      exact spells_iff.mp hroot
  · intro key hkey
    match key with
    | .admin => exact (hadmin _).trans (hadmin _).symm
    | .default => exact defaultSetting.read_reached_filter groth16 admin invocations
    | .issAx => exact axSetting.read_reached_filter groth16 admin invocations
    | .issAy => exact aySetting.read_reached_filter groth16 admin invocations
    | .root => exact rootSetting.read_reached_filter groth16 admin invocations
    | .data (.verifyingKey circuit) =>
        exact (keySetting circuit).read_reached_filter groth16 admin invocations
    | .claimed | .data (.nullifier _) => exact hkey.elim
  · intro env ledger call hcall key
    exact setter_nullifier groth16 env ledger hcall key

def intruderCall : Invocation :=
  ⟨⟨[]⟩, .setIssuer (Vector.replicate 32 0) (Vector.replicate 32 0)⟩

/-- Someone else tries to replace the issuer before the submission. -/
theorem configuration_provenance_sample :
    (∃ raw vk parsed,
      (keySetting 3).lastSet zeroAccount (sampleSetup ++ [intruderCall]) = some raw ∧
        parseVk raw = .ok vk ∧ parseProof (proofBlob generatorProof) = .ok parsed ∧
        verifyGroth16 discreteLog vk (decoded 3 (pubBlob sampleVector)) parsed = .ok true) ∧
      ∃ x y, Carries 3 (pubBlob sampleVector) .issuerAx x ∧
        Carries 3 (pubBlob sampleVector) .issuerAy y ∧
        issuerSetting.lastSet zeroAccount (sampleSetup ++ [intruderCall])
          = some (frToBytesn x, frToBytesn y) := by
  have hadmin := reached_administered (verifyGroth16 discreteLog) zeroAccount sampleSetup
  have hintruder : Machine.exec (step (verifyGroth16 discreteLog)) (genesis zeroAccount)
      (sampleSetup ++ [intruderCall]) = sampleLedger := by
    rw [Machine.exec_concat, intruderCall, step_setter _ hadmin rfl, if_neg List.not_mem_nil]
    rfl
  have hentry := Machine.getElem?_history (step (verifyGroth16 discreteLog)) (genesis zeroAccount)
    (sampleSetup ++ [intruderCall]) [] (credentialCall 3 generatorProof sampleVector)
  rw [hintruder] at hentry
  have haccepted := (accepted_verifyCredential_iff (verifyGroth16 discreteLog) ⟨[]⟩ sampleLedger 3
    (proofBlob generatorProof) (pubBlob sampleVector) _).mpr ⟨rfl, sample_accepted⟩
  obtain ⟨hkey, hissuer, -⟩ := (configuration_provenance (verifyGroth16 discreteLog) zeroAccount
    (sampleSetup ++ [intruderCall] ++ [credentialCall 3 generatorProof sampleVector])).2.1 _ _ _
    hentry haccepted
  exact ⟨hkey, hissuer (.inr rfl)⟩

end Veritas
