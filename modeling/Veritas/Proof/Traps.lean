import Veritas.DiscreteLog

/-!
# Traps

The parsers slice without checking, so a submission of the right shape traps exactly when the
installed key is shorter than the number of points it announces. Nothing else can go wrong: the
accumulator stays inside its arrays, every index of the layout tables is below the number of
signals, and the bytes after the announced points are never read.
-/

namespace Veritas

open Cursor

/-! ### The bytes a key is read from -/

/-- Where the points a key announces in its byte 448 end. -/
def vkLength (raw : Bytes) : ℕ := 449 + 64 * (announced raw + 1)

def Truncated (raw : Bytes) : Prop := raw.length < 449 ∨ raw.length < vkLength raw

theorem lt_vkLength (raw : Bytes) : 448 < vkLength raw := by
  rw [vkLength]
  omega

theorem truncated_iff (raw : Bytes) : Truncated raw ↔ raw.length < vkLength raw := by
  constructor
  · rintro (h | h)
    · exact h.trans_le (lt_vkLength raw)
    · exact h
  · exact .inr

theorem parseVk_truncated {raw : Bytes} (h : Truncated raw) :
    parseVk raw = .error .indexOutOfBounds := by
  rw [truncated_iff, vkLength] at h
  rw [parseVk_eq, if_neg (by omega)]

theorem parseVk_complete {raw : Bytes} (h : ¬ Truncated raw) : parseVk raw = .ok (vkOf raw) := by
  rw [truncated_iff, vkLength] at h
  rw [parseVk_eq, if_pos (by omega)]

theorem announced_take {n : ℕ} (raw : Bytes) (h : 448 < n) :
    announced (raw.take n) = announced raw := by
  rw [announced, announced, List.getElem?_take_of_lt h]

theorem vkLength_take (raw : Bytes) : vkLength (raw.take (vkLength raw)) = vkLength raw := by
  rw [vkLength, announced_take raw (lt_vkLength raw), ← vkLength]

theorem vkOf_take (raw : Bytes) : vkOf (raw.take (vkLength raw)) = vkOf raw := by
  have hannounced : announced (raw.take (vkLength raw)) = announced raw :=
    announced_take raw (lt_vkLength raw)
  have hwindow : ∀ offset width, offset + width ≤ vkLength raw →
      window (raw.take (vkLength raw)) offset width = window raw offset width :=
    fun _ _ => take_window raw
  have hic := hwindow 449 ((announced raw + 1) * 64) (by rw [vkLength]; omega)
  have halpha := hwindow 0 64 (by rw [vkLength]; omega)
  have hbeta := hwindow 64 128 (by rw [vkLength]; omega)
  have hgamma := hwindow 192 128 (by rw [vkLength]; omega)
  have hdelta := hwindow 320 128 (by rw [vkLength]; omega)
  rw [vkOf, vkOf, hannounced, hic, halpha, hbeta, hgamma, hdelta]

/-- The parser stops where the announced points end. -/
theorem parseVk_take (raw : Bytes) : parseVk (raw.take (vkLength raw)) = parseVk raw := by
  have hiff : Truncated (raw.take (vkLength raw)) ↔ Truncated raw := by
    rw [truncated_iff, truncated_iff, vkLength_take, List.length_take]
    omega
  by_cases h : Truncated raw
  · rw [parseVk_truncated h, parseVk_truncated (hiff.mpr h)]
  · rw [parseVk_complete h, parseVk_complete fun htake => h (hiff.mp htake), vkOf_take]

theorem parseVk_eq_of_take {raw raw' : Bytes}
    (h : raw'.take (vkLength raw) = raw.take (vkLength raw)) : parseVk raw' = parseVk raw := by
  have hlength : vkLength raw' = vkLength raw := by
    rw [← vkLength_take raw, ← h, vkLength, vkLength, announced_take raw' (lt_vkLength raw)]
  calc
    parseVk raw' = parseVk (raw'.take (vkLength raw')) := (parseVk_take raw').symm
    _ = parseVk (raw.take (vkLength raw)) := by rw [hlength, h]
    _ = parseVk raw := parseVk_take raw

/-! ### Verification under a stored key -/

section Stored

variable (groth16 : Groth16) {storage : Storage} {circuit : UInt32} {raw : Bytes}

theorem verifyForVerdict_stored (hstored : storage (.data (.verifyingKey circuit)) = some raw)
    (proof pub : Bytes) :
    verifyForVerdict groth16 storage circuit proof pub =
      if circuit ≤ 3 ∧ proof.length = 256 ∧ pub.length % 32 = 0 then
        parseVk raw >>= fun vk => groth16 vk (publicSignals pub (pub.length / 32)) (proofOf proof)
      else .ok false := by
  rw [verifyForVerdict, groth16Verdict, hstored]

theorem verifyForVerdict_eq_of_take {storage' : Storage} {raw' : Bytes}
    (hstored : storage (.data (.verifyingKey circuit)) = some raw)
    (hstored' : storage' (.data (.verifyingKey circuit)) = some raw')
    (h : raw'.take (vkLength raw) = raw.take (vkLength raw)) (proof pub : Bytes) :
    verifyForVerdict groth16 storage' circuit proof pub
      = verifyForVerdict groth16 storage circuit proof pub := by
  rw [verifyForVerdict_stored groth16 hstored, verifyForVerdict_stored groth16 hstored',
    parseVk_eq_of_take h]

end Stored

/-- A submission of the right shape under a truncated key. -/
structure Trapping (circuit : UInt32) (proof pub raw : Bytes) : Prop where
  circuit_le : circuit ≤ 3
  proof_length : proof.length = 256
  pub_length : 32 ∣ pub.length
  truncated : Truncated raw

section Returns

variable (curve : Bn254) {storage : Storage} {circuit : UInt32}

theorem verifyForVerdict_trapping {proof pub raw : Bytes}
    (hstored : storage (.data (.verifyingKey circuit)) = some raw)
    (h : Trapping circuit proof pub raw) :
    verifyForVerdict (verifyGroth16 curve) storage circuit proof pub
      = .error .indexOutOfBounds := by
  obtain ⟨hcircuit, hproof, hpub, htruncated⟩ := h
  rw [verifyForVerdict_stored _ hstored, parseVk_truncated htruncated,
    if_pos ⟨hcircuit, hproof, Nat.mod_eq_zero_of_dvd hpub⟩]
  rfl

theorem verifyForVerdict_returns {proof pub raw : Bytes}
    (hstored : storage (.data (.verifyingKey circuit)) = some raw)
    (h : ¬ Trapping circuit proof pub raw) :
    ∃ verdict, verifyForVerdict (verifyGroth16 curve) storage circuit proof pub = .ok verdict := by
  rw [verifyForVerdict_stored _ hstored]
  split_ifs with hshape
  · obtain ⟨hcircuit, hproof, hpub⟩ := hshape
    have hcomplete : ¬ Truncated raw := fun htruncated =>
      h ⟨hcircuit, hproof, Nat.dvd_of_mod_eq_zero hpub, htruncated⟩
    rw [parseVk_complete hcomplete]
    apply verifyGroth16_returns
  · exact ⟨false, rfl⟩

/-- What the administrator has set before submissions for the circuit are taken. -/
structure Provisioned (storage : Storage) (circuit : UInt32) : Prop where
  key : circuit ≤ 3 →
    ∃ raw, storage (.data (.verifyingKey circuit)) = some raw ∧ ¬ Truncated raw
  issAx : ∃ ax, storage .issAx = some ax
  issAy : ∃ ay, storage .issAy = some ay
  root : ∃ root, storage .root = some root

theorem issuerVerdict_returns (h : Provisioned storage circuit) (id : CircuitId) (pub : Bytes) :
    ∃ verdict, issuerVerdict storage id pub = .ok verdict := by
  obtain ⟨ax, hax⟩ := h.issAx
  obtain ⟨ay, hay⟩ := h.issAy
  rw [issuerVerdict, hax, hay]
  cases id.issuerIndex with
  | none => exact ⟨true, rfl⟩
  | some indices => exact ⟨_, rfl⟩

theorem rootVerdict_returns (h : Provisioned storage circuit) (id : CircuitId) (pub : Bytes) :
    ∃ verdict, rootVerdict storage id pub = .ok verdict := by
  obtain ⟨root, hroot⟩ := h.root
  rw [rootVerdict, hroot]
  cases id.rootIndex with
  | none => exact ⟨true, rfl⟩
  | some ri => exact ⟨_, rfl⟩

/-- Every check after the pairing returns, so the submission does. -/
theorem credentialVerdict_returns (h : Provisioned storage circuit) (proof pub : Bytes) :
    ∃ verdict, credentialVerdict (verifyGroth16 curve) storage circuit proof pub
      = .ok verdict := by
  by_cases hshape : circuit ≤ 3 ∧ pub.length = (cid circuit).nPublic * 32
  swap
  · exact ⟨false, by rw [credentialVerdict, if_neg hshape]⟩
  rw [credentialVerdict, if_pos hshape]
  obtain ⟨raw, hstored, hcomplete⟩ := h.key hshape.1
  apply check_then_returns
  · exact verifyForVerdict_returns curve hstored fun htrapping => hcomplete htrapping.truncated
  cases flagSet (cid circuit) pub with
  | false => exact ⟨false, rfl⟩
  | true =>
      apply check_then_returns (issuerVerdict_returns h _ pub)
      apply check_then_returns (rootVerdict_returns h _ pub)
      exact ⟨_, rfl⟩

theorem faucetVerdict_returns {env : Env} {recipient : Address}
    (hauth : recipient ∈ env.authorized) (h : Provisioned storage circuit) (proof pub : Bytes) :
    ∃ verdict, faucetVerdict (verifyGroth16 curve) env storage recipient circuit proof pub
      = .ok verdict := by
  rw [faucetVerdict, if_pos hauth]
  split
  · exact credentialVerdict_returns curve h proof pub
  · exact credentialVerdict_returns curve h proof pub
  · exact ⟨false, rfl⟩

/-! ### The three entry points -/

/-- **When verification traps.** With the bytes `raw` stored for the circuit, `verifyFor` traps
exactly on a submission of the right shape under a truncated key. Every other call returns a boolean
that any ledger gives whose key agrees with `raw` up to where its announced points end. Once a key
that is not truncated, the issuer and the root are set, `verifyCredential` and an authorised
`claimFaucet` always return. -/
theorem verification_traps_iff (env : Env) (ledger : Ledger) (circuit : UInt32)
    (proof pub : Bytes) :
    (∀ raw, ledger.storage (.data (.verifyingKey circuit)) = some raw →
      ((∃ trap, (step (verifyGroth16 curve) ledger ⟨env, .verifyFor circuit proof pub⟩).2
          = .error trap) ↔ Trapping circuit proof pub raw) ∧
      (¬ Trapping circuit proof pub raw →
        ∃ verdict, ∀ (env' : Env) (ledger' : Ledger) (raw' : Bytes),
          ledger'.storage (.data (.verifyingKey circuit)) = some raw' →
          raw'.take (vkLength raw) = raw.take (vkLength raw) →
          (step (verifyGroth16 curve) ledger' ⟨env', .verifyFor circuit proof pub⟩).2
            = .ok (.bool verdict))) ∧
    (Provisioned ledger.storage circuit →
      (∃ verdict, (step (verifyGroth16 curve) ledger
          ⟨env, .verifyCredential circuit proof pub⟩).2 = .ok (.bool verdict)) ∧
      ∀ recipient ∈ env.authorized, ∃ verdict, (step (verifyGroth16 curve) ledger
          ⟨env, .claimFaucet recipient circuit proof pub⟩).2 = .ok (.bool verdict)) := by
  refine ⟨fun raw hstored => ⟨⟨?_, ?_⟩, ?_⟩, fun h => ⟨?_, ?_⟩⟩
  · rintro ⟨trap, houtcome⟩
    by_contra htrapping
    obtain ⟨verdict, hverdict⟩ := verifyForVerdict_returns curve hstored htrapping
    rw [step_verifyFor, hverdict] at houtcome
    cases houtcome
  · intro htrapping
    exact ⟨_, by rw [step_verifyFor, verifyForVerdict_trapping curve hstored htrapping]; rfl⟩
  · intro htrapping
    obtain ⟨verdict, hverdict⟩ := verifyForVerdict_returns curve hstored htrapping
    refine ⟨verdict, fun env' ledger' raw' hstored' htake => ?_⟩
    rw [step_verifyFor, verifyForVerdict_eq_of_take _ hstored hstored' htake, hverdict]
    rfl
  · obtain ⟨verdict, hverdict⟩ := credentialVerdict_returns curve h proof pub
    exact ⟨verdict, by rw [output_verifyCredential, hverdict]; rfl⟩
  · intro recipient hauth
    obtain ⟨verdict, hverdict⟩ := faucetVerdict_returns curve hauth h proof pub
    exact ⟨verdict, by rw [output_claimFaucet, hverdict]; rfl⟩

theorem truncated_zeros_iff (n : ℕ) : Truncated (List.replicate n 0) ↔ n < 513 := by
  have hannounced : announced (List.replicate n 0) = 0 := by
    rw [announced, List.getElem?_replicate]
    split <;> rfl
  rw [truncated_iff, vkLength, hannounced, List.length_replicate]

/-- A key one byte short of the one point it announces, and the same key with that byte. -/
theorem verification_traps_iff_zeroKey :
    let short := Reached (verifyGroth16 discreteLog) zeroAccount
      [⟨⟨[zeroAccount]⟩, .setVerifyingKey 3 (List.replicate 512 0)⟩]
    let provisioned := (setupLedger zeroAccount 3 (List.replicate 513 0)
      (Vector.replicate 32 0) (Vector.replicate 32 0)).set .root (Vector.replicate 32 0)
    (∃ trap, (step (verifyGroth16 discreteLog) short
        ⟨⟨[]⟩, .verifyFor 3 (List.replicate 256 0) []⟩).2 = .error trap) ∧
      (∃ verdict, (step (verifyGroth16 discreteLog) provisioned
        ⟨⟨[zeroAccount]⟩, .verifyFor 3 (List.replicate 256 0) []⟩).2 = .ok (.bool verdict)) ∧
      (∃ verdict, (step (verifyGroth16 discreteLog) provisioned
        ⟨⟨[zeroAccount]⟩, .verifyCredential 3 (List.replicate 256 0) (List.replicate 128 0)⟩).2
          = .ok (.bool verdict)) ∧
      ∃ verdict, (step (verifyGroth16 discreteLog) provisioned
        ⟨⟨[zeroAccount]⟩, .claimFaucet zeroAccount 3 (List.replicate 256 0)
          (List.replicate 128 0)⟩).2 = .ok (.bool verdict) := by
  intro short provisioned
  have hshort : short.storage (.data (.verifyingKey 3)) = some (List.replicate 512 0) := by
    rw [show short = _ from reached_install ..]
    apply Ledger.set_storage_self
  have hkey : provisioned.storage (.data (.verifyingKey 3)) = some (List.replicate 513 0) := by
    rw [Ledger.set_storage_of_ne _ _ _ (by simp), setupLedger_key]
  have hcomplete : ¬ Truncated (List.replicate 513 0) := by
    rw [truncated_zeros_iff]
    exact lt_irrefl 513
  have hprovisioned : Provisioned provisioned.storage 3 :=
    ⟨fun _ => ⟨_, hkey, hcomplete⟩,
      ⟨_, by rw [Ledger.set_storage_of_ne _ _ _ (by simp), setupLedger_issAx]⟩,
      ⟨_, by rw [Ledger.set_storage_of_ne _ _ _ (by simp), setupLedger_issAy]⟩,
      ⟨_, Ledger.set_storage_self ..⟩⟩
  have htruncated : Truncated (List.replicate 512 0) := (truncated_zeros_iff 512).mpr (by omega)
  have htrap := ((verification_traps_iff discreteLog ⟨[]⟩ short 3 (List.replicate 256 0) []).1
    _ hshort).1.mpr ⟨by decide, List.length_replicate, by simp, htruncated⟩
  obtain ⟨verdict, hverdict⟩ := ((verification_traps_iff discreteLog ⟨[]⟩ provisioned 3
    (List.replicate 256 0) []).1 _ hkey).2 fun h => hcomplete h.truncated
  obtain ⟨hcredential, hfaucet⟩ := (verification_traps_iff discreteLog ⟨[zeroAccount]⟩ provisioned
    3 (List.replicate 256 0) (List.replicate 128 0)).2 hprovisioned
  exact ⟨htrap, ⟨verdict, hverdict _ _ _ hkey rfl⟩, hcredential,
    hfaucet zeroAccount (List.mem_singleton_self _)⟩

end Returns

end Veritas
