import Veritas.Proof.Step

/-!
# Acceptance, circuit by circuit

The checks of `verifyCredential` are chosen by the layout tables. Spelled out for each circuit they
are a proof for the right number of signals, and of flag, issuer, root and nullifier those that the
circuit has. `AgeGte` is the one circuit whose submissions are not tied to anything the contract
stores besides the key.
-/

namespace Veritas

variable (groth16 : Groth16)

/-- The predicate accepts the blobs, for `n` signals, under the key installed for the circuit. -/
structure Proved (storage : Storage) (circuit : UInt32) (n : ℕ) (proof pub : Bytes) : Prop where
  proof_length : proof.length = 256
  pub_length : pub.length = n * 32
  key : ∃ raw vk, storage (.data (.verifyingKey circuit)) = some raw ∧ parseVk raw = .ok vk ∧
    groth16 vk (publicSignals pub n) (proofOf proof) = .ok true

structure IssuerMatches (storage : Storage) (x y : Fr) : Prop where
  x : storage .issAx = some (frToBytesn x)
  y : storage .issAy = some (frToBytesn y)

def Unspent (storage : Storage) (nullifier : Fr) : Prop :=
  storage (.data (.nullifier (frToBytesn nullifier))) = none

theorem proved_iff {storage : Storage} {circuit : UInt32} {n : ℕ} {proof pub : Bytes}
    (hcircuit : circuit ≤ 3) :
    Proved groth16 storage circuit n proof pub ↔
      pub.length = n * 32 ∧ verifyForVerdict groth16 storage circuit proof pub = .ok true := by
  rw [verifyForVerdict_eq_true_iff]
  constructor
  · rintro ⟨hproof, hpub, raw, vk, hraw, hvk, hgroth16⟩
    have hcount : pub.length / 32 = n := by omega
    exact ⟨hpub, hcircuit, hproof, by omega, raw, vk, hraw, hvk, by rwa [hcount]⟩
  · rintro ⟨hpub, -, hproof, -, raw, vk, hraw, hvk, hgroth16⟩
    have hcount : pub.length / 32 = n := by omega
    exact ⟨hproof, hpub, raw, vk, hraw, hvk, by rwa [hcount] at hgroth16⟩

theorem issuerVerdict_eq_true_iff {storage : Storage} {id : CircuitId} {pub : Bytes} {ix iy : ℕ}
    (h : id.issuerIndex = some (ix, iy)) :
    issuerVerdict storage id pub = .ok true ↔
      IssuerMatches storage (publicSignal pub ix) (publicSignal pub iy) := by
  rw [issuerVerdict, h]
  dsimp only
  split
  next ax ay hax hay =>
    simp only [Except.ok.injEq, Bool.and_eq_true, decide_eq_true_eq]
    constructor
    · rintro ⟨hx, hy⟩
      exact ⟨by rw [hax, hx], by rw [hay, hy]⟩
    · rintro ⟨hx, hy⟩
      rw [hax, Option.some.injEq] at hx
      rw [hay, Option.some.injEq] at hy
      exact ⟨hx.symm, hy.symm⟩
  next hmissing =>
    constructor
    · intro h
      cases h
    · rintro ⟨hx, hy⟩
      exact absurd hy (hmissing _ _ hx)

theorem nullifierFresh_eq_true_iff {storage : Storage} {id : CircuitId} {pub : Bytes} {ni : ℕ}
    (h : id.nullifierIndex = some ni) :
    nullifierFresh storage id pub = true ↔ Unspent storage (publicSignal pub ni) := by
  simp [nullifierFresh, h, Unspent]

theorem accepted_ageGte_iff (storage : Storage) (proof pub : Bytes) :
    Accepted groth16 storage 0 proof pub ↔
      Proved groth16 storage 0 6 proof pub ∧ publicSignal pub 1 = 1 := by
  rw [proved_iff groth16 (by decide)]
  constructor
  · intro h
    exact ⟨⟨h.length, h.verified⟩, by simpa [flagSet, usizeMax, cid] using h.flag⟩
  · rintro ⟨⟨hlength, hverified⟩, hflag⟩
    exact ⟨by decide, hlength, hverified, by simp [flagSet, cid, hflag], rfl, rfl, rfl⟩

theorem accepted_validOwner_iff (storage : Storage) (proof pub : Bytes) :
    Accepted groth16 storage 1 proof pub ↔
      Proved groth16 storage 1 4 proof pub ∧ publicSignal pub 1 = 1 ∧
        IssuerMatches storage (publicSignal pub 2) (publicSignal pub 3) ∧
        Unspent storage (publicSignal pub 0) := by
  have hissuer : (cid 1).issuerIndex = some (2, 3) := rfl
  have hnullifier : (cid 1).nullifierIndex = some 0 := rfl
  rw [proved_iff groth16 (by decide), ← issuerVerdict_eq_true_iff hissuer,
    ← nullifierFresh_eq_true_iff hnullifier]
  constructor
  · intro h
    exact ⟨⟨h.length, h.verified⟩, by simpa [flagSet, usizeMax, cid] using h.flag, h.issuer,
      h.fresh⟩
  · rintro ⟨⟨hlength, hverified⟩, hflag, hmatches, hfresh⟩
    exact ⟨by decide, hlength, hverified, by simp [flagSet, cid, hflag], hmatches, rfl, hfresh⟩

theorem accepted_jurisdictionAllowed_iff (storage : Storage) (proof pub : Bytes) :
    Accepted groth16 storage 2 proof pub ↔
      Proved groth16 storage 2 3 proof pub ∧ publicSignal pub 1 = 1 ∧
        storage .root = some (frToBytesn (publicSignal pub 2)) := by
  have hroot : rootVerdict storage (cid 2) pub = .ok true ↔
      storage .root = some (frToBytesn (publicSignal pub 2)) := by
    cases hstored : storage .root <;> simp [rootVerdict, cid, hstored, eq_comm]
  rw [proved_iff groth16 (by decide), ← hroot]
  constructor
  · intro h
    exact ⟨⟨h.length, h.verified⟩, by simpa [flagSet, usizeMax, cid] using h.flag, h.root⟩
  · rintro ⟨⟨hlength, hverified⟩, hflag, hmatches⟩
    exact ⟨by decide, hlength, hverified, by simp [flagSet, cid, hflag], rfl, hmatches, rfl⟩

theorem accepted_credentialAge_iff (storage : Storage) (proof pub : Bytes) :
    Accepted groth16 storage 3 proof pub ↔
      Proved groth16 storage 3 4 proof pub ∧
        IssuerMatches storage (publicSignal pub 1) (publicSignal pub 2) ∧
        Unspent storage (publicSignal pub 0) := by
  have hissuer : (cid 3).issuerIndex = some (1, 2) := rfl
  have hnullifier : (cid 3).nullifierIndex = some 0 := rfl
  rw [proved_iff groth16 (by decide), ← issuerVerdict_eq_true_iff hissuer,
    ← nullifierFresh_eq_true_iff hnullifier]
  constructor
  · intro h
    exact ⟨⟨h.length, h.verified⟩, h.issuer, h.fresh⟩
  · rintro ⟨⟨hlength, hverified⟩, hmatches, hfresh⟩
    exact ⟨by decide, hlength, hverified, rfl, hmatches, rfl, hfresh⟩

end Veritas
