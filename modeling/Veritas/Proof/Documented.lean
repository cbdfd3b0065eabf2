import Veritas.Layout
import Veritas.Proof.Acceptance

/-!
# The documented credentials

`verifyCredential` finds the signals it inspects through index tables and decodes the public blob
twice. What it accepts can be said without either: there is one vector of scalars, which the proof
is for, and in which each named signal stands where circom puts it.
-/

namespace Veritas

variable (groth16 : Groth16)

/-- The big-endian 32-byte chunks of the blob, modulo the field order. -/
def decoded (circuit : UInt32) (pub : Bytes) : List Fr := publicSignals pub (cid circuit).nPublic

/-- The decoded vector has the value at the circom position of the signal. -/
def Carries (circuit : UInt32) (pub : Bytes) (signal : Signal) (value : Fr) : Prop :=
  (decoded circuit pub)[(cid circuit).interface.position signal]? = some value

/-- The entry is there and spells the scalar in 32 big-endian bytes. -/
def Spells (entry : Option (BytesN 32)) (value : Fr) : Prop :=
  ∃ bytes, entry = some bytes ∧ bytes.toList = BigEndian.encode 32 value.val

/-- No key that spells the scalar is marked. -/
def Unused (storage : Storage) (nullifier : Fr) : Prop :=
  ∀ key : BytesN 32, key.toList = BigEndian.encode 32 nullifier.val →
    storage (.data (.nullifier key)) = none

structure Documented (storage : Storage) (circuit : UInt32) (proof pub : Bytes) : Prop where
  circuit_le : circuit ≤ 3
  pub_length : pub.length = 32 * (cid circuit).nPublic
  proof_length : proof.length = 256
  proved : ∃ raw vk parsed, storage (.data (.verifyingKey circuit)) = some raw ∧
    parseVk raw = .ok vk ∧ parseProof proof = .ok parsed ∧
    groth16 vk (decoded circuit pub) parsed = .ok true
  ageGte : circuit = 0 → Carries circuit pub .ageGte 1
  verified : circuit = 1 → Carries circuit pub .verified 1
  allowed : circuit = 2 → Carries circuit pub .allowed 1
  issuer : circuit = 1 ∨ circuit = 3 → ∃ x y,
    Carries circuit pub .issuerAx x ∧ Carries circuit pub .issuerAy y ∧
      Spells (storage .issAx) x ∧ Spells (storage .issAy) y
  root : circuit = 2 → ∃ root, Carries circuit pub .merkleRoot root ∧ Spells (storage .root) root
  nullifier : circuit = 1 ∨ circuit = 3 → ∃ nullifier, Carries circuit pub .nullifier nullifier ∧
    Unused storage nullifier

theorem spells_iff {entry : Option (BytesN 32)} {value : Fr} :
    Spells entry value ↔ entry = some (frToBytesn value) := by
  constructor
  · rintro ⟨bytes, rfl, hbytes⟩
    rw [← toList_frToBytesn, Vector.toList_inj] at hbytes
    rw [hbytes]
  · rintro rfl
    exact ⟨_, rfl, toList_frToBytesn value⟩

theorem unused_iff {storage : Storage} {nullifier : Fr} :
    Unused storage nullifier ↔ Unspent storage nullifier := by
  constructor
  · intro h
    exact h _ (toList_frToBytesn nullifier)
  · intro h key hkey
    rw [← toList_frToBytesn, Vector.toList_inj] at hkey
    rw [hkey]
    exact h

theorem carries_iff {circuit : UInt32} {pub : Bytes} {signal : Signal} {value : Fr} (i : ℕ)
    (hi : i < (cid circuit).nPublic) (hposition : (cid circuit).interface.position signal = i) :
    Carries circuit pub signal value ↔ publicSignal pub i = value := by
  rw [Carries, decoded, hposition, getElem?_publicSignals pub hi, Option.some.injEq]

theorem proved_iff_parsed (storage : Storage) (circuit : UInt32) (proof pub : Bytes) :
    Proved groth16 storage circuit (cid circuit).nPublic proof pub ↔
      pub.length = 32 * (cid circuit).nPublic ∧ proof.length = 256 ∧
        ∃ raw vk parsed, storage (.data (.verifyingKey circuit)) = some raw ∧
          parseVk raw = .ok vk ∧ parseProof proof = .ok parsed ∧
          groth16 vk (decoded circuit pub) parsed = .ok true := by
  constructor
  · rintro ⟨hproof, hpub, raw, vk, hraw, hvk, haccepted⟩
    exact ⟨by omega, hproof, raw, vk, _, hraw, hvk, parseProof_eq hproof, haccepted⟩
  · rintro ⟨hpub, hproof, raw, vk, parsed, hraw, hvk, hparsed, haccepted⟩
    rw [parseProof_eq hproof, Except.ok.injEq] at hparsed
    rw [← hparsed] at haccepted
    exact ⟨hproof, by omega, raw, vk, hraw, hvk, haccepted⟩

section Signals

variable (storage : Storage) (circuit : UInt32) (pub : Bytes)

theorem issuerMatches_iff (ix iy : ℕ) (hix : ix < (cid circuit).nPublic)
    (hiy : iy < (cid circuit).nPublic) (hx : (cid circuit).interface.position .issuerAx = ix)
    (hy : (cid circuit).interface.position .issuerAy = iy) :
    IssuerMatches storage (publicSignal pub ix) (publicSignal pub iy) ↔
      ∃ x y, Carries circuit pub .issuerAx x ∧ Carries circuit pub .issuerAy y ∧
        Spells (storage .issAx) x ∧ Spells (storage .issAy) y := by
  simp only [spells_iff]
  constructor
  · intro h
    exact ⟨_, _, (carries_iff ix hix hx).mpr rfl, (carries_iff iy hiy hy).mpr rfl, h.x, h.y⟩
  · rintro ⟨x, y, hcx, hcy, hax, hay⟩
    rw [← (carries_iff ix hix hx).mp hcx] at hax
    rw [← (carries_iff iy hiy hy).mp hcy] at hay
    exact ⟨hax, hay⟩

/-- A condition on one signal, through its index or through its name. -/
theorem publicSignal_iff (condition : Fr → Prop) (signal : Signal) (i : ℕ)
    (hi : i < (cid circuit).nPublic) (hposition : (cid circuit).interface.position signal = i) :
    condition (publicSignal pub i) ↔
      ∃ value, Carries circuit pub signal value ∧ condition value := by
  constructor
  · intro h
    exact ⟨_, (carries_iff i hi hposition).mpr rfl, h⟩
  · rintro ⟨value, hcarries, h⟩
    rwa [(carries_iff i hi hposition).mp hcarries]

end Signals

/-- The indices the tables give are the circom positions, so the two lists of checks agree. -/
theorem accepted_iff_documented (storage : Storage) (circuit : UInt32) (proof pub : Bytes) :
    Accepted groth16 storage circuit proof pub ↔ Documented groth16 storage circuit proof pub := by
  by_cases hcircuit : circuit ≤ 3
  swap
  · constructor
    · intro h
      exact absurd h.circuit_le hcircuit
    · intro h
      exact absurd h.circuit_le hcircuit
  have hproved := proved_iff_parsed groth16 storage circuit proof pub
  rcases circuit_cases hcircuit with rfl | rfl | rfl | rfl
  · have hflag : Carries 0 pub .ageGte 1 ↔ _ := carries_iff 1 (by decide) rfl
    rw [accepted_ageGte_iff, ← hflag]
    constructor
    · rintro ⟨hvalid, hone⟩
      obtain ⟨hpub, hproof, hkey⟩ := hproved.mp hvalid
      exact ⟨hcircuit, hpub, hproof, hkey, fun _ => hone, by simp, by simp, by simp, by simp,
        by simp⟩
    · intro h
      exact ⟨hproved.mpr ⟨h.pub_length, h.proof_length, h.proved⟩, h.ageGte rfl⟩
  · have hflag : Carries 1 pub .verified 1 ↔ _ := carries_iff 1 (by decide) rfl
    have hissuer := issuerMatches_iff storage 1 pub 2 3 (by decide) (by decide) rfl rfl
    have hnullifier := publicSignal_iff 1 pub (Unused storage) .nullifier 0 (by decide) rfl
    rw [accepted_validOwner_iff, ← hflag, hissuer, ← unused_iff, hnullifier]
    constructor
    · rintro ⟨hvalid, hone, hmatches, hunspent⟩
      obtain ⟨hpub, hproof, hkey⟩ := hproved.mp hvalid
      exact ⟨hcircuit, hpub, hproof, hkey, by simp, fun _ => hone, by simp, fun _ => hmatches,
        by simp, fun _ => hunspent⟩
    · intro h
      exact ⟨hproved.mpr ⟨h.pub_length, h.proof_length, h.proved⟩, h.verified rfl,
        h.issuer (.inl rfl), h.nullifier (.inl rfl)⟩
  · have hflag : Carries 2 pub .allowed 1 ↔ _ := carries_iff 1 (by decide) rfl
    have hroot := publicSignal_iff 2 pub
      (fun root => Spells (storage .root) root) .merkleRoot 2 (by decide) rfl
    rw [accepted_jurisdictionAllowed_iff, ← hflag, ← spells_iff, hroot]
    constructor
    · rintro ⟨hvalid, hone, hstored⟩
      obtain ⟨hpub, hproof, hkey⟩ := hproved.mp hvalid
      exact ⟨hcircuit, hpub, hproof, hkey, by simp, by simp, fun _ => hone, by simp,
        fun _ => hstored, by simp⟩
    · intro h
      exact ⟨hproved.mpr ⟨h.pub_length, h.proof_length, h.proved⟩, h.allowed rfl, h.root rfl⟩
  · have hissuer := issuerMatches_iff storage 3 pub 1 2 (by decide) (by decide) rfl rfl
    have hnullifier := publicSignal_iff 3 pub (Unused storage) .nullifier 0 (by decide) rfl
    rw [accepted_credentialAge_iff, hissuer, ← unused_iff, hnullifier]
    constructor
    · rintro ⟨hvalid, hmatches, hunspent⟩
      obtain ⟨hpub, hproof, hkey⟩ := hproved.mp hvalid
      exact ⟨hcircuit, hpub, hproof, hkey, by simp, by simp, by simp, fun _ => hmatches, by simp,
        fun _ => hunspent⟩
    · intro h
      exact ⟨hproved.mpr ⟨h.pub_length, h.proof_length, h.proved⟩, h.issuer (.inr rfl),
        h.nullifier (.inr rfl)⟩

/-- **`verifyCredential` accepts exactly the documented credentials**, in any state, for any circuit
number and any two byte strings. -/
theorem verifyCredential_documented (env : Env) (ledger : Ledger) (circuit : UInt32)
    (proof pub : Bytes) :
    (step groth16 ledger ⟨env, .verifyCredential circuit proof pub⟩).2 = .ok (.bool true) ↔
      Documented groth16 ledger.storage circuit proof pub := by
  rw [verifyCredential_eq_true_iff, accepted_iff_documented]

end Veritas
