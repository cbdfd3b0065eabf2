import Mathlib.Algebra.Group.Nat.Defs

/-!
# Circuit specifications

The public-signal layout of each circuit the contract knows: how many signals its `public.json` has
and at which index the flag, the issuer key, the nullifier, the root and the threshold stand.
-/

namespace Veritas

/-- The four predicates, in the order of their on-chain identifiers. -/
inductive CircuitId where
  /-- `age >= threshold`, derived from a private date of birth; no issuer signature. -/
  | ageGte
  /-- Credential valid and owned; emits a per-use nullifier. -/
  | validOwner
  /-- Country in an allow-set, by Merkle membership. -/
  | jurisdictionAllowed
  /-- Issuer-signed credential whose private `age >= threshold`; emits a nullifier. -/
  | credentialAge
deriving DecidableEq, Repr

/-- `usize::MAX` on the wasm32 target. -/
def usizeMax : ℕ := 2 ^ 32 - 1

namespace CircuitId

def nPublic : CircuitId → ℕ
  | ageGte => 6
  | validOwner => 4
  | jurisdictionAllowed => 3
  | credentialAge => 4

def flagIndex : CircuitId → ℕ
  | ageGte => 1
  | validOwner => 1
  | jurisdictionAllowed => 1
  | credentialAge => usizeMax

def issuerIndex : CircuitId → Option (ℕ × ℕ)
  | validOwner => some (2, 3)
  | credentialAge => some (1, 2)
  | _ => none

def nullifierIndex : CircuitId → Option ℕ
  | validOwner => some 0
  | credentialAge => some 0
  | _ => none

def rootIndex : CircuitId → Option ℕ
  | jurisdictionAllowed => some 2
  | _ => none

def thresholdIndex : CircuitId → Option ℕ
  | ageGte => some 5
  | credentialAge => some 3
  | _ => none

/-! The layout of each circuit, as its tables give it. -/

@[simp]
theorem ageGte_layout :
    nPublic ageGte = 6 ∧ flagIndex ageGte = 1 ∧ issuerIndex ageGte = none ∧
      nullifierIndex ageGte = none ∧ rootIndex ageGte = none ∧ thresholdIndex ageGte = some 5 :=
  ⟨rfl, rfl, rfl, rfl, rfl, rfl⟩

@[simp]
theorem validOwner_layout :
    nPublic validOwner = 4 ∧ flagIndex validOwner = 1 ∧ issuerIndex validOwner = some (2, 3) ∧
      nullifierIndex validOwner = some 0 ∧ rootIndex validOwner = none ∧
      thresholdIndex validOwner = none :=
  ⟨rfl, rfl, rfl, rfl, rfl, rfl⟩

@[simp]
theorem jurisdictionAllowed_layout :
    nPublic jurisdictionAllowed = 3 ∧ flagIndex jurisdictionAllowed = 1 ∧
      issuerIndex jurisdictionAllowed = none ∧ nullifierIndex jurisdictionAllowed = none ∧
      rootIndex jurisdictionAllowed = some 2 ∧ thresholdIndex jurisdictionAllowed = none :=
  ⟨rfl, rfl, rfl, rfl, rfl, rfl⟩

@[simp]
theorem credentialAge_layout :
    nPublic credentialAge = 4 ∧ flagIndex credentialAge = usizeMax ∧
      issuerIndex credentialAge = some (1, 2) ∧ nullifierIndex credentialAge = some 0 ∧
      rootIndex credentialAge = none ∧ thresholdIndex credentialAge = some 3 :=
  ⟨rfl, rfl, rfl, rfl, rfl, rfl⟩

end CircuitId

end Veritas
