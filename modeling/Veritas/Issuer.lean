import Veritas.Circuits

/-!
# The issuer

The issuer signs a field and the holder's secret. `sign` of `zk_helpers.js` does so for every kind
of credential, `issue.js` for ages; neither puts the kind into the message. A log of issuances says
which messages were signed.
-/

namespace Veritas

variable {F : Type} [Field F]

inductive CredentialKind where
  | age
  | country
  | claim
deriving DecidableEq

structure Issuance (F : Type) where
  kind : CredentialKind
  field : F
  holderSecret : F

variable (lib : Circomlib F)

/-- `msg` of `sign` in `zk_helpers.js`. -/
def signMsg (field secret : F) : F := lib.poseidon [field, secret]

/-- `m` of `issue.js`. -/
def issueM (age holderSecret : F) : F := lib.poseidon [age, holderSecret]

def Issuance.message (issuance : Issuance F) : F :=
  match issuance.kind with
  | .age => issueM lib issuance.field issuance.holderSecret
  | .country => signMsg lib issuance.field issuance.holderSecret
  | .claim => signMsg lib issuance.field issuance.holderSecret

/-- Ideal signatures: under the issuer key exactly the messages of the log have one. -/
def IdealSignatures (issuerAx issuerAy : F) (log : List (Issuance F)) : Prop :=
  ∀ m, (∃ s r8x r8y, lib.eddsaPoseidonVerifier 1 issuerAx issuerAy s r8x r8y m) ↔
    ∃ issuance ∈ log, issuance.message lib = m

end Veritas
