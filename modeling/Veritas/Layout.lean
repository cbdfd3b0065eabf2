import Veritas.Circuits
import Veritas.Spec

/-!
# The order of the public signals

circom numbers the public signals of a main component by its declarations: the outputs first, then
the inputs that `main` lists as public, both in the order the template declares them.
-/

namespace Veritas

/-- The inputs and outputs the four top-level templates declare; an array is one name. -/
inductive Signal where
  | dobYear | dobMonth | dobDay | salt | nowYear | nowMonth | nowDay | commitment | ageGte
  | claimHash | nonce | verified
  | countryHash | pathElements | pathIndices | merkleRoot | computedRoot | allowed
  | age | holderSecret
  | sigR8x | sigR8y | sigS | issuerAx | issuerAy | threshold | nullifier
deriving DecidableEq

/-- What a template declares, and the list in `component main {public [...]}`. -/
structure Interface where
  inputs : List Signal
  outputs : List Signal
  mainPublic : List Signal

def Interface.publicOrder (interface : Interface) : List Signal :=
  interface.outputs ++ interface.inputs.filter (· ∈ interface.mainPublic)

def Interface.position (interface : Interface) (signal : Signal) : ℕ :=
  interface.publicOrder.idxOf signal

def AgeGte.interface : Interface where
  inputs := [.dobYear, .dobMonth, .dobDay, .salt, .nowYear, .nowMonth, .nowDay, .threshold]
  outputs := [.commitment, .ageGte]
  mainPublic := [.nowYear, .nowMonth, .nowDay, .threshold]

def ValidOwner.interface : Interface where
  inputs := [.claimHash, .nonce, .sigR8x, .sigR8y, .sigS, .issuerAx, .issuerAy]
  outputs := [.nullifier, .verified]
  mainPublic := [.issuerAx, .issuerAy]

def JurisdictionAllowed.interface : Interface where
  inputs := [.countryHash, .pathElements, .pathIndices, .merkleRoot]
  outputs := [.computedRoot, .allowed]
  mainPublic := [.merkleRoot]

def CredentialAge.interface : Interface where
  inputs := [.age, .holderSecret, .sigR8x, .sigR8y, .sigS, .issuerAx, .issuerAy, .threshold]
  outputs := [.nullifier]
  mainPublic := [.issuerAx, .issuerAy, .threshold]

def CircuitId.interface : CircuitId → Interface
  | ageGte => AgeGte.interface
  | validOwner => ValidOwner.interface
  | jurisdictionAllowed => JurisdictionAllowed.interface
  | credentialAge => CredentialAge.interface

/-! ### The public vector of an assignment -/

section PublicSignals

variable {F : Type}

/-- The value of a declared signal, where the template has it and it is not an array. -/
def AgeGte.signal (w : AgeGte F) : Signal → Option F
  | .dobYear => w.dobYear
  | .dobMonth => w.dobMonth
  | .dobDay => w.dobDay
  | .salt => w.salt
  | .nowYear => w.nowYear
  | .nowMonth => w.nowMonth
  | .nowDay => w.nowDay
  | .threshold => w.threshold
  | .commitment => w.commitment
  | .ageGte => w.ageGte
  | _ => none

def ValidOwner.signal (w : ValidOwner F) : Signal → Option F
  | .claimHash => w.claimHash
  | .nonce => w.nonce
  | .sigR8x => w.sigR8x
  | .sigR8y => w.sigR8y
  | .sigS => w.sigS
  | .issuerAx => w.issuerAx
  | .issuerAy => w.issuerAy
  | .nullifier => w.nullifier
  | .verified => w.verified
  | _ => none

def JurisdictionAllowed.signal {depth : ℕ} (w : JurisdictionAllowed F depth) : Signal → Option F
  | .countryHash => w.countryHash
  | .merkleRoot => w.merkleRoot
  | .computedRoot => w.computedRoot
  | .allowed => w.allowed
  | _ => none

def CredentialAge.signal (w : CredentialAge F) : Signal → Option F
  | .age => w.age
  | .holderSecret => w.holderSecret
  | .sigR8x => w.sigR8x
  | .sigR8y => w.sigR8y
  | .sigS => w.sigS
  | .issuerAx => w.issuerAx
  | .issuerAy => w.issuerAy
  | .threshold => w.threshold
  | .nullifier => w.nullifier
  | _ => none

theorem AgeGte.publicSignals_order (w : AgeGte F) :
    interface.publicOrder.map w.signal = w.publicSignals.map some := rfl

theorem ValidOwner.publicSignals_order (w : ValidOwner F) :
    interface.publicOrder.map w.signal = w.publicSignals.map some := rfl

theorem JurisdictionAllowed.publicSignals_order {depth : ℕ} (w : JurisdictionAllowed F depth) :
    interface.publicOrder.map w.signal = w.publicSignals.map some := rfl

theorem CredentialAge.publicSignals_order (w : CredentialAge F) :
    interface.publicOrder.map w.signal = w.publicSignals.map some := rfl

end PublicSignals

/-! ### The contract's tables follow the order -/

namespace CircuitId

theorem nPublic_eq (id : CircuitId) : id.nPublic = id.interface.publicOrder.length := by
  cases id <;> rfl

/-- The flag, where the circuit has an output that is always one. -/
def flag : CircuitId → Option Signal
  | ageGte => some .ageGte
  | validOwner => some .verified
  | jurisdictionAllowed => some .allowed
  | credentialAge => none

theorem flagIndex_eq (id : CircuitId) :
    id.flagIndex = (id.flag.map id.interface.position).getD usizeMax := by
  cases id <;> rfl

/-- Where an interface has the signal among its public ones. -/
def located (id : CircuitId) (signal : Signal) : Option ℕ :=
  if signal ∈ id.interface.publicOrder then some (id.interface.position signal) else none

theorem issuerIndex_eq (id : CircuitId) :
    id.issuerIndex = do return (← id.located .issuerAx, ← id.located .issuerAy) := by
  cases id <;> rfl

theorem nullifierIndex_eq (id : CircuitId) : id.nullifierIndex = id.located .nullifier := by
  cases id <;> rfl

theorem rootIndex_eq (id : CircuitId) : id.rootIndex = id.located .merkleRoot := by
  cases id <;> rfl

theorem thresholdIndex_eq (id : CircuitId) : id.thresholdIndex = id.located .threshold := by
  cases id <;> rfl

end CircuitId

end Veritas
