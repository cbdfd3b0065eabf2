import Veritas.Runtime
import Mathlib.Logic.Function.Basic

/-!
# The Soroban host

What the contract sees of its host: persistent storage, the addresses that authorised the
invocation, the event log, and traps. Storage is a map whose value type is fixed by the key, so a
stored entry always has the type its reader expects.
-/

namespace Veritas

abbrev Bytes := List UInt8

abbrev BytesN (n : ℕ) := Vector UInt8 n

inductive Address where
  | account (key : BytesN 32)
  | contract (hash : BytesN 32)
deriving DecidableEq

inductive DataKey where
  | verifyingKey (circuit : UInt32)
  /-- Presence means already spent. -/
  | nullifier (key : BytesN 32)
deriving DecidableEq

/-- The persistent storage keys: the six short symbols and the `DataKey` entries. -/
inductive StorageKey where
  | admin
  | default
  | issAx
  | issAy
  | root
  | claimed
  | data (key : DataKey)
deriving DecidableEq

abbrev StorageKey.Val : StorageKey → Type
  | admin => Address
  | default => UInt32
  | issAx => BytesN 32
  | issAy => BytesN 32
  | root => BytesN 32
  | claimed => Address
  | data (.verifyingKey _) => Bytes
  | data (.nullifier _) => Bool

abbrev Storage := (key : StorageKey) → Option key.Val

structure Event where
  topics : List String
  data : Address
deriving DecidableEq

/-- The part of the ledger one contract instance owns. -/
structure Ledger where
  storage : Storage
  events : List Event

def Ledger.empty : Ledger := ⟨fun _ => none, []⟩

/-- The host's answer to `require_auth`: the addresses that authorised this invocation. -/
structure Env where
  authorized : List Address

/-- A contract function: it reads and writes the ledger and may trap. -/
abbrev Contract := StateT Ledger (Except Trap)

def Ledger.set (ledger : Ledger) (key : StorageKey) (value : key.Val) : Ledger :=
  { ledger with storage := Function.update ledger.storage key (some value) }

def Ledger.publish (ledger : Ledger) (event : Event) : Ledger :=
  { ledger with events := ledger.events ++ [event] }

/-- `env.storage().persistent().get(&key)`. -/
@[simp]
def persistentGet (key : StorageKey) : Contract (Option key.Val) := do
  let ledger ← get
  return ledger.storage key

/-- `env.storage().persistent().has(&key)`. -/
@[simp]
def persistentHas (key : StorageKey) : Contract Bool := do
  let ledger ← get
  return (ledger.storage key).isSome

/-- `env.storage().persistent().set(&key, &value)`. -/
@[simp]
def persistentSet (key : StorageKey) (value : key.Val) : Contract Unit :=
  modify fun ledger => ledger.set key value

@[simp]
def publish (event : Event) : Contract Unit :=
  modify fun ledger => ledger.publish event

/-- `.unwrap()`. -/
@[simp]
def unwrap {α : Type} : Option α → Contract α
  | some value => pure value
  | none => throw .unwrapNone

/-- `.unwrap_or_else(|| panic!(message))`. -/
@[simp]
def unwrapOrPanic {α : Type} (message : String) : Option α → Contract α
  | some value => pure value
  | none => throw (.panic message)

/-- `address.require_auth()`. -/
def requireAuth (env : Env) (address : Address) : Contract Unit :=
  if address ∈ env.authorized then pure () else throw .unauthorized

section Ledger

variable (ledger : Ledger) (key : StorageKey) (value : key.Val) (event : Event)

@[simp]
theorem Ledger.set_storage_self : (ledger.set key value).storage key = some value := by
  simp [Ledger.set]

theorem Ledger.set_storage_of_ne {other : StorageKey} (hne : other ≠ key) :
    (ledger.set key value).storage other = ledger.storage other := by
  simp [Ledger.set, Function.update_of_ne hne]

@[simp]
theorem Ledger.set_events : (ledger.set key value).events = ledger.events := rfl

@[simp]
theorem Ledger.publish_storage : (ledger.publish event).storage = ledger.storage := rfl

@[simp]
theorem Ledger.publish_events : (ledger.publish event).events = ledger.events ++ [event] := rfl

end Ledger

end Veritas
