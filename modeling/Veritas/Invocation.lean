import Veritas.Contract
import Veritas.Library.Machine

/-!
# Invocations and runs

The contract is driven from outside by invocations: an entry point, its arguments, and the addresses
that authorised the call. The host commits the ledger when the entry point returns and rolls it back
when it traps. A run is a list of invocations, by anyone and with any arguments, from the ledger the
constructor leaves.
-/

namespace Veritas

inductive Call where
  | admin
  | setVerifyingKey (circuit : UInt32) (vk : Bytes)
  | setDefaultCircuit (circuit : UInt32)
  | setIssuer (ax ay : BytesN 32)
  | setAllowedRoot (root : BytesN 32)
  | verifyFor (circuit : UInt32) (proof pub : Bytes)
  | verify (proof pub : Bytes)
  | verifyCredential (circuit : UInt32) (proof pub : Bytes)
  | claimFaucet (recipient : Address) (circuit : UInt32) (proof pub : Bytes)
  | lastClaimant
deriving DecidableEq

inductive Answer where
  | unit
  | bool (value : Bool)
  | address (value : Address)
  | claimant (value : Option Address)
deriving DecidableEq

structure Invocation where
  env : Env
  call : Call

abbrev Outcome := Except Trap Answer

variable (groth16 : Groth16)

def invoke (env : Env) : Call → Contract Answer
  | .admin => .address <$> admin
  | .setVerifyingKey circuit vk => (fun _ => .unit) <$> setVerifyingKey env circuit vk
  | .setDefaultCircuit circuit => (fun _ => .unit) <$> setDefaultCircuit env circuit
  | .setIssuer ax ay => (fun _ => .unit) <$> setIssuer env ax ay
  | .setAllowedRoot root => (fun _ => .unit) <$> setAllowedRoot env root
  | .verifyFor circuit proof pub => .bool <$> verifyFor groth16 circuit proof pub
  | .verify proof pub => .bool <$> verify groth16 proof pub
  | .verifyCredential circuit proof pub => .bool <$> verifyCredential groth16 circuit proof pub
  | .claimFaucet recipient circuit proof pub =>
      .bool <$> claimFaucet groth16 env recipient circuit proof pub
  | .lastClaimant => .claimant <$> lastClaimant

/-- One invocation: a trap leaves the ledger as it was. -/
def step (ledger : Ledger) (invocation : Invocation) : Ledger × Outcome :=
  match (invoke groth16 invocation.env invocation.call).run ledger with
  | .ok (answer, ledger) => (ledger, .ok answer)
  | .error trap => (ledger, .error trap)

def genesis (admin : Address) : Ledger := Ledger.empty.set .admin admin

theorem construct_run (admin : Address) :
    (construct admin).run Ledger.empty = .ok ((), genesis admin) := rfl

abbrev Reached (admin : Address) (invocations : List Invocation) : Ledger :=
  Machine.exec (step groth16) (genesis admin) invocations

abbrev Entry := Machine.Record Ledger Invocation Outcome

abbrev History (admin : Address) (invocations : List Invocation) : List Entry :=
  Machine.history (step groth16) (genesis admin) invocations

/-- The arguments of a call that submits a proof to `verifyCredential`, directly or through the
faucet. -/
structure Submission where
  circuit : UInt32
  proof : Bytes
  pub : Bytes
deriving DecidableEq

def Call.submission : Call → Option Submission
  | .verifyCredential circuit proof pub => some ⟨circuit, proof, pub⟩
  | .claimFaucet _ circuit proof pub => some ⟨circuit, proof, pub⟩
  | _ => none

/-- The submission a step accepted: its call submitted it and returned true. -/
def accepted (entry : Entry) : Option Submission :=
  match entry.output with
  | .ok (.bool true) => entry.input.call.submission
  | _ => none

def claimed (entry : Entry) : Option Submission :=
  match entry.input.call with
  | .claimFaucet .. => accepted entry
  | _ => none

/-- The nullifier of an accepted submission, for the two circuits that carry one. -/
def spentNullifier (entry : Entry) : Option Fr :=
  match accepted entry with
  | some submission =>
      if submission.circuit = 1 ∨ submission.circuit = 3 then
        some (fromBeBytesModOrder frModulus (Cursor.window submission.pub 0 32))
      else none
  | none => none

end Veritas
