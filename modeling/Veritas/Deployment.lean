import Veritas.Encoder
import Veritas.Invocation
import Veritas.Issuer

/-!
# From the issuer to the contract

What passes between the scripts and the contract: `issue.js` prints the issuer's key for
`set_issuer`, the holder fills in the inputs of `CredentialAge`, snarkjs proves, and
`proof_to_bytes.js` writes what the holder submits. snarkjs is not part of the repository; it is a
function from assignments to proofs.
-/

namespace Veritas

/-- `toStr` of `issue.js`. -/
def toStr (e : Fr) : Decimal := .ofNat e.val

/-- `BigInt(coord).toString(16).padStart(64, "0")`. -/
def onchainHex (coord : Decimal) : List Char :=
  (Nat.toDigits 16 (bigInt coord)).leftpad 64 '0'

/-- The inputs of `CredentialAge`: what the issuer gave to the holder, and the threshold. -/
structure HolderInput where
  age : ℕ
  holderSecret : Fr
  sigR8x : Fr
  sigR8y : Fr
  sigS : Fr
  issuerAx : Fr
  issuerAy : Fr
  threshold : ℕ

/-- The assignments `<==` computes; the comparison has to come out one. -/
def HolderInput.assign (lib : Circomlib Fr) (input : HolderInput) : CredentialAge Fr where
  age := input.age
  holderSecret := input.holderSecret
  sigR8x := input.sigR8x
  sigR8y := input.sigR8y
  sigS := input.sigS
  issuerAx := input.issuerAx
  issuerAy := input.issuerAy
  threshold := input.threshold
  nullifier := lib.poseidon [input.holderSecret]
  signedMsg := lib.poseidon [input.age, input.holderSecret]
  ge := 1
  nf := lib.poseidon [input.holderSecret]

/-- `public.json`, as snarkjs prints it. -/
def publicJson (w : CredentialAge Fr) : List Decimal := w.publicSignals.map toStr

variable (snark : CredentialAge Fr → ProofJson)

/-- Steps 4 and 6 of `prove.js`. -/
def prove (vkey : VkeyJson) (w : CredentialAge Fr) : Except JsError Blobs :=
  proofToBytes vkey (snark w) (publicJson w)

end Veritas
