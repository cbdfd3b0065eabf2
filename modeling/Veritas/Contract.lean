import Veritas.Groth16
import Veritas.Host
import Veritas.Spec

/-!
# The verifier contract

`contract.rs`, function by function. Proof verification enters as an acceptance predicate, so that
what the contract does around it can be stated for every predicate; the deployed contract passes
`verifyGroth16`.
-/

namespace Veritas

abbrev Groth16 := VerifyingKey → List Scalar → Proof → Except Trap Bool

/-! ### Byte parsing -/

def toVec (b : Bytes) : List UInt8 := b.foldl (fun out byte => out ++ [byte]) []

/-- The 32-byte chunk at the offset, reduced modulo the field order; the offset moves past it. -/
def readField (modulus : ℕ) (b : List UInt8) : StateT ℕ (Except Trap) (ZMod modulus) := do
  let o ← get
  let chunk ← slice b o (o + 32)
  set (o + 32)
  return fromBeBytesModOrder modulus chunk

def readFq (b : List UInt8) : StateT ℕ (Except Trap) Fq := readField fqModulus b

def readFr (b : List UInt8) : StateT ℕ (Except Trap) Fr := readField frModulus b

/-- `b[o]` followed by `o += 1`. -/
def readByte (b : List UInt8) : StateT ℕ (Except Trap) UInt8 := do
  let o ← get
  let byte ← index b o
  set (o + 1)
  return byte

def takeProof (b : List UInt8) : StateT ℕ (Except Trap) Proof := do
  let ax ← readFq b
  let ay ← readFq b
  let bxc0 ← readFq b
  let bxc1 ← readFq b
  let byc0 ← readFq b
  let byc1 ← readFq b
  let cx ← readFq b
  let cy ← readFq b
  return {
    a := .newUnchecked ax ay
    b := .newUnchecked ⟨bxc0, bxc1⟩ ⟨byc0, byc1⟩
    c := .newUnchecked cx cy }

def parseProof (b : List UInt8) : Except Trap Proof := (takeProof b).run' 0

def takeG1 (b : List UInt8) : StateT ℕ (Except Trap) G1Affine := do
  let x ← readFq b
  let y ← readFq b
  return .newUnchecked x y

def takeG2 (b : List UInt8) : StateT ℕ (Except Trap) G2Affine := do
  let c0a ← readFq b
  let c1a ← readFq b
  let c0b ← readFq b
  let c1b ← readFq b
  return .newUnchecked ⟨c0a, c1a⟩ ⟨c0b, c1b⟩

def takeVk (b : List UInt8) : StateT ℕ (Except Trap) VerifyingKey := do
  let alphaG1 ← takeG1 b
  let betaG2 ← takeG2 b
  let gammaG2 ← takeG2 b
  let deltaG2 ← takeG2 b
  let n ← readByte b
  let ic ← Cursor.repeatRead (takeG1 b) (n.toNat + 1)
  return { alphaG1, betaG2, gammaG2, deltaG2, ic }

def parseVk (b : List UInt8) : Except Trap VerifyingKey := (takeVk b).run' 0

/-- `f.into_bigint().0`: the little-endian 64-bit limbs of the canonical representative. -/
def intoBigint (f : Fr) (i : ℕ) : UInt64 := UInt64.ofNat (f.val / 2 ^ (64 * i))

def toBeBytes (limb : UInt64) : List UInt8 := BigEndian.encode 8 limb.toNat

/-- The array `fr_to_bytesn` fills: limb `3 - i` at bytes `8 * i` to `8 * i + 7`. -/
def frToArray (f : Fr) : List UInt8 :=
  (List.range 4).flatMap fun i => toBeBytes (intoBigint f (3 - i))

theorem length_frToArray (f : Fr) : (frToArray f).length = 32 := by
  simp [frToArray, toBeBytes, List.range_succ]

def frToBytesn (f : Fr) : BytesN 32 := ⟨(frToArray f).toArray, by simp [length_frToArray]⟩

/-! ### Administration -/

def construct (admin : Address) : Contract Unit :=
  persistentSet .admin admin

def admin : Contract Address := do
  unwrap (← persistentGet .admin)

def requireAdmin (env : Env) : Contract Unit := do
  let admin ← unwrap (← persistentGet .admin)
  requireAuth env admin

def cid (u : UInt32) : CircuitId :=
  match u with
  | 0 => .ageGte
  | 1 => .validOwner
  | 2 => .jurisdictionAllowed
  | 3 => .credentialAge
  | _ => .ageGte -- callers guard with `checkCircuitId`

def checkCircuitId (u : UInt32) : Bool := u ≤ 3

def setVerifyingKey (env : Env) (circuit : UInt32) (vk : Bytes) : Contract Unit := do
  requireAdmin env
  persistentSet (.data (.verifyingKey circuit)) vk

def setDefaultCircuit (env : Env) (circuit : UInt32) : Contract Unit := do
  requireAdmin env
  persistentSet .default circuit

def setIssuer (env : Env) (ax ay : BytesN 32) : Contract Unit := do
  requireAdmin env
  persistentSet .issAx ax
  persistentSet .issAy ay

def setAllowedRoot (env : Env) (root : BytesN 32) : Contract Unit := do
  requireAdmin env
  persistentSet .root root

/-! ### Verification -/

section Verification

variable (groth16 : Groth16)

def storedVk (circuit : UInt32) : Contract VerifyingKey := do
  let raw ← unwrapOrPanic s!"vkey for circuit {circuit} not installed"
    (← persistentGet (.data (.verifyingKey circuit)))
  parseVk (toVec raw)

def readPublic (pubBlob : List UInt8) (n : ℕ) : Except Trap (List Fr) :=
  (Cursor.repeatRead (readFr pubBlob) n).run' 0

def verifyFor (circuit : UInt32) (proof pub : Bytes) : Contract Bool := do
  if !checkCircuitId circuit then
    return false
  let proofBlob := toVec proof
  let pubBlob := toVec pub
  if proofBlob.length != 256 || pubBlob.length % 32 != 0 then
    return false
  let vk ← storedVk circuit
  let proof ← parseProof proofBlob
  let n := pubBlob.length / 32
  let publicSig ← readPublic pubBlob n
  groth16 vk publicSig proof

def verify (proof pub : Bytes) : Contract Bool := do
  let circuit ← unwrapOrPanic "no default circuit configured" (← persistentGet .default)
  verifyFor groth16 circuit proof pub

/-- Verify and enforce circuit semantics: the flag, the issuer key, the Merkle root, and the
nullifier, each where the circuit has one. -/
def verifyCredential (circuit : UInt32) (proof pub : Bytes) : Contract Bool := do
  if !checkCircuitId circuit then
    return false
  let cid := cid circuit
  let pubBlob := toVec pub
  if pubBlob.length != cid.nPublic * 32 then
    return false
  if !(← verifyFor groth16 circuit proof pub) then
    return false
  let pubFr ← readPublic pubBlob cid.nPublic
  -- predicate flag must be 1 (where the circuit emits one)
  if cid.flagIndex != usizeMax then
    if (← index pubFr cid.flagIndex) != 1 then
      return false
  -- issuer must match the trusted issuer
  if let some (ix, iy) := cid.issuerIndex then
    let ax ← unwrapOrPanic "no issuer set" (← persistentGet .issAx)
    let ay ← unwrapOrPanic "no issuer set" (← persistentGet .issAy)
    if frToBytesn (← index pubFr ix) != ax then
      return false
    if frToBytesn (← index pubFr iy) != ay then
      return false
  -- allow-set root must match the posted root
  if let some ri := cid.rootIndex then
    let root ← unwrapOrPanic "no allowed root set" (← persistentGet .root)
    if frToBytesn (← index pubFr ri) != root then
      return false
  -- record nullifier for double-spend protection
  if let some ni := cid.nullifierIndex then
    let nullifier := frToBytesn (← index pubFr ni)
    if ← persistentHas (.data (.nullifier nullifier)) then
      return false -- already used
    persistentSet (.data (.nullifier nullifier)) true
  return true

def claimFaucet (env : Env) (recipient : Address) (circuit : UInt32) (proof pub : Bytes) :
    Contract Bool := do
  requireAuth env recipient
  let ok ← match cid circuit with
    | .ageGte | .credentialAge => verifyCredential groth16 circuit proof pub
    | _ => pure false
  if ok then
    persistentSet .claimed recipient
    publish ⟨["faucet"], recipient⟩
  return ok

def lastClaimant : Contract (Option Address) :=
  persistentGet .claimed

end Verification

end Veritas
