import Veritas.Library.BitDecomposition

/-!
# The circuits

Each circom template is the record of its signals with the constraints they must satisfy. `<==` and
`===` constrain alike, so an assignment of any field elements is in scope, honest or not. The
circomlib templates are not part of the repository; they are parameters, and of the comparators the
documented decomposition semantics is assumed where a result needs it.
-/

namespace Veritas

/-- The circomlib templates the circuits include, as relations between their signals. -/
structure Circomlib (F : Type) where
  poseidon : List F → F
  /-- `EdDSAPoseidonVerifier`: enabled, Ax, Ay, S, R8x, R8y, M. -/
  eddsaPoseidonVerifier : F → F → F → F → F → F → F → Prop
  /-- `LessThan(n)`, `GreaterEqThan(n)`: in[0], in[1], out. -/
  lessThan : ℕ → F → F → F → Prop
  greaterEqThan : ℕ → F → F → F → Prop
  isEqual : F → F → F → Prop

variable {F : Type} [Field F]

/-- The comparators as documented: `LessThan(n)` decomposes `in[0] + 2^n - in[1]` with
`Num2Bits(n + 1)`, and `GreaterEqThan(n)` is `in[1] < in[0] + 1`. -/
structure Circomlib.Comparators (lib : Circomlib F) : Prop where
  lessThan {n : ℕ} {a b out : F} : lib.lessThan n a b out ↔ BitDecomposition.LessThan n a b out
  greaterEqThan {n : ℕ} {a b out : F} : lib.greaterEqThan n a b out ↔ lib.lessThan n b (a + 1) out
  isEqual {a b out : F} : lib.isEqual a b out ↔ (a = b ∧ out = 1) ∨ (a ≠ b ∧ out = 0)

def Circomlib.standard (poseidon : List F → F) (eddsa : F → F → F → F → F → F → F → Prop) :
    Circomlib F where
  poseidon := poseidon
  eddsaPoseidonVerifier := eddsa
  lessThan n a b out := BitDecomposition.LessThan n a b out
  greaterEqThan n a b out := BitDecomposition.LessThan n b (a + 1) out
  isEqual a b out := (a = b ∧ out = 1) ∨ (a ≠ b ∧ out = 0)

theorem Circomlib.standard_comparators (poseidon : List F → F)
    (eddsa : F → F → F → F → F → F → F → Prop) : (standard poseidon eddsa).Comparators :=
  ⟨Iff.rfl, Iff.rfl, Iff.rfl⟩

def Circomlib.summed (messages : List F) : Circomlib F :=
  standard List.sum fun _ _ _ _ _ _ m => m ∈ messages

variable (lib : Circomlib F)

def Circomlib.Collision (xs ys : List F) : Prop := xs ≠ ys ∧ lib.poseidon xs = lib.poseidon ys

/-! ### `credential_age/credential_age.circom` -/

structure CredentialAge (F : Type) where
  age : F
  holderSecret : F
  sigR8x : F
  sigR8y : F
  sigS : F
  issuerAx : F
  issuerAy : F
  threshold : F
  nullifier : F
  signedMsg : F
  ge : F
  nf : F

structure CredentialAge.Satisfied (w : CredentialAge F) : Prop where
  signedMsg : w.signedMsg = lib.poseidon [w.age, w.holderSecret]
  eddsa : lib.eddsaPoseidonVerifier 1 w.issuerAx w.issuerAy w.sigS w.sigR8x w.sigR8y w.signedMsg
  ge : lib.greaterEqThan 16 w.age w.threshold w.ge
  ge_one : w.ge = 1
  nf : w.nf = lib.poseidon [w.holderSecret]
  nullifier : w.nullifier = w.nf

/-- Outputs, then public inputs. -/
def CredentialAge.publicSignals (w : CredentialAge F) : List F :=
  [w.nullifier, w.issuerAx, w.issuerAy, w.threshold]

/-! ### `ValidOwner.circom` -/

structure ValidOwner (F : Type) where
  claimHash : F
  nonce : F
  sigR8x : F
  sigR8y : F
  sigS : F
  issuerAx : F
  issuerAy : F
  nullifier : F
  verified : F
  nul : F

structure ValidOwner.Satisfied (w : ValidOwner F) : Prop where
  eddsa : lib.eddsaPoseidonVerifier 1 w.issuerAx w.issuerAy w.sigS w.sigR8x w.sigR8y w.claimHash
  nul : w.nul = lib.poseidon [w.claimHash, w.nonce]
  nullifier : w.nullifier = w.nul
  verified : w.verified = 1

def ValidOwner.publicSignals (w : ValidOwner F) : List F :=
  [w.nullifier, w.verified, w.issuerAx, w.issuerAy]

/-! ### `lib/merkle_poseidon.circom` -/

structure MerklePoseidonVerifier (F : Type) (depth : ℕ) where
  leaf : F
  pathElements : Fin depth → F
  pathIndices : Fin depth → F
  root : F
  hash : Fin (depth + 1) → F
  left : Fin depth → F
  right : Fin depth → F

structure MerklePoseidonVerifier.Satisfied {depth : ℕ} (w : MerklePoseidonVerifier F depth) :
    Prop where
  leaf : w.hash 0 = w.leaf
  binary : ∀ i, w.pathIndices i * (w.pathIndices i - 1) = 0
  left : ∀ i, w.left i
    = (w.pathElements i - w.hash i.castSucc) * w.pathIndices i + w.hash i.castSucc
  right : ∀ i, w.right i
    = (w.hash i.castSucc - w.pathElements i) * w.pathIndices i + w.pathElements i
  hash : ∀ i, w.hash i.succ = lib.poseidon [w.left i, w.right i]
  root : w.root = w.hash (Fin.last depth)

/-! ### `JurisdictionAllowed.circom` -/

structure JurisdictionAllowed (F : Type) (depth : ℕ) where
  countryHash : F
  pathElements : Fin depth → F
  pathIndices : Fin depth → F
  merkleRoot : F
  computedRoot : F
  allowed : F
  tree : MerklePoseidonVerifier F depth

structure JurisdictionAllowed.Satisfied {depth : ℕ} (w : JurisdictionAllowed F depth) : Prop where
  tree : w.tree.Satisfied lib
  leaf : w.tree.leaf = w.countryHash
  pathElements : ∀ i, w.tree.pathElements i = w.pathElements i
  pathIndices : ∀ i, w.tree.pathIndices i = w.pathIndices i
  computedRoot : w.computedRoot = w.tree.root
  root : w.computedRoot = w.merkleRoot
  allowed : w.allowed = 1

def JurisdictionAllowed.publicSignals {depth : ℕ} (w : JurisdictionAllowed F depth) : List F :=
  [w.computedRoot, w.allowed, w.merkleRoot]

/-! ### `jurisdiction_allowed/jurisdiction_allowed.circom` -/

structure SignedJurisdictionAllowed (F : Type) (depth : ℕ) where
  country : F
  holderSecret : F
  sigR8x : F
  sigR8y : F
  sigS : F
  pathElements : Fin depth → F
  pathIndices : Fin depth → F
  issuerAx : F
  issuerAy : F
  allowedRoot : F
  nullifier : F
  signedMsg : F
  mt : MerklePoseidonVerifier F depth
  nf : F

structure SignedJurisdictionAllowed.Satisfied {depth : ℕ}
    (w : SignedJurisdictionAllowed F depth) : Prop where
  signedMsg : w.signedMsg = lib.poseidon [w.country, w.holderSecret]
  eddsa : lib.eddsaPoseidonVerifier 1 w.issuerAx w.issuerAy w.sigS w.sigR8x w.sigR8y w.signedMsg
  mt : w.mt.Satisfied lib
  leaf : w.mt.leaf = w.country
  pathElements : ∀ i, w.mt.pathElements i = w.pathElements i
  pathIndices : ∀ i, w.mt.pathIndices i = w.pathIndices i
  root : w.mt.root = w.allowedRoot
  nf : w.nf = lib.poseidon [w.holderSecret]
  nullifier : w.nullifier = w.nf

def SignedJurisdictionAllowed.publicSignals {depth : ℕ} (w : SignedJurisdictionAllowed F depth) :
    List F :=
  [w.nullifier, w.issuerAx, w.issuerAy, w.allowedRoot]

/-! ### `AgeGte.circom` -/

structure AgeGte (F : Type) where
  dobYear : F
  dobMonth : F
  dobDay : F
  salt : F
  nowYear : F
  nowMonth : F
  nowDay : F
  threshold : F
  commitment : F
  ageGte : F
  monthBefore : F
  monthEqual : F
  dayBefore : F
  notHadBday : F
  age : F

structure AgeGte.Satisfied (w : AgeGte F) : Prop where
  dayOk : lib.lessThan 5 w.dobDay 32 1
  monthOk : lib.lessThan 5 w.dobMonth 13 1
  ndayOk : lib.lessThan 5 w.nowDay 32 1
  nmonOk : lib.lessThan 5 w.nowMonth 13 1
  monthBefore : lib.lessThan 5 w.nowMonth w.dobMonth w.monthBefore
  monthEqual : lib.isEqual w.nowMonth w.dobMonth w.monthEqual
  dayBefore : lib.lessThan 5 w.nowDay w.dobDay w.dayBefore
  notHadBday : w.notHadBday = w.monthBefore + w.monthEqual * w.dayBefore
  age : w.age = (w.nowYear - w.dobYear) - w.notHadBday
  ageLt : lib.lessThan 16 w.age w.threshold 0
  ageGte : w.ageGte = 1
  commitment : w.commitment = lib.poseidon [w.dobYear, w.dobMonth, w.dobDay, w.salt]

def AgeGte.publicSignals (w : AgeGte F) : List F :=
  [w.commitment, w.ageGte, w.nowYear, w.nowMonth, w.nowDay, w.threshold]

/-! ### `age_gte/age_gte.circom` -/

/-- The other template named `AgeGte`: the age itself is the private input. -/
structure CommittedAgeGte (F : Type) where
  age : F
  salt : F
  threshold : F
  commitment : F
  ageGte : F
  ge : F

structure CommittedAgeGte.Satisfied (w : CommittedAgeGte F) : Prop where
  ge : lib.greaterEqThan 16 w.age w.threshold w.ge
  ge_one : w.ge = 1
  ageGte : w.ageGte = w.ge
  commitment : w.commitment = lib.poseidon [w.age, w.salt]

end Veritas
