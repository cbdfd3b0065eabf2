import Veritas.Library.Hex

/-!
# The off-chain encoder

`proof_to_bytes.js` turns the JSON files snarkjs writes into the byte blobs the contract reads. Its
inputs are arrays of decimal strings; they are records here, with the entries the script reads. A
finite point of snarkjs has a third coordinate 1, which the script does not read.
-/

namespace Veritas

structure Decimal where
  digits : List Char
  isDecimal : digits.all Char.isDigit = true

/-- `BigInt(s)`. -/
def bigInt (s : Decimal) : ℕ := Nat.ofDigitChars 10 s.digits 0

/-- The text of a number, as snarkjs prints it. -/
def Decimal.ofNat (n : ℕ) : Decimal where
  digits := Nat.toDigits 10 n
  isDecimal := List.all_eq_true.mpr fun _ h => Nat.isDigit_of_mem_toDigits (by omega) (by omega) h

@[simp]
theorem bigInt_ofNat (n : ℕ) : bigInt (Decimal.ofNat n) = n := Nat.ofDigitChars_ten_toDigits

/-- `"0".repeat(count)` throws on a negative count. -/
inductive JsError where
  | rangeError
deriving DecidableEq

/-- A decimal string as 32 bytes, big-endian: print in hexadecimal, pad to 64 digits, decode. -/
def b32 (s : Decimal) : Except JsError (List UInt8) := do
  let hex := Nat.toDigits 16 (bigInt s)
  if 64 < hex.length then
    throw .rangeError
  return Hex.decode (List.replicate (64 - hex.length) '0' ++ hex)

/-- snarkjs G1: `[x, y, 1]`. -/
structure G1Json where
  x : Decimal
  y : Decimal

/-- snarkjs G2: `[[x.c0, x.c1], [y.c0, y.c1], [1, 0]]`. -/
structure G2Json where
  x : Decimal × Decimal
  y : Decimal × Decimal

structure ProofJson where
  piA : G1Json
  piB : G2Json
  piC : G1Json

structure VkeyJson where
  vkAlpha1 : G1Json
  vkBeta2 : G2Json
  vkGamma2 : G2Json
  vkDelta2 : G2Json
  ic : List G1Json

def g1 (v : G1Json) : Except JsError (List UInt8) := do
  return (← b32 v.x) ++ (← b32 v.y)

/-- `c0` first. -/
def g2 (v : G2Json) : Except JsError (List UInt8) := do
  return (← b32 v.x.1) ++ (← b32 v.x.2) ++ (← b32 v.y.1) ++ (← b32 v.y.2)

def proofBin (proof : ProofJson) : Except JsError (List UInt8) := do
  return (← g1 proof.piA) ++ (← g2 proof.piB) ++ (← g1 proof.piC)

def pubBin (pub : List Decimal) : Except JsError (List UInt8) := do
  return (← pub.mapM b32).flatten

/-- `Buffer.from([pub.length])` keeps the low byte of the length. -/
def vkBin (vk : VkeyJson) (pub : List Decimal) : Except JsError (List UInt8) := do
  return (← g1 vk.vkAlpha1) ++ (← g2 vk.vkBeta2) ++ (← g2 vk.vkGamma2) ++ (← g2 vk.vkDelta2)
    ++ [UInt8.ofNat pub.length] ++ (← vk.ic.mapM g1).flatten

structure Blobs where
  proof : List UInt8
  pub : List UInt8
  vk : List UInt8

def proofToBytes (vk : VkeyJson) (proof : ProofJson) (pub : List Decimal) :
    Except JsError Blobs := do
  return { proof := ← proofBin proof, pub := ← pubBin pub, vk := ← vkBin vk pub }

end Veritas
