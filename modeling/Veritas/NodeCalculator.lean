import Veritas.Calculator
import Veritas.Library.Hex

/-!
# The calculator for Node

`witness_calculator.js` does around a WebAssembly module what the generated program does: it hashes
the names of the inputs, reads their numbers, passes words through a shared memory and lays out the
witness file. The module is compiled code; what it returns is a parameter here.
-/

namespace Veritas

/-! ### Names -/

/-- `fnvHash`. A string is its code units. -/
def fnvHash (str : List ℕ) : List Char :=
  let hash := str.foldl (fun hash unit => (hash ^^^ unit) * 0x100000001B3 % 2 ^ 64)
    0xCBF29CE484222325
  let shash := Nat.toDigits 16 hash
  List.replicate (16 - shash.length) '0' ++ shash

/-- `parseInt(s, 16)` of hexadecimal digits, which is not a number when there are none. -/
def parseInt16 (s : List Char) : Option ℕ :=
  if s.isEmpty then none
  else some (s.foldl (fun n c => n * 16 + (Hex.digitValue c).getD 0) 0)

def stringSlice (s : List Char) (first last : ℕ) : List Char := (s.take last).drop first

def hMSB (h : List Char) : Option ℕ := parseInt16 (stringSlice h 0 8)

def hLSB (h : List Char) : Option ℕ := parseInt16 (stringSlice h 8 16)

/-! ### Numbers -/

/-- White space and line terminators of the language. -/
def isWhite (c : Char) : Bool :=
  c.toNat ∈ [0x9, 0xA, 0xB, 0xC, 0xD, 0x20, 0xA0, 0x1680, 0x2028, 0x2029, 0x202F, 0x205F, 0x3000,
    0xFEFF] || (0x2000 ≤ c.toNat && c.toNat ≤ 0x200A)

def trim (s : List Char) : List Char :=
  ((s.dropWhile isWhite).reverse.dropWhile isWhite).reverse

def stringDigits (base : ℕ) (s : List Char) : Option ℤ :=
  if !s.isEmpty && checkValidNumber s base then some (mpzSetStr s base) else none

/-- `BigInt` of a string. -/
def stringToBigInt (s : List Char) : Option ℤ :=
  match trim s with
  | [] => some 0
  | '0' :: 'b' :: s | '0' :: 'B' :: s => stringDigits 2 s
  | '0' :: 'o' :: s | '0' :: 'O' :: s => stringDigits 8 s
  | '0' :: 'x' :: s | '0' :: 'X' :: s => stringDigits 16 s
  | '-' :: s => (stringDigits 10 s).map (- ·)
  | '+' :: s => stringDigits 10 s
  | s => stringDigits 10 s

def normalize (n prime : ℤ) : ℤ :=
  let res := n.tmod prime
  if res < 0 then res + prime else res

/-! ### Shared memory -/

def toArray32.loop (rem : ℕ) (res : List ℕ) : List ℕ :=
  if rem = 0 then res else loop (rem / 2 ^ 32) (rem % 2 ^ 32 :: res)
termination_by rem
decreasing_by omega

def toArray32 (rem size : ℕ) : List ℕ :=
  let res := toArray32.loop rem []
  List.replicate (size - res.length) 0 ++ res

def fromArray32 (arr : List ℕ) : ℕ := arr.foldl (fun res x => res * 2 ^ 32 + x) 0

/-- The words that `writeSharedRWMemory` is given for a number. -/
def sharedWords (n32 rem j : ℕ) : ℕ := (toArray32 rem n32).getD (n32 - 1 - j) 0

/-- The array that `readSharedRWMemory` fills. -/
def readArray (n32 : ℕ) (shared : ℕ → ℕ) : List ℕ :=
  (List.range n32).map fun k => shared (n32 - 1 - k)

/-! ### The witness file -/

/-- A number in a `Uint32Array`. -/
def storeWord (x : Option ℕ) : ℕ := x.getD 0

/-- The two words of a section's length. -/
def lengthWords (idSectionLength : ℕ) : List ℕ :=
  let hex := Nat.toDigits 16 idSectionLength
  [storeWord (parseInt16 (stringSlice hex 0 8)), storeWord (parseInt16 (stringSlice hex 8 16))]

/-- `calculateWTNSBin`, with the words that the module gives for the prime and for the witness. -/
def calculateWTNSBin (n32 witnessSize : ℕ) (rawPrime : ℕ → ℕ) (getWitness : ℕ → ℕ → ℕ) :
    List UInt8 :=
  let n8 := n32 * 4
  let words := [2, 2, 1] ++ lengthWords (8 + n8) ++ [n8] ++ (List.range n32).map rawPrime ++
    [witnessSize, 2] ++ lengthWords (n8 * witnessSize) ++
    (List.range witnessSize).flatMap fun i => (List.range n32).map (getWitness i)
  "wtns".toUTF8.data.toList ++ words.flatMap (LittleEndian.encode 4)

end Veritas
