import Veritas.Element

/-!
# Integers and field elements

The functions of `fr.cpp` between elements and integers, and its exponentiation on raw elements in
Montgomery form. Integers are those of the arithmetic library it calls; a local element is the one
on the stack.
-/

namespace Veritas

variable {Addr : Type} [DecidableEq Addr]

/-- The modulus that `Fr_init` reads from the data section. -/
def q : ℤ := ((limbsAt (static .q)).toNat : ℤ)

/-! ### Tagged elements -/

def frToMpz (m : Memory Addr) (pE : Place Addr) : ℤ :=
  let tmp := frToNormal m .stack pE .stack
  match tmp.type with
  | .short | .shortMontgomery =>
      let r := tmp.shortVal.toInt
      if r < 0 then r + q else r
  | .long | .longMontgomery => tmp.longVal.toNat

/-- Of a number of four words at most. -/
def frFromMpz (m : Memory Addr) (pE : Place Addr) (v : ℤ) : Memory Addr :=
  if fits v then setHeader m pE (Int32.ofInt v) .short
  else Function.update m pE { m pE with type := .long, longVal := Limbs.ofNat v.natAbs }

/-- Of the number that the string spells. -/
def frStr2element (m : Memory Addr) (pE : Place Addr) (mr : ℤ) : Memory Addr :=
  frFromMpz m pE (mr.fmod q)

/-- The number that `Fr_element2str` prints. -/
def frElement2str (m : Memory Addr) (pE : Place Addr) : ℤ :=
  match (m pE).type with
  | .short | .shortMontgomery =>
      let r := (m pE).shortVal.toInt
      if 0 ≤ r then r else r + q
  | .long | .longMontgomery => (frToNormal m .stack pE .stack).longVal.toNat

/-- The division stops the program on a zero. -/
def frIdiv (m : Memory Addr) (r a b : Place Addr) : Option (Memory Addr) :=
  if frToMpz m b = 0 then none
  else some (frFromMpz m r ((frToMpz m a).fdiv (frToMpz m b)))

def frMod (m : Memory Addr) (r a b : Place Addr) : Option (Memory Addr) :=
  if frToMpz m b = 0 then none
  else some (frFromMpz m r ((frToMpz m a).fmod (frToMpz m b)))

/-- `mpz_powm`, with an exponent that is not negative. -/
def frPow (m : Memory Addr) (r a b : Place Addr) : Memory Addr :=
  frFromMpz m r (((frToMpz m a) ^ (frToMpz m b).toNat).fmod q)

/-- `mpz_invert`, which leaves its result undefined where there is no inverse. -/
def invert (a n : ℤ) : Option ℤ :=
  if Int.gcd a n = 1 then some ((Int.gcdA a n).emod n) else none

def frInv (m : Memory Addr) (r a : Place Addr) : Option (Memory Addr) :=
  (invert (frToMpz m a) q).map (frFromMpz m r)

def frDiv (m : Memory Addr) (r a b : Place Addr) : Option (Memory Addr) :=
  (frInv m .stack b).map fun m => frMul m r a .stack

/-! ### Raw elements -/

def rawToMontgomery (m : Memory Addr) (r a : Place Addr) : Memory Addr :=
  call rawMMul m r (.element a) (.datum .R2)

/-- `RawFr::set`. -/
def rawSet (m : Memory Addr) (r : Place Addr) (value : Int32) : Memory Addr :=
  let mr := if value.toInt < 0 then value.toInt + q else value.toInt
  rawToMontgomery (Function.update m r { m r with longVal := Limbs.ofNat mr.natAbs }) r r

/-- `BIT_IS_SET`. -/
def bitIsSet (s : List UInt8) (p : ℕ) : Bool :=
  (s.getD (p >>> 3) 0 &&& UInt8.ofNat (1 <<< (p &&& 0x7))) != 0

structure Exp (Addr : Type) where
  memory : Memory Addr
  oneFound : Bool

/-- A turn of the loop; `copyBase` is on the stack. -/
def Exp.turn (r : Place Addr) (scalar : List UInt8) (i : ℕ) (s : Exp Addr) : Exp Addr :=
  if !s.oneFound then
    if !bitIsSet scalar i then s
    else ⟨call rawCopy s.memory r (.element .stack) (.word 0), true⟩
  else
    let m := call rawMSquare s.memory r (.element r) (.word 0)
    ⟨if bitIsSet scalar i then call rawMMul m r (.element r) (.element .stack) else m, true⟩

/-- The turns for the bits below a position, highest first. -/
def Exp.loop (r : Place Addr) (scalar : List UInt8) : ℕ → Exp Addr → Exp Addr
  | 0, s => s
  | i + 1, s => loop r scalar i (s.turn r scalar i)

/-- `RawFr::exp`, with the field's one. -/
def rawExp (m : Memory Addr) (r base fOne : Place Addr) (scalar : List UInt8) : Memory Addr :=
  let copied := call rawCopy m .stack (.element base) (.word 0)
  let s := Exp.loop r scalar (scalar.length * 8) ⟨copied, false⟩
  if !s.oneFound then call rawCopy s.memory r (.element fOne) (.word 0) else s.memory

end Veritas
