import Veritas.RawField
import Mathlib.Data.Int.Notation

/-!
# Field elements in memory

`fr.asm` keeps an element as a 32-bit number or as four words, each of them plain or in Montgomery
form, with the representation in the upper bits of the header. The routines on elements choose a raw
routine by the representations of their operands. Pointers are cells of a memory, so a result may be
one of the operands; `stack` is the temporary element of a mixed sum.
-/

namespace Veritas

open X64

/-- Bits 62 and 63 of the header. -/
inductive FrType where
  | short
  | shortMontgomery
  | long
  | longMontgomery
deriving DecidableEq

def FrType.bits : FrType → ℕ
  | short => 0x00000000
  | shortMontgomery => 0x40000000
  | long => 0x80000000
  | longMontgomery => 0xC0000000

def FrType.ofHeader (header : ℕ) : FrType :=
  match header / 2 ^ 62 with
  | 0 => short
  | 1 => shortMontgomery
  | 2 => long
  | _ => longMontgomery

@[ext]
structure FrElement where
  shortVal : Int32
  type : FrType
  longVal : Limbs
deriving DecidableEq

namespace FrElement

def header (x : FrElement) : UInt64 :=
  UInt64.ofNat (x.type.bits * 2 ^ 32 + x.shortVal.toUInt32.toNat)

/-- The packed structure. -/
def block (x : FrElement) : ℕ → UInt64
  | 0 => x.header
  | 8 => x.longVal.l0
  | 16 => x.longVal.l1
  | 24 => x.longVal.l2
  | 32 => x.longVal.l3
  | _ => 0

def ofBlock (b : ℕ → UInt64) : FrElement where
  shortVal := (UInt32.ofNat (b 0).toNat).toInt32
  type := FrType.ofHeader (b 0).toNat
  longVal := limbsAt fun offset => b (8 + offset)

end FrElement

/-! ### Memory and calls -/

inductive Place (Addr : Type) where
  | cell (a : Addr)
  | stack
deriving DecidableEq

abbrev Memory (Addr : Type) := Place Addr → FrElement

/-- What a register holds on entry to a routine: a pointer, or a word. -/
inductive Arg (Addr : Type) where
  | element (p : Place Addr)
  | datum (d : Datum)
  | word (w : UInt64)
deriving DecidableEq

section Routines

variable {Addr : Type} [DecidableEq Addr]

def Arg.value : Arg Addr → UInt64
  | word w => w
  | _ => 0

/-- The machine on entry, with the elements' words as the layout says. -/
def entry (layout : FrElement → ℕ → UInt64) (m : Memory Addr) (rdi : Place Addr)
    (rsi rdx : Arg Addr) : State (Arg Addr) where
  reg
    | .rsi => rsi.value
    | .rdx => rdx.value
    | _ => 0
  byte _ := 0
  ptr
    | .rsi => rsi
    | .rdx => rdx
    | _ => .element rdi
  mem
    | .element p => layout (m p)
    | .datum d => static d
    | .word _ => fun _ => 0
  cf := false
  of := false
  zf := false
  sf := false

/-- A raw routine on the long values. -/
def call (code : Code) (m : Memory Addr) (rdi : Place Addr) (rsi rdx : Arg Addr) : Memory Addr :=
  let s := run static code none (entry (fun x => blockOf x.longVal) m rdi rsi rdx)
  fun p => { m p with longVal := limbsAt (s.mem (.element p)) }

/-- A number in a 64-bit register. -/
def word (v : ℤ) : UInt64 := (Int64.ofInt v).toUInt64

def copyS2L (m : Memory Addr) (rdi : Place Addr) (v : ℤ) : Memory Addr :=
  let s := run static rawCopyS2L none (entry FrElement.block m rdi (.word (word v)) (.word 0))
  fun p => FrElement.ofBlock (s.mem (.element p))

def setType (m : Memory Addr) (rdi : Place Addr) (type : FrType) : Memory Addr :=
  Function.update m rdi { m rdi with type := type }

def setHeader (m : Memory Addr) (rdi : Place Addr) (shortVal : Int32) (type : FrType) :
    Memory Addr :=
  Function.update m rdi { m rdi with shortVal := shortVal, type := type }

/-! ### Conversions -/

def frCopy (m : Memory Addr) (rdi rsi : Place Addr) : Memory Addr :=
  Function.update m rdi (m rsi)

/-- A short number times a long one: the product of the absolute value is negated. -/
def mulShort (m : Memory Addr) (rdi : Place Addr) (rsi : Arg Addr) (v : ℤ) : Memory Addr :=
  if v < 0 then
    call rawNegL (call rawMMul1 m rdi rsi (.word (word (-v)))) rdi (.element rdi) (.word 0)
  else
    call rawMMul1 m rdi rsi (.word (word v))

def frToMontgomery (m : Memory Addr) (rdi rsi : Place Addr) : Memory Addr :=
  match (m rsi).type with
  | .shortMontgomery | .longMontgomery => frCopy m rdi rsi
  | .short =>
      -- the sign extension covers the type too, until it is set at the end
      setType (mulShort (setHeader m rdi (m rsi).shortVal .short) rdi (.datum .R2)
        (m rsi).shortVal.toInt) rdi .shortMontgomery
  | .long =>
      setType (call rawMMul (setHeader m rdi (m rsi).shortVal .long) rdi (.element rsi)
        (.datum .R2)) rdi .longMontgomery

def frToNormal (m : Memory Addr) (rdi rsi : Place Addr) : Memory Addr :=
  match (m rsi).type with
  | .longMontgomery =>
      setType (call rawFromMontgomery m rdi (.element rsi) (.word 0)) rdi .long
  | .short | .shortMontgomery | .long => frCopy m rdi rsi

def frToLongNormal (m : Memory Addr) (rdi rsi : Place Addr) : Memory Addr :=
  match (m rsi).type with
  | .short | .shortMontgomery => setType (copyS2L m rdi (m rsi).shortVal.toInt) rdi .long
  | .longMontgomery =>
      setType (call rawFromMontgomery m rdi (.element rsi) (.word 0)) rdi .long
  | .long => frCopy m rdi rsi

/-! ### Sums and differences -/

/-- A signed 32-bit result did not overflow. -/
def fits (v : ℤ) : Bool := decide (-2 ^ 31 ≤ v ∧ v < 2 ^ 31)

/-- A short result, or a long one when it overflows. -/
def shortResult (m : Memory Addr) (rdi : Place Addr) (v : ℤ) : Memory Addr :=
  if fits v then setHeader m rdi (Int32.ofInt v) .short else copyS2L m rdi v

/-- The dispatch that sums and differences share. The result's type is written before an operand is
converted. -/
def additive (shorts : ℤ → ℤ → ℤ)
    (longShort : Memory Addr → Place Addr → Place Addr → ℤ → Memory Addr)
    (shortLong : Memory Addr → Place Addr → ℤ → Place Addr → Memory Addr) (longs : Code)
    (m : Memory Addr) (rdi rsi rdx : Place Addr) : Memory Addr :=
  match (m rsi).type, (m rdx).type with
  | .short, .short | .short, .shortMontgomery
  | .shortMontgomery, .short | .shortMontgomery, .shortMontgomery =>
      shortResult m rdi (shorts (m rsi).shortVal.toInt (m rdx).shortVal.toInt)
  | .long, .short | .long, .shortMontgomery =>
      longShort (setType m rdi .long) rdi rsi (m rdx).shortVal.toInt
  | .short, .long | .shortMontgomery, .long =>
      shortLong (setType m rdi .long) rdi (m rsi).shortVal.toInt rdx
  | .long, .long => call longs (setType m rdi .long) rdi (.element rsi) (.element rdx)
  | .longMontgomery, .shortMontgomery | .shortMontgomery, .longMontgomery
  | .longMontgomery, .longMontgomery =>
      call longs (setType m rdi .longMontgomery) rdi (.element rsi) (.element rdx)
  | .longMontgomery, .short | .longMontgomery, .long =>
      call longs (frToMontgomery (setType m rdi .longMontgomery) .stack rdx) rdi (.element rsi)
        (.element .stack)
  | .short, .longMontgomery | .long, .longMontgomery =>
      call longs (frToMontgomery (setType m rdi .longMontgomery) .stack rsi) rdi (.element .stack)
        (.element rdx)

def addShort (m : Memory Addr) (rdi rsi : Place Addr) (v : ℤ) : Memory Addr :=
  if v < 0 then call rawSubLS m rdi (.element rsi) (.word (word (-v)))
  else call rawAddLS m rdi (.element rsi) (.word (word v))

def subShort (m : Memory Addr) (rdi rsi : Place Addr) (v : ℤ) : Memory Addr :=
  if v < 0 then call rawAddLS m rdi (.element rsi) (.word (word (-v)))
  else call rawSubLS m rdi (.element rsi) (.word (word v))

def subFromShort (m : Memory Addr) (rdi : Place Addr) (v : ℤ) (rdx : Place Addr) : Memory Addr :=
  if v < 0 then call rawNegLS m rdi (.element rdx) (.word (word (-v)))
  else call rawSubSL m rdi (.word (word v)) (.element rdx)

def frAdd (m : Memory Addr) (rdi rsi rdx : Place Addr) : Memory Addr :=
  additive (· + ·) addShort (fun m rdi v rdx => addShort m rdi rdx v) rawAddLL m rdi rsi rdx

def frSub (m : Memory Addr) (rdi rsi rdx : Place Addr) : Memory Addr :=
  additive (· - ·) subShort subFromShort rawSubLL m rdi rsi rdx

def frNeg (m : Memory Addr) (rdi rsi : Place Addr) : Memory Addr :=
  match (m rsi).type with
  | .short | .shortMontgomery => shortResult m rdi (-(m rsi).shortVal.toInt)
  | .long | .longMontgomery =>
      call rawNegL (setHeader m rdi (m rsi).shortVal (m rsi).type) rdi (.element rsi) (.word 0)

/-! ### Products -/

/-- The branch that saves a short product does not return, so the long one follows. -/
def shortProduct (m : Memory Addr) (rdi : Place Addr) (v : ℤ) : Memory Addr :=
  copyS2L (if fits v then setHeader m rdi (Int32.ofInt v) .short else m) rdi v

/-- Multiply the result by the cube of the radix. -/
def mulR3 (m : Memory Addr) (rdi : Place Addr) : Memory Addr :=
  call rawMMul m rdi (.element rdi) (.datum .R3)

def frMul (m : Memory Addr) (rdi rsi rdx : Place Addr) : Memory Addr :=
  match (m rsi).type, (m rdx).type with
  | .short, .short | .short, .shortMontgomery
  | .shortMontgomery, .short | .shortMontgomery, .shortMontgomery =>
      shortProduct m rdi ((m rsi).shortVal.toInt * (m rdx).shortVal.toInt)
  | .long, .short =>
      mulR3 (mulShort (setType m rdi .longMontgomery) rdi (.element rsi) (m rdx).shortVal.toInt) rdi
  | .short, .long =>
      mulR3 (mulShort (setType m rdi .longMontgomery) rdi (.element rdx) (m rsi).shortVal.toInt) rdi
  | .longMontgomery, .short =>
      mulShort (setType m rdi .long) rdi (.element rsi) (m rdx).shortVal.toInt
  | .short, .longMontgomery =>
      mulShort (setType m rdi .long) rdi (.element rdx) (m rsi).shortVal.toInt
  | .long, .long =>
      mulR3 (call rawMMul (setType m rdi .longMontgomery) rdi (.element rsi) (.element rdx)) rdi
  | .long, .shortMontgomery | .shortMontgomery, .long
  | .long, .longMontgomery | .longMontgomery, .long =>
      call rawMMul (setType m rdi .long) rdi (.element rsi) (.element rdx)
  | .longMontgomery, .shortMontgomery | .shortMontgomery, .longMontgomery
  | .longMontgomery, .longMontgomery =>
      call rawMMul (setType m rdi .longMontgomery) rdi (.element rsi) (.element rdx)

def frSquare (m : Memory Addr) (rdi rsi : Place Addr) : Memory Addr :=
  match (m rsi).type with
  | .short | .shortMontgomery =>
      shortProduct m rdi ((m rsi).shortVal.toInt * (m rsi).shortVal.toInt)
  | .long =>
      mulR3 (call rawMSquare (setType m rdi .longMontgomery) rdi (.element rsi) (.word 0)) rdi
  | .longMontgomery =>
      call rawMSquare (setType m rdi .longMontgomery) rdi (.element rsi) (.word 0)

/-! ### Straight-line code -/

/-- A call that generated code makes, with its result first. -/
inductive FrCall (Addr : Type) where
  | copy (r a : Addr)
  | add (r a b : Addr)
  | sub (r a b : Addr)
  | neg (r a : Addr)
  | mul (r a b : Addr)
  | square (r a : Addr)
  | toNormal (r a : Addr)
  | toLongNormal (r a : Addr)
  | toMontgomery (r a : Addr)

def FrCall.exec (m : Memory Addr) : FrCall Addr → Memory Addr
  | copy r a => frCopy m (.cell r) (.cell a)
  | add r a b => frAdd m (.cell r) (.cell a) (.cell b)
  | sub r a b => frSub m (.cell r) (.cell a) (.cell b)
  | neg r a => frNeg m (.cell r) (.cell a)
  | mul r a b => frMul m (.cell r) (.cell a) (.cell b)
  | square r a => frSquare m (.cell r) (.cell a)
  | toNormal r a => frToNormal m (.cell r) (.cell a)
  | toLongNormal r a => frToLongNormal m (.cell r) (.cell a)
  | toMontgomery r a => frToMontgomery m (.cell r) (.cell a)

end Routines

end Veritas
