import Veritas.Library.Limbs
import Veritas.Library.X64

/-!
# Raw field arithmetic

The routines of `fr.asm` on four-word numbers below the modulus, instruction by instruction. Left
out are the pushes and pops that save the caller's registers. The result is written through `rdi`;
the operands are behind `rsi` and `rdx`, or in them where a routine takes a word. Labels are local
to a routine.
-/

namespace Veritas

open X64

inductive Datum where
  | q
  | R2
  | R3
  | np
deriving DecidableEq

inductive Label where
  | sq
  | done
  | adjustNeg
  | doNegate
  | ret0
deriving DecidableEq

abbrev Code := List (Line Datum Label)

/-- The `.data` section. -/
def static : Datum → ℕ → UInt64
  | .q, 0 => 0x43e1f593f0000001
  | .q, 8 => 0x2833e84879b97091
  | .q, 16 => 0xb85045b68181585d
  | .q, 24 => 0x30644e72e131a029
  | .R2, 0 => 0x1bb8e645ae216da7
  | .R2, 8 => 0x53fe3ab1e35c59e3
  | .R2, 16 => 0x8c49833d53bb8085
  | .R2, 24 => 0x0216d0b17f4e44a5
  | .R3, 0 => 0x5e94d8e1b4bf0040
  | .R3, 8 => 0x2a489cbe1cfbb6b8
  | .R3, 16 => 0x893cc664a19fcfed
  | .R3, 24 => 0x0cf8594b7fcc657c
  | .np, 0 => 0xc2e1f593efffffff
  | _, _ => 0

def limbsAt (block : ℕ → UInt64) : Limbs := ⟨block 0, block 8, block 16, block 24⟩

def blockOf (x : Limbs) : ℕ → UInt64
  | 0 => x.l0
  | 8 => x.l1
  | 16 => x.l2
  | 24 => x.l3
  | _ => 0

/-! ### Multiplication -/

/-- The first `FirstLoop`: the scalar in `rdx` times the number behind `base`. -/
def firstRow (x0 : Operand Datum) (base : Reg) : Code := [
  .instr (.mulx .rax .r11 x0),
  .instr (.mulx .r8 .r12 (.mem base 8)),
  .instr (.adcx .r12 (.reg .rax)),
  .instr (.mulx .rax .r13 (.mem base 16)),
  .instr (.adcx .r13 (.reg .r8)),
  .instr (.mulx .r8 .r14 (.mem base 24)),
  .instr (.adcx .r14 (.reg .rax)),
  .instr (.mov (.reg .r15) (.reg .r10)),
  .instr (.adcx .r15 (.reg .r8))]

/-- The other ones: the word of `rsi` at the offset times the number behind `base`, added on. -/
def firstLoop (offset : ℕ) (base : Reg) : Code := [
  .instr (.mov (.reg .rdx) (.mem .rsi offset)),
  .instr (.mov (.reg .r15) (.reg .r10)),
  .instr (.mulx .r8 .rax (.mem base 0)),
  .instr (.adcx .r11 (.reg .rax)),
  .instr (.adox .r12 (.reg .r8)),
  .instr (.mulx .r8 .rax (.mem base 8)),
  .instr (.adcx .r12 (.reg .rax)),
  .instr (.adox .r13 (.reg .r8)),
  .instr (.mulx .r8 .rax (.mem base 16)),
  .instr (.adcx .r13 (.reg .rax)),
  .instr (.adox .r14 (.reg .r8)),
  .instr (.mulx .r8 .rax (.mem base 24)),
  .instr (.adcx .r14 (.reg .rax)),
  .instr (.adox .r15 (.reg .r8)),
  .instr (.adcx .r15 (.reg .r10))]

def secondLoop : Code := [
  .instr (.mov (.reg .rdx) (.reg .r9)),
  .instr (.mulx .rax .rdx (.reg .r11)),
  .instr (.mulx .r8 .rax (.data .q 0)),
  .instr (.adcx .rax (.reg .r11)),
  .instr (.mulx .rax .r11 (.data .q 8)),
  .instr (.adcx .r11 (.reg .r8)),
  .instr (.adox .r11 (.reg .r12)),
  .instr (.mulx .r8 .r12 (.data .q 16)),
  .instr (.adcx .r12 (.reg .rax)),
  .instr (.adox .r12 (.reg .r13)),
  .instr (.mulx .rax .r13 (.data .q 24)),
  .instr (.adcx .r13 (.reg .r8)),
  .instr (.adox .r13 (.reg .r14)),
  .instr (.mov (.reg .r14) (.reg .r10)),
  .instr (.adcx .r14 (.reg .rax)),
  .instr (.adox .r14 (.reg .r15))]

def stores : Code := [
  .instr (.mov (.mem .rdi 0) (.reg .r11)),
  .instr (.mov (.mem .rdi 8) (.reg .r12)),
  .instr (.mov (.mem .rdi 16) (.reg .r13)),
  .instr (.mov (.mem .rdi 24) (.reg .r14)),
  .ret]

def subtraction : Code := [
  .instr (.arith .sub (.reg .r11) (.data .q 0)),
  .instr (.arith .sbb (.reg .r12) (.data .q 8)),
  .instr (.arith .sbb (.reg .r13) (.data .q 16)),
  .instr (.arith .sbb (.reg .r14) (.data .q 24)),
  .label .done] ++ stores

def comparison : Code := [
  .instr (.arith .cmp (.reg .r14) (.data .q 24)),
  .jump .carry .done,
  .jump .nonzero .sq,
  .instr (.arith .cmp (.reg .r13) (.data .q 16)),
  .jump .carry .done,
  .jump .nonzero .sq,
  .instr (.arith .cmp (.reg .r12) (.data .q 8)),
  .jump .carry .done,
  .jump .nonzero .sq,
  .instr (.arith .cmp (.reg .r11) (.data .q 0)),
  .jump .carry .done,
  .jump .nonzero .sq,
  .label .sq] ++ subtraction

def prologue : Code := [
  .instr (.mov (.reg .rcx) (.reg .rdx)),
  .instr (.mov (.reg .r9) (.data .np 0)),
  .instr (.clear .r10)]

def firstRound (scalar x0 : Operand Datum) (base : Reg) : Code :=
  .instr (.mov (.reg .rdx) scalar) :: firstRow x0 base ++ secondLoop

def round (offset : ℕ) (base : Reg) : Code := firstLoop offset base ++ secondLoop

/-- A `SecondLoop` on an accumulator of four words. -/
def reduction : Code := .instr (.mov (.reg .r15) (.reg .r10)) :: secondLoop

def rawMMul : Code :=
  prologue
    ++ firstRound (.mem .rsi 0) (.mem .rcx 0) .rcx
    ++ round 8 .rcx
    ++ round 16 .rcx
    ++ round 24 .rcx
    ++ comparison

def rawMSquare : Code :=
  prologue
    ++ firstRound (.mem .rsi 0) (.reg .rdx) .rsi
    ++ round 8 .rsi
    ++ round 16 .rsi
    ++ round 24 .rsi
    ++ comparison

def rawMMul1 : Code :=
  prologue
    ++ firstRound (.reg .rcx) (.mem .rsi 0) .rsi
    ++ reduction
    ++ reduction
    ++ reduction
    ++ comparison

def loads : Code := [
  .instr (.mov (.reg .r11) (.mem .rsi 0)),
  .instr (.mov (.reg .r12) (.mem .rsi 8)),
  .instr (.mov (.reg .r13) (.mem .rsi 16)),
  .instr (.mov (.reg .r14) (.mem .rsi 24))]

def rawFromMontgomery : Code :=
  prologue
    ++ loads
    ++ reduction
    ++ reduction
    ++ reduction
    ++ reduction
    ++ comparison

/-! ### Addition -/

/-- Subtract the modulus from the result. -/
def sq : Code := [
  .instr (.mov (.reg .rax) (.data .q 0)),
  .instr (.arith .sub (.mem .rdi 0) (.reg .rax)),
  .instr (.mov (.reg .rax) (.data .q 8)),
  .instr (.arith .sbb (.mem .rdi 8) (.reg .rax)),
  .instr (.mov (.reg .rax) (.data .q 16)),
  .instr (.arith .sbb (.mem .rdi 16) (.reg .rax)),
  .instr (.mov (.reg .rax) (.data .q 24)),
  .instr (.arith .sbb (.mem .rdi 24) (.reg .rax)),
  .label .done,
  .ret]

/-- `rax` holds the highest word of the result. -/
def compareResult : Code := [
  .instr (.arith .cmp (.reg .rax) (.data .q 24)),
  .jump .carry .done,
  .jump .nonzero .sq,
  .instr (.mov (.reg .rax) (.mem .rdi 16)),
  .instr (.arith .cmp (.reg .rax) (.data .q 16)),
  .jump .carry .done,
  .jump .nonzero .sq,
  .instr (.mov (.reg .rax) (.mem .rdi 8)),
  .instr (.arith .cmp (.reg .rax) (.data .q 8)),
  .jump .carry .done,
  .jump .nonzero .sq,
  .instr (.mov (.reg .rax) (.mem .rdi 0)),
  .instr (.arith .cmp (.reg .rax) (.data .q 0)),
  .jump .carry .done,
  .jump .nonzero .sq,
  .label .sq] ++ sq

/-- The words' sum, with the carry out. -/
def addLL : Code := [
  .instr (.mov (.reg .rax) (.mem .rsi 0)),
  .instr (.arith .add (.reg .rax) (.mem .rdx 0)),
  .instr (.mov (.mem .rdi 0) (.reg .rax)),
  .instr (.mov (.reg .rax) (.mem .rsi 8)),
  .instr (.arith .adc (.reg .rax) (.mem .rdx 8)),
  .instr (.mov (.mem .rdi 8) (.reg .rax)),
  .instr (.mov (.reg .rax) (.mem .rsi 16)),
  .instr (.arith .adc (.reg .rax) (.mem .rdx 16)),
  .instr (.mov (.mem .rdi 16) (.reg .rax)),
  .instr (.mov (.reg .rax) (.mem .rsi 24)),
  .instr (.arith .adc (.reg .rax) (.mem .rdx 24)),
  .instr (.mov (.mem .rdi 24) (.reg .rax))]

def rawAddLL : Code := addLL ++ .jump .carry .sq :: compareResult

/-- The sum of a number and a word, with the carry out. -/
def addLS : Code := [
  .instr (.arith .add (.reg .rdx) (.mem .rsi 0)),
  .instr (.mov (.mem .rdi 0) (.reg .rdx)),
  .instr (.mov (.reg .rdx) (.imm 0)),
  .instr (.arith .adc (.reg .rdx) (.mem .rsi 8)),
  .instr (.mov (.mem .rdi 8) (.reg .rdx)),
  .instr (.mov (.reg .rdx) (.imm 0)),
  .instr (.arith .adc (.reg .rdx) (.mem .rsi 16)),
  .instr (.mov (.mem .rdi 16) (.reg .rdx)),
  .instr (.mov (.reg .rdx) (.imm 0)),
  .instr (.arith .adc (.reg .rdx) (.mem .rsi 24)),
  .instr (.mov (.mem .rdi 24) (.reg .rdx))]

def rawAddLS : Code :=
  addLS ++ .jump .carry .sq :: .instr (.mov (.reg .rax) (.mem .rdi 24)) :: compareResult

/-! ### Subtraction -/

/-- Add the modulus to the result. -/
def aq : Code := [
  .instr (.mov (.reg .rax) (.data .q 0)),
  .instr (.arith .add (.mem .rdi 0) (.reg .rax)),
  .instr (.mov (.reg .rax) (.data .q 8)),
  .instr (.arith .adc (.mem .rdi 8) (.reg .rax)),
  .instr (.mov (.reg .rax) (.data .q 16)),
  .instr (.arith .adc (.mem .rdi 16) (.reg .rax)),
  .instr (.mov (.reg .rax) (.data .q 24)),
  .instr (.arith .adc (.mem .rdi 24) (.reg .rax)),
  .label .done,
  .ret]

/-- A number less a word, with the borrow. -/
def subLS : Code := [
  .instr (.mov (.reg .rax) (.mem .rsi 0)),
  .instr (.arith .sub (.reg .rax) (.reg .rdx)),
  .instr (.mov (.mem .rdi 0) (.reg .rax)),
  .instr (.mov (.reg .rdx) (.imm 0)),
  .instr (.mov (.reg .rax) (.mem .rsi 8)),
  .instr (.arith .sbb (.reg .rax) (.reg .rdx)),
  .instr (.mov (.mem .rdi 8) (.reg .rax)),
  .instr (.mov (.reg .rax) (.mem .rsi 16)),
  .instr (.arith .sbb (.reg .rax) (.reg .rdx)),
  .instr (.mov (.mem .rdi 16) (.reg .rax)),
  .instr (.mov (.reg .rax) (.mem .rsi 24)),
  .instr (.arith .sbb (.reg .rax) (.reg .rdx)),
  .instr (.mov (.mem .rdi 24) (.reg .rax))]

def rawSubLS : Code := subLS ++ .jump .noCarry .done :: aq

/-- A word less a number, with the borrow. -/
def subSL : Code := [
  .instr (.arith .sub (.reg .rsi) (.mem .rdx 0)),
  .instr (.mov (.mem .rdi 0) (.reg .rsi)),
  .instr (.mov (.reg .rax) (.imm 0)),
  .instr (.arith .sbb (.reg .rax) (.mem .rdx 8)),
  .instr (.mov (.mem .rdi 8) (.reg .rax)),
  .instr (.mov (.reg .rax) (.imm 0)),
  .instr (.arith .sbb (.reg .rax) (.mem .rdx 16)),
  .instr (.mov (.mem .rdi 16) (.reg .rax)),
  .instr (.mov (.reg .rax) (.imm 0)),
  .instr (.arith .sbb (.reg .rax) (.mem .rdx 24)),
  .instr (.mov (.mem .rdi 24) (.reg .rax))]

def rawSubSL : Code := subSL ++ .jump .noCarry .done :: aq

/-- The words' difference, with the borrow. -/
def subLL : Code := [
  .instr (.mov (.reg .rax) (.mem .rsi 0)),
  .instr (.arith .sub (.reg .rax) (.mem .rdx 0)),
  .instr (.mov (.mem .rdi 0) (.reg .rax)),
  .instr (.mov (.reg .rax) (.mem .rsi 8)),
  .instr (.arith .sbb (.reg .rax) (.mem .rdx 8)),
  .instr (.mov (.mem .rdi 8) (.reg .rax)),
  .instr (.mov (.reg .rax) (.mem .rsi 16)),
  .instr (.arith .sbb (.reg .rax) (.mem .rdx 16)),
  .instr (.mov (.mem .rdi 16) (.reg .rax)),
  .instr (.mov (.reg .rax) (.mem .rsi 24)),
  .instr (.arith .sbb (.reg .rax) (.mem .rdx 24)),
  .instr (.mov (.mem .rdi 24) (.reg .rax))]

def rawSubLL : Code := subLL ++ .jump .noCarry .done :: aq

/-- The modulus less a word and less a number, with the borrows joined. -/
def negLS : Code := [
  .instr (.mov (.reg .rax) (.data .q 0)),
  .instr (.arith .sub (.reg .rax) (.reg .rdx)),
  .instr (.mov (.mem .rdi 0) (.reg .rax)),
  .instr (.mov (.reg .rax) (.data .q 8)),
  .instr (.arith .sbb (.reg .rax) (.imm 0)),
  .instr (.mov (.mem .rdi 8) (.reg .rax)),
  .instr (.mov (.reg .rax) (.data .q 16)),
  .instr (.arith .sbb (.reg .rax) (.imm 0)),
  .instr (.mov (.mem .rdi 16) (.reg .rax)),
  .instr (.mov (.reg .rax) (.data .q 24)),
  .instr (.arith .sbb (.reg .rax) (.imm 0)),
  .instr (.mov (.mem .rdi 24) (.reg .rax)),
  .instr (.setc .dl),
  .instr (.mov (.reg .rax) (.mem .rdi 0)),
  .instr (.arith .sub (.reg .rax) (.mem .rsi 0)),
  .instr (.mov (.mem .rdi 0) (.reg .rax)),
  .instr (.mov (.reg .rax) (.mem .rdi 8)),
  .instr (.arith .sbb (.reg .rax) (.mem .rsi 8)),
  .instr (.mov (.mem .rdi 8) (.reg .rax)),
  .instr (.mov (.reg .rax) (.mem .rdi 16)),
  .instr (.arith .sbb (.reg .rax) (.mem .rsi 16)),
  .instr (.mov (.mem .rdi 16) (.reg .rax)),
  .instr (.mov (.reg .rax) (.mem .rdi 24)),
  .instr (.arith .sbb (.reg .rax) (.mem .rsi 24)),
  .instr (.mov (.mem .rdi 24) (.reg .rax)),
  .instr (.setc .dh),
  .instr (.or .dl .dh)]

/-- Minus a number and minus a word. -/
def rawNegLS : Code := negLS ++ .jump .zero .done :: aq

/-- The modulus less a number. -/
def negate : Code := [
  .instr (.mov (.reg .rax) (.data .q 0)),
  .instr (.arith .sub (.reg .rax) (.mem .rsi 0)),
  .instr (.mov (.mem .rdi 0) (.reg .rax)),
  .instr (.mov (.reg .rax) (.data .q 8)),
  .instr (.arith .sbb (.reg .rax) (.mem .rsi 8)),
  .instr (.mov (.mem .rdi 8) (.reg .rax)),
  .instr (.mov (.reg .rax) (.data .q 16)),
  .instr (.arith .sbb (.reg .rax) (.mem .rsi 16)),
  .instr (.mov (.mem .rdi 16) (.reg .rax)),
  .instr (.mov (.reg .rax) (.data .q 24)),
  .instr (.arith .sbb (.reg .rax) (.mem .rsi 24)),
  .instr (.mov (.mem .rdi 24) (.reg .rax)),
  .ret]

def rawNegL : Code := [
  .instr (.clear .rax),
  .instr (.arith .cmp (.mem .rsi 0) (.reg .rax)),
  .jump .nonzero .doNegate,
  .instr (.arith .cmp (.mem .rsi 8) (.reg .rax)),
  .jump .nonzero .doNegate,
  .instr (.arith .cmp (.mem .rsi 16) (.reg .rax)),
  .jump .nonzero .doNegate,
  .instr (.arith .cmp (.mem .rsi 24) (.reg .rax)),
  .jump .nonzero .doNegate,
  .instr (.mov (.mem .rdi 0) (.reg .rax)),
  .instr (.mov (.mem .rdi 8) (.reg .rax)),
  .instr (.mov (.mem .rdi 16) (.reg .rax)),
  .instr (.mov (.mem .rdi 24) (.reg .rax)),
  .ret,
  .label .doNegate] ++ negate

/-- The two's complement number in `rsi`. Here `rdi` points to the header before the words; the
header is the word that `al` shifted up by 56 bits gives. -/
def rawCopyS2L : Code := [
  .instr (.mov (.reg .rax) (.imm 0x8000000000000000)),
  .instr (.mov (.mem .rdi 0) (.reg .rax)),
  .instr (.arith .cmp (.reg .rsi) (.imm 0)),
  .jump .sign .adjustNeg,
  .instr (.mov (.mem .rdi 8) (.reg .rsi)),
  .instr (.clear .rax),
  .instr (.mov (.mem .rdi 16) (.reg .rax)),
  .instr (.mov (.mem .rdi 24) (.reg .rax)),
  .instr (.mov (.mem .rdi 32) (.reg .rax)),
  .ret,
  .label .adjustNeg,
  .instr (.arith .add (.reg .rsi) (.data .q 0)),
  .instr (.mov (.mem .rdi 8) (.reg .rsi)),
  .instr (.mov (.reg .rsi) (.imm 0xffffffffffffffff)),
  .instr (.mov (.reg .rax) (.reg .rsi)),
  .instr (.arith .adc (.reg .rax) (.data .q 8)),
  .instr (.mov (.mem .rdi 16) (.reg .rax)),
  .instr (.mov (.reg .rax) (.reg .rsi)),
  .instr (.arith .adc (.reg .rax) (.data .q 16)),
  .instr (.mov (.mem .rdi 24) (.reg .rax)),
  .instr (.mov (.reg .rax) (.reg .rsi)),
  .instr (.arith .adc (.reg .rax) (.data .q 24)),
  .instr (.mov (.mem .rdi 32) (.reg .rax)),
  .ret]

/-! ### Copies and tests -/

def rawCopy : Code := [
  .instr (.mov (.reg .rax) (.mem .rsi 0)),
  .instr (.mov (.mem .rdi 0) (.reg .rax)),
  .instr (.mov (.reg .rax) (.mem .rsi 8)),
  .instr (.mov (.mem .rdi 8) (.reg .rax)),
  .instr (.mov (.reg .rax) (.mem .rsi 16)),
  .instr (.mov (.mem .rdi 16) (.reg .rax)),
  .instr (.mov (.reg .rax) (.mem .rsi 24)),
  .instr (.mov (.mem .rdi 24) (.reg .rax)),
  .ret]

/-- The words of the destination go to `rcx`, and the source gets `rbx`. -/
def rawSwap : Code := [
  .instr (.mov (.reg .rax) (.mem .rsi 0)),
  .instr (.mov (.reg .rcx) (.mem .rdi 0)),
  .instr (.mov (.mem .rdi 0) (.reg .rax)),
  .instr (.mov (.mem .rsi 0) (.reg .rbx)),
  .instr (.mov (.reg .rax) (.mem .rsi 8)),
  .instr (.mov (.reg .rcx) (.mem .rdi 8)),
  .instr (.mov (.mem .rdi 8) (.reg .rax)),
  .instr (.mov (.mem .rsi 8) (.reg .rbx)),
  .instr (.mov (.reg .rax) (.mem .rsi 16)),
  .instr (.mov (.reg .rcx) (.mem .rdi 16)),
  .instr (.mov (.mem .rdi 16) (.reg .rax)),
  .instr (.mov (.mem .rsi 16) (.reg .rbx)),
  .instr (.mov (.reg .rax) (.mem .rsi 24)),
  .instr (.mov (.reg .rcx) (.mem .rdi 24)),
  .instr (.mov (.mem .rdi 24) (.reg .rax)),
  .instr (.mov (.mem .rsi 24) (.reg .rbx)),
  .ret]

def rawIsEq : Code := [
  .instr (.mov (.reg .rax) (.mem .rsi 0)),
  .instr (.arith .cmp (.mem .rdi 0) (.reg .rax)),
  .jump .nonzero .ret0,
  .instr (.mov (.reg .rax) (.mem .rsi 8)),
  .instr (.arith .cmp (.mem .rdi 8) (.reg .rax)),
  .jump .nonzero .ret0,
  .instr (.mov (.reg .rax) (.mem .rsi 16)),
  .instr (.arith .cmp (.mem .rdi 16) (.reg .rax)),
  .jump .nonzero .ret0,
  .instr (.mov (.reg .rax) (.mem .rsi 24)),
  .instr (.arith .cmp (.mem .rdi 24) (.reg .rax)),
  .jump .nonzero .ret0,
  .instr (.mov (.reg .rax) (.imm 1)),
  .ret,
  .label .ret0,
  .instr (.clear .rax),
  .ret]

end Veritas
