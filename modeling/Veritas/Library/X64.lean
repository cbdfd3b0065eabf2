import Mathlib.Data.Nat.Basic
import Mathlib.Logic.Function.Basic
import Mathlib.Tactic.NormNum

/-!
# Straight-line x86-64 code with forward jumps

A fragment of the instruction set that multi-word arithmetic is written in, with registers, flags
and memory. A register that holds an address points to a block; two registers may point to the same
one, but not into it at different offsets. A jump goes forward to a label, so running a program is a
recursion over its text.

The rules after the semantics execute one instruction of a program each. They name the result and
say how its value relates to the operands, which is all that arithmetic on words needs.
-/

namespace X64

inductive Reg where
  | rax | rbx | rcx | rdx | rsi | rdi | r8 | r9 | r10 | r11 | r12 | r13 | r14 | r15
deriving DecidableEq

/-- The low byte of a register and the one above it, where code uses them as variables. -/
inductive ByteReg where
  | dl | dh
deriving DecidableEq

structure State (Block : Type) where
  reg : Reg → UInt64
  byte : ByteReg → UInt8
  /-- The block that the address in a register points to. -/
  ptr : Reg → Block
  /-- The word at a byte offset in a block. -/
  mem : Block → ℕ → UInt64
  cf : Bool
  of : Bool
  zf : Bool
  sf : Bool

inductive Operand (Datum : Type) where
  | imm (value : UInt64)
  | reg (r : Reg)
  | mem (base : Reg) (offset : ℕ)
  | data (datum : Datum) (offset : ℕ)

inductive Dest where
  | reg (r : Reg)
  | mem (base : Reg) (offset : ℕ)

/-- The arithmetic that sets all flags; `cmp` subtracts and keeps its operand. -/
inductive Arith where
  | add | adc | sub | sbb | cmp
deriving DecidableEq

inductive Instr (Datum : Type) where
  | mov (dst : Dest) (src : Operand Datum)
  | mulx (high low : Reg) (src : Operand Datum)
  | adcx (dst : Reg) (src : Operand Datum)
  | adox (dst : Reg) (src : Operand Datum)
  | arith (op : Arith) (dst : Dest) (src : Operand Datum)
  /-- `xor r,r`. -/
  | clear (r : Reg)
  | setc (dst : ByteReg)
  | or (dst src : ByteReg)

inductive Cond where
  | carry | noCarry | zero | nonzero | sign

inductive Line (Datum Label : Type) where
  | instr (i : Instr Datum)
  | label (l : Label)
  | jump (c : Cond) (l : Label)
  | ret

/-! ### Words -/

def sum (x y : UInt64) (c : Bool) : UInt64 := UInt64.ofNat (x.toNat + y.toNat + c.toNat)

def carry (x y : UInt64) (c : Bool) : Bool := decide (2 ^ 64 ≤ x.toNat + y.toNat + c.toNat)

def diff (x y : UInt64) (b : Bool) : UInt64 :=
  UInt64.ofNat (x.toNat + 2 ^ 64 - (y.toNat + b.toNat))

def borrow (x y : UInt64) (b : Bool) : Bool := decide (x.toNat < y.toNat + b.toNat)

def mulLow (x y : UInt64) : UInt64 := UInt64.ofNat (x.toNat * y.toNat)

def mulHigh (x y : UInt64) : UInt64 := UInt64.ofNat (x.toNat * y.toNat / 2 ^ 64)

def negative (x : UInt64) : Bool := x.toBitVec.msb

/-- A word as a two's complement number. -/
def signed (x : UInt64) : ℤ := x.toInt64.toInt

/-- The result of a signed operation does not fit. -/
def overflow (value : ℤ) : Bool := !decide (-2 ^ 63 ≤ value ∧ value < 2 ^ 63)

theorem sum_add_carry (x y : UInt64) (c : Bool) :
    (sum x y c).toNat + 2 ^ 64 * (carry x y c).toNat = x.toNat + y.toNat + c.toNat := by
  have hx := x.toNat_lt
  have hy := y.toNat_lt
  have hc := c.toNat_le
  rw [sum, carry, UInt64.toNat_ofNat']
  by_cases h : 2 ^ 64 ≤ x.toNat + y.toNat + c.toNat
  · rw [decide_eq_true h, Bool.toNat_true]
    omega
  · rw [decide_eq_false h, Bool.toNat_false]
    omega

theorem diff_add (x y : UInt64) (b : Bool) :
    (diff x y b).toNat + y.toNat + b.toNat = x.toNat + 2 ^ 64 * (borrow x y b).toNat := by
  have hx := x.toNat_lt
  have hy := y.toNat_lt
  have hb := b.toNat_le
  rw [diff, borrow, UInt64.toNat_ofNat']
  by_cases h : x.toNat < y.toNat + b.toNat
  · rw [decide_eq_true h, Bool.toNat_true]
    omega
  · rw [decide_eq_false h, Bool.toNat_false]
    omega

theorem mulLow_add_mulHigh (x y : UInt64) :
    (mulLow x y).toNat + 2 ^ 64 * (mulHigh x y).toNat = x.toNat * y.toNat := by
  have hhigh : x.toNat * y.toNat / 2 ^ 64 < 2 ^ 64 := by
    rw [Nat.div_lt_iff_lt_mul (by norm_num)]
    exact Nat.mul_lt_mul'' x.toNat_lt y.toNat_lt
  rw [mulLow, mulHigh, UInt64.toNat_ofNat', UInt64.toNat_ofNat', Nat.mod_eq_of_lt hhigh]
  exact Nat.mod_add_div _ _

theorem negative_eq_true {x : UInt64} : negative x = true ↔ 2 ^ 63 ≤ x.toNat := by
  rw [negative, BitVec.msb_eq_decide, decide_eq_true_eq]
  rfl

theorem negative_eq_false {x : UInt64} : negative x = false ↔ x.toNat < 2 ^ 63 := by
  rw [← Bool.not_eq_true, negative_eq_true, Nat.not_le]

theorem signed_eq (x : UInt64) : signed x = x.toNat - 2 ^ 64 * ((negative x).toNat : ℤ) := by
  have hbits : signed x = x.toBitVec.toInt := rfl
  have hnat : x.toBitVec.toNat = x.toNat := rfl
  rw [hbits, BitVec.toInt_eq_toNat_cond, hnat]
  cases h : negative x with
  | true =>
      have hlow := negative_eq_true.mp h
      rw [Bool.toNat_true, if_neg (by omega)]
      rfl
  | false =>
      have hlow := negative_eq_false.mp h
      rw [Bool.toNat_false, if_pos (by omega)]
      simp

theorem diff_zero (x : UInt64) : diff x 0 false = x := by
  have hx := x.toNat_lt
  rw [← UInt64.toNat_inj, diff, UInt64.toNat_ofNat', UInt64.toNat_zero, Bool.toNat_false]
  omega

/-! ### Semantics -/

section Semantics

variable {Datum Label Block : Type}

namespace State

@[simp]
def setReg (s : State Block) (r : Reg) (value : UInt64) : State Block :=
  { s with reg := Function.update s.reg r value }

@[simp]
def setByte (s : State Block) (b : ByteReg) (value : UInt8) : State Block :=
  { s with byte := Function.update s.byte b value }

@[simp]
def setPtr (s : State Block) (r : Reg) (block : Block) : State Block :=
  { s with ptr := Function.update s.ptr r block }

@[simp]
def setFlags (s : State Block) (cf of zf sf : Bool) : State Block :=
  { s with cf := cf, of := of, zf := zf, sf := sf }

variable [DecidableEq Block]

@[simp]
def store (s : State Block) (base : Reg) (offset : ℕ) (value : UInt64) : State Block :=
  { s with mem := fun b o => if b = s.ptr base ∧ o = offset then value else s.mem b o }

@[simp]
def write (s : State Block) : Dest → UInt64 → State Block
  | .reg r, value => s.setReg r value
  | .mem base offset, value => s.store base offset value

omit [DecidableEq Block] in
@[simp]
def load (s : State Block) : Dest → UInt64
  | .reg r => s.reg r
  | .mem base offset => s.mem (s.ptr base) offset

end State

def Arith.result (op : Arith) (x y : UInt64) (cf : Bool) : UInt64 :=
  match op with
  | add => sum x y false
  | adc => sum x y cf
  | sub => diff x y false
  | sbb => diff x y cf
  | cmp => diff x y false

def Arith.carry (op : Arith) (x y : UInt64) (cf : Bool) : Bool :=
  match op with
  | add => X64.carry x y false
  | adc => X64.carry x y cf
  | sub => borrow x y false
  | sbb => borrow x y cf
  | cmp => borrow x y false

def Arith.overflow (op : Arith) (x y : UInt64) (cf : Bool) : Bool :=
  match op with
  | add => X64.overflow (signed x + signed y)
  | adc => X64.overflow (signed x + signed y + cf.toNat)
  | sub => X64.overflow (signed x - signed y)
  | sbb => X64.overflow (signed x - signed y - cf.toNat)
  | cmp => X64.overflow (signed x - signed y)

@[simp]
def Cond.holds (s : State Block) : Cond → Bool
  | carry => s.cf
  | noCarry => !s.cf
  | zero => s.zf
  | nonzero => !s.zf
  | sign => s.sf

variable (static : Datum → ℕ → UInt64)

@[simp]
def Operand.read (s : State Block) : Operand Datum → UInt64
  | imm value => value
  | reg r => s.reg r
  | mem base offset => s.mem (s.ptr base) offset
  | data datum offset => static datum offset

variable [DecidableEq Block]

/-- Moving an address moves what it points to. -/
@[simp]
def move (s : State Block) (dst : Dest) (src : Operand Datum) : State Block :=
  match dst, src with
  | .reg r, .reg r' => (s.setReg r (s.reg r')).setPtr r (s.ptr r')
  | dst, src => s.write dst (src.read static s)

def Instr.exec (s : State Block) : Instr Datum → State Block
  | mov dst src => move static s dst src
  | mulx high low src =>
      (s.setReg low (mulLow (s.reg .rdx) (src.read static s))).setReg high
        (mulHigh (s.reg .rdx) (src.read static s))
  | adcx dst src =>
      { s.setReg dst (sum (s.reg dst) (src.read static s) s.cf) with
        cf := X64.carry (s.reg dst) (src.read static s) s.cf }
  | adox dst src =>
      { s.setReg dst (sum (s.reg dst) (src.read static s) s.of) with
        of := X64.carry (s.reg dst) (src.read static s) s.of }
  | arith op dst src =>
      let x := s.load dst
      let y := src.read static s
      let v := op.result x y s.cf
      (if op = .cmp then s else s.write dst v).setFlags (op.carry x y s.cf)
        (op.overflow x y s.cf) (v == 0) (negative v)
  | clear r => (s.setReg r 0).setFlags false false true false
  | setc dst => s.setByte dst (if s.cf then 1 else 0)
  | or dst src =>
      let v := s.byte dst ||| s.byte src
      (s.setByte dst v).setFlags false false (v == 0) (decide (2 ^ 7 ≤ v.toNat))

variable [DecidableEq Label]

/-- Run a program; while it is looking for a label it skips lines. -/
def run : List (Line Datum Label) → Option Label → State Block → State Block
  | [], _, s => s
  | .label l :: rest, some target, s => run rest (if l = target then none else some target) s
  | _ :: rest, some target, s => run rest (some target) s
  | .instr i :: rest, none, s => run rest none (i.exec static s)
  | .label _ :: rest, none, s => run rest none s
  | .jump c l :: rest, none, s => run rest (if c.holds s then some l else none) s
  | .ret :: _, none, s => s

/-- The text after a label. -/
def seek (target : Label) : List (Line Datum Label) → List (Line Datum Label)
  | [] => []
  | .label l :: rest => if l = target then rest else seek target rest
  | _ :: rest => seek target rest

theorem run_seek (target : Label) (code : List (Line Datum Label)) (s : State Block) :
    run static code (some target) s = run static (seek target code) none s := by
  induction code with
  | nil => rfl
  | cons line rest ih =>
      cases line with
      | label l =>
          rw [run, seek]
          split_ifs
          · rfl
          · exact ih
      | instr | jump | ret => exact ih

end Semantics

/-! ### Rules -/

section Rules

variable {Datum Label Block : Type} [DecidableEq Label] [DecidableEq Block]

/-- The program leads from the state to one that satisfies the postcondition. -/
def Leads (static : Datum → ℕ → UInt64) (code : List (Line Datum Label)) (s : State Block)
    (post : State Block → Prop) : Prop :=
  post (run static code none s)

variable {static : Datum → ℕ → UInt64} {rest : List (Line Datum Label)} {s : State Block}
  {post : State Block → Prop}

namespace Leads

theorem done (h : post s) : Leads static ([] : List (Line Datum Label)) s post := h

theorem ret (h : post s) : Leads static (.ret :: rest) s post := h

theorem label {l : Label} (h : Leads static rest s post) :
    Leads static (.label l :: rest) s post := h

theorem jump {c : Cond} {target : Label}
    (htaken : c.holds s = true → Leads static (seek target rest) s post)
    (hnot : c.holds s = false → Leads static rest s post) :
    Leads static (.jump c target :: rest) s post := by
  unfold Leads at *
  rw [run]
  cases h : c.holds s with
  | true =>
      rw [if_pos rfl, run_seek]
      exact htaken h
  | false => exact hnot h

theorem mono {code : List (Line Datum Label)} {weaker : State Block → Prop}
    (h : Leads static code s post) (hpost : ∀ s, post s → weaker s) : Leads static code s weaker :=
  hpost _ h

theorem mov {dst : Dest} {src : Operand Datum} (h : Leads static rest (move static s dst src) post) :
    Leads static (.instr (.mov dst src) :: rest) s post := h

theorem clear {r : Reg}
    (h : Leads static rest ((s.setReg r 0).setFlags false false true false) post) :
    Leads static (.instr (.clear r) :: rest) s post := h

theorem mulx {high low : Reg} {src : Operand Datum}
    (h : ∀ vhigh vlow : UInt64,
      vlow.toNat + 2 ^ 64 * vhigh.toNat = (s.reg .rdx).toNat * (src.read static s).toNat →
      Leads static rest ((s.setReg low vlow).setReg high vhigh) post) :
    Leads static (.instr (.mulx high low src) :: rest) s post :=
  h _ _ (mulLow_add_mulHigh ..)

theorem adcx {dst : Reg} {src : Operand Datum}
    (h : ∀ (v : UInt64) (c : Bool),
      v.toNat + 2 ^ 64 * c.toNat = (s.reg dst).toNat + (src.read static s).toNat + s.cf.toNat →
      Leads static rest { s.setReg dst v with cf := c } post) :
    Leads static (.instr (.adcx dst src) :: rest) s post :=
  h _ _ (sum_add_carry ..)

theorem adox {dst : Reg} {src : Operand Datum}
    (h : ∀ (v : UInt64) (c : Bool),
      v.toNat + 2 ^ 64 * c.toNat = (s.reg dst).toNat + (src.read static s).toNat + s.of.toNat →
      Leads static rest { s.setReg dst v with of := c } post) :
    Leads static (.instr (.adox dst src) :: rest) s post :=
  h _ _ (sum_add_carry ..)

section Arith

variable {dst : Dest} {src : Operand Datum}

theorem add
    (h : ∀ (v : UInt64) (c o z n : Bool),
      v.toNat + 2 ^ 64 * c.toNat = (s.load dst).toNat + (src.read static s).toNat →
      Leads static rest ((s.write dst v).setFlags c o z n) post) :
    Leads static (.instr (.arith .add dst src) :: rest) s post :=
  h _ _ _ _ _ (sum_add_carry _ _ false)

theorem adc
    (h : ∀ (v : UInt64) (c o z n : Bool),
      v.toNat + 2 ^ 64 * c.toNat
        = (s.load dst).toNat + (src.read static s).toNat + s.cf.toNat →
      Leads static rest ((s.write dst v).setFlags c o z n) post) :
    Leads static (.instr (.arith .adc dst src) :: rest) s post :=
  h _ _ _ _ _ (sum_add_carry ..)

theorem sub
    (h : ∀ (v : UInt64) (b o z n : Bool),
      v.toNat + (src.read static s).toNat = (s.load dst).toNat + 2 ^ 64 * b.toNat →
      Leads static rest ((s.write dst v).setFlags b o z n) post) :
    Leads static (.instr (.arith .sub dst src) :: rest) s post :=
  h _ _ _ _ _ (diff_add _ _ false)

theorem sbb
    (h : ∀ (v : UInt64) (b o z n : Bool),
      v.toNat + (src.read static s).toNat + s.cf.toNat
        = (s.load dst).toNat + 2 ^ 64 * b.toNat →
      Leads static rest ((s.write dst v).setFlags b o z n) post) :
    Leads static (.instr (.arith .sbb dst src) :: rest) s post :=
  h _ _ _ _ _ (diff_add ..)

theorem cmp
    (h : ∀ o : Bool, Leads static rest
      (s.setFlags (decide ((s.load dst).toNat < (src.read static s).toNat)) o
        (decide ((s.load dst).toNat = (src.read static s).toNat))
        (negative (diff (s.load dst) (src.read static s) false))) post) :
    Leads static (.instr (.arith .cmp dst src) :: rest) s post := by
  have hzero : (diff (s.load dst) (src.read static s) false == 0)
      = decide ((s.load dst).toNat = (src.read static s).toNat) := by
    have hx := (s.load dst).toNat_lt
    have hy := (src.read static s).toNat_lt
    rw [beq_eq_decide, decide_eq_decide, ← UInt64.toNat_inj, diff, UInt64.toNat_ofNat',
      Bool.toNat_false, UInt64.toNat_zero]
    omega
  have hrun := h (Arith.overflow .cmp (s.load dst) (src.read static s) s.cf)
  rw [← hzero] at hrun
  exact hrun

end Arith

/-- The three outcomes of a comparison that branches on below and on unequal. -/
theorem threeWay {dst : Dest} {src : Operand Datum} {below above : Label}
    (hless : (s.load dst).toNat < (src.read static s).toNat → ∀ c o z n : Bool,
      Leads static (seek below (.jump .nonzero above :: rest)) (s.setFlags c o z n) post)
    (hgreater : (src.read static s).toNat < (s.load dst).toNat → ∀ c o z n : Bool,
      Leads static (seek above rest) (s.setFlags c o z n) post)
    (hequal : (s.load dst).toNat = (src.read static s).toNat → ∀ c o z n : Bool,
      Leads static rest (s.setFlags c o z n) post) :
    Leads static
      (.instr (.arith .cmp dst src) :: .jump .carry below :: .jump .nonzero above :: rest) s
      post := by
  refine .cmp fun o => .jump (fun h => ?_) fun h => .jump (fun hne => ?_) fun heq => ?_
  · exact hless (of_decide_eq_true h) _ _ _ _
  · have hge : ¬ (s.load dst).toNat < (src.read static s).toNat := of_decide_eq_false h
    have hdiff : (s.load dst).toNat ≠ (src.read static s).toNat := by
      simpa only [Cond.holds, State.setFlags, Bool.not_eq_true', decide_eq_false_iff_not] using hne
    exact hgreater (by omega) _ _ _ _
  · have hsame : (s.load dst).toNat = (src.read static s).toNat := by
      simpa only [Cond.holds, State.setFlags, Bool.not_eq_false', decide_eq_true_eq] using heq
    exact hequal hsame _ _ _ _

/-- The two outcomes of a comparison with zero that branches on the sign. -/
theorem signTest {dst : Dest} {target : Label}
    (hnegative : negative (s.load dst) = true → ∀ c o z n : Bool,
      Leads static (seek target rest) (s.setFlags c o z n) post)
    (hpositive : negative (s.load dst) = false → ∀ c o z n : Bool,
      Leads static rest (s.setFlags c o z n) post) :
    Leads static (.instr (.arith .cmp dst (.imm 0)) :: .jump .sign target :: rest) s post := by
  refine .cmp fun o => .jump (fun h => hnegative ?_ _ _ _ _) fun h => hpositive ?_ _ _ _ _
  · rw [← diff_zero (s.load dst)]
    exact h
  · rw [← diff_zero (s.load dst)]
    exact h

theorem setc {dst : ByteReg}
    (h : Leads static rest (s.setByte dst (if s.cf then 1 else 0)) post) :
    Leads static (.instr (.setc dst) :: rest) s post := h

theorem or {dst src : ByteReg}
    (h : ∀ n : Bool, Leads static rest
      ((s.setByte dst (s.byte dst ||| s.byte src)).setFlags false false
        ((s.byte dst ||| s.byte src) == 0) n) post) :
    Leads static (.instr (.or dst src) :: rest) s post := h _

end Leads

/-! ### Straight-line pieces -/

def Line.isInstr : Line Datum Label → Bool
  | .instr _ => true
  | _ => false

theorem Leads.append {first second : List (Line Datum Label)}
    (hfirst : first.all Line.isInstr = true)
    (h : Leads static first s fun s => Leads static second s post) :
    Leads static (first ++ second) s post := by
  induction first generalizing s with
  | nil => exact h
  | cons line first ih =>
      rw [List.all_cons, Bool.and_eq_true] at hfirst
      cases line with
      | instr i => exact ih hfirst.2 h
      | label | jump | ret => cases hfirst.1

/-! ### Frame -/

/-- The instruction writes memory only through `base`, and leaves `base` where it points. -/
def Instr.writesThrough (base : Reg) : Instr Datum → Bool
  | mov (.reg r) _ => r != base
  | mov (.mem r _) _ => r == base
  | arith op (.mem r _) _ => op == .cmp || r == base
  | _ => true

def Line.writesThrough (base : Reg) : Line Datum Label → Bool
  | .instr i => i.writesThrough base
  | _ => true

/-- The blocks that `base` does not point to are the same in both states. -/
def State.Frame (base : Reg) (s s' : State Block) : Prop :=
  s'.ptr base = s.ptr base ∧ ∀ b, b ≠ s.ptr base → s'.mem b = s.mem b

theorem State.store_frame (base : Reg) (s : State Block) (offset : ℕ) (value : UInt64) :
    s.Frame base (s.store base offset value) := by
  refine ⟨rfl, fun b hb => ?_⟩
  funext o
  exact if_neg fun h => hb h.1

theorem Instr.exec_frame (static : Datum → ℕ → UInt64) {base : Reg} {i : Instr Datum}
    (h : i.writesThrough base = true) (s : State Block) : s.Frame base (i.exec static s) := by
  cases i with
  | mov dst src =>
      cases dst with
      | reg r =>
          have hr : base ≠ r := by simpa only [writesThrough, bne_iff_ne, ne_comm] using h
          cases src with
          | reg r' => exact ⟨Function.update_of_ne hr _ _, fun _ _ => rfl⟩
          | imm | mem | data => exact ⟨rfl, fun _ _ => rfl⟩
      | mem r offset =>
          obtain rfl : r = base := by simpa only [writesThrough, beq_iff_eq] using h
          cases src <;> exact s.store_frame r _ _
  | arith op dst src =>
      cases dst with
      | reg r => cases op <;> exact ⟨rfl, fun _ _ => rfl⟩
      | mem r offset =>
          cases op with
          | cmp => exact ⟨rfl, fun _ _ => rfl⟩
          | add | adc | sub | sbb =>
              obtain rfl : r = base := by simpa [writesThrough] using h
              exact s.store_frame r _ _
  | mulx | adcx | adox | clear | setc | or => exact ⟨rfl, fun _ _ => rfl⟩

/-- **Code that writes through one register leaves the other blocks as they are.** -/
theorem run_frame (static : Datum → ℕ → UInt64) {base : Reg} {code : List (Line Datum Label)}
    (h : code.all (Line.writesThrough base) = true) (target : Option Label) (s : State Block) :
    s.Frame base (run static code target s) := by
  induction code generalizing target s with
  | nil => cases target <;> exact ⟨rfl, fun _ _ => rfl⟩
  | cons line rest ih =>
      rw [List.all_cons, Bool.and_eq_true] at h
      cases target with
      | some l => cases line <;> exact ih h.2 _ s
      | none =>
          cases line with
          | instr i =>
              obtain ⟨hptr, hmem⟩ := i.exec_frame static h.1 s
              obtain ⟨hptr', hmem'⟩ := ih h.2 none (i.exec static s)
              refine ⟨hptr'.trans hptr, fun b hb => ?_⟩
              exact (hmem' b (by rwa [hptr])).trans (hmem b hb)
          | label | jump => exact ih h.2 _ s
          | ret => exact ⟨rfl, fun _ _ => rfl⟩

end Rules

end X64
