import Veritas.Library.LittleEndian
import Veritas.Library.Probing
import Veritas.Numbers

/-!
# The witness calculator

The program that circom generates for a circuit reads the input signals from a JSON file, runs the
circuit's code once all of them are set and writes the witness. `assert(false)` and an exception end
the program alike, with what it prints. Signals and the variables of the code are elements in
memory; the memory before the first write is arbitrary.
-/

namespace Veritas

/-! ### Circuits -/

structure HashSignalInfo where
  hash : UInt64
  signalid : ℕ
  signalsize : ℕ
deriving DecidableEq, Inhabited

inductive Cell where
  | signal (i : ℕ)
  | expaux (i : ℕ)
deriving DecidableEq

/-- A generated circuit and its `.dat` file. The code of its templates is one sequence of calls. -/
structure CircomCircuit where
  mainInputSignalStart : ℕ
  mainInputSignalNo : ℕ
  inputHashMap : List HashSignalInfo
  witness2SignalList : List ℕ
  run : List (FrCall Cell)

/-! ### `calcwit.cpp` -/

/-- A `char` is signed. -/
def fnv1a (s : List UInt8) : UInt64 :=
  s.foldl (fun hash c => (hash ^^^ c.toInt8.toInt64.toUInt64) * 0x100000001B3) 0xCBF29CE484222325

def hashOf (s : String) : UInt64 := fnv1a s.toUTF8.data.toList

@[ext]
structure CalcWit where
  signalValues : Memory Cell
  inputSignalAssigned : ℕ → Bool
  inputSignalAssignedCounter : ℕ

namespace CircomCircuit

variable (c : CircomCircuit)

def slot (pos : ℕ) : HashSignalInfo := c.inputHashMap.getD pos default

/-- The constructor `Circom_CalcWit`, in a memory. -/
def calcWit (m : Memory Cell) : CalcWit where
  signalValues := frStr2element m (.cell (.signal 0)) 1
  inputSignalAssigned _ := false
  inputSignalAssignedCounter := c.mainInputSignalNo

def getInputSignalHashPosition (h : UInt64) : Except String ℕ :=
  let n := c.inputHashMap.length
  match Probing.lookup (fun pos => (c.slot pos).hash == h) (fun pos => (c.slot pos).signalid == 0)
      n (h.toNat % n) with
  | .found pos => .ok pos
  | .vacant => .error "Signal not found\n"
  | .full => .error "Signals not found\n"

def tryRunCircuit (s : CalcWit) : CalcWit :=
  if s.inputSignalAssignedCounter = 0 then
    { s with signalValues := c.run.foldl FrCall.exec s.signalValues }
  else s

def setInputSignal (s : CalcWit) (h : UInt64) (i : ℕ) (val : FrElement) :
    Except String CalcWit := do
  if s.inputSignalAssignedCounter = 0 then throw "No more signals to be assigned\n"
  let pos ← c.getInputSignalHashPosition h
  if (c.slot pos).signalsize ≤ i then throw "Input signal array access exceeds the size\n"
  let si := (c.slot pos).signalid + i
  if s.inputSignalAssigned (si - c.mainInputSignalStart) then
    throw ("Signal assigned twice: " ++ toString si ++ "\n")
  return c.tryRunCircuit
    { signalValues := Function.update s.signalValues (.cell (.signal si)) val
      inputSignalAssigned :=
        Function.update s.inputSignalAssigned (si - c.mainInputSignalStart) true
      inputSignalAssignedCounter := s.inputSignalAssignedCounter - 1 }

def getInputSignalSize (h : UInt64) : Except String ℕ := do
  let pos ← c.getInputSignalHashPosition h
  return (c.slot pos).signalsize

end CircomCircuit

/-! ### Input values -/

/-- A JSON value. A number is the integer of the double that holds it; those with a fraction are
left out. An object has its keys in order. -/
inductive Json where
  | string (s : String)
  | number (vd : ℤ)
  | boolean (b : Bool)
  | null
  | array (vals : List Json)
  | object (fields : List (String × Json))

def checkValidNumber (s : List Char) (base : ℕ) : Bool :=
  if base = 16 then
    s.all fun c => ('0' ≤ c && c ≤ '9') || ('a' ≤ c && c ≤ 'f') || ('A' ≤ c && c ≤ 'F')
  else
    s.all fun c => '0' ≤ c && c.toNat < '0'.toNat + base

/-- The digits of a number without its prefix, and the base. -/
def splitPrefix : List Char → List Char × ℕ
  | '0' :: 'b' :: s | '0' :: 'B' :: s => (s, 2)
  | '0' :: 'o' :: s | '0' :: 'O' :: s => (s, 8)
  | '0' :: 'x' :: s | '0' :: 'X' :: s => (s, 16)
  | s => (s, 10)

def digit (c : Char) : ℕ :=
  if c ≤ '9' then c.toNat - '0'.toNat
  else if c ≤ 'F' then c.toNat - 'A'.toNat + 10
  else c.toNat - 'a'.toNat + 10

/-- What `mpz_init_set_str` makes of valid digits. Without digits it fails and leaves a zero. -/
def mpzSetStr (s : List Char) (base : ℕ) : ℕ := s.foldl (fun n c => n * base + digit c) 0

/-- The integer of a value that is not an array. -/
def jsonInteger : Json → Except String ℤ
  | .string s =>
      let (digits, base) := splitPrefix s.toList
      if checkValidNumber digits base then .ok (mpzSetStr digits base)
      else .error ("Invalid number in JSON input: " ++ s ++ "\n")
  | .number vd => .ok vd
  | _ => .error "Invalid JSON type\n"

section Elements

-- what a local element holds before it is written
variable (uninitialised : FrElement)

def str2element (mr : ℤ) : FrElement :=
  frStr2element (fun _ : Place Cell => uninitialised) .stack mr .stack

mutual

def json2FrElements : Json → Except String (List FrElement)
  | .array vals => jsonElements vals
  | .string s => do return [str2element uninitialised (← jsonInteger (.string s))]
  | .number vd => do return [str2element uninitialised (← jsonInteger (.number vd))]
  | .boolean b => do return [str2element uninitialised (← jsonInteger (.boolean b))]
  | .null => do return [str2element uninitialised (← jsonInteger .null)]
  | .object fields => do return [str2element uninitialised (← jsonInteger (.object fields))]

def jsonElements : List Json → Except String (List FrElement)
  | [] => .ok []
  | val :: vals => do return (← json2FrElements val) ++ (← jsonElements vals)

end

end Elements

/-! ### Qualified names -/

inductive JsonType where
  | numberInteger
  | boolean
  | null
  | object
deriving DecidableEq

mutual

def checkType (key : String) : Json → Except String JsonType
  | .string _ | .number _ => .ok .numberInteger
  | .boolean _ => .ok .boolean
  | .null => .ok .null
  | .object _ => .ok .object
  | .array [] => .ok .null
  | .array (val :: vals) => do
      let t ← checkType key val
      checkTypes key t vals
      return t

def checkTypes (key : String) (t : JsonType) : List Json → Except String Unit
  | [] => .ok ()
  | val :: vals => do
      let u ← checkType key val
      if t ≠ u then throw ("Types are not the same in the key " ++ key ++ "\n")
      checkTypes key t vals

end

/-- `j[key] = val`, with the keys in order. -/
def setKey (j : List (String × Json)) (key : String) (val : Json) : List (String × Json) :=
  match j with
  | [] => [(key, val)]
  | (k, v) :: rest =>
      if key < k then (key, val) :: (k, v) :: rest
      else if key = k then (key, val) :: rest
      else (k, v) :: setKey rest key val

mutual

def qualifyInput (key : String) (val : Json) (j : List (String × Json)) :
    Except String (List (String × Json)) :=
  match val with
  | .array [] => .ok (setKey j key (.array []))
  | .array (val :: vals) => do
      let t ← checkType key (.array (val :: vals))
      if t = .object then qualifyInputList key 0 (val :: vals) j
      else return setKey j key (.array (val :: vals))
  | .object fields => qualifyFields key fields j
  | .string s => .ok (setKey j key (.string s))
  | .number vd => .ok (setKey j key (.number vd))
  | .boolean b => .ok (setKey j key (.boolean b))
  | .null => .ok (setKey j key .null)

def qualifyFields (key : String) (fields : List (String × Json)) (j : List (String × Json)) :
    Except String (List (String × Json)) :=
  match fields with
  | [] => .ok j
  | (k, val) :: fields => do
      let j ← qualifyInput (if key.length = 0 then k else key ++ "." ++ k) val j
      qualifyFields key fields j

/-- The elements of an array from an index on. -/
def qualifyInputList (key : String) (i : ℕ) (vals : List Json) (j : List (String × Json)) :
    Except String (List (String × Json)) :=
  match vals with
  | [] => .ok j
  | .array inner :: vals => do
      let j ← qualifyInputList (key ++ "[" ++ toString i ++ "]") 0 inner j
      qualifyInputList key (i + 1) vals j
  | val :: vals => do
      let j ← qualifyInput (key ++ "[" ++ toString i ++ "]") val j
      qualifyInputList key (i + 1) vals j

end

/-! ### `main.cpp` -/

/-- `fwrite` of four words. -/
def wordBytes (x : Limbs) : List UInt8 :=
  LittleEndian.encode 8 x.l0.toNat ++ LittleEndian.encode 8 x.l1.toNat ++
    LittleEndian.encode 8 x.l2.toNat ++ LittleEndian.encode 8 x.l3.toNat

/-- The words of a signal that the file takes; the copy is on the stack. -/
def witnessWords (m : Memory Cell) (signal : ℕ) : Limbs :=
  (frToLongNormal (frCopy m .stack (.cell (.signal signal))) .stack .stack .stack).longVal

namespace CircomCircuit

variable (c : CircomCircuit) (uninitialised : FrElement)

/-- A turn of the loop over the items. -/
def loadItem (s : CalcWit) (item : String × Json) : Except String CalcWit := do
  let h := hashOf item.1
  let v ← json2FrElements uninitialised item.2
  let signalSize ← c.getInputSignalSize h
  if v.length < signalSize then
    throw ("Error loading signal " ++ item.1 ++ ": Not enough values\n")
  if signalSize < v.length then
    throw ("Error loading signal " ++ item.1 ++ ": Too many values\n")
  v.zipIdx.foldlM (fun s x => c.setInputSignal s h x.2 x.1) s

def loadJson (s : CalcWit) (jin : Json) : Except String CalcWit := do
  let j ← qualifyInput "" jin []
  j.foldlM (c.loadItem uninitialised) (if j.length = 0 then c.tryRunCircuit s else s)

def wtnsHeader : List UInt8 :=
  let n8 := 32
  let nwtns := c.witness2SignalList.length
  "wtns".toUTF8.data.toList ++ LittleEndian.encode 4 2 ++ LittleEndian.encode 4 2 ++
    LittleEndian.encode 4 1 ++ LittleEndian.encode 8 (8 + n8) ++ LittleEndian.encode 4 n8 ++
    wordBytes (limbsAt (static .q)) ++ LittleEndian.encode 4 nwtns ++ LittleEndian.encode 4 2 ++
    LittleEndian.encode 8 (n8 * nwtns)

def writeBinWitness (m : Memory Cell) : List UInt8 :=
  c.wtnsHeader ++ c.witness2SignalList.flatMap fun signal => wordBytes (witnessWords m signal)

/-- `main`, in a memory. -/
def calculate (m : Memory Cell) (jin : Json) : Except String (List UInt8) := do
  let s ← c.loadJson uninitialised (c.calcWit m) jin
  if s.inputSignalAssignedCounter ≠ 0 then
    throw ("Not all inputs have been set. Only " ++
      toString (c.mainInputSignalNo - s.inputSignalAssignedCounter) ++ " out of " ++
      toString c.mainInputSignalNo ++ "\n")
  return c.writeBinWitness s.signalValues

end CircomCircuit

/-! ### The preimage circuit -/

/-- `preimage.cpp` with `preimage.dat`. -/
def preimage : CircomCircuit where
  mainInputSignalStart := 2
  mainInputSignalNo := 1
  inputHashMap :=
    List.replicate 7 ⟨0, 0, 0⟩ ++ ⟨0xaf63f54c86021707, 2, 1⟩ :: List.replicate 248 ⟨0, 0, 0⟩
  witness2SignalList := [0, 1, 2]
  run := [.mul (.expaux 0) (.signal 2) (.signal 2), .copy (.signal 1) (.expaux 0)]

end Veritas
