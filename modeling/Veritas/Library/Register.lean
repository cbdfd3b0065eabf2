import Veritas.Library.Machine

/-!
# Registers

A register is a part of a machine's state that a step either overwrites with a value its input
carries, or leaves alone. While the invariant that says which inputs may write holds, a register
contains the latest value written, and inputs that do not write it may be left out of the run.
-/

namespace Machine

variable {State Input Output Value : Type*}

/-- The value the last writing input carries. -/
def latest (write : Input → Option Value) (inputs : List Input) : Option Value :=
  (inputs.filterMap write).getLast?

structure Register (step : State → Input → State × Output) (invariant : State → Prop)
    (write : Input → Option Value) (read : State → Option Value) : Prop where
  keeps {state : State} {input : Input} : invariant state → invariant (step state input).1
  read_step {state : State} {input : Input} :
    invariant state → read (step state input).1 = (write input).or (read state)

variable {step : State → Input → State × Output} {invariant : State → Prop}
  {write : Input → Option Value} {read : State → Option Value}

theorem latest_concat (inputs : List Input) (input : Input) :
    latest write (inputs ++ [input]) = (write input).or (latest write inputs) := by
  rw [latest, List.filterMap_append, List.getLast?_append]
  cases hwrite : write input with
  | none => rw [List.filterMap_cons_none hwrite]; rfl
  | some value => rw [List.filterMap_cons_some hwrite]; rfl

/-- Inputs that do not write are irrelevant. -/
theorem latest_filter {keep : Input → Bool} {inputs : List Input}
    (h : ∀ input ∈ inputs, keep input = false → write input = none) :
    latest write (inputs.filter keep) = latest write inputs := by
  rw [latest, latest, List.filterMap_filter]
  congr 1
  apply List.filterMap_congr
  intro input hinput
  cases hkeep : keep input with
  | true => rfl
  | false => exact (h input hinput hkeep).symm

namespace Register

theorem invariant_exec (register : Register step invariant write read) {state : State}
    (hstate : invariant state) (inputs : List Input) : invariant (exec step state inputs) := by
  apply exec_invariant step hstate
  intro state input _ hinvariant
  exact register.keeps hinvariant

/-- **A register holds the latest value written to it.** -/
theorem read_exec (register : Register step invariant write read) {state : State}
    (hstate : invariant state) (inputs : List Input) :
    read (exec step state inputs) = (latest write inputs).or (read state) := by
  induction inputs using List.reverseRecOn with
  | nil => rfl
  | append_singleton inputs input ih =>
      calc
        read (exec step state (inputs ++ [input]))
            = (write input).or (read (exec step state inputs)) := by
          rw [exec_concat]
          exact register.read_step (register.invariant_exec hstate inputs)
        _ = (write input).or ((latest write inputs).or (read state)) := by
          rw [ih]
        _ = (latest write (inputs ++ [input])).or (read state) := by
          rw [latest_concat, Option.or_assoc]

/-- What a register holds does not depend on the inputs that do not write it. -/
theorem read_exec_filter (register : Register step invariant write read) {state : State}
    (hstate : invariant state) {keep : Input → Bool} {inputs : List Input}
    (h : ∀ input ∈ inputs, keep input = false → write input = none) :
    read (exec step state (inputs.filter keep)) = read (exec step state inputs) := by
  rw [register.read_exec hstate, register.read_exec hstate, latest_filter h]

end Register

end Machine
