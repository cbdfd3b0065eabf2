import Mathlib.Data.List.Induction
import Mathlib.Data.List.Nodup
import Mathlib.Data.Set.Insert

/-!
# Deterministic machines with outputs

A machine takes inputs one at a time, and answers each with an output. Its history lists, for every
step taken, the state before it, the input and the output. Safety properties of whole runs are
invariants that relate the history to the state it led to, and one step extends the history at its
end.

Single-use tokens are the pattern behind replay protection: a step may use up a token, which it may
do only while the state does not have it marked as spent. Then the marks are exactly the tokens
used, and no token was used twice.
-/

namespace Machine

variable {State Input Output Token : Type*}

structure Record (State Input Output : Type*) where
  pre : State
  input : Input
  output : Output

section Run

variable (step : State → Input → State × Output)

def exec (state : State) (inputs : List Input) : State :=
  inputs.foldl (fun state input => (step state input).1) state

def record (state : State) (input : Input) : Record State Input Output :=
  ⟨state, input, (step state input).2⟩

def history (state : State) : List Input → List (Record State Input Output)
  | [] => []
  | input :: inputs => record step state input :: history (step state input).1 inputs

@[simp]
theorem record_pre (state : State) (input : Input) : (record step state input).pre = state := rfl

@[simp]
theorem record_output (state : State) (input : Input) :
    (record step state input).output = (step state input).2 := rfl

@[simp]
theorem exec_nil (state : State) : exec step state [] = state := rfl

@[simp]
theorem exec_cons (state : State) (input : Input) (inputs : List Input) :
    exec step state (input :: inputs) = exec step (step state input).1 inputs := rfl

theorem exec_concat (state : State) (inputs : List Input) (input : Input) :
    exec step state (inputs ++ [input]) = (step (exec step state inputs) input).1 := by
  rw [exec, List.foldl_append]
  rfl

theorem exec_append (state : State) (first second : List Input) :
    exec step state (first ++ second) = exec step (exec step state first) second := by
  rw [exec, List.foldl_append]
  rfl

@[simp]
theorem history_nil (state : State) : history step state [] = [] := rfl

@[simp]
theorem history_cons (state : State) (input : Input) (inputs : List Input) :
    history step state (input :: inputs)
      = record step state input :: history step (step state input).1 inputs := rfl

theorem history_append (state : State) (first second : List Input) :
    history step state (first ++ second)
      = history step state first ++ history step (exec step state first) second := by
  induction first generalizing state with
  | nil => rfl
  | cons input first ih =>
      calc
        history step state (input :: first ++ second)
            = record step state input :: history step (step state input).1 (first ++ second) := by
          rw [List.cons_append, history_cons]
        _ = record step state input :: (history step (step state input).1 first
              ++ history step (exec step (step state input).1 first) second) := by
          rw [ih]
        _ = history step state (input :: first)
              ++ history step (exec step state (input :: first)) second := by
          rw [history_cons, exec_cons, List.cons_append]

/-- **The invariant rule.** What relates the empty history to the initial state, and survives every
step, relates each history to the state it led to. -/
theorem run_invariant {initial : State}
    (invariant : List (Record State Input Output) → State → Prop)
    (hinitial : invariant [] initial)
    (hstep : ∀ past state input, invariant past state →
      invariant (past ++ [record step state input]) (step state input).1)
    (inputs : List Input) :
    invariant (history step initial inputs) (exec step initial inputs) := by
  induction inputs using List.reverseRecOn with
  | nil => exact hinitial
  | append_singleton inputs input ih =>
      rw [history_append, exec_append]
      exact hstep _ _ input ih

theorem exec_invariant {invariant : State → Prop} {initial : State} {inputs : List Input}
    (hinitial : invariant initial)
    (hstep : ∀ state, ∀ input ∈ inputs, invariant state → invariant (step state input).1) :
    invariant (exec step initial inputs) := by
  induction inputs generalizing initial with
  | nil => exact hinitial
  | cons input inputs ih =>
      apply ih
      · exact hstep initial input List.mem_cons_self hinitial
      · intro state other hother
        exact hstep state other (List.mem_cons_of_mem input hother)

theorem mem_history {initial : State} {inputs : List Input} {r : Record State Input Output}
    (h : r ∈ history step initial inputs) :
    ∃ before after, inputs = before ++ r.input :: after ∧
      r = record step (exec step initial before) r.input := by
  induction inputs generalizing initial with
  | nil => cases h
  | cons input inputs ih =>
      rw [history_cons, List.mem_cons] at h
      rcases h with rfl | h
      · exact ⟨[], inputs, rfl, rfl⟩
      · obtain ⟨before, after, hinputs, hrecord⟩ := ih h
        exact ⟨input :: before, after, by rw [hinputs, List.cons_append], hrecord⟩

theorem eq_record_of_mem {initial : State} {inputs : List Input} {r : Record State Input Output}
    (h : r ∈ history step initial inputs) : r = record step r.pre r.input := by
  obtain ⟨before, after, -, hrecord⟩ := mem_history step h
  have hpre : r.pre = exec step initial before := by rw [hrecord, record_pre]
  rw [hpre]
  exact hrecord

theorem length_history (state : State) (inputs : List Input) :
    (history step state inputs).length = inputs.length := by
  induction inputs generalizing state with
  | nil => rfl
  | cons input inputs ih => rw [history_cons, List.length_cons, ih, List.length_cons]

theorem getElem?_history (state : State) (before after : List Input) (input : Input) :
    (history step state (before ++ input :: after))[before.length]?
      = some (record step (exec step state before) input) := by
  rw [history_append, history_cons, List.getElem?_append_right (by rw [length_history]),
    length_history, Nat.sub_self, List.getElem?_cons_zero]

theorem eq_record_of_getElem? {initial : State} {inputs : List Input} {i : ℕ}
    {r : Record State Input Output} (h : (history step initial inputs)[i]? = some r) :
    r = record step (exec step initial (inputs.take i)) r.input := by
  obtain ⟨hi, -⟩ := List.getElem?_eq_some_iff.mp h
  rw [length_history] at hi
  have hinputs : inputs = inputs.take i ++ inputs[i] :: inputs.drop (i + 1) := by
    rw [← List.drop_eq_getElem_cons hi, List.take_append_drop]
  have hlength : (inputs.take i).length = i := List.length_take_of_le hi.le
  have hrecord := getElem?_history step initial (inputs.take i) (inputs.drop (i + 1)) inputs[i]
  rw [← hinputs, hlength, h, Option.some.injEq] at hrecord
  have hinput : r.input = inputs[i] := congrArg Record.input hrecord
  rw [hinput]
  exact hrecord

end Run

/-! ### Single-use tokens -/

section SingleUse

variable {step : State → Input → State × Output}
  {token : Record State Input Output → Option Token} {spent : State → Set Token}

/-- The steps of a machine use tokens up: a step that uses one finds it unspent and marks exactly
it, and any other step leaves the marks alone. -/
structure SingleUse (step : State → Input → State × Output)
    (token : Record State Input Output → Option Token) (spent : State → Set Token) : Prop where
  unused {state : State} {input : Input} :
    token (record step state input) = none → spent (step state input).1 = spent state
  used {state : State} {input : Input} {t : Token} :
    token (record step state input) = some t →
      t ∉ spent state ∧ spent (step state input).1 = insert t (spent state)

/-- **The ledger of spent tokens is exact.** A run adds to the marks exactly the tokens its steps
used; these were unspent at first and are pairwise different. -/
theorem SingleUse.run (h : SingleUse step token spent) (initial : State) (inputs : List Input) :
    spent (exec step initial inputs)
        = spent initial ∪ {t | t ∈ (history step initial inputs).filterMap token} ∧
      ((history step initial inputs).filterMap token).Nodup ∧
      ∀ t ∈ (history step initial inputs).filterMap token, t ∉ spent initial := by
  refine run_invariant step
    (fun past state => spent state = spent initial ∪ {t | t ∈ past.filterMap token} ∧
      (past.filterMap token).Nodup ∧ ∀ t ∈ past.filterMap token, t ∉ spent initial)
    ⟨by simp, List.nodup_nil, by simp⟩ ?_ inputs
  rintro past state input ⟨hmarks, hnodup, hfirst⟩
  rw [List.filterMap_append]
  cases htoken : token (record step state input) with
  | none =>
      rw [List.filterMap_cons_none htoken, List.filterMap_nil, List.append_nil]
      exact ⟨(h.unused htoken).trans hmarks, hnodup, hfirst⟩
  | some t =>
      obtain ⟨hfresh, hpost⟩ := h.used htoken
      rw [hmarks, Set.mem_union, not_or] at hfresh
      rw [List.filterMap_cons_some htoken, List.filterMap_nil]
      refine ⟨?_, ?_, ?_⟩
      · rw [hpost, hmarks]
        ext other
        simp [or_comm, or_left_comm]
      · rw [← List.concat_eq_append]
        exact hnodup.concat hfresh.2
      · intro other hother
        rcases List.mem_append.mp hother with hother | hother
        · exact hfirst other hother
        · rw [List.mem_singleton.mp hother]
          exact hfresh.1

theorem SingleUse.unique (h : SingleUse step token spent) (initial : State) (inputs : List Input)
    {i j : ℕ} {ri rj : Record State Input Output} {t : Token}
    (hi : (history step initial inputs)[i]? = some ri) (hti : token ri = some t)
    (hj : (history step initial inputs)[j]? = some rj) (htj : token rj = some t) : i = j := by
  have hpairwise := (h.run initial inputs).2.1
  rw [List.Nodup, List.pairwise_filterMap] at hpairwise
  have hlt : ∀ {i j : ℕ} {ri rj : Record State Input Output},
      (history step initial inputs)[i]? = some ri → token ri = some t →
      (history step initial inputs)[j]? = some rj → token rj = some t → ¬ i < j := by
    intro i j ri rj hi hti hj htj hij
    obtain ⟨hilt, rfl⟩ := List.getElem?_eq_some_iff.mp hi
    obtain ⟨hjlt, rfl⟩ := List.getElem?_eq_some_iff.mp hj
    exact List.pairwise_iff_getElem.mp hpairwise i j hilt hjlt hij t hti t htj rfl
  rcases Nat.lt_trichotomy i j with hij | hij | hij
  · exact absurd hij (hlt hi hti hj htj)
  · exact hij
  · exact absurd hij (hlt hj htj hi hti)

/-- A token that a step finds spent was unspent at first only if a step of the run used it. -/
theorem SingleUse.exists_of_spent (h : SingleUse step token spent) {initial : State}
    {inputs : List Input} {r : Record State Input Output} (hr : r ∈ history step initial inputs)
    {t : Token} (hspent : t ∈ spent r.pre) (hfresh : t ∉ spent initial) :
    ∃ other ∈ history step initial inputs, token other = some t := by
  obtain ⟨before, after, hinputs, hrecord⟩ := mem_history step hr
  have hpre : r.pre = exec step initial before := by rw [hrecord, record_pre]
  rw [hpre, (h.run initial before).1] at hspent
  obtain ⟨other, hother, htoken⟩ := List.mem_filterMap.mp (hspent.resolve_left hfresh)
  refine ⟨other, ?_, htoken⟩
  rw [hinputs, history_append]
  exact List.mem_append_left _ hother

theorem SingleUse.spent_step_iff (h : SingleUse step token spent) (state : State) (input : Input)
    (t : Token) :
    t ∈ spent (step state input).1 ↔
      t ∈ spent state ∨ token (record step state input) = some t := by
  cases htoken : token (record step state input) with
  | none => simp [h.unused htoken]
  | some used =>
      rw [(h.used htoken).2, Set.mem_insert_iff, Option.some.injEq, or_comm, eq_comm]

/-! ### First come, first served -/

/-- On the inputs considered, and as long as the state keeps what they are judged by, whether an
input asks for a token does not depend on the state, and it gets the token if that is unspent. -/
structure FirstCome (step : State → Input → State × Output)
    (token : Record State Input Output → Option Token) (spent : State → Set Token)
    (stable : State → Prop) (admissible : Input → Prop) (request : Input → Token → Prop) : Prop
    extends SingleUse step token spent where
  stable_step {state : State} {input : Input} :
    stable state → admissible input → stable (step state input).1
  granted_iff {state : State} {input : Input} {t : Token} : stable state → admissible input →
    (token (record step state input) = some t ↔ request input t ∧ t ∉ spent state)

variable {stable : State → Prop} {admissible : Input → Prop} {request : Input → Token → Prop}

theorem FirstCome.stable_exec
    (h : FirstCome step token spent stable admissible request) {initial : State}
    (hinitial : stable initial) {inputs : List Input}
    (hinputs : ∀ input ∈ inputs, admissible input) : stable (exec step initial inputs) := by
  apply exec_invariant step hinitial
  intro state input hinput hstate
  exact h.stable_step hstate (hinputs input hinput)

/-- **Who asked, not when.** The tokens a run uses are the unspent ones that some input asks for. -/
theorem FirstCome.mem_tokens_iff
    (h : FirstCome step token spent stable admissible request) {initial : State}
    (hinitial : stable initial) {inputs : List Input} (hinputs : ∀ input ∈ inputs, admissible input)
    (t : Token) :
    t ∈ (history step initial inputs).filterMap token ↔
      t ∉ spent initial ∧ ∃ input ∈ inputs, request input t := by
  induction inputs using List.reverseRecOn with
  | nil => simp
  | append_singleton inputs input ih =>
      have hbefore : ∀ other ∈ inputs, admissible other := fun other hother =>
        hinputs other (List.mem_append_left [input] hother)
      have hlast : admissible input := hinputs input (by simp)
      have hgranted := h.granted_iff (h.stable_exec hinitial hbefore) hlast (t := t)
      rw [(h.run initial inputs).1, Set.mem_union, Set.mem_ofPred_eq, ih hbefore] at hgranted
      have htokens : t ∈ [record step (exec step initial inputs) input].filterMap token ↔
          token (record step (exec step initial inputs) input) = some t := by
        simp
      rw [history_append, List.filterMap_append, List.mem_append, ih hbefore, history_cons,
        history_nil, htokens, hgranted]
      constructor
      · rintro (⟨hfresh, other, hother, hrequest⟩ | ⟨hrequest, hfresh⟩)
        · exact ⟨hfresh, other, List.mem_append_left [input] hother, hrequest⟩
        · exact ⟨fun hspent => hfresh (.inl hspent), input, by simp, hrequest⟩
      · rintro ⟨hfresh, other, hother, hrequest⟩
        by_cases hearlier : ∃ other ∈ inputs, request other t
        · exact .inl ⟨hfresh, hearlier⟩
        · rcases List.mem_append.mp hother with hother | hother
          · exact absurd ⟨other, hother, hrequest⟩ hearlier
          · rw [List.mem_singleton.mp hother] at hrequest
            refine .inr ⟨hrequest, ?_⟩
            rintro (hspent | ⟨-, hrequested⟩)
            · exact hfresh hspent
            · exact hearlier hrequested

theorem FirstCome.notMem_spent_exec_iff
    (h : FirstCome step token spent stable admissible request) {initial : State}
    (hinitial : stable initial) {inputs : List Input} (hinputs : ∀ input ∈ inputs, admissible input)
    (t : Token) :
    t ∉ spent (exec step initial inputs) ↔
      t ∉ spent initial ∧ ∀ input ∈ inputs, ¬ request input t := by
  rw [(h.run initial inputs).1, Set.mem_union, Set.mem_ofPred_eq,
    h.mem_tokens_iff hinitial hinputs]
  constructor
  · intro hspent
    refine ⟨fun hbefore => hspent (.inl hbefore), ?_⟩
    intro input hinput hrequest
    exact hspent (.inr ⟨fun hbefore => hspent (.inl hbefore), input, hinput, hrequest⟩)
  · rintro ⟨hfresh, hnone⟩ (hbefore | ⟨-, input, hinput, hrequest⟩)
    · exact hfresh hbefore
    · exact hnone input hinput hrequest

/-- **The first to ask is served.** A step of a run gets the token it asks for exactly if that was
unspent at first and no earlier input asked for it. -/
theorem FirstCome.token_iff_first
    (h : FirstCome step token spent stable admissible request) {initial : State}
    (hinitial : stable initial) {before after : List Input} {input : Input}
    (hinputs : ∀ other ∈ before ++ input :: after, admissible other) (t : Token) :
    token (record step (exec step initial before) input) = some t ↔
      request input t ∧ t ∉ spent initial ∧ ∀ earlier ∈ before, ¬ request earlier t := by
  have hbefore : ∀ other ∈ before, admissible other := fun other hother =>
    hinputs other (List.mem_append_left _ hother)
  have hinput : admissible input :=
    hinputs input (List.mem_append_right _ List.mem_cons_self)
  rw [h.granted_iff (h.stable_exec hinitial hbefore) hinput,
    h.notMem_spent_exec_iff hinitial hbefore]

end SingleUse

end Machine
