import Veritas.Library.Cursor
import Veritas.Field

/-!
# Panics, indexing and slicing

A Rust panic aborts the invocation, and the host reports why. Indexing and slicing are the panics
the verifier can reach from bytes it was given, so they are explicit here.
-/

namespace Veritas

inductive Trap where
  | unauthorized
  | unwrapNone
  | indexOutOfBounds
  | panic (message : String)
deriving DecidableEq

/-- `v[i]`. -/
def index {α : Type} (v : List α) (i : ℕ) : Except Trap α :=
  match v[i]? with
  | some value => .ok value
  | none => .error .indexOutOfBounds

/-- `&b[start..stop]`, for `start ≤ stop`. -/
def slice (b : List UInt8) (start stop : ℕ) : Except Trap (List UInt8) :=
  if stop ≤ b.length then .ok (Cursor.window b start (stop - start))
  else .error .indexOutOfBounds

section Except

variable {α γ : Type} (a : α) (trap : Trap)

@[simp]
theorem ok_bind (next : α → Except Trap γ) : (Except.ok a >>= next) = next a := rfl

@[simp]
theorem error_bind (next : α → Except Trap γ) :
    ((Except.error trap : Except Trap α) >>= next) = .error trap := rfl

@[simp]
theorem map_ok (f : α → γ) : f <$> (Except.ok a : Except Trap α) = .ok (f a) := rfl

@[simp]
theorem map_error (f : α → γ) : f <$> (Except.error trap : Except Trap α) = .error trap := rfl

@[simp]
theorem throw_eq_error : (throw trap : Except Trap α) = .error trap := rfl

@[simp]
theorem pure_eq_ok : (pure a : Except Trap α) = .ok a := rfl

end Except

/-- An early `return false` unless a check passes: the whole is true when both parts are. -/
theorem check_then_eq_true_iff {check next : Except Trap Bool} :
    (do if !(← check) then return false else next) = .ok true ↔
      check = .ok true ∧ next = .ok true := by
  rcases check with trap | _ | _ <;> simp

theorem check_then_returns {check next : Except Trap Bool} (hcheck : ∃ value, check = .ok value)
    (hnext : ∃ value, next = .ok value) :
    ∃ value, (do if !(← check) then return false else next) = .ok value := by
  obtain ⟨value, rfl⟩ := hcheck
  cases value with
  | false => exact ⟨false, rfl⟩
  | true => exact hnext

theorem index_of_getElem? {α : Type} {v : List α} {i : ℕ} {value : α}
    (h : v[i]? = some value) : index v i = .ok value := by
  rw [index, h]

theorem index_of_lt {α : Type} {v : List α} {i : ℕ} (h : i < v.length) :
    index v i = .ok v[i] :=
  index_of_getElem? (List.getElem?_eq_getElem h)

theorem index_of_le {α : Type} {v : List α} {i : ℕ} (h : v.length ≤ i) :
    index v i = .error .indexOutOfBounds := by
  rw [index, List.getElem?_eq_none h]

end Veritas
