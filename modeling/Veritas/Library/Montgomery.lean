import Mathlib.Data.Nat.Digits.Defs
import Mathlib.Data.Nat.ModEq
import Mathlib.Tactic.Linarith
import Mathlib.Tactic.Ring

/-!
# Montgomery multiplication, word by word

Multiplication modulo `q` with words of size `w`: for every word of the first factor, add the
product with the second factor to an accumulator, then the multiple of `q` that clears the lowest
word, and drop that word. Each round divides by `w`, and the accumulator stays below `2 * q`.
-/

namespace Montgomery

/-- The multiplier clears the lowest word: `np * q` is minus one. -/
theorem dvd_add_mul {w q np t : ℕ} (hnp : np * q % w = w - 1) (hw : 0 < w) :
    w ∣ t + t * np % w * q := by
  have hminus : w ∣ np * q + 1 := by
    rw [Nat.dvd_iff_mod_eq_zero, Nat.add_mod, hnp]
    rcases Nat.lt_or_ge 1 w with hone | hone
    · rw [Nat.mod_eq_of_lt hone, Nat.sub_add_cancel hw, Nat.mod_self]
    · have hunit : w = 1 := by omega
      rw [hunit]
  have hcongr : t + t * np % w * q ≡ t * (np * q + 1) [MOD w] := by
    calc
      t + t * np % w * q ≡ t + t * np * q [MOD w] :=
        Nat.ModEq.add_left t ((Nat.mod_modEq _ _).mul_right q)
      _ ≡ t * (np * q + 1) [MOD w] := by
        rw [show t + t * np * q = t * (np * q + 1) by ring]
  rw [Nat.dvd_iff_mod_eq_zero, hcongr, ← Nat.dvd_iff_mod_eq_zero]
  exact hminus.mul_left t

/-- One round from `t` to `t'`, with the word `a` of the first factor. -/
structure Round (w q b a t t' : ℕ) : Prop where
  exists_multiple : ∃ m < w, w * t' = t + a * b + m * q

theorem Round.lt {w q b a t t' : ℕ} (h : Round w q b a t t') (hb : b < q) (ha : a < w)
    (ht : t < 2 * q) : t' < 2 * q := by
  obtain ⟨m, hm, heq⟩ := h.exists_multiple
  have hab : a * b + q ≤ w * q := by
    calc
      a * b + q ≤ a * q + q := by gcongr
      _ = (a + 1) * q := by ring
      _ ≤ w * q := by gcongr; omega
  have hmq : m * q + q ≤ w * q := by
    calc
      m * q + q = (m + 1) * q := by ring
      _ ≤ w * q := by gcongr; omega
  have hlt : w * t' < w * (2 * q) := by
    calc
      w * t' = t + a * b + m * q := heq
      _ < 2 * q + (a * b + m * q) := by omega
      _ ≤ w * q + w * q := by omega
      _ = w * (2 * q) := by ring
  exact Nat.lt_of_mul_lt_mul_left hlt

/-- Rounds for the words of the first factor, lowest first. -/
inductive Rounds (w q b : ℕ) : List ℕ → ℕ → ℕ → Prop
  | nil {t : ℕ} : Rounds w q b [] t t
  | cons {a t t' t'' : ℕ} {as : List ℕ} :
      Round w q b a t t' → Rounds w q b as t' t'' → Rounds w q b (a :: as) t t''

theorem Rounds.lt {w q b : ℕ} {as : List ℕ} {t t' : ℕ} (h : Rounds w q b as t t') (hb : b < q)
    (has : ∀ a ∈ as, a < w) (ht : t < 2 * q) : t' < 2 * q := by
  induction h with
  | nil => exact ht
  | cons hround _ ih =>
      apply ih
      · intro a ha
        exact has a (List.mem_cons_of_mem _ ha)
      · exact hround.lt hb (has _ List.mem_cons_self) ht

/-- **The rounds compute the product, divided by the words' radix.** -/
theorem Rounds.modEq {w q b : ℕ} {as : List ℕ} {t t' : ℕ} (h : Rounds w q b as t t') :
    w ^ as.length * t' ≡ t + Nat.ofDigits w as * b [MOD q] := by
  induction h with
  | nil =>
      rw [List.length_nil, pow_zero, one_mul, Nat.ofDigits_nil, zero_mul, add_zero]
  | @cons a t t' t'' as hround _ ih =>
      obtain ⟨m, -, heq⟩ := hround.exists_multiple
      calc
        w ^ (as.length + 1) * t'' = w * (w ^ as.length * t'') := by ring
        _ ≡ w * (t' + Nat.ofDigits w as * b) [MOD q] := ih.mul_left w
        _ = t + a * b + m * q + w * Nat.ofDigits w as * b := by rw [mul_add, heq]; ring
        _ ≡ t + a * b + w * Nat.ofDigits w as * b [MOD q] := by
          have hzero : m * q ≡ 0 [MOD q] := (Nat.modEq_zero_iff_dvd).mpr (Dvd.intro_left m rfl)
          simpa using (Nat.ModEq.add_left (t + a * b) hzero).add_right (w * Nat.ofDigits w as * b)
        _ = t + Nat.ofDigits w (a :: as) * b := by
          rw [Nat.ofDigits_cons]
          ring

end Montgomery
