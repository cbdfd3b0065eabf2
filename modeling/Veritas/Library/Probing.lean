import Mathlib.Data.Nat.Find
import Mathlib.Data.Nat.ModEq

/-!
# Linear probing

A lookup in a table of slots starts at the home slot of a key and walks on, around the end, until it
finds the key, reaches a vacant slot or is back home. In a table without gaps between a key and its
home the lookup decides membership. The home slot may be vacant: the walk goes on from it.
-/

namespace Probing

inductive Outcome where
  | found (pos : ℕ)
  | vacant
  | full
deriving DecidableEq

/-- The walk from a slot, of so many steps at most. -/
def walk (hit vacant : ℕ → Bool) (n home : ℕ) : ℕ → ℕ → Outcome
  | 0, _ => .full
  | steps + 1, pos =>
      if pos = home then .full
      else if hit pos then .found pos
      else if vacant pos then .vacant
      else walk hit vacant n home steps ((pos + 1) % n)

def lookup (hit vacant : ℕ → Bool) (n home : ℕ) : Outcome :=
  if hit home then .found home else walk hit vacant n home n ((home + 1) % n)

variable {hit vacant : ℕ → Bool} {n home : ℕ}

/-- The slot at a distance from home is the first that the walk does not pass. -/
structure Stops (hit vacant : ℕ → Bool) (n home d : ℕ) : Prop where
  lt : d < n
  miss : ∀ e < d, hit ((home + e) % n) = false
  occupied : ∀ e < d, 0 < e → vacant ((home + e) % n) = false

/-! ### The walk -/

theorem slot_succ (home d n : ℕ) : ((home + d) % n + 1) % n = (home + (d + 1)) % n := by
  rw [Nat.mod_add_mod, Nat.add_assoc]

theorem slot_ne_home (hhome : home < n) {d : ℕ} (hpos : 0 < d) (hd : d < n) :
    (home + d) % n ≠ home := by
  intro h
  rcases Nat.lt_or_ge (home + d) n with hlt | hge
  · rw [Nat.mod_eq_of_lt hlt] at h
    omega
  · rw [Nat.mod_eq_sub_mod hge, Nat.mod_eq_of_lt (by omega)] at h
    omega

theorem slot_injective {d e : ℕ} (hd : d < n) (he : e < n)
    (h : (home + d) % n = (home + e) % n) : d = e := by
  have hmod : d % n = e % n := Nat.ModEq.add_left_cancel rfl h
  rwa [Nat.mod_eq_of_lt hd, Nat.mod_eq_of_lt he] at hmod

theorem walk_found (hhome : home < n) {d : ℕ} (h : Stops hit vacant n home d)
    (hhit : hit ((home + d) % n) = true) {steps e : ℕ} (hpos : 0 < e) (he : e ≤ d)
    (hsteps : d < e + steps) :
    walk hit vacant n home steps ((home + e) % n) = .found ((home + d) % n) := by
  induction steps generalizing e with
  | zero => omega
  | succ steps ih =>
      have hlt := h.lt
      rw [walk, if_neg (slot_ne_home hhome hpos (by omega))]
      rcases Nat.lt_or_ge e d with hed | hde
      · rw [h.miss e hed, h.occupied e hed hpos, slot_succ]
        exact ih (by omega) (by omega) (by omega)
      · obtain rfl : e = d := by omega
        rw [if_pos hhit]

theorem lookup_found (hhome : home < n) {d : ℕ} (h : Stops hit vacant n home d)
    (hhit : hit ((home + d) % n) = true) :
    lookup hit vacant n home = .found ((home + d) % n) := by
  have hlt := h.lt
  have hself : (home + 0) % n = home := Nat.mod_eq_of_lt hhome
  rw [lookup]
  rcases Nat.eq_zero_or_pos d with rfl | hpos
  · rw [hself] at hhit ⊢
    rw [if_pos hhit]
  · have hmiss := h.miss 0 hpos
    rw [hself] at hmiss
    rw [hmiss, if_neg Bool.false_ne_true]
    exact walk_found hhome h hhit Nat.one_pos hpos (by omega)

theorem walk_sound {steps pos p : ℕ} (hpos : pos < n)
    (h : walk hit vacant n home steps pos = .found p) : p < n ∧ hit p = true := by
  induction steps generalizing pos with
  | zero => exact absurd h nofun
  | succ steps ih =>
      rw [walk] at h
      split_ifs at h with hback hhit hvacant
      · obtain rfl := Outcome.found.inj h
        exact ⟨hpos, hhit⟩
      · exact ih (Nat.mod_lt _ (by omega)) h

theorem lookup_sound (hhome : home < n) {p : ℕ} (h : lookup hit vacant n home = .found p) :
    p < n ∧ hit p = true := by
  rw [lookup] at h
  split_ifs at h with hhit
  · obtain rfl := Outcome.found.inj h
    exact ⟨hhome, hhit⟩
  · exact walk_sound (Nat.mod_lt _ (by omega)) h

/-- A key that vacant slots hold too is found wherever it is first met. -/
theorem exists_lookup_found (hhome : home < n) (hvacant : ∀ p < n, vacant p = true → hit p = true)
    {p : ℕ} (hp : p < n) (hhit : hit p = true) : ∃ p', lookup hit vacant n home = .found p' := by
  have hn : 0 < n := by omega
  have hexists : ∃ d, d < n ∧ hit ((home + d) % n) = true := by
    refine ⟨(p + (n - home)) % n, Nat.mod_lt _ hn, ?_⟩
    rw [Nat.add_mod_mod, show home + (p + (n - home)) = p + n by omega, Nat.add_mod_right,
      Nat.mod_eq_of_lt hp]
    exact hhit
  obtain ⟨hd, hfirst⟩ := Nat.find_spec hexists
  have hmiss (e : ℕ) (he : e < Nat.find hexists) : hit ((home + e) % n) = false :=
    Bool.eq_false_iff.mpr fun h => Nat.find_min hexists he ⟨he.trans hd, h⟩
  refine ⟨_, lookup_found hhome ⟨hd, hmiss, fun e he _ => ?_⟩ hfirst⟩
  refine Bool.eq_false_iff.mpr fun h => ?_
  have hhit' := hvacant _ (Nat.mod_lt _ hn) h
  rw [hmiss e he] at hhit'
  exact Bool.false_ne_true hhit'

/-! ### Tables without gaps -/

variable {κ : Type} {key : ℕ → Option κ} {place : κ → ℕ}

/-- The slots between a key and its home are taken, and no key is in two slots. -/
structure Packed (key : ℕ → Option κ) (place : κ → ℕ) (n : ℕ) : Prop where
  home_lt : ∀ k, place k < n
  near : ∀ p < n, ∀ k, key p = some k → ∃ d < n, (place k + d) % n = p ∧
    ∀ e < d, key ((place k + e) % n) ≠ none
  unique : ∀ p < n, ∀ p' < n, ∀ k, key p = some k → key p' = some k → p = p'

/-- **The lookup decides membership.** -/
theorem Packed.lookup_found_iff (h : Packed key place n) {k : κ}
    (hhit : ∀ p < n, hit p = true ↔ key p = some k)
    (hvacant : ∀ p < n, vacant p = true → key p = none) (p : ℕ) :
    lookup hit vacant n (place k) = .found p ↔ p < n ∧ key p = some k := by
  have hhome := h.home_lt k
  have hslot (e : ℕ) : (place k + e) % n < n := Nat.mod_lt _ (by omega)
  constructor
  · intro hfound
    obtain ⟨hp, hmatch⟩ := lookup_sound hhome hfound
    exact ⟨hp, (hhit p hp).mp hmatch⟩
  · rintro ⟨hp, hkey⟩
    obtain ⟨d, hd, rfl, hbetween⟩ := h.near p hp k hkey
    refine lookup_found hhome ⟨hd, fun e he => ?_, fun e he _ => ?_⟩ ((hhit _ hp).mpr hkey)
    · refine Bool.eq_false_iff.mpr fun hmatch => he.ne ?_
      refine slot_injective (he.trans hd) hd (h.unique _ (hslot e) _ hp k ?_ hkey)
      exact (hhit _ (hslot e)).mp hmatch
    · exact Bool.eq_false_iff.mpr fun hfree => hbetween e he (hvacant _ (hslot e) hfree)

end Probing
