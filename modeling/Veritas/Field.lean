import Veritas.Library.BigEndian
import Mathlib.NumberTheory.LucasPrimality
import Mathlib.Tactic.ReduceModChar
import Mathlib.Tactic.NormNum.Prime

/-!
# The BN254 fields

`Fq` holds point coordinates, `Fr` holds scalars and is the field the circuits compute in. The
scalar modulus is prime: the pairing groups have that order, and the circuits' range and booleanity
arguments divide in the field. The certificate is Lucas's, recursively for the large factors.
-/

namespace Veritas

abbrev fqModulus : ℕ :=
  21888242871839275222246405745257275088696311157297823662689037894645226208583

/-- The scalar field modulus, the order of the pairing groups. -/
abbrev frModulus : ℕ :=
  21888242871839275222246405745257275088548364400416034343698204186575808495617

abbrev Fq := ZMod fqModulus

abbrev Fr := ZMod frModulus

structure Fq2 where
  c0 : Fq
  c1 : Fq
deriving DecidableEq

/-- The big-endian integer of a byte string, reduced modulo the field order. -/
def fromBeBytesModOrder (modulus : ℕ) (bytes : List UInt8) : ZMod modulus :=
  (BigEndian.toNat bytes : ZMod modulus)

theorem fromBeBytesModOrder_encode {modulus width : ℕ} [NeZero modulus]
    (hwidth : modulus ≤ 256 ^ width) (x : ZMod modulus) :
    fromBeBytesModOrder modulus (BigEndian.encode width x.val) = x := by
  have hlt : x.val < 256 ^ width := lt_of_lt_of_le x.val_lt hwidth
  rw [fromBeBytesModOrder, BigEndian.toNat_encode_of_lt hlt, ZMod.natCast_zmod_val]

/-! ### The scalar modulus is prime -/

/-- Lucas's test with the primes dividing `p - 1` given as a list. -/
theorem prime_of_factors {p : ℕ} (a : ZMod p) (factors : List ℕ) (exponent : ℕ)
    (hdvd : p - 1 ∣ factors.prod ^ exponent) (hprime : factors.Forall Nat.Prime)
    (hone : a ^ (p - 1) = 1) (hne : factors.Forall fun f => a ^ ((p - 1) / f) ≠ 1) :
    p.Prime := by
  refine lucas_primality p a hone fun f hf hfdvd => ?_
  have hprod : f ∣ factors.prod := hf.dvd_of_dvd_pow (hfdvd.trans hdvd)
  obtain ⟨g, hg, hfg⟩ := (Prime.dvd_prod_iff hf.prime).mp hprod
  rw [(Nat.prime_dvd_prime_iff_eq hf (List.forall_iff_forall_mem.mp hprime g hg)).mp hfg]
  exact List.forall_iff_forall_mem.mp hne g hg

private theorem prime_639533339 : Nat.Prime 639533339 := by
  refine prime_of_factors 2 [2, 229, 853, 1637] 1 (by norm_num) ?_ (by reduce_mod_char) ?_
  · norm_num
  · simp only [List.Forall]
    norm_num only
    reduce_mod_char
    decide

private theorem prime_65865678001877903 : Nat.Prime 65865678001877903 := by
  refine prime_of_factors 5 [2, 83, 379, 1637, 639533339] 1 (by norm_num) ?_ (by reduce_mod_char) ?_
  · refine ⟨?_, ?_, ?_, ?_, prime_639533339⟩ <;> norm_num
  · simp only [List.Forall]
    norm_num only
    reduce_mod_char
    decide

private theorem prime_13818364434197438864469338081 : Nat.Prime 13818364434197438864469338081 := by
  refine prime_of_factors 3 [2, 5, 823, 1593227, 65865678001877903] 5 (by norm_num) ?_
    (by reduce_mod_char) ?_
  · refine ⟨?_, ?_, ?_, ?_, prime_65865678001877903⟩ <;> norm_num
  · simp only [List.Forall]
    norm_num only
    reduce_mod_char
    decide

private theorem prime_12048837557 : Nat.Prime 12048837557 := by
  refine prime_of_factors 2 [2, 7, 661, 93001] 2 (by norm_num) ?_ (by reduce_mod_char) ?_
  · norm_num
  · simp only [List.Forall]
    norm_num only
    reduce_mod_char
    decide

private theorem prime_5156902474397 : Nat.Prime 5156902474397 := by
  refine prime_of_factors 2 [2, 107, 12048837557] 2 (by norm_num) ?_ (by reduce_mod_char) ?_
  · refine ⟨?_, ?_, prime_12048837557⟩ <;> norm_num
  · simp only [List.Forall]
    norm_num only
    reduce_mod_char
    decide

private theorem prime_1670836401704629 : Nat.Prime 1670836401704629 := by
  refine prime_of_factors 2 [2, 3, 5156902474397] 4 (by norm_num) ?_ (by reduce_mod_char) ?_
  · refine ⟨?_, ?_, prime_5156902474397⟩ <;> norm_num
  · simp only [List.Forall]
    norm_num only
    reduce_mod_char
    decide

private theorem prime_405928799 : Nat.Prime 405928799 := by
  refine prime_of_factors 22 [2, 11, 3691, 4999] 1 (by norm_num) ?_ (by reduce_mod_char) ?_
  · norm_num
  · simp only [List.Forall]
    norm_num only
    reduce_mod_char
    decide

theorem frModulus_prime : Nat.Prime frModulus := by
  refine prime_of_factors 5 [2, 3, 13, 29, 983, 11003, 237073, 405928799, 1670836401704629,
    13818364434197438864469338081] 28 (by norm_num) ?_ (by reduce_mod_char) ?_
  · refine ⟨?_, ?_, ?_, ?_, ?_, ?_, ?_, prime_405928799, prime_1670836401704629,
      prime_13818364434197438864469338081⟩ <;> norm_num
  · simp only [List.Forall]
    norm_num only
    reduce_mod_char
    decide

instance : Fact frModulus.Prime := ⟨frModulus_prime⟩

end Veritas
