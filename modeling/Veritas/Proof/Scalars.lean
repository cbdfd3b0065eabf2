import Veritas.Contract

/-!
# The canonical scalar encoding

The contract compares scalars, and keys its nullifier set, by the bytes `frToBytesn` writes. Those
are the big-endian integer of the canonical representative, so equality of bytes is equality of
field elements: two encodings of one scalar cannot be told apart after decoding, and two scalars
never share a key.
-/

namespace Veritas

theorem frModulus_le : frModulus ≤ 256 ^ 32 := by norm_num

theorem val_lt_pow (f : Fr) : f.val < 256 ^ 32 := lt_of_lt_of_le f.val_lt frModulus_le

theorem toBeBytes_intoBigint (f : Fr) (i : ℕ) :
    toBeBytes (intoBigint f i) = BigEndian.encode 8 (f.val / 256 ^ (8 * i)) := by
  have hpow : 2 ^ (64 * i) = 256 ^ (8 * i) := by
    rw [show (256 : ℕ) = 2 ^ 8 from rfl, ← pow_mul, ← Nat.mul_assoc]
  calc
    toBeBytes (intoBigint f i) = BigEndian.encode 8 (f.val / 2 ^ (64 * i) % 256 ^ 8) := by
      rw [toBeBytes, intoBigint, UInt64.toNat_ofNat', show 2 ^ 64 = 256 ^ 8 from rfl]
    _ = BigEndian.encode 8 (f.val / 256 ^ (8 * i)) := by
      rw [BigEndian.encode_mod, hpow]

/-- Four limbs, most significant first, are the 32 bytes of the representative. -/
theorem frToArray_eq (f : Fr) : frToArray f = BigEndian.encode 32 f.val := by
  rw [show (32 : ℕ) = 8 + (8 + (8 + 8)) from rfl, BigEndian.encode_add, BigEndian.encode_add,
    BigEndian.encode_add]
  simp [frToArray, toBeBytes_intoBigint, List.range_succ]

theorem toList_frToBytesn (f : Fr) : (frToBytesn f).toList = BigEndian.encode 32 f.val := by
  rw [← frToArray_eq]
  rfl

theorem frToBytesn_injective : Function.Injective frToBytesn := by
  intro f g h
  have hbytes : BigEndian.encode 32 f.val = BigEndian.encode 32 g.val := by
    rw [← toList_frToBytesn, ← toList_frToBytesn, h]
  exact ZMod.val_injective _ (BigEndian.encode_injective (val_lt_pow f) (val_lt_pow g) hbytes)

theorem fromBeBytesModOrder_frToBytesn (f : Fr) :
    fromBeBytesModOrder frModulus (frToBytesn f).toList = f := by
  rw [toList_frToBytesn, fromBeBytesModOrder_encode frModulus_le]

end Veritas
