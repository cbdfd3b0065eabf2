import Mathlib.Data.Nat.ModEq
import Mathlib.Tactic.Ring
import Mathlib.Tactic.NormNum
import Mathlib.Data.List.Induction

/-!
# Big-endian byte strings

A natural number below `256 ^ width` and a string of `width` bytes carry the same information. The
two directions are `encode` and `toNat`; everything a codec needs is that they are inverse to each
other on that range and that both respect concatenation.
-/

namespace BigEndian

def toNat (bytes : List UInt8) : ℕ :=
  bytes.foldl (fun acc byte => 256 * acc + byte.toNat) 0

/-- The low `width` bytes of a natural number, most significant byte first. -/
def encode : ℕ → ℕ → List UInt8
  | 0, _ => []
  | width + 1, value => encode width (value / 256) ++ [UInt8.ofNat value]

@[simp]
theorem toNat_nil : toNat [] = 0 := rfl

theorem toNat_concat (bytes : List UInt8) (byte : UInt8) :
    toNat (bytes ++ [byte]) = 256 * toNat bytes + byte.toNat := by
  simp [toNat]

theorem toNat_lt (bytes : List UInt8) : toNat bytes < 256 ^ bytes.length := by
  induction bytes using List.reverseRecOn with
  | nil => simp
  | append_singleton bytes byte ih =>
      have hbyte : byte.toNat < 256 := byte.toNat_lt
      rw [toNat_concat, List.length_append, List.length_singleton, pow_succ]
      omega

@[simp]
theorem length_encode (width value : ℕ) : (encode width value).length = width := by
  induction width generalizing value with
  | zero => rfl
  | succ width ih => simp [encode, ih]

theorem toNat_encode (width value : ℕ) : toNat (encode width value) = value % 256 ^ width := by
  induction width generalizing value with
  | zero => simp [encode, Nat.mod_one]
  | succ width ih =>
      calc
        toNat (encode (width + 1) value)
            = 256 * (value / 256 % 256 ^ width) + (UInt8.ofNat value).toNat := by
          rw [encode, toNat_concat, ih]
        _ = value % 256 + 256 * (value / 256 % 256 ^ width) := by
          rw [UInt8.toNat_ofNat', show 2 ^ 8 = 256 from rfl, add_comm]
        _ = value % 256 ^ (width + 1) := by
          rw [pow_succ', Nat.mod_mul]

theorem toNat_encode_of_lt {width value : ℕ} (hlt : value < 256 ^ width) :
    toNat (encode width value) = value := by
  rw [toNat_encode, Nat.mod_eq_of_lt hlt]

theorem encode_toNat (bytes : List UInt8) : encode bytes.length (toNat bytes) = bytes := by
  induction bytes using List.reverseRecOn with
  | nil => rfl
  | append_singleton bytes byte ih =>
      have hbyte : byte.toNat < 256 := byte.toNat_lt
      have hdiv : (256 * toNat bytes + byte.toNat) / 256 = toNat bytes := by omega
      have hlast : UInt8.ofNat (256 * toNat bytes + byte.toNat) = byte := by
        apply UInt8.toNat_inj.mp
        rw [UInt8.toNat_ofNat']
        omega
      calc
        encode (bytes ++ [byte]).length (toNat (bytes ++ [byte]))
            = encode (bytes.length + 1) (256 * toNat bytes + byte.toNat) := by
          rw [List.length_append, List.length_singleton, toNat_concat]
        _ = encode bytes.length (toNat bytes) ++ [byte] := by
          rw [encode, hdiv, hlast]
        _ = bytes ++ [byte] := by
          rw [ih]

theorem toNat_injective {left right : List UInt8} (hlength : left.length = right.length)
    (hvalue : toNat left = toNat right) : left = right := by
  rw [← encode_toNat left, ← encode_toNat right, hlength, hvalue]

theorem encode_injective {width left right : ℕ} (hleft : left < 256 ^ width)
    (hright : right < 256 ^ width) (h : encode width left = encode width right) :
    left = right := by
  rw [← toNat_encode_of_lt hleft, ← toNat_encode_of_lt hright, h]

theorem encode_add (high low value : ℕ) :
    encode (high + low) value = encode high (value / 256 ^ low) ++ encode low value := by
  induction low generalizing value with
  | zero => simp [encode]
  | succ low ih =>
      calc
        encode (high + (low + 1)) value
            = encode (high + low) (value / 256) ++ [UInt8.ofNat value] := by
          rw [← Nat.add_assoc, encode]
        _ = encode high (value / 256 / 256 ^ low)
            ++ (encode low (value / 256) ++ [UInt8.ofNat value]) := by
          rw [ih, List.append_assoc]
        _ = encode high (value / 256 ^ (low + 1)) ++ encode (low + 1) value := by
          rw [encode, Nat.div_div_eq_div_mul, Nat.pow_succ']

theorem encode_mod (width value : ℕ) : encode width (value % 256 ^ width) = encode width value := by
  apply toNat_injective
  · simp
  · rw [toNat_encode, toNat_encode, Nat.mod_mod]

/-! ### Residues

Writing the residue of an integer modulo something the width can hold forgets the multiple and
nothing else. -/

section Residue

variable {modulus : ℕ} (hpos : 0 < modulus)

include hpos

theorem encode_mod_eq_encode_mod_iff {width : ℕ} (hwidth : modulus ≤ 256 ^ width)
    (left right : ℕ) :
    encode width (left % modulus) = encode width (right % modulus) ↔
      left ≡ right [MOD modulus] := by
  constructor
  · intro h
    exact encode_injective ((Nat.mod_lt _ hpos).trans_le hwidth)
      ((Nat.mod_lt _ hpos).trans_le hwidth) h
  · intro h
    rw [h]

theorem encode_toNat_mod_eq_self_iff {bytes : List UInt8}
    (hwidth : modulus ≤ 256 ^ bytes.length) :
    encode bytes.length (toNat bytes % modulus) = bytes ↔ toNat bytes < modulus := by
  constructor
  · intro h
    have hvalue : toNat bytes % modulus = toNat bytes := by
      rw [← toNat_encode_of_lt ((Nat.mod_lt _ hpos).trans_le hwidth), h]
    rw [← hvalue]
    exact Nat.mod_lt _ hpos
  · intro h
    rw [Nat.mod_eq_of_lt h, encode_toNat]

end Residue

end BigEndian
