import Veritas.Library.BigEndian

/-!
# Hexadecimal text

A byte string is often produced as text: print an integer in base sixteen, pad it with zeros on the
left, read the digits back two at a time. On integers that fit the width this is the big-endian
encoding.
-/

namespace Hex

def digitValue (c : Char) : Option ℕ :=
  if '0' ≤ c ∧ c ≤ '9' then some (c.toNat - 48)
  else if 'a' ≤ c ∧ c ≤ 'f' then some (c.toNat - 87)
  else if 'A' ≤ c ∧ c ≤ 'F' then some (c.toNat - 55)
  else none

/-- Read digits two at a time, up to the first pair that is not hexadecimal. -/
def decode : List Char → List UInt8
  | hi :: lo :: rest =>
      match digitValue hi, digitValue lo with
      | some high, some low => UInt8.ofNat (16 * high + low) :: decode rest
      | _, _ => []
  | _ => []

def digits : ℕ → ℕ → List Char
  | 0, _ => []
  | width + 1, n => digits width (n / 16) ++ [Nat.digitChar (n % 16)]

theorem digitValue_digitChar : ∀ d < 16, digitValue (Nat.digitChar d) = some d := by decide

theorem digits_zero (width : ℕ) : digits width 0 = List.replicate width '0' := by
  induction width with
  | zero => rfl
  | succ width ih => rw [digits, Nat.zero_div, ih, List.replicate_succ']; rfl

theorem replicate_append_toDigits {width n : ℕ} (hwidth : 0 < width) (h : n < 16 ^ width) :
    List.replicate (width - (Nat.toDigits 16 n).length) '0' ++ Nat.toDigits 16 n
      = digits width n := by
  induction width, hwidth using Nat.le_induction generalizing n with
  | base =>
      rw [Nat.toDigits_of_lt_base (by omega), digits, digits, Nat.mod_eq_of_lt (by omega)]
      rfl
  | succ width hwidth ih =>
      have hquotient : n / 16 < 16 ^ width := by
        rw [pow_succ] at h
        omega
      rw [Nat.toDigits_eq_if (by omega)]
      split
      next hsmall =>
        have hzero : n / 16 = 0 := by omega
        rw [digits, hzero, digits_zero, Nat.mod_eq_of_lt hsmall]
        rfl
      next =>
        rw [digits, ← ih hquotient, List.length_append, List.length_singleton,
          Nat.add_sub_add_right, List.append_assoc]

theorem decode_digits_append (width n : ℕ) (rest : List Char) :
    decode (digits (2 * width) n ++ rest) = BigEndian.encode width n ++ decode rest := by
  induction width generalizing n rest with
  | zero => rfl
  | succ width ih =>
      have hbyte : UInt8.ofNat (16 * (n / 16 % 16) + n % 16) = UInt8.ofNat n := by
        rw [← UInt8.toNat_inj, UInt8.toNat_ofNat', UInt8.toNat_ofNat']
        omega
      have hpair : decode (Nat.digitChar (n / 16 % 16) :: Nat.digitChar (n % 16) :: rest)
          = UInt8.ofNat n :: decode rest := by
        rw [decode, digitValue_digitChar _ (Nat.mod_lt _ (by omega)),
          digitValue_digitChar _ (Nat.mod_lt _ (by omega)), ← hbyte]
      calc decode (digits (2 * width + 2) n ++ rest)
          = decode (digits (2 * width) (n / 16 / 16) ++
              (Nat.digitChar (n / 16 % 16) :: Nat.digitChar (n % 16) :: rest)) := by
            simp only [digits, List.append_assoc, List.cons_append, List.nil_append]
        _ = BigEndian.encode width (n / 256) ++ (UInt8.ofNat n :: decode rest) := by
            rw [ih, hpair, Nat.div_div_eq_div_mul]
        _ = BigEndian.encode (width + 1) n ++ decode rest := by
            rw [BigEndian.encode, List.append_assoc, List.singleton_append]

/-- **Padded hexadecimal text spells the big-endian bytes.** -/
theorem decode_padded {width n : ℕ} (hwidth : 0 < width) (h : n < 256 ^ width) :
    decode (List.replicate (2 * width - (Nat.toDigits 16 n).length) '0' ++ Nat.toDigits 16 n)
      = BigEndian.encode width n := by
  have hbound : n < 16 ^ (2 * width) := by
    rwa [pow_mul]
  have hnil : decode [] = [] := rfl
  rw [replicate_append_toDigits (by omega) hbound, ← List.append_nil (digits _ _),
    decode_digits_append, hnil, List.append_nil]

end Hex
