import Veritas.NodeCalculator
import Veritas.Proof.Preimage

/-!
# The two calculators agree

The JavaScript calculator hashes names, reads numbers and lays out the witness file as the generated
program does, up to the cases that the theorems name.
-/

namespace Veritas

/-! ### Names -/

theorem foldl_digits (width n acc : ℕ) :
    (Hex.digits width n).foldl (fun n c => n * 16 + (Hex.digitValue c).getD 0) acc
      = acc * 16 ^ width + n % 16 ^ width := by
  induction width generalizing n with
  | zero => rw [pow_zero, mul_one, Nat.mod_one]; rfl
  | succ width ih =>
      rw [Hex.digits, List.foldl_append, ih, List.foldl_cons, List.foldl_nil,
        Hex.digitValue_digitChar _ (Nat.mod_lt n (by norm_num)), Option.getD_some, pow_succ' 16,
        Nat.mod_mul]
      ring

theorem length_digits (width n : ℕ) : (Hex.digits width n).length = width := by
  induction width generalizing n with
  | zero => rfl
  | succ width ih => rw [Hex.digits, List.length_append, ih, List.length_singleton]

theorem digits_add (a b n : ℕ) :
    Hex.digits (a + b) n = Hex.digits a (n / 16 ^ b) ++ Hex.digits b n := by
  induction b generalizing n with
  | zero => rw [pow_zero, Nat.div_one, Hex.digits, List.append_nil]; rfl
  | succ b ih =>
      rw [← Nat.add_assoc, Hex.digits, ih, Hex.digits, List.append_assoc, Nat.div_div_eq_div_mul,
        ← pow_succ']

/-- Digits parse as the number they spell. -/
theorem parseInt16_digits {width : ℕ} (hwidth : 0 < width) (n : ℕ) :
    parseInt16 (Hex.digits width n) = some (n % 16 ^ width) := by
  have hne : (Hex.digits width n).isEmpty = false := by
    rw [List.isEmpty_eq_false_iff, ← List.length_pos_iff, length_digits]
    exact hwidth
  rw [parseInt16, hne, if_neg Bool.false_ne_true, foldl_digits, zero_mul, zero_add]

theorem stringSlice_left (a b n : ℕ) :
    stringSlice (Hex.digits (a + b) n) 0 a = Hex.digits a (n / 16 ^ b) := by
  rw [stringSlice, List.drop_zero, digits_add, List.take_left' (length_digits a _)]

theorem stringSlice_right (a b n : ℕ) {last : ℕ} (h : a + b ≤ last) :
    stringSlice (Hex.digits (a + b) n) a last = Hex.digits b n := by
  rw [stringSlice, List.take_of_length_le (by rw [length_digits]; exact h), digits_add,
    List.drop_left' (length_digits a _)]

theorem toNat_char : ∀ n < 128, (UInt8.ofNat n).toInt8.toInt64.toUInt64.toNat = n := by decide

theorem fnv1a_toNat (bytes : List UInt8) (h : ∀ b ∈ bytes, b.toNat < 128) :
    (fnv1a bytes).toNat = (bytes.map UInt8.toNat).foldl
      (fun hash unit => (hash ^^^ unit) * 0x100000001B3 % 2 ^ 64) 0xCBF29CE484222325 := by
  rw [fnv1a, List.foldl_map]
  refine List.foldl_rel (r := fun (hash : UInt64) (n : ℕ) => hash.toNat = n) rfl
    fun b hb hash n hn => ?_
  have hchar := toNat_char b.toNat (h b hb)
  rw [UInt8.ofNat_toNat] at hchar
  rw [UInt64.toNat_mul, UInt64.toNat_xor, hchar, hn]
  rfl

/-- **On names of one byte a character the two halves of the hash are those of the program's.** -/
theorem fnvHash_fnv1a (bytes : List UInt8) (h : ∀ b ∈ bytes, b.toNat < 128) :
    hMSB (fnvHash (bytes.map UInt8.toNat)) = some ((fnv1a bytes).toNat / 2 ^ 32) ∧
      hLSB (fnvHash (bytes.map UInt8.toNat)) = some ((fnv1a bytes).toNat % 2 ^ 32) := by
  have hlt := (fnv1a bytes).toNat_lt
  have hdigits : fnvHash (bytes.map UInt8.toNat) = Hex.digits (8 + 8) (fnv1a bytes).toNat := by
    rw [fnvHash, ← fnv1a_toNat bytes h]
    exact Hex.replicate_append_toDigits (by norm_num) (hlt.trans_eq (by norm_num))
  rw [hdigits, hMSB, hLSB, stringSlice_left, stringSlice_right 8 8 _ le_rfl,
    parseInt16_digits (by norm_num), parseInt16_digits (by norm_num)]
  refine ⟨congrArg some ?_, rfl⟩
  omega

theorem fnvHash_fnv1a_x :
    hMSB (fnvHash [120]) = some 0xaf63f54c ∧ hLSB (fnvHash [120]) = some 0x86021707 := by
  have hhash : (fnv1a [120]).toNat = 0xaf63f54c86021707 := rfl
  have hascii (b : UInt8) (hb : b ∈ [120]) : b.toNat < 128 := by
    rw [List.mem_singleton.mp hb]
    decide
  have h := fnvHash_fnv1a [120] hascii
  rw [hhash] at h
  exact h

/-! ### Numbers -/

/-- Without white space and signs. -/
def Plain (s : List Char) : Prop := ∀ c ∈ s, isWhite c = false ∧ c ≠ '-' ∧ c ≠ '+'

/-- The prefix of a base, and no digits. -/
def BarePrefix (s : List Char) : Prop := (splitPrefix s).1 = [] ∧ s ≠ []

/-- Characters between the digits and the small letters. -/
theorem plain_char {c : Char} (hlow : 48 ≤ c.toNat) (hhigh : c.toNat ≤ 122) :
    isWhite c = false ∧ c ≠ '-' ∧ c ≠ '+' := by
  refine ⟨?_, ?_, ?_⟩
  · rw [isWhite, Bool.or_eq_false_iff]
    constructor
    · simp only [List.mem_cons, List.not_mem_nil, or_false, decide_eq_false_iff_not]
      omega
    · simp only [Bool.and_eq_false_imp, decide_eq_true_eq, decide_eq_false_iff_not]
      omega
  · rintro rfl
    exact absurd hlow (by decide)
  · rintro rfl
    exact absurd hlow (by decide)

theorem plain_of_valid {s : List Char} {base : ℕ} (hbase : base ≤ 10 ∨ base = 16)
    (h : checkValidNumber s base = true) : Plain s := by
  intro c hc
  rw [checkValidNumber] at h
  split_ifs at h with hsixteen
  · have hvalid := List.all_eq_true.mp h c hc
    simp only [Bool.or_eq_true, Bool.and_eq_true, decide_eq_true_eq] at hvalid
    have hrange : (48 ≤ c.toNat ∧ c.toNat ≤ 57 ∨ 97 ≤ c.toNat ∧ c.toNat ≤ 102) ∨
        65 ≤ c.toNat ∧ c.toNat ≤ 70 := hvalid
    exact plain_char (by omega) (by omega)
  · have hvalid := List.all_eq_true.mp h c hc
    simp only [Bool.and_eq_true, decide_eq_true_eq] at hvalid
    have hrange : 48 ≤ c.toNat ∧ c.toNat < 48 + base := hvalid
    exact plain_char (by omega) (by omega)

theorem trim_of_plain {s : List Char} (h : Plain s) : trim s = s := by
  have hdrop (t : List Char) (ht : ∀ c ∈ t, isWhite c = false) : t.dropWhile isWhite = t := by
    cases t with
    | nil => rfl
    | cons c t => rw [List.dropWhile_cons_of_neg (by simp [ht c List.mem_cons_self])]
  rw [trim, hdrop s fun c hc => (h c hc).1, hdrop s.reverse fun c hc =>
    (h c (List.mem_reverse.mp hc)).1, List.reverse_reverse]

theorem stringToBigInt_of_plain {s : List Char} (h : Plain s) (hne : s ≠ []) :
    stringToBigInt s = stringDigits (splitPrefix s).2 (splitPrefix s).1 := by
  rw [stringToBigInt, trim_of_plain h]
  split
  · exact absurd rfl hne
  · rfl
  · rfl
  · rfl
  · rfl
  · rfl
  · rfl
  · exact absurd rfl (h '-' List.mem_cons_self).2.1
  · exact absurd rfl (h '+' List.mem_cons_self).2.2
  · rw [splitPrefix] <;> assumption

theorem plain_cons {c : Char} {s : List Char} (hlow : 48 ≤ c.toNat) (hhigh : c.toNat ≤ 122)
    (h : Plain s) : Plain (c :: s) :=
  List.forall_mem_cons.mpr ⟨plain_char hlow hhigh, h⟩

/-- The digits are the text, or follow a prefix. -/
theorem splitPrefix_cases (s : List Char) :
    splitPrefix s = (s, 10) ∨ ∃ c, 48 ≤ c.toNat ∧ c.toNat ≤ 122 ∧
      s = '0' :: c :: (splitPrefix s).1 ∧ ((splitPrefix s).2 ≤ 8 ∨ (splitPrefix s).2 = 16) := by
  rw [splitPrefix.eq_def]
  split
  · exact .inr ⟨'b', by decide, by decide, rfl, .inl (by norm_num)⟩
  · exact .inr ⟨'B', by decide, by decide, rfl, .inl (by norm_num)⟩
  · exact .inr ⟨'o', by decide, by decide, rfl, .inl le_rfl⟩
  · exact .inr ⟨'O', by decide, by decide, rfl, .inl le_rfl⟩
  · exact .inr ⟨'x', by decide, by decide, rfl, .inr rfl⟩
  · exact .inr ⟨'X', by decide, by decide, rfl, .inr rfl⟩
  · exact .inl rfl

/-- Text with valid digits has no white space and no sign. -/
theorem plain_of_digits {s : List Char}
    (h : checkValidNumber (splitPrefix s).1 (splitPrefix s).2 = true) : Plain s := by
  rcases splitPrefix_cases s with hsplit | ⟨c, hlow, hhigh, hs, hbase⟩
  · rw [hsplit] at h
    exact plain_of_valid (.inl le_rfl) h
  · have hdigits := plain_of_valid (hbase.imp_left (·.trans (by norm_num))) h
    rw [hs]
    exact plain_cons (by decide) (by decide) (plain_cons hlow hhigh hdigits)

theorem jsonInteger_eq_ok_iff (s : String) (n : ℤ) :
    jsonInteger (.string s) = .ok n ↔
      checkValidNumber (splitPrefix s.toList).1 (splitPrefix s.toList).2 = true ∧
        (mpzSetStr (splitPrefix s.toList).1 (splitPrefix s.toList).2 : ℤ) = n := by
  rw [jsonInteger]
  generalize splitPrefix s.toList = split
  obtain ⟨digits, base⟩ := split
  dsimp only
  split_ifs with hvalid
  · exact ⟨fun h => ⟨hvalid, Except.ok.inj h⟩, fun h => congrArg Except.ok h.2⟩
  · exact ⟨nofun, fun h => absurd h.1 hvalid⟩

/-- **The two calculators read the same numbers**, but the program takes a bare prefix for a zero
and refuses white space and signs. -/
theorem jsonInteger_iff_stringToBigInt (s : String) (n : ℤ) :
    jsonInteger (.string s) = .ok n ↔ Plain s.toList ∧
      (stringToBigInt s.toList = some n ∨ BarePrefix s.toList ∧ n = 0) := by
  rw [jsonInteger_eq_ok_iff]
  by_cases hempty : s.toList = []
  · have hread : stringToBigInt [] = some 0 := rfl
    rw [hempty, hread]
    have hbare : ¬ BarePrefix [] := fun h => h.2 rfl
    rw [Option.some_inj, or_iff_left fun h => hbare h.1]
    exact ⟨fun h => ⟨nofun, h.2⟩, fun h => ⟨rfl, h.2⟩⟩
  constructor
  · rintro ⟨hvalid, rfl⟩
    have hplain := plain_of_digits hvalid
    refine ⟨hplain, ?_⟩
    rw [stringToBigInt_of_plain hplain hempty, stringDigits, hvalid, Bool.and_true]
    by_cases hdigits : (splitPrefix s.toList).1 = []
    · rw [hdigits]
      exact .inr ⟨⟨hdigits, hempty⟩, rfl⟩
    · rw [List.isEmpty_eq_false_iff.mpr hdigits]
      exact .inl rfl
  · rintro ⟨hplain, hread | ⟨⟨hdigits, -⟩, rfl⟩⟩
    · rw [stringToBigInt_of_plain hplain hempty, stringDigits] at hread
      split_ifs at hread with hvalid
      rw [Bool.and_eq_true] at hvalid
      exact ⟨hvalid.2, Option.some_inj.mp hread⟩
    · rw [hdigits]
      refine ⟨?_, rfl⟩
      rw [checkValidNumber]
      split_ifs <;> rfl

theorem normalize_eq (n : ℤ) : normalize n frModulus = ((n : Fr).val : ℤ) := by
  have hpos : (0 : ℤ) < frModulus := by norm_num
  have hnonneg := Int.emod_nonneg n hpos.ne'
  have hlt := Int.emod_lt_of_pos n hpos
  rw [ZMod.val_intCast, normalize, Int.tmod_eq_emod]
  split_ifs with hsign hneg hneg
  · omega
  · omega
  · omega
  · omega

/-! ### Shared memory -/

theorem toArray32_loop_zero (res : List ℕ) : toArray32.loop 0 res = res := by
  rw [toArray32.loop, if_pos rfl]

theorem toArray32_loop_pos {rem : ℕ} (h : rem ≠ 0) (res : List ℕ) :
    toArray32.loop rem res = toArray32.loop (rem / 2 ^ 32) (rem % 2 ^ 32 :: res) := by
  rw [toArray32.loop, if_neg h]

theorem toArray32_loop_append (rem : ℕ) (res : List ℕ) :
    toArray32.loop rem res = toArray32.loop rem [] ++ res := by
  induction rem using Nat.strongRecOn generalizing res with
  | ind rem ih =>
      by_cases hzero : rem = 0
      · rw [hzero, toArray32_loop_zero, toArray32_loop_zero, List.nil_append]
      · have hlt := Nat.div_lt_self (Nat.pos_of_ne_zero hzero) (k := 2 ^ 32) (by norm_num)
        rw [toArray32_loop_pos hzero, toArray32_loop_pos hzero, ih _ hlt (_ :: res), ih _ hlt [_],
          List.append_assoc]
        rfl

theorem toArray32_succ (v n : ℕ) :
    toArray32 v (n + 1) = toArray32 (v / 2 ^ 32) n ++ [v % 2 ^ 32] := by
  by_cases hv : v = 0
  · rw [hv, toArray32, toArray32, Nat.zero_div, toArray32_loop_zero, List.append_nil,
      List.append_nil]
    exact List.replicate_succ'
  · have hloop := (toArray32_loop_pos hv []).trans (toArray32_loop_append _ _)
    rw [toArray32, toArray32, hloop, List.length_append, List.length_singleton,
      Nat.add_sub_add_right, List.append_assoc]

theorem length_toArray32 {v n : ℕ} (h : v < 2 ^ (32 * n)) : (toArray32 v n).length = n := by
  induction n generalizing v with
  | zero =>
      obtain rfl : v = 0 := by simpa using h
      rw [toArray32, toArray32_loop_zero]
      rfl
  | succ n ih =>
      have hquotient : v / 2 ^ 32 < 2 ^ (32 * n) := by
        rw [Nat.div_lt_iff_lt_mul (by norm_num), ← pow_add]
        exact h
      rw [toArray32_succ, List.length_append, List.length_singleton, ih hquotient]

/-- The words that are written for a number are its digits, least significant first. -/
theorem sharedWords_eq {v n j : ℕ} (h : v < 2 ^ (32 * n)) (hj : j < n) :
    sharedWords n v j = v / 2 ^ (32 * j) % 2 ^ 32 := by
  induction n generalizing v j with
  | zero => exact absurd hj (Nat.not_lt_zero j)
  | succ n ih =>
      have hquotient : v / 2 ^ 32 < 2 ^ (32 * n) := by
        rw [Nat.div_lt_iff_lt_mul (by norm_num), ← pow_add]
        exact h
      rw [sharedWords, toArray32_succ, Nat.add_sub_cancel]
      cases j with
      | zero =>
          rw [Nat.sub_zero, List.getD_append_right _ _ _ _ (length_toArray32 hquotient).le,
            length_toArray32 hquotient, Nat.sub_self, mul_zero, pow_zero, Nat.div_one]
          rfl
      | succ j =>
          have hrest := ih hquotient (Nat.lt_of_succ_lt_succ hj)
          rw [List.getD_append _ _ _ _ (by rw [length_toArray32 hquotient]; omega),
            show n - (j + 1) = n - 1 - j by omega]
          rw [sharedWords] at hrest
          rw [hrest, Nat.div_div_eq_div_mul, ← pow_add, mul_add, mul_one, add_comm]

theorem fromArray32_toArray32 {v n : ℕ} (h : v < 2 ^ (32 * n)) :
    fromArray32 (toArray32 v n) = v := by
  induction n generalizing v with
  | zero =>
      obtain rfl : v = 0 := by simpa using h
      rw [toArray32, toArray32_loop_zero]
      rfl
  | succ n ih =>
      have hquotient : v / 2 ^ 32 < 2 ^ (32 * n) := by
        rw [Nat.div_lt_iff_lt_mul (by norm_num), ← pow_add]
        exact h
      have hlast : fromArray32 (toArray32 v (n + 1))
          = fromArray32 (toArray32 (v / 2 ^ 32) n) * 2 ^ 32 + v % 2 ^ 32 := by
        rw [toArray32_succ, fromArray32, List.foldl_append]
        rfl
      rw [hlast, ih hquotient]
      exact Nat.div_add_mod' v (2 ^ 32)

/-- What is written to the shared memory is read back. -/
theorem fromArray32_readArray {v n : ℕ} (h : v < 2 ^ (32 * n)) :
    fromArray32 (readArray n (sharedWords n v)) = v := by
  have harray : readArray n (sharedWords n v) = toArray32 v n := by
    refine List.ext_getElem (by rw [readArray, List.length_map, List.length_range,
      length_toArray32 h]) fun k hk hk' => ?_
    rw [length_toArray32 h] at hk'
    simp only [readArray, List.getElem_map, List.getElem_range, sharedWords]
    rw [show n - 1 - (n - 1 - k) = k by omega]
    exact List.getD_eq_getElem _ _ _
  rw [harray, fromArray32_toArray32 h]

/-- **A number enters the shared memory as its residue**, and is read back as it entered. -/
theorem normalize_roundTrip (n : ℤ) :
    fromArray32 (readArray 8 (sharedWords 8 (normalize n frModulus).toNat)) = (n : Fr).val := by
  have hlt : (n : Fr).val < 2 ^ (32 * 8) := (ZMod.val_lt _).trans (by norm_num)
  rw [normalize_eq, Int.toNat_natCast, fromArray32_readArray hlt]

/-! ### The witness file -/

/-- Words of 32 bits, least significant first. -/
def words32 (v j : ℕ) : ℕ := v / 2 ^ (32 * j) % 2 ^ 32

theorem encode_word (v : ℕ) : LittleEndian.encode 4 (v % 2 ^ 32) = LittleEndian.encode 4 v :=
  LittleEndian.encode_mod 4 v

theorem flatMap_words32 (n v : ℕ) :
    ((List.range n).map (words32 v)).flatMap (LittleEndian.encode 4)
      = LittleEndian.encode (4 * n) v := by
  induction n with
  | zero => rfl
  | succ n ih =>
      rw [List.range_succ, List.map_append, List.flatMap_append, ih, Nat.mul_succ,
        LittleEndian.encode_add, List.map_singleton, List.flatMap_singleton, words32, encode_word,
        pow_mul, pow_mul]
      norm_num

theorem foldl_zeros (k : ℕ) :
    (List.replicate k '0').foldl (fun n c => n * 16 + (Hex.digitValue c).getD 0) 0 = 0 := by
  induction k with
  | zero => rfl
  | succ k ih => exact ih

/-- The words of a length below `2 ^ 32`. -/
theorem lengthWords_small {n : ℕ} (h : n < 2 ^ 32) : lengthWords n = [n, 0] := by
  have hlength : (Nat.toDigits 16 n).length ≤ 8 :=
    (Nat.length_toDigits_le_iff (by norm_num) (by norm_num)).mpr (h.trans_eq (by norm_num))
  have hleft : stringSlice (Nat.toDigits 16 n) 0 8 = Nat.toDigits 16 n := by
    rw [stringSlice, List.drop_zero, List.take_of_length_le hlength]
  have hright : stringSlice (Nat.toDigits 16 n) 8 16 = [] := by
    rw [stringSlice, List.take_of_length_le (by omega), List.drop_of_length_le hlength]
  have hpadded := Hex.replicate_append_toDigits (show 0 < 8 by norm_num)
    (h.trans_eq (by norm_num))
  have hfold := foldl_digits 8 n 0
  rw [← hpadded, List.foldl_append, foldl_zeros, zero_mul, zero_add,
    Nat.mod_eq_of_lt (h.trans_eq (by norm_num))] at hfold
  have hne : (Nat.toDigits 16 n).isEmpty = false :=
    List.isEmpty_eq_false_iff.mpr Nat.toDigits_ne_nil
  have hdigits : parseInt16 (Nat.toDigits 16 n) = some n := by
    rw [parseInt16, hne, if_neg Bool.false_ne_true, hfold]
  rw [lengthWords, hleft, hright, hdigits]
  rfl

/-- A longer length is cut after its first eight hexadecimal digits. -/
theorem lengthWords_large {n k : ℕ} (hk : 0 < k) (hk' : k ≤ 8) (hlow : 16 ^ (7 + k) ≤ n)
    (hhigh : n < 16 ^ (8 + k)) : lengthWords n = [n / 16 ^ k, n % 16 ^ k] := by
  have hlength : (Nat.toDigits 16 n).length = 8 + k := by
    have hle := (Nat.length_toDigits_le_iff (b := 16) (by norm_num) (by omega)).mpr hhigh
    have hgt := mt (Nat.length_toDigits_le_iff (b := 16) (by norm_num) (by omega)).mp hlow.not_gt
    omega
  have hdigits : Nat.toDigits 16 n = Hex.digits (8 + k) n := by
    have h := Hex.replicate_append_toDigits (show 0 < 8 + k by omega) hhigh
    rwa [hlength, Nat.sub_self, List.replicate_zero, List.nil_append] at h
  have hquotient : n / 16 ^ k < 16 ^ 8 := by
    rw [Nat.div_lt_iff_lt_mul (by positivity), ← pow_add]
    exact hhigh
  rw [lengthWords, hdigits, stringSlice_left, stringSlice_right 8 k n (by omega),
    parseInt16_digits (by norm_num), parseInt16_digits hk, Nat.mod_eq_of_lt hquotient]
  rfl

theorem encode_eight (n : ℕ) :
    LittleEndian.encode 8 n = LittleEndian.encode 4 n ++ LittleEndian.encode 4 (n / 2 ^ 32) := by
  rw [show 8 = 4 + 4 from rfl, LittleEndian.encode_add]
  norm_num

/-- The bytes of a length, cut after a word, are those of two words. -/
theorem length_bytes_iff (a b n : ℕ) :
    [a, b].flatMap (LittleEndian.encode 4) = LittleEndian.encode 8 n ↔
      a % 2 ^ 32 = n % 2 ^ 32 ∧ b % 2 ^ 32 = n / 2 ^ 32 % 2 ^ 32 := by
  have hsame (x y : ℕ) :
      LittleEndian.encode 4 x = LittleEndian.encode 4 y ↔ x % 2 ^ 32 = y % 2 ^ 32 := by
    constructor
    · intro h
      have hnat := congrArg LittleEndian.toNat h
      rwa [LittleEndian.toNat_encode, LittleEndian.toNat_encode] at hnat
    · intro h
      rw [← encode_word x, h, encode_word]
  rw [List.flatMap_cons, List.flatMap_singleton, encode_eight, ← hsame, ← hsame]
  constructor
  · intro h
    exact List.append_inj h (by rw [LittleEndian.length_encode, LittleEndian.length_encode])
  · rintro ⟨h, h'⟩
    rw [h, h']

/-- The length of the witness section is right as long as it fits a word. -/
theorem lengthWords_iff {size : ℕ} (hsize : size < 2 ^ 32) :
    (lengthWords (32 * size)).flatMap (LittleEndian.encode 4) = LittleEndian.encode 8 (32 * size) ↔
      32 * size < 2 ^ 32 := by
  rcases Nat.lt_or_ge (32 * size) (2 ^ 32) with hsmall | hlarge
  · rw [lengthWords_small hsmall, length_bytes_iff, Nat.div_eq_of_lt hsmall]
    exact iff_of_true ⟨rfl, rfl⟩ hsmall
  · refine iff_of_false ?_ hlarge.not_gt
    rcases Nat.lt_or_ge (32 * size) (16 ^ 9) with hnine | hten
    · rw [lengthWords_large (k := 1) (by norm_num) (by norm_num) (by omega) (by omega),
        length_bytes_iff]
      omega
    · rw [lengthWords_large (k := 2) (by norm_num) (by norm_num) (by omega) (by omega),
        length_bytes_iff]
      omega

theorem flatMap_range_getD {α : Type} (l : List ℕ) (f : ℕ → List α) :
    (List.range l.length).flatMap (fun i => f (l.getD i 0)) = l.flatMap f := by
  have hlist : (List.range l.length).map (fun i => l.getD i 0) = l := by
    refine List.ext_getElem (by rw [List.length_map, List.length_range]) fun k hk hk' => ?_
    simp only [List.getElem_map, List.getElem_range]
    exact List.getD_eq_getElem _ _ hk'
  conv_rhs => rw [← hlist]
  rw [List.flatMap_map]

end Veritas
