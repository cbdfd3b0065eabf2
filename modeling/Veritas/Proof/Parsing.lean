import Veritas.Contract

/-!
# What the parsers read

Every parser of the contract is a sequence of 32-byte reads, so each is of fixed width: it returns a
function of the bytes it spans, or traps because the blob is too short. The values are stated on the
blob, which is the form the checks around the parsers are about.
-/

namespace Veritas

open Cursor

@[simp]
theorem toVec_eq (b : Bytes) : toVec b = b := by
  have happend : ∀ out : List UInt8, b.foldl (fun out byte => out ++ [byte]) out = out ++ b := by
    induction b with
    | nil => simp
    | cons byte b ih =>
        intro out
        rw [List.foldl_cons, ih, List.append_assoc, List.singleton_append]
  exact happend []

theorem readField_fixedWidth (modulus : ℕ) (b : List UInt8) :
    FixedWidth .indexOutOfBounds b 32 (readField modulus b) (fromBeBytesModOrder modulus) := by
  intro offset _
  by_cases h : offset + 32 ≤ b.length
  · rw [if_pos h]
    simp [readField, slice, h]
  · rw [if_neg h]
    simp [readField, slice, h]

theorem readByte_run (b : List UInt8) (offset : ℕ) :
    (readByte b).run offset = (fun byte => (byte, offset + 1)) <$> index b offset := by
  cases hbyte : index b offset <;> simp [readByte, hbyte]

def g1Of (word : List UInt8) : G1Affine :=
  .newUnchecked (fromBeBytesModOrder fqModulus (window word 0 32))
    (fromBeBytesModOrder fqModulus (window word 32 32))

/-- The point a 128-byte word spells, `c0` before `c1` in both coordinates. -/
def g2Of (word : List UInt8) : G2Affine :=
  .newUnchecked
    ⟨fromBeBytesModOrder fqModulus (window word 0 32),
      fromBeBytesModOrder fqModulus (window word 32 32)⟩
    ⟨fromBeBytesModOrder fqModulus (window word 64 32),
      fromBeBytesModOrder fqModulus (window word 96 32)⟩

def proofOf (blob : List UInt8) : Proof where
  a := g1Of (window blob 0 64)
  b := g2Of (window blob 64 128)
  c := g1Of (window blob 192 64)

/-- The number of public inputs a key blob announces in its byte 448. -/
def announced (blob : List UInt8) : ℕ := (blob[448]?.getD 0).toNat

def vkOf (blob : List UInt8) : VerifyingKey where
  alphaG1 := g1Of (window blob 0 64)
  betaG2 := g2Of (window blob 64 128)
  gammaG2 := g2Of (window blob 192 128)
  deltaG2 := g2Of (window blob 320 128)
  ic := pieces 64 g1Of (announced blob + 1)
    (window blob 449 ((announced blob + 1) * 64))

def publicSignal (blob : List UInt8) (i : ℕ) : Fr :=
  fromBeBytesModOrder frModulus (window blob (i * 32) 32)

def publicSignals (blob : List UInt8) (n : ℕ) : List Fr := (List.range n).map (publicSignal blob)

theorem readFq_fixedWidth (b : List UInt8) :
    FixedWidth .indexOutOfBounds b 32 (readFq b) (fromBeBytesModOrder fqModulus) :=
  readField_fixedWidth fqModulus b

theorem readFr_fixedWidth (b : List UInt8) :
    FixedWidth .indexOutOfBounds b 32 (readFr b) (fromBeBytesModOrder frModulus) :=
  readField_fixedWidth frModulus b

theorem takeG1_fixedWidth (b : List UInt8) :
    FixedWidth .indexOutOfBounds b 64 (takeG1 b) g1Of := by
  have hread := readFq_fixedWidth b
  refine (hread.bind fun x => hread.map (G1Affine.newUnchecked x)).congr fun word hword => ?_
  have hlast : window word 32 32 = word.drop 32 := window_eq_drop hword
  rw [g1Of, hlast]
  simp [window]

theorem takeG2_fixedWidth (b : List UInt8) :
    FixedWidth .indexOutOfBounds b 128 (takeG2 b) g2Of := by
  have hread := readFq_fixedWidth b
  refine (hread.bind fun c0a => hread.bind fun c1a => hread.bind fun c0b =>
    hread.map fun c1b => G2Affine.newUnchecked ⟨c0a, c1a⟩ ⟨c0b, c1b⟩).congr fun word hword => ?_
  have hlast : window word 96 32 = word.drop 96 := window_eq_drop hword
  rw [g2Of, hlast]
  simp [window]

theorem takeProof_fixedWidth (b : List UInt8) :
    FixedWidth .indexOutOfBounds b 256 (takeProof b) proofOf := by
  have hread := readFq_fixedWidth b
  refine (hread.bind fun ax => hread.bind fun ay => hread.bind fun bxc0 =>
    hread.bind fun bxc1 => hread.bind fun byc0 => hread.bind fun byc1 => hread.bind fun cx =>
      hread.map fun cy => Proof.mk (.newUnchecked ax ay)
        (.newUnchecked ⟨bxc0, bxc1⟩ ⟨byc0, byc1⟩) (.newUnchecked cx cy)).congr fun word hword => ?_
  have hlast : List.take 32 (List.drop 224 word) = List.drop 224 word := window_eq_drop hword
  simp [proofOf, g1Of, g2Of, window, List.drop_take, List.take_take, hlast]

theorem parseProof_eq {blob : List UInt8} (hlength : blob.length = 256) :
    parseProof blob = .ok (proofOf blob) := by
  rw [parseProof, StateT.run'_eq, (takeProof_fixedWidth blob).run_whole hlength]
  rfl

def takeVkPoints (b : List UInt8) :
    StateT ℕ (Except Trap) (G1Affine × G2Affine × G2Affine × G2Affine) := do
  let alphaG1 ← takeG1 b
  let betaG2 ← takeG2 b
  let gammaG2 ← takeG2 b
  let deltaG2 ← takeG2 b
  return (alphaG1, betaG2, gammaG2, deltaG2)

theorem takeVkPoints_fixedWidth (b : List UInt8) :
    FixedWidth .indexOutOfBounds b 448 (takeVkPoints b) fun word =>
      (g1Of (window word 0 64), g2Of (window word 64 128), g2Of (window word 192 128),
        g2Of (window word 320 128)) := by
  have hg1 := takeG1_fixedWidth b
  have hg2 := takeG2_fixedWidth b
  refine (hg1.bind fun alpha => hg2.bind fun beta => hg2.bind fun gamma =>
    hg2.map fun delta => (alpha, beta, gamma, delta)).congr fun word hword => ?_
  have hlast : window word 320 128 = word.drop 320 := window_eq_drop hword
  rw [hlast]
  simp [window]

theorem takeVk_eq (b : List UInt8) :
    takeVk b = (do
      let points ← takeVkPoints b
      let n ← readByte b
      let ic ← Cursor.repeatRead (takeG1 b) (n.toNat + 1)
      return ⟨points.1, points.2.1, points.2.2.1, points.2.2.2, ic⟩) := by
  simp [takeVk, takeVkPoints]

/-- **What a key blob parses to.** The announced number of public inputs fixes how many bytes are
read; a shorter blob traps, and bytes past them are never looked at. -/
theorem parseVk_eq (blob : List UInt8) :
    parseVk blob = if 449 + (announced blob + 1) * 64 ≤ blob.length then .ok (vkOf blob)
      else .error .indexOutOfBounds := by
  rw [parseVk, StateT.run'_eq, takeVk_eq, StateT.run_bind,
    takeVkPoints_fixedWidth blob 0 (Nat.zero_le _)]
  by_cases hbyte : 448 < blob.length
  · have hn : blob[448]? = some blob[448] := List.getElem?_eq_getElem hbyte
    have hannounced : blob[448].toNat = announced blob := by simp [announced, hn]
    have hic := (takeG1_fixedWidth blob).repeatRead (announced blob + 1) 449 (by omega)
    rw [if_pos (by omega)]
    simp only [ok_bind, StateT.run_bind, readByte_run, Nat.zero_add, index_of_getElem? hn, map_ok,
      hannounced, hic]
    by_cases hlength : 449 + (announced blob + 1) * 64 ≤ blob.length
    · rw [if_pos hlength, if_pos hlength]
      simp [vkOf, window_window]
    · rw [if_neg hlength, if_neg hlength]
      rfl
  · have hshort : ¬ 449 + (announced blob + 1) * 64 ≤ blob.length := by omega
    rw [if_neg hshort]
    by_cases hpoints : 0 + 448 ≤ blob.length
    · rw [if_pos hpoints]
      simp [StateT.run_bind, readByte_run, index_of_le (Nat.le_of_not_lt hbyte)]
    · rw [if_neg hpoints]
      rfl

/-! ### Parsed points are finite -/

/-- No point carries the infinity flag. -/
structure Proof.Finite (proof : Proof) : Prop where
  a : proof.a.infinity = false
  b : proof.b.infinity = false
  c : proof.c.infinity = false

structure VerifyingKey.Finite (vk : VerifyingKey) : Prop where
  alphaG1 : vk.alphaG1.infinity = false
  betaG2 : vk.betaG2.infinity = false
  gammaG2 : vk.gammaG2.infinity = false
  deltaG2 : vk.deltaG2.infinity = false
  ic : ∀ p ∈ vk.ic, p.infinity = false

theorem vkOf_finite (blob : List UInt8) : (vkOf blob).Finite := by
  refine ⟨rfl, rfl, rfl, rfl, fun p hp => ?_⟩
  obtain ⟨word, rfl⟩ := exists_eq_of_mem_pieces 64 g1Of hp
  rfl

/-- The parser calls `newUnchecked`, which never builds the point at infinity. -/
theorem parseVk_finite {blob : List UInt8} {vk : VerifyingKey} (h : parseVk blob = .ok vk) :
    vk.Finite := by
  rw [parseVk_eq] at h
  split at h
  · cases h
    exact vkOf_finite blob
  · cases h

/-! ### The public inputs -/

@[simp]
theorem length_publicSignals (blob : List UInt8) (n : ℕ) : (publicSignals blob n).length = n := by
  simp [publicSignals]

theorem getElem?_publicSignals (blob : List UInt8) {n i : ℕ} (h : i < n) :
    (publicSignals blob n)[i]? = some (publicSignal blob i) := by
  simp [publicSignals, h]

theorem pieces_eq_publicSignals (blob : List UInt8) (n : ℕ) :
    pieces 32 (fromBeBytesModOrder frModulus) n (window blob 0 (n * 32))
      = publicSignals blob n := by
  apply List.ext_getElem?
  intro i
  by_cases hi : i < n
  · rw [getElem?_pieces _ _ _ hi, getElem?_publicSignals _ hi, window_window _ (by omega),
      Nat.zero_add, publicSignal]
  · rw [List.getElem?_eq_none (by simpa using Nat.le_of_not_lt hi),
      List.getElem?_eq_none (by simpa using Nat.le_of_not_lt hi)]

/-- The public loop reads the signals in order, as long as the blob holds that many. -/
theorem readPublic_eq (blob : List UInt8) (n : ℕ) :
    readPublic blob n = if n * 32 ≤ blob.length then .ok (publicSignals blob n)
      else .error .indexOutOfBounds := by
  rw [readPublic, StateT.run'_eq,
    (readFr_fixedWidth blob).repeatRead n 0 (Nat.zero_le _), Nat.zero_add]
  split
  · rw [map_ok, pieces_eq_publicSignals]
  · rfl

end Veritas
