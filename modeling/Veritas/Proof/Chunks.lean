import Veritas.Proof.Acceptance

/-!
# Chunks that denote one scalar

Reading reduces a 32-byte chunk modulo the field order, and writing always produces the chunk of the
representative. So chunks whose integers differ by a multiple of the order cannot be told apart once
they are read, and a chunk whose integer is not below the order is never written again.
-/

namespace Veritas

open Cursor

/-- The integer a chunk spells. -/
def integer (chunk : BytesN 32) : ℕ := BigEndian.toNat chunk.toList

def scalarOf (chunk : BytesN 32) : Fr := fromBeBytesModOrder frModulus chunk.toList

def Canonical (chunk : BytesN 32) : Prop := integer chunk < frModulus

/-- Wherever the chunk stands in a blob, reading there gives its scalar and moves past it. -/
theorem readFr_chunk (before after : Bytes) (chunk : BytesN 32) :
    (readFr (before ++ chunk.toList ++ after)).run before.length
      = .ok (scalarOf chunk, before.length + 32) := by
  have hlength : chunk.toList.length = 32 := Vector.length_toList
  have hwindow : window (before ++ chunk.toList ++ after) before.length 32 = chunk.toList := by
    rw [List.append_assoc, window_append_right _ le_rfl, Nat.sub_self,
      window_append_left _ (by omega), window_self hlength]
  rw [readFr_fixedWidth _ before.length (by simp), if_pos (by simp), hwindow, scalarOf]

theorem frToBytesn_scalarOf (chunk : BytesN 32) :
    (frToBytesn (scalarOf chunk)).toList
      = BigEndian.encode 32 (integer chunk % frModulus) := by
  rw [toList_frToBytesn, scalarOf, fromBeBytesModOrder, ZMod.val_natCast, integer]

theorem scalarOf_frToBytesn (f : Fr) : scalarOf (frToBytesn f) = f :=
  fromBeBytesModOrder_frToBytesn f

theorem frToBytesn_scalarOf_eq_iff (chunk chunk' : BytesN 32) :
    frToBytesn (scalarOf chunk) = frToBytesn (scalarOf chunk') ↔
      integer chunk ≡ integer chunk' [MOD frModulus] := by
  rw [← Vector.toList_inj, frToBytesn_scalarOf, frToBytesn_scalarOf]
  exact BigEndian.encode_mod_eq_encode_mod_iff frModulus_prime.pos frModulus_le _ _

theorem frToBytesn_scalarOf_eq_self_iff (chunk : BytesN 32) :
    frToBytesn (scalarOf chunk) = chunk ↔ Canonical chunk := by
  have hlength : chunk.toList.length = 32 := Vector.length_toList
  have hwidth : frModulus ≤ 256 ^ chunk.toList.length := by
    rw [hlength]
    exact frModulus_le
  have hself := BigEndian.encode_toNat_mod_eq_self_iff frModulus_prime.pos hwidth
  rw [hlength] at hself
  rw [← Vector.toList_inj, frToBytesn_scalarOf]
  exact hself

/-- Writing only produces canonical chunks. -/
theorem canonical_frToBytesn (f : Fr) : Canonical (frToBytesn f) := by
  rw [← frToBytesn_scalarOf_eq_self_iff, scalarOf_frToBytesn]

/-! ### Stored constants -/

/-- `verifyCredential` compares a signal of the circuit with the stored bytes. -/
def Compared (storage : Storage) (circuit : UInt32) (stored : BytesN 32) : Prop :=
  ((circuit = 1 ∨ circuit = 3) ∧
      (storage .issAx = some stored ∨ storage .issAy = some stored)) ∨
    (circuit = 2 ∧ storage .root = some stored)

theorem canonical_of_eq_some {stored : BytesN 32} {f : Fr} {entry : Option (BytesN 32)}
    (hmatches : entry = some (frToBytesn f)) (hstored : entry = some stored) :
    Canonical stored := by
  rw [hmatches, Option.some.injEq] at hstored
  rw [← hstored]
  exact canonical_frToBytesn f

theorem IssuerMatches.canonical {storage : Storage} {x y : Fr} (h : IssuerMatches storage x y)
    {stored : BytesN 32} (hstored : storage .issAx = some stored ∨ storage .issAy = some stored) :
    Canonical stored := by
  rcases hstored with hstored | hstored
  · exact canonical_of_eq_some h.x hstored
  · exact canonical_of_eq_some h.y hstored

/-- An accepted submission matched every constant it was compared with. -/
theorem Accepted.canonical {groth16 : Groth16} {storage : Storage} {circuit : UInt32}
    {proof pub : Bytes} (h : Accepted groth16 storage circuit proof pub) {stored : BytesN 32}
    (hstored : Compared storage circuit stored) : Canonical stored := by
  rcases hstored with ⟨rfl | rfl, hstored⟩ | ⟨rfl, hstored⟩
  · obtain ⟨-, -, hissuer, -⟩ := (accepted_validOwner_iff ..).mp h
    exact hissuer.canonical hstored
  · obtain ⟨-, hissuer, -⟩ := (accepted_credentialAge_iff ..).mp h
    exact hissuer.canonical hstored
  · obtain ⟨-, -, hroot⟩ := (accepted_jurisdictionAllowed_iff ..).mp h
    exact canonical_of_eq_some hroot hstored

/-- **The scalar encoding is canonical.** Every scalar is written as the 32 big-endian bytes of its
representative and read back; every chunk is written back reduced. So chunks share a nullifier key
exactly when their integers are congruent, a chunk survives exactly when its integer is below the
order, and under a stored issuer coordinate or root that is not, no submission is accepted. -/
theorem scalar_encoding_canonical :
    (∀ (chunk : BytesN 32) (before after : Bytes),
      (readFr (before ++ chunk.toList ++ after)).run before.length
        = .ok (scalarOf chunk, before.length + 32)) ∧
    (∀ f : Fr, scalarOf (frToBytesn f) = f ∧
      f.val < frModulus ∧ (frToBytesn f).toList = BigEndian.encode 32 f.val) ∧
    (∀ chunk : BytesN 32,
      (frToBytesn (scalarOf chunk)).toList = BigEndian.encode 32 (integer chunk % frModulus) ∧
      (frToBytesn (scalarOf chunk) = chunk ↔ integer chunk < frModulus)) ∧
    (∀ chunk chunk' : BytesN 32,
      DataKey.nullifier (frToBytesn (scalarOf chunk))
          = DataKey.nullifier (frToBytesn (scalarOf chunk')) ↔
        integer chunk ≡ integer chunk' [MOD frModulus]) ∧
    (∀ stored : BytesN 32, frModulus ≤ integer stored →
      (∀ f : Fr, frToBytesn f ≠ stored) ∧
      ∀ (groth16 : Groth16) (env : Env) (ledger : Ledger) (circuit : UInt32) (proof pub : Bytes),
        Compared ledger.storage circuit stored →
        (step groth16 ledger ⟨env, .verifyCredential circuit proof pub⟩).2
          ≠ .ok (.bool true)) := by
  refine ⟨?_, ?_, ?_, ?_, ?_⟩
  · intro chunk before after
    exact readFr_chunk before after chunk
  · intro f
    exact ⟨scalarOf_frToBytesn f, f.val_lt, toList_frToBytesn f⟩
  · intro chunk
    exact ⟨frToBytesn_scalarOf chunk, frToBytesn_scalarOf_eq_self_iff chunk⟩
  · intro chunk chunk'
    rw [DataKey.nullifier.injEq, frToBytesn_scalarOf_eq_iff]
  · intro stored hlarge
    refine ⟨?_, ?_⟩
    · rintro f rfl
      exact absurd (canonical_frToBytesn f) hlarge.not_gt
    · intro groth16 env ledger circuit proof pub hcompared houtcome
      obtain ⟨haccepted, -⟩ := step_accepted_verifyCredential groth16 houtcome
      exact absurd (haccepted.canonical hcompared) hlarge.not_gt

/-- The chunk of the order itself reads as zero: it shares the key of the zero chunk, and no scalar
is written as it. -/
theorem scalar_encoding_canonical_order :
    let order : BytesN 32 := ⟨(BigEndian.encode 32 frModulus).toArray, by simp⟩
    DataKey.nullifier (frToBytesn (scalarOf order))
        = DataKey.nullifier (frToBytesn (scalarOf (Vector.replicate 32 0))) ∧
      frToBytesn (scalarOf order) ≠ order ∧ ∀ f : Fr, frToBytesn f ≠ order := by
  intro order
  have horder : integer order = frModulus :=
    BigEndian.toNat_encode_of_lt (by norm_num)
  have hzero : integer (Vector.replicate 32 0) = 0 := rfl
  obtain ⟨-, -, hwrite, hkey, hunmatched⟩ := scalar_encoding_canonical
  refine ⟨(hkey _ _).mpr ?_, fun hself => ?_, (hunmatched order horder.ge).1⟩
  · rw [horder, hzero]
    rfl
  · exact absurd ((hwrite order).2.mp hself) horder.not_lt

end Veritas
