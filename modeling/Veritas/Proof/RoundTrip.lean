import Veritas.Encoder
import Veritas.Proof.Scalars
import Veritas.Proof.Parsing

/-!
# The byte format, end to end

Every value has one canonical blob, the concatenation of the 32-byte encodings of its canonical
representatives. The contract's parsers read a value back from its blob, and the script writes the
blob of the value its decimals denote; the two codecs meet there.
-/

namespace Veritas

open Cursor

/-! ### Canonical blobs -/

def g1Blob (p : G1Affine) : List UInt8 :=
  BigEndian.encode 32 p.x.val ++ BigEndian.encode 32 p.y.val

def g2Blob (p : G2Affine) : List UInt8 :=
  BigEndian.encode 32 p.x.c0.val ++ BigEndian.encode 32 p.x.c1.val
    ++ BigEndian.encode 32 p.y.c0.val ++ BigEndian.encode 32 p.y.c1.val

def proofBlob (proof : Proof) : List UInt8 := g1Blob proof.a ++ g2Blob proof.b ++ g1Blob proof.c

def pubBlob (pub : List Fr) : List UInt8 :=
  (pub.map fun f => BigEndian.encode 32 f.val).flatten

def vkBlob (vk : VerifyingKey) (n : ℕ) : List UInt8 :=
  g1Blob vk.alphaG1 ++ g2Blob vk.betaG2 ++ g2Blob vk.gammaG2 ++ g2Blob vk.deltaG2
    ++ [UInt8.ofNat n] ++ (vk.ic.map g1Blob).flatten

@[simp]
theorem length_g1Blob (p : G1Affine) : (g1Blob p).length = 64 := by simp [g1Blob]

@[simp]
theorem length_g2Blob (p : G2Affine) : (g2Blob p).length = 128 := by simp [g2Blob]

@[simp]
theorem length_proofBlob (proof : Proof) : (proofBlob proof).length = 256 := by simp [proofBlob]

theorem length_flatten_map {α : Type} (f : α → List UInt8) (width : ℕ)
    (h : ∀ a, (f a).length = width) (as : List α) :
    (as.map f).flatten.length = as.length * width := by
  induction as with
  | nil => simp
  | cons a as ih =>
      calc
        ((a :: as).map f).flatten.length = (f a).length + (as.map f).flatten.length := by
          rw [List.map_cons, List.flatten_cons, List.length_append]
        _ = (a :: as).length * width := by
          rw [ih, h, List.length_cons, Nat.succ_mul, Nat.add_comm]

@[simp]
theorem length_pubBlob (pub : List Fr) : (pubBlob pub).length = pub.length * 32 :=
  length_flatten_map _ 32 (by simp) pub

@[simp]
theorem length_vkBlob (vk : VerifyingKey) (n : ℕ) :
    (vkBlob vk n).length = 449 + vk.ic.length * 64 := by
  simp [vkBlob, length_flatten_map g1Blob 64 (by simp)]
  omega

/-! ### The contract reads a value back from its blob -/

theorem fqModulus_le : fqModulus ≤ 256 ^ 32 := by norm_num

theorem g1Of_g1Blob {p : G1Affine} (h : p.infinity = false) : g1Of (g1Blob p) = p := by
  obtain ⟨x, y, infinity⟩ := p
  cases h
  simp [g1Of, g1Blob, window_append_left, window_append_right, window_self,
    fromBeBytesModOrder_encode fqModulus_le, G1Affine.newUnchecked]

theorem g2Of_g2Blob {p : G2Affine} (h : p.infinity = false) : g2Of (g2Blob p) = p := by
  obtain ⟨⟨x0, x1⟩, ⟨y0, y1⟩, infinity⟩ := p
  cases h
  simp [g2Of, g2Blob, window_append_left, window_append_right, window_self,
    fromBeBytesModOrder_encode fqModulus_le, G2Affine.newUnchecked]

theorem parseProof_proofBlob {proof : Proof} (h : proof.Finite) :
    parseProof (proofBlob proof) = .ok proof := by
  rw [parseProof_eq (length_proofBlob proof)]
  simp [proofOf, proofBlob, window_append_left, window_append_right, window_self, g1Of_g1Blob h.a,
    g2Of_g2Blob h.b, g1Of_g1Blob h.c]

theorem parseVk_vkBlob {vk : VerifyingKey} (h : vk.Finite) {n : ℕ} (hn : n < 256)
    (hic : vk.ic.length = n + 1) : parseVk (vkBlob vk n) = .ok vk := by
  have hannounced : announced (vkBlob vk n) = n := by
    simp [announced, vkBlob, List.getElem?_append]
    omega
  have hwords : window (vkBlob vk n) 449 ((n + 1) * 64) = (vk.ic.map g1Blob).flatten := by
    rw [window_eq_drop (by rw [length_vkBlob, hic]), vkBlob, List.drop_left']
    simp
  have hpieces : pieces 64 g1Of (n + 1) (vk.ic.map g1Blob).flatten = vk.ic := by
    rw [← hic, ← List.length_map g1Blob, pieces_flatten 64 g1Of _ (by simp), List.map_map]
    refine (List.map_congr_left fun p hp => ?_).trans (List.map_id _)
    exact g1Of_g1Blob (h.ic p hp)
  rw [parseVk_eq, hannounced, if_pos (by rw [length_vkBlob, hic]), vkOf, hannounced, hwords,
    hpieces]
  simp [vkBlob, window_append_left, window_append_right, window_self, g1Of_g1Blob h.alphaG1,
    g2Of_g2Blob h.betaG2, g2Of_g2Blob h.gammaG2, g2Of_g2Blob h.deltaG2]

theorem publicSignals_pubBlob (pub : List Fr) : publicSignals (pubBlob pub) pub.length = pub := by
  have hwidth : ∀ word ∈ pub.map (fun f => BigEndian.encode 32 f.val), word.length = 32 := by
    simp
  have hpieces := pieces_flatten 32 (fromBeBytesModOrder frModulus) _ hwidth
  rw [List.length_map, List.map_map] at hpieces
  rw [← pieces_eq_publicSignals, window_self (length_pubBlob pub), pubBlob, hpieces]
  refine (List.map_congr_left fun f _ => ?_).trans (List.map_id _)
  exact fromBeBytesModOrder_encode frModulus_le f

theorem publicSignal_pubBlob {pub : List Fr} {i : ℕ} {f : Fr} (h : pub[i]? = some f) :
    publicSignal (pubBlob pub) i = f := by
  obtain ⟨hi, -⟩ := List.getElem?_eq_some_iff.mp h
  have hsignal := getElem?_publicSignals (pubBlob pub) hi
  rw [publicSignals_pubBlob, h, Option.some.injEq] at hsignal
  exact hsignal.symm

theorem readPublic_pubBlob (pub : List Fr) :
    readPublic (pubBlob pub) ((pubBlob pub).length / 32) = .ok pub := by
  have hcount : (pubBlob pub).length / 32 = pub.length := by
    rw [length_pubBlob, Nat.mul_div_cancel _ (by omega)]
  rw [hcount, readPublic_eq, if_pos (by rw [length_pubBlob]), publicSignals_pubBlob]

/-! ### The script writes the blob of what its decimals denote -/

def G1Json.point (v : G1Json) : G1Affine := .newUnchecked (bigInt v.x) (bigInt v.y)

def G2Json.point (v : G2Json) : G2Affine :=
  .newUnchecked ⟨bigInt v.x.1, bigInt v.x.2⟩ ⟨bigInt v.y.1, bigInt v.y.2⟩

def ProofJson.value (proof : ProofJson) : Proof :=
  ⟨proof.piA.point, proof.piB.point, proof.piC.point⟩

def VkeyJson.value (vk : VkeyJson) : VerifyingKey :=
  ⟨vk.vkAlpha1.point, vk.vkBeta2.point, vk.vkGamma2.point, vk.vkDelta2.point,
    vk.ic.map G1Json.point⟩

structure G1Json.Reduced (v : G1Json) : Prop where
  x : bigInt v.x < fqModulus
  y : bigInt v.y < fqModulus

structure G2Json.Reduced (v : G2Json) : Prop where
  xc0 : bigInt v.x.1 < fqModulus
  xc1 : bigInt v.x.2 < fqModulus
  yc0 : bigInt v.y.1 < fqModulus
  yc1 : bigInt v.y.2 < fqModulus

structure ProofJson.Reduced (proof : ProofJson) : Prop where
  piA : proof.piA.Reduced
  piB : proof.piB.Reduced
  piC : proof.piC.Reduced

structure VkeyJson.Reduced (vk : VkeyJson) : Prop where
  vkAlpha1 : vk.vkAlpha1.Reduced
  vkBeta2 : vk.vkBeta2.Reduced
  vkGamma2 : vk.vkGamma2.Reduced
  vkDelta2 : vk.vkDelta2.Reduced
  ic : ∀ v ∈ vk.ic, v.Reduced

theorem b32_eq {s : Decimal} (h : bigInt s < 256 ^ 32) :
    b32 s = .ok (BigEndian.encode 32 (bigInt s)) := by
  have hdigits : (Nat.toDigits 16 (bigInt s)).length ≤ 64 := by
    rw [Nat.length_toDigits_le_iff (by omega) (by omega)]
    simpa [pow_mul] using h
  have hdecode := Hex.decode_padded (by omega : 0 < 32) h
  simp only [b32]
  rw [if_neg (by omega), hdecode]
  rfl

theorem g1_eq {v : G1Json} (h : v.Reduced) : g1 v = .ok (g1Blob v.point) := by
  have hx := b32_eq (h.x.trans_le fqModulus_le)
  have hy := b32_eq (h.y.trans_le fqModulus_le)
  simp only [g1, hx, hy, g1Blob, G1Json.point, G1Affine.newUnchecked, ZMod.val_natCast_of_lt h.x,
    ZMod.val_natCast_of_lt h.y]
  rfl

theorem g2_eq {v : G2Json} (h : v.Reduced) : g2 v = .ok (g2Blob v.point) := by
  have hxc0 := b32_eq (h.xc0.trans_le fqModulus_le)
  have hxc1 := b32_eq (h.xc1.trans_le fqModulus_le)
  have hyc0 := b32_eq (h.yc0.trans_le fqModulus_le)
  have hyc1 := b32_eq (h.yc1.trans_le fqModulus_le)
  simp only [g2, hxc0, hxc1, hyc0, hyc1, g2Blob, G2Json.point, G2Affine.newUnchecked,
    ZMod.val_natCast_of_lt h.xc0, ZMod.val_natCast_of_lt h.xc1, ZMod.val_natCast_of_lt h.yc0,
    ZMod.val_natCast_of_lt h.yc1]
  rfl

theorem mapM_eq_ok {α γ : Type} {f : α → Except JsError γ} {value : α → γ} {as : List α}
    (h : ∀ a ∈ as, f a = .ok (value a)) : as.mapM f = .ok (as.map value) := by
  induction as with
  | nil => rfl
  | cons a as ih =>
      rw [List.mapM_cons, h a List.mem_cons_self, ih fun b hb => h b (List.mem_cons_of_mem a hb)]
      rfl

theorem proofBin_eq {proof : ProofJson} (h : proof.Reduced) :
    proofBin proof = .ok (proofBlob proof.value) := by
  simp only [proofBin, g1_eq h.piA, g2_eq h.piB, g1_eq h.piC]
  rfl

theorem pubBin_eq {pub : List Decimal} (h : ∀ s ∈ pub, bigInt s < frModulus) :
    pubBin pub = .ok (pubBlob (pub.map fun s => (bigInt s : Fr))) := by
  have hb32 : ∀ s ∈ pub, b32 s = .ok (BigEndian.encode 32 ((bigInt s : Fr)).val) := by
    intro s hs
    rw [ZMod.val_natCast_of_lt (h s hs)]
    exact b32_eq ((h s hs).trans_le frModulus_le)
  rw [pubBin, mapM_eq_ok hb32, pubBlob, List.map_map]
  rfl

theorem vkBin_eq {vk : VkeyJson} (h : vk.Reduced) (pub : List Decimal) :
    vkBin vk pub = .ok (vkBlob vk.value pub.length) := by
  have hic : vk.ic.mapM g1 = .ok (vk.ic.map fun v => g1Blob v.point) :=
    mapM_eq_ok fun v hv => g1_eq (h.ic v hv)
  simp only [vkBin, g1_eq h.vkAlpha1, g2_eq h.vkBeta2, g2_eq h.vkGamma2, g2_eq h.vkDelta2, hic]
  rw [vkBlob, VkeyJson.value, List.map_map]
  rfl

/-! ### Agreement -/

structure G1Json.IsPoint (v : G1Json) (p : G1Affine) : Prop where
  x : p.x.val = bigInt v.x
  y : p.y.val = bigInt v.y
  finite : p.infinity = false

structure G2Json.IsPoint (v : G2Json) (p : G2Affine) : Prop where
  xc0 : p.x.c0.val = bigInt v.x.1
  xc1 : p.x.c1.val = bigInt v.x.2
  yc0 : p.y.c0.val = bigInt v.y.1
  yc1 : p.y.c1.val = bigInt v.y.2
  finite : p.infinity = false

structure ProofJson.IsProof (json : ProofJson) (proof : Proof) : Prop where
  piA : json.piA.IsPoint proof.a
  piB : json.piB.IsPoint proof.b
  piC : json.piC.IsPoint proof.c

structure VkeyJson.IsKey (json : VkeyJson) (vk : VerifyingKey) : Prop where
  vkAlpha1 : json.vkAlpha1.IsPoint vk.alphaG1
  vkBeta2 : json.vkBeta2.IsPoint vk.betaG2
  vkGamma2 : json.vkGamma2.IsPoint vk.gammaG2
  vkDelta2 : json.vkDelta2.IsPoint vk.deltaG2
  ic : List.Forall₂ G1Json.IsPoint json.ic vk.ic

theorem G1Json.Reduced.isPoint {v : G1Json} (h : v.Reduced) : v.IsPoint v.point :=
  ⟨ZMod.val_natCast_of_lt h.x, ZMod.val_natCast_of_lt h.y, rfl⟩

theorem G2Json.Reduced.isPoint {v : G2Json} (h : v.Reduced) : v.IsPoint v.point :=
  ⟨ZMod.val_natCast_of_lt h.xc0, ZMod.val_natCast_of_lt h.xc1, ZMod.val_natCast_of_lt h.yc0,
    ZMod.val_natCast_of_lt h.yc1, rfl⟩

theorem ProofJson.value_finite (proof : ProofJson) : proof.value.Finite := ⟨rfl, rfl, rfl⟩

theorem VkeyJson.value_finite (vk : VkeyJson) : vk.value.Finite := by
  refine ⟨rfl, rfl, rfl, rfl, fun p hp => ?_⟩
  obtain ⟨v, -, rfl⟩ := List.mem_map.mp hp
  rfl

theorem VkeyJson.Reduced.isKey {vk : VkeyJson} (h : vk.Reduced) : vk.IsKey vk.value := by
  refine ⟨h.vkAlpha1.isPoint, h.vkBeta2.isPoint, h.vkGamma2.isPoint, h.vkDelta2.isPoint, ?_⟩
  rw [VkeyJson.value, List.forall₂_map_right_iff, List.forall₂_same]
  exact fun v hv => (h.ic v hv).isPoint

/-- **The script and the contract agree on the byte format.** -/
theorem encoder_parser_agree {vk : VkeyJson} {proof : ProofJson} {pub : List Decimal}
    (hvk : vk.Reduced) (hproof : proof.Reduced) (hpub : ∀ s ∈ pub, bigInt s < frModulus)
    (hn : pub.length ≤ 255) (hic : vk.ic.length = pub.length + 1) :
    ∃ blobs, proofToBytes vk proof pub = .ok blobs ∧
      blobs.proof.length = 256 ∧ blobs.pub.length = 32 * pub.length ∧
      blobs.vk.length = 449 + 64 * (pub.length + 1) ∧
      (∃ parsed, parseProof blobs.proof = .ok parsed ∧ proof.IsProof parsed) ∧
      (∃ signals, readPublic blobs.pub (blobs.pub.length / 32) = .ok signals ∧
        signals.map ZMod.val = pub.map bigInt) ∧
      ∃ key, parseVk blobs.vk = .ok key ∧ vk.IsKey key := by
  have hlength : vk.value.ic.length = pub.length + 1 := by
    rw [VkeyJson.value, List.length_map, hic]
  refine ⟨⟨proofBlob proof.value, pubBlob (pub.map fun s => (bigInt s : Fr)),
    vkBlob vk.value pub.length⟩, ?_, length_proofBlob _, ?_, ?_, ?_, ?_, ?_⟩
  · rw [proofToBytes, proofBin_eq hproof, pubBin_eq hpub, vkBin_eq hvk]
    rfl
  · rw [length_pubBlob, List.length_map, Nat.mul_comm]
  · rw [length_vkBlob, hlength, Nat.mul_comm]
  · exact ⟨proof.value, parseProof_proofBlob proof.value_finite, hproof.piA.isPoint,
      hproof.piB.isPoint, hproof.piC.isPoint⟩
  · refine ⟨_, readPublic_pubBlob _, ?_⟩
    rw [List.map_map]
    exact List.map_congr_left fun s hs => ZMod.val_natCast_of_lt (hpub s hs)
  · exact ⟨vk.value, parseVk_vkBlob vk.value_finite (by omega) hlength, hvk.isKey⟩

def g1GeneratorJson : G1Json := ⟨.ofNat 1, .ofNat 2⟩

def g2GeneratorJson : G2Json where
  x := (.ofNat 10857046999023057135944570762232829481370756359578518086990519993285655852781,
    .ofNat 11559732032986387107991004021392285783925812861821192530917403151452391805634)
  y := (.ofNat 8495653923123431417604973247489272438418190587263600148770280649306958101930,
    .ofNat 4082367875863433681332203403145435568316851327593401208105741076214120093531)

def generatorProofJson : ProofJson := ⟨g1GeneratorJson, g2GeneratorJson, g1GeneratorJson⟩

def generatorVkeyJson : VkeyJson :=
  ⟨g1GeneratorJson, g2GeneratorJson, g2GeneratorJson, g2GeneratorJson,
    [g1GeneratorJson, g1GeneratorJson]⟩

theorem g1GeneratorJson_reduced : g1GeneratorJson.Reduced := by
  constructor <;> norm_num [g1GeneratorJson]

theorem g2GeneratorJson_reduced : g2GeneratorJson.Reduced := by
  constructor <;> norm_num [g2GeneratorJson]

theorem generatorProofJson_reduced : generatorProofJson.Reduced :=
  ⟨g1GeneratorJson_reduced, g2GeneratorJson_reduced, g1GeneratorJson_reduced⟩

theorem generatorVkeyJson_reduced : generatorVkeyJson.Reduced :=
  ⟨g1GeneratorJson_reduced, g2GeneratorJson_reduced, g2GeneratorJson_reduced,
    g2GeneratorJson_reduced, by simp [generatorVkeyJson, g1GeneratorJson_reduced]⟩

theorem encoder_parser_agree_generators :
    ∃ blobs, proofToBytes generatorVkeyJson generatorProofJson [.ofNat 18] = .ok blobs ∧
      blobs.proof.length = 256 ∧ blobs.pub.length = 32 ∧ blobs.vk.length = 577 ∧
      (∃ parsed, parseProof blobs.proof = .ok parsed ∧ generatorProofJson.IsProof parsed) ∧
      (∃ signals, readPublic blobs.pub (blobs.pub.length / 32) = .ok signals ∧
        signals.map ZMod.val = [bigInt (.ofNat 18)]) ∧
      ∃ key, parseVk blobs.vk = .ok key ∧ generatorVkeyJson.IsKey key :=
  encoder_parser_agree generatorVkeyJson_reduced generatorProofJson_reduced
    (by norm_num) (by decide) rfl

end Veritas
