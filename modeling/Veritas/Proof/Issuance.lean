import Veritas.Issuer
import Veritas.Proof.Comparators
import Veritas.Proof.Membership

/-!
# What a signature in a circuit was issued for

Both signed circuits rebuild the message from a private field and the holder's secret, so behind a
satisfying assignment stands an issuance of that pair, short of a collision. Its kind is another
matter: the message does not carry it, and a country code serves as an age. So each circuit is a
statement about its own kind exactly when the issuer has signed nothing else that passes it.
-/

namespace Veritas

variable {F : Type} [Field F] (lib : Circomlib F)

/-- The issuer signed the pair, as a credential of some kind, or signed another one with which it
collides. -/
def Issued (log : List (Issuance F)) (field holderSecret : F) : Prop :=
  ∃ issuance ∈ log, (issuance.field = field ∧ issuance.holderSecret = holderSecret) ∨
    lib.Collision [field, holderSecret] [issuance.field, issuance.holderSecret]

variable {lib}

omit [Field F] in
theorem Issuance.message_eq (issuance : Issuance F) :
    issuance.message lib = lib.poseidon [issuance.field, issuance.holderSecret] := by
  rw [message]
  cases issuance.kind <;> rfl

theorem issued_of_signed {issuerAx issuerAy s r8x r8y field holderSecret : F}
    {log : List (Issuance F)} (hideal : IdealSignatures lib issuerAx issuerAy log)
    (hsigned : lib.eddsaPoseidonVerifier 1 issuerAx issuerAy s r8x r8y
      (lib.poseidon [field, holderSecret])) : Issued lib log field holderSecret := by
  obtain ⟨issuance, hmem, hmessage⟩ := (hideal _).mp ⟨s, r8x, r8y, hsigned⟩
  rw [issuance.message_eq] at hmessage
  refine ⟨issuance, hmem, ?_⟩
  by_cases hpair : [field, holderSecret] = [issuance.field, issuance.holderSecret]
  · rw [List.cons.injEq, List.cons.injEq] at hpair
    exact .inl ⟨hpair.1.symm, hpair.2.1.symm⟩
  · exact .inr ⟨hpair, hmessage.symm⟩

/-- Under ideal signatures the pair of a satisfying assignment was issued, as a credential of some
kind, or collides with a pair that was. -/
theorem signed_circuits_issued (lib : Circomlib F) (issuerAx issuerAy : F)
    (log : List (Issuance F)) (hideal : IdealSignatures lib issuerAx issuerAy log) :
    (∀ w : CredentialAge F, w.Satisfied lib → w.issuerAx = issuerAx → w.issuerAy = issuerAy →
      Issued lib log w.age w.holderSecret) ∧
    ∀ (depth : ℕ) (w : SignedJurisdictionAllowed F depth), w.Satisfied lib →
      w.issuerAx = issuerAx → w.issuerAy = issuerAy → Issued lib log w.country w.holderSecret := by
  constructor
  · rintro w hw rfl rfl
    have hsigned := hw.eddsa
    rw [hw.signedMsg] at hsigned
    exact issued_of_signed hideal hsigned
  · rintro depth w hw rfl rfl
    have hsigned := hw.eddsa
    rw [hw.signedMsg] at hsigned
    exact issued_of_signed hideal hsigned

/-! ### The kind -/

variable (lib) in
/-- The issuer signed the pair as a credential of the kind, or signed another one with which it
collides. -/
def IssuedAs (kind : CredentialKind) (log : List (Issuance F)) (field holderSecret : F) : Prop :=
  ∃ issuance ∈ log,
    (issuance.kind = kind ∧ issuance.field = field ∧ issuance.holderSecret = holderSecret) ∨
      lib.Collision [field, holderSecret] [issuance.field, issuance.holderSecret]

omit [Field F] in
/-- An issued pair has the kind if every logged pair that passes has. -/
theorem Issued.issuedAs {kind : CredentialKind} {log : List (Issuance F)}
    {field holderSecret : F} (h : Issued lib log field holderSecret) (passes : F → Prop)
    (hpasses : passes field) (hlog : ∀ issuance ∈ log, passes issuance.field →
      IssuedAs lib kind log issuance.field issuance.holderSecret) :
    IssuedAs lib kind log field holderSecret := by
  obtain ⟨issuance, hmem, ⟨rfl, rfl⟩ | hcollision⟩ := h
  · exact hlog issuance hmem hpasses
  · exact ⟨issuance, hmem, .inr hcollision⟩

theorem IdealSignatures.exists_signature {issuerAx issuerAy : F} {log : List (Issuance F)}
    (hideal : IdealSignatures lib issuerAx issuerAy log) {issuance : Issuance F}
    (hmem : issuance ∈ log) :
    ∃ s r8x r8y, lib.eddsaPoseidonVerifier 1 issuerAx issuerAy s r8x r8y
      (lib.poseidon [issuance.field, issuance.holderSecret]) :=
  (hideal _).mpr ⟨issuance, hmem, issuance.message_eq⟩

/-- **When a credential is accepted as its own kind only.** Under ideal signatures every assignment
of `CredentialAge` for a threshold has an age issuance behind it exactly when every logged pair
whose field passes the comparison was issued as an age, or collides; and every assignment of the
signed `JurisdictionAllowed` for a root has a country issuance behind it exactly when every logged
pair whose field has a path to the root was issued as a country, or collides. -/
theorem kinds_separated_iff (lib : Circomlib Fr) (hlib : lib.Comparators) (issuerAx issuerAy : Fr)
    (log : List (Issuance Fr)) (hideal : IdealSignatures lib issuerAx issuerAy log) :
    (∀ threshold : Fr,
      (∀ w : CredentialAge Fr, w.Satisfied lib → w.issuerAx = issuerAx → w.issuerAy = issuerAy →
          w.threshold = threshold → IssuedAs lib .age log w.age w.holderSecret) ↔
        ∀ issuance ∈ log, (issuance.field - threshold).val < 2 ^ 16 →
          IssuedAs lib .age log issuance.field issuance.holderSecret) ∧
    ∀ (depth : ℕ) (root : Fr),
      (∀ w : SignedJurisdictionAllowed Fr depth, w.Satisfied lib → w.issuerAx = issuerAx →
          w.issuerAy = issuerAy → w.allowedRoot = root →
          IssuedAs lib .country log w.country w.holderSecret) ↔
        ∀ issuance ∈ log, HasPath lib depth root issuance.field →
          IssuedAs lib .country log issuance.field issuance.holderSecret := by
  obtain ⟨hage, hcountry⟩ := signed_circuits_issued lib issuerAx issuerAy log hideal
  refine ⟨fun threshold => ⟨?_, ?_⟩, fun depth root => ⟨?_, ?_⟩⟩
  · intro hsound issuance hmem hpasses
    obtain ⟨s, r8x, r8y, heddsa⟩ := hideal.exists_signature hmem
    have hw := CredentialAge.ofSignature_satisfied hlib heddsa hpasses
    exact hsound _ hw rfl rfl rfl
  · rintro hlog w hw hax hay rfl
    exact (hage w hw hax hay).issuedAs (fun field => (field - w.threshold).val < 2 ^ 16)
      (hw.val_sub_lt hlib) hlog
  · intro hsound issuance hmem hpasses
    obtain ⟨s, r8x, r8y, heddsa⟩ := hideal.exists_signature hmem
    obtain ⟨bit, sibling, hash, hpath, hleaf, rfl⟩ := hpasses
    rw [← hleaf] at heddsa ⊢
    have hw := (MerklePoseidonVerifier.ofPath_satisfied hpath).signed heddsa
    exact hsound _ hw rfl rfl rfl
  · rintro hlog w hw hax hay rfl
    have hpasses := hw.mt.hasPath
    rw [hw.leaf, hw.root] at hpasses
    exact (hcountry depth w hw hax hay).issuedAs (HasPath lib depth w.allowedRoot) hpasses hlog

def countryLog : List (Issuance Fr) := [⟨.country, 840, 7⟩]

theorem countryLog_ideal (issuerAx issuerAy : Fr) :
    IdealSignatures (.summed [847]) issuerAx issuerAy countryLog := by
  intro m
  have hmessage : Issuance.message (.summed [847]) ⟨.country, 840, 7⟩ = (847 : Fr) := by decide
  constructor
  · rintro ⟨_, _, _, hm⟩
    exact ⟨_, List.mem_singleton_self _, hmessage.trans (List.mem_singleton.mp hm).symm⟩
  · rintro ⟨issuance, hmem, rfl⟩
    rw [List.mem_singleton.mp hmem, hmessage]
    exact ⟨0, 0, 0, List.mem_singleton_self _⟩

def countryAsAge : CredentialAge Fr where
  age := (840 : ℕ)
  holderSecret := (7 : ℕ)
  sigR8x := 0
  sigR8y := 0
  sigS := 0
  issuerAx := (11 : ℕ)
  issuerAy := (12 : ℕ)
  threshold := (18 : ℕ)
  nullifier := (7 : ℕ)
  signedMsg := (847 : ℕ)
  ge := 1
  nf := (7 : ℕ)

theorem countryAsAge_satisfied : countryAsAge.Satisfied (.summed [847]) where
  signedMsg := by decide
  eddsa := List.mem_singleton_self 847
  ge := BitDecomposition.LessThan.of_lt (n := 16) (a := 18) (b := 841) (by norm_num) (by norm_num)
  ge_one := rfl
  nf := by decide
  nullifier := rfl

/-- No age was issued, and the pair collides with nothing in the log. -/
theorem country_accepted_as_age :
    IdealSignatures (.summed [847]) 11 12 countryLog ∧
      countryAsAge.Satisfied (.summed [847]) ∧ countryAsAge.issuerAx = 11 ∧
      countryAsAge.issuerAy = 12 ∧
      (∀ issuance ∈ countryLog, issuance.kind ≠ .age) ∧
      ∀ issuance ∈ countryLog, ¬ (Circomlib.summed [847]).Collision
        [countryAsAge.age, countryAsAge.holderSecret] [issuance.field, issuance.holderSecret] := by
  refine ⟨countryLog_ideal 11 12, countryAsAge_satisfied, rfl, rfl, ?_, ?_⟩
  · intro issuance hmem
    rw [List.mem_singleton.mp hmem]
    decide
  · intro issuance hmem hcollision
    rw [List.mem_singleton.mp hmem] at hcollision
    exact hcollision.1 rfl

/-- The country credential with the path of its code in a list of codes. -/
def countryAllowed : SignedJurisdictionAllowed Fr 8 :=
  (MerklePoseidonVerifier.honest (.summed [847]) (numbered 835 8) 5).signed (.summed [847])
    (7 : ℕ) 0 0 0 (11 : ℕ) (12 : ℕ)

theorem countryAllowed_country : countryAllowed.country = 840 := by
  change leafAt (numbered 835 8) 5 = 840
  rw [leafAt_numbered (by decide)]
  rfl

theorem countryAllowed_satisfied : countryAllowed.Satisfied (.summed [847]) := by
  have hmessage : (Circomlib.summed [847]).poseidon [leafAt (numbered 835 8) 5, 7] = 847 := by
    rw [leafAt_numbered (by decide)]
    decide
  exact (MerklePoseidonVerifier.honest_satisfied _ (numbered 835 8) (by decide)).signed
    (List.mem_singleton.mpr hmessage)

/-- The log of one country credential: it is used as an age, and only as that country. -/
theorem kinds_separated_iff_country :
    (¬ ∀ w : CredentialAge Fr, w.Satisfied (.summed [847]) → w.issuerAx = 11 → w.issuerAy = 12 →
        w.threshold = 18 → IssuedAs (.summed [847]) .age countryLog w.age w.holderSecret) ∧
      countryAllowed.country = 840 ∧
      IssuedAs (.summed [847]) .country countryLog countryAllowed.country
        countryAllowed.holderSecret := by
  obtain ⟨hage, hcountry⟩ := kinds_separated_iff (.summed [847]) (Circomlib.standard_comparators ..)
    11 12 countryLog (countryLog_ideal 11 12)
  refine ⟨?_, countryAllowed_country, ?_⟩
  · rw [hage 18]
    intro hlog
    obtain ⟨issuance, hmem, ⟨hkind, -⟩ | ⟨hne, -⟩⟩ :=
      hlog _ (List.mem_singleton_self _) (by decide)
    · rw [List.mem_singleton.mp hmem] at hkind
      cases hkind
    · rw [List.mem_singleton.mp hmem] at hne
      exact hne rfl
  · refine (hcountry 8 countryAllowed.allowedRoot).mpr ?_ countryAllowed countryAllowed_satisfied
      rfl rfl rfl
    intro issuance hmem _
    rw [List.mem_singleton.mp hmem]
    exact ⟨_, List.mem_singleton_self _, .inl ⟨rfl, rfl, rfl⟩⟩

end Veritas
