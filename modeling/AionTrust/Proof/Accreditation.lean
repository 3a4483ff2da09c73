import AionTrust.Spec.Registry

/-!
# K-of-N accreditation is exact

The loop of `validEndorsements` counts the accreditors of the rule that
endorse the record (`validEndorsements_eq`), so an issuer's standing is
`Accredited` (`standing_iff`), which registries of the same contents share
(`accredited_congr`).
-/

namespace AionTrust.Proof

open AionTrust.Impl AionTrust.Spec
open Framework (Bytes tally enter)

/-! ## Records -/

theorem activeAt_iff {a : Accreditation} {epoch : UInt64} :
    a.activeAt epoch = true ↔ InForce a epoch := by
  unfold Accreditation.activeAt InForce
  cases a.untilEpoch <;> simp

theorem signingBytes_congr {a b : Accreditation} (h : SameRecord a b) :
    a.signingBytes = b.signingBytes := by
  unfold Accreditation.signingBytes
  rw [h.issuerId, h.category, h.fromEpoch, h.untilEpoch]

theorem inForce_congr {a b : Accreditation} (h : SameRecord a b) (epoch : UInt64) :
    InForce a epoch ↔ InForce b epoch := by
  simp only [InForce, h.fromEpoch, h.untilEpoch]

/-! ## Counting -/

variable [External]

/-- Whose vote an endorsement is, by name. -/
def endorser (r : Registry) (rule : PolicyRule) (bytes : Bytes) (sig : AccreditorSig) :
    Option String :=
  if sig.accreditor ∉ rule.accreditors then none
  else
    match r.accreditorKeys sig.accreditor, decodeArray 64 sig.signature with
    | some vk, .ok sigBytes =>
      if External.verify vk bytes sigBytes then some sig.accreditor.asStr else none
    | _, _ => none

theorem endorser_eq_some {r : Registry} {rule : PolicyRule} {bytes : Bytes} {sig : AccreditorSig}
    {name : String} : endorser r rule bytes sig = some name ↔
      sig.accreditor ∈ rule.accreditors ∧ (∃ vk, r.accreditorKeys sig.accreditor = some vk ∧
        ∃ sigBytes, decodeArray 64 sig.signature = .ok sigBytes ∧
          External.verify vk bytes sigBytes) ∧ sig.accreditor.asStr = name := by
  unfold endorser
  by_cases hmem : sig.accreditor ∈ rule.accreditors
  · cases r.accreditorKeys sig.accreditor with
    | none => simp [hmem]
    | some vk =>
      cases decodeArray 64 sig.signature with
      | error e => simp [hmem]
      | ok sigBytes => simp [hmem]
  · simp [hmem]

/-- An entry already counted, outside the rule, without a key, malformed or
invalid is passed over. -/
theorem countEndorsement_eq (r : Registry) (rule : PolicyRule) (bytes : Bytes) (s : Finset String)
    (sig : AccreditorSig) : r.countEndorsement rule bytes s sig =
      if sig.accreditor.asStr ∈ s then s else enter (endorser r rule bytes) s sig := by
  unfold Registry.countEndorsement enter endorser
  by_cases hmet : sig.accreditor.asStr ∈ s
  · simp [hmet]
  · by_cases hmem : sig.accreditor ∈ rule.accreditors
    · cases r.accreditorKeys sig.accreditor with
      | none => simp [hmet, hmem]
      | some vk =>
        cases decodeArray 64 sig.signature with
        | error e => simp [hmet, hmem]
        | ok sigBytes => cases hv : External.verify vk bytes sigBytes <;> simp [hmet, hmem, hv]
    · simp [hmet, hmem]

theorem endorses_iff {r : Registry} {rule : PolicyRule} {a : Accreditation} {d : Did} :
    Endorses r rule a d ↔
      ∃ sig ∈ a.signatures, endorser r rule a.signingBytes sig = some d.asStr := by
  simp only [endorser_eq_some, Endorses]
  constructor
  · rintro ⟨hmem, vk, hkey, sig, hsig, rfl, hv⟩
    exact ⟨sig, hsig, hmem, ⟨vk, hkey, hv⟩, rfl⟩
  · rintro ⟨sig, hsig, hmem, ⟨vk, hkey, hv⟩, hname⟩
    obtain rfl := Did.asStr_injective hname
    exact ⟨hmem, vk, hkey, sig, hsig, rfl, hv⟩

/-- The loop counts the accreditors that endorse the record. -/
theorem validEndorsements_eq (r : Registry) (a : Accreditation) (rule : PolicyRule) :
    r.validEndorsements a rule = {d | Endorses r rule a d}.ncard := by
  have hwho : ∀ sig name, endorser r rule a.signingBytes sig = some name →
      name = sig.accreditor.asStr := fun sig name h => (endorser_eq_some.mp h).2.2.symm
  rw [Registry.validEndorsements, Framework.foldl_skip hwho (countEndorsement_eq r rule _)]
  rw [← tally, Framework.card_tally_eq_ncard Did.asStr_injective
    fun sig _ name h => ⟨sig.accreditor, (hwho sig name h).symm⟩]
  simp only [endorses_iff]

/-- An issuer's standing is what the registry is for. -/
theorem standing_iff (r : Registry) (issuer : Did) (category : String) :
    (r.standing issuer category).accredited = true ↔ Accredited r issuer category := by
  simp only [Registry.standing, Registry.isAccredited, Accredited]
  cases r.policy category with
  | none => simp
  | some rule =>
    simp only [Option.isSome_some, Bool.true_and, List.any_eq_true, Bool.and_eq_true,
      decide_eq_true_eq, activeAt_iff, validEndorsements_eq, Option.some.injEq, exists_eq_left',
      and_assoc, ge_iff_le]

/-! ## Order and repetition -/

theorem endorses_congr {r r' : Registry} {rule rule' : PolicyRule} {a b : Accreditation}
    (hkeys : r.accreditorKeys = r'.accreditorKeys) (hrule : SameRule rule rule')
    (hab : SameRecord a b) (d : Did) : Endorses r rule a d ↔ Endorses r' rule' b d := by
  simp only [Endorses, hkeys, hrule.accreditors, hab.signatures, signingBytes_congr hab]

theorem sameContents_symm {r r' : Registry} (h : SameContents r r') : SameContents r' r where
  accreditorKeys := h.accreditorKeys.symm
  epoch := h.epoch.symm
  policy category := by
    have := h.policy category
    generalize r.policy category = p, r'.policy category = p' at this
    cases this with
    | some hr => exact .some ⟨hr.k.symm, fun d => (hr.accreditors d).symm⟩
    | none => exact .none
  records b hb := by
    obtain ⟨a, ha, hab⟩ := h.records' b hb
    exact ⟨a, ha, hab.issuerId.symm, hab.category.symm, hab.fromEpoch.symm, hab.untilEpoch.symm,
      fun sig => (hab.signatures sig).symm⟩
  records' a ha := by
    obtain ⟨b, hb, hab⟩ := h.records a ha
    exact ⟨b, hb, hab.issuerId.symm, hab.category.symm, hab.fromEpoch.symm, hab.untilEpoch.symm,
      fun sig => (hab.signatures sig).symm⟩

theorem accredited_of_sameContents {r r' : Registry} (h : SameContents r r') {issuer : Did}
    {category : String} (ha : Accredited r issuer category) : Accredited r' issuer category := by
  obtain ⟨rule, hrule, a, hmem, hissuer, hcat, hforce, hk⟩ := ha
  obtain ⟨b, hb, hab⟩ := h.records a hmem
  have hpolicy := h.policy category
  rw [hrule] at hpolicy
  generalize hp : r'.policy category = p' at hpolicy
  obtain ⟨hsame⟩ | _ := hpolicy
  rename_i rule'
  refine ⟨rule', hp, b, hb, hab.issuerId.symm.trans hissuer, hab.category.symm.trans hcat, ?_, ?_⟩
  · rw [← h.epoch]; exact (inForce_congr hab _).mp hforce
  · rw [← hsame.k]
    simpa only [endorses_congr h.accreditorKeys hsame hab] using hk

/-- Registries of the same contents accredit the same issuers. -/
theorem accredited_congr {r r' : Registry} (h : SameContents r r') (issuer : Did)
    (category : String) : Accredited r issuer category ↔ Accredited r' issuer category :=
  ⟨accredited_of_sameContents h, accredited_of_sameContents (sameContents_symm h)⟩

/-- In every registry the operations reach, an issuer stands accredited just
when one record in force carries enough endorsements of distinct accreditors.
So registries of the same contents agree, and endorsements of different
records are not added up. -/
theorem standing_exact (epoch : UInt64) (ops : List RegistryOp) (issuer : Did) (category : String)
    (now : Timestamp) :
    let r := registryMachine.final (.new epoch) ops
    ((r.anchor.standing issuer category now).accredited = true ↔ Accredited r issuer category) ∧
      (∀ r', SameContents r r' → (r'.anchor.standing issuer category now).accredited =
        (r.anchor.standing issuer category now).accredited) ∧
      ∀ rule, r.policy category = some rule →
        (∀ a ∈ r.accreditations, a.issuerId = issuer → a.category = category →
          InForce a r.epoch → {d | Endorses r rule a d}.ncard < rule.k) →
          (r.anchor.standing issuer category now).accredited = false := by
  intro r
  refine ⟨standing_iff r issuer category, fun r' h => ?_, fun rule hrule hfew => ?_⟩
  · rw [Bool.eq_iff_iff]
    exact (standing_iff r' issuer category).trans
      ((accredited_congr h issuer category).symm.trans (standing_iff r issuer category).symm)
  · rw [← Bool.not_eq_true]
    intro hacc
    obtain ⟨rule', hrule', a, ha, hissuer, hcat, hforce, hk⟩ := (standing_iff r issuer category).mp hacc
    obtain rfl := Option.some.inj (hrule.symm.trans hrule')
    exact absurd hk (Nat.not_le_of_lt (hfew a ha hissuer hcat hforce))

end AionTrust.Proof
