import AionTrust.Proof.Packages

/-!
# Disclosures cannot be forged

What verifies under an issuer's key was disclosed of a claim that issuer
issued, whatever else its key signs, unless a collision of the hash was found
(`disclosure_unforgeable`); and it declares that claim's dependencies, no more
and no fewer (`reliance_exact`).
-/

namespace AionTrust.Proof

open AionTrust.Impl AionTrust.Spec
open Framework (Bytes Fits)

/-! ## The proven fields -/

theorem getElem?_foldl_insert {fs : List RevealedField} {proven : Std.TreeMap String ProvenField}
    {key : String} {p : ProvenField}
    (h : (fs.foldl (fun proven f => proven.insert f.key (.value f.value)) proven)[key]? = some p) :
    (∃ f ∈ fs, f.key = key ∧ p = .value f.value) ∨ proven[key]? = some p := by
  induction fs generalizing proven with
  | nil => exact .inr h
  | cons f fs ih =>
    rcases ih h with ⟨f', hf', hkey⟩ | hget
    · exact .inl ⟨f', List.mem_cons_of_mem _ hf', hkey⟩
    · rw [Std.TreeMap.getElem?_insert] at hget
      split at hget
      · rename_i heq
        exact .inl ⟨f, List.mem_cons_self, Std.LawfulEqCmp.eq_of_compare heq,
          (Option.some.inj hget).symm⟩
      · exact .inr hget

theorem mem_foldl_insert {fs : List RevealedField} {proven : Std.TreeMap String ProvenField}
    {key : String} :
    key ∈ fs.foldl (fun proven f => proven.insert f.key (.value f.value)) proven ↔
      (∃ f ∈ fs, f.key = key) ∨ key ∈ proven := by
  induction fs generalizing proven with
  | nil => simp
  | cons f fs ih =>
    simp only [List.foldl_cons, ih, Std.TreeMap.mem_insert, Std.LawfulEqCmp.compare_eq_iff_eq,
      List.mem_cons, exists_eq_or_imp]
    rw [← or_assoc, or_comm (a := ∃ f ∈ fs, f.key = key)]

/-- A proven value is that of some disclosed field under its key. -/
theorem verifiedOf_value {d : DisclosedClaim} {key : String} {value : Value}
    (h : (verifiedOf d).value key = some value) : ∃ f ∈ d.fields, f.key = key ∧ f.value = value := by
  have hget : (provenFields d.fields)[key]? = some (.value value) := by
    unfold VerifiedDisclosure.value at h
    split at h
    · rename_i x hx
      rw [← Option.some.inj h]
      exact hx
    · cases h
  rcases getElem?_foldl_insert hget with ⟨f, hf, hkey, hvalue⟩ | hempty
  · exact ⟨f, hf, hkey, (ProvenField.value.inj hvalue).symm⟩
  · simp at hempty

/-- A disclosed key has a proven value. -/
theorem verifiedOf_value_isSome {d : DisclosedClaim} {f : RevealedField} (hf : f ∈ d.fields) :
    ∃ value, (verifiedOf d).value f.key = some value := by
  have hmem : f.key ∈ provenFields d.fields := mem_foldl_insert.mpr (.inl ⟨f, hf, rfl⟩)
  obtain ⟨⟨value⟩, hp⟩ := Option.isSome_iff_exists.mp (Std.TreeMap.mem_iff_isSome_getElem?.mp hmem)
  exact ⟨value, by simp only [VerifiedDisclosure.value, verifiedOf, hp]⟩

/-- Where the disclosed keys are different, every disclosed field is proven. -/
theorem verifiedOf_value_iff {d : DisclosedClaim} (hnodup : (d.fields.map (·.key)).Nodup) {key : String}
    {value : Value} : (verifiedOf d).value key = some value ↔
      ∃ f ∈ d.fields, f.key = key ∧ f.value = value := by
  refine ⟨verifiedOf_value, ?_⟩
  rintro ⟨f, hf, rfl, rfl⟩
  obtain ⟨value, hvalue⟩ := verifiedOf_value_isSome hf
  obtain ⟨f', hf', hkey, rfl⟩ := verifiedOf_value hvalue
  obtain rfl := List.inj_on_of_nodup_map hnodup hf' hf hkey
  exact hvalue

/-- The proven keys are those disclosed. -/
theorem mem_revealedKeys {d : DisclosedClaim} {key : String} :
    key ∈ (verifiedOf d).revealedKeys ↔ ∃ f ∈ d.fields, f.key = key := by
  rw [VerifiedDisclosure.revealedKeys, Std.TreeMap.mem_keys]
  exact mem_foldl_insert.trans (by simp)

/-! ## What a disclosure proves is the claim's -/

section

variable [External]

/-- What a disclosure proves is what a claim says: its scalars, and fields of
its category with the bytes the issuer committed to. The proven keys are the
disclosed ones, the required among them. -/
structure Attests (c : Claim) (d : DisclosedClaim) (v : VerifiedDisclosure) (required : List String) :
    Prop where
  subject : v.subjectId = c.subjectId
  issuer : v.issuerId = c.issuerId
  validity : v.validity = c.validity
  category : v.category = c.category
  schemaId : d.schemaId = c.schemaId
  fields : ∀ key value, v.value key = some value →
    (∃ keys, ClaimBody.fieldKeysForCategory v.category = some keys ∧ key ∈ keys) ∧
      ∃ issued, (key, issued) ∈ c.body.fields ∧
        ∃ jcs, External.toJcsBytes issued = some jcs ∧ External.toJcsBytes value = some jcs
  keys : ∀ key, key ∈ v.revealedKeys ↔ ∃ f ∈ d.fields, f.key = key
  required : ∀ key ∈ required, key ∈ v.revealedKeys

theorem attests_of_verify {issuer : Identity} {call : IssueCall} {d : DisclosedClaim}
    (hno : ¬ Collides issuer call d) (hfits : call.Fits issuer) (hd : DisclosedFits d) {c : Claim}
    (hrun : call.run issuer = .ok c) (hid : c.claimId = d.claimId) {required : List String}
    {v : VerifiedDisclosure} {vk : VerifyingKey} (h : d.verifyWithRequired vk required = .ok v) :
    Attests c d v required := by
  obtain ⟨commit, hcommit, rfl⟩ := run_eq_ok.mp hrun
  obtain ⟨rfl, hreq, root, expected, hsig, hexp, -, hfields, -⟩ := verifyWithRequired_eq_ok.mp h
  have hsame := scalars_bound hno hcommit hfits hd hsig hid
  obtain rfl := Except.ok.inj (hsame.bodyRoot.symm.trans (checkSignature_eq_ok.mp hsig).2.1)
  refine ⟨hsame.subject, hsame.issuer, hsame.validity, hsame.category, hsame.schemaId,
    fun key value hvalue => ?_, fun key => mem_revealedKeys, fun key hkey => ?_⟩
  · obtain ⟨f, hf, rfl, rfl⟩ := verifiedOf_value hvalue
    have hkey := (proveField_eq_ok.mp (hfields f hf)).1
    exact ⟨⟨expected, hexp, List.mem_of_getElem? hkey⟩,
      field_bound hno hcommit hfits hd hsame hf (hfields f hf)⟩
  · rw [VerifiedDisclosure.revealedKeys, Std.TreeMap.mem_keys]
    exact hreq key hkey

/-- What an issuer's key signed and reads as a claim is a call's message:
presentations and accreditations are apart. -/
theorem signed_claim {issuer : Identity} {calls : Set IssueCall} {subject did : Did}
    {category schemaId : String} {validity : Validity} {commit : ClaimCommit}
    (hfits : (Message.claim subject did category schemaId validity commit).Fits)
    (h : Signed issuer calls (signingBytes subject did category schemaId validity commit)) :
    ∃ call ∈ calls, ∃ commit', call.Commits commit' ∧
      call.message issuer commit' = signingBytes subject did category schemaId validity commit := by
  generalize hm : signingBytes subject did category schemaId validity commit = m at h
  cases h with
  | issued call commit hcall hcommit => exact ⟨call, hcall, commit, hcommit, rfl⟩
  | presentation subject audience purpose nonce issuedAt expiresAt claims hother =>
    rw [signingBytes_eq, presSigningBytes_eq] at hm
    cases framed_inj hfits hother hm
  | accreditation a hother =>
    rw [signingBytes_eq, accreditation_signingBytes_eq] at hm
    cases framed_inj hfits hother hm

/-- What verifies under an issuer's key carries the id of a claim it issued,
and attests what every issued claim of that id says, unless issuing that claim
and verifying collided. The key may sign any presentation and accreditation
besides its claims. -/
theorem disclosure_unforgeable (issuer : Identity) (calls : Set IssueCall)
    (hcalls : ∀ call ∈ calls, call.Fits issuer)
    (d : DisclosedClaim) (hunforgeable : ∀ bodyRoot relianceRoot, decodeArray 32 d.bodyRoot = .ok bodyRoot →
      decodeArray 32 d.relianceRoot = .ok relianceRoot →
        Unforgeable issuer calls (d.signedMessage bodyRoot relianceRoot) d.issuerSignature)
    (hd : DisclosedFits d) (required : List String) (v : VerifiedDisclosure)
    (h : d.verifyWithRequired issuer.verifyingKey required = .ok v) :
    (∃ call ∈ calls, ∃ c, call.run issuer = .ok c ∧ c.claimId = d.claimId) ∧
      ∀ call ∈ calls, ∀ c, call.run issuer = .ok c → c.claimId = d.claimId →
        Collides issuer call d ∨ Attests c d v required := by
  constructor
  · obtain ⟨-, -, root, expected, hsig, -⟩ := verifyWithRequired_eq_ok.mp h
    obtain ⟨-, hbody, relianceRoot, hreliance, hid, sig, hdecode, hverify⟩ := checkSignature_eq_ok.mp hsig
    obtain ⟨call, hcall, commit, hcommit, hmessage⟩ :=
      signed_claim (claim_fits d.validity ⟨root, d.fieldCount, relianceRoot, d.relianceCount⟩
        hd.subject hd.issuer hd.category hd.schemaId) (hunforgeable _ _ hbody hreliance sig hdecode hverify)
    refine ⟨call, hcall, _, run_of_commits issuer hcommit, ?_⟩
    rw [← hid, DisclosedClaim.signedMessage, ← hmessage]
    rfl
  · intro call hcall c hrun hid
    by_cases hno : Collides issuer call d
    · exact .inl hno
    · exact .inr (attests_of_verify hno (hcalls call hcall) hd hrun hid h)

end

section

attribute [local instance] restricted

/-- The law at a skill, under a key that signed nothing else. -/
theorem disclosure_unforgeable_skill : ∃ (issuer : Identity) (d : DisclosedClaim)
    (v : VerifiedDisclosure), d.verifyWithRequired issuer.verifyingKey [] = .ok v ∧
      ∀ call ∈ ({skillCall ⟨"did:aion:subject"⟩} : Set IssueCall), ∀ c, call.run issuer = .ok c →
        c.claimId = d.claimId → Collides issuer call d ∨ Attests c d v [] := by
  obtain ⟨issuer, commit, hcommit, hsign, hsigned⟩ :=
    restricted_issuer (skillCall ⟨"did:aion:subject"⟩) (show 2 < 2 ^ 32 by decide)
  have hrun := run_of_commits issuer hcommit
  obtain ⟨d, hd⟩ := disclose_all_isOk hrun
  have hverify := disclose_verifies_of_sign hcommit hsign hd
  refine ⟨issuer, d, _, hverify, (disclosure_unforgeable issuer _ ?_ d
    (fun _ _ _ _ sig _ => hsigned _ sig) (disclose_fits (skillCall_fits issuer) hrun hd) [] _ hverify).2⟩
  rintro call rfl
  exact skillCall_fits issuer

end

/-! ## The declared dependencies -/

section

variable [External]

/-- What verifies under an issuer's key with the id of a claim proves exactly
the dependencies the issuer declared, in any order, unless issuing and
verifying collided; and the check stays within the vector of indices it has
met. -/
theorem reliance_exact (issuer : Identity) (call : IssueCall) (hfits : call.Fits issuer) (c : Claim)
    (hrun : call.run issuer = .ok c) (d : DisclosedClaim) (hd : DisclosedFits d)
    (v : VerifiedDisclosure) (h : d.verify issuer.verifyingKey = .ok v) (hid : c.claimId = d.claimId) :
    (Collides issuer call d ∨ v.reliance.Perm (call.reliance.map (·.fromClaimId))) ∧
      ∀ root, relianceScan root d.relianceCount.toNat
        (List.replicate d.relianceCount.toNat false) d.reliance ≠ .error .outOfRange := by
  refine ⟨?_, fun root => relianceScan_inRange root (List.length_replicate ..) d.reliance⟩
  by_cases hno : Collides issuer call d
  · exact .inl hno
  · obtain ⟨commit, hcommit, rfl⟩ := run_eq_ok.mp hrun
    obtain ⟨rfl, -, root, expected, hsig, -, -, -, hreliance⟩ := verifyWithRequired_eq_ok.mp h
    have hsame := scalars_bound hno hcommit hfits hd hsig hid
    exact .inr (reliance_bound hno hcommit hfits hd hsame hreliance)

end

section

attribute [local instance] lawful

/-- The law at a skill issued in reliance on one claim twice. -/
theorem reliance_exact_skill : ∃ (issuer : Identity) (d : DisclosedClaim) (v : VerifiedDisclosure),
    d.verify issuer.verifyingKey = .ok v ∧
      (Collides issuer (skillCall ⟨"did:aion:subject"⟩) d ∨
        v.reliance.Perm [⟨"identity"⟩, ⟨"identity"⟩]) := by
  obtain ⟨c, d, hrun, hd⟩ := lawful_run (identity 2) (skillCall ⟨"did:aion:subject"⟩)
    (show 2 < 2 ^ 32 by decide)
  have hfits := skillCall_fits (identity 2)
  have hverify := disclose_verifies lawful_lawful ⟨_, rfl, hrun⟩ hd
  have hid : c.claimId = d.claimId := by rw [disclose_eq hd]; rfl
  exact ⟨identity 2, d, _, hverify, (reliance_exact (identity 2) _ hfits c hrun d
    (disclose_fits hfits hrun hd) _ hverify hid).1⟩

end

end AionTrust.Proof
