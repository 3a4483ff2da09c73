import AionTrust.Proof.Authentic

/-!
# Full claims and full disclosures

A claim whose full disclosure verifies states its roots in hex that decodes to
them, and any root where it declares no dependencies; `Claim.verify` wants the
hex as `toHex` writes it, and the root that stands for none. So it accepts just
the claims that state their roots so (`verifiers_agree_iff`). An issued claim
whose root is written in upper case is one it refuses
(`verifiers_disagree`).
-/

namespace AionTrust.Proof

open AionTrust.Impl AionTrust.Spec
open Framework (Bytes)

/-- What decodes was written by `toHex` when writing it again gives it back. -/
theorem toHex_eq_iff {n : Nat} {s : String} {v : ByteVec n} (h : decodeArray n s = .ok v) :
    toHex v.val = s ↔ ∃ bs, s = toHex bs := by
  refine ⟨fun hs => ⟨v.val, hs.symm⟩, ?_⟩
  rintro ⟨bs, rfl⟩
  simp only [decodeArray, fromHex_toHex, Framework.ok_bind] at h
  split at h
  · rw [← Except.ok.inj h]
  · cases h

section

variable [External]

/-- The proven fields of a full disclosure are the fields of the body. -/
theorem disclose_all_value {c : Claim} {d : DisclosedClaim} (hd : c.disclose .all = .ok d)
    {vk : VerifyingKey} {v : VerifiedDisclosure} (hv : d.verify vk = .ok v) (key : String)
    (value : Value) : v.value key = some value ↔ (key, value) ∈ c.body.fields := by
  obtain rfl := verify_eq_verifiedOf hv
  have hfields := disclose_all_fields hd
  have hkeys : d.fields.map (·.key) = (sortedFields c.body).map Prod.fst := by
    rw [← hfields, List.map_map]
    rfl
  rw [verifiedOf_value_iff (hkeys ▸ (fieldKeys_spec (fieldKeys_eq c.body)).2.1), ← mem_sortedFields,
    ← hfields, List.mem_map]
  simp only [Prod.mk.injEq]

/-- The direct verifier accepts a claim whose full disclosure verifies just when
it states its roots as they are written. -/
theorem claim_verify_iff {c : Claim} {d : DisclosedClaim} (hd : c.disclose .all = .ok d)
    {vk : VerifyingKey} {v : VerifiedDisclosure} (hv : d.verify vk = .ok v) :
    c.verify vk = .ok c ↔ (∃ bs, c.bodyRoot = toHex bs) ∧ (∃ bs, c.relianceRoot = toHex bs) ∧
      (c.reliance = [] → c.relianceRoot = toHex emptyRelianceRoot.val) := by
  obtain ⟨salt, leaves, relies, hof, ⟨root, hsig, hne, rfl⟩, hcount, hrcount, hreliance⟩ :=
    (verify_disclose_iff hd).mp ⟨v, hv⟩
  obtain ⟨hkey, hroot, rroot, hrroot, hid, sig, hdecode, hverify⟩ := checkSignature_eq_ok.mp hsig
  replace hrroot : decodeArray 32 c.relianceRoot = .ok rroot := hrroot
  have hlen := length_relianceLeaves hof.reliance
  rw [claim_verify_eq_ok]
  constructor
  · rintro ⟨-, -, salt', commit, hsalt, hcommit, hstates⟩
    refine ⟨⟨_, hstates.bodyRoot.symm⟩, ⟨_, hstates.relianceRoot.symm⟩, fun hnil => ?_⟩
    rw [← hstates.relianceRoot, (relianceCommitment_root hcommit.reliance).2.1 hnil]
  · rintro ⟨hbodyHex, hrelianceHex, hempty⟩
    have hbody : bodyCommitment salt c.body = .ok (mth (leaves.map (·.hash)) hne, c.fieldCount) :=
      bodyCommitment_eq_ok.mpr ⟨leaves, hof.body, hcount, hne, rfl⟩
    have hrel : relianceCommitment salt c.reliance = .ok (rroot, c.relianceCount) := by
      refine relianceCommitment_eq_ok.mpr ⟨relies, hof.reliance, hrcount.symm, fun hnil => ?_, fun hne => ?_⟩
      · rw [hempty (List.length_eq_zero_iff.mp (by rw [← hlen, hnil]; rfl)), decodeArray_toHex] at hrroot
        exact (Except.ok.inj hrroot).symm
      · exact Except.ok.inj (hrroot.symm.trans (hreliance hne))
    exact ⟨rfl, hkey, salt, ⟨_, _, rroot, _⟩, hof.salt, ⟨hbody, hrel⟩, (toHex_eq_iff hroot).mpr hbodyHex,
      rfl, (toHex_eq_iff hrroot).mpr hrelianceHex, rfl, hid, sig, hdecode, hverify⟩

/-- Where the full disclosure of a claim verifies, the claim verifies and what
was proven is its body just when the claim states its two roots in lower-case
hex, and the fixed root where it declares no dependencies. -/
theorem verifiers_agree_iff (c : Claim) (vk : VerifyingKey) (d : DisclosedClaim)
    (hd : c.disclose .all = .ok d) (v : VerifiedDisclosure) (hv : d.verify vk = .ok v) :
    (c.verify vk = .ok c ∧ ∀ key value, v.value key = some value ↔ (key, value) ∈ c.body.fields) ↔
      (∃ bs, c.bodyRoot = toHex bs) ∧ (∃ bs, c.relianceRoot = toHex bs) ∧
        (c.reliance = [] → c.relianceRoot = toHex emptyRelianceRoot.val) := by
  rw [← claim_verify_iff hd hv]
  exact and_iff_left (disclose_all_value hd hv)

/-- An issued claim with its reliance root in another spelling is proven in full
where the issuer's own signature verifies. -/
theorem respelled_verifies {issuer : Identity} {call : IssueCall} {commit : ClaimCommit}
    (h : call.Commits commit) (hsign : External.verify issuer.verifyingKey (call.message issuer commit)
      (issuer.sign (call.message issuer commit)) = true) {s : String}
    (hs : decodeArray 32 s = .ok commit.relianceRoot) : ∃ d v,
      { issuedClaim issuer call commit with relianceRoot := s }.disclose .all = .ok d ∧
        d.verify issuer.verifyingKey = .ok v := by
  obtain ⟨leaves, relies, hof, ⟨root, hsig, hbody⟩, hcount, hrcount, hreliance⟩ :=
    issue_consistent h hsign
  have hof' : LeavesOf { issuedClaim issuer call commit with relianceRoot := s } call.masterSalt
      leaves relies := ⟨hof.salt, hof.body, hof.reliance⟩
  obtain ⟨hkey, hroot, rroot, hrroot, hid, sig, hdecode, hverify⟩ := checkSignature_eq_ok.mp hsig
  have hrroot : decodeArray 32 (toHex commit.relianceRoot.val) = .ok rroot := hrroot
  obtain rfl := Except.ok.inj ((decodeArray_toHex _).symm.trans hrroot)
  obtain ⟨d, hd⟩ := disclose_isOk (s := .all) hof' rfl
  obtain ⟨v, hv⟩ := (verify_disclose_iff hd).mpr ⟨_, leaves, relies, hof',
    ⟨root, checkSignature_eq_ok.mpr ⟨hkey, hroot, _, hs, hid, sig, hdecode, hverify⟩, hbody⟩, hcount,
    hrcount, fun hne => hs.trans (hrroot.symm.trans (hreliance hne))⟩
  exact ⟨d, v, hd, hv⟩

end

section

attribute [local instance] lawful

/-- The law at an issued skill, which both accept. -/
theorem verifiers_agree_iff_skill : ∃ (vk : VerifyingKey) (c : Claim) (d : DisclosedClaim)
    (v : VerifiedDisclosure), c.disclose .all = .ok d ∧ d.verify vk = .ok v ∧ c.verify vk = .ok c ∧
      ∀ key value, v.value key = some value ↔ (key, value) ∈ c.body.fields := by
  obtain ⟨c, d, hrun, hd⟩ := lawful_run (identity 2) (skillCall ⟨"did:aion:subject"⟩)
    (show 2 < 2 ^ 32 by decide)
  have hverify := disclose_verifies lawful_lawful ⟨_, rfl, hrun⟩ hd
  obtain ⟨commit, -, rfl⟩ := run_eq_ok.mp hrun
  have hstates : (∃ bs, toHex commit.bodyRoot.val = toHex bs) ∧ (∃ bs, toHex commit.relianceRoot.val = toHex bs) ∧
      ((skillCall ⟨"did:aion:subject"⟩).reliance = [] →
        toHex commit.relianceRoot.val = toHex emptyRelianceRoot.val) :=
    ⟨⟨_, rfl⟩, ⟨_, rfl⟩, fun hnil => absurd hnil (List.cons_ne_nil _ _)⟩
  exact ⟨_, _, d, _, hd, hverify, (verifiers_agree_iff _ _ d hd _ hverify).mpr hstates⟩

/-- A skill issued without dependencies, its reliance root then written in upper
case, is proven in full and yet refused. -/
theorem verifiers_disagree : ∃ (issued c : Claim) (d : DisclosedClaim) (v : VerifiedDisclosure),
    IssueCall.run (identity 2) { skillCall ⟨"did:aion:subject"⟩ with reliance := [] } = .ok issued ∧
      c = { issued with
        relianceRoot := "000000003810BE43DF1A37C2700FC894176E98DE4D810D8D4B2F1E7388D0D4D6" } ∧
      c.disclose .all = .ok d ∧ d.verify (identity 2).verifyingKey = .ok v ∧
      ¬ ∃ v', c.verify (identity 2).verifyingKey = .ok v' := by
  let call : IssueCall := { skillCall ⟨"did:aion:subject"⟩ with reliance := [] }
  obtain ⟨commit, hcommit⟩ : ∃ commit, call.Commits commit := packages_commits (show 0 < 2 ^ 32 by decide)
  have hupper : decodeArray 32 "000000003810BE43DF1A37C2700FC894176E98DE4D810D8D4B2F1E7388D0D4D6" =
      .ok emptyRelianceRoot := by decide
  have hroot : commit.relianceRoot = emptyRelianceRoot :=
    (relianceCommitment_root hcommit.reliance).2.1 rfl
  obtain ⟨d, v, hd, hv⟩ := respelled_verifies hcommit
    (lawful_lawful.sign_verify (identity 2).signingKey _) (hroot ▸ hupper)
  refine ⟨_, _, d, v, run_of_commits (identity 2) hcommit, rfl, hd, hv, ?_⟩
  rintro ⟨v', hverify⟩
  obtain rfl := (claim_verify_eq_ok.mp hverify).1
  have hhex := (toHex_eq_iff hupper).mpr ((claim_verify_iff hd hv).mp hverify).2.1
  exact absurd hhex (by decide)

end

end AionTrust.Proof
