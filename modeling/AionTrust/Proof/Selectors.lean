import AionTrust.Proof.Messages
import AionTrust.Proof.Verdict

/-!
# Acceptance does not depend on what is disclosed

Whether a disclosed claim is valid is a matter of the claim (`ClaimGood`,
`claimValid_disclose_iff`), whatever its selector named, and what a subject
signs names the claims only (`buildPresentation_claims`). So presentations of
the same claims under different selectors have the same verdict
(`selectors_irrelevant`).
-/

namespace AionTrust.Proof

open AionTrust.Impl AionTrust.Spec
open Framework (Bytes)

section

variable [External]

/-- What the verifier asks of a claim, in terms of the claim itself. -/
structure ClaimGood (anchor : TrustAnchor) (presenter : Did) (now : Timestamp) (c : Claim) : Prop where
  subject : c.subjectId = presenter
  verified : ∃ issuerVk, anchor.issuerKey c.issuerId = some issuerVk ∧
    ∃ masterSalt leaves relies, LeavesOf c masterSalt leaves relies ∧
      Consistent c issuerVk leaves relies
  active : c.validity.activeAt now = true
  accredited : (anchor.standing c.issuerId c.category now).accreditationRequired = true →
    (anchor.standing c.issuerId c.category now).accredited = true
  notRevoked : anchor.isRevoked c.claimId now = false
  relianceLive : ∀ target ∈ c.reliance, anchor.status target.fromClaimId now = .live

/-- A disclosure of a claim is valid just when the claim is good. -/
theorem claimValid_disclose_iff {c : Claim} {s : FieldSelector} {d : DisclosedClaim}
    (hd : c.disclose s = .ok d) {anchor : TrustAnchor} {presenter : Did} {now : Timestamp} :
    (∃ v, ClaimValid anchor presenter now d v) ↔ ClaimGood anchor presenter now c := by
  have heq := disclose_eq hd
  have hdeps : (verifiedOf d).reliance = c.reliance.map (·.fromClaimId) := disclose_reliance hd
  have hlive : (∀ dep ∈ (verifiedOf d).reliance, anchor.status dep now = .live) ↔
      ∀ target ∈ c.reliance, anchor.status target.fromClaimId now = .live := by
    rw [hdeps, List.forall_mem_map]
  constructor
  · rintro ⟨v, hsubject, ⟨vk, hkey, hv⟩, hactive, haccredited, hrevoked, hreliance⟩
    have hverified := (verify_disclose_iff hd).mp ⟨v, hv⟩
    obtain rfl := verify_eq_verifiedOf hv
    have hreliance := hlive.mp hreliance
    rw [heq] at hsubject hkey hactive haccredited hrevoked
    exact ⟨hsubject, ⟨vk, hkey, hverified⟩, hactive, haccredited, hrevoked, hreliance⟩
  · rintro ⟨hsubject, ⟨vk, hkey, hverified⟩, hactive, haccredited, hrevoked, hreliance⟩
    obtain ⟨v, hv⟩ := (verify_disclose_iff hd).mpr hverified
    obtain rfl := verify_eq_verifiedOf hv
    have hreliance := hlive.mpr hreliance
    refine ⟨verifiedOf d, ?_, ⟨vk, ?_, hv⟩, ?_, ?_, ?_, hreliance⟩
    all_goals rw [heq]; assumption

/-! ## Presentations of the same claims -/

/-- Disclosures of a list of claims, one of each, under any selectors. -/
def Discloses (cs : List Claim) (ds : List DisclosedClaim) : Prop :=
  List.Forall₂ (fun c d => ∃ s, c.disclose s = .ok d) cs ds

theorem claimsValid_iff {cs : List Claim} {ds : List DisclosedClaim} (h : Discloses cs ds)
    {anchor : TrustAnchor} {presenter : Did} {now : Timestamp} :
    ClaimsValid anchor presenter now ds ↔ ∀ c ∈ cs, ClaimGood anchor presenter now c := by
  constructor
  · intro hvalid c hc
    obtain ⟨d, hd, s, hs⟩ := Framework.exists_right h hc
    exact (claimValid_disclose_iff hs).mp (hvalid d hd)
  · intro hgood d hd
    obtain ⟨c, hc, s, hs⟩ := Framework.exists_left h hd
    exact (claimValid_disclose_iff hs).mpr (hgood c hc)

/-- Claims that can be disclosed in part can be disclosed in full. -/
theorem exists_full {cs : List Claim} {ds : List DisclosedClaim} (h : Discloses cs ds) :
    ∃ full, List.Forall₂ (fun c d => c.disclose .all = .ok d) cs full := by
  refine Framework.exists_forall₂ fun c hc => ?_
  obtain ⟨d, -, s, hd⟩ := Framework.exists_right h hc
  obtain ⟨_, _, _, _, hof, -⟩ := disclose_eq_ok.mp hd
  exact disclose_isOk hof rfl

theorem map_claimId_eq {cs : List Claim} {ds : List DisclosedClaim} (h : Discloses cs ds) :
    ds.map (·.claimId) = cs.map (·.claimId) := by
  induction h with
  | nil => rfl
  | cons hd _ ih =>
    obtain ⟨s, hs⟩ := hd
    rw [List.map_cons, List.map_cons, ih, disclose_eq hs]
    rfl

section

variable {subject : Identity} {audience : Did} {purpose : String} {nonce : Bytes}
  {issuedAt expiresAt : Timestamp} {cs : List Claim} {ds ds' : List DisclosedClaim}

/-- Presentations of the same claims differ in what they disclose only. -/
theorem buildPresentation_claims (h : Discloses cs ds) (h' : Discloses cs ds') :
    buildPresentation subject audience purpose nonce issuedAt expiresAt ds' =
      { buildPresentation subject audience purpose nonce issuedAt expiresAt ds with claims := ds' } := by
  have hids := (map_claimId_eq h').trans (map_claimId_eq h).symm
  simp only [buildPresentation, presSigningBytes_congr hids]

/-- A presentation is bound whatever it discloses of its claims. -/
theorem bound_congr {p : Presentation} (h : Discloses cs p.claims) (h' : Discloses cs ds')
    {verifier : Did} {now : Timestamp} {seen : Bool} {vk : VerifyingKey} {bytes : Bytes}
    {sig : ByteVec 64} (hb : Bound p verifier now seen vk bytes sig) :
    Bound { p with claims := ds' } verifier now seen vk bytes sig where
  subject := hb.subject
  audience := hb.audience
  issued := hb.issued
  unexpired := hb.unexpired
  fresh := hb.fresh
  nonceLength := hb.nonceLength
  nonempty hnil := hb.nonempty <| by
    have hlen := h.length_eq.symm.trans h'.length_eq
    rw [show ds' = [] from hnil] at hlen
    exact List.length_eq_zero_iff.mp hlen
  signature := by
    have hids := (map_claimId_eq h').trans (map_claimId_eq h).symm
    rw [show presSigningBytes _ _ _ _ _ _ ds' = _ from presSigningBytes_congr hids]
    exact hb.signature

/-- A presentation accepted, whatever its predicates, is accepted without them
under any other selectors. -/
theorem accepted_reselect {p : Presentation} (h : Discloses cs p.claims) (h' : Discloses cs ds')
    {verifier : Did} {now : Timestamp} {anchor : TrustAnchor} {seen : Bool}
    {predicates : List PredicateRequest} {report : VerificationReport}
    (hr : verifyPresentationWithPredicates p verifier now anchor seen predicates = .ok report)
    (hacc : report.accepted = true) :
    ∃ report', verifyPresentation { p with claims := ds' } verifier now anchor seen = .ok report' ∧
      report'.accepted = true := by
  obtain ⟨⟨vk, bytes, sig, hdec, hb⟩, hclaims, -⟩ := (report_accepted_iff hr).mp hacc
  have hdec' : Decoded { p with claims := ds' } vk bytes sig :=
    ⟨hdec.subjectKey, hdec.nonce, hdec.signature⟩
  have hclaims' := (claimsValid_iff h').mpr ((claimsValid_iff h).mp hclaims)
  exact verify_accepts hdec' (bound_congr h h' hb) hclaims' (by simp)

end

/-- Whether a disclosure of a claim verifies does not depend on its selector,
for any claim, also a corrupt one; and claims that can be disclosed in part can
be in full. So presentations of the same claims fail alike and accept alike, and
one accepted with predicates is accepted without them when it discloses
otherwise, in full or less. -/
theorem selectors_irrelevant :
    (∀ (c : Claim) (vk : VerifyingKey) (s s' : FieldSelector) (d d' : DisclosedClaim),
      c.disclose s = .ok d → c.disclose s' = .ok d' →
        ((∃ v, d.verify vk = .ok v) ↔ ∃ v, d'.verify vk = .ok v)) ∧
    (∀ (cs : List Claim) (ds : List DisclosedClaim), Discloses cs ds →
      ∃ full, List.Forall₂ (fun c d => c.disclose .all = .ok d) cs full) ∧
    ∀ (subject : Identity) (audience : Did) (purpose : String) (nonce : Bytes)
      (issuedAt expiresAt : Timestamp) (cs : List Claim) (ds ds' : List DisclosedClaim),
      Discloses cs ds → Discloses cs ds' →
      ∀ (verifier : Did) (now : Timestamp) (anchor : TrustAnchor) (seen : Bool),
        let p := buildPresentation subject audience purpose nonce issuedAt expiresAt ds
        let p' := buildPresentation subject audience purpose nonce issuedAt expiresAt ds'
        (∀ e, verifyPresentation p verifier now anchor seen = .error e ↔
          verifyPresentation p' verifier now anchor seen = .error e) ∧
        (∀ report report', verifyPresentation p verifier now anchor seen = .ok report →
          verifyPresentation p' verifier now anchor seen = .ok report' →
          report.accepted = report'.accepted) ∧
        ∀ predicates report,
          verifyPresentationWithPredicates p verifier now anchor seen predicates = .ok report →
          report.accepted = true →
          ∃ report', verifyPresentation p' verifier now anchor seen = .ok report' ∧
            report'.accepted = true := by
  refine ⟨fun c vk s s' d d' hd hd' => (verify_disclose_iff hd).trans (verify_disclose_iff hd').symm,
    fun _ _ => exists_full, fun subject audience purpose nonce issuedAt expiresAt cs ds ds' h h' verifier now anchor seen => ?_⟩
  intro p p'
  have hp' : p' = { p with claims := ds' } := buildPresentation_claims h h'
  have hp : p = { p' with claims := ds } := buildPresentation_claims h' h
  have hc : Discloses cs p.claims := h
  have hc' : Discloses cs p'.claims := h'
  clear_value p p'
  refine ⟨fun e => ?_, fun report report' hr hr' => Bool.eq_iff_iff.mpr ⟨fun hacc => ?_, fun hacc => ?_⟩,
    fun predicates report hr hacc => ?_⟩
  · rw [hp', verifyPresentation, verifyPresentation, verify_eq_error, verify_eq_error]
  · rw [hp'] at hr'
    obtain ⟨_, hr'', hacc'⟩ := accepted_reselect hc h' hr hacc
    rwa [Except.ok.inj (hr'.symm.trans hr'')]
  · rw [hp] at hr
    obtain ⟨_, hr'', hacc'⟩ := accepted_reselect hc' h hr' hacc
    rwa [Except.ok.inj (hr.symm.trans hr'')]
  · rw [hp']
    exact accepted_reselect hc h' hr hacc

end

section

attribute [local instance] lawful

/-- The law at a skill presented by one of its two fields, and in full. -/
theorem selectors_irrelevant_skill : ∃ (d d' : DisclosedClaim) (report report' : VerificationReport),
    d.fields.map (·.key) = ["skill"] ∧ d'.fields.map (·.key) = ["level", "skill"] ∧
      verifyPresentation (buildPresentation (identity 1) ⟨"did:aion:verifier"⟩ "hiring" (List.replicate 16 7)
        ⟨1000⟩ ⟨1600⟩ [d]) ⟨"did:aion:verifier"⟩ ⟨1200⟩ (trusting (identity 2)) false = .ok report ∧
      report.accepted = true ∧
      verifyPresentation (buildPresentation (identity 1) ⟨"did:aion:verifier"⟩ "hiring" (List.replicate 16 7)
        ⟨1000⟩ ⟨1600⟩ [d']) ⟨"did:aion:verifier"⟩ ⟨1200⟩ (trusting (identity 2)) false = .ok report' ∧
      report'.accepted = true := by
  obtain ⟨c, _, hrun, -⟩ := lawful_run (identity 2) (skillCall (identity 1).did) (by decide)
  have hkeys : fieldKeys c = ["level", "skill"] := by
    rw [fieldKeys, Claim.category, (run_parts hrun).2.1]
    rfl
  obtain ⟨d, hd⟩ := (disclose_isOk_iff (s := .only ["skill"]) ⟨identity 2, _, hrun⟩).mpr
    ⟨List.cons_ne_nil _ _, by simp [selectedKeys, hkeys]⟩
  obtain ⟨-, hfull, hpresented⟩ := selectors_irrelevant
  have hpart : Discloses [c] [d] := .cons ⟨_, hd⟩ .nil
  obtain ⟨full, hall⟩ := hfull [c] [d] hpart
  obtain ⟨d', _, hd', hnil, rfl⟩ := List.forall₂_cons_left_iff.mp hall
  obtain rfl := List.forall₂_nil_left_iff.mp hnil
  have hvalid : ClaimValid (trusting (identity 2)) (identity 1).did ⟨1200⟩ d (verifiedOf d) := by
    refine disclose_valid lawful_lawful ⟨_, rfl, hrun⟩ hd (trusting_good _ ?_)
    rw [disclose_validity hrun hd]
    decide
  obtain ⟨report, hreport, hacc⟩ := buildPresentation_accepted lawful_lawful ⟨"did:aion:verifier"⟩ "hiring"
    (show 16 ≤ (List.replicate 16 (7 : UInt8)).length by decide) (List.cons_ne_nil d [])
    (show (⟨1000⟩ : Timestamp) ≤ ⟨1200⟩ by decide) (show (⟨1200⟩ : Timestamp) ≤ ⟨1600⟩ by decide)
    (List.forall_mem_singleton.mpr ⟨_, hvalid⟩) [] (by simp)
  obtain ⟨-, -, hreselect⟩ := hpresented (identity 1) ⟨"did:aion:verifier"⟩ "hiring" (List.replicate 16 7)
    ⟨1000⟩ ⟨1600⟩ [c] [d] [d'] hpart (.cons ⟨_, hd'⟩ .nil) ⟨"did:aion:verifier"⟩ ⟨1200⟩ (trusting (identity 2))
    false
  obtain ⟨report', hreport', hacc'⟩ := hreselect [] report hreport hacc
  refine ⟨d, d', report, report', (disclose_shows hd).shown, ?_, hreport, hacc, hreport', hacc'⟩
  rw [(disclose_shows hd').shown]
  exact hkeys

end

end AionTrust.Proof
