import AionTrust.Proof.Honest
import AionTrust.Proof.Revealing

/-!
# Accepted and amber

A report accepts just when the presentation, every claim in it and every
predicate are good (`accepted_iff`). It is amber just when the presentation
would be accepted under the anchor that resolves what this one cannot tell, so
nothing but an unresolved reliance makes a report amber (`amber_resolved`).
-/

namespace AionTrust.Proof

open AionTrust.Impl AionTrust.Spec

section

variable [External]

/-- A report accepts just when every condition holds: of the presentation, of
each of its claims, and of each predicate. -/
theorem accepted_iff (p : Presentation) (audience : Did) (now : Timestamp) (anchor : TrustAnchor)
    (nonceAlreadySeen : Bool) (predicates : List PredicateRequest) (report : VerificationReport)
    (h : verifyPresentationWithPredicates p audience now anchor nonceAlreadySeen predicates =
      .ok report) : report.accepted = true ↔
      (∃ subjectVk nonce sig, Decoded p subjectVk nonce sig ∧
        Bound p audience now nonceAlreadySeen subjectVk nonce sig) ∧
      ClaimsValid anchor p.subjectId now p.claims ∧
      ∀ req ∈ predicates, Satisfied anchor p.subjectId now p.claims req := by
  exact report_accepted_iff h

end

section

attribute [local instance] lawful

/-- The law at a presentation of a skill: it is accepted with a request for the
skill, and refused with one under another scale. -/
theorem accepted_iff_skill : ∃ (p : Presentation) (anchor : TrustAnchor) (report report' : VerificationReport),
    verifyPresentationWithPredicates p ⟨"did:aion:verifier"⟩ ⟨1200⟩ anchor false [skillRequest none] =
      .ok report ∧ report.accepted = true ∧
    verifyPresentationWithPredicates p ⟨"did:aion:verifier"⟩ ⟨1200⟩ anchor false
      [skillRequest (some "aion-trust/skill/v2")] = .ok report' ∧ report'.accepted = false := by
  obtain ⟨c, d, hrun, hd, hvalid⟩ := skill_valid (identity 1)
  have hvalid := hvalid ⟨1200⟩ (by decide)
  have hsatisfied := skill_satisfied_iff hrun hd hvalid
  let p := buildPresentation (identity 1) ⟨"did:aion:verifier"⟩ "hiring" (List.replicate 16 7) ⟨1000⟩ ⟨1600⟩ [d]
  have hdecoded : Decoded p _ _ _ := buildPresentation_decoded lawful_lawful
  have hbound : Bound p ⟨"did:aion:verifier"⟩ ⟨1200⟩ false _ _ _ := ⟨rfl, rfl,
    show (⟨1000⟩ : Timestamp) ≤ ⟨1200⟩ by decide, show (⟨1200⟩ : Timestamp) ≤ ⟨1600⟩ by decide, rfl,
    show 16 ≤ (List.replicate 16 (7 : UInt8)).length by decide, List.cons_ne_nil _ _,
    lawful_lawful.sign_verify _ _⟩
  obtain ⟨report, hreport⟩ := verify_isOk.mpr ⟨_, _, _, hdecoded⟩
  obtain ⟨report', hreport'⟩ := verify_isOk.mpr ⟨_, _, _, hdecoded⟩
  refine ⟨p, trusting (identity 2), report, report', hreport, (accepted_iff _ _ _ _ _ _ report hreport).mpr
    ⟨⟨_, _, _, hdecoded, hbound⟩, ?_, ?_⟩, hreport', ?_⟩
  · exact List.forall_mem_singleton.mpr ⟨_, hvalid⟩
  · exact List.forall_mem_singleton.mpr ((hsatisfied none).mpr fun _ h => by cases h)
  · refine Bool.eq_false_iff.mpr fun hacc => ?_
    obtain ⟨-, -, hpreds⟩ := (accepted_iff _ _ _ _ _ _ report' hreport').mp hacc
    exact absurd ((hsatisfied _).mp (List.forall_mem_singleton.mp hpreds) _ rfl) (by decide)

end

/-! ## Amber -/

section

variable [External]

/-- The verifier fails just where the presentation does not decode. -/
theorem verify_eq_error {p : Presentation} {audience : Did} {now : Timestamp} {anchor : TrustAnchor}
    {seen : Bool} {predicates : List PredicateRequest} {e : TrustError} :
    verifyPresentationWithPredicates p audience now anchor seen predicates = .error e ↔
      verifyingKeyFromHex p.subjectKey = .error e ∨
        ∃ subjectVk, verifyingKeyFromHex p.subjectKey = .ok subjectVk ∧
          (fromHex p.nonce = .error e ∨ ∃ nonce, fromHex p.nonce = .ok nonce ∧
            decodeArray 64 p.subjectSignature = .error e) := by
  simp only [verifyPresentationWithPredicates, Framework.bind_eq_error, Framework.pure_ne_error,
    and_false, exists_false, or_false]

theorem claimValid_resolved {anchor : TrustAnchor} {presenter : Did} {now : Timestamp}
    {c : DisclosedClaim} {v : VerifiedDisclosure} (h : ClaimValid anchor presenter now c v) :
    ClaimValid (resolved anchor) presenter now c v where
  subject := h.subject
  verified := h.verified
  active := h.active
  accredited := h.accredited
  notRevoked := h.notRevoked
  relianceLive dep hdep := by simp [resolved, h.relianceLive dep hdep]

/-- A predicate satisfied under an anchor is satisfied under the one that
resolves: its claim stays valid. -/
theorem satisfied_resolved {anchor : TrustAnchor} {presenter : Did} {now : Timestamp}
    {claims : List DisclosedClaim} {req : PredicateRequest}
    (h : Satisfied anchor presenter now claims req) :
    Satisfied (resolved anchor) presenter now claims req := by
  obtain ⟨c, hc, v, hvalid, hrest⟩ := h
  exact ⟨c, hc, v, claimValid_resolved hvalid, hrest⟩

/-- Under the anchor that resolves, live is what was not revoked. -/
theorem status_ne_revoked {anchor : TrustAnchor} {presenter : Did} {now : Timestamp}
    {c : DisclosedClaim} {v : VerifiedDisclosure}
    (h : ClaimValid (resolved anchor) presenter now c v) :
    ∀ dep ∈ v.reliance, anchor.status dep now ≠ .revoked := fun dep hdep =>
  (upTo_status_eq_live.mp (show (upTo true anchor).status dep now = .live from
    h.relianceLive dep hdep)).1

/-- The strict and the lenient verdict of a report, under the anchor and under
the one that resolves. -/
theorem verdicts_iff {p : Presentation} {audience : Did} {now : Timestamp} {anchor : TrustAnchor}
    {seen : Bool} {predicates : List PredicateRequest} {report report' : VerificationReport}
    (h : verifyPresentationWithPredicates p audience now anchor seen predicates = .ok report)
    (h' : verifyPresentationWithPredicates p audience now (resolved anchor) seen predicates =
      .ok report') : (report.accepted = true ∨ report.amber = true ↔ report'.accepted = true ∧
        ∀ req ∈ predicates, Satisfied anchor p.subjectId now p.claims req) := by
  have hlenient := report_iff h true
  rw [Bool.true_and, Bool.or_eq_true] at hlenient
  rw [hlenient, report_accepted_iff h']
  constructor
  · rintro ⟨hbound, hclaims, hpreds⟩
    exact ⟨⟨hbound, hclaims, fun req hreq => satisfied_resolved (hpreds req hreq)⟩, hpreds⟩
  · rintro ⟨⟨hbound, hclaims, -⟩, hpreds⟩
    exact ⟨hbound, hclaims, hpreds⟩

/-- Amber is blocked on unresolved reliance only. The anchor that resolves
fails on the same presentations; where a report is amber it accepts, and
without predicates it accepts just what was accepted or amber. So an amber
presentation is bound to its subject, audience and window, every claim of it is
valid but for dependencies that are unresolved, none of them revoked, and its
predicates are satisfied. -/
theorem amber_resolved (p : Presentation) (audience : Did) (now : Timestamp) (anchor : TrustAnchor)
    (nonceAlreadySeen : Bool) (predicates : List PredicateRequest) :
    (∀ e, verifyPresentationWithPredicates p audience now anchor nonceAlreadySeen predicates =
        .error e ↔
      verifyPresentationWithPredicates p audience now (resolved anchor) nonceAlreadySeen predicates =
        .error e) ∧
    ∀ report report',
      verifyPresentationWithPredicates p audience now anchor nonceAlreadySeen predicates =
        .ok report →
      verifyPresentationWithPredicates p audience now (resolved anchor) nonceAlreadySeen predicates =
        .ok report' →
      (report.amber = true → report'.accepted = true) ∧
      (predicates = [] →
        (report.accepted = true ∨ report.amber = true ↔ report'.accepted = true)) ∧
      (report.amber = true →
        (∃ subjectVk nonce sig, Decoded p subjectVk nonce sig ∧
          Bound p audience now nonceAlreadySeen subjectVk nonce sig) ∧
        (∀ c ∈ p.claims, ∃ v, ClaimValid (resolved anchor) p.subjectId now c v ∧
          ∀ dep ∈ v.reliance, anchor.status dep now ≠ .revoked) ∧
        ∀ req ∈ predicates, Satisfied anchor p.subjectId now p.claims req) := by
  refine ⟨fun e => verify_eq_error.trans verify_eq_error.symm, fun report report' h h' => ?_⟩
  have hverdicts := verdicts_iff h h'
  refine ⟨fun hamber => (hverdicts.mp (.inr hamber)).1, ?_, fun hamber => ?_⟩
  · rintro rfl
    simpa using hverdicts
  · obtain ⟨hbound, hclaims, hpreds⟩ :=
      (report_iff h true).mp (by rw [hamber, Bool.true_and, Bool.or_true])
    refine ⟨hbound, fun c hc => ?_, hpreds⟩
    obtain ⟨v, hv⟩ := hclaims c hc
    exact ⟨v, hv, status_ne_revoked hv⟩

end

section

attribute [local instance] lawful

/-- An anchor that cannot tell of any claim whether it is live. -/
def doubting (issuer : Identity) : TrustAnchor :=
  { trusting issuer with status := fun _ _ => .unresolvable }

/-- The law at a skill whose dependencies cannot be resolved: amber, and accepted
under the anchor that resolves them. -/
theorem amber_resolved_skill : ∃ (p : Presentation) (anchor : TrustAnchor) (report report' : VerificationReport),
    verifyPresentation p ⟨"did:aion:verifier"⟩ ⟨1200⟩ anchor false = .ok report ∧
      report.accepted = false ∧ report.amber = true ∧
      verifyPresentation p ⟨"did:aion:verifier"⟩ ⟨1200⟩ (resolved anchor) false = .ok report' ∧
      report'.accepted = true := by
  obtain ⟨c, d, hrun, hd⟩ := lawful_run (identity 2) (skillCall (identity 1).did) (by decide)
  have hactive : d.validity.activeAt ⟨1200⟩ = true := by
    rw [disclose_validity hrun hd]
    decide
  have hgood : GoodAt (resolved (doubting (identity 2))) ⟨1200⟩ (identity 2).verifyingKey d :=
    ⟨rfl, hactive, by simp [resolved, doubting, trusting], rfl, fun _ _ => rfl⟩
  have hvalid := disclose_valid lawful_lawful ⟨_, rfl, hrun⟩ hd hgood
  obtain ⟨report', hreport', hacc'⟩ := buildPresentation_accepted lawful_lawful ⟨"did:aion:verifier"⟩ "hiring"
    (show 16 ≤ (List.replicate 16 (7 : UInt8)).length by decide) (List.cons_ne_nil d [])
    (show (⟨1000⟩ : Timestamp) ≤ ⟨1200⟩ by decide) (show (⟨1200⟩ : Timestamp) ≤ ⟨1600⟩ by decide)
    (List.forall_mem_singleton.mpr ⟨_, hvalid⟩) [] (by simp)
  obtain ⟨report, hreport⟩ : ∃ report, verifyPresentation _ ⟨"did:aion:verifier"⟩ ⟨1200⟩ (doubting (identity 2)) false =
      .ok report := verify_isOk.mpr (verify_isOk.mp ⟨report', hreport'⟩)
  obtain ⟨-, hamber⟩ := amber_resolved _ _ _ (doubting (identity 2)) false []
  obtain ⟨-, hexact, -⟩ := hamber report report' hreport hreport'
  -- its two dependencies are not live
  have hrefused : report.accepted = false := by
    refine Bool.eq_false_iff.mpr fun hacc => ?_
    obtain ⟨-, hclaims, -⟩ := (report_accepted_iff hreport).mp hacc
    obtain ⟨v, -, ⟨_, -, hv⟩, -, -, -, hlive⟩ := hclaims d (.head _)
    obtain rfl := verify_eq_verifiedOf hv
    have hdeps : (verifiedOf d).reliance = [⟨"identity"⟩, ⟨"identity"⟩] := by
      rw [show (verifiedOf d).reliance = _ from disclose_reliance hd, run_reliance hrun]
      rfl
    exact absurd (hlive ⟨"identity"⟩ (by simp [hdeps])) (by simp [doubting])
  exact ⟨_, doubting (identity 2), report, report', hreport, hrefused,
    ((hexact rfl).mpr hacc').resolve_left (by simp [hrefused]), hreport', hacc'⟩

end

end AionTrust.Proof
