import AionTrust.Proof.Honest
import AionTrust.Proof.Interop.Reading
import AionTrust.Proof.Interop.Vp

/-!
# Export and import

A disclosed claim that verifies comes back from its credential just when the
bounds of its validity are formattable (`vc_round_trip_iff`), and a
presentation that is accepted comes back as one that is accepted on the same
terms just when every timestamp in it is (`vp_round_trip_iff`). The other
timestamps are written with a year of five characters or more, which is not
read: a claim that starts in the year 10000 is not imported
(`far_claim_lost`), nor is a presentation whose time to live is the longest
there is (`saturated_presentation_lost`).
-/

namespace AionTrust.Proof

open AionTrust.Impl AionTrust.Spec

section

variable [External] [Serde]

/-! ## Credentials -/

/-- A claim that verifies is exported, and its credential imports as the claim
or not at all. -/
theorem vc_round_trip
    (hbytes : ∀ vk : VerifyingKey, External.fromBytes (External.toBytes vk) = .ok vk) (hreads : Reads)
    {d : DisclosedClaim} {vk : VerifyingKey} {v : VerifiedDisclosure} (hv : d.verify vk = .ok v) :
    ∃ doc, exportDisclosedVc d vk = .ok doc ∧
      (FormattableValidity d.validity → importDisclosedVc doc = .ok d) ∧
      (¬ FormattableValidity d.validity → ∃ e, importDisclosedVc doc = .error e) := by
  obtain ⟨doc, proof, hexport, hcredential⟩ := export_spec hbytes (verified_keys hv) vk
  exact ⟨doc, hexport, importDisclosedVc_spec hreads hcredential hv⟩

/-- A disclosed claim that verifies is exported and imported as it was just when
its validity starts, and ends if it does, in the years from -999 to 9999. -/
theorem vc_round_trip_iff
    (hbytes : ∀ vk : VerifyingKey, External.fromBytes (External.toBytes vk) = .ok vk) (hreads : Reads)
    (d : DisclosedClaim) (vk : VerifyingKey) (v : VerifiedDisclosure) (hv : d.verify vk = .ok v) :
    (∃ doc, exportDisclosedVc d vk = .ok doc ∧ importDisclosedVc doc = .ok d) ↔
      Formattable d.validity.fromTime ∧ ∀ u, d.validity.untilTime = some u → Formattable u := by
  obtain ⟨doc, hexport, himport, hrefuse⟩ := vc_round_trip hbytes hreads hv
  constructor
  · rintro ⟨doc', hexport', himport'⟩
    obtain rfl := Except.ok.inj (hexport.symm.trans hexport')
    by_contra hnot
    obtain ⟨e, he⟩ := hrefuse fun hfmt => hnot ⟨hfmt.fromTime, hfmt.untilTime⟩
    rw [he] at himport'
    cases himport'
  · rintro ⟨hfrom, huntil⟩
    exact ⟨doc, hexport, himport ⟨hfrom, huntil⟩⟩

end

section

attribute [local instance] lawful reading

/-- The law at an issued skill, which comes back. -/
theorem vc_round_trip_iff_skill : ∃ (d : DisclosedClaim) (vk : VerifyingKey) (v : VerifiedDisclosure),
    d.verify vk = .ok v ∧ ∃ doc, exportDisclosedVc d vk = .ok doc ∧ importDisclosedVc doc = .ok d := by
  obtain ⟨c, d, hrun, hd⟩ := lawful_run (identity 2) (skillCall ⟨"did:aion:subject"⟩)
    (show 2 < 2 ^ 32 by decide)
  have hverify := disclose_verifies lawful_lawful ⟨_, rfl, hrun⟩ hd
  refine ⟨d, _, _, hverify,
    (vc_round_trip_iff lawful_lawful.fromBytes_toBytes reading_reads d _ _ hverify).mpr ?_⟩
  rw [disclose_validity hrun hd]
  exact ⟨by decide, fun _ h => by cases h⟩

/-- A skill issued to be valid from 10000-01-01T00:00:00Z verifies, and its
credential does not import. -/
theorem far_claim_lost : ∃ (c : Claim) (d : DisclosedClaim) (v : VerifiedDisclosure),
    IssueCall.run (identity 2) { skillCall ⟨"did:aion:subject"⟩ with
      validity := ⟨⟨253402300800⟩, none⟩ } = .ok c ∧
      c.disclose .all = .ok d ∧ d.verify (identity 2).verifyingKey = .ok v ∧
      ¬ ∃ doc, exportDisclosedVc d (identity 2).verifyingKey = .ok doc ∧ importDisclosedVc doc = .ok d := by
  obtain ⟨c, d, hrun, hd⟩ := lawful_run (identity 2) { skillCall ⟨"did:aion:subject"⟩ with
    validity := ⟨⟨253402300800⟩, none⟩ } (show 2 < 2 ^ 32 by decide)
  have hvalidity : d.validity = ⟨⟨253402300800⟩, none⟩ := disclose_validity hrun hd
  have hverify := disclose_verifies lawful_lawful ⟨_, rfl, hrun⟩ hd
  obtain ⟨doc, hexport, -, hrefuse⟩ :=
    vc_round_trip lawful_lawful.fromBytes_toBytes reading_reads hverify
  refine ⟨c, d, _, hrun, hd, hverify, ?_⟩
  rintro ⟨doc', hexport', himport⟩
  obtain rfl := Except.ok.inj (hexport.symm.trans hexport')
  have hfar : ¬ Formattable d.validity.fromTime := by
    rw [hvalidity]
    decide
  obtain ⟨e, he⟩ := hrefuse fun hfmt => hfar hfmt.fromTime
  cases himport.symm.trans he

end

/-! ## Presentations -/

section

variable [External] [Serde]

/-- An accepted presentation is exported, and its document imports as the
presentation with its key written again or not at all. -/
theorem vp_round_trip
    (hbytes : ∀ vk : VerifyingKey, External.fromBytes (External.toBytes vk) = .ok vk) (hreads : Reads)
    {p : Presentation} {audience : Did} {now : Timestamp} {seen : Bool} {anchor : TrustAnchor}
    {report : VerificationReport} (h : verifyPresentation p audience now anchor seen = .ok report)
    (hacc : report.accepted = true) : ∃ doc subjectVk,
      exportPresentationVp p anchor.issuerKey = .ok doc ∧
      verifyPresentation (canonical p subjectVk) audience now anchor seen = .ok report ∧
      (FormattablePresentation p → importPresentationVp doc = .ok (canonical p subjectVk)) ∧
      (¬ FormattablePresentation p → ∃ e, importPresentationVp doc = .error e) := by
  obtain ⟨⟨subjectVk, nonce, sig, hdecoded, hbound⟩, hclaims, -⟩ := (report_accepted_iff h).mp hacc
  have hverified : ∀ c ∈ p.claims, ∃ vk v, anchor.issuerKey c.issuerId = some vk ∧ c.verify vk = .ok v := by
    intro c hc
    obtain ⟨v, hvalid⟩ := hclaims c hc
    obtain ⟨vk, hvk, hv⟩ := hvalid.verified
    exact ⟨vk, v, hvk, hv⟩
  obtain ⟨doc, proof, vcs, hexport, hdoc⟩ := exportVp_spec hbytes hdecoded.subjectKey hverified
  exact ⟨doc, subjectVk, hexport, (verify_canonical hbytes hdecoded.subjectKey ..).trans h,
    importVp_spec hreads hdoc hbound.subject⟩

/-- A presentation that is accepted is exported and imported as one that is
accepted on the same terms just when its window, and the validity of every claim
in it, lie in the years from -999 to 9999. -/
theorem vp_round_trip_iff
    (hbytes : ∀ vk : VerifyingKey, External.fromBytes (External.toBytes vk) = .ok vk) (hreads : Reads)
    (p : Presentation) (audience : Did) (now : Timestamp) (seen : Bool) (anchor : TrustAnchor)
    (report : VerificationReport) (h : verifyPresentation p audience now anchor seen = .ok report)
    (hacc : report.accepted = true) :
    (∃ doc p' report', exportPresentationVp p anchor.issuerKey = .ok doc ∧
      importPresentationVp doc = .ok p' ∧
      verifyPresentation p' audience now anchor seen = .ok report' ∧ report'.accepted = true ∧
      SameTerms p p') ↔ FormattablePresentation p := by
  obtain ⟨doc, subjectVk, hexport, hverify, himport, hrefuse⟩ := vp_round_trip hbytes hreads h hacc
  constructor
  · rintro ⟨doc', p', report', hexport', himport', -⟩
    obtain rfl := Except.ok.inj (hexport.symm.trans hexport')
    by_contra hnot
    obtain ⟨e, he⟩ := hrefuse hnot
    cases himport'.symm.trans he
  · intro hfmt
    exact ⟨doc, _, report, hexport, himport hfmt, hverify, hacc, ⟨rfl, rfl, rfl, rfl, rfl, rfl, rfl⟩⟩

end

section

attribute [local instance] lawful reading

/-- The law at a presentation of a skill, which comes back. -/
theorem vp_round_trip_iff_skill : ∃ (p : Presentation) (now : Timestamp) (anchor : TrustAnchor)
    (report : VerificationReport),
    verifyPresentation p ⟨"did:aion:verifier"⟩ now anchor false = .ok report ∧ report.accepted = true ∧
      ∃ doc p' report', exportPresentationVp p anchor.issuerKey = .ok doc ∧
        importPresentationVp doc = .ok p' ∧
        verifyPresentation p' ⟨"did:aion:verifier"⟩ now anchor false = .ok report' ∧
        report'.accepted = true ∧ SameTerms p p' := by
  obtain ⟨c, d, hrun, hd, hvalid⟩ := skill_valid (identity 1)
  have hvalidity : d.validity = ⟨⟨0⟩, none⟩ := disclose_validity hrun hd
  obtain ⟨report, hreport, hacc⟩ := buildPresentation_accepted lawful_lawful ⟨"did:aion:verifier"⟩ "hiring"
    (show 16 ≤ (List.replicate 16 (7 : UInt8)).length by decide) (List.cons_ne_nil d [])
    (show (⟨1000⟩ : Timestamp) ≤ ⟨1200⟩ by decide) (show (⟨1200⟩ : Timestamp) ≤ ⟨1600⟩ by decide)
    (List.forall_mem_singleton.mpr ⟨_, hvalid ⟨1200⟩ (by decide)⟩) [] (by simp)
  refine ⟨_, ⟨1200⟩, trusting (identity 2), report, hreport, hacc,
    (vp_round_trip_iff lawful_lawful.fromBytes_toBytes reading_reads _ ⟨"did:aion:verifier"⟩ ⟨1200⟩ false _
      report hreport hacc).mpr ⟨?_, ?_, List.forall_mem_singleton.mpr ?_⟩⟩
  · exact (show Formattable ⟨1000⟩ by decide)
  · exact (show Formattable ⟨1600⟩ by decide)
  · rw [hvalidity]
    exact ⟨by decide, fun _ h => by cases h⟩

/-- A skill presented to live for `i64::MAX` seconds is accepted, and its
document does not import. -/
theorem saturated_presentation_lost : ∃ (d : DisclosedClaim) (anchor : TrustAnchor) (p : Presentation)
    (report : VerificationReport),
    p = buildPresentation (identity 1) ⟨"did:aion:verifier"⟩ "hiring" (List.replicate 16 7) ⟨1000⟩
      (Timestamp.plusSeconds ⟨1000⟩ Int64.maxValue) [d] ∧
      verifyPresentation p ⟨"did:aion:verifier"⟩ ⟨1200⟩ anchor false = .ok report ∧
      report.accepted = true ∧
      ¬ ∃ doc p', exportPresentationVp p anchor.issuerKey = .ok doc ∧ importPresentationVp doc = .ok p' := by
  obtain ⟨_, d, -, -, hvalid⟩ := skill_valid (identity 1)
  have hissued : (⟨1000⟩ : Timestamp) ≤ ⟨1200⟩ := by decide
  have hunexpired : (⟨1200⟩ : Timestamp) ≤ Timestamp.plusSeconds ⟨1000⟩ Int64.maxValue := by decide
  obtain ⟨report, hreport, hacc⟩ := buildPresentation_accepted lawful_lawful ⟨"did:aion:verifier"⟩ "hiring"
    (show 16 ≤ (List.replicate 16 (7 : UInt8)).length by decide) (List.cons_ne_nil d []) hissued hunexpired
    (List.forall_mem_singleton.mpr ⟨_, hvalid ⟨1200⟩ (by decide)⟩) [] (by simp)
  obtain ⟨doc, subjectVk, hexport, -, -, hrefuse⟩ :=
    vp_round_trip lawful_lawful.fromBytes_toBytes reading_reads hreport hacc
  refine ⟨d, trusting (identity 2), _, report, rfl, hreport, hacc, ?_⟩
  rintro ⟨doc', p', hexport', himport⟩
  obtain rfl := Except.ok.inj (hexport.symm.trans hexport')
  have hfar : ¬ Formattable (Timestamp.plusSeconds ⟨1000⟩ Int64.maxValue) := by decide
  obtain ⟨e, he⟩ := hrefuse fun hfmt => hfar hfmt.expiresAt
  cases himport.symm.trans he

end

end AionTrust.Proof
