import AionTrust.Proof.Disclosure
import AionTrust.Spec.Acceptance

/-!
# The verdict is every check

Each part of the verifier only adds checks to the list, and each says when
what it adds passes: the presentation's own checks (`presentationChecks_all`),
the checks of an authentic claim (`authenticatedClaimChecks_all`), of any
claim (`verifyOneClaim_all`), of all of them (`verifyClaims_all`), and the
predicates (`evaluatePredicates_all`). The flag a predicate rides on agrees
with the checks pushed for its claim (`verifyOneClaim_outcome`).

The checks are read in two ways, strictly or letting an unresolved reliance
pass (`passes`): the first under an anchor, and the second as the first under
the anchor that resolves (`upTo`). The strict reading is the verdict
(`report_accepted_iff`, `verify_accepts`).
-/

namespace AionTrust.Proof

open AionTrust.Impl AionTrust.Spec
open Framework (Bytes bind_eq_ok pure_eq_ok)

/-- A check passes, or is the soft one that a lenient reading lets pass. -/
def passes (lenient : Bool) (c : Check) : Bool :=
  c.passed || (lenient && c.name == relianceResolvableCheck)

theorem all_check {lenient : Bool} {checks : List Check} {name : String} {passed : Bool}
    {detail : String} (hname : name ≠ relianceResolvableCheck) :
    (check checks name passed detail).all (passes lenient) =
      (checks.all (passes lenient) && passed) := by
  have hb : (name == relianceResolvableCheck) = false := by simpa using hname
  simp [check, passes, hb]

theorem all_check_soft {lenient : Bool} {checks : List Check} {passed : Bool} {detail : String} :
    (check checks relianceResolvableCheck passed detail).all (passes lenient) =
      (checks.all (passes lenient) && (passed || lenient)) := by
  simp [check, passes]

theorem all_foldl_check {α : Type} {lenient : Bool} {name : String} {passed : α → Bool}
    {detail : α → String} (hname : name ≠ relianceResolvableCheck) (as : List α)
    (checks : List Check) :
    (as.foldl (fun checks a => check checks name (passed a) (detail a)) checks).all
        (passes lenient) = (checks.all (passes lenient) && as.all passed) := by
  induction as generalizing checks with
  | nil => simp
  | cons a as ih => rw [List.foldl_cons, ih, all_check hname, List.all_cons, Bool.and_assoc]

/-- A loop that raises two flags. -/
theorem foldl_flags {α : Type} {f : Bool × Bool → α → Bool × Bool} {p q : α → Bool}
    (hf : ∀ flags a, f flags a = (flags.1 || p a, flags.2 || q a)) (as : List α)
    (flags : Bool × Bool) : as.foldl f flags = (flags.1 || as.any p, flags.2 || as.any q) := by
  induction as generalizing flags with
  | nil => simp
  | cons a as ih => rw [List.foldl_cons, ih, hf, List.any_cons, List.any_cons, Bool.or_assoc, Bool.or_assoc]

/-- A report reads its verdict off its checks. -/
theorem verdict_of_checks (checks : List Check) :
    checks.all (·.passed) = checks.all (passes false) ∧
      (checks.all (·.passed) || (!checks.all (·.passed) &&
        (checks.filter fun c => !c.passed).all fun c => c.name == relianceResolvableCheck)) =
        checks.all (passes true) := by
  have hstrict : checks.all (·.passed) = checks.all (passes false) :=
    congrArg checks.all (funext fun c => by simp [passes])
  have hlenient : ((checks.filter fun c => !c.passed).all
      fun c => c.name == relianceResolvableCheck) = checks.all (passes true) := by
    rw [List.all_filter]
    exact congrArg checks.all (funext fun c => by simp [passes])
  refine ⟨hstrict, ?_⟩
  rw [hlenient]
  cases h : checks.all (·.passed) with
  | false => rfl
  | true =>
    symm
    rw [Bool.true_or, List.all_eq_true]
    intro c hc
    rw [passes, List.all_eq_true.mp h c hc, Bool.true_or]

/-- What a predicate asks of one claim. -/
theorem predicateHolds_iff {req : PredicateRequest} {o : ClaimOutcome} :
    predicateHolds req o = true ↔ o.fullyValid = true ∧ o.category = req.category ∧
      (∀ scale, req.scaleVersion = some scale → o.schemaId = scale) ∧
      ∃ value, o.verified.value req.field = some value ∧
        evaluate req.op value req.bound = .ok true := by
  unfold predicateHolds
  by_cases hfull : o.fullyValid = true
  · by_cases hcat : o.category = req.category
    · have hscale : (req.scaleVersion.any fun scale => o.schemaId != scale) = false ↔
          ∀ scale, req.scaleVersion = some scale → o.schemaId = scale := by
        cases req.scaleVersion <;> simp
      by_cases hs : (req.scaleVersion.any fun scale => o.schemaId != scale) = true
      · have hno : ¬ ∀ scale, req.scaleVersion = some scale → o.schemaId = scale := by
          rw [← hscale, hs]; decide
        simp [hfull, hcat, hs, hno]
      · rw [Bool.not_eq_true] at hs
        cases hvalue : o.verified.value req.field with
        | none => simp [hs]
        | some value =>
          cases heval : evaluate req.op value req.bound with
          | error e => simp [hs, heval]
          | ok holds =>
            simp only [hfull, hcat, hs, heval, Bool.not_true, bne_self_eq_false, Bool.or_self,
              Bool.false_eq_true, if_false, Option.some.injEq, exists_eq_left', Except.ok.injEq,
              true_and]
            exact ⟨fun h => ⟨hscale.mp hs, h⟩, fun h => h.2⟩
    · simp [hfull, hcat]
  · simp [hfull]

variable [External]

/-- The anchor a reading of the checks amounts to. -/
def upTo (lenient : Bool) (anchor : TrustAnchor) : TrustAnchor :=
  if lenient then resolved anchor else anchor

theorem upTo_issuerKey (lenient : Bool) (anchor : TrustAnchor) :
    (upTo lenient anchor).issuerKey = anchor.issuerKey := by
  cases lenient <;> rfl

theorem upTo_standing (lenient : Bool) (anchor : TrustAnchor) :
    (upTo lenient anchor).standing = anchor.standing := by
  cases lenient <;> rfl

theorem upTo_isRevoked (lenient : Bool) (anchor : TrustAnchor) :
    (upTo lenient anchor).isRevoked = anchor.isRevoked := by
  cases lenient <;> rfl

theorem upTo_status_eq_live {lenient : Bool} {anchor : TrustAnchor} {dep : ClaimId}
    {now : Timestamp} : (upTo lenient anchor).status dep now = .live ↔
      anchor.status dep now ≠ .revoked ∧ (anchor.status dep now ≠ .unresolvable ∨ lenient = true) := by
  cases h : anchor.status dep now <;> cases lenient <;> simp [upTo, resolved, h]

/-! ## The presentation -/

theorem presentationChecks_all {lenient : Bool} {p : Presentation} {audience : Did} {now : Timestamp}
    {seen : Bool} {subjectVk : VerifyingKey} {nonce : Bytes} {sig : ByteVec 64} :
    (presentationChecks p audience now seen subjectVk nonce sig).all (passes lenient) = true ↔
      Bound p audience now seen subjectVk nonce sig := by
  simp only [presentationChecks]
  rw [all_check (by decide), all_check (by decide), all_check (by decide), all_check (by decide),
    all_check (by decide), all_check (by decide), all_check (by decide)]
  simp only [List.all_nil, Bool.true_and, Bool.and_eq_true, decide_eq_true_eq, Bool.not_eq_true',
    List.isEmpty_eq_false_iff, minNonceLen, ge_iff_le]
  constructor
  · rintro ⟨⟨⟨⟨⟨⟨hsubject, haudience⟩, hissued, hunexpired⟩, hfresh⟩, hlength⟩, hnonempty⟩, hsig⟩
    exact ⟨hsubject, haudience, hissued, hunexpired, hfresh, hlength, hnonempty, hsig⟩
  · rintro ⟨hsubject, haudience, hissued, hunexpired, hfresh, hlength, hnonempty, hsig⟩
    exact ⟨⟨⟨⟨⟨⟨hsubject, haudience⟩, hissued, hunexpired⟩, hfresh⟩, hlength⟩, hnonempty⟩, hsig⟩

/-! ## A claim -/

theorem relianceStatus_eq (anchor : TrustAnchor) (now : Timestamp) (deps : List ClaimId) :
    relianceStatus anchor now deps = (deps.any fun dep => decide (anchor.status dep now = .revoked),
      deps.any fun dep => decide (anchor.status dep now = .unresolvable)) := by
  rw [relianceStatus, foldl_flags (p := fun dep => decide (anchor.status dep now = .revoked))
    (q := fun dep => decide (anchor.status dep now = .unresolvable)) fun flags dep => ?_]
  · simp only [Bool.false_or]
  · cases h : anchor.status dep now <;> simp

/-- The trust checks of an authentic claim. -/
structure Trusted (anchor : TrustAnchor) (now : Timestamp) (c : DisclosedClaim)
    (v : VerifiedDisclosure) : Prop where
  active : v.activeAt now = true
  accredited : (anchor.standing c.issuerId v.category now).accreditationRequired = true →
    (anchor.standing c.issuerId v.category now).accredited = true
  notRevoked : anchor.isRevoked c.claimId now = false
  relianceLive : ∀ dep ∈ v.reliance, anchor.status dep now = .live

theorem relianceLive_iff (lenient : Bool) (anchor : TrustAnchor) (now : Timestamp)
    (deps : List ClaimId) : (∀ dep ∈ deps, (upTo lenient anchor).status dep now = .live) ↔
      ((!(deps.any fun dep => decide (anchor.status dep now = .revoked))) &&
        (!(deps.any fun dep => decide (anchor.status dep now = .unresolvable)) || lenient)) = true := by
  simp only [upTo_status_eq_live, Bool.and_eq_true, Bool.or_eq_true, Bool.not_eq_true',
    List.any_eq_false, decide_eq_true_eq]
  cases lenient <;> simp [forall_and]

theorem authenticatedClaimChecks_all {lenient : Bool} {checks : List Check} {c : DisclosedClaim}
    {v : VerifiedDisclosure} {now : Timestamp} {anchor : TrustAnchor} :
    (authenticatedClaimChecks checks c v now anchor).1.all (passes lenient) = true ↔
      checks.all (passes lenient) = true ∧ Trusted (upTo lenient anchor) now c v := by
  have hrel := relianceLive_iff lenient anchor now v.reliance
  have htrusted : Trusted (upTo lenient anchor) now c v ↔ v.activeAt now = true ∧
      ((anchor.standing c.issuerId v.category now).accreditationRequired = true →
        (anchor.standing c.issuerId v.category now).accredited = true) ∧
      anchor.isRevoked c.claimId now = false ∧
      ∀ dep ∈ v.reliance, (upTo lenient anchor).status dep now = .live := by
    rw [← upTo_standing lenient, ← upTo_isRevoked lenient]
    exact ⟨fun ⟨ha, hb, hc, hd⟩ => ⟨ha, hb, hc, hd⟩, fun ⟨ha, hb, hc, hd⟩ => ⟨ha, hb, hc, hd⟩⟩
  rw [htrusted, hrel]
  simp only [authenticatedClaimChecks, relianceStatus_eq]
  cases hreq : (anchor.standing c.issuerId v.category now).accreditationRequired <;>
    cases hempty : v.reliance.isEmpty
  all_goals
    simp only [Bool.false_eq_true, if_true, if_false]
    simp only [all_check_soft, all_check (show "claim not revoked" ≠ _ by decide),
      all_check (show "issuer accredited" ≠ _ by decide),
      all_check (show "claim within validity" ≠ _ by decide),
      all_check (show "claim authentic" ≠ _ by decide),
      all_check (show "reliance intact (no relied-upon claim revoked)" ≠ _ by decide),
      all_foldl_check (show "field proven against body_root" ≠ _ by decide)]
    simp_all [and_assoc]

/-- The flag returned with the checks agrees with them. -/
theorem authenticatedClaimChecks_flag {checks : List Check} {c : DisclosedClaim}
    {v : VerifiedDisclosure} {now : Timestamp} {anchor : TrustAnchor} :
    (authenticatedClaimChecks checks c v now anchor).2 = true ↔ Trusted anchor now c v := by
  have hrel := relianceLive_iff false anchor now v.reliance
  have htrusted : Trusted anchor now c v ↔ v.activeAt now = true ∧
      ((anchor.standing c.issuerId v.category now).accreditationRequired = true →
        (anchor.standing c.issuerId v.category now).accredited = true) ∧
      anchor.isRevoked c.claimId now = false ∧
      ∀ dep ∈ v.reliance, (upTo false anchor).status dep now = .live :=
    ⟨fun ⟨ha, hb, hc, hd⟩ => ⟨ha, hb, hc, hd⟩, fun ⟨ha, hb, hc, hd⟩ => ⟨ha, hb, hc, hd⟩⟩
  rw [htrusted, hrel]
  simp only [authenticatedClaimChecks, relianceStatus_eq]
  cases hreq : (anchor.standing c.issuerId v.category now).accreditationRequired <;>
    simp [and_assoc]

theorem claimValid_iff {anchor : TrustAnchor} {presenter : Did} {now : Timestamp}
    {c : DisclosedClaim} {v : VerifiedDisclosure} : ClaimValid anchor presenter now c v ↔
      c.subjectId = presenter ∧
        (∃ issuerVk, anchor.issuerKey c.issuerId = some issuerVk ∧ c.verify issuerVk = .ok v) ∧
        Trusted anchor now c v := by
  constructor
  · rintro ⟨hsubject, ⟨vk, hkey, hv⟩, hactive, hacc, hrevoked, hlive⟩
    have hcat : v.category = c.category := by rw [verify_eq_verifiedOf hv]; rfl
    exact ⟨hsubject, ⟨vk, hkey, hv⟩, hactive, by rwa [hcat], hrevoked, hlive⟩
  · rintro ⟨hsubject, ⟨vk, hkey, hv⟩, hactive, hacc, hrevoked, hlive⟩
    have hcat : v.category = c.category := by rw [verify_eq_verifiedOf hv]; rfl
    exact ⟨hsubject, ⟨vk, hkey, hv⟩, hactive, by rwa [← hcat], hrevoked, hlive⟩

/-- The checks of a claim pass just when it is valid, also where the claim is
left early. -/
theorem verifyOneClaim_all {lenient : Bool} {checks : List Check} {c : DisclosedClaim}
    {presenter : Did} {now : Timestamp} {anchor : TrustAnchor} :
    (verifyOneClaim checks c presenter now anchor).1.all (passes lenient) = true ↔
      checks.all (passes lenient) = true ∧
        ∃ v, ClaimValid (upTo lenient anchor) presenter now c v := by
  simp only [verifyOneClaim, claimValid_iff, upTo_issuerKey]
  cases hkey : anchor.issuerKey c.issuerId with
  | none => simp [all_check (show "issuer recognized" ≠ _ by decide)]
  | some issuerVk =>
    cases hv : c.verify issuerVk with
    | error reject => simp [all_check (show "claim authentic" ≠ _ by decide), hv]
    | ok v =>
      simp only [hv, authenticatedClaimChecks_all,
        all_check (show "claim subject matches presenter" ≠ _ by decide)]
      simp [hv, and_assoc]

/-- What a valid claim leaves for the predicates. -/
def outcomeOf (c : DisclosedClaim) (v : VerifiedDisclosure) : ClaimOutcome where
  category := c.category
  schemaId := c.schemaId
  verified := v
  fullyValid := true

/-- A claim's outcome is flagged valid just when the claim is valid. -/
theorem verifyOneClaim_outcome {checks : List Check} {c : DisclosedClaim} {presenter : Did}
    {now : Timestamp} {anchor : TrustAnchor} {o : ClaimOutcome} :
    (verifyOneClaim checks c presenter now anchor).2 = some o ∧ o.fullyValid = true ↔
      ∃ v, ClaimValid anchor presenter now c v ∧ o = outcomeOf c v := by
  simp only [verifyOneClaim, claimValid_iff]
  cases hkey : anchor.issuerKey c.issuerId with
  | none => simp
  | some issuerVk =>
    cases hv : c.verify issuerVk with
    | error reject => simp [hv]
    | ok v =>
      simp only [hv, Option.some.injEq]
      constructor
      · rintro ⟨rfl, hfull⟩
        obtain ⟨hsubject, htrusted⟩ := Bool.and_eq_true_iff.mp hfull
        refine ⟨v, ⟨of_decide_eq_true hsubject, ⟨issuerVk, rfl, hv⟩,
          authenticatedClaimChecks_flag.mp htrusted⟩, ?_⟩
        rw [outcomeOf, ClaimOutcome.mk.injEq]
        exact ⟨rfl, rfl, rfl, hfull⟩
      · rintro ⟨v', ⟨hsubject, ⟨_, rfl, hv'⟩, htrusted⟩, rfl⟩
        obtain rfl := Except.ok.inj (hv.symm.trans hv')
        refine ⟨?_, rfl⟩
        rw [outcomeOf, ClaimOutcome.mk.injEq]
        refine ⟨rfl, rfl, rfl, ?_⟩
        rw [authenticatedClaimChecks_flag.mpr htrusted, decide_eq_true hsubject]
        rfl

/-! ## All claims -/

theorem verifyClaims_all {lenient : Bool} {presenter : Did} {now : Timestamp} {anchor : TrustAnchor}
    {checks : List Check} {claims : List DisclosedClaim} :
    (verifyClaims presenter now anchor checks claims).1.all (passes lenient) = true ↔
      checks.all (passes lenient) = true ∧
        ClaimsValid (upTo lenient anchor) presenter now claims := by
  induction claims generalizing checks with
  | nil => simp [verifyClaims, ClaimsValid]
  | cons c claims ih =>
    simp only [verifyClaims, ih, verifyOneClaim_all, ClaimsValid, List.mem_cons, forall_eq_or_imp,
      and_assoc]

theorem mem_verifyClaims {presenter : Did} {now : Timestamp} {anchor : TrustAnchor}
    {checks : List Check} {claims : List DisclosedClaim} {o : ClaimOutcome} :
    o ∈ (verifyClaims presenter now anchor checks claims).2 ∧ o.fullyValid = true ↔
      ∃ c ∈ claims, ∃ v, ClaimValid anchor presenter now c v ∧ o = outcomeOf c v := by
  induction claims generalizing checks with
  | nil => simp [verifyClaims]
  | cons c claims ih =>
    simp only [verifyClaims, List.mem_append, Option.mem_toList, or_and_right, ih,
      verifyOneClaim_outcome, List.mem_cons, exists_or, exists_eq_left]

/-! ## Predicates -/

theorem satisfied_iff {presenter : Did} {now : Timestamp} {anchor : TrustAnchor}
    {checks : List Check} {claims : List DisclosedClaim} {req : PredicateRequest} :
    ((verifyClaims presenter now anchor checks claims).2.any (predicateHolds req)) = true ↔
      Satisfied anchor presenter now claims req := by
  rw [List.any_eq_true]
  constructor
  · rintro ⟨o, ho, hholds⟩
    obtain ⟨hfull, hcat, hscale, hvalue⟩ := predicateHolds_iff.mp hholds
    obtain ⟨c, hc, v, hvalid, rfl⟩ := mem_verifyClaims.mp ⟨ho, hfull⟩
    exact ⟨c, hc, v, hvalid, hcat, hscale, hvalue⟩
  · rintro ⟨c, hc, v, hvalid, hcat, hscale, hvalue⟩
    obtain ⟨ho, hfull⟩ := mem_verifyClaims.mpr ⟨c, hc, v, hvalid, rfl⟩
    exact ⟨_, ho, predicateHolds_iff.mpr ⟨hfull, hcat, hscale, hvalue⟩⟩

/-! ## The verdict -/

/-- The verifier reports just when the presentation decodes. -/
theorem verify_isOk {p : Presentation} {audience : Did} {now : Timestamp} {anchor : TrustAnchor}
    {seen : Bool} {predicates : List PredicateRequest} :
    (∃ report, verifyPresentationWithPredicates p audience now anchor seen predicates = .ok report) ↔
      ∃ subjectVk nonce sig, Decoded p subjectVk nonce sig := by
  simp only [verifyPresentationWithPredicates, bind_eq_ok, pure_eq_ok]
  constructor
  · rintro ⟨report, vk, hvk, nonce, hnonce, sig, hsig, -⟩
    exact ⟨vk, nonce, sig, hvk, hnonce, hsig⟩
  · rintro ⟨vk, nonce, sig, hvk, hnonce, hsig⟩
    exact ⟨_, vk, hvk, nonce, hnonce, sig, hsig, rfl⟩

/-- What a report says: its strict verdict under the anchor, its lenient one
under the anchor that resolves. The predicates are judged strictly in both. -/
theorem report_iff {p : Presentation} {audience : Did} {now : Timestamp} {anchor : TrustAnchor}
    {seen : Bool} {predicates : List PredicateRequest} {report : VerificationReport}
    (h : verifyPresentationWithPredicates p audience now anchor seen predicates = .ok report)
    (lenient : Bool) : (report.accepted || (lenient && report.amber)) = true ↔
      (∃ subjectVk nonce sig, Decoded p subjectVk nonce sig ∧
        Bound p audience now seen subjectVk nonce sig) ∧
      ClaimsValid (upTo lenient anchor) p.subjectId now p.claims ∧
      ∀ req ∈ predicates, Satisfied anchor p.subjectId now p.claims req := by
  simp only [verifyPresentationWithPredicates, bind_eq_ok, pure_eq_ok] at h
  obtain ⟨vk, hvk, nonce, hnonce, sig, hsig, rfl⟩ := h
  have hdecoded : Decoded p vk nonce sig := ⟨hvk, hnonce, hsig⟩
  have hverdict : ∀ checks : List Check, (checks.all (·.passed) || (lenient &&
      (!checks.all (·.passed) && (checks.filter fun c => !c.passed).all
        fun c => c.name == relianceResolvableCheck))) = checks.all (passes lenient) := by
    intro checks
    obtain ⟨hstrict, hlenient⟩ := verdict_of_checks checks
    cases lenient with
    | false => simpa using hstrict
    | true => simpa using hlenient
  rw [hverdict, evaluatePredicates, all_foldl_check (by decide), Bool.and_eq_true, verifyClaims_all,
    presentationChecks_all, List.all_eq_true, and_assoc]
  simp only [satisfied_iff]
  refine and_congr_left fun _ => ⟨fun hb => ⟨vk, nonce, sig, hdecoded, hb⟩, ?_⟩
  rintro ⟨vk', nonce', sig', hdecoded', hb⟩
  obtain rfl := Except.ok.inj (hvk.symm.trans hdecoded'.subjectKey)
  obtain rfl := Except.ok.inj (hnonce.symm.trans hdecoded'.nonce)
  obtain rfl := Except.ok.inj (hsig.symm.trans hdecoded'.signature)
  exact hb

/-- The strict verdict. -/
theorem report_accepted_iff {p : Presentation} {audience : Did} {now : Timestamp}
    {anchor : TrustAnchor} {seen : Bool} {predicates : List PredicateRequest}
    {report : VerificationReport}
    (h : verifyPresentationWithPredicates p audience now anchor seen predicates = .ok report) :
    report.accepted = true ↔
      (∃ subjectVk nonce sig, Decoded p subjectVk nonce sig ∧
        Bound p audience now seen subjectVk nonce sig) ∧
      ClaimsValid anchor p.subjectId now p.claims ∧
      ∀ req ∈ predicates, Satisfied anchor p.subjectId now p.claims req := by
  have hiff := report_iff h false
  rwa [Bool.false_and, Bool.or_false] at hiff

/-- What is good on all counts is reported on, and accepted. -/
theorem verify_accepts {p : Presentation} {audience : Did} {now : Timestamp} {anchor : TrustAnchor}
    {seen : Bool} {predicates : List PredicateRequest} {subjectVk : VerifyingKey} {nonce : Bytes}
    {sig : ByteVec 64} (hdecoded : Decoded p subjectVk nonce sig)
    (hbound : Bound p audience now seen subjectVk nonce sig)
    (hclaims : ClaimsValid anchor p.subjectId now p.claims)
    (hpreds : ∀ req ∈ predicates, Satisfied anchor p.subjectId now p.claims req) :
    ∃ report, verifyPresentationWithPredicates p audience now anchor seen predicates = .ok report ∧
      report.accepted = true := by
  obtain ⟨report, hreport⟩ := verify_isOk.mpr ⟨subjectVk, nonce, sig, hdecoded⟩
  have haccepted := (report_accepted_iff hreport).mpr
    ⟨⟨subjectVk, nonce, sig, hdecoded, hbound⟩, hclaims, hpreds⟩
  exact ⟨report, hreport, haccepted⟩

end AionTrust.Proof
