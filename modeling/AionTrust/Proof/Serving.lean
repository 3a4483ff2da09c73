import AionTrust.Proof.Layouts

/-!
# What is served

What a handler has to say is written so that it is read as such (`Headed`,
`handle_headed`), and a page is that, or nothing, above a body
(`served_parts`). So no page that is served holds a tag, an attribute or an
address but the program's own (`pages_harmless`), its tags are those of its
layout (`pages_outline`), and a page shows the report it answers with and no
other verdict (`report_shown`).
-/

namespace AionTrust.Proof

set_option maxRecDepth 20000

open AionTrust.Impl AionTrust.Spec
open Framework (bind_eq_ok okOr_eq_ok mapError_eq_ok pure_eq_ok ok_bind)
open Framework.Markup

/-! ## Heads -/

/-- A text above the body of a surface is harmless, is laid out as it should
be, reads as a report, and has no form of its own on the wallet's page. -/
structure Headed (s : Surface) (head : String) (laid : HeadLayout) (report : List Check × List Bool) : Prop where
  inert : Inert head
  alike : Alike home head (sample laid) home
  tells : Tells head report.1 report.2
  form : s = .wallet → Reads marked home head home []

theorem headed_quiet {s : Surface} {head : String} {laid : HeadLayout} (h : Reads marked home head home [])
    (halike : Alike home head (sample laid) home) : Headed s head laid ([], []) where
  inert := .quiet (h.filter marked_of_odd)
  alike := halike
  tells := .quiet (h.filter marked_of_odd)
  form _ := h

theorem headed_empty {s : Surface} : Headed s "" .nothing ([], []) := headed_quiet .empty (.same rfl)

theorem headed_busy {s : Surface} : Headed s View.busy .busy ([], []) := headed_quiet reads_busy (.same reads_busy.1)

theorem headed_warn {s : Surface} (e : String) : Headed s (View.flash (.error e)) .warning ([], []) :=
  headed_quiet (reads_warn e) (alike_warn e "")

theorem headed_ok {s : Surface} {msg link : String} {laid : HeadLayout} (hlaid : sample laid = View.ok link)
    (h : Reads marked home msg home []) (halike : Alike home msg link home) :
    Headed s (View.flash (.ok msg)) laid ([], []) :=
  headed_quiet (reads_ok h) (hlaid ▸ alike_ok halike)

theorem headed_error (msg : String) : Headed .verify (View.errorBlock msg) .error ([], [false]) where
  inert := inert_errorBlock msg
  alike := alike_errorBlock msg ""
  tells := tells_errorBlock msg
  form h := by cases h

theorem headed_report (p : Presentation) (report : VerificationReport) :
    Headed .verify (View.reportPanel report) (headLayout (.report p report)) (report.checks, [report.accepted]) where
  inert := inert_reportPanel report
  alike := alike_report report
  tells := tells_reportPanel report
  form h := by cases h

/-- What an answer is sent as, above the world it shows. -/
def headOf : Page → String
  | .busy => View.busy
  | page => page.head

section

variable [External]

theorem headed_stored {s : Surface} (app : AppState) (built : Except String Presentation) :
    Headed s (headOf (storeOrWarn app built).2) (headLayout (storeOrWarn app built).2)
      (reported (storeOrWarn app built).2) := by
  cases built with
  | error e => exact headed_warn e
  | ok p =>
    refine headed_ok rfl (.of_eq (((Reads.lit home [] (by decide)).append (reads_nat marked_text _)).then home []
      (by decide)) rfl) (.of_reads (.of_eq (((Reads.lit home [] (by decide)).append (reads_nat isTag_text _)).then home
        [.start "a" [("href", "/verify")], .stop "a"] (by decide)) rfl) (.lit home _ (by decide)) rfl)

theorem doIssue_label {app app' : AppState} {form : IssueForm} {order : List String} {salt : Digest}
    {label : String} (h : doIssue app form order salt = .ok (app', label)) : label = labelFor form.category := by
  simp only [doIssue, bind_eq_ok, okOr_eq_ok, mapError_eq_ok, pure_eq_ok, Prod.mk.injEq] at h
  obtain ⟨_, _, _, _, _, _, _, _, _, rfl⟩ := h
  rfl

omit [External] in
theorem reads_issued {q : Node → Bool} (hq : ∀ c, q (.text c) = false) (category : String) :
    Reads q home ("Issued “" ++ labelFor category ++ "” into the wallet.") home [] := by
  refine reads_bare hq (List.all_eq_true.mp ?_)
  unfold labelFor
  split <;> decide

theorem headed_verified (app : AppState) (predicates : String) (now : Timestamp) :
    Headed .verify (headOf (runVerify app predicates now).2) (headLayout (runVerify app predicates now).2)
      (reported (runVerify app predicates now).2) := by
  rw [runVerify]
  split
  · exact headed_quiet (reads_notice (.lit home [] (by decide)))
      (alike_notice (.of_quiet (.lit home [] (by decide)) .empty))
  split
  · exact headed_error _
  dsimp only
  split
  · exact headed_report _ _
  · exact headed_error _

/-- What a handler has to say is written so. -/
theorem handle_headed (overflowChecks : Bool) (world : Option AppState) (request : Request) :
    Headed request.surface (headOf (handle overflowChecks world request).2)
      (headLayout (handle overflowChecks world request).2) (reported (handle overflowChecks world request).2) := by
  cases request with
  | issue form order salt =>
    cases world with
    | none => exact headed_busy
    | some app =>
      simp only [handle, issue, withLock]
      cases hissue : doIssue app form order salt with
      | error e => exact headed_warn e
      | ok issued =>
        obtain ⟨app', label⟩ := issued
        obtain rfl := doIssue_label hissue
        exact headed_ok rfl (reads_issued marked_text form.category)
          (.of_quiet (reads_issued isTag_text form.category) .empty)
  | revoke claimId => cases world <;> exact headed_empty
  | advanceEpoch =>
    cases world with
    | none => exact headed_empty
    | some app =>
      simp only [handle, advanceEpoch, withLock]
      by_cases hoverflow : overflowChecks = true ∧ app.epoch.toNat + 1 = 2 ^ 64
      · rw [if_pos hoverflow]
        exact headed_empty
      · rw [if_neg hoverflow]
        exact headed_empty
  | present body now n₁ n₂ =>
    simp only [handle, present, withPairs]
    cases formPairs body with
    | error p => exact headed_empty
    | ok pairs =>
      cases world with
      | none => exact headed_busy
      | some app => exact headed_stored app _
  | disclose body now n₁ n₂ =>
    simp only [handle, disclose, withPairs]
    cases formPairs body with
    | error p => exact headed_empty
    | ok pairs =>
      dsimp only
      cases first pairs "claim" with
      | none => exact headed_warn _
      | some claimId =>
        cases world with
        | none => exact headed_busy
        | some app => exact headed_stored app _
  | satisfy body now n₁ n₂ =>
    simp only [handle, satisfy, withPairs]
    cases formPairs body with
    | error p => exact headed_empty
    | ok pairs =>
      dsimp only
      cases parsePredicates ((first pairs "predicates").getD "") with
      | error e =>
        cases world with
        | none => exact headed_busy
        | some app => exact headed_warn e
      | ok reqs =>
        cases world with
        | none => exact headed_busy
        | some app => exact headed_stored app _
  | run predicates now =>
    cases world with
    | none => exact headed_busy
    | some app => exact headed_verified app predicates now

/-! ## Pages -/

theorem body_head (s : Surface) (app : AppState) (order : List String) (head : String) :
    s.body app order head = head ++ s.body app order "" := by
  cases s with
  | issuer => exact issuerBody_head app order head
  | wallet => exact walletBody_head app head
  | verify => exact verifyBody_head app head

omit [External] in
theorem odd_box (kind name value : String) : odd (box kind name value) = false := rfl

omit [External] in
theorem odd_checkedBox (id : String) : odd (checkedBox id) = false := rfl

omit [External] in
theorem odd_walletNodes (claims : List Claim) : ∀ n ∈ walletNodes claims, odd n = false := by
  have hblock : ∀ c : Claim, ∀ n ∈ claimNodes c, odd n = false := by
    intro c
    simp only [claimNodes, List.forall_mem_append, List.forall_mem_cons, List.forall_mem_map]
    exact ⟨⟨by decide, odd_box _ _ _, fun k _ => odd_box _ _ k⟩, by decide⟩
  simp only [walletNodes, List.forall_mem_append, List.forall_mem_cons, List.forall_mem_map, List.forall_mem_flatMap]
  exact ⟨⟨⟨by decide, fun c _ => odd_checkedBox _⟩, by decide⟩, fun c _ => hblock c⟩

theorem reads_body (s : Surface) (app : AppState) (order : List String) :
    Reads odd home (s.body app order "") home [] := by
  cases s with
  | issuer => exact reads_issuerBody app order
  | wallet =>
    refine .of_eq ((reads_walletBody app).filter marked_of_odd) (List.filter_eq_nil_iff.mpr fun n hn => ?_)
    rw [odd_walletNodes _ n hn]
    decide
  | verify => exact reads_verifyBody app

omit [External] in
theorem surface_page (s : Surface) : ∃ before after, (∀ body, s.page body = before ++ body ++ after) ∧
    Reads marked home before home [] ∧ Reads marked home after home [] := by
  cases s with
  | issuer => exact page_parts "Issuer" "/issuer"
  | wallet => exact page_parts "Wallet" "/wallet"
  | verify => exact page_parts "Verify" "/verify"

/-- The body of a surface, where there is a world to show. -/
def bodyOf (s : Surface) (world : Option AppState) (order : List String) : String :=
  world.elim "" fun app => s.body app order ""

theorem reads_bodyOf (s : Surface) (world : Option AppState) (order : List String) :
    Reads odd home (bodyOf s world order) home [] := by
  cases world with
  | none => exact .empty
  | some app => exact reads_body s app order

theorem alike_bodyOf (s : Surface) {world world' : Option AppState} {order order' : List String}
    (h : (world.map fun app => bodyLayout app order s) = world'.map fun app => bodyLayout app order' s) :
    Alike home (bodyOf s world order) (bodyOf s world' order') home := by
  cases world with
  | none =>
    obtain rfl := Option.map_eq_none_iff.mp h.symm
    exact .same rfl
  | some app =>
    obtain ⟨app', rfl, happ⟩ := Option.map_eq_some_iff.mp h.symm
    exact alike_body s happ.symm

/-- A page of a surface: a head, and below it nothing or a world. -/
structure Parts (s : Surface) (world : Option AppState) (order : List String) (html head : String)
    (laid : HeadLayout) (report : List Check × List Bool) : Prop where
  html_eq : html = s.page (head ++ bodyOf s world order)
  headed : Headed s head laid report

theorem read_parts (s : Surface) (world : Option AppState) (order : List String) : ∃ head,
    Parts s world order (s.read world order) head (if world.isSome then .nothing else .busy) ([], []) := by
  cases world with
  | none => exact ⟨View.busy, by rw [bodyOf, Option.elim_none, String.append_empty]; rfl, headed_busy⟩
  | some app => exact ⟨"", by rw [String.empty_append]; rfl, headed_empty⟩

theorem answered_parts {request : Request} {world : Option AppState} {order : List String} {page : Page}
    {html : String} (hpage : Headed request.surface (headOf page) (headLayout page) (reported page))
    (h : page.html request world order = some html) : ∃ head,
      Parts request.surface (worldShown request world page) order html head (headLayout page) (reported page) := by
  have hfull : ∀ head, (if request.lacksClaim then some (request.surface.page head)
      else world.map fun app => request.surface.page (request.surface.body app order head)) = some html →
      html = request.surface.page (head ++ bodyOf request.surface (if request.lacksClaim then none else world) order) := by
    intro head h
    split at h
    · rw [if_pos ‹_›, bodyOf, Option.elim_none, String.append_empty]
      exact (Option.some.inj h).symm
    · obtain ⟨app, rfl, rfl⟩ := Option.map_eq_some_iff.mp h
      rw [if_neg ‹_›, body_head]
      rfl
  refine ⟨headOf page, ?_, hpage⟩
  cases page with
  | busy =>
    obtain rfl := Option.some.inj h
    rw [worldShown, bodyOf, Option.elim_none, String.append_empty]
    rfl
  | redirect => cases h
  | panicked p => cases h
  | _ => exact hfull _ h

section

variable {s : Surface} {world : Option AppState} {order : List String} {html head : String} {laid : HeadLayout}
  {report : List Check × List Bool} (h : Parts s world order html head laid report)

include h

theorem parts_inert : Inert html := by
  obtain ⟨before, after, hpage, hbefore, hafter⟩ := surface_page s
  rw [h.html_eq, hpage]
  exact ((Inert.quiet (hbefore.filter marked_of_odd)).append (h.headed.inert.append
    (.quiet (reads_bodyOf s world order)))).append (.quiet (hafter.filter marked_of_odd))

theorem parts_report : readReport (nodes home html) = report := by
  obtain ⟨before, after, hpage, hbefore, hafter⟩ := surface_page s
  have htells := ((Tells.quiet (hbefore.filter marked_of_odd)).append (h.headed.tells.append
    (.quiet (reads_bodyOf s world order)))).append (.quiet (hafter.filter marked_of_odd))
  rw [← hpage, ← h.html_eq] at htells
  rw [readReport]
  simp only [htells.read, List.append_nil, List.nil_append, List.reverse_reverse]

/-- Two pages of a surface with one layout. -/
theorem parts_alike {world' : Option AppState} {order' : List String} {html' head' : String}
    {report' : List Check × List Bool} (h' : Parts s world' order' html' head' laid report')
    (hlayout : (world.map fun app => bodyLayout app order s) = world'.map fun app => bodyLayout app order' s) :
    Alike home html html' home := by
  obtain ⟨before, after, hpage, hbefore, hafter⟩ := surface_page s
  rw [h.html_eq, h'.html_eq, hpage, hpage]
  exact ((Alike.same hbefore.1).append ((h.headed.alike.trans h'.headed.alike.symm).append
    (alike_bodyOf s hlayout))).append (.same hafter.1)

end

theorem worldShown_cases (request : Request) (world : Option AppState) (page : Page) :
    worldShown request world page = none ∨ worldShown request world page = world := by
  unfold worldShown
  split
  · exact .inl rfl
  · split
    · exact .inl rfl
    · exact .inr rfl

/-- A page that is served shows its world, or none. -/
theorem served_parts {overflowChecks : Bool} {s : Surface} {world : Option AppState} {html : String}
    (h : Served overflowChecks s world html) : ∃ world' order head laid report,
      (world' = none ∨ world' = world) ∧ Parts s world' order html head laid report := by
  cases h with
  | read s world order => exact ⟨world, order, _, _, _, .inr rfl, (read_parts s world order).choose_spec⟩
  | answered h =>
    obtain ⟨_, hparts⟩ := answered_parts (handle_headed _ _ _) h
    exact ⟨_, _, _, _, _, worldShown_cases _ _ _, hparts⟩

/-- A page that is served holds no tag, attribute or address but the program's
own, whatever the world and the form hold. -/
theorem pages_harmless {overflowChecks : Bool} {s : Surface} {world : Option AppState} {html : String}
    (h : Served overflowChecks s world html) :
    reader.final home html.toList = home ∧ ∀ n ∈ nodes home html, harmless n = true := by
  obtain ⟨_, _, _, _, _, -, hparts⟩ := served_parts h
  exact parts_inert hparts

theorem laidOut_parts {overflowChecks : Bool} {s : Surface} {laid : HeadLayout} {body : Option Layout} {html : String}
    (h : LaidOut overflowChecks s laid body html) : ∃ world order head report,
      body = (world.map fun app => bodyLayout app order s) ∧ Parts s world order html head laid report := by
  cases h with
  | read s world order => exact ⟨world, order, _, _, rfl, (read_parts s world order).choose_spec⟩
  | answered h =>
    obtain ⟨_, hparts⟩ := answered_parts (handle_headed _ _ _) h
    exact ⟨_, _, _, _, rfl, hparts⟩

/-- Pages of a surface with one layout have the same tags in the same order,
whatever the texts in them. -/
theorem pages_outline {overflowChecks overflowChecks' : Bool} {s : Surface} {laid : HeadLayout} {body : Option Layout}
    {html html' : String} (h : LaidOut overflowChecks s laid body html)
    (h' : LaidOut overflowChecks' s laid body html') : outline (nodes home html) = outline (nodes home html') := by
  obtain ⟨_, _, _, _, hbody, hparts⟩ := laidOut_parts h
  obtain ⟨_, _, _, _, hbody', hparts'⟩ := laidOut_parts h'
  exact (parts_alike hparts hparts' (hbody.symm.trans hbody')).outlines

end

section

attribute [local instance] lawful

/-- What a demo draws. -/
def stageDraws : Draws where
  accreditor₁ := identity 1
  accreditor₂ := identity 2
  employer := identity 3
  candidate := identity 4
  acme := identity 5
  screen := identity 6
  uni := identity 7
  acmeSalt := digest (asBytes "acme")
  screenSalt := digest (asBytes "screen")
  uniSalt := digest (asBytes "uni")

/-- A demo with a presentation for some purpose pending. -/
def pendingStage (purpose : String) : AppState :=
  { AppState.seed stageDraws with
    lastPresentation := some
      (buildPresentation stageDraws.candidate stageDraws.employer.did purpose [] ⟨0⟩ ⟨0⟩ []) }

/-- The verifier's page for a purpose that is markup. -/
theorem pages_harmless_script :
    (nodes home (Surface.verify.read (some (pendingStage "<script>alert(1)</script>")) [])).all harmless = true :=
  List.all_eq_true.mpr (pages_harmless (Served.read .verify _ [] : Served false _ _ _)).2

theorem laidOut_pendingStage (purpose : String) : LaidOut false .verify .nothing (some (.verify (some [])))
    (Surface.verify.read (some (pendingStage purpose)) []) :=
  .read .verify (some (pendingStage purpose)) []

/-- A purpose that is markup is laid out like any other. -/
theorem pages_outline_script :
    outline (nodes home (Surface.verify.read (some (pendingStage "<script>alert(1)</script>")) [])) =
      outline (nodes home (Surface.verify.read (some (pendingStage "application:senior-engineer")) [])) :=
  pages_outline (laidOut_pendingStage _) (laidOut_pendingStage _)

end

section

variable [External]

/-- What an answer reports is what its page shows, check by check, and a page
that is read shows no report. -/
theorem report_shown (overflowChecks : Bool) (world : Option AppState) (order : List String) :
    (∀ request html, (handle overflowChecks world request).2.html request (handle overflowChecks world request).1
      order = some html → readReport (nodes home html) = reported (handle overflowChecks world request).2) ∧
    ∀ s : Surface, readReport (nodes home (s.read world order)) = ([], []) := by
  refine ⟨fun request html h => ?_, fun s => ?_⟩
  · obtain ⟨_, hparts⟩ := answered_parts (handle_headed _ _ _) h
    exact parts_report hparts
  · obtain ⟨_, hparts⟩ := read_parts s world order
    exact parts_report hparts

end

section

attribute [local instance] lawful

/-- The verifier rejects a pending presentation of no claims, and says why. -/
theorem stage_rejected : ∃ app p report,
    handle false (some (pendingStage "job")) (.run "" ⟨0⟩) = (some app, .report p report) ∧ report.checks ≠ [] ∧
      report.accepted = false := by
  obtain ⟨p, hp, vk, nonce, sig, hdecoded⟩ : ∃ p, buildPresentation stageDraws.candidate stageDraws.employer.did "job" []
      ⟨0⟩ ⟨0⟩ [] = p ∧ ∃ vk nonce sig, Decoded p vk nonce sig := ⟨_, rfl, _, _, _, buildPresentation_decoded lawful_lawful⟩
  have hpending : (pendingStage "job").lastPresentation = some p := by rw [← hp]; rfl
  have hpreds : parsePredicates "" = .ok [] := rfl
  obtain ⟨report, hreport⟩ : ∃ report, verifyPresentationWithPredicates p (pendingStage "job").employer.did ⟨0⟩
      ((pendingStage "job").registry.setEpoch (pendingStage "job").epoch).anchor
      (NonceStore.seen (pendingStage "job").nonces (pendingStage "job").employer.did p.nonce) [] = .ok report := by
    simp only [verifyPresentationWithPredicates, hdecoded.subjectKey, hdecoded.nonce, hdecoded.signature, ok_bind]
    exact ⟨_, rfl⟩
  have hrejected : report.accepted = false := by
    rw [Bool.eq_false_iff]
    intro haccepted
    obtain ⟨⟨_, _, _, -, hbound⟩, -⟩ := (report_accepted_iff hreport).mp haccepted
    exact hbound.nonempty (by rw [← hp]; rfl)
  obtain ⟨app, hanswer⟩ : ∃ app, handle false (some (pendingStage "job")) (.run "" ⟨0⟩) =
      (some app, .report p report) := by
    simp only [handle, run, withLock, runVerify, hpending, hpreds, verifyPresentationWithStore, hreport]
    exact ⟨_, rfl⟩
  refine ⟨app, p, report, hanswer, fun hnil => ?_, hrejected⟩
  -- of no checks all would have passed
  simp only [verifyPresentationWithPredicates, bind_eq_ok, pure_eq_ok] at hreport
  obtain ⟨_, -, _, -, _, -, rfl⟩ := hreport
  dsimp only at hnil hrejected
  rw [hnil] at hrejected
  cases hrejected

/-- The rows of a rejection are read back. -/
theorem report_shown_rejected : ∃ world page html rows,
    handle false (some (pendingStage "job")) (.run "" ⟨0⟩) = (world, page) ∧ page.html (.run "" ⟨0⟩) world [] = some html ∧
      rows ≠ [] ∧ readReport (nodes home html) = (rows, [false]) := by
  obtain ⟨app, p, report, hanswer, hrows, hrejected⟩ := stage_rejected
  have hshown := (report_shown false (some (pendingStage "job")) []).1 (.run "" ⟨0⟩)
  rw [hanswer] at hshown ⊢
  refine ⟨_, _, _, report.checks, rfl, rfl, hrows, ?_⟩
  rw [hshown _ rfl, reported, hrejected]

end

section

variable [External]

/-! ## The walkthrough's stage -/

/-- Every check has a name without special characters. -/
def BareNames (checks : List Check) : Prop := ∀ c ∈ checks, c.name.toList.all bareChar = true

omit [External] in
theorem BareNames.check {checks : List Check} (h : BareNames checks) {name : String}
    (hname : name.toList.all bareChar = true) (passed : Bool) (detail : String) :
    BareNames (check checks name passed detail) := by
  intro c hc
  rcases List.mem_append.mp hc with hc | hc
  · exact h c hc
  · rw [List.mem_singleton.mp hc]
    exact hname

omit [External] in
theorem BareNames.foldl {α : Type*} {f : List Check → α → List Check}
    (hf : ∀ checks a, BareNames checks → BareNames (f checks a)) {as : List α} {checks : List Check}
    (h : BareNames checks) : BareNames (as.foldl f checks) := by
  induction as generalizing checks with
  | nil => exact h
  | cons a as ih => exact ih (hf checks a h)

theorem bareNames_authenticated {checks : List Check} (h : BareNames checks) (claim : DisclosedClaim)
    (verified : VerifiedDisclosure) (now : Timestamp) (anchor : TrustAnchor) :
    BareNames (authenticatedClaimChecks checks claim verified now anchor).1 := by
  have hfields : BareNames (verified.revealedKeys.foldl
      (fun checks key => check checks "field proven against body_root" true key)
      (check checks "claim authentic" true claim.claimId.asStr)) :=
    .foldl (fun _ key h => h.check (by decide) true key) (h.check (by decide) _ _)
  have hwithin := hfields.check (show "claim within validity".toList.all bareChar = true by decide)
    (verified.activeAt now) ""
  unfold authenticatedClaimChecks
  dsimp only
  split <;> split
  · exact (hwithin.check (by decide) _ _).check (by decide) _ _
  · exact hwithin.check (by decide) _ _
  · exact (((hwithin.check (by decide) _ _).check (by decide) _ _).check (by decide) _ _).check (by decide) _ _
  · exact ((hwithin.check (by decide) _ _).check (by decide) _ _).check (by decide) _ _

theorem bareNames_claim {checks : List Check} (h : BareNames checks) (claim : DisclosedClaim) (presenter : Did)
    (now : Timestamp) (anchor : TrustAnchor) : BareNames (verifyOneClaim checks claim presenter now anchor).1 := by
  have hsubject := h.check (show "claim subject matches presenter".toList.all bareChar = true by decide)
    (decide (claim.subjectId = presenter)) claim.claimId.asStr
  unfold verifyOneClaim
  dsimp only
  split
  · exact hsubject.check (by decide) _ _
  split
  · exact bareNames_authenticated hsubject claim _ now anchor
  · exact hsubject.check (by decide) _ _

theorem bareNames_claims (claims : List DisclosedClaim) (presenter : Did) (now : Timestamp) (anchor : TrustAnchor)
    {checks : List Check} (h : BareNames checks) : BareNames (verifyClaims presenter now anchor checks claims).1 := by
  induction claims generalizing checks with
  | nil => exact h
  | cons claim claims ih => exact ih (bareNames_claim h claim presenter now anchor)

/-- A report names its checks so. -/
theorem report_bareNames {p : Presentation} {audience : Did} {now : Timestamp} {anchor : TrustAnchor} {seen : Bool}
    {predicates : List PredicateRequest} {report : VerificationReport}
    (h : verifyPresentationWithPredicates p audience now anchor seen predicates = .ok report) :
    BareNames report.checks := by
  simp only [verifyPresentationWithPredicates, bind_eq_ok, pure_eq_ok] at h
  obtain ⟨vk, -, nonce, -, sig, -, rfl⟩ := h
  refine .foldl (fun checks req h => h.check (by decide) _ _) (bareNames_claims _ _ _ _ ?_)
  have hempty : BareNames [] := List.forall_mem_nil _
  exact ((((((hempty.check (by decide) _ _).check (by decide) _ _).check (by decide) _ _).check (by decide) _ _).check
    (by decide) _ _).check (by decide) _ _).check (by decide) _ _

/-- What a verdict of the walkthrough says is text. -/
theorem verify_text (now : Timestamp) (world : Option AppState) :
    Reads Node.isTag home (Walkthrough.verify now world).2.2 home [] := by
  unfold Walkthrough.verify
  split
  · exact .lit home [] (by decide)
  split
  · exact .lit home [] (by decide)
  rename_i app _ p _
  have hreport := withStore_report p app.employer.did now (app.registry.setEpoch app.epoch).anchor app.nonces []
  dsimp only
  split
  · rename_i report hok
    split
    · exact .lit home [] (by decide)
    · have hnames := report_bareNames (hreport.symm.trans hok)
      refine .of_eq (((Reads.lit home [] (by decide)).append (.intercalate_nil
        (.lit home [] (by decide)) fun name hname => ?_)).then home [] (by decide)) rfl
      obtain ⟨c, hc, rfl⟩ := List.mem_map.mp hname
      exact reads_bare isTag_text (List.all_eq_true.mp (hnames c (List.mem_of_mem_filter hc)))
  · exact .lit home [] (by decide)

/-- An act's title is text, and so is its detail but for the identifier of a
claim. -/
def Staged : Event → Prop
  | .act title detail _ => Reads Node.isTag home title home [] ∧ ∃ body ∈ bodyTags, Reads Node.isTag home detail home body
  | .done => True

omit [External] in
theorem staged_text {title detail tone : String} (htitle : Reads Node.isTag home title home [])
    (hdetail : Reads Node.isTag home detail home []) : Staged (.act title detail tone) :=
  ⟨htitle, [], List.mem_cons_self, hdetail⟩

omit [External] in
theorem reads_title {s t : String} (b : Bool) (hs : Reads Node.isTag home s home []) (ht : Reads Node.isTag home t home []) :
    Reads Node.isTag home (if b then s else t) home [] := by
  cases b
  · exact ht
  · exact hs

omit [External] in
/-- The body that names a claim. -/
theorem reads_issuedBody (claimId : String) : Reads Node.isTag home
    ("An accredited issuer attested a claim and handed it to the candidate. " ++ "<span class=\"mono\">" ++
      escape claimId ++ "</span>") home [.start "span" [("class", "mono")], .stop "span"] :=
  .of_eq ((((Reads.lit home [] (by decide)).then home [.start "span" [("class", "mono")]] (by decide)).esc isTag_text
    _).then home [.stop "span"] (by decide)) rfl

theorem section_staged (drawn : Drawn) (world : Option AppState) (script : Script) :
    ∀ event ∈ (runSection drawn world script).2.2, Staged event := by
  cases script with
  | reset =>
    cases world with
    | none => exact List.forall_mem_nil _
    | some app =>
      simp only [runSection]
      split
      · exact List.forall_mem_nil _
      · simp only [List.forall_mem_cons, esc_eq]
        exact ⟨staged_text (.lit home [] (by decide)) (.lit home [] (by decide)),
          ⟨.lit home [] (by decide), _, List.mem_cons_of_mem _ List.mem_cons_self, reads_issuedBody _⟩,
          List.forall_mem_nil _⟩
  | present claimId =>
    exact List.forall_mem_singleton.mpr (staged_text (.lit home [] (by decide))
      (.of_eq ((Reads.lit home [] (by decide)).then home [] (by decide)) rfl))
  | verify claimId =>
    exact List.forall_mem_singleton.mpr (staged_text (reads_title _ (by decide) (by decide)) (verify_text drawn.now world))
  | revoke claimId =>
    exact List.forall_mem_singleton.mpr (staged_text (.lit home [] (by decide))
      (.of_eq ((Reads.lit home [] (by decide)).then home [] (by decide)) rfl))
  | present₂ claimId => exact List.forall_mem_nil _
  | verify₂ claimId =>
    exact List.forall_mem_cons.mpr ⟨staged_text (reads_title _ (by decide) (by decide)) (verify_text drawn.now world),
      List.forall_mem_singleton.mpr trivial⟩
  | ended => exact List.forall_mem_nil _

/-- An act is put on the stage with the program's own tags, and no other. -/
theorem acts_harmless (drawn : Drawn) (world : Option AppState) (script : Script) (n : ℕ) :
    ∀ event ∈ (runSection drawn world script).2.2, ∀ html, event.html n = some html →
      reader.final home html.toList = home ∧ ∃ body ∈ bodyTags, (nodes home html).filter Node.isTag = actTags body := by
  intro event hevent html hhtml
  cases event with
  | done => cases hhtml
  | act title detail tone =>
    obtain ⟨htitle, body, hbody, hdetail⟩ := section_staged drawn world script _ hevent
    have hact : Reads Node.isTag home html home (actTags body) := by
      obtain rfl := Option.some.inj hhtml
      exact .of_eq (((((((Reads.lit home [.start "span" [("class", "num")]] (by decide)).append
        (reads_nat isTag_text n)).then home [.stop "span", .start "div" [("class", "title")]] (by decide)).append
        htitle).then home [.stop "div", .start "div" [("class", "body")]] (by decide)).append hdetail).then home
        [.stop "div"] (by decide)) rfl
    exact ⟨hact.1, body, hbody, hact.2⟩

end

section

attribute [local instance] telling

/-- The act of an issue, in a script that starts. -/
theorem acts_harmless_issued : ∃ (n : ByteVec 12) (detail html : String),
    .act "1 · Issued" detail "info" ∈
      (runSection ⟨drawsFrom 20, ⟨0⟩, n, n⟩ (some (AppState.seed (drawsFrom 10))) .reset).2.2 ∧
    (Event.act "1 · Issued" detail "info").html 2 = some html ∧ reader.final home html.toList = home ∧
    ∃ body ∈ bodyTags, (nodes home html).filter Node.isTag = actTags body := by
  obtain ⟨c, cs, hclaims⟩ := drawsFrom_claims 20
  let n : ByteVec 12 := ⟨List.replicate 12 7, rfl⟩
  obtain ⟨detail, hevent⟩ : ∃ detail, Event.act "1 · Issued" detail "info" ∈
      (runSection ⟨drawsFrom 20, ⟨0⟩, n, n⟩ (some (AppState.seed (drawsFrom 10))) .reset).2.2 := by
    simp only [runSection, hclaims]
    exact ⟨_, List.mem_cons_of_mem _ List.mem_cons_self⟩
  exact ⟨n, detail, _, hevent, rfl, acts_harmless _ _ .reset 2 _ hevent _ rfl⟩

end

end AionTrust.Proof
