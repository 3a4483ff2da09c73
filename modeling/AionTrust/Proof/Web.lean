import AionTrust.Proof.Accreditation
import AionTrust.Proof.PathFinder
import AionTrust.Proof.Revocation
import AionTrust.Proof.Seeding
import AionTrust.Proof.SingleUse
import AionTrust.Spec.Web

/-!
# The demo is safe

What a handler does to the world is said once (`Effect`, `handle_effect`), and
the rest is read off it: what stays true of the world after any number of
advances of its epoch (`Sound`), that a mark of revocation stays (`Marked`), and
that an accepted presentation stays spent until another is built (`Spent`).

The epoch may overflow. In a build with overflow checks the world is gone then;
in one without, the epoch is zero, before every accreditation, so nothing is
accepted. So fewer than `2 ^ 64` advances are safe in both (`demo_safe`).
-/

namespace AionTrust.Proof

open AionTrust.Impl AionTrust.Spec
open Framework (bind_eq_ok okOr_eq_ok mapError_eq_ok pure_eq_ok)

/-! ## What a handler does -/

/-- The categories the demo issues, and requires accreditation for. -/
def demoCategories : List String := ["employment", "background_check", "education"]

/-- A form that is not the verifier's accepts nothing. -/
theorem not_accepted {request : Request} {page : Page} (h : ∀ p report, page ≠ .report p report)
    (p : Presentation) : ¬ Accepted p (request, page) := by
  rintro ⟨_, _, report, heq, -⟩
  exact h p report (Prod.mk.inj heq).2

theorem bodyFromForm_category {form : IssueForm} {body : ClaimBody} (h : bodyFromForm form = .ok body) :
    body.category ∈ demoCategories := by
  unfold bodyFromForm at h
  split at h <;> cases h <;> simp [ClaimBody.category, demoCategories]

section

variable [External]

/-- A form that neither revokes nor advances. -/
structure Quiet (request : Request) : Prop where
  advances : isAdvance request = false
  revokes : ∀ claimId, request ≠ .revoke claimId

/-- What a form posted to a world leads to. -/
inductive Effect (app : AppState) : Request → Option AppState → Page → Prop
  | idle {request page} (hquiet : Quiet request) (hpage : ∀ p, ¬ Accepted p (request, page)) :
      Effect app request (some app) page
  | issued {form order salt page} (claim : Claim) (label : String)
      (hcategory : claim.category ∈ demoCategories) (hpage : ∀ p report, page ≠ .report p report) :
      Effect app (.issue form order salt) (some { app with
        claimLabels := Function.update app.claimLabels claim.claimId.asStr (some label)
        wallet := app.wallet.add claim }) page
  | revoked (claimId : String) :
      Effect app (.revoke claimId) (some { app with registry := app.registry.revoke claimId app.epoch })
        .redirect
  | advanced :
      Effect app .advanceEpoch (some { app with
        epoch := app.epoch + 1, registry := app.registry.setEpoch (app.epoch + 1) }) .redirect
  | poisoned : Effect app .advanceEpoch none (.panicked .overflow)
  | built {request} (p : Presentation) (message : String) (hquiet : Quiet request)
      (hclaims : ∀ d ∈ p.claims, Wallet.Discloses app.wallet d) :
      Effect app request (some { app with lastPresentation := some p }) (.wallet (.ok message))
  | accepted {predicates now} (p : Presentation) (report : VerificationReport)
      (hpending : app.lastPresentation = some p)
      (hfresh : app.nonces.seen (app.employer.did, p.nonce) = none) (hne : p.claims ≠ [])
      (hclaims : ClaimsValid (app.registry.setEpoch app.epoch).anchor p.subjectId now p.claims) :
      Effect app (.run predicates now) (some { app with
        registry := app.registry.setEpoch app.epoch
        nonces := ⟨Function.update app.nonces.seen (app.employer.did, p.nonce) (some p.expiresAt)⟩ })
        (.report p report)
  | refused {predicates now page} (hpage : ∀ p, ¬ Accepted p (.run predicates now, page)) :
      Effect app (.run predicates now) (some { app with registry := app.registry.setEpoch app.epoch }) page

theorem issue_category {salt : Digest} {issuer : Identity} {subject : Did} {validity : Validity}
    {body : ClaimBody} {claim : Claim} (h : Claim.issue salt issuer subject validity body = .ok claim) :
    claim.category = body.category := by
  have hrun : IssueCall.run issuer ⟨salt, subject, validity, body, []⟩ = .ok claim := h
  rw [Claim.category, (run_parts hrun).2.1]

/-- Issuing adds a claim of one of the demo's categories. -/
theorem doIssue_eq_ok {app app' : AppState} {form : IssueForm} {order : List String} {salt : Digest}
    {label : String} (h : doIssue app form order salt = .ok (app', label)) :
    ∃ claim : Claim, claim.category ∈ demoCategories ∧ app' = { app with
      claimLabels := Function.update app.claimLabels claim.claimId.asStr (some label)
      wallet := app.wallet.add claim } := by
  simp only [doIssue, bind_eq_ok, okOr_eq_ok, mapError_eq_ok, pure_eq_ok, Prod.mk.injEq] at h
  obtain ⟨body, hbody, key, -, slot, -, claim, hclaim, rfl, rfl⟩ := h
  exact ⟨claim, by rw [issue_category hclaim]; exact bodyFromForm_category hbody, rfl⟩

/-- What is built is kept, and what is not changes nothing. -/
theorem storeOrWarn_effect {app : AppState} {request : Request} (hquiet : Quiet request)
    {built : Except WalletError Presentation}
    (hbuilt : ∀ p, built = .ok p → ∀ d ∈ p.claims, Wallet.Discloses app.wallet d) :
    Effect app request (some (storeOrWarn app (built.mapError (·.text))).1)
      (storeOrWarn app (built.mapError (·.text))).2 := by
  cases built with
  | error e => exact .idle hquiet (not_accepted nofun)
  | ok p => exact .built p _ hquiet (hbuilt p rfl)

theorem satisfy_discloses {w : Wallet} {audience : Did} {purpose : String}
    {requests : List PredicateRequest} {ttl : Int64} {now : Timestamp} {n₁ n₂ : ByteVec 12}
    {p : Presentation} (h : w.satisfy audience purpose requests ttl now n₁ n₂ = .ok p) :
    ∀ d ∈ p.claims, Wallet.Discloses w d := by
  obtain ⟨ds, hds, rfl⟩ := satisfy_eq_ok.mp h
  intro d hd
  obtain ⟨req, -, hanswers⟩ := Framework.exists_left hds hd
  obtain ⟨c, hc, hdisclose, -⟩ := answer_satisfies hanswers
  exact ⟨c, hc, _, hdisclose⟩

theorem withStore_report (p : Presentation) (audience : Did) (now : Timestamp) (anchor : TrustAnchor)
    (s : InMemoryNonceStore) (predicates : List PredicateRequest) :
    (verifyPresentationWithStore p audience now anchor s predicates).1 =
      verifyPresentationWithPredicates p audience now anchor (NonceStore.seen s audience p.nonce)
        predicates := by
  rw [verifyPresentationWithStore]
  split <;> simp_all

/-- The verifier either accepts the pending presentation, or leaves the nonces
as they were. -/
theorem runVerify_effect (app : AppState) (predicates : String) (now : Timestamp) :
    Effect app (.run predicates now) (some (runVerify app predicates now).1)
      (runVerify app predicates now).2 := by
  rw [runVerify]
  split
  · exact .idle ⟨rfl, nofun⟩ (not_accepted nofun)
  rename_i p hp
  split
  · exact .idle ⟨rfl, nofun⟩ (not_accepted nofun)
  rename_i preds hpreds
  have hreport := withStore_report p app.employer.did now (app.registry.setEpoch app.epoch).anchor
    app.nonces preds
  rcases withStore_cases p app.employer.did now (app.registry.setEpoch app.epoch).anchor app.nonces
    preds with ⟨report, hstore, hacc, hfresh, -⟩ | ⟨hsame, hrejected⟩
  · rw [hstore] at hreport
    obtain ⟨⟨_, _, _, -, hbound⟩, hclaims, -⟩ := (report_accepted_iff hreport.symm).mp hacc
    dsimp only
    rw [hstore]
    exact .accepted p report hp hfresh hbound.nonempty hclaims
  · dsimp only
    rw [hsame]
    refine .refused ?_
    rintro q ⟨_, _, report, heq, hacc⟩
    have hpage := (Prod.mk.inj heq).2
    split at hpage
    · rename_i report' hok
      obtain ⟨-, rfl⟩ := Page.report.inj hpage
      exact absurd hacc (by rw [hrejected _ hok]; decide)
    · cases hpage

/-- What a handler does. -/
theorem handle_effect (overflowChecks : Bool) (app : AppState) (request : Request) :
    Effect app request (handle overflowChecks (some app) request).1
      (handle overflowChecks (some app) request).2 := by
  cases request with
  | issue form order salt =>
    simp only [handle, issue, withLock]
    cases hissue : doIssue app form order salt with
    | error e => exact .idle ⟨rfl, nofun⟩ (not_accepted nofun)
    | ok issued =>
      obtain ⟨claim, hcategory, hnext⟩ := doIssue_eq_ok hissue
      dsimp only
      rw [hnext]
      exact .issued claim _ hcategory nofun
  | revoke claimId => exact .revoked claimId
  | advanceEpoch =>
    simp only [handle, advanceEpoch, withLock]
    by_cases hoverflow : overflowChecks = true ∧ app.epoch.toNat + 1 = 2 ^ 64
    · rw [if_pos hoverflow]
      exact .poisoned
    · rw [if_neg hoverflow]
      exact .advanced
  | present body now n₁ n₂ =>
    simp only [handle, present, withPairs]
    cases formPairs body with
    | error p => exact .idle ⟨rfl, nofun⟩ (not_accepted nofun)
    | ok pairs => exact storeOrWarn_effect ⟨rfl, by simp⟩ fun p hp => (present_eq_ok hp).1
  | disclose body now n₁ n₂ =>
    simp only [handle, disclose, withPairs]
    cases formPairs body with
    | error p => exact .idle ⟨rfl, nofun⟩ (not_accepted nofun)
    | ok pairs =>
      dsimp only
      cases first pairs "claim" with
      | none => exact .idle ⟨rfl, nofun⟩ (not_accepted nofun)
      | some claimId => exact storeOrWarn_effect ⟨rfl, by simp⟩ fun p hp => (present_eq_ok hp).1
  | satisfy body now n₁ n₂ =>
    simp only [handle, satisfy, withPairs]
    cases formPairs body with
    | error p => exact .idle ⟨rfl, nofun⟩ (not_accepted nofun)
    | ok pairs =>
      dsimp only
      cases parsePredicates ((first pairs "predicates").getD "") with
      | error e => exact .idle ⟨rfl, nofun⟩ (not_accepted nofun)
      | ok reqs => exact storeOrWarn_effect ⟨rfl, by simp⟩ fun p hp => satisfy_discloses hp
  | run predicates now => exact runVerify_effect app predicates now

/-- Nothing happens to a world that is gone. -/
theorem handle_none (overflowChecks : Bool) (request : Request) :
    (handle overflowChecks none request).1 = none ∧
      ∀ p, ¬ Accepted p (request, (handle overflowChecks none request).2) := by
  cases request with
  | issue form order salt => exact ⟨rfl, not_accepted nofun⟩
  | revoke claimId => exact ⟨rfl, not_accepted nofun⟩
  | advanceEpoch => exact ⟨rfl, not_accepted nofun⟩
  | present body now n₁ n₂ =>
    simp only [handle, present, withPairs]
    cases formPairs body <;> exact ⟨rfl, not_accepted nofun⟩
  | disclose body now n₁ n₂ =>
    simp only [handle, disclose, withPairs]
    cases formPairs body with
    | error p => exact ⟨rfl, not_accepted nofun⟩
    | ok pairs =>
      dsimp only
      cases first pairs "claim" <;> exact ⟨rfl, not_accepted nofun⟩
  | satisfy body now n₁ n₂ =>
    simp only [handle, satisfy, withPairs]
    cases formPairs body with
    | error p => exact ⟨rfl, not_accepted nofun⟩
    | ok pairs =>
      dsimp only
      cases parsePredicates ((first pairs "predicates").getD "") <;> exact ⟨rfl, not_accepted nofun⟩
  | run predicates now => exact ⟨rfl, not_accepted nofun⟩

/-! ## What stays true -/

/-- A world after `n` advances of its epoch. A mark is not ahead of the epoch
until it has wrapped; no accreditation is from before the first epoch, and
every claim in sight needs one. -/
structure Sound (n : ℕ) (app : AppState) : Prop where
  epoch : app.epoch.toNat = (n + 1) % 2 ^ 64
  marks : n + 1 < 2 ^ 64 → ∀ claimId e, app.registry.revoked claimId = some e → e ≤ app.epoch
  started : ∀ a ∈ app.registry.accreditations, startEpoch ≤ a.fromEpoch
  required : ∀ category ∈ demoCategories, (app.registry.policy category).isSome = true
  held : ∀ c ∈ app.wallet.claims, c.category ∈ demoCategories
  pending : ∀ p, app.lastPresentation = some p → ∀ d ∈ p.claims, d.category ∈ demoCategories

theorem accreditedIssuer_started {registry : Registry}
    (h : ∀ a ∈ registry.accreditations, startEpoch ≤ a.fromEpoch) (accreditors : List Identity)
    (identity : Identity) (label category : String) :
    ∀ a ∈ (accreditedIssuer registry accreditors identity label category).1.accreditations,
      startEpoch ≤ a.fromEpoch := by
  intro a ha
  rcases List.mem_append.mp ha with ha | ha
  · exact h a ha
  · obtain rfl := List.mem_singleton.mp ha
    rw [foldl_endorse]
    exact UInt64.le_refl _

theorem seedCall_category {salt : Digest} {subject : Did} {body : ClaimBody} {issuer : Identity}
    (h : body.category ∈ demoCategories) (c : Claim) (hrun : (seedCall salt subject body).run issuer = .ok c) :
    c.category ∈ demoCategories := by
  rw [Claim.category, (run_parts hrun).2.1]
  exact h

theorem seed_sound (draws : Draws) : Sound 0 (AppState.seed draws) where
  epoch := rfl
  marks _ _ _ h := nomatch h
  started := by
    refine accreditedIssuer_started (accreditedIssuer_started (accreditedIssuer_started ?_
      _ _ "Acme Corp" _) _ _ "TrustScreen" _) _ _ "State University" _
    exact List.forall_mem_nil _
  required := by
    intro category hcategory
    simp only [demoCategories, List.mem_cons, List.not_mem_nil, or_false] at hcategory
    rcases hcategory with rfl | rfl | rfl <;> rfl
  held := seed_claims (seedCall_category (by decide)) (seedCall_category (by decide))
    (seedCall_category (by decide))
  pending _ h := nomatch h

/-- A handler keeps a world sound, and an advance is one more. -/
theorem sound_effect {n : ℕ} {app app' : AppState} {request : Request} {page : Page}
    (h : Effect app request (some app') page) (hs : Sound n app) :
    Sound (if isAdvance request then n + 1 else n) app' := by
  cases h with
  | idle hquiet =>
    rw [hquiet.advances]
    exact hs
  | issued claim label hcategory =>
    refine ⟨hs.epoch, hs.marks, hs.started, hs.required, fun c hc => ?_, hs.pending⟩
    rcases List.mem_append.mp hc with hc | hc
    · exact hs.held c hc
    · obtain rfl := List.mem_singleton.mp hc
      exact hcategory
  | revoked claimId =>
    refine ⟨hs.epoch, fun hn marked e he => ?_, hs.started, hs.required, hs.held, hs.pending⟩
    by_cases heq : marked = claimId
    · subst heq
      obtain rfl : app.epoch = e := by simpa [Registry.revoke] using he
      exact UInt64.le_refl _
    · exact hs.marks hn marked e (by simpa [Registry.revoke, Function.update_of_ne heq] using he)
  | advanced =>
    show Sound (n + 1) _
    have hepoch : (app.epoch + 1).toNat = (n + 1 + 1) % 2 ^ 64 := by
      rw [UInt64.toNat_add, hs.epoch]
      exact Nat.mod_add_mod ..
    refine ⟨hepoch, fun hn claimId e he => ?_, hs.started, hs.required, hs.held, hs.pending⟩
    -- no wrap, so the epoch only grew
    have hle := UInt64.le_iff_toNat_le.mp (hs.marks (by omega) claimId e he)
    have hgrew : app.epoch.toNat ≤ (app.epoch + 1).toNat := by
      rw [hepoch, hs.epoch, Nat.mod_eq_of_lt hn, Nat.mod_eq_of_lt (by omega)]
      omega
    exact UInt64.le_iff_toNat_le.mpr (hle.trans hgrew)
  | built p message hquiet hclaims =>
    rw [hquiet.advances]
    refine ⟨hs.epoch, hs.marks, hs.started, hs.required, hs.held, ?_⟩
    rintro _ ⟨rfl⟩ d hd
    obtain ⟨c, hc, s, hdisclose⟩ := hclaims d hd
    rw [disclose_eq hdisclose]
    exact hs.held c hc
  | accepted p report => exact ⟨hs.epoch, hs.marks, hs.started, hs.required, hs.held, hs.pending⟩
  | refused => exact ⟨hs.epoch, hs.marks, hs.started, hs.required, hs.held, hs.pending⟩

/-- What a sound world accepts carries no mark. -/
theorem accepted_unmarked {n : ℕ} (hn : n < 2 ^ 64) {app : AppState} (hs : Sound n app)
    {p : Presentation} (hpending : app.lastPresentation = some p) {now : Timestamp} (hne : p.claims ≠ [])
    (hclaims : ClaimsValid (app.registry.setEpoch app.epoch).anchor p.subjectId now p.claims) :
    ∀ c ∈ p.claims, app.registry.revoked c.claimId.asStr = none := by
  -- some accreditation is in force, so the epoch has not wrapped
  obtain ⟨d, hd⟩ := List.exists_mem_of_ne_nil _ hne
  obtain ⟨v, hvalid⟩ := hclaims d hd
  obtain ⟨rule, -, a, ha, -, -, hforce, -⟩ :=
    (standing_iff _ _ _).mp (hvalid.accredited (hs.required _ (hs.pending p hpending d hd)))
  have hstarted : startEpoch ≤ app.epoch := UInt64.le_trans (hs.started a ha) hforce.1
  have hepoch := hs.epoch
  have hone : 1 ≤ app.epoch.toNat := UInt64.le_iff_toNat_le.mp hstarted
  have hwraps : n + 1 < 2 ^ 64 := by omega
  intro c hc
  obtain ⟨v, hvalid⟩ := hclaims c hc
  cases hmark : app.registry.revoked c.claimId.asStr with
  | none => rfl
  | some e =>
    have hrevoked : (app.registry.setEpoch app.epoch).isRevoked c.claimId = true :=
      isRevoked_iff.mpr ⟨e, hmark, hs.marks hwraps _ e hmark⟩
    cases hrevoked.symm.trans hvalid.notRevoked

/-! ## Marks and spent presentations -/

/-- A claim carries a mark of revocation. -/
def Marked (claimId : String) (world : Option AppState) : Prop :=
  ∀ app, world = some app → app.registry.revoked claimId ≠ none

/-- The pending presentation is on record as used. -/
def Spent (world : Option AppState) : Prop :=
  ∀ app, world = some app → ∃ p, app.lastPresentation = some p ∧
    app.nonces.seen (app.employer.did, p.nonce) ≠ none

/-- A mark stays, and revoking a claim puts one. -/
theorem marked_effect {app : AppState} {request : Request} {world : Option AppState} {page : Page}
    (h : Effect app request world page) {claimId : String}
    (hmark : request = .revoke claimId ∨ app.registry.revoked claimId ≠ none) : Marked claimId world := by
  rintro app' rfl
  cases h with
  | revoked marked =>
    by_cases heq : claimId = marked
    · subst heq
      simp [Registry.revoke]
    · have hold := hmark.resolve_left fun h => heq (Request.revoke.inj h).symm
      simpa [Registry.revoke, Function.update_of_ne heq] using hold
  | idle hquiet => exact hmark.resolve_left (hquiet.revokes claimId)
  | built p message hquiet => exact hmark.resolve_left (hquiet.revokes claimId)
  | _ => exact hmark.resolve_left (by simp)

/-- A spent presentation stays spent unless another is built. -/
theorem spent_effect {app : AppState} {request : Request} {world : Option AppState} {page : Page}
    (h : Effect app request world page) (hspent : Spent (some app)) (hbuilt : ¬ Builds (request, page)) :
    Spent world := by
  obtain ⟨p, hpending, hseen⟩ := hspent app rfl
  rintro app' rfl
  cases h with
  | built q message => exact absurd ⟨message, rfl⟩ hbuilt
  | accepted q report =>
    refine ⟨p, hpending, ?_⟩
    by_cases heq : (app.employer.did, p.nonce) = (app.employer.did, q.nonce)
    · simp [heq]
    · simpa [Function.update_of_ne heq] using hseen
  | _ => exact ⟨p, hpending, hseen⟩

/-- What is accepted is the pending presentation, not yet on record; then it is
spent. -/
theorem accepted_effect {app : AppState} {request : Request} {world : Option AppState} {page : Page}
    (h : Effect app request world page) {p : Presentation} (hacc : Accepted p (request, page)) :
    app.lastPresentation = some p ∧ app.nonces.seen (app.employer.did, p.nonce) = none ∧
      p.claims ≠ [] ∧ (∃ now, ClaimsValid (app.registry.setEpoch app.epoch).anchor p.subjectId now
        p.claims) ∧ Spent world := by
  cases h with
  | idle _ hpage => exact absurd hacc (hpage p)
  | refused hpage => exact absurd hacc (hpage p)
  | issued _ _ _ hpage => exact absurd hacc (not_accepted hpage p)
  | accepted q report hpending hfresh hne hclaims =>
    obtain ⟨_, _, _, heq, -⟩ := hacc
    obtain ⟨rfl, -⟩ := Page.report.inj (Prod.mk.inj heq).2
    refine ⟨hpending, hfresh, hne, ⟨_, hclaims⟩, ?_⟩
    rintro _ ⟨rfl⟩
    exact ⟨q, hpending, by simp⟩
  | _ => exact absurd hacc (not_accepted (by simp) p)

/-! ## Runs -/

/-- The world with the number of advances so far. -/
def countAdvances (n : ℕ) (request : Request) : ℕ := if isAdvance request then n + 1 else n

/-- Every world of a run with fewer than `2 ^ 64` advances is sound. -/
theorem run_sound (overflowChecks : Bool) (draws : Draws) (requests : List Request)
    (h : requests.countP isAdvance < 2 ^ 64) :
    ((demoMachine overflowChecks).withGhost countAdvances).All
      (fun s _ => (∀ app, s.1 = some app → Sound s.2 app) ∧ s.2 < 2 ^ 64)
      (some (AppState.seed draws), 0) requests := by
  refine Framework.Machine.all_invariant (fun s => ∀ app, s.1 = some app → Sound s.2 app) ?_
    (Framework.Machine.all_withCounter (by rwa [Nat.zero_add])) ?_
  · rintro ⟨world, n⟩ request - hsound app hnext
    cases world with
    | none => cases (handle_none overflowChecks request).1.symm.trans hnext
    | some app₀ =>
      have heffect := handle_effect overflowChecks app₀ request
      rw [show (handle overflowChecks (some app₀) request).1 = some app from hnext] at heffect
      exact sound_effect heffect (hsound app₀ rfl)
  · rintro _ ⟨rfl⟩
    exact seed_sound draws

theorem marked_handle (overflowChecks : Bool) {world : Option AppState} {request : Request}
    {claimId : String} (h : request = .revoke claimId ∨ Marked claimId world) :
    Marked claimId (handle overflowChecks world request).1 := by
  cases world with
  | none =>
    rw [(handle_none overflowChecks request).1]
    nofun
  | some app => exact marked_effect (handle_effect overflowChecks app request) (h.imp_right fun hm => hm app rfl)

theorem spent_handle (overflowChecks : Bool) {world : Option AppState} {request : Request}
    (h : Spent world) (hbuilt : ¬ Builds (request, (handle overflowChecks world request).2)) :
    Spent (handle overflowChecks world request).1 := by
  cases world with
  | none =>
    rw [(handle_none overflowChecks request).1]
    nofun
  | some app => exact spent_effect (handle_effect overflowChecks app request) h hbuilt

/-- Only a world that is not gone accepts anything. -/
theorem accepted_handle {overflowChecks : Bool} {world : Option AppState} {request : Request}
    {p : Presentation} (h : Accepted p (request, (handle overflowChecks world request).2)) :
    ∃ app, world = some app ∧
      Effect app request (handle overflowChecks world request).1 (handle overflowChecks world request).2 := by
  cases world with
  | none => exact absurd h ((handle_none overflowChecks request).2 p)
  | some app => exact ⟨app, rfl, handle_effect overflowChecks app request⟩

/-- No run revokes a claim and later accepts it. -/
theorem run_revoked (overflowChecks : Bool) (draws : Draws) (requests : List Request)
    (h : requests.countP isAdvance < 2 ^ 64) :
    ((demoMachine overflowChecks).trace (some (AppState.seed draws)) requests).Pairwise
      fun x y => ∀ claimId, x.1 = .revoke claimId → ∀ p, Accepted p y →
        ∀ c ∈ p.claims, c.claimId.asStr ≠ claimId := by
  rw [← Framework.Machine.trace_withGhost countAdvances _ 0]
  refine Framework.Machine.trace_pairwise (fun x s => ∀ claimId, x.1 = .revoke claimId → Marked claimId s.1)
    ?_ ?_ ?_ (run_sound overflowChecks draws requests h)
  · rintro ⟨world, n⟩ request - claimId hrequest
    exact marked_handle overflowChecks (.inl hrequest)
  · rintro x ⟨world, n⟩ request - hmarked claimId hrequest
    exact marked_handle overflowChecks (.inr (hmarked claimId hrequest))
  · rintro x ⟨world, n⟩ request ⟨hsound, hn⟩ hmarked claimId hrequest p hacc c hc rfl
    obtain ⟨app, rfl, heffect⟩ := accepted_handle hacc
    obtain ⟨hpending, -, hne, ⟨now, hclaims⟩, -⟩ := accepted_effect heffect hacc
    exact hmarked _ hrequest app rfl (accepted_unmarked hn (hsound app rfl) hpending hne hclaims c hc)

/-- Between two presentations that a run accepts, one is built. -/
theorem run_once (overflowChecks : Bool) (world : Option AppState) (requests : List Request) :
    Framework.Machine.Separates (fun x => ∃ p, Accepted p x) Builds
      ((demoMachine overflowChecks).trace world requests) := by
  refine Framework.Machine.trace_separates Spent ?_ ?_ ?_ world requests
  · rintro world request ⟨p, hacc⟩
    obtain ⟨app, rfl, heffect⟩ := accepted_handle hacc
    exact (accepted_effect heffect hacc).2.2.2.2
  · exact fun world request hspent hbuilt => spent_handle overflowChecks hspent hbuilt
  · rintro world request hspent ⟨p, hacc⟩
    obtain ⟨app, rfl, heffect⟩ := accepted_handle hacc
    obtain ⟨hpending, hfresh, -⟩ := accepted_effect heffect hacc
    obtain ⟨q, hq, hseen⟩ := hspent app rfl
    obtain rfl := Option.some.inj (hpending.symm.trans hq)
    exact hseen hfresh

/-- Every run of the demo with fewer than `2 ^ 64` advances of its epoch is
safe. -/
theorem demo_safe (overflowChecks : Bool) (draws : Draws) (requests : List Request)
    (h : requests.countP isAdvance < 2 ^ 64) :
    Safe ((demoMachine overflowChecks).trace (some (AppState.seed draws)) requests) :=
  ⟨run_revoked overflowChecks draws requests h, run_once overflowChecks _ requests⟩

end

section

attribute [local instance] telling

/-- The law where everything is presented and verified, a claim of the wallet
is revoked, the epoch advances, and everything is presented and verified again. -/
theorem demo_safe_script : ∃ (n : ByteVec 12) (c : Claim), c ∈ (AppState.seed (drawsFrom 20)).wallet.claims ∧
    Safe ((demoMachine false).trace (some (AppState.seed (drawsFrom 20))) [.present "" ⟨1000⟩ n n, .run "" ⟨1200⟩,
      .revoke c.claimId.asStr, .advanceEpoch, .present "" ⟨1250⟩ n n, .run "" ⟨1300⟩]) := by
  obtain ⟨c, cs, hclaims⟩ := drawsFrom_claims 20
  refine ⟨⟨List.replicate 12 7, rfl⟩, c, hclaims ▸ List.mem_cons_self, ?_⟩
  exact demo_safe false (drawsFrom 20) _ (show 1 < 2 ^ 64 by decide)

end

end AionTrust.Proof
