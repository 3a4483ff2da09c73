import AionTrust.Proof.Serving

/-!
# From a page to a presentation

A wallet's page has the forms of its claims (`served_forms`), whatever a form
sends is read back by the handler it is posted to (`sent_present`,
`sent_disclose`), and the claims it was ticked for are still held then
(`run_keeps`). So what is presented is what was ticked (`ticked_presented`,
`ticked_disclosed`): every claim held, where no claim was ticked, and every
field, where no field was.
-/

namespace AionTrust.Proof

open AionTrust.Impl AionTrust.Spec
open Framework (bind_eq_ok okOr_eq_ok mapError_eq_ok pure_eq_ok)
open Framework.Markup

/-! ## What a form sends -/

/-- What some controls send, one after another. -/
def SendsAll (controls : List Control) (pairs : List (String × String)) : Prop :=
  ∃ sent, List.Forall₂ Control.Sends controls sent ∧ pairs = sent.flatten

theorem sendsAll_nil {pairs : List (String × String)} (h : SendsAll [] pairs) : pairs = [] := by
  obtain ⟨sent, hsent, rfl⟩ := h
  cases hsent
  rfl

theorem sendsAll_cons {c : Control} {controls : List Control} {pairs : List (String × String)}
    (h : SendsAll (c :: controls) pairs) :
    ∃ sent rest, c.Sends sent ∧ SendsAll controls rest ∧ pairs = sent ++ rest := by
  obtain ⟨sent, hsent, rfl⟩ := h
  cases hsent with
  | cons hc hrest => exact ⟨_, _, hc, ⟨_, hrest, rfl⟩, rfl⟩

/-- Boxes send those of them that are ticked, in order. -/
theorem sendsAll_boxes {α : Type*} {name : String} {value : α → String} {as : List α} {controls : List Control}
    {pairs : List (String × String)}
    (h : SendsAll ((as.map fun a => ⟨"checkbox", name, value a⟩) ++ controls) pairs) :
    ∃ (ticked : List α) (rest : _), ticked.Sublist as ∧ SendsAll controls rest ∧
      pairs = ticked.map (fun a => (name, value a)) ++ rest := by
  induction as generalizing pairs with
  | nil => exact ⟨[], pairs, .slnil, h, rfl⟩
  | cons a as ih =>
    obtain ⟨sent, others, hsent, hothers, rfl⟩ := sendsAll_cons h
    obtain ⟨ticked, rest, hticked, hrest, rfl⟩ := ih hothers
    rw [Control.Sends, if_pos rfl] at hsent
    rcases hsent with rfl | rfl
    · exact ⟨a :: ticked, rest, hticked.cons_cons a, hrest, rfl⟩
    · exact ⟨ticked, rest, hticked.cons a, hrest, rfl⟩

/-- The form of the claims sends those that are ticked, and a purpose. -/
theorem present_sends {claims : List Claim} {pairs : List (String × String)}
    (h : (presentForm claims).Sends pairs) : ∃ (ticked : List Claim) (purpose : String), ticked.Sublist claims ∧
      pairs = ticked.map (fun c => ("claim", c.claimId.asStr)) ++ [("purpose", purpose)] := by
  obtain ⟨ticked, rest, hticked, hrest, rfl⟩ := sendsAll_boxes h
  obtain ⟨sent, none, hsent, hnone, rfl⟩ := sendsAll_cons hrest
  rw [Control.Sends, if_neg (by decide), if_neg (by decide)] at hsent
  obtain ⟨purpose, rfl⟩ := hsent
  obtain rfl := sendsAll_nil hnone
  exact ⟨ticked, purpose, hticked, rfl⟩

/-- It may be sent with every box ticked. -/
theorem sends_ticked (claims : List Claim) : (presentForm claims).Sends
    (claims.map (fun c => ("claim", c.claimId.asStr)) ++ [("purpose", "job")]) := by
  have hboxes : List.Forall₂ Control.Sends (claims.map fun c => ⟨"checkbox", "claim", c.claimId.asStr⟩)
      (claims.map fun c => [("claim", c.claimId.asStr)]) := by
    rw [List.forall₂_map_left_iff, List.forall₂_map_right_iff]
    exact List.forall₂_same.mpr fun c _ => .inl rfl
  refine ⟨_, List.rel_append hboxes (.cons (b := [("purpose", "job")]) ⟨"job", rfl⟩ .nil), ?_⟩
  rw [List.flatten_append, ← List.flatMap_def, ← List.map_eq_flatMap]
  rfl

/-- The form of a claim sends the claim, and the fields that are ticked. -/
theorem disclose_sends {c : Claim} {pairs : List (String × String)} (h : (discloseForm c).Sends pairs) :
    ∃ ticked : List String, ticked.Sublist (fieldKeys c) ∧
      pairs = ("claim", c.claimId.asStr) :: ticked.map fun k => ("field", k) := by
  obtain ⟨sent, boxes, hsent, hboxes, rfl⟩ := sendsAll_cons h
  have hhidden : ¬ "hidden" = "checkbox" := by decide
  rw [Control.Sends, if_neg hhidden, if_pos rfl] at hsent
  subst hsent
  rw [← List.append_nil ((fieldKeys c).map _)] at hboxes
  obtain ⟨ticked, rest, hticked, hrest, rfl⟩ := sendsAll_boxes hboxes
  obtain rfl := sendsAll_nil hrest
  exact ⟨ticked, hticked, by rw [List.append_nil]; rfl⟩

theorem sends_unticked (c : Claim) : (discloseForm c).Sends [("claim", c.claimId.asStr)] := by
  have hboxes : List.Forall₂ Control.Sends ((fieldKeys c).map fun k => ⟨"checkbox", "field", k⟩)
      ((fieldKeys c).map fun _ => []) := by
    rw [List.forall₂_map_left_iff, List.forall₂_map_right_iff]
    exact List.forall₂_same.mpr fun k _ => .inr rfl
  refine ⟨_, .cons (b := [("claim", c.claimId.asStr)]) rfl hboxes, ?_⟩
  rw [List.flatten_cons, ← List.flatMap_def, List.flatMap_eq_nil_iff.mpr fun _ _ => rfl, List.append_nil]

/-! ## Reading it back -/

theorem sent_present (ids : List String) (purpose : String) :
    let pairs := ids.map (fun id => ("claim", id)) ++ [("purpose", purpose)]
    values pairs "claim" = ids ∧ first pairs "purpose" = some purpose ∧ first pairs "ttl" = none := by
  refine ⟨?_, ?_, ?_⟩
  · simp [values, List.filter_append, List.filter_map, Function.comp_def]
  · rw [first, List.find?_append, List.find?_eq_none.mpr (by simp)]
    rfl
  · rw [first, List.find?_append, List.find?_eq_none.mpr (by simp)]
    rfl

theorem sent_disclose (id : String) (ticked : List String) :
    let pairs := ("claim", id) :: ticked.map fun k => ("field", k)
    first pairs "claim" = some id ∧ values pairs "field" = ticked ∧ first pairs "purpose" = none := by
  refine ⟨rfl, ?_, ?_⟩
  · simp [values, List.filter_map, Function.comp_def]
  · simp [first, List.find?_map, Function.comp_def]

section

variable [External]

/-! ## What is held -/

theorem effect_wallet {app app' : AppState} {request : Request} {page : Page}
    (h : Effect app request (some app') page) (hissue : ∀ form order salt, request ≠ .issue form order salt) :
    app'.wallet = app.wallet := by
  cases h with
  | issued claim label hcategory hpage => exact absurd rfl (hissue _ _ _)
  | _ => rfl

theorem doIssue_claims {app app' : AppState} {form : IssueForm} {order : List String} {salt : Digest}
    {label : String} (h : doIssue app form order salt = .ok (app', label)) :
    ∃ c, Issued c ∧ app'.wallet.claims = app.wallet.claims ++ [c] := by
  simp only [doIssue, bind_eq_ok, okOr_eq_ok, mapError_eq_ok, pure_eq_ok, Prod.mk.injEq] at h
  obtain ⟨body, -, key, -, slot, -, claim, hclaim, rfl, -⟩ := h
  exact ⟨claim, ⟨slot.identity, ⟨salt, app.wallet.did, _, body, []⟩, hclaim⟩, rfl⟩

/-- A form posted to a world adds at most an issued claim to its wallet. -/
theorem handle_claims {overflowChecks : Bool} {app app' : AppState} {request : Request}
    (h : (handle overflowChecks (some app) request).1 = some app') :
    ∃ new, app'.wallet.claims = app.wallet.claims ++ new ∧ ∀ c ∈ new, Issued c := by
  have heffect := handle_effect overflowChecks app request
  rw [h] at heffect
  have hsame : (∀ form order salt, request ≠ .issue form order salt) →
      ∃ new, app'.wallet.claims = app.wallet.claims ++ new ∧ ∀ c ∈ new, Issued c := fun hissue =>
    ⟨[], by rw [effect_wallet heffect hissue, List.append_nil], List.forall_mem_nil _⟩
  cases request with
  | issue form order salt =>
    simp only [handle, issue, withLock] at h
    cases hissue : doIssue app form order salt with
    | error e =>
      rw [hissue] at h
      obtain rfl := Option.some.inj h
      exact ⟨[], by rw [List.append_nil], List.forall_mem_nil _⟩
    | ok issued =>
      rw [hissue] at h
      obtain rfl := Option.some.inj h
      obtain ⟨c, hc, hclaims⟩ := doIssue_claims hissue
      exact ⟨[c], hclaims, List.forall_mem_singleton.mpr hc⟩
  | _ => exact hsame fun _ _ _ h => by cases h

/-- A world holds these claims first, and only issued ones. -/
def Holds (claims : List Claim) (world : Option AppState) : Prop :=
  ∀ app, world = some app → claims <+: app.wallet.claims ∧ ∀ c ∈ app.wallet.claims, Issued c

theorem run_holds {overflowChecks : Bool} {claims : List Claim} {world : Option AppState} (requests : List Request)
    (h : Holds claims world) : Holds claims ((demoMachine overflowChecks).final world requests) := by
  induction requests generalizing world with
  | nil => exact h
  | cons request requests ih =>
    refine ih fun app' happ' => ?_
    cases world with
    | none => exact absurd (happ'.symm.trans (handle_none overflowChecks request).1) (Option.some_ne_none _)
    | some app =>
      obtain ⟨hstart, hissued⟩ := h app rfl
      obtain ⟨new, hclaims, hnew⟩ := handle_claims happ'
      rw [hclaims]
      exact ⟨hstart.trans (List.prefix_append _ _), List.forall_mem_append.mpr ⟨hissued, hnew⟩⟩

/-- A world reached from its seeding holds issued claims. -/
theorem reached_issued {overflowChecks : Bool} {draws : Draws} {requests : List Request} {app : AppState}
    (h : (demoMachine overflowChecks).final (some (AppState.seed draws)) requests = some app) :
    ∀ c ∈ app.wallet.claims, Issued c := by
  have hseed : Holds [] (some (AppState.seed draws)) := by
    rintro _ ⟨rfl⟩
    exact ⟨List.nil_prefix, seed_claims (fun c hc => ⟨_, _, hc⟩) (fun c hc => ⟨_, _, hc⟩) fun c hc => ⟨_, _, hc⟩⟩
  exact (run_holds requests hseed app h).2

/-! ## What is presented -/

/-- The first claim of an id stays the first. -/
theorem claim_prefix {w w' : Wallet} (h : w.claims <+: w'.claims) {id : String} {c : Claim}
    (hc : w.claim id = some c) : w'.claim id = some c := by
  obtain ⟨new, hnew⟩ := h
  rw [Wallet.claim, ← hnew, List.find?_append]
  rw [Wallet.claim] at hc
  rw [hc]
  rfl

theorem claim_isSome {w : Wallet} {c : Claim} (hc : c ∈ w.claims) : ∃ held, w.claim c.claimId.asStr = some held :=
  Option.isSome_iff_exists.mp (List.find?_isSome.mpr ⟨c, hc, beq_self_eq_true _⟩)

/-- Selections that each name a held claim, and select of it, are presented. -/
theorem present_selected {w : Wallet} (hheld : ∀ c ∈ w.claims, Issued c) {selections : List ClaimSelection}
    (hne : selections ≠ []) (hselects : ∀ sel ∈ selections, ∃ c, w.claim sel.claimId = some c ∧ Selects c sel.fields)
    (audience : Did) (purpose : String) (ttl : Int64) (now : Timestamp) (n₁ n₂ : ByteVec 12) :
    ∃ ds, w.present audience purpose selections ttl now n₁ n₂ = .ok (buildPresentation w.identity audience purpose
        (freshNonce n₁ n₂) now (now.plusSeconds ttl) ds) ∧
      List.Forall₂ (fun sel d => ∃ c, w.claim sel.claimId = some c ∧ Shows c (selectedKeys c sel.fields) d)
        selections ds := by
  have hshown : ∀ sel ∈ selections, ∃ d, w.discloseSelection sel = .ok d ∧
      ∃ c, w.claim sel.claimId = some c ∧ Shows c (selectedKeys c sel.fields) d := by
    intro sel hsel
    obtain ⟨d, hd⟩ := discloseSelection_isOk hheld (selectionFault_eq_none.mpr (hselects sel hsel))
    obtain ⟨c, hc, -, hshows⟩ := discloseSelection_shows hd
    exact ⟨d, hd, c, hc, hshows⟩
  obtain ⟨ds, hds, hshows⟩ := Framework.mapM_forall₂ hshown
  refine ⟨ds, ?_, hshows⟩
  rw [present_eq w audience purpose hne, hds]
  rfl

/-- Without selections every claim is presented in full. -/
theorem present_whole {w : Wallet} (hheld : ∀ c ∈ w.claims, Issued c) (audience : Did) (purpose : String)
    (ttl : Int64) (now : Timestamp) (n₁ n₂ : ByteVec 12) :
    ∃ ds, w.present audience purpose [] ttl now n₁ n₂ = .ok (buildPresentation w.identity audience purpose
        (freshNonce n₁ n₂) now (now.plusSeconds ttl) ds) ∧
      List.Forall₂ (fun c d => Shows c (fieldKeys c) d) w.claims ds := by
  have hshown : ∀ c ∈ w.claims, ∃ d, (c.disclose .all).mapError WalletError.build = .ok d ∧
      Shows c (fieldKeys c) d := by
    intro c hc
    obtain ⟨d, hd⟩ := (disclose_isOk_iff (hheld c hc)).mpr (selects_all c)
    exact ⟨d, mapError_eq_ok.mpr hd, disclose_shows hd⟩
  obtain ⟨ds, hds, hshows⟩ := Framework.mapM_forall₂ hshown
  exact ⟨ds, present_all hds .., hshows⟩

/-- Later on a run the claims of a world are still the first, and all are issued. -/
theorem reached_holds {overflowChecks : Bool} {draws : Draws} (before after : List Request) {app app' : AppState}
    (hshown : (demoMachine overflowChecks).final (some (AppState.seed draws)) before = some app)
    (hlater : (demoMachine overflowChecks).final (some app) after = some app') :
    app.wallet.claims <+: app'.wallet.claims ∧ ∀ c ∈ app'.wallet.claims, Issued c := by
  have hholds : Holds app.wallet.claims (some app) := by
    rintro _ ⟨rfl⟩
    exact ⟨List.prefix_rfl, reached_issued hshown⟩
  exact run_holds after hholds app' hlater

/-! ## The wallet's page -/

omit [External] in
theorem walletForms_cases {claims : List Claim} {f : Form} (h : f ∈ walletForms claims) :
    f = presentForm claims ∨ f = satisfyForm ∨ ∃ c ∈ claims, f = discloseForm c := by
  rcases List.mem_cons.mp h with rfl | h
  · exact .inl rfl
  rcases List.mem_cons.mp h with rfl | h
  · exact .inr (.inl rfl)
  · obtain ⟨c, hc, rfl⟩ := List.mem_map.mp h
    exact .inr (.inr ⟨c, hc, rfl⟩)

/-- The forms of a wallet's page are those of its body. -/
theorem parts_forms {world : Option AppState} {order : List String} {html head : String} {laid : HeadLayout}
    {report : List Check × List Bool} (h : Parts .wallet world order html head laid report) {ns : List Node}
    (hbody : Reads marked home (bodyOf .wallet world order) home ns) : forms (nodes home html) = forms ns := by
  obtain ⟨before, after, hpage, hbefore, hafter⟩ := surface_page .wallet
  have hhtml := (hbefore.append ((h.headed.form rfl).append hbody)).append hafter
  rw [← hpage, ← h.html_eq, List.nil_append, List.nil_append, List.append_nil] at hhtml
  have hforms := hhtml.filter fun n (hn : n.inForm = true) => by rw [marked, hn, Bool.or_true]
  rw [← forms_filter, hforms.2, forms_filter]

/-- A wallet's page has no forms but those of the claims of the world it shows. -/
theorem parts_walletForms {world : Option AppState} {order : List String} {html head : String} {laid : HeadLayout}
    {report : List Check × List Bool} (h : Parts .wallet world order html head laid report) :
    forms (nodes home html) = world.elim [] fun app => walletForms app.wallet.claims := by
  cases world with
  | none => exact parts_forms h .empty
  | some app => exact (parts_forms h (reads_walletBody app)).trans (forms_walletNodes _)

theorem served_forms {overflowChecks : Bool} {app : AppState} {html : String}
    (h : Served overflowChecks .wallet (some app) html) :
    ∀ f ∈ forms (nodes home html), f ∈ walletForms app.wallet.claims := by
  obtain ⟨world, order, head, laid, report, rfl | rfl, hparts⟩ := served_parts h
  · rw [parts_walletForms hparts]
    exact List.forall_mem_nil _
  · rw [parts_walletForms hparts]
    exact fun f hf => hf

/-- The page that is read has all of them. -/
theorem read_forms (app : AppState) (order : List String) :
    forms (nodes home (Surface.wallet.read (some app) order)) = walletForms app.wallet.claims := by
  obtain ⟨_, hparts⟩ := read_parts .wallet (some app) order
  exact parts_walletForms hparts

/-- What is built is kept for the verifier, or the wallet says why it was not. -/
def stored (app : AppState) (built : Except WalletError Presentation) : Option AppState × Page :=
  (some (storeOrWarn app (built.mapError (·.text))).1, (storeOrWarn app (built.mapError (·.text))).2)

theorem stored_built {app : AppState} {purpose : String} {now : Timestamp} {nonce : Framework.Bytes}
    {ds : List DisclosedClaim} {built : Except WalletError Presentation}
    (h : built = .ok (buildPresentation app.wallet.identity app.employer.did purpose nonce now
      (now.plusSeconds defaultTtl) ds)) :
    ∃ p message, stored app built = (some { app with lastPresentation := some p }, .wallet (.ok message)) ∧
      BuiltFor app purpose now p ∧ p.claims = ds := by
  subst h
  exact ⟨_, _, rfl, ⟨rfl, rfl, rfl, rfl, rfl⟩, rfl⟩

/-- The claims' form is read back as it was sent. -/
theorem handle_present {ids : List String} {purpose body : String}
    (hbody : BodyEncoding (ids.map (fun id => ("claim", id)) ++ [("purpose", purpose)]) body) (overflowChecks : Bool)
    (app : AppState) (now : Timestamp) (n₁ n₂ : ByteVec 12) :
    handle overflowChecks (some app) (.present body now n₁ n₂) =
      stored app (app.wallet.presentAll app.employer.did purpose ids defaultTtl now n₁ n₂) := by
  obtain ⟨hids, hpurpose, httl⟩ := sent_present ids purpose
  simp only [handle, present, withPairs, formPairs_encoded hbody, hids, hpurpose, httl, withLock]
  rfl

/-- And so is the form of a claim: no field ticked is every field. -/
theorem handle_disclose {id : String} {ticked : List String} {body : String}
    (hbody : BodyEncoding (("claim", id) :: ticked.map fun k => ("field", k)) body) (overflowChecks : Bool)
    (app : AppState) (now : Timestamp) (n₁ n₂ : ByteVec 12) :
    handle overflowChecks (some app) (.disclose body now n₁ n₂) =
      stored app (app.wallet.present app.employer.did "application"
        [{ claimId := id, fields := if ticked.isEmpty then .all else .only ticked }] defaultTtl now n₁ n₂) := by
  obtain ⟨hid, hfields, hpurpose⟩ := sent_disclose id ticked
  simp only [handle, disclose, withPairs, formPairs_encoded hbody, hid, hfields, hpurpose, withLock]
  rfl

/-- What a page of claims is ticked for and sent, at any later time, is
presented: the ticked claims in full, in order, or every claim held when none is
ticked, to the employer, for the purpose typed. -/
theorem ticked_presented (overflowChecks : Bool) (draws : Draws) (before after : List Request) {app app' : AppState}
    (hshown : (demoMachine overflowChecks).final (some (AppState.seed draws)) before = some app)
    (hlater : (demoMachine overflowChecks).final (some app) after = some app') {html : String}
    (hserved : Served overflowChecks .wallet (some app) html) {f : Form} (hf : f ∈ forms (nodes home html))
    (haction : f.action = "/wallet/present") {pairs : List (String × String)} (hpairs : f.Sends pairs) {body : String}
    (hbody : BodyEncoding pairs body) (now : Timestamp) (n₁ n₂ : ByteVec 12) :
    ∃ ticked purpose p message, ticked.Sublist app.wallet.claims ∧
      pairs = ticked.map (fun c => ("claim", c.claimId.asStr)) ++ [("purpose", purpose)] ∧
      handle overflowChecks (some app') (.present body now n₁ n₂) =
        (some { app' with lastPresentation := some p }, .wallet (.ok message)) ∧
      BuiltFor app' purpose now p ∧
      (ticked ≠ [] → List.Forall₂ (fun c d => ShowsHeld app'.wallet c.claimId.asStr d) ticked p.claims) ∧
      (ticked = [] → List.Forall₂ (fun c d => Shows c (fieldKeys c) d) app'.wallet.claims p.claims) := by
  obtain ⟨hstart, hheld⟩ := reached_holds before after hshown hlater
  obtain rfl : f = presentForm app.wallet.claims := by
    rcases walletForms_cases (served_forms hserved f hf) with rfl | rfl | ⟨c, -, rfl⟩
    · rfl
    · simp [satisfyForm] at haction
    · simp [discloseForm] at haction
  obtain ⟨ticked, purpose, hticked, rfl⟩ := present_sends hpairs
  have hids : ticked.map (fun c => ("claim", c.claimId.asStr)) =
      (ticked.map fun c => c.claimId.asStr).map fun id => ("claim", id) := by rw [List.map_map]; rfl
  have hhandle := handle_present (hids ▸ hbody) overflowChecks app' now n₁ n₂
  by_cases hnone : ticked = []
  · subst hnone
    obtain ⟨ds, hds, hshows⟩ := present_whole hheld app'.employer.did purpose defaultTtl now n₁ n₂
    obtain ⟨p, message, hstored, hbuilt, rfl⟩ := stored_built hds
    exact ⟨[], purpose, p, message, hticked, rfl, hhandle.trans hstored, hbuilt, fun h => absurd rfl h, fun _ => hshows⟩
  · have hselects : ∀ sel ∈ (ticked.map fun c => c.claimId.asStr).map fun claimId =>
        ({ claimId, fields := .all } : ClaimSelection), ∃ c, app'.wallet.claim sel.claimId = some c ∧
          Selects c sel.fields := by
      simp only [List.forall_mem_map]
      intro c hc
      obtain ⟨held, hfirst⟩ := claim_isSome (hstart.subset (hticked.subset hc))
      exact ⟨held, hfirst, selects_all held⟩
    obtain ⟨ds, hds, hshows⟩ := present_selected hheld (by simpa using hnone) hselects app'.employer.did purpose
      defaultTtl now n₁ n₂
    obtain ⟨p, message, hstored, hbuilt, rfl⟩ := stored_built hds
    refine ⟨ticked, purpose, p, message, hticked, rfl, hhandle.trans hstored, hbuilt, fun _ => ?_, fun h => absurd h hnone⟩
    rw [List.map_map, List.forall₂_map_left_iff] at hshows
    exact hshows

end

section

attribute [local instance] lawful

/-- A fresh demo, with every claim ticked. -/
theorem ticked_presented_seed : ∃ body n purpose p message, handle false (some (AppState.seed stageDraws))
    (.present body ⟨1000⟩ n n) = (some { AppState.seed stageDraws with lastPresentation := some p },
      .wallet (.ok message)) ∧ BuiltFor (AppState.seed stageDraws) purpose ⟨1000⟩ p := by
  let n : ByteVec 12 := ⟨List.replicate 12 7, rfl⟩
  have hform : presentForm (AppState.seed stageDraws).wallet.claims ∈
      forms (nodes home (Surface.wallet.read (some (AppState.seed stageDraws)) [])) := by
    rw [read_forms]
    exact List.mem_cons_self
  have hsends := sends_ticked (AppState.seed stageDraws).wallet.claims
  obtain ⟨body, hbody⟩ := exists_bodyEncoding
    ((AppState.seed stageDraws).wallet.claims.map (fun c => ("claim", c.claimId.asStr)) ++ [("purpose", "job")])
  obtain ⟨-, purpose, p, message, -, -, hhandle, hbuilt, -⟩ := ticked_presented false stageDraws [] [] rfl rfl
    (.read .wallet _ []) hform rfl hsends hbody ⟨1000⟩ n n
  exact ⟨body, n, purpose, p, message, hhandle, hbuilt⟩

end

section

variable [External]

/-- What the card of a claim is ticked for and sent, at any later time, is
presented: the ticked fields of the claim, in the order of their keys, or every
field of it when none is ticked. -/
theorem ticked_disclosed (overflowChecks : Bool) (draws : Draws) (before after : List Request) {app app' : AppState}
    (hshown : (demoMachine overflowChecks).final (some (AppState.seed draws)) before = some app)
    (hlater : (demoMachine overflowChecks).final (some app) after = some app') {html : String}
    (hserved : Served overflowChecks .wallet (some app) html) {f : Form} (hf : f ∈ forms (nodes home html))
    (haction : f.action = "/wallet/disclose") {pairs : List (String × String)} (hpairs : f.Sends pairs)
    {body : String} (hbody : BodyEncoding pairs body) (now : Timestamp) (n₁ n₂ : ByteVec 12) :
    ∃ id ticked, pairs = ("claim", id) :: ticked.map (fun k => ("field", k)) ∧
      (∃ c ∈ app.wallet.claims, c.claimId.asStr = id ∧ ticked.Sublist (fieldKeys c)) ∧
      ∀ c, app.wallet.claim id = some c → ticked.Sublist (fieldKeys c) → ∃ p d message,
        handle overflowChecks (some app') (.disclose body now n₁ n₂) =
          (some { app' with lastPresentation := some p }, .wallet (.ok message)) ∧
        BuiltFor app' "application" now p ∧ p.claims = [d] ∧
        Shows c (if ticked = [] then fieldKeys c else ticked) d := by
  obtain ⟨hstart, hheld⟩ := reached_holds before after hshown hlater
  obtain ⟨c, hc, rfl⟩ : ∃ c ∈ app.wallet.claims, f = discloseForm c := by
    rcases walletForms_cases (served_forms hserved f hf) with rfl | rfl | hform
    · simp [presentForm] at haction
    · simp [satisfyForm] at haction
    · exact hform
  obtain ⟨ticked, hticked, rfl⟩ := disclose_sends hpairs
  refine ⟨_, ticked, rfl, ⟨c, hc, rfl, hticked⟩, fun held hfirst hsub => ?_⟩
  have hhandle := handle_disclose hbody overflowChecks app' now n₁ n₂
  have hkeys : selectedKeys held (if ticked.isEmpty then .all else .only ticked) =
      if ticked = [] then fieldKeys held else ticked := by
    cases ticked <;> rfl
  have hselects : Selects held (if ticked.isEmpty then .all else .only ticked) := by
    cases ticked with
    | nil => exact selects_all held
    | cons k ticked => exact ⟨List.cons_ne_nil _ _, hsub.subset⟩
  have hlast := claim_prefix hstart hfirst
  have hselection : ∀ sel ∈ [ClaimSelection.mk c.claimId.asStr (if ticked.isEmpty then .all else .only ticked)],
      ∃ c, app'.wallet.claim sel.claimId = some c ∧ Selects c sel.fields :=
    List.forall_mem_singleton.mpr ⟨held, hlast, hselects⟩
  obtain ⟨ds, hds, hshows⟩ := present_selected hheld (List.cons_ne_nil _ _) hselection app'.employer.did "application"
    defaultTtl now n₁ n₂
  obtain ⟨p, message, hstored, hbuilt, rfl⟩ := stored_built hds
  obtain ⟨d, rest, ⟨c', hc', hshown⟩, hrest, hclaims⟩ := List.forall₂_cons_left_iff.mp hshows
  obtain rfl := List.forall₂_nil_left_iff.mp hrest
  obtain rfl := Option.some.inj (hlast.symm.trans hc')
  exact ⟨p, d, message, hhandle.trans hstored, hbuilt, hclaims, hkeys ▸ hshown⟩

end

section

attribute [local instance] lawful

/-- A fresh demo, with no field of its first claim ticked. -/
theorem ticked_disclosed_seed : ∃ c ∈ (AppState.seed stageDraws).wallet.claims, ∃ body n p d message,
    handle false (some (AppState.seed stageDraws)) (.disclose body ⟨1000⟩ n n) =
      (some { AppState.seed stageDraws with lastPresentation := some p }, .wallet (.ok message)) ∧
    p.claims = [d] ∧ Shows c (fieldKeys c) d := by
  let n : ByteVec 12 := ⟨List.replicate 12 7, rfl⟩
  obtain ⟨first, -, hrun, -⟩ := lawful_run stageDraws.acme
    (seedCall stageDraws.acmeSalt stageDraws.candidate.did employmentExample) (by decide)
  obtain ⟨c, claims, hclaims⟩ := List.exists_cons_of_ne_nil (seed_claims_ne_nil hrun)
  have hc : c ∈ (AppState.seed stageDraws).wallet.claims := hclaims ▸ List.mem_cons_self
  have hfirst : (AppState.seed stageDraws).wallet.claim c.claimId.asStr = some c := by
    rw [Wallet.claim, hclaims]
    exact List.find?_cons_of_pos (beq_self_eq_true c.claimId.asStr)
  have hform : discloseForm c ∈ forms (nodes home (Surface.wallet.read (some (AppState.seed stageDraws)) [])) := by
    rw [read_forms]
    exact List.mem_cons_of_mem _ (List.mem_cons_of_mem _ (List.mem_map_of_mem hc))
  obtain ⟨body, hbody⟩ := exists_bodyEncoding [("claim", c.claimId.asStr)]
  obtain ⟨id, ticked, hpairs, -, hshown⟩ := ticked_disclosed false stageDraws [] [] rfl rfl (.read .wallet _ []) hform
    rfl (sends_unticked c) hbody ⟨1000⟩ n n
  obtain ⟨⟨-, rfl⟩, hnone⟩ := by simpa using hpairs
  subst hnone
  obtain ⟨p, d, message, hhandle, -, hone, hshows⟩ := hshown c hfirst (List.nil_sublist _)
  exact ⟨c, hc, body, n, p, d, message, hhandle, hone, hshows⟩

end

end AionTrust.Proof
