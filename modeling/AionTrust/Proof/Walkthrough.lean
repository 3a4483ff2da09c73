import AionTrust.Proof.Holder
import AionTrust.Proof.Web
import AionTrust.Spec.Walkthrough

/-!
# The walkthrough ends in red

Everything but seeding anew and an overflow lets a world grow: what it holds it
keeps, and a mark in force stays in force (`Grows`, `effect_grows`,
`section_grows`). So the claim of a script under way stays the first of the
wallet, it is marked once the script has revoked it, and its presentation is
pending before the last section (`Underway`). What a script verifies then is
rejected for the mark (`verify_marked`); every undisturbed run is `Red`
(`walkthrough_red`).
-/

namespace AionTrust.Proof

open AionTrust.Impl AionTrust.Spec
open Framework (bind_eq_ok mapError_eq_ok ok_bind okOr_some)

section

variable [External]

/-! ## Worlds that grow -/

/-- A claim's mark is in force. -/
def MarkedNow (claimId : String) (app : AppState) : Prop :=
  ∃ e, app.registry.revoked claimId = some e ∧ e ≤ app.epoch

/-- A world holds what an earlier one held, and a mark in force, and a pending
presentation, remains. -/
structure Grows (app app' : AppState) : Prop where
  held : app.wallet.claims <+: app'.wallet.claims
  marked : ∀ claimId, MarkedNow claimId app → MarkedNow claimId app'
  pending : app.lastPresentation ≠ none → app'.lastPresentation ≠ none

theorem grows_revoke (app : AppState) (claimId : String) :
    Grows app { app with registry := app.registry.revoke claimId app.epoch } where
  held := List.prefix_rfl
  marked marked := by
    rintro ⟨e, he, hle⟩
    by_cases heq : marked = claimId
    · subst heq
      exact ⟨app.epoch, by simp [Registry.revoke], UInt64.le_refl _⟩
    · exact ⟨e, by simpa [Registry.revoke, Function.update_of_ne heq] using he, hle⟩
  pending h := h

theorem grows_advance {app : AppState} (h : app.epoch.toNat + 1 ≠ 2 ^ 64) :
    Grows app { app with epoch := app.epoch + 1, registry := app.registry.setEpoch (app.epoch + 1) } where
  held := List.prefix_rfl
  marked claimId := by
    rintro ⟨e, he, hle⟩
    have hbound := app.epoch.toNat_lt
    refine ⟨e, he, UInt64.le_iff_toNat_le.mpr ?_⟩
    have hle := UInt64.le_iff_toNat_le.mp hle
    rw [UInt64.toNat_add, UInt64.toNat_one, Nat.mod_eq_of_lt (by omega)]
    omega
  pending h := h

/-- A handler lets the world grow, where it does not overflow the epoch. -/
theorem handle_grows (overflowChecks : Bool) (app : AppState) (request : Request)
    (h : request = .advanceEpoch → app.epoch.toNat + 1 ≠ 2 ^ 64) :
    ∃ app', (handle overflowChecks (some app) request).1 = some app' ∧ Grows app app' := by
  have heffect := handle_effect overflowChecks app request
  generalize hworld : (handle overflowChecks (some app) request).1 = world at heffect
  generalize (handle overflowChecks (some app) request).2 = page at heffect
  cases heffect with
  | idle => exact ⟨_, rfl, List.prefix_rfl, fun _ h => h, id⟩
  | issued claim => exact ⟨_, rfl, List.prefix_append _ _, fun _ h => h, id⟩
  | revoked claimId => exact ⟨_, rfl, grows_revoke app claimId⟩
  | advanced => exact ⟨_, rfl, grows_advance (h rfl)⟩
  | poisoned =>
    have hok : (handle overflowChecks (some app) .advanceEpoch).1 ≠ none := by
      simp only [handle, advanceEpoch, withLock]
      rw [if_neg fun hoverflow => h rfl hoverflow.2]
      exact Option.some_ne_none _
    exact absurd hworld hok
  | built p => exact ⟨_, rfl, List.prefix_rfl, fun _ h => h, fun _ => Option.some_ne_none _⟩
  | accepted => exact ⟨_, rfl, List.prefix_rfl, fun _ h => h, id⟩
  | refused => exact ⟨_, rfl, List.prefix_rfl, fun _ h => h, id⟩

theorem present_grows (claimId : String) (now : Timestamp) (n₁ n₂ : ByteVec 12) (app : AppState) :
    ∃ app', Walkthrough.present claimId now n₁ n₂ (some app) = some app' ∧ Grows app app' := by
  refine ⟨_, rfl, ?_⟩
  dsimp only
  split
  · exact ⟨List.prefix_rfl, fun _ h => h, fun _ => Option.some_ne_none _⟩
  · exact ⟨List.prefix_rfl, fun _ h => h, id⟩

theorem verify_grows (now : Timestamp) (app : AppState) :
    ∃ app', (Walkthrough.verify now (some app)).1 = some app' ∧ Grows app app' := by
  rw [Walkthrough.verify]
  split
  · exact ⟨_, rfl, List.prefix_rfl, fun _ h => h, id⟩
  · exact ⟨_, rfl, List.prefix_rfl, fun _ h => h, id⟩

/-- So does every section of a script but the first. -/
theorem section_grows (drawn : Drawn) (app : AppState) (script : Script) (h : script ≠ .reset) :
    ∃ app', (runSection drawn (some app) script).1 = some app' ∧ Grows app app' := by
  cases script with
  | reset => exact absurd rfl h
  | present claimId => exact present_grows claimId drawn.now drawn.n₁ drawn.n₂ app
  | verify claimId => exact verify_grows drawn.now app
  | revoke claimId => exact ⟨_, rfl, grows_revoke app claimId⟩
  | present₂ claimId => exact present_grows claimId drawn.now drawn.n₁ drawn.n₂ app
  | verify₂ claimId => exact verify_grows drawn.now app
  | ended => exact ⟨app, rfl, List.prefix_rfl, fun _ h => h, id⟩

/-! ## The claim of a script -/

theorem seed_issued (draws : Draws) : ∀ c ∈ (AppState.seed draws).wallet.claims, Issued c :=
  seed_claims (fun _ hrun => ⟨_, _, hrun⟩) (fun _ hrun => ⟨_, _, hrun⟩) (fun _ hrun => ⟨_, _, hrun⟩)

/-- The claim a script follows is the first of the wallet, and was issued. -/
def First (claimId : String) (app : AppState) : Prop :=
  ∃ c, app.wallet.claims.head? = some c ∧ c.claimId.asStr = claimId ∧ Issued c

theorem first_grows {claimId : String} {app app' : AppState} (h : Grows app app') (hfirst : First claimId app) :
    First claimId app' := by
  obtain ⟨c, hc, hid, hissued⟩ := hfirst
  obtain ⟨more, hmore⟩ := h.held
  refine ⟨c, ?_, hid, hissued⟩
  rw [← hmore, List.head?_append, hc]
  rfl

/-- The first claim of a wallet can be presented. -/
theorem present_first {claimId : String} {app : AppState} (h : First claimId app) (now : Timestamp)
    (n₁ n₂ : ByteVec 12) : ∃ p, Presents p claimId ∧
      Walkthrough.present claimId now n₁ n₂ (some app) = some { app with lastPresentation := some p } := by
  obtain ⟨c, hc, hid, hissued⟩ := h
  have hfound : app.wallet.claim claimId = some c := by
    obtain ⟨cs, hcs⟩ := List.head?_eq_some_iff.mp hc
    rw [Wallet.claim, hcs, List.find?_cons_of_pos (by simpa using hid)]
  obtain ⟨d, hd⟩ := (disclose_isOk_iff hissued).mpr (selects_all c)
  have hselected : app.wallet.discloseSelection { claimId, fields := .all } = .ok d := by
    rw [Wallet.discloseSelection, hfound, okOr_some, ok_bind, validateSelector, ok_bind, hd]
    rfl
  have hpresented := present_eq app.wallet app.employer.did "walkthrough"
    (List.cons_ne_nil ({ claimId, fields := .all } : ClaimSelection) []) 3600 now n₁ n₂
  rw [List.mapM_cons, hselected] at hpresented
  have hbuilt : app.wallet.presentAll app.employer.did "walkthrough" [claimId] 3600 now n₁ n₂ =
      .ok (buildPresentation app.wallet.identity app.employer.did "walkthrough" (freshNonce n₁ n₂) now
        (now.plusSeconds 3600) [d]) := hpresented
  refine ⟨buildPresentation app.wallet.identity app.employer.did "walkthrough" (freshNonce n₁ n₂) now
    (now.plusSeconds 3600) [d], ⟨d, List.mem_singleton_self d, ?_⟩, ?_⟩
  · rw [(disclose_shows hd).claimId]
    exact hid
  · simp only [Walkthrough.present, Option.map_some, hbuilt]

/-! ## The verdict -/

/-- A script's verdict is the verifier's, without predicates, on what is
pending. -/
theorem verify_verdict (app : AppState) {p : Presentation} (hp : app.lastPresentation = some p) (now : Timestamp) :
    ∃ app' accepted detail, Walkthrough.verify now (some app) = (some app', accepted, detail) ∧
      (accepted = true ↔ ∃ report, verifyPresentation p app.employer.did now
        (app.registry.setEpoch app.epoch).anchor (NonceStore.seen app.nonces app.employer.did p.nonce) =
          .ok report ∧ report.accepted = true) := by
  have hreport := withStore_report p app.employer.did now (app.registry.setEpoch app.epoch).anchor app.nonces []
  rw [verifyPresentation, ← hreport]
  simp only [Walkthrough.verify, hp]
  generalize verifyPresentationWithStore p app.employer.did now (app.registry.setEpoch app.epoch).anchor
    app.nonces [] = outcome
  obtain ⟨result, nonces⟩ := outcome
  cases result with
  | error e => exact ⟨_, false, _, rfl, by simp⟩
  | ok report =>
    cases hacc : report.accepted with
    | true =>
      simp only [hacc, if_true]
      exact ⟨_, true, _, rfl, by simp [hacc]⟩
    | false =>
      simp only [hacc, Bool.false_eq_true, if_false]
      exact ⟨_, false, _, rfl, by simp [hacc]⟩

/-- What a script verifies is rejected where it presents a marked claim. -/
theorem verify_marked {claimId : String} {app : AppState} (hmark : MarkedNow claimId app) {p : Presentation}
    (hp : app.lastPresentation = some p) (hpresents : Presents p claimId) (now : Timestamp) :
    ∃ app' detail, Walkthrough.verify now (some app) = (some app', false, detail) := by
  obtain ⟨d, hd, rfl⟩ := hpresents
  obtain ⟨app', accepted, detail, hverify, hiff⟩ := verify_verdict app hp now
  have hrejected : accepted ≠ true := fun hacc => by
    obtain ⟨report, hreport, haccepted⟩ := hiff.mp hacc
    obtain ⟨-, hclaims, -⟩ := (report_accepted_iff hreport).mp haccepted
    obtain ⟨v, hvalid⟩ := hclaims d hd
    have hrevoked : (app.registry.setEpoch app.epoch).isRevoked d.claimId = true := isRevoked_iff.mpr hmark
    cases hrevoked.symm.trans hvalid.notRevoked
  exact ⟨app', detail, by rw [hverify, Bool.eq_false_iff.mpr hrejected]⟩

/-! ## Runs -/

/-- What holds of the world of a script under way. -/
structure Underway (script : Script) (claimId : String) (app : AppState) : Prop where
  first : First claimId app
  marked : script = .present₂ claimId ∨ script = .verify₂ claimId → MarkedNow claimId app
  pending : script = .verify₂ claimId → ∃ p, app.lastPresentation = some p ∧ Presents p claimId

/-- Script `i` finds its world wherever it is under way. -/
def Steady (i : Nat) (s : Server) : Prop :=
  ∀ claimId, follows (s.scripts i) = some claimId →
    ∃ app, s.world = some app ∧ Underway (s.scripts i) claimId app

theorem underway_grows {script : Script} {claimId : String} {app app' : AppState} (h : Grows app app')
    (hunderway : Underway script claimId app)
    (hpending : script = .verify₂ claimId → ∀ p, app'.lastPresentation = some p →
      app.lastPresentation = some p ∨ Presents p claimId) : Underway script claimId app' where
  first := first_grows h hunderway.first
  marked hscript := h.marked claimId (hunderway.marked hscript)
  pending hscript := by
    obtain ⟨p, hp, hpresents⟩ := hunderway.pending hscript
    obtain ⟨p', hp'⟩ := Option.ne_none_iff_exists'.mp (h.pending (by simp [hp]))
    refine ⟨p', hp', (hpending hscript p' hp').elim (fun hold => ?_) id⟩
    rwa [← Option.some.inj (hp.symm.trans hold)]

/-- A section of a script leads from one of its places to the next. -/
theorem section_underway (drawn : Drawn) {script : Script} {claimId : String} {app : AppState}
    (hscript : follows script = some claimId) (h : Underway script claimId app) :
    ∀ claimId', follows (runSection drawn (some app) script).2.1 = some claimId' →
      ∃ app', (runSection drawn (some app) script).1 = some app' ∧
        Underway (runSection drawn (some app) script).2.1 claimId' app' := by
  cases script with
  | reset => cases hscript
  | present claimId =>
    obtain rfl := Option.some.inj hscript
    rintro _ ⟨rfl⟩
    obtain ⟨app', hnext, hgrows⟩ := present_grows claimId drawn.now drawn.n₁ drawn.n₂ app
    exact ⟨app', hnext, first_grows hgrows h.first, by simp [runSection], by simp [runSection]⟩
  | verify claimId =>
    obtain rfl := Option.some.inj hscript
    rintro _ ⟨rfl⟩
    obtain ⟨app', hnext, hgrows⟩ := verify_grows drawn.now app
    exact ⟨app', hnext, first_grows hgrows h.first, by simp [runSection], by simp [runSection]⟩
  | revoke claimId =>
    obtain rfl := Option.some.inj hscript
    rintro _ ⟨rfl⟩
    refine ⟨_, rfl, first_grows (grows_revoke app claimId) h.first, fun _ => ⟨app.epoch, ?_, UInt64.le_refl _⟩,
      by simp [runSection]⟩
    simp [Registry.revoke]
  | present₂ claimId =>
    obtain rfl := Option.some.inj hscript
    rintro _ ⟨rfl⟩
    obtain ⟨p, hpresents, hnext⟩ := present_first h.first drawn.now drawn.n₁ drawn.n₂
    exact ⟨_, hnext, h.first, fun _ => h.marked (.inl rfl), fun _ => ⟨p, rfl, hpresents⟩⟩
  | verify₂ claimId => exact fun _ hnext => by cases hnext
  | ended => cases hscript

/-- The first section finds the claim to follow. -/
theorem reset_underway (drawn : Drawn) (world : Option AppState) :
    ∀ claimId, follows (runSection drawn world .reset).2.1 = some claimId →
      ∃ app, (runSection drawn world .reset).1 = some app ∧
        Underway (runSection drawn world .reset).2.1 claimId app := by
  intro claimId hfollows
  cases world with
  | none => cases hfollows
  | some app =>
    simp only [runSection] at hfollows ⊢
    split at hfollows
    · cases hfollows
    · rename_i c hc
      obtain rfl := Option.some.inj hfollows
      have hissued := seed_issued drawn.draws c (List.mem_of_mem_head? hc)
      exact ⟨_, rfl, ⟨c, hc, rfl, hissued⟩, by simp, by simp⟩

/-- A step that leaves script `i` alone keeps it steady. -/
theorem steady_step (overflowChecks : Bool) {i : Nat} {s : Server} {a : Action} (h : Undisturbed overflowChecks i s a)
    (hs : Steady i s) : Steady i ((serverMachine overflowChecks).step s a).1 := by
  -- another's step: the script stands where it stood, in a world that grew
  have hother : ((serverMachine overflowChecks).step s a).1.scripts i = s.scripts i →
      (∀ app, s.world = some app → follows (s.scripts i) ≠ none →
        ∃ app', ((serverMachine overflowChecks).step s a).1.world = some app' ∧ Grows app app') →
      Steady i ((serverMachine overflowChecks).step s a).1 := by
    intro hscript hworld claimId hfollows
    rw [hscript] at hfollows ⊢
    obtain ⟨app, happ, hunderway⟩ := hs claimId hfollows
    obtain ⟨app', happ', hgrows⟩ := hworld app happ (by simp [hfollows])
    refine ⟨app', happ', underway_grows hgrows hunderway fun hverify p hp => ?_⟩
    have hpresented := h.presented claimId hverify p (by rw [pending, happ']; exact hp)
    rwa [pending, happ] at hpresented
  cases a with
  | handle request =>
    refine hother rfl fun app happ hfollows => ?_
    have hgrows := handle_grows overflowChecks app request fun hadvance hoverflow =>
      h.epoch hfollows (by rw [hadvance]; exact ⟨app, happ, hoverflow⟩)
    rwa [← happ] at hgrows
  | reset draws => exact hother rfl fun app happ hfollows => absurd trivial (h.seeded hfollows)
  | script j drawn =>
    by_cases hj : j = i
    · subst hj
      intro claimId hfollows
      simp only [serverMachine, Function.update_self] at hfollows ⊢
      cases hnow : follows (s.scripts j) with
      | none =>
        cases hscript : s.scripts j with
        | reset =>
          rw [hscript] at hfollows
          exact reset_underway drawn s.world claimId hfollows
        | ended =>
          rw [hscript] at hfollows
          cases hfollows
        | _ =>
          rw [hscript] at hnow
          cases hnow
      | some claimId₀ =>
        obtain ⟨app, happ, hunderway⟩ := hs claimId₀ hnow
        rw [happ] at hfollows ⊢
        exact section_underway drawn hnow hunderway claimId hfollows
    · refine hother (Function.update_of_ne (Ne.symm hj) _ _) fun app happ hfollows => ?_
      have hgrows := section_grows drawn app (s.scripts j) fun hreset =>
        h.seeded hfollows ⟨hj, hreset⟩
      rwa [← happ] at hgrows

/-- The last section of a steady script is red. -/
theorem steady_red (overflowChecks : Bool) {i : Nat} {s : Server} (hs : Steady i s) (a : Action) :
    Red overflowChecks i s a := by
  rintro claimId drawn hscript rfl
  obtain ⟨app, happ, hunderway⟩ := hs claimId (by rw [hscript]; rfl)
  rw [hscript] at hunderway
  obtain ⟨p, hp, hpresents⟩ := hunderway.pending rfl
  obtain ⟨app', detail, hverify⟩ := verify_marked (hunderway.marked (.inr rfl)) hp hpresents drawn.now
  refine ⟨⟨p, by rw [pending, happ]; exact hp, hpresents⟩, detail, ?_⟩
  simp only [serverMachine, hscript, happ, runSection, hverify]
  rfl

/-- In every run that leaves a script alone while it is under way, its last
verdict is of a presentation of its own claim, and is reported as a rejection. -/
theorem walkthrough_red (overflowChecks : Bool) (draws : Draws) (i : Nat) (actions : List Action)
    (h : (serverMachine overflowChecks).All (Undisturbed overflowChecks i) (serverStart draws) actions) :
    (serverMachine overflowChecks).All (Red overflowChecks i) (serverStart draws) actions := by
  have hstart : Steady i (serverStart draws) := fun claimId hfollows => by cases hfollows
  refine (Framework.Machine.all_invariant (Steady i) (fun s a => steady_step overflowChecks) h hstart).mono ?_
  exact fun s a hs => steady_red overflowChecks hs.1 a

/-! ## What disturbs a script -/

section

variable {draws : Draws} {c : Claim} {cs : List Claim} (hclaims : (AppState.seed draws).wallet.claims = c :: cs)
  {purpose : String} {selections : List ClaimSelection} {ttl : Int64} {now : Timestamp} {n₁ n₂ : ByteVec 12}

include hclaims

/-- What a fresh wallet presents is of some claim. -/
theorem fresh_presents {p : Presentation} (hp : (AppState.seed draws).wallet.present draws.employer.did purpose
    selections ttl now n₁ n₂ = .ok p) : p.claims ≠ [] := by
  obtain ⟨hselected, p', hall, hshows⟩ := present_exact (AppState.seed draws).wallet (seed_issued draws)
    draws.employer.did purpose ttl now n₁ n₂
  by_cases hsel : selections = []
  · subst hsel
    obtain rfl := Except.ok.inj (hp.symm.trans hall)
    rw [hclaims] at hshows
    obtain ⟨d, ds, -, -, hds⟩ := List.forall₂_cons_left_iff.mp hshows
    simp [hds]
  · have hlength := ((hselected selections hsel).2.1 p hp).length_eq
    intro hnil
    rw [hnil, List.length_nil] at hlength
    exact hsel (List.length_eq_zero_iff.mp hlength)

/-- A fresh world accepts whatever is presented of its wallet. -/
theorem fresh_accepts (hlaw : Lawful) (hdistinct : Distinct draws) (httl : 0 ≤ ttl.toInt) (hnow : ⟨0⟩ ≤ now)
    {p : Presentation} (hp : (AppState.seed draws).wallet.present draws.employer.did purpose selections ttl now
      n₁ n₂ = .ok p) : ∃ app' detail, Walkthrough.verify now
        (some { AppState.seed draws with lastPresentation := some p }) = (some app', true, detail) := by
  obtain ⟨hdiscloses, hbuild⟩ := present_eq_ok hp
  have hvalid : ClaimsValid (AppState.seed draws).registry.anchor draws.candidate.did now p.claims :=
    fun d hd => ⟨_, seed_valid hlaw hdistinct hnow (hdiscloses d hd)⟩
  obtain ⟨report, hreport, haccepted⟩ := buildPresentation_accepted hlaw draws.employer.did purpose
    (freshNonce_length n₁ n₂) (fresh_presents hclaims hp) (le_refl now) (Timestamp.le_plusSeconds now httl)
    hvalid [] (by simp)
  rw [seed_identity] at hbuild
  rw [← hbuild] at hreport
  obtain ⟨app', accepted, detail, hverify, hiff⟩ := verify_verdict
    { AppState.seed draws with lastPresentation := some p } rfl now
  have htrue : accepted = true := hiff.mpr ⟨report, hreport, haccepted⟩
  exact ⟨app', detail, by rw [hverify, htrue]⟩

/-- A script that goes on in a fresh world has its presentation accepted, or
what is pending there. -/
theorem fresh_goes_on (hlaw : Lawful) (hdistinct : Distinct draws) (httl : 0 ≤ ttl.toInt) (hnow : ⟨0⟩ ≤ now)
    {p : Presentation} (hp : (AppState.seed draws).wallet.present draws.employer.did purpose selections ttl now
      n₁ n₂ = .ok p) (claimId : String) (m₁ m₂ : ByteVec 12) :
    ∃ app' detail, Walkthrough.verify now (Walkthrough.present claimId now m₁ m₂
      (some { AppState.seed draws with lastPresentation := some p })) = (some app', true, detail) := by
  simp only [Walkthrough.present, Option.map_some]
  split
  · rename_i p' hp'
    exact fresh_accepts hclaims hlaw hdistinct (by decide) hnow hp'
  · exact fresh_accepts hclaims hlaw hdistinct httl hnow hp

end

/-- What a fresh world presents of everything it holds. -/
theorem present_everything (overflowChecks : Bool) (draws : Draws) (now : Timestamp) (n₁ n₂ : ByteVec 12) : ∃ p,
    (AppState.seed draws).wallet.present draws.employer.did "application" [] defaultTtl now n₁ n₂ = .ok p ∧
      (handle overflowChecks (some (AppState.seed draws)) (.present "" now n₁ n₂)).1 =
        some { AppState.seed draws with lastPresentation := some p } := by
  obtain ⟨-, p, hp, -⟩ := present_exact (AppState.seed draws).wallet (seed_issued draws) draws.employer.did
    "application" defaultTtl now n₁ n₂
  have hpairs : formPairs "" = .ok [] := rfl
  have hbuilt : (AppState.seed draws).wallet.presentAll (AppState.seed draws).employer.did "application" []
      defaultTtl now n₁ n₂ = .ok p := hp
  refine ⟨p, hp, ?_⟩
  simp only [handle, present, withPairs, hpairs, withLock]
  show some (storeOrWarn (AppState.seed draws) (((AppState.seed draws).wallet.presentAll
    (AppState.seed draws).employer.did "application" [] defaultTtl now n₁ n₂).mapError (·.text))).1 = _
  rw [hbuilt]
  rfl

theorem verify_pending (now : Timestamp) (world : Option AppState) :
    (Walkthrough.verify now world).1.bind (·.lastPresentation) = world.bind (·.lastPresentation) := by
  cases world with
  | none => rfl
  | some app =>
    rw [Walkthrough.verify]
    split <;> rfl

/-- What leaves a script alone: its own sections, and a revocation or a
verification of another session. -/
inductive Beside (i : Nat) : Action → Prop
  | own (drawn : Drawn) : Beside i (.script i drawn)
  | revoke (claimId : String) : Beside i (.handle (.revoke claimId))
  | run (predicates : String) (now : Timestamp) : Beside i (.handle (.run predicates now))

theorem runVerify_pending (app : AppState) (predicates : String) (now : Timestamp) :
    (runVerify app predicates now).1.lastPresentation = app.lastPresentation := by
  unfold runVerify
  split
  · rfl
  split <;> rfl

theorem beside_undisturbed (overflowChecks : Bool) {i : Nat} {s : Server} {a : Action} (h : Beside i a) :
    Undisturbed overflowChecks i s a := by
  cases h with
  | own drawn =>
    refine ⟨fun _ h => h.1 rfl, fun _ h => h, fun claimId hscript p hp => .inl ?_⟩
    rw [← hp]
    simp only [pending, serverMachine, hscript, runSection]
    exact (verify_pending drawn.now s.world).symm
  | revoke claimId =>
    refine ⟨fun _ h => h, fun _ h => h, fun _ _ p hp => .inl (Eq.trans ?_ hp)⟩
    cases hworld : s.world <;> simp [pending, serverMachine, handle, revoke, withLock, hworld]
  | run predicates now =>
    refine ⟨fun _ h => h, fun _ h => h, fun _ _ p hp => .inl (Eq.trans ?_ hp)⟩
    cases hworld : s.world <;>
      simp [pending, serverMachine, handle, run, withLock, hworld, runVerify_pending]

theorem all_beside (overflowChecks : Bool) (i : Nat) {actions : List Action} (h : ∀ a ∈ actions, Beside i a)
    (s : Server) : (serverMachine overflowChecks).All (Undisturbed overflowChecks i) s actions := by
  induction actions generalizing s with
  | nil => trivial
  | cons a rest ih =>
    obtain ⟨ha, hrest⟩ := List.forall_mem_cons.mp h
    exact ⟨beside_undisturbed overflowChecks ha, ih hrest _⟩

section

variable (overflowChecks : Bool) {s : Server} {i : Nat} (drawn : Drawn)

omit drawn in
theorem handle_scripts (request : Request) :
    ((serverMachine overflowChecks).step s (.handle request)).1.scripts = s.scripts := rfl

theorem section_scripts : ((serverMachine overflowChecks).step s (.script i drawn)).1.scripts i =
    (runSection drawn s.world (s.scripts i)).2.1 :=
  Function.update_self ..

/-- A script starts where there is a world, and a claim to follow. -/
theorem script_starts {c : Claim} {cs : List Claim} (hclaims : (AppState.seed drawn.draws).wallet.claims = c :: cs)
    (h : s.world ≠ none ∧ s.scripts i = .reset) :
    ((serverMachine overflowChecks).step s (.script i drawn)).1.world ≠ none ∧
      ((serverMachine overflowChecks).step s (.script i drawn)).1.scripts i = .present c.claimId.asStr := by
  obtain ⟨app, happ⟩ := Option.ne_none_iff_exists'.mp h.1
  simp [serverMachine, runSection, h.2, happ, hclaims]

/-- It goes on in any world, -/
theorem script_next (script script' : Script) (hne : script ≠ .reset)
    (hnext : ∀ world, (runSection drawn world script).2.1 = script')
    (h : s.world ≠ none ∧ s.scripts i = script) :
    ((serverMachine overflowChecks).step s (.script i drawn)).1.world ≠ none ∧
      ((serverMachine overflowChecks).step s (.script i drawn)).1.scripts i = script' := by
  obtain ⟨hworld, rfl⟩ := h
  obtain ⟨app, happ⟩ := Option.ne_none_iff_exists'.mp hworld
  obtain ⟨app', happ', -⟩ := section_grows drawn app _ hne
  refine ⟨?_, (Function.update_self ..).trans (hnext s.world)⟩
  rw [← happ] at happ'
  simp only [serverMachine, happ']
  exact Option.some_ne_none _

/-- and has revoked its claim after four sections. -/
theorem script_revokes {c : Claim} {cs : List Claim} (hclaims : (AppState.seed drawn.draws).wallet.claims = c :: cs)
    (h : s.world ≠ none ∧ s.scripts i = .reset) :
    ((serverMachine overflowChecks).final s (List.replicate 4 (.script i drawn))).world ≠ none ∧
      ((serverMachine overflowChecks).final s (List.replicate 4 (.script i drawn))).scripts i =
        .present₂ c.claimId.asStr := by
  have hstarted := script_starts overflowChecks drawn hclaims h
  have hpresented := script_next overflowChecks drawn (.present c.claimId.asStr)
    (.verify c.claimId.asStr) (by simp) (fun _ => rfl) hstarted
  have hverified := script_next overflowChecks drawn (.verify c.claimId.asStr)
    (.revoke c.claimId.asStr) (by simp) (fun _ => rfl) hpresented
  exact script_next overflowChecks drawn (.revoke c.claimId.asStr) _ (by simp) (fun _ => rfl) hverified

/-- The last sections of a script, with a verification and a revocation of
another session between them. -/
def lastSections (i : Nat) (drawn : Drawn) (claimId : String) : List Action :=
  [.handle (.run "" ⟨1050⟩), .script i drawn, .handle (.revoke claimId), .script i drawn]

theorem lastSections_verify {claimId : String} (h : s.scripts i = .present₂ claimId) :
    ((serverMachine overflowChecks).final s ((lastSections i drawn claimId).take 3)).scripts i = .verify₂ claimId := by
  simp only [lastSections, List.take_succ_cons, List.take_zero, Framework.Machine.final_cons, Framework.Machine.final_nil,
    handle_scripts, section_scripts, h, runSection]

/-- A reset and a presentation of the new wallet, and the script's next
section. -/
def interruption (i : Nat) (drawn : Drawn) (draws : Draws) : List Action :=
  [.reset draws, .handle (.present "" drawn.now drawn.n₁ drawn.n₂), .script i drawn]

/-- After an interruption the last section of a script accepts a presentation
of the new wallet. -/
theorem interruption_accepted (hlaw : Lawful) {draws : Draws} (hdistinct : Distinct draws) {c : Claim}
    {cs : List Claim} (hclaims : (AppState.seed draws).wallet.claims = c :: cs) (hnow : ⟨0⟩ ≤ drawn.now)
    {claimId : String} (h : s.world ≠ none ∧ s.scripts i = .present₂ claimId) :
    ((serverMachine overflowChecks).final s (interruption i drawn draws)).scripts i = .verify₂ claimId ∧
      ∃ detail, ((serverMachine overflowChecks).step
        ((serverMachine overflowChecks).final s (interruption i drawn draws)) (.script i drawn)).2 =
          .events [.act "5 · Re-verified" detail "ok", .done] := by
  obtain ⟨hworld, hscript⟩ := h
  obtain ⟨app, happ⟩ := Option.ne_none_iff_exists'.mp hworld
  obtain ⟨p, hp, hpresented⟩ := present_everything overflowChecks draws drawn.now drawn.n₁ drawn.n₂
  obtain ⟨app', detail, hverify⟩ := fresh_goes_on hclaims hlaw hdistinct (by decide) hnow hp claimId drawn.n₁
    drawn.n₂
  refine ⟨?_, detail, ?_⟩
  · simp only [interruption, Framework.Machine.final_cons, Framework.Machine.final_nil, serverMachine, hscript,
      runSection, Function.update_self]
  · simp only [interruption, Framework.Machine.final_cons, Framework.Machine.final_nil, serverMachine, hscript,
      happ, reset, Option.map_some, hpresented, runSection, Function.update_self, hverify, if_true]

end

end

section

attribute [local instance] telling

/-- What a section draws, from a key on. -/
def momentOf (key : UInt8) : Drawn where
  draws := drawsFrom key
  now := ⟨1000⟩
  n₁ := ⟨List.replicate 12 7, rfl⟩
  n₂ := ⟨List.replicate 12 8, rfl⟩

theorem serverStart_reset (draws : Draws) (n : ℕ) :
    (serverStart draws).world ≠ none ∧ (serverStart draws).scripts n = .reset :=
  ⟨Option.some_ne_none _, rfl⟩

/-- The law for a script with another session beside it, which gets to its last
section. -/
theorem walkthrough_red_beside : ∃ claimId,
    (serverMachine false).All (Red false 0) (serverStart (drawsFrom 10))
        (List.replicate 4 (.script 0 (momentOf 20)) ++ lastSections 0 (momentOf 20) claimId) ∧
      ((serverMachine false).final (serverStart (drawsFrom 10)) (List.replicate 4 (.script 0 (momentOf 20)) ++
        (lastSections 0 (momentOf 20) claimId).take 3)).scripts 0 = .verify₂ claimId := by
  obtain ⟨c, cs, hclaims⟩ := drawsFrom_claims 20
  have hbeside : ∀ a ∈ List.replicate 4 (.script 0 (momentOf 20)) ++ lastSections 0 (momentOf 20) c.claimId.asStr,
      Beside 0 a := by
    simp only [lastSections, List.forall_mem_append, List.forall_mem_cons]
    exact ⟨fun a ha => List.eq_of_mem_replicate ha ▸ .own _, .run _ _, .own _, .revoke _, .own _, List.forall_mem_nil _⟩
  refine ⟨c.claimId.asStr, walkthrough_red false (drawsFrom 10) 0 _ (all_beside false 0 hbeside _), ?_⟩
  have hrevoked := script_revokes false (momentOf 20) hclaims (serverStart_reset (drawsFrom 10) 0)
  rw [Framework.Machine.final_append]
  exact lastSections_verify false (momentOf 20) hrevoked.2

/-- A script that has revoked its claim and is interrupted accepts a
presentation of another wallet. -/
theorem interrupted_accepted : ∃ claimId detail,
    let s := (serverMachine false).final (serverStart (drawsFrom 10))
      (List.replicate 4 (.script 0 (momentOf 20)) ++ interruption 0 (momentOf 20) (drawsFrom 30))
    s.scripts 0 = .verify₂ claimId ∧ ((serverMachine false).step s (.script 0 (momentOf 20))).2 =
      .events [.act "5 · Re-verified" detail "ok", .done] := by
  obtain ⟨c, cs, hclaims⟩ := drawsFrom_claims 20
  obtain ⟨c', cs', hclaims'⟩ := drawsFrom_claims 30
  have hrevoked := script_revokes false (momentOf 20) hclaims (serverStart_reset (drawsFrom 10) 0)
  rw [Framework.Machine.final_append]
  obtain ⟨hscript, detail, hevents⟩ := interruption_accepted false (momentOf 20)
    telling_lawful drawsFrom_distinct hclaims' (by decide) hrevoked
  exact ⟨c.claimId.asStr, detail, hscript, hevents⟩

end

end AionTrust.Proof
