import AionTrust.Proof.PathFinder
import AionTrust.Proof.Revealing

/-!
# What a holder looks up, and what it presents

A wallet reads a claim's fields through its serialised body, which has one entry
that no disclosure has, the tag. So what it finds under a key is what a
disclosure of the key proves just when the key is not the tag's, and the
path-finder reports the first request that no held claim satisfies just when
the tag does not satisfy it instead (`holder_lookup_iff`).

A selection is presented when nothing is wrong with it (`discloseSelection_ok`),
and refused for what is (`discloseSelection_error`), so a list of selections
is presented in order or refused for the first that is wrong (`present_exact`).
-/

namespace AionTrust.Proof

open AionTrust.Impl AionTrust.Spec
open Framework (bind_eq_ok ensure_eq_ok okOr okOr_eq_ok mapError_eq_ok mapM_eq_ok)

section

variable [External]

/-! ## Looking up -/

/-- What a disclosure of one key proves under it. -/
def Discloses₁ (vk : VerifyingKey) (c : Claim) (key : String) (value : Value) : Prop :=
  ∃ d v, c.disclose (.only [key]) = .ok d ∧ d.verify vk = .ok v ∧ v.value key = some value

/-- An issued claim proves under a key what its body has there. -/
theorem discloses₁_iff (hlaw : Lawful) {issuer : Identity} {call : IssueCall} {c : Claim}
    (hrun : call.run issuer = .ok c) {key : String} {value : Value} :
    Discloses₁ issuer.verifyingKey c key value ↔ (key, value) ∈ c.body.fields := by
  have hissued : Issued c := ⟨issuer, call, hrun⟩
  constructor
  · rintro ⟨d, v, hd, hv, hvalue⟩
    obtain rfl := verify_eq_verifiedOf hv
    exact ((shows_reveals (disclose_shows hd) (disclose_reliance hd)).values key (.head _) value).mp hvalue
  · intro hmem
    obtain ⟨d, hd⟩ := (disclose_isOk_iff hissued (s := .only [key])).mpr
      ⟨List.cons_ne_nil _ _, fun k hk => by
        obtain rfl := List.mem_singleton.mp hk
        exact mem_fieldKeys.mpr ⟨value, hmem⟩⟩
    exact ⟨d, _, hd, disclose_verifies hlaw ⟨call, rfl, hrun⟩ hd,
      ((shows_reveals (disclose_shows hd) (disclose_reliance hd)).values key (.head _) value).mpr hmem⟩

/-- The tag is found, and not disclosed. -/
theorem lookup_agrees_iff (hlaw : Lawful) {issuer : Identity} {call : IssueCall} {c : Claim}
    (hrun : call.run issuer = .ok c) (key : String) :
    (∀ value, c.fieldValue key = some value ↔ Discloses₁ issuer.verifyingKey c key value) ↔
      key ≠ claimTypeTag := by
  simp only [discloses₁_iff hlaw hrun, fieldValue_eq_some_iff]
  constructor
  · rintro hagrees rfl
    have hmem := (hagrees (.string c.category)).mp (.inl ⟨rfl, rfl⟩)
    exact field_ne_tag hmem rfl
  · intro hkey value
    exact ⟨fun h => h.resolve_left fun htag => hkey htag.1, .inr⟩

/-! ## The path-finder -/

/-- Some held claim satisfies a request. -/
def HeldMatch (w : Wallet) (req : PredicateRequest) : Prop := ∃ c ∈ w.claims, Matches req c

/-- The first request that no held claim satisfies. -/
def FirstUnmatched (w : Wallet) (requests : List PredicateRequest) (req : PredicateRequest) : Prop :=
  ∃ pre post, requests = pre ++ req :: post ∧ (∀ r ∈ pre, HeldMatch w r) ∧ ¬ HeldMatch w req

/-- A request for the tag that a held claim's category satisfies. -/
def TagMatch (w : Wallet) (req : PredicateRequest) : Prop :=
  req.field = claimTypeTag ∧ ∃ c ∈ w.claims, c.category = req.category ∧
    evaluate req.op (.string c.category) req.bound = .ok true

/-- The path-finder presents, or reports the first request that no held claim
satisfies. -/
structure Reports (w : Wallet) (requests : List PredicateRequest)
    (result : Except WalletError Presentation) : Prop where
  presents : (∀ req ∈ requests, HeldMatch w req) → ∃ p, result = .ok p
  refuses : ∀ req, FirstUnmatched w requests req → result = .error (.unsatisfiablePredicate req.label)

/-- What is disclosed for a request, or why not. -/
def answer (w : Wallet) (req : PredicateRequest) : Except WalletError DisclosedClaim := do
  let claim ← okOr (w.findSatisfying req) (.unsatisfiablePredicate req.label)
  (claim.disclose (.only [req.field])).mapError WalletError.build

theorem satisfy_eq (w : Wallet) (audience : Did) (purpose : String) (requests : List PredicateRequest)
    (ttl : Int64) (now : Timestamp) (n₁ n₂ : ByteVec 12) :
    w.satisfy audience purpose requests ttl now n₁ n₂ = requests.mapM (answer w) >>= fun disclosed =>
      pure (buildPresentation w.identity audience purpose (freshNonce n₁ n₂) now (now.plusSeconds ttl)
        disclosed) := rfl

section

variable {w : Wallet} (hheld : ∀ c ∈ w.claims, Issued c) {req : PredicateRequest}

include hheld

/-- A request that a held claim satisfies is answered. -/
theorem answer_isOk (h : HeldMatch w req) : ∃ d, answer w req = .ok d := by
  obtain ⟨c, hfirst⟩ := exists_firstMatch h
  have hfind := (findSatisfying_first hfirst.1).mpr hfirst
  obtain ⟨hmatch, pre, post, hclaims, -⟩ := hfirst
  obtain ⟨value, hmem, -⟩ := hmatch.value
  obtain ⟨issuer, call, hrun⟩ := hheld c (by rw [hclaims]; simp)
  obtain ⟨d, hd⟩ := issued_discloses ⟨call, rfl, hrun⟩ hmem
  exact ⟨d, by rw [answer, hfind, Framework.okOr_some, Framework.ok_bind, hd]; rfl⟩

omit hheld in
/-- One that none satisfies is reported. -/
theorem answer_unmatched (h : ¬ HeldMatch w req) (htag : ¬ TagMatch w req) :
    answer w req = .error (.unsatisfiablePredicate req.label) := by
  cases hfind : w.findSatisfying req with
  | none => rw [answer, hfind]; rfl
  | some c =>
    obtain ⟨c, hc, hpass⟩ := findSatisfying_isSome_iff.mp ⟨c, hfind⟩
    rcases passes_cases.mp hpass with hmatch | ⟨hfield, hcategory, heval⟩
    · exact absurd ⟨c, hc, hmatch⟩ h
    · exact absurd ⟨hfield, c, hc, hcategory, heval⟩ htag

/-- One that the tag satisfies is answered with a disclosure that cannot be
built. -/
theorem answer_tag (htag : TagMatch w req) : answer w req = .error (.build .malformed) := by
  obtain ⟨hfield, c₀, hc₀, hcategory, heval⟩ := htag
  obtain ⟨c, hfind⟩ := findSatisfying_isSome_iff.mpr
    ⟨c₀, hc₀, passes_cases.mpr (.inr ⟨hfield, hcategory, heval⟩)⟩
  obtain ⟨-, pre, post, hclaims, -⟩ := findSatisfying_eq_some.mp hfind
  have hselects : ¬ Selects c (.only [req.field]) := fun hselects => by
    obtain ⟨value, hmem⟩ := mem_fieldKeys.mp (hselects.known req.field (.head _))
    exact field_ne_tag hmem hfield
  rw [answer, hfind, Framework.okOr_some, Framework.ok_bind,
    issued_disclose_error (hheld c (by rw [hclaims]; simp)) hselects]
  rfl

/-- The path-finder reports the first request that no held claim satisfies
where the tag does not satisfy it. -/
theorem reports_iff (audience : Did) (purpose : String) (requests : List PredicateRequest) (ttl : Int64)
    (now : Timestamp) (n₁ n₂ : ByteVec 12) :
    Reports w requests (w.satisfy audience purpose requests ttl now n₁ n₂) ↔
      ∀ req, FirstUnmatched w requests req → ¬ TagMatch w req := by
  -- the loop stops at the first request that no held claim satisfies
  have hstops : ∀ req e, FirstUnmatched w requests req → answer w req = .error e →
      w.satisfy audience purpose requests ttl now n₁ n₂ = .error e := by
    rintro req e ⟨pre, post, rfl, hpre, -⟩ he
    rw [satisfy_eq, Framework.mapM_eq_error.mpr
      ⟨pre, req, post, rfl, fun r hr => answer_isOk hheld (hpre r hr), he⟩]
    rfl
  constructor
  · intro hreports req hfirst htag
    have hbuild := hstops req _ hfirst (answer_tag hheld htag)
    rw [hreports.refuses req hfirst] at hbuild
    cases hbuild
  · intro hno
    refine ⟨fun hall => ?_, fun req hfirst => ?_⟩
    · obtain ⟨ds, hds⟩ := Framework.mapM_isOk fun req hreq => answer_isOk hheld (hall req hreq)
      exact ⟨_, by rw [satisfy_eq, hds]; rfl⟩
    · have ⟨_, _, _, _, hun⟩ := hfirst
      exact hstops req _ hfirst (answer_unmatched hun (hno req hfirst))

end

/-- What a holder finds in an issued claim under a key is what a disclosure of
the key proves, just when the key is not the tag's; and of a wallet of issued
claims the path-finder presents, or reports the first request that no held claim
satisfies, just when that is not a request for the tag that a held claim of its
category would satisfy. -/
theorem holder_lookup_iff (hlaw : Lawful) :
    (∀ (issuer : Identity) (call : IssueCall) (c : Claim), call.run issuer = .ok c → ∀ key,
      (∀ value, c.fieldValue key = some value ↔ Discloses₁ issuer.verifyingKey c key value) ↔
        key ≠ claimTypeTag) ∧
    ∀ w : Wallet, (∀ c ∈ w.claims, Issued c) → ∀ audience purpose requests ttl now n₁ n₂,
      Reports w requests (w.satisfy audience purpose requests ttl now n₁ n₂) ↔
        ∀ req, FirstUnmatched w requests req → ¬ TagMatch w req :=
  ⟨fun _ _ _ hrun key => lookup_agrees_iff hlaw hrun key,
    fun _ hheld audience purpose requests ttl now n₁ n₂ =>
      reports_iff hheld audience purpose requests ttl now n₁ n₂⟩

end

section

attribute [local instance] lawful

theorem held_single {w : Wallet} {c : Claim} (hclaims : w.claims = [c]) (h : Issued c) :
    ∀ c' ∈ w.claims, Issued c' := by
  rw [hclaims]
  exact List.forall_mem_singleton.mpr h

/-- A wallet that holds one issued skill. -/
theorem one_skill : ∃ (w : Wallet) (c : Claim), w.claims = [c] ∧
    (skillCall ⟨"did:aion:subject"⟩).run (identity 2) = .ok c ∧ c.category = "skill" ∧
      fieldKeys c = ["level", "skill"] := by
  obtain ⟨c, d, hrun, -⟩ := lawful_run (identity 2) (skillCall ⟨"did:aion:subject"⟩)
    (show 2 < 2 ^ 32 by decide)
  have hcategory : c.category = "skill" := by
    rw [Claim.category, (run_parts hrun).2.1]
    rfl
  exact ⟨{ identity := identity 1, claims := [c] }, c, rfl, hrun, hcategory, by
    rw [fieldKeys, hcategory]; rfl⟩

/-- A request for another skill. -/
def otherRequest : PredicateRequest := { skillRequest none with bound := .string "go" }

/-- A held skill answers a request for it, and for no other. -/
theorem skill_heldMatch {w : Wallet} {c : Claim} (hclaims : w.claims = [c])
    (hbody : c.body = (skillCall ⟨"did:aion:subject"⟩).body) :
    HeldMatch w (skillRequest none) ∧ ¬ HeldMatch w otherRequest := by
  refine ⟨⟨c, by simp [hclaims], ⟨by rw [Claim.category, hbody]; rfl, .string "rust", ?_, rfl⟩⟩, ?_⟩
  · rw [hbody]
    exact .head _
  · rintro ⟨c', hc', hmatch⟩
    rw [hclaims] at hc'
    obtain rfl := List.mem_singleton.mp hc'
    obtain ⟨value, hmem, heval⟩ := hmatch.value
    have hskill : (otherRequest.field, .string "rust") ∈ c'.body.fields := by
      rw [hbody]
      exact .head _
    rw [field_unique hmem hskill] at heval
    exact absurd heval (by decide)

/-- The law at a skill: its field is found and disclosed, it is presented for a
request for it, and a request for another is reported. -/
theorem holder_lookup_iff_skill : ∃ (c : Claim) (w : Wallet) (n : ByteVec 12),
    (skillCall ⟨"did:aion:subject"⟩).run (identity 2) = .ok c ∧ w.claims = [c] ∧
      (∀ value, c.fieldValue "skill" = some value ↔
        Discloses₁ (identity 2).verifyingKey c "skill" value) ∧
      (∃ p, w.satisfy ⟨"did:aion:verifier"⟩ "hiring" [skillRequest none] 600 ⟨1000⟩ n n = .ok p) ∧
      w.satisfy ⟨"did:aion:verifier"⟩ "hiring" [skillRequest none, otherRequest] 600 ⟨1000⟩ n n =
        .error (.unsatisfiablePredicate otherRequest.label) := by
  obtain ⟨w, c, hclaims, hrun, -⟩ := one_skill
  obtain ⟨hlookup, hreports⟩ := holder_lookup_iff lawful_lawful
  have hheld := held_single hclaims ⟨identity 2, _, hrun⟩
  obtain ⟨hmatch, hother⟩ := skill_heldMatch hclaims (run_parts hrun).2.1
  -- none of the requests is for the tag
  have hfield : ∀ requests ∈ [[skillRequest none], [skillRequest none, otherRequest]], ∀ req ∈ requests,
      req.field ≠ claimTypeTag := by decide
  have hfound : ∀ requests ∈ [[skillRequest none], [skillRequest none, otherRequest]], ∀ n,
      Reports w requests (w.satisfy ⟨"did:aion:verifier"⟩ "hiring" requests 600 ⟨1000⟩ n n) := by
    refine fun requests hrequests n => (hreports w hheld _ _ _ _ _ _ _).mpr ?_
    rintro req ⟨pre, post, rfl, -⟩ htag
    exact hfield _ hrequests req (by simp) htag.1
  refine ⟨c, w, ⟨List.replicate 12 7, rfl⟩, hrun, hclaims,
    (hlookup (identity 2) _ c hrun "skill").mpr (by decide), (hfound _ (.head _) _).presents ?_,
    (hfound _ (.tail _ (.head _)) _).refuses _ ⟨[skillRequest none], [], rfl, ?_, hother⟩⟩
  · exact List.forall_mem_singleton.mpr hmatch
  · exact List.forall_mem_singleton.mpr hmatch

/-- A request for the tag of a skill. -/
def tagRequest : PredicateRequest where
  category := "skill"
  field := "claim_type"
  op := .eq
  bound := .string "skill"
  scaleVersion := none

/-- A request for the tag of a held skill is answered with an error of the
disclosure. -/
theorem tag_not_disclosed : ∃ (c : Claim) (w : Wallet) (n : ByteVec 12),
    (skillCall ⟨"did:aion:subject"⟩).run (identity 2) = .ok c ∧ w.claims = [c] ∧
      c.fieldValue "claim_type" = some (.string "skill") ∧
      c.disclose (.only ["claim_type"]) = .error .malformed ∧
      w.satisfy ⟨"did:aion:verifier"⟩ "hiring" [tagRequest] 600 ⟨1000⟩ n n =
        .error (.build .malformed) := by
  obtain ⟨w, c, hclaims, hrun, hcategory, hkeys⟩ := one_skill
  have hissued : Issued c := ⟨identity 2, _, hrun⟩
  have hheld := held_single hclaims hissued
  refine ⟨c, w, ⟨List.replicate 12 7, rfl⟩, hrun, hclaims,
    fieldValue_eq_some_iff.mpr (.inl ⟨rfl, by rw [hcategory]⟩),
    issued_disclose_error hissued fun hselects => ?_, ?_⟩
  · exact absurd (hkeys ▸ hselects.known "claim_type" (.head _)) (by decide)
  · rw [satisfy_eq, List.mapM_cons, answer_tag hheld ⟨rfl, c, by simp [hclaims], hcategory, ?_⟩]
    · rfl
    · rw [hcategory]
      rfl

end

section

variable [External]

/-! ## Presenting -/

omit [External] in
theorem selectorFault_eq_none {c : Claim} {s : FieldSelector} :
    selectorFault c s = none ↔ Selects c s := by
  cases s with
  | all => exact iff_of_true rfl (selects_all c)
  | only keys =>
    rw [selectorFault]
    split
    · rename_i hnil
      exact iff_of_false (by simp) fun h => h.nonempty hnil
    · rename_i hne
      rw [Option.map_eq_none_iff, List.find?_eq_none]
      simp only [decide_not, Bool.not_eq_true', decide_eq_false_iff_not, not_not]
      exact ⟨fun h => ⟨hne, h⟩, fun h => h.known⟩

omit [External] in
/-- The wallet's check finds what is wrong with a selector. -/
theorem validateSelector_eq (c : Claim) (s : FieldSelector) :
    validateSelector c s = (selectorFault c s).elim (.ok ()) .error := by
  cases s with
  | all => rfl
  | only keys =>
    have hknown : okOr (ClaimBody.fieldKeysForCategory c.category) (WalletError.build .malformed) =
        .ok (fieldKeys c) := by
      rw [fieldKeys, Claim.category, fieldKeys_eq]
      rfl
    rw [validateSelector, selectorFault, hknown, Framework.ok_bind, Framework.ensure]
    by_cases hnil : keys = []
    · simp only [hnil, ne_eq, not_true, if_false, if_true, Option.elim_some]
      rfl
    · simp only [ne_eq, hnil, not_false_eq_true, if_true, if_false, Framework.ok_bind,
        Framework.forM_ensure]

section

variable {w : Wallet} (hheld : ∀ c ∈ w.claims, Issued c)

include hheld

/-- A selection is disclosed when nothing is wrong with it. -/
theorem discloseSelection_isOk {sel : ClaimSelection} (h : selectionFault w sel = none) :
    ∃ d, w.discloseSelection sel = .ok d := by
  rw [selectionFault] at h
  split at h
  · cases h
  · rename_i c hc
    have hselects := selectorFault_eq_none.mp h
    obtain ⟨d, hd⟩ := (disclose_isOk_iff (hheld c (List.mem_of_find?_eq_some hc))).mpr hselects
    exact ⟨d, by rw [Wallet.discloseSelection, hc, Framework.okOr_some, Framework.ok_bind,
      validateSelector_eq, h, Option.elim_none, Framework.ok_bind, hd]; rfl⟩

omit hheld in
/-- And refused for what is. -/
theorem discloseSelection_error {sel : ClaimSelection} {e : WalletError}
    (h : selectionFault w sel = some e) : w.discloseSelection sel = .error e := by
  rw [selectionFault] at h
  split at h
  · rename_i hnone
    rw [Wallet.discloseSelection, hnone, ← Option.some.inj h]
    rfl
  · rename_i c hc
    rw [Wallet.discloseSelection, hc, Framework.okOr_some, Framework.ok_bind, validateSelector_eq, h]
    rfl

end

theorem selectionFault_eq_none {w : Wallet} {sel : ClaimSelection} : selectionFault w sel = none ↔
    ∃ c, w.claim sel.claimId = some c ∧ Selects c sel.fields := by
  rw [selectionFault]
  split
  · rename_i hnone
    simp [hnone]
  · rename_i c hc
    simp [hc, selectorFault_eq_none]

/-- Nothing wrong with a selection is that it could not be built. -/
theorem selectionFault_ne_build {w : Wallet} {sel : ClaimSelection} (r : ClaimReject) :
    selectionFault w sel ≠ some (.build r) := by
  intro h
  rw [selectionFault] at h
  split at h
  · cases h
  · rename_i c hc
    cases hs : sel.fields with
    | all => rw [hs] at h; cases h
    | only keys =>
      rw [hs, selectorFault] at h
      split at h
      · cases h
      · obtain ⟨key, -, hkey⟩ := Option.map_eq_some_iff.mp h
        cases hkey

/-- What is disclosed for a selection shows the selected fields of the claim. -/
theorem discloseSelection_shows {w : Wallet} {sel : ClaimSelection} {d : DisclosedClaim}
    (h : w.discloseSelection sel = .ok d) :
    ∃ c, w.claim sel.claimId = some c ∧ d.claimId.asStr = sel.claimId ∧
      Shows c (selectedKeys c sel.fields) d := by
  simp only [Wallet.discloseSelection, bind_eq_ok, okOr_eq_ok, mapError_eq_ok] at h
  obtain ⟨c, hc, -, -, hd⟩ := h
  have hshows := disclose_shows hd
  have hid := List.find?_some hc
  exact ⟨c, hc, by rw [hshows.claimId]; exact beq_iff_eq.mp hid, hshows⟩

theorem present_eq (w : Wallet) (audience : Did) (purpose : String) {selections : List ClaimSelection}
    (hne : selections ≠ []) (ttl : Int64) (now : Timestamp) (n₁ n₂ : ByteVec 12) :
    w.present audience purpose selections ttl now n₁ n₂ =
      selections.mapM w.discloseSelection >>= fun disclosed => pure (buildPresentation w.identity
        audience purpose (freshNonce n₁ n₂) now (now.plusSeconds ttl) disclosed) := by
  rw [Wallet.present, if_neg (by simpa using hne)]
  rfl

/-- A wallet of issued claims presents a list of selections just when every one
selects, of a held claim, keys of its category; it then shows these of each, in
order, and otherwise reports what is wrong with the first that does not, never
that a disclosure could not be built. Without selections it shows every claim it
holds in full. -/
theorem present_exact (w : Wallet) (hheld : ∀ c ∈ w.claims, Issued c) (audience : Did)
    (purpose : String) (ttl : Int64) (now : Timestamp) (n₁ n₂ : ByteVec 12) :
    (∀ selections ≠ [],
      ((∃ p, w.present audience purpose selections ttl now n₁ n₂ = .ok p) ↔
        ∀ sel ∈ selections, ∃ c, w.claim sel.claimId = some c ∧ Selects c sel.fields) ∧
      (∀ p, w.present audience purpose selections ttl now n₁ n₂ = .ok p →
        List.Forall₂ (fun sel d => ∃ c, w.claim sel.claimId = some c ∧
          d.claimId.asStr = sel.claimId ∧ Shows c (selectedKeys c sel.fields) d) selections p.claims) ∧
      ∀ e, w.present audience purpose selections ttl now n₁ n₂ = .error e →
        selections.findSome? (selectionFault w) = some e ∧ ∀ r, e ≠ .build r) ∧
    ∃ p, w.present audience purpose [] ttl now n₁ n₂ = .ok p ∧
      List.Forall₂ (fun c d => Shows c (fieldKeys c) d) w.claims p.claims := by
  refine ⟨fun selections hne => ?_, ?_⟩
  · have hfault := Framework.mapM_eq_fault w.discloseSelection selections
      (fun _ _ h => discloseSelection_isOk hheld h) fun _ _ _ h => discloseSelection_error h
    have hnone : selections.findSome? (selectionFault w) = none ↔
        ∀ sel ∈ selections, ∃ c, w.claim sel.claimId = some c ∧ Selects c sel.fields := by
      simp only [List.findSome?_eq_none_iff, selectionFault_eq_none]
    rw [present_eq w audience purpose hne, ← hnone]
    cases hfirst : selections.findSome? (selectionFault w) with
    | none =>
      rw [hfirst] at hfault
      obtain ⟨ds, hds⟩ := hfault
      rw [hds]
      refine ⟨iff_of_true ⟨_, rfl⟩ rfl, fun p hp => ?_, fun e he => by cases he⟩
      obtain rfl := Except.ok.inj hp
      exact (mapM_eq_ok.mp hds).imp fun _ _ h => discloseSelection_shows h
    | some e =>
      rw [hfirst] at hfault
      simp only [Option.elim_some] at hfault
      rw [hfault]
      refine ⟨iff_of_false (by rintro ⟨p, hp⟩; cases hp) (by simp), fun p hp => (by cases hp),
        fun e' he' => ?_⟩
      obtain rfl := Except.error.inj he'
      obtain ⟨sel, -, hsel⟩ := List.exists_of_findSome?_eq_some hfirst
      exact ⟨rfl, fun r hr => selectionFault_ne_build r (hr ▸ hsel)⟩
  · have hshown : ∀ c ∈ w.claims, ∃ d, (c.disclose .all).mapError WalletError.build = .ok d ∧
        Shows c (fieldKeys c) d := fun c hc => by
      obtain ⟨d, hd⟩ := (disclose_isOk_iff (hheld c hc)).mpr (selects_all c)
      exact ⟨d, mapError_eq_ok.mpr hd, disclose_shows hd⟩
    obtain ⟨ds, hds, hshows⟩ := Framework.mapM_forall₂ hshown
    exact ⟨_, present_all hds .., hshows⟩
end

section

attribute [local instance] lawful

/-- The law at a skill, of which one field is selected. -/
theorem present_exact_skill : ∃ (w : Wallet) (c : Claim) (n : ByteVec 12) (p : Presentation),
    w.claims = [c] ∧ w.present ⟨"did:aion:verifier"⟩ "hiring"
      [{ claimId := c.claimId.asStr, fields := .only ["skill"] }] 600 ⟨1000⟩ n n = .ok p ∧
      ∃ d, p.claims = [d] ∧ d.fields.map (·.key) = ["skill"] := by
  obtain ⟨w, c, hclaims, hrun, -, hkeys⟩ := one_skill
  have hheld := held_single hclaims ⟨identity 2, _, hrun⟩
  have hfind : w.claim c.claimId.asStr = some c := by simp [Wallet.claim, hclaims]
  obtain ⟨hiff, hshows, -⟩ := (present_exact w hheld ⟨"did:aion:verifier"⟩ "hiring" 600 ⟨1000⟩
    ⟨List.replicate 12 7, rfl⟩ ⟨List.replicate 12 7, rfl⟩).1
      [{ claimId := c.claimId.asStr, fields := .only ["skill"] }] (List.cons_ne_nil _ _)
  obtain ⟨p, hp⟩ := hiff.mpr fun sel hsel => by
    obtain rfl := List.mem_singleton.mp hsel
    exact ⟨c, hfind, by simp [selectedKeys], by simp [selectedKeys, hkeys]⟩
  obtain ⟨d, _, ⟨_, -, -, hd⟩, hnil, hds⟩ := List.forall₂_cons_left_iff.mp (hshows p hp)
  exact ⟨w, c, _, p, hclaims, hp, d, by rw [hds, List.forall₂_nil_left_iff.mp hnil], hd.shown⟩

end

end AionTrust.Proof
