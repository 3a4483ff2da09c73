import AionTrust.Proof.Honest
import AionTrust.Proof.Unforgeable

/-!
# The path-finder

For each request the wallet discloses one field of the first claim it holds
that matches the request (`satisfy_eq_ok`, `findSatisfying_eq_some`). It reads
the category, the field and the comparison as the verifier does, and neither
the scale a request pins nor a claim's window and subject. So what it presents
is accepted, where the held claims are good, just when every pinned scale is
that of its category (`satisfied_accepted_iff`). It presents wherever each
request has a match, and what it presents for a request is usable just when the
first match of the request is (`path_finder_usable`).
-/

namespace AionTrust.Proof

open AionTrust.Impl AionTrust.Spec
open Framework (Bytes bind_eq_ok ensure_eq_ok okOr_eq_ok mapError_eq_ok pure_eq_ok mapM_eq_ok)

/-- The schema of a category. -/
def scaleOf (category : String) : String := "aion-trust/" ++ category ++ "/v1"

theorem schemaId_eq (body : ClaimBody) : body.schemaId = scaleOf body.category := by
  cases body <;> rfl

/-- A field of a claim satisfies a request. -/
structure Matches (req : PredicateRequest) (c : Claim) : Prop where
  category : c.category = req.category
  value : ∃ value, (req.field, value) ∈ c.body.fields ∧ evaluate req.op value req.bound = .ok true

section

variable [External]

/-! ## The search -/

/-- What the search asks of a claim: its value at the field may be the tag's. -/
def Passes (req : PredicateRequest) (c : Claim) : Prop :=
  c.category = req.category ∧ ∃ value, c.fieldValue req.field = some value ∧
    evaluate req.op value req.bound = .ok true

omit [External] in
/-- What passes matches, or the tag does. -/
theorem passes_cases {req : PredicateRequest} {c : Claim} : Passes req c ↔ Matches req c ∨
    (req.field = claimTypeTag ∧ c.category = req.category ∧
      evaluate req.op (.string c.category) req.bound = .ok true) := by
  constructor
  · rintro ⟨hcategory, value, hvalue, heval⟩
    rcases fieldValue_eq_some_iff.mp hvalue with ⟨htag, rfl⟩ | hmem
    · exact .inr ⟨htag, hcategory, heval⟩
    · exact .inl ⟨hcategory, value, hmem, heval⟩
  · rintro (⟨hcategory, value, hmem, heval⟩ | ⟨htag, hcategory, heval⟩)
    · exact ⟨hcategory, value, fieldValue_eq_some_iff.mpr (.inr hmem), heval⟩
    · exact ⟨hcategory, _, fieldValue_eq_some_iff.mpr (.inl ⟨htag, rfl⟩), heval⟩

omit [External] in
theorem passes_iff {req : PredicateRequest} {c : Claim} (hfield : req.field ≠ claimTypeTag) :
    Passes req c ↔ Matches req c :=
  passes_cases.trans (or_iff_left fun htag => hfield htag.1)

/-- The search asks whether a claim passes. -/
theorem findSatisfying_eq (w : Wallet) (req : PredicateRequest) [DecidablePred (Passes req)] :
    w.findSatisfying req = w.claims.find? fun c => decide (Passes req c) := by
  refine congrArg (w.claims.find? ·) (funext fun c => ?_)
  rw [eq_comm, Bool.eq_iff_iff, decide_eq_true_iff, Passes, Bool.and_eq_true, beq_iff_eq]
  refine and_congr_right fun _ => ?_
  split
  · rename_i v hv
    cases h : evaluate req.op v req.bound <;> simp [hv, h]
  · rename_i hv
    simp [hv]

/-- The search finds the first held claim it asks for. -/
theorem findSatisfying_eq_some {w : Wallet} {req : PredicateRequest} {c : Claim} :
    w.findSatisfying req = some c ↔ Passes req c ∧
      ∃ pre post, w.claims = pre ++ c :: post ∧ ∀ c' ∈ pre, ¬ Passes req c' := by
  classical
  rw [findSatisfying_eq, List.find?_eq_some_iff_append]
  simp only [decide_eq_true_eq, Bool.not_eq_true', decide_eq_false_iff_not]

/-- It finds one when there is one. -/
theorem findSatisfying_isSome_iff {w : Wallet} {req : PredicateRequest} :
    (∃ c, w.findSatisfying req = some c) ↔ ∃ c ∈ w.claims, Passes req c := by
  classical
  rw [findSatisfying_eq, ← Option.isSome_iff_exists, List.find?_isSome]
  simp only [decide_eq_true_eq]

/-! ## What is disclosed -/

/-- One disclosed field is the claim's under that key. -/
theorem disclose_only {c : Claim} {field : String} {d : DisclosedClaim}
    (hd : c.disclose (.only [field]) = .ok d) :
    ∃ f, d.fields = [f] ∧ f.key = field ∧ (field, f.value) ∈ c.body.fields := by
  obtain ⟨m, leaves, relies, indices, hof, hsel, hfs, -, -⟩ := disclose_eq_ok.mp hd
  simp only [selectedIndices, bind_eq_ok, ensure_eq_ok, mapM_eq_ok, okOr_eq_ok,
    List.forall₂_cons_left_iff, List.forall₂_nil_left_iff] at hsel
  obtain ⟨-, -, i, _, hi, rfl, rfl⟩ := hsel
  obtain ⟨f, _, hf, hnil, hfields⟩ := List.forall₂_cons_left_iff.mp hfs
  rw [List.forall₂_nil_left_iff.mp hnil] at hfields
  obtain ⟨l, index, hl, -, rfl⟩ := revealField_eq_ok.mp hf
  obtain ⟨hlt, hkey, -⟩ := List.findIdx?_eq_some_iff_getElem.mp hi
  obtain rfl := Option.some.inj ((List.getElem?_eq_getElem hlt).symm.trans hl)
  have hkey : leaves[i].key = field := by simpa using hkey
  refine ⟨_, hfields, hkey, ?_⟩
  obtain ⟨_, _, hleaf⟩ := bodyLeaves_getElem? hof.body hl
  rw [← hkey]
  exact mem_sortedFields.mp (List.mem_of_getElem? hleaf.field)

/-- What is disclosed for a request. -/
def Answers (w : Wallet) (req : PredicateRequest) (d : DisclosedClaim) : Prop :=
  ∃ c, w.findSatisfying req = some c ∧ c.disclose (.only [req.field]) = .ok d

theorem satisfy_eq_ok {w : Wallet} {audience : Did} {purpose : String}
    {requests : List PredicateRequest} {ttl : Int64} {now : Timestamp} {n₁ n₂ : ByteVec 12}
    {p : Presentation} : w.satisfy audience purpose requests ttl now n₁ n₂ = .ok p ↔
      ∃ ds, List.Forall₂ (Answers w) requests ds ∧ p = buildPresentation w.identity audience purpose
        (freshNonce n₁ n₂) now (now.plusSeconds ttl) ds := by
  simp only [Wallet.satisfy, bind_eq_ok, pure_eq_ok, mapM_eq_ok, okOr_eq_ok, mapError_eq_ok,
    eq_comm (b := p)]
  rfl

/-- The answer to a request satisfies its comparison, in its category. -/
theorem answer_satisfies {w : Wallet} {req : PredicateRequest} {d : DisclosedClaim}
    (h : Answers w req d) : ∃ c ∈ w.claims, c.disclose (.only [req.field]) = .ok d ∧
      Matches req c ∧ d.category = req.category ∧ d.schemaId = scaleOf req.category ∧
      ∃ value, (verifiedOf d).value req.field = some value ∧
        evaluate req.op value req.bound = .ok true := by
  obtain ⟨c, hfind, hd⟩ := h
  obtain ⟨⟨hcategory, value, hvalue, heval⟩, pre, post, hclaims, -⟩ := findSatisfying_eq_some.mp hfind
  obtain ⟨f, hfields, hkey, hmem⟩ := disclose_only hd
  have htag : req.field ≠ claimTypeTag := field_ne_tag hmem
  have hunique : value = f.value := by
    rw [fieldValue_eq_some_iff.mpr (.inr hmem)] at hvalue
    exact (Option.some.inj hvalue).symm
  have hdcat : d.category = req.category := by
    rw [disclose_eq hd]
    exact hcategory
  have hschema : d.schemaId = scaleOf req.category := by
    rw [disclose_eq hd, ← hcategory]
    exact schemaId_eq c.body
  refine ⟨c, by rw [hclaims]; simp, hd, (passes_iff htag).mp ⟨hcategory, value, hvalue, heval⟩, hdcat,
    hschema, value, ?_, heval⟩
  rw [verifiedOf_value_iff (by rw [hfields]; simp)]
  exact ⟨f, by rw [hfields]; simp, hkey, hunique.symm⟩

/-! ## Wallet and verifier -/

/-- What the path-finder presents is accepted only where every scale a request
pins is the schema of its category. -/
theorem accepted_scales {w : Wallet} {audience : Did} {purpose : String}
    {requests : List PredicateRequest} {ttl : Int64} {now : Timestamp} {n₁ n₂ : ByteVec 12}
    {p : Presentation} (hp : w.satisfy audience purpose requests ttl now n₁ n₂ = .ok p) {t : Timestamp}
    {anchor : TrustAnchor} {report : VerificationReport}
    (hreport : verifyPresentationWithPredicates p audience t anchor false requests = .ok report)
    (hacc : report.accepted = true) :
    ∀ req ∈ requests, ∀ scale, req.scaleVersion = some scale → scale = scaleOf req.category := by
  intro req hreq scale hscale
  obtain ⟨ds, hds, rfl⟩ := satisfy_eq_ok.mp hp
  obtain ⟨-, -, hpreds⟩ := (report_accepted_iff hreport).mp hacc
  obtain ⟨d, hd, v, -, hcategory, hscales, -⟩ := hpreds req hreq
  obtain ⟨req', -, hanswer⟩ := Framework.exists_left hds hd
  obtain ⟨_, _, _, _, hcategory', hschema, -⟩ := answer_satisfies hanswer
  rw [← hscales scale hscale, hschema, ← hcategory', hcategory]

/-- What the path-finder presents of issued claims is accepted, within the
window, under every anchor that finds the disclosed claims good, just when every
scale a request pins is the schema of its category. -/
theorem satisfied_accepted_iff (hlaw : Lawful) (w : Wallet) (issuer : Claim → Identity)
    (hheld : ∀ c ∈ w.claims, IssuedBy (issuer c) w.did c) (audience : Did) (purpose : String)
    (requests : List PredicateRequest) (hne : requests ≠ []) (ttl : Int64) (now : Timestamp)
    (n₁ n₂ : ByteVec 12) (p : Presentation)
    (hp : w.satisfy audience purpose requests ttl now n₁ n₂ = .ok p) (t : Timestamp) (hfrom : now ≤ t)
    (huntil : t ≤ now.plusSeconds ttl) (anchor : TrustAnchor)
    (hgood : ∀ d ∈ p.claims, ∀ c ∈ w.claims, ∀ s, c.disclose s = .ok d →
      GoodAt anchor t (issuer c).verifyingKey d) :
    (∃ report, verifyPresentationWithPredicates p audience t anchor false requests = .ok report ∧
        report.accepted = true) ↔
      ∀ req ∈ requests, ∀ scale, req.scaleVersion = some scale → scale = scaleOf req.category := by
  obtain ⟨ds, hds, rfl⟩ := satisfy_eq_ok.mp hp
  have hvalid : ∀ d ∈ ds, ClaimValid anchor w.identity.did t d (verifiedOf d) := by
    intro d hd
    obtain ⟨req, -, hanswer⟩ := Framework.exists_left hds hd
    obtain ⟨c, hc, hdisc, -⟩ := answer_satisfies hanswer
    exact disclose_valid hlaw (hheld c hc) hdisc (hgood d hd c hc _ hdisc)
  constructor
  · rintro ⟨report, hreport, hacc⟩
    exact accepted_scales hp hreport hacc
  · intro hscales
    refine buildPresentation_accepted hlaw audience purpose (freshNonce_length n₁ n₂) ?_ hfrom huntil
      (fun d hd => ⟨_, hvalid d hd⟩) requests fun req hreq => ?_
    · rintro rfl
      exact hne (List.forall₂_nil_right_iff.mp hds)
    · obtain ⟨d, hd, hanswer⟩ := Framework.exists_right hds hreq
      obtain ⟨_, _, _, _, hcategory, hschema, hvalue⟩ := answer_satisfies hanswer
      refine ⟨d, hd, _, hvalid d hd, hcategory, fun scale hscale => ?_, hvalue⟩
      rw [hschema, hscales req hreq scale hscale]

/-! ## Usable claims -/

/-- A claim issued to the wallet's holder and active. -/
structure Usable (w : Wallet) (now : Timestamp) (c : Claim) : Prop where
  issued : ∃ issuer, IssuedBy issuer w.did c
  active : c.validity.activeAt now = true

/-- An issued claim discloses a field it has. -/
theorem issued_discloses {issuer : Identity} {subject : Did} {c : Claim}
    (h : IssuedBy issuer subject c) {field : String} {value : Value}
    (hmem : (field, value) ∈ c.body.fields) : ∃ d, c.disclose (.only [field]) = .ok d := by
  obtain ⟨call, -, hrun⟩ := h
  refine disclose_only_isOk hrun (List.cons_ne_nil _ _) fun key hkey => ?_
  obtain rfl := List.mem_singleton.mp hkey
  exact List.mem_map.mpr ⟨_, mem_sortedFields.mpr hmem, rfl⟩

/-- The first held claim that matches a request. -/
def FirstMatch (w : Wallet) (req : PredicateRequest) (c : Claim) : Prop :=
  Matches req c ∧ ∃ pre post, w.claims = pre ++ c :: post ∧ ∀ c' ∈ pre, ¬ Matches req c'

/-- Where a held claim matches, the search finds the first. -/
theorem findSatisfying_first {w : Wallet} {req : PredicateRequest} {held : Claim}
    (hmatch : Matches req held) {c : Claim} : w.findSatisfying req = some c ↔ FirstMatch w req c := by
  obtain ⟨value, hmem, -⟩ := hmatch.value
  have htag : req.field ≠ claimTypeTag := field_ne_tag hmem
  simp only [findSatisfying_eq_some, passes_iff htag, FirstMatch]

theorem exists_firstMatch {w : Wallet} {req : PredicateRequest}
    (hheld : ∃ c ∈ w.claims, Matches req c) : ∃ c, FirstMatch w req c := by
  obtain ⟨held, hmem, hmatch⟩ := hheld
  obtain ⟨c, hfind⟩ := findSatisfying_isSome_iff.mpr ⟨held, hmem, passes_cases.mpr (.inl hmatch)⟩
  exact ⟨c, (findSatisfying_first hmatch).mp hfind⟩

/-- A disclosure of an issued claim is to the holder and active just when the
claim is usable. -/
theorem disclosed_usable_iff {w : Wallet} {now : Timestamp} {issuer : Identity} {subject : Did} {c : Claim}
    (h : IssuedBy issuer subject c) {s : FieldSelector} {d : DisclosedClaim} (hd : c.disclose s = .ok d) :
    d.subjectId = w.did ∧ d.validity.activeAt now = true ↔ Usable w now c := by
  have hvalidity : d.validity = c.validity := by rw [disclose_eq hd]; rfl
  rw [disclose_subject h hd, hvalidity]
  constructor
  · rintro ⟨rfl, hactive⟩
    exact ⟨⟨issuer, h⟩, hactive⟩
  · rintro ⟨⟨issuer', h'⟩, hactive⟩
    exact ⟨(disclose_subject h hd).symm.trans (disclose_subject h' hd), hactive⟩

/-- Where each request has a match among the held claims, and the first is an
issued claim, of whomever to whomever, the path-finder presents, for each
request, that match; and what it discloses is to the holder and active just
when the match is usable. -/
theorem path_finder_usable (w : Wallet) (audience : Did) (purpose : String)
    (requests : List PredicateRequest) (ttl : Int64) (now : Timestamp) (n₁ n₂ : ByteVec 12)
    (hheld : ∀ req ∈ requests, ∃ c ∈ w.claims, Matches req c)
    (hissued : ∀ req ∈ requests, ∀ c, FirstMatch w req c → ∃ issuer subject, IssuedBy issuer subject c) :
    ∃ p, w.satisfy audience purpose requests ttl now n₁ n₂ = .ok p ∧
      List.Forall₂ (fun req d => ∃ c, FirstMatch w req c ∧ c.disclose (.only [req.field]) = .ok d ∧
        (d.subjectId = w.did ∧ d.validity.activeAt now = true ↔ Usable w now c)) requests p.claims := by
  have hanswer : ∀ req ∈ requests, ∃ d, Answers w req d ∧ ∃ c, FirstMatch w req c ∧
      c.disclose (.only [req.field]) = .ok d ∧
      (d.subjectId = w.did ∧ d.validity.activeAt now = true ↔ Usable w now c) := by
    intro req hreq
    obtain ⟨c, hfirst⟩ := exists_firstMatch (hheld req hreq)
    obtain ⟨issuer, subject, h⟩ := hissued req hreq c hfirst
    obtain ⟨value, hmem, -⟩ := hfirst.1.value
    obtain ⟨d, hd⟩ := issued_discloses h hmem
    exact ⟨d, ⟨c, (findSatisfying_first hfirst.1).mpr hfirst, hd⟩, c, hfirst, hd,
      disclosed_usable_iff h hd⟩
  obtain ⟨ds, hds⟩ := Framework.exists_forall₂ hanswer
  exact ⟨_, satisfy_eq_ok.mpr ⟨ds, hds.imp fun _ _ h => h.1, rfl⟩, hds.imp fun _ _ h => h.2⟩

end

/-! ## A wallet of skills -/

/-- A skill, until some time or open. -/
def skillUntil (subject : Did) (untilTime : Option Timestamp) : IssueCall :=
  { skillCall subject with validity := { fromTime := ⟨0⟩, untilTime } }

theorem skill_matches (subject : Did) (untilTime : Option Timestamp) (scaleVersion : Option String)
    {c : Claim} (h : c.body = (skillUntil subject untilTime).body) :
    Matches (skillRequest scaleVersion) c where
  category := by rw [Claim.category, h]; rfl
  value := ⟨.string "rust", by rw [h]; exact .head _, rfl⟩

section

attribute [local instance] lawful

/-- A wallet that holds two skills, of one issuer, presents the first. -/
theorem skill_wallet (scaleVersion : Option String) (untilTime untilTime' : Option Timestamp) :
    ∃ (w : Wallet) (c c' : Claim) (p : Presentation) (n : ByteVec 12), w.claims = [c, c'] ∧
      (skillUntil w.did untilTime).run (identity 2) = .ok c ∧
      (skillUntil w.did untilTime').run (identity 2) = .ok c' ∧
      w.satisfy ⟨"did:aion:verifier"⟩ "hiring" [skillRequest scaleVersion] 600 ⟨1000⟩ n n = .ok p ∧
      p.claims ≠ [] ∧ ∀ d ∈ p.claims, d.validity = { fromTime := ⟨0⟩, untilTime } := by
  obtain ⟨c, _, hrun, -⟩ := lawful_run (identity 2) (skillUntil (identity 1).did untilTime)
    (show 2 < 2 ^ 32 by decide)
  obtain ⟨c', _, hrun', -⟩ := lawful_run (identity 2) (skillUntil (identity 1).did untilTime')
    (show 2 < 2 ^ 32 by decide)
  have hc : c.body = (skillUntil (identity 1).did untilTime).body ∧
      c.validity = { fromTime := ⟨0⟩, untilTime } := (run_parts hrun).2
  have hmatch := skill_matches _ _ scaleVersion hc.1
  obtain ⟨value, hmem, -⟩ := hmatch.value
  obtain ⟨d, hd⟩ := issued_discloses ⟨_, rfl, hrun⟩ hmem
  let w : Wallet := { identity := identity 1, claims := [c, c'] }
  have hfield : (skillRequest scaleVersion).field ≠ claimTypeTag := (by decide : "skill" ≠ "claim_type")
  have hfind : w.findSatisfying (skillRequest scaleVersion) = some c :=
    findSatisfying_eq_some.mpr ⟨(passes_iff hfield).mpr hmatch, [], [c'], rfl, by simp⟩
  refine ⟨w, c, c', _, ⟨List.replicate 12 7, rfl⟩, rfl, hrun, hrun',
    satisfy_eq_ok.mpr ⟨[d], .cons ⟨c, hfind, hd⟩ .nil, rfl⟩, List.cons_ne_nil _ _, fun d' hd' => ?_⟩
  obtain rfl := List.mem_singleton.mp hd'
  rw [disclose_eq hd]
  exact hc.2

/-- Its claims are issued. -/
theorem skill_wallet_held {w : Wallet} {c c' : Claim} {untilTime untilTime' : Option Timestamp}
    (hclaims : w.claims = [c, c']) (hrun : (skillUntil w.did untilTime).run (identity 2) = .ok c)
    (hrun' : (skillUntil w.did untilTime').run (identity 2) = .ok c') :
    ∀ held ∈ w.claims, IssuedBy (identity 2) w.did held := by
  intro held hheld
  rw [hclaims] at hheld
  simp only [List.mem_cons, List.not_mem_nil, or_false] at hheld
  rcases hheld with rfl | rfl
  · exact ⟨_, rfl, hrun⟩
  · exact ⟨_, rfl, hrun'⟩

/-- The law at a request that pins the scale of skills, whose answer is accepted. -/
theorem satisfied_accepted_iff_skill : ∃ (w : Wallet) (p : Presentation) (n : ByteVec 12)
    (anchor : TrustAnchor), w.satisfy ⟨"did:aion:verifier"⟩ "hiring"
        [skillRequest (some "aion-trust/skill/v1")] 600 ⟨1000⟩ n n = .ok p ∧
      ∃ report, verifyPresentationWithPredicates p ⟨"did:aion:verifier"⟩ ⟨1200⟩ anchor false
        [skillRequest (some "aion-trust/skill/v1")] = .ok report ∧ report.accepted = true := by
  obtain ⟨w, c, c', p, n, hclaims, hrun, hrun', hp, -, hvalidity⟩ :=
    skill_wallet (some "aion-trust/skill/v1") none none
  refine ⟨w, p, n, trusting (identity 2), hp, (satisfied_accepted_iff lawful_lawful w (fun _ => identity 2)
    (skill_wallet_held hclaims hrun hrun') _ _ _ (List.cons_ne_nil _ _) _ _ _ _ _ hp _ (by decide)
    (by decide) _ fun d hd _ _ _ _ => trusting_good _ ?_).mpr (List.forall_mem_singleton.mpr ?_)⟩
  · rw [hvalidity d hd]
    decide
  · intro scale hscale
    obtain rfl := Option.some.inj hscale
    decide

/-- A request that pins another scale is answered with an issued claim that is
good in every way, and the verifier refuses it. -/
theorem pinned_scale_refused : ∃ (w : Wallet) (p : Presentation) (n : ByteVec 12) (anchor : TrustAnchor),
    (∀ c ∈ w.claims, IssuedBy (identity 2) w.did c) ∧
    w.satisfy ⟨"did:aion:verifier"⟩ "hiring" [skillRequest (some "aion-trust/skill/v2")] 600 ⟨1000⟩
      n n = .ok p ∧
    (∀ d ∈ p.claims, GoodAt anchor ⟨1200⟩ (identity 2).verifyingKey d) ∧
    ¬ ∃ report, verifyPresentationWithPredicates p ⟨"did:aion:verifier"⟩ ⟨1200⟩ anchor false
      [skillRequest (some "aion-trust/skill/v2")] = .ok report ∧ report.accepted = true := by
  obtain ⟨w, c, c', p, n, hclaims, hrun, hrun', hp, -, hvalidity⟩ :=
    skill_wallet (some "aion-trust/skill/v2") none none
  refine ⟨w, p, n, trusting (identity 2), skill_wallet_held hclaims hrun hrun', hp,
    fun d hd => trusting_good _ (by rw [hvalidity d hd]; decide), ?_⟩
  rintro ⟨report, hreport, hacc⟩
  have hscale := accepted_scales hp hreport hacc _ (List.mem_singleton.mpr rfl) _ rfl
  exact absurd hscale (by decide)

/-- The law at a skill held before an expired one, which is usable, and at one
held after it, where what is presented is not. -/
theorem path_finder_usable_skill :
    (∃ (w : Wallet) (n : ByteVec 12) (p : Presentation) (d : DisclosedClaim), p.claims = [d] ∧
      w.satisfy ⟨"did:aion:verifier"⟩ "hiring" [skillRequest none] 600 ⟨1000⟩ n n = .ok p ∧
      d.subjectId = w.did ∧ d.validity.activeAt ⟨1000⟩ = true) ∧
    ∃ (w : Wallet) (n : ByteVec 12) (p : Presentation) (d : DisclosedClaim), p.claims = [d] ∧
      w.satisfy ⟨"did:aion:verifier"⟩ "hiring" [skillRequest none] 600 ⟨1000⟩ n n = .ok p ∧
      ¬ (d.subjectId = w.did ∧ d.validity.activeAt ⟨1000⟩ = true) := by
  have hlaw : ∀ untilTime untilTime' : Option Timestamp, ∃ (w : Wallet) (c : Claim) (n : ByteVec 12) (p : Presentation)
      (d : DisclosedClaim), (skillUntil w.did untilTime).run (identity 2) = .ok c ∧ p.claims = [d] ∧
      w.satisfy ⟨"did:aion:verifier"⟩ "hiring" [skillRequest none] 600 ⟨1000⟩ n n = .ok p ∧
      (d.subjectId = w.did ∧ d.validity.activeAt ⟨1000⟩ = true ↔ Usable w ⟨1000⟩ c) := by
    intro untilTime untilTime'
    obtain ⟨w, c, c', _, n, hclaims, hrun, hrun', -⟩ := skill_wallet none untilTime untilTime'
    have hmatch := skill_matches _ _ none (run_parts hrun).2.1
    have hfirst : FirstMatch w (skillRequest none) c := ⟨hmatch, [], [c'], hclaims, by simp⟩
    obtain ⟨p, hp, hclaims'⟩ := path_finder_usable w ⟨"did:aion:verifier"⟩ "hiring" [skillRequest none]
      600 ⟨1000⟩ n n (fun req hreq => ⟨c, by simp [hclaims], List.mem_singleton.mp hreq ▸ hmatch⟩)
      fun req hreq c₁ hc₁ => ⟨_, _, skill_wallet_held hclaims hrun hrun' c₁ (by
        obtain ⟨-, pre, post, hsplit, -⟩ := hc₁
        rw [hsplit]
        simp)⟩
    obtain ⟨d, _, ⟨c₁, hc₁, -, hiff⟩, hnil, hp'⟩ := List.forall₂_cons_left_iff.mp hclaims'
    rw [List.forall₂_nil_left_iff.mp hnil] at hp'
    -- the first match is one
    obtain rfl := Option.some.inj (((findSatisfying_first hmatch).mpr hfirst).symm.trans
      ((findSatisfying_first hmatch).mpr hc₁))
    exact ⟨w, c, n, p, d, hrun, hp', hp, hiff⟩
  obtain ⟨w, c, n, p, d, hrun, hclaims, hp, hiff⟩ := hlaw none (some ⟨500⟩)
  obtain ⟨w', c', n', p', d', hrun', hclaims', hp', hiff'⟩ := hlaw (some ⟨500⟩) none
  refine ⟨⟨w, n, p, d, hclaims, hp, hiff.mpr ⟨⟨_, _, rfl, hrun⟩, ?_⟩⟩, w', n', p', d', hclaims', hp',
    fun h => ?_⟩
  · rw [(run_parts hrun).2.2]
    rfl
  · have hactive := (hiff'.mp h).active
    rw [(run_parts hrun').2.2] at hactive
    exact Bool.noConfusion hactive

/-- A wallet that holds an active skill answers with an expired one that it
holds before it. -/
theorem expired_shadows_active : ∃ (w : Wallet) (n : ByteVec 12),
    (∃ c ∈ w.claims, Usable w ⟨1000⟩ c ∧ Matches (skillRequest none) c) ∧
    ¬ ∃ p, w.satisfy ⟨"did:aion:verifier"⟩ "hiring" [skillRequest none] 600 ⟨1000⟩ n n = .ok p ∧
      ∀ d ∈ p.claims, d.subjectId = w.did ∧ d.validity.activeAt ⟨1000⟩ = true := by
  obtain ⟨w, c, c', p, n, hclaims, -, hrun', hp, hne, hvalidity⟩ := skill_wallet none (some ⟨500⟩) none
  have hc' : c'.body = (skillUntil w.did none).body ∧
      c'.validity = { fromTime := ⟨0⟩, untilTime := none } := (run_parts hrun').2
  refine ⟨w, n, ⟨c', by simp [hclaims], ⟨⟨_, _, rfl, hrun'⟩, by rw [hc'.2]; decide⟩,
    skill_matches _ _ none hc'.1⟩, ?_⟩
  rintro ⟨p', hp', hactive⟩
  obtain rfl := Except.ok.inj (hp.symm.trans hp')
  obtain ⟨d, hd⟩ := List.exists_mem_of_ne_nil _ hne
  have hd' := (hactive d hd).2
  rw [hvalidity d hd] at hd'
  exact absurd hd' (by decide)

end

end AionTrust.Proof
