import AionTrust.Proof.Interop.Vc

/-!
# Presentation documents

What an exported presentation says (`PresentationDoc`, `exportVp_spec`), and
what import makes of it: the presentation with its key written out again
(`canonical`), where every timestamp in it is formattable, and an error
elsewhere (`importVp_spec`). The verifier decodes the key before it checks
anything, so it reports the same of both (`verify_canonical`).
-/

namespace AionTrust.Proof

open AionTrust.Impl AionTrust.Spec
open Framework (ok_bind)

variable [External]

/-- A credential of a claim that verifies. -/
def CredentialOf (c : DisclosedClaim) (vc : Value) : Prop :=
  ∃ vk v proof, c.verify vk = .ok v ∧ Credential c vk vc proof

/-- A presentation's document, and its credentials. -/
structure PresentationDoc (p : Presentation) (subjectVk : VerifyingKey) (doc proof : Value)
    (vcs : List Value) : Prop where
  credentials : List.Forall₂ CredentialOf p.claims vcs
  method : ∃ vm, getStr proof "verificationMethod" = .ok vm ∧ decodeDidKey vm = .ok subjectVk
  audience : getStr proof "domain" = .ok p.audience.asStr
  nonce : getStr proof "challenge" = .ok p.nonce
  purpose : getStr proof "purpose" = .ok p.purpose
  issuedAt : ∃ s, toRfc3339 p.issuedAt = .ok s ∧ getStr proof "issuedAt" = .ok s
  expiresAt : ∃ s, toRfc3339 p.expiresAt = .ok s ∧ getStr proof "expiresAt" = .ok s
  signature : getStr proof "aionSignature" = .ok p.subjectSignature
  proof : getObj doc "proof" = .ok proof
  id : getStr doc "id" = .ok ("urn:aion-trust:presentation:" ++ p.presentationId)
  holder : getStr doc "holder" = .ok p.subjectId.asStr
  array : getArray doc "verifiableCredential" = .ok vcs

/-- A presentation with its subject's key as `toHex` writes it. -/
def canonical (p : Presentation) (subjectVk : VerifyingKey) : Presentation :=
  { p with subjectKey := toHex (External.toBytes subjectVk).val }

/-- The holder's proof as export writes it. -/
def holderProofOf (p : Presentation) (vm issued expires : String) : Value :=
  Value.json [("type", .string proofType), ("proofPurpose", .string "authentication"),
    ("verificationMethod", .string vm), ("domain", .string p.audience.asStr), ("challenge", .string p.nonce),
    ("purpose", .string p.purpose), ("issuedAt", .string issued), ("expiresAt", .string expires),
    ("aionSignature", .string p.subjectSignature)]

/-- The document as export writes it. -/
def presentationOf (p : Presentation) (vcs : List Value) (proof : Value) : Value :=
  Value.json [("@context", contextV1), ("type", .array [.string "VerifiablePresentation"]),
    ("id", .string ("urn:aion-trust:presentation:" ++ p.presentationId)),
    ("holder", .string p.subjectId.asStr), ("verifiableCredential", .array vcs), ("proof", proof)]

/-- The credential of one claim of a presentation. -/
def exportClaim (resolveIssuer : Did → Option VerifyingKey) (claim : DisclosedClaim) : Run Value := do
  let vk ← Framework.okOr (resolveIssuer claim.issuerId) (.error (.unresolvedIssuer claim.issuerId.asStr))
  exportDisclosedVc claim vk

/-- The claims are exported where each verifies under the key its issuer
resolves to. -/
theorem exportClaims_spec
    (hbytes : ∀ vk : VerifyingKey, External.fromBytes (External.toBytes vk) = .ok vk)
    {claims : List DisclosedClaim} {resolveIssuer : Did → Option VerifyingKey}
    (hclaims : ∀ c ∈ claims, ∃ vk v, resolveIssuer c.issuerId = some vk ∧ c.verify vk = .ok v) :
    ∃ vcs, claims.mapM (exportClaim resolveIssuer) = .ok vcs ∧ List.Forall₂ CredentialOf claims vcs := by
  refine Framework.mapM_forall₂ fun c hc => ?_
  obtain ⟨vk, v, hvk, hv⟩ := hclaims c hc
  obtain ⟨vc, proof, hvc, hcredential⟩ := export_spec hbytes (verified_keys hv) vk
  refine ⟨vc, ?_, vk, v, proof, hv, hcredential⟩
  rw [exportClaim, hvk, Framework.okOr_some, ok_bind, hvc]

/-- Export writes the presentation's document, where every claim verifies under
the key its issuer resolves to. -/
theorem exportVp_spec (hbytes : ∀ vk : VerifyingKey, External.fromBytes (External.toBytes vk) = .ok vk)
    {p : Presentation} {resolveIssuer : Did → Option VerifyingKey} {subjectVk : VerifyingKey}
    (hvk : verifyingKeyFromHex p.subjectKey = .ok subjectVk)
    (hclaims : ∀ c ∈ p.claims, ∃ vk v, resolveIssuer c.issuerId = some vk ∧ c.verify vk = .ok v) :
    ∃ doc proof vcs, exportPresentationVp p resolveIssuer = .ok doc ∧
      PresentationDoc p subjectVk doc proof vcs := by
  obtain ⟨vm, hvm, hdecode⟩ := decodeDidKey_verificationMethod hbytes subjectVk
  obtain ⟨issued, hissued, -⟩ := toRfc3339_spec p.issuedAt
  obtain ⟨expires, hexpires, -⟩ := toRfc3339_spec p.expiresAt
  obtain ⟨vcs, hvcs, hcredentials⟩ := exportClaims_spec hbytes hclaims
  refine ⟨presentationOf p vcs (holderProofOf p vm issued expires), holderProofOf p vm issued expires, vcs,
    ?_, ?_⟩
  · show p.claims.mapM (exportClaim resolveIssuer) >>= _ = _
    rw [hvcs, ok_bind, hvk, Framework.mapError_ok, ok_bind, hvm, ok_bind, hissued, ok_bind, hexpires, ok_bind]
    rfl
  · exact {
      credentials := hcredentials
      method := ⟨vm, getStr_of_get (get_json _ _), hdecode⟩
      audience := getStr_of_get (get_json _ _)
      nonce := getStr_of_get (get_json _ _)
      purpose := getStr_of_get (get_json _ _)
      issuedAt := ⟨issued, hissued, getStr_of_get (get_json _ _)⟩
      expiresAt := ⟨expires, hexpires, getStr_of_get (get_json _ _)⟩
      signature := getStr_of_get (get_json _ _)
      proof := getObj_of_get (get_json _ _)
      id := getStr_of_get (get_json _ _)
      holder := getStr_of_get (get_json _ _)
      array := getArray_of_get (get_json _ _) }

/-! ## Back -/

/-- A presentation with its key written again is judged the same. -/
theorem verify_canonical
    (hbytes : ∀ vk : VerifyingKey, External.fromBytes (External.toBytes vk) = .ok vk)
    {p : Presentation} {subjectVk : VerifyingKey} (hvk : verifyingKeyFromHex p.subjectKey = .ok subjectVk)
    (audience : Did) (now : Timestamp) (anchor : TrustAnchor) (seen : Bool) :
    verifyPresentation (canonical p subjectVk) audience now anchor seen =
      verifyPresentation p audience now anchor seen := by
  have hkey : verifyingKeyFromHex (canonical p subjectVk).subjectKey = .ok subjectVk := by
    rw [canonical, verifyingKeyFromHex, decodeArray_toHex, ok_bind, hbytes]
  rw [verifyPresentation, verifyPresentationWithPredicates, hkey, ok_bind, verifyPresentation,
    verifyPresentationWithPredicates, hvk, ok_bind]
  rfl

variable [Serde]

/-- The claim of one credential of a document. -/
def importClaim (vc : Value) : Run Value := do
  let disclosed ← importDisclosedVc vc
  return disclosed.toValue

theorem importClaim_spec (hreads : Reads) {c : DisclosedClaim} {vc : Value} (h : CredentialOf c vc) :
    (FormattableValidity c.validity → importClaim vc = .ok c.toValue) ∧
    (¬ FormattableValidity c.validity → ∃ e, importClaim vc = .error e) := by
  obtain ⟨vk, v, proof, hv, hcredential⟩ := h
  obtain ⟨himport, hrefuse⟩ := importDisclosedVc_spec hreads hcredential hv
  rw [importClaim]
  constructor
  · intro hfmt
    rw [himport hfmt]
    rfl
  · intro hnot
    obtain ⟨e, he⟩ := hrefuse hnot
    rw [he]
    exact ⟨e, rfl⟩

/-- The credentials of a document import where every bound of every claim is
formattable. -/
theorem importClaims_spec (hreads : Reads) {claims : List DisclosedClaim} {vcs : List Value}
    (h : List.Forall₂ CredentialOf claims vcs) :
    ((∀ c ∈ claims, FormattableValidity c.validity) →
      vcs.mapM importClaim = .ok (claims.map (·.toValue))) ∧
    (¬ (∀ c ∈ claims, FormattableValidity c.validity) → ∃ e, vcs.mapM importClaim = .error e) := by
  constructor
  · intro hfmt
    rw [Framework.mapM_eq_ok, List.forall₂_map_right_iff]
    refine List.Forall₂.flip ?_
    induction h with
    | nil => exact .nil
    | cons hc _ ih =>
      obtain ⟨hfmt, hrest⟩ := List.forall_mem_cons.mp hfmt
      exact .cons ((importClaim_spec hreads hc).1 hfmt) (ih hrest)
  · intro hnot
    push Not at hnot
    obtain ⟨c, hc, hfmt⟩ := hnot
    obtain ⟨vc, hvc, hcredential⟩ := Framework.exists_right h hc
    exact Framework.mapM_isError hvc ((importClaim_spec hreads hcredential).2 hfmt)

/-- A presentation's document imports as the presentation with its key written
again, where every timestamp in it is formattable. -/
theorem importVp_spec (hreads : Reads) {p : Presentation} {subjectVk : VerifyingKey} {doc proof : Value}
    {vcs : List Value} (h : PresentationDoc p subjectVk doc proof vcs)
    (hholder : Did.fromKey subjectVk = p.subjectId) :
    (FormattablePresentation p → importPresentationVp doc = .ok (canonical p subjectVk)) ∧
    (¬ FormattablePresentation p → ∃ e, importPresentationVp doc = .error e) := by
  obtain ⟨vm, hvm, hdecode⟩ := h.method
  obtain ⟨issued, hissued, hgetIssued⟩ := h.issuedAt
  obtain ⟨expires, hexpires, hgetExpires⟩ := h.expiresAt
  obtain ⟨hclaims, hrefuseClaims⟩ := importClaims_spec hreads h.credentials
  obtain ⟨hreadIssued, hrefuseIssued⟩ := fromRfc3339_iff hissued
  obtain ⟨hreadExpires, hrefuseExpires⟩ := fromRfc3339_iff hexpires
  have hbind : (Did.fromKey subjectVk).asStr = p.subjectId.asStr := congrArg Did.asStr hholder
  rw [importPresentationVp, h.proof, ok_bind, hvm, ok_bind, hdecode, ok_bind, h.holder, ok_bind]
  dsimp only
  rw [Framework.ensure_true hbind, ok_bind, h.array, ok_bind]
  show (_ → (vcs.mapM importClaim >>= _) = _) ∧ (_ → ∃ e, (vcs.mapM importClaim >>= _) = _)
  constructor
  · intro hfmt
    rw [hclaims hfmt.claims, ok_bind, h.id, ok_bind, stripPrefix_append, Framework.okOr_some, ok_bind,
      h.audience, ok_bind, h.purpose, ok_bind, h.nonce, ok_bind, hgetIssued, ok_bind,
      hreadIssued hfmt.issuedAt, ok_bind, hgetExpires, ok_bind, hreadExpires hfmt.expiresAt, ok_bind,
      h.signature, ok_bind]
    exact congrArg (Except.mapError _) (hreads.presentation (canonical p subjectVk))
  · intro hnot
    by_cases hfmtClaims : ∀ c ∈ p.claims, FormattableValidity c.validity
    · rw [hclaims hfmtClaims, ok_bind, h.id, ok_bind, stripPrefix_append, Framework.okOr_some, ok_bind,
        h.audience, ok_bind, h.purpose, ok_bind, h.nonce, ok_bind, hgetIssued, ok_bind]
      by_cases hfmtIssued : Formattable p.issuedAt
      · obtain ⟨e, he⟩ := hrefuseExpires fun hfmt => hnot ⟨hfmtIssued, hfmt, hfmtClaims⟩
        rw [hreadIssued hfmtIssued, ok_bind, hgetExpires, ok_bind, he]
        exact ⟨e, rfl⟩
      · obtain ⟨e, he⟩ := hrefuseIssued hfmtIssued
        rw [he]
        exact ⟨e, rfl⟩
    · obtain ⟨e, he⟩ := hrefuseClaims hfmtClaims
      rw [he]
      exact ⟨e, rfl⟩

end AionTrust.Proof
