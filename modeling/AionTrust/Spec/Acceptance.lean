import AionTrust.Impl.Claims.Presentation

/-!
# When a presentation is acceptable

The conditions on the presentation itself (`Bound`), on each of its claims
(`ClaimValid`), and on a predicate (`Satisfied`), with no reference to the
list of checks. `resolved` is the anchor that answers `live` where another
cannot tell.
-/

namespace AionTrust.Spec

open AionTrust.Impl
open Framework (Bytes)

variable [External]

/-- The parts of a presentation that have to decode. -/
structure Decoded (p : Presentation) (subjectVk : VerifyingKey) (nonce : Bytes)
    (sig : ByteVec 64) : Prop where
  subjectKey : verifyingKeyFromHex p.subjectKey = .ok subjectVk
  nonce : fromHex p.nonce = .ok nonce
  signature : decodeArray 64 p.subjectSignature = .ok sig

/-- A presentation is its subject's, for this audience, now, and not before
seen. -/
structure Bound (p : Presentation) (audience : Did) (now : Timestamp) (nonceAlreadySeen : Bool)
    (subjectVk : VerifyingKey) (nonce : Bytes) (sig : ByteVec 64) : Prop where
  subject : Did.fromKey subjectVk = p.subjectId
  audience : p.audience = audience
  issued : p.issuedAt ≤ now
  unexpired : now ≤ p.expiresAt
  fresh : nonceAlreadySeen = false
  nonceLength : 16 ≤ nonce.length
  nonempty : p.claims ≠ []
  signature : External.verify subjectVk (presSigningBytes p.subjectId p.audience p.purpose nonce
    p.issuedAt p.expiresAt p.claims) sig = true

/-- A claim verifies as `v`, is the presenter's, and passes every trust check. -/
structure ClaimValid (anchor : TrustAnchor) (presenter : Did) (now : Timestamp) (c : DisclosedClaim)
    (v : VerifiedDisclosure) : Prop where
  subject : c.subjectId = presenter
  verified : ∃ issuerVk, anchor.issuerKey c.issuerId = some issuerVk ∧ c.verify issuerVk = .ok v
  active : v.activeAt now = true
  accredited : (anchor.standing c.issuerId c.category now).accreditationRequired = true →
    (anchor.standing c.issuerId c.category now).accredited = true
  notRevoked : anchor.isRevoked c.claimId now = false
  relianceLive : ∀ dep ∈ v.reliance, anchor.status dep now = .live

/-- Some valid claim of the right category and scale proves the comparison. -/
def Satisfied (anchor : TrustAnchor) (presenter : Did) (now : Timestamp)
    (claims : List DisclosedClaim) (req : PredicateRequest) : Prop :=
  ∃ c ∈ claims, ∃ v, ClaimValid anchor presenter now c v ∧ c.category = req.category ∧
    (∀ scale, req.scaleVersion = some scale → c.schemaId = scale) ∧
    ∃ value, v.value req.field = some value ∧ evaluate req.op value req.bound = .ok true

/-- Every claim of a presentation is valid. -/
def ClaimsValid (anchor : TrustAnchor) (presenter : Did) (now : Timestamp)
    (claims : List DisclosedClaim) : Prop :=
  ∀ c ∈ claims, ∃ v, ClaimValid anchor presenter now c v

/-- The anchor that answers as `anchor`, and `live` where it cannot tell. -/
def resolved (anchor : TrustAnchor) : TrustAnchor :=
  { anchor with
    status := fun claimId now =>
      match anchor.status claimId now with
      | .unresolvable => .live
      | status => status }

end AionTrust.Spec
