import AionTrust.Impl.Claims.Anchor

/-!
# Presentations

A presentation is a bundle of disclosed claims, signed by their subject for
one audience, with a nonce and a window (`buildPresentation`). The verifier
(`verifyPresentationWithPredicates`) records one check after another: of the
presentation, of every claim in it (`verifyOneClaim`), and of every predicate
(`evaluatePredicates`), which only a claim that passed all of its own checks
may satisfy. The verdict is read off the list of checks.
-/

namespace AionTrust.Impl

open Framework (Bytes)

def presDomain : Bytes := asBytes "aion-trust/presentation/v1"

/-- The shortest nonce a verifier accepts, in bytes. -/
def minNonceLen : Nat := 16

def relianceResolvableCheck : String := "reliance resolvable (relied-upon status known)"

/-- A subject-signed bundle of claims. -/
structure Presentation where
  presentationId : String
  subjectId : Did
  subjectKey : String
  audience : Did
  purpose : String
  nonce : String
  issuedAt : Timestamp
  expiresAt : Timestamp
  claims : List DisclosedClaim
  subjectSignature : String

/-- The message a subject signs. -/
def presSigningBytes (subject audience : Did) (purpose : String) (nonce : Bytes)
    (issuedAt expiresAt : Timestamp) (claims : List DisclosedClaim) : Bytes :=
  let w := SigningWriter.new presDomain
    |>.field subject.asBytes
    |>.field audience.asBytes
    |>.field (asBytes purpose)
    |>.field nonce
    |>.int issuedAt.secs
    |>.int expiresAt.secs
  (claims.foldl (fun w claim => w.field (asBytes claim.claimId.asStr)) w).intoBytes

/-- One verification step and whether it passed. -/
structure Check where
  name : String
  passed : Bool
  detail : String
  deriving DecidableEq

structure VerificationReport where
  accepted : Bool
  amber : Bool
  checks : List Check

/-- Records a check. -/
def check (checks : List Check) (name : String) (passed : Bool) (detail : String) : List Check :=
  checks ++ [⟨name, passed, detail⟩]

/-- A claim that authenticated, and whether it passed every trust check. -/
structure ClaimOutcome where
  category : String
  schemaId : String
  verified : VerifiedDisclosure
  fullyValid : Bool

def predicateHolds (req : PredicateRequest) (o : ClaimOutcome) : Bool :=
  if !o.fullyValid || o.category != req.category then false
  -- issuer and verifier disagree on the ordinal scale: fail closed
  else if req.scaleVersion.any fun scale => o.schemaId != scale then false
  else
    match o.verified.value req.field with
    | some value =>
      match evaluate req.op value req.bound with
      | .ok holds => holds
      | .error _ => false
    | none => false

variable [External]

def buildPresentation (subject : Identity) (audience : Did) (purpose : String) (nonce : Bytes)
    (issuedAt expiresAt : Timestamp) (claims : List DisclosedClaim) : Presentation :=
  let signing := presSigningBytes subject.did audience purpose nonce issuedAt expiresAt claims
  { presentationId := toHex (External.hash signing).val
    subjectId := subject.did
    subjectKey := toHex (External.toBytes subject.verifyingKey).val
    audience
    purpose
    nonce := toHex nonce
    issuedAt
    expiresAt
    claims
    subjectSignature := toHex (subject.sign signing).val }

def evaluatePredicates (checks : List Check) (predicates : List PredicateRequest)
    (outcomes : List ClaimOutcome) : List Check :=
  predicates.foldl (fun checks req =>
    check checks "predicate satisfied" (outcomes.any (predicateHolds req)) req.label) checks

/-- Whether a relied-upon claim is revoked, and whether one is unresolved. -/
def relianceStatus (anchor : TrustAnchor) (now : Timestamp) (deps : List ClaimId) : Bool × Bool :=
  deps.foldl (fun (revokedDep, unresolvedDep) dep =>
    match anchor.status dep now with
    | .live => (revokedDep, unresolvedDep)
    | .revoked => (true, unresolvedDep)
    | .unresolvable => (revokedDep, true)) (false, false)

/-- The checks of an authentic claim: its window, its issuer's standing, and
revocation, its own and of the claims it relies on. -/
def authenticatedClaimChecks (checks : List Check) (claim : DisclosedClaim)
    (verified : VerifiedDisclosure) (now : Timestamp) (anchor : TrustAnchor) : List Check × Bool :=
  let id := claim.claimId.asStr
  let category := verified.category
  let checks := check checks "claim authentic" true id
  let checks := verified.revealedKeys.foldl (fun checks key =>
    check checks "field proven against body_root" true key) checks
  let within := verified.activeAt now
  let checks := check checks "claim within validity" within ""
  let standing := anchor.standing claim.issuerId category now
  let (checks, accreditedOk) :=
    if standing.accreditationRequired then
      let detail :=
        if standing.accredited then "accredited for " ++ category
        else "NOT accredited for " ++ category ++ " (self-asserted)"
      (check checks "issuer accredited" standing.accredited detail, standing.accredited)
    else (checks, true)
  let notRevoked := !anchor.isRevoked claim.claimId now
  let checks := check checks "claim not revoked" notRevoked id
  let (revokedDep, unresolvedDep) := relianceStatus anchor now verified.reliance
  let n := verified.reliance.length
  let checks :=
    if verified.reliance.isEmpty then checks
    else
      let checks := check checks "reliance intact (no relied-upon claim revoked)" (!revokedDep)
        (toString n ++ " relied-upon claim(s)")
      check checks relianceResolvableCheck (!unresolvedDep) (toString n ++ " relied-upon claim(s)")
  (checks, within && accreditedOk && notRevoked && !revokedDep && !unresolvedDep)

def verifyOneClaim (checks : List Check) (claim : DisclosedClaim) (presenter : Did) (now : Timestamp)
    (anchor : TrustAnchor) : List Check × Option ClaimOutcome :=
  let subjectOk := decide (claim.subjectId = presenter)
  let checks := check checks "claim subject matches presenter" subjectOk claim.claimId.asStr
  match anchor.issuerKey claim.issuerId with
  | none =>
    (check checks "issuer recognized" false ("unknown issuer " ++ claim.issuerId.asStr), none)
  | some issuerVk =>
    match claim.verify issuerVk with
    | .ok verified =>
      let (checks, trusted) := authenticatedClaimChecks checks claim verified now anchor
      (checks, some {
        category := claim.category
        schemaId := claim.schemaId
        verified
        fullyValid := subjectOk && trusted })
    | .error reject => (check checks "claim authentic" false reject.text, none)

/-- The loop over the claims. -/
def verifyClaims (presenter : Did) (now : Timestamp) (anchor : TrustAnchor) :
    List Check → List DisclosedClaim → List Check × List ClaimOutcome
  | checks, [] => (checks, [])
  | checks, claim :: claims =>
    let (checks, outcome) := verifyOneClaim checks claim presenter now anchor
    let (checks, outcomes) := verifyClaims presenter now anchor checks claims
    (checks, outcome.toList ++ outcomes)

/-- The checks of the presentation itself. -/
def presentationChecks (p : Presentation) (audience : Did) (now : Timestamp)
    (nonceAlreadySeen : Bool) (subjectVk : VerifyingKey) (nonceBytes : Bytes) (sig : ByteVec 64) :
    List Check :=
  let checks := check [] "subject_id binds to key" (decide (Did.fromKey subjectVk = p.subjectId))
    p.subjectId.asStr
  let checks := check checks "audience matches verifier" (decide (p.audience = audience))
    p.audience.asStr
  let unexpired := decide (now ≥ p.issuedAt) && decide (now ≤ p.expiresAt)
  let checks := check checks "unexpired" unexpired
    ("now=" ++ toString now.secs ++ ", expires=" ++ toString p.expiresAt.secs)
  let checks := check checks "nonce fresh (not replayed)" (!nonceAlreadySeen) p.nonce
  let nonceOk := decide (nonceBytes.length ≥ minNonceLen)
  let checks := check checks "nonce sufficiently long" nonceOk
    (toString nonceBytes.length ++ " bytes")
  let checks := check checks "discloses at least one claim" (!p.claims.isEmpty)
    (toString p.claims.length ++ " claim(s)")
  let signing := presSigningBytes p.subjectId p.audience p.purpose nonceBytes p.issuedAt
    p.expiresAt p.claims
  check checks "subject signature valid" (External.verify subjectVk signing sig) ""

def verifyPresentationWithPredicates (p : Presentation) (audience : Did) (now : Timestamp)
    (anchor : TrustAnchor) (nonceAlreadySeen : Bool) (predicates : List PredicateRequest) :
    Except TrustError VerificationReport := do
  let subjectVk ← verifyingKeyFromHex p.subjectKey
  let nonceBytes ← fromHex p.nonce
  let sig ← decodeArray 64 p.subjectSignature
  let checks := presentationChecks p audience now nonceAlreadySeen subjectVk nonceBytes sig
  let (checks, outcomes) := verifyClaims p.subjectId now anchor checks p.claims
  let checks := evaluatePredicates checks predicates outcomes
  let accepted := checks.all (·.passed)
  let amber := !accepted &&
    (checks.filter fun c => !c.passed).all fun c => c.name == relianceResolvableCheck
  return { accepted, amber, checks }

def verifyPresentation (p : Presentation) (audience : Did) (now : Timestamp) (anchor : TrustAnchor)
    (nonceAlreadySeen : Bool) : Except TrustError VerificationReport :=
  verifyPresentationWithPredicates p audience now anchor nonceAlreadySeen []

end AionTrust.Impl
