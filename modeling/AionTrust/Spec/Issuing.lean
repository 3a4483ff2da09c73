import AionTrust.Spec.Messages

/-!
# What is assumed of the packages and the issuers

What the packages promise of keys and signatures (`Lawful`), the calls an
issuer makes (`IssueCall`), and the messages its key has then signed
(`Signed`): those of its calls, and any presentation or accreditation. That a
signature is none that was forged is `Unforgeable`. What an anchor says of a
disclosed claim that is good at a time is `GoodAt`.
-/

namespace AionTrust.Spec

open AionTrust.Impl
open Framework (Bytes)

variable [External]

/-- Signatures verify under their own key, and keys are read back. -/
structure Lawful : Prop where
  sign_verify : ∀ (sk : SigningKey) m,
    External.verify (External.verifyingKey sk) m (External.sign sk m) = true
  fromBytes_toBytes : ∀ vk : VerifyingKey, External.fromBytes (External.toBytes vk) = .ok vk

/-! ## Issuing -/

/-- What `issueWithReliance` is given besides the issuer, and the salt it draws. -/
structure IssueCall where
  masterSalt : Digest
  subject : Did
  validity : Validity
  body : ClaimBody
  reliance : List ReliesOn

namespace IssueCall

def run (issuer : Identity) (call : IssueCall) : Except ClaimReject Claim :=
  Claim.issueWithReliance call.masterSalt issuer call.subject call.validity call.body call.reliance

/-- The commitments of a call. -/
structure Commits (call : IssueCall) (commit : ClaimCommit) : Prop where
  body : bodyCommitment call.masterSalt call.body = .ok (commit.bodyRoot, commit.fieldCount)
  reliance : relianceCommitment call.masterSalt call.reliance =
    .ok (commit.relianceRoot, commit.relianceCount)

/-- The message a call signs. -/
def message (issuer : Identity) (call : IssueCall) (commit : ClaimCommit) : Bytes :=
  signingBytes call.subject issuer.did call.body.category call.body.schemaId call.validity commit

/-- Everything a call encodes is shorter than `2 ^ 32` bytes. -/
structure Fits (issuer : Identity) (call : IssueCall) : Prop where
  subject : Framework.Fits 4 call.subject.asBytes
  issuer : Framework.Fits 4 issuer.did.asBytes
  fields : ∀ e ∈ call.body.fields, ∀ jcs, External.toJcsBytes e.2 = some jcs → Framework.Fits 4 jcs
  reliance : ∀ target ∈ call.reliance, Framework.Fits 4 (asBytes target.fromClaimId.asStr)

end IssueCall

/-- A claim as some identity issued it to a subject. -/
def IssuedBy (issuer : Identity) (subject : Did) (c : Claim) : Prop :=
  ∃ call : IssueCall, call.subject = subject ∧ call.run issuer = .ok c

/-- The messages a key has signed when its holder made these calls, and signed
presentations and accreditations of any contents. -/
inductive Signed (issuer : Identity) (calls : Set IssueCall) : Bytes → Prop where
  | issued (call : IssueCall) (commit : ClaimCommit) (h : call ∈ calls)
      (hcommit : call.Commits commit) : Signed issuer calls (call.message issuer commit)
  | presentation (subject audience : Did) (purpose : String) (nonce : Bytes)
      (issuedAt expiresAt : Timestamp) (claims : List DisclosedClaim)
      (hfits : (Message.presentation subject audience purpose nonce issuedAt expiresAt
        (claims.map DisclosedClaim.claimId)).Fits) :
      Signed issuer calls (presSigningBytes subject audience purpose nonce issuedAt expiresAt claims)
  | accreditation (a : Accreditation)
      (hfits : (Message.accreditation a.issuerId a.category a.fromEpoch a.untilEpoch).Fits) :
      Signed issuer calls a.signingBytes

/-- A signature in hex verifies over a message under the issuer's key only where
the issuer signed the message. -/
def Unforgeable (issuer : Identity) (calls : Set IssueCall) (m : Bytes) (signature : String) : Prop :=
  ∀ sig, decodeArray 64 signature = .ok sig → External.verify issuer.verifyingKey m sig = true →
    Signed issuer calls m

/-- Everything a disclosure encodes is shorter than `2 ^ 32` bytes. -/
structure DisclosedFits (d : DisclosedClaim) : Prop where
  subject : Framework.Fits 4 d.subjectId.asBytes
  issuer : Framework.Fits 4 d.issuerId.asBytes
  category : Framework.Fits 4 (asBytes d.category)
  schemaId : Framework.Fits 4 (asBytes d.schemaId)
  keys : ∀ f ∈ d.fields, Framework.Fits 4 (asBytes f.key)
  values : ∀ f ∈ d.fields, ∀ jcs, External.toJcsBytes f.value = some jcs → Framework.Fits 4 jcs
  reliance : ∀ r ∈ d.reliance, Framework.Fits 4 (asBytes r.fromClaimId.asStr)

/-! ## Anchors -/

/-- What an anchor says of a disclosed claim that is good at a time. -/
structure GoodAt (anchor : TrustAnchor) (now : Timestamp) (issuerVk : VerifyingKey)
    (d : DisclosedClaim) : Prop where
  key : anchor.issuerKey d.issuerId = some issuerVk
  active : d.validity.activeAt now = true
  accredited : (anchor.standing d.issuerId d.category now).accreditationRequired = true →
    (anchor.standing d.issuerId d.category now).accredited = true
  notRevoked : anchor.isRevoked d.claimId now = false
  relianceLive : ∀ r ∈ d.reliance, anchor.status r.fromClaimId now = .live

end AionTrust.Spec
