import AionTrust.Impl.Claims.Reliance

/-!
# Claims

A claim is an issuer's signed statement about a subject. The signed message
(`signingBytes`) binds the body and the declared reliance through their roots
and counts only, and its hash is the claim's id. `issueWithReliance` signs a
claim under a fresh master salt; `Claim.verify` checks a full claim.
-/

namespace AionTrust.Impl

open Framework (Bytes okOr ensure)

def claimDomain : Bytes := asBytes "aion-trust/claim/v1"

/-- A claim as issued and stored. -/
structure Claim where
  claimId : ClaimId
  subjectId : Did
  issuerId : Did
  validity : Validity
  body : ClaimBody
  masterSalt : String
  bodyRoot : String
  fieldCount : UInt32
  reliance : List ReliesOn
  relianceRoot : String
  relianceCount : UInt32
  issuerSignature : String

/-- The commitments an issuer signs. -/
structure ClaimCommit where
  bodyRoot : Digest
  fieldCount : UInt32
  relianceRoot : Digest
  relianceCount : UInt32

/-- The message an issuer signs. -/
def signingBytes (subject issuer : Did) (category schemaId : String) (validity : Validity)
    (commit : ClaimCommit) : Bytes :=
  let w := SigningWriter.new claimDomain
    |>.field subject.asBytes
    |>.field issuer.asBytes
    |>.field (asBytes category)
    |>.field (asBytes schemaId)
    |>.int validity.fromTime.secs
  let w := match validity.untilTime with
    | some t => (w.field (asBytes "until")).int t.secs
    | none => w.field (asBytes "open")
  w.field commit.bodyRoot.val
    |>.u32 commit.fieldCount
    |>.field commit.relianceRoot.val
    |>.u32 commit.relianceCount
    |>.intoBytes

variable [External]

/-- The master salt of three draws of `generate_nonce`. -/
def randomSalt (draw₁ draw₂ draw₃ : ByteVec 12) : Digest :=
  External.hash (draw₁.val ++ draw₂.val ++ draw₃.val)

/-- The root over a body's leaves, and their number. -/
def bodyCommitment (masterSalt : Digest) (body : ClaimBody) : Except ClaimReject (Digest × UInt32) := do
  let leaves ← bodyLeaves masterSalt body
  let hashes := leaves.map (·.hash)
  let root ← (merkleRoot hashes).mapError fun _ => .malformed
  let count ← okOr (u32TryFrom hashes.length) .malformed
  return (root, count)

namespace Claim

def category (c : Claim) : String := c.body.category

def schemaId (c : Claim) : String := c.body.schemaId

/-- `issue_with_reliance`, under the master salt it draws. -/
def issueWithReliance (masterSalt : Digest) (issuer : Identity) (subject : Did) (validity : Validity)
    (body : ClaimBody) (reliance : List ReliesOn) : Except ClaimReject Claim := do
  let (bodyRoot, fieldCount) ← bodyCommitment masterSalt body
  let (relianceRoot, relianceCount) ← relianceCommitment masterSalt reliance
  let signing := signingBytes subject issuer.did body.category body.schemaId validity
    { bodyRoot, fieldCount, relianceRoot, relianceCount }
  return {
    claimId := ClaimId.fromSigningBytes signing
    subjectId := subject
    issuerId := issuer.did
    validity
    body
    masterSalt := toHex masterSalt.val
    bodyRoot := toHex bodyRoot.val
    fieldCount
    reliance
    relianceRoot := toHex relianceRoot.val
    relianceCount
    issuerSignature := toHex (issuer.sign signing).val }

def issue (masterSalt : Digest) (issuer : Identity) (subject : Did) (validity : Validity)
    (body : ClaimBody) : Except ClaimReject Claim :=
  issueWithReliance masterSalt issuer subject validity body []

/-- The value of a body field. -/
def fieldValue (c : Claim) (key : String) : Option Value :=
  match c.body.toValue with
  | .object map => map.lookup key
  | _ => none

/-- Checks a full claim against the issuer's key; the caller may then read the
body (`VerifiedClaim` is the claim itself). -/
def verify (c : Claim) (issuerVk : VerifyingKey) : Except ClaimReject Claim := do
  ensure (Did.fromKey issuerVk = c.issuerId) .issuerKeyMismatch
  let masterSalt ← (decodeArray 32 c.masterSalt).mapError fun _ => .malformed
  let (bodyRoot, fieldCount) ← bodyCommitment masterSalt c.body
  ensure (toHex bodyRoot.val = c.bodyRoot ∧ fieldCount = c.fieldCount) .bodyTampered
  let (relianceRoot, relianceCount) ← relianceCommitment masterSalt c.reliance
  ensure (toHex relianceRoot.val = c.relianceRoot ∧ relianceCount = c.relianceCount) .reliesTampered
  let signing := signingBytes c.subjectId c.issuerId c.body.category c.body.schemaId c.validity
    { bodyRoot, fieldCount, relianceRoot, relianceCount }
  ensure (ClaimId.fromSigningBytes signing = c.claimId) .claimIdMismatch
  let sig ← (decodeArray 64 c.issuerSignature).mapError fun _ => .malformed
  ensure (External.verify issuerVk signing sig) .badSignature
  return c

end Claim

end AionTrust.Impl
