import AionTrust.Impl.Claims.Presentation
import AionTrust.Impl.Registry

/-!
# The messages

Everything the crates sign or hash under a domain of their own, as data
(`Message`), and the bytes the code builds for it (`Built`). A message's
`fields` are what its writer is given; the empty-reliance sentinel is a bare
string.
-/

namespace AionTrust.Spec

open AionTrust.Impl
open Framework (Bytes)

inductive Kind where
  | claim
  | presentation
  | accreditation
  | fieldLeaf
  | relianceLeaf
  | node
  | kindCommit
  | emptyReliance

/-- The domain of the messages of a kind, or the sentinel itself. -/
def Kind.domain : Kind → Bytes
  | claim => claimDomain
  | presentation => presDomain
  | accreditation => accredDomain
  | fieldLeaf => fieldLeafDomain
  | relianceLeaf => relianceLeafDomain
  | node => fieldNodeDomain
  | kindCommit => relianceKindCommitDomain
  | emptyReliance => emptyRelianceMessage

inductive Message where
  | claim (subject issuer : Did) (category schemaId : String) (validity : Validity)
      (commit : ClaimCommit)
  | presentation (subject audience : Did) (purpose : String) (nonce : Bytes)
      (issuedAt expiresAt : Timestamp) (claimIds : List ClaimId)
  | accreditation (issuerId : Did) (category : String) (fromEpoch : UInt64)
      (untilEpoch : Option UInt64)
  | fieldLeaf (index : UInt32) (key : String) (salt : Digest) (jcsValue : Bytes)
  | relianceLeaf (index : UInt32) (salt : Digest) (fromClaimId : Bytes) (kindCommit : Digest)
  | node (left right : Digest)
  | kindCommit (kind : ReliesKind) (kindSalt : Digest)
  | emptyReliance

/-- The bytes the code builds for a message. -/
inductive Built : Message → Bytes → Prop where
  | claim (subject issuer category schemaId validity commit) :
      Built (.claim subject issuer category schemaId validity commit)
        (signingBytes subject issuer category schemaId validity commit)
  | presentation (subject audience purpose nonce issuedAt expiresAt claims) :
      Built (.presentation subject audience purpose nonce issuedAt expiresAt
          (claims.map DisclosedClaim.claimId))
        (presSigningBytes subject audience purpose nonce issuedAt expiresAt claims)
  | accreditation (a : Accreditation) :
      Built (.accreditation a.issuerId a.category a.fromEpoch a.untilEpoch) a.signingBytes
  | fieldLeaf (index key salt jcsValue) :
      Built (.fieldLeaf index key salt jcsValue) (fieldLeafMessage index key salt jcsValue)
  | relianceLeaf (index salt fromClaimId kindCommit) :
      Built (.relianceLeaf index salt fromClaimId kindCommit)
        (relianceLeafMessage index salt fromClaimId kindCommit)
  | node (left right) : Built (.node left right) (nodeMessage left right)
  | kindCommit (kind kindSalt) : Built (.kindCommit kind kindSalt) (kindCommitMessage kind kindSalt)
  | emptyReliance : Built .emptyReliance emptyRelianceMessage

namespace Message

/-- An optional end, as the writers put it. -/
def arm (f : α → Bytes) : Option α → List Bytes
  | some a => [asBytes "until", f a]
  | none => [asBytes "open"]

/-- What the writer of a message is given after its domain. -/
def body : Message → List Bytes
  | claim subject issuer category schemaId validity commit =>
    [subject.asBytes, issuer.asBytes, asBytes category, asBytes schemaId,
        i64Bytes validity.fromTime.secs] ++
      arm (fun t => i64Bytes t.secs) validity.untilTime ++
      [commit.bodyRoot.val, u32Bytes commit.fieldCount, commit.relianceRoot.val,
        u32Bytes commit.relianceCount]
  | presentation subject audience purpose nonce issuedAt expiresAt claimIds =>
    [subject.asBytes, audience.asBytes, asBytes purpose, nonce, i64Bytes issuedAt.secs,
        i64Bytes expiresAt.secs] ++
      claimIds.map fun c => asBytes c.asStr
  | accreditation issuerId category fromEpoch untilEpoch =>
    [issuerId.asBytes, asBytes category, i64Bytes fromEpoch.toInt64] ++
      arm (fun e : UInt64 => i64Bytes e.toInt64) untilEpoch
  | fieldLeaf index key salt jcsValue => [u32Bytes index, asBytes key, salt.val, jcsValue]
  | relianceLeaf index salt fromClaimId commit =>
    [u32Bytes index, salt.val, fromClaimId, commit.val]
  | node left right => [left.val, right.val]
  | kindCommit kind kindSalt => [kindSalt.val, asBytes kind.asStr]
  | emptyReliance => []

def kind : Message → Kind
  | claim .. => .claim
  | presentation .. => .presentation
  | accreditation .. => .accreditation
  | fieldLeaf .. => .fieldLeaf
  | relianceLeaf .. => .relianceLeaf
  | node .. => .node
  | kindCommit .. => .kindCommit
  | emptyReliance => .emptyReliance

/-- Every field is shorter than `2 ^ 32` bytes. -/
def Fits (m : Message) : Prop := ∀ f ∈ m.body, Framework.Fits 4 f

instance (m : Message) : Decidable m.Fits := inferInstanceAs (Decidable (∀ f ∈ m.body, _))

end Message

end AionTrust.Spec
