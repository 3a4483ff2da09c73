import AionTrust.Impl.Claims.Fields

/-!
# Declared reliance

The claims a claim was issued in reliance on are committed as its body is: a
leaf for each, with the kind of reliance behind a commitment of its own
(`relianceLeaves`), and a root over them (`relianceCommitment`), or a fixed
one when there are none (`emptyRelianceRoot`).
-/

namespace AionTrust.Impl

open Framework (Bytes okOr)

def relianceKindSaltDomain : Bytes := asBytes "aion-trust/reliance-kind-salt/v1"

def relianceKindCommitDomain : Bytes := asBytes "aion-trust/reliance-kind-commit/v1"

/-- Why a claim was issued in reliance on another. -/
inductive ReliesKind where
  | identityBasis
  | priorCheck
  | assessor
  | referee
  | renews
  | endorses
  deriving DecidableEq

def ReliesKind.asStr : ReliesKind → String
  | identityBasis => "identity_basis"
  | priorCheck => "prior_check"
  | assessor => "assessor"
  | referee => "referee"
  | renews => "renews"
  | endorses => "endorses"

/-- A dependency an issuer declares. -/
structure ReliesOn where
  fromClaimId : ClaimId
  kind : ReliesKind

/-- What `kindCommit` hashes. -/
def kindCommitMessage (kind : ReliesKind) (kindSalt : Digest) : Bytes :=
  ((SigningWriter.new relianceKindCommitDomain).field kindSalt.val).field (asBytes kind.asStr)
    |>.intoBytes

/-- What `emptyRelianceRoot` hashes: the bare string, with no length before it. -/
def emptyRelianceMessage : Bytes := asBytes "aion-trust/reliance-empty/v1"

variable [External]

def deriveRelianceSalt (masterSalt : Digest) (index : UInt32) : Digest :=
  External.keyedHash masterSalt ((SigningWriter.new relianceLeafDomain).u32 index).intoBytes

def deriveKindSalt (masterSalt : Digest) (index : UInt32) : Digest :=
  External.keyedHash masterSalt ((SigningWriter.new relianceKindSaltDomain).u32 index).intoBytes

def kindCommit (kind : ReliesKind) (kindSalt : Digest) : Digest :=
  External.hash (kindCommitMessage kind kindSalt)

/-- The signed root of a claim that declares no reliance. -/
def emptyRelianceRoot : Digest := External.hash emptyRelianceMessage

/-- One declared dependency, with what commits or discloses it. -/
structure ReliesLeaf where
  index : UInt32
  fromClaimId : ClaimId
  salt : Digest
  kindCommit : Digest
  hash : Digest

/-- The leaf of the target at `i`. -/
def reliesLeaf (masterSalt : Digest) : ReliesOn × Nat → Except ClaimReject ReliesLeaf
  | (target, i) => do
    let index ← okOr (u32TryFrom i) .malformed
    let salt := deriveRelianceSalt masterSalt index
    let commit := kindCommit target.kind (deriveKindSalt masterSalt index)
    return {
      index
      fromClaimId := target.fromClaimId
      salt
      kindCommit := commit
      hash := relianceLeafHash index salt (asBytes target.fromClaimId.asStr) commit }

def relianceLeaves (masterSalt : Digest) (targets : List ReliesOn) :
    Except ClaimReject (List ReliesLeaf) :=
  targets.zipIdx.mapM (reliesLeaf masterSalt)

/-- The root over the declared dependencies, and their number. -/
def relianceCommitment (masterSalt : Digest) (targets : List ReliesOn) :
    Except ClaimReject (Digest × UInt32) := do
  let leaves ← relianceLeaves masterSalt targets
  let count ← okOr (u32TryFrom leaves.length) .malformed
  if leaves.isEmpty then return (emptyRelianceRoot, 0)
  else
    let root ← (merkleRoot (leaves.map (·.hash))).mapError fun _ => .malformed
    return (root, count)

end AionTrust.Impl
