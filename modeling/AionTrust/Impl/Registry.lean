import Mathlib.Data.Finset.Card
import Mathlib.Logic.Function.Basic
import AionTrust.Impl.Claims.Anchor

/-!
# The registry

Issuer accreditation by `k` of a list of accreditors, revocation from an
epoch on, and the current epoch (`Registry`). The registry is a trust anchor
(`Registry.anchor`): an issuer is accredited for a category when some record
active at the epoch carries enough distinct endorsements
(`Registry.validEndorsements`).
-/

namespace AionTrust.Impl

open Framework (Bytes)

def accredDomain : Bytes := asBytes "aion-trust/accreditation/v1"

inductive Status where
  | issued
  | revoked
  deriving DecidableEq

structure LedgerRecord where
  claimId : String
  status : Status
  epoch : UInt64

/-- One accreditor's endorsement. -/
structure AccreditorSig where
  accreditor : Did
  signature : String

/-- A record that an issuer may attest a category. -/
structure Accreditation where
  issuerId : Did
  category : String
  fromEpoch : UInt64
  untilEpoch : Option UInt64
  signatures : List AccreditorSig

namespace Accreditation

def new (issuerId : Did) (category : String) (fromEpoch : UInt64) (untilEpoch : Option UInt64) :
    Accreditation :=
  { issuerId, category, fromEpoch, untilEpoch, signatures := [] }

def activeAt (a : Accreditation) (epoch : UInt64) : Bool :=
  decide (a.fromEpoch ≤ epoch) && a.untilEpoch.all fun u => decide (epoch ≤ u)

/-- The message an accreditor signs; an epoch is cast to `i64`. -/
def signingBytes (a : Accreditation) : Bytes :=
  let w := SigningWriter.new accredDomain
    |>.field a.issuerId.asBytes
    |>.field (asBytes a.category)
    |>.int a.fromEpoch.toInt64
  let w := match a.untilEpoch with
    | some e => (w.field (asBytes "until")).int e.toInt64
    | none => w.field (asBytes "open")
  w.intoBytes

/-- Adds an accreditor's endorsement. -/
def endorse [External] (a : Accreditation) (accreditor : Identity) : Accreditation :=
  { a with signatures := a.signatures ++
    [{ accreditor := accreditor.did, signature := toHex (accreditor.sign a.signingBytes).val }] }

end Accreditation

/-- A category requires `k` of the listed accreditors. -/
structure PolicyRule where
  k : Nat
  accreditors : List Did

variable [External]

structure Registry where
  issuerKeys : Did → Option VerifyingKey
  accreditorKeys : Did → Option VerifyingKey
  accreditations : List Accreditation
  policy : String → Option PolicyRule
  revoked : String → Option UInt64
  epoch : UInt64

namespace Registry

def new (epoch : UInt64) : Registry where
  issuerKeys _ := none
  accreditorKeys _ := none
  accreditations := []
  policy _ := none
  revoked _ := none
  epoch

def registerIssuer (r : Registry) (key : VerifyingKey) : Registry :=
  { r with issuerKeys := Function.update r.issuerKeys (Did.fromKey key) (some key) }

def registerAccreditor (r : Registry) (key : VerifyingKey) : Registry :=
  { r with accreditorKeys := Function.update r.accreditorKeys (Did.fromKey key) (some key) }

def requireAccreditation (r : Registry) (category : String) (k : Nat) (accreditors : List Did) :
    Registry :=
  { r with policy := Function.update r.policy category (some { k, accreditors }) }

def addAccreditation (r : Registry) (a : Accreditation) : Registry :=
  { r with accreditations := r.accreditations ++ [a] }

/-- Marks a claim revoked as of `epoch`, in place of any earlier mark. -/
def revoke (r : Registry) (claimId : String) (epoch : UInt64) : Registry :=
  { r with revoked := Function.update r.revoked claimId (some epoch) }

def setEpoch (r : Registry) (epoch : UInt64) : Registry := { r with epoch }

/-- `is_revoked`: whether a claim's mark is in force at the epoch. -/
def isRevoked (r : Registry) (claimId : ClaimId) : Bool :=
  (r.revoked claimId.asStr).any fun e => decide (e ≤ r.epoch)

/-- The record of a claim at the current epoch. -/
def ledgerRecord (r : Registry) (claimId : String) : LedgerRecord :=
  let revoked := (r.revoked claimId).any fun e => decide (e ≤ r.epoch)
  { claimId, status := if revoked then .revoked else .issued, epoch := r.epoch }

/-- One entry of the loop of `validEndorsements`. -/
def countEndorsement (r : Registry) (rule : PolicyRule) (bytes : Bytes) (distinct : Finset String)
    (sig : AccreditorSig) : Finset String :=
  if sig.accreditor.asStr ∈ distinct ∨ sig.accreditor ∉ rule.accreditors then distinct
  else
    match r.accreditorKeys sig.accreditor with
    | none => distinct
    | some vk =>
      match decodeArray 64 sig.signature with
      | .error _ => distinct
      | .ok sigBytes =>
        if External.verify vk bytes sigBytes then insert sig.accreditor.asStr distinct else distinct

/-- The number of distinct accreditors of the rule that endorsed a record. -/
def validEndorsements (r : Registry) (a : Accreditation) (rule : PolicyRule) : Nat :=
  (a.signatures.foldl (r.countEndorsement rule a.signingBytes) ∅).card

def isAccredited (r : Registry) (issuer : Did) (category : String) : Bool :=
  match r.policy category with
  | none => false
  | some rule =>
    r.accreditations.any fun a =>
      decide (a.issuerId = issuer) && decide (a.category = category) && a.activeAt r.epoch &&
        decide (r.validEndorsements a rule ≥ rule.k)

def standing (r : Registry) (issuer : Did) (category : String) : IssuerStanding :=
  let accreditationRequired := (r.policy category).isSome
  { accredited := accreditationRequired && r.isAccredited issuer category
    accreditationRequired }

/-- `impl TrustAnchor for Registry`, with the default `status`. -/
def anchor (r : Registry) : TrustAnchor where
  issuerKey := r.issuerKeys
  standing issuer category _ := r.standing issuer category
  isRevoked claimId _ := r.isRevoked claimId

end Registry

end AionTrust.Impl
