import AionTrust.Impl.Claims.Disclosure

/-!
# Trust anchors and predicates

What a verifier consults about an issuer and a claim (`TrustAnchor`), and what
it asks of a claim's fields (`PredicateRequest`): a comparison of two JSON
scalars of one kind (`evaluate`), which fails on any other pair.
-/

namespace AionTrust.Impl

open Framework (okOr)

/-! ## Anchors -/

structure IssuerStanding where
  accredited : Bool
  accreditationRequired : Bool

inductive ClaimStatus where
  | live
  | revoked
  | unresolvable
  deriving DecidableEq

/-- `trait TrustAnchor`; `status` defaults to what `isRevoked` says. -/
structure TrustAnchor [External] where
  issuerKey : Did → Option VerifyingKey
  standing : Did → String → Timestamp → IssuerStanding
  isRevoked : ClaimId → Timestamp → Bool
  status : ClaimId → Timestamp → ClaimStatus :=
    fun claimId now => if isRevoked claimId now then .revoked else .live

/-- The keys of the issuers a verifier recognizes. -/
structure IssuerDirectory [External] where
  keys : Did → Option VerifyingKey

namespace IssuerDirectory

variable [External]

def new : IssuerDirectory := ⟨fun _ => none⟩

def register (d : IssuerDirectory) (vk : VerifyingKey) : IssuerDirectory :=
  ⟨Function.update d.keys (Did.fromKey vk) (some vk)⟩

/-- Recognized issuers, no accreditation and no revocation. -/
def anchor (d : IssuerDirectory) : TrustAnchor where
  issuerKey := d.keys
  standing _ _ _ := { accredited := false, accreditationRequired := false }
  isRevoked _ _ := false

end IssuerDirectory

/-! ## Predicates -/

inductive PredicateOp where
  | ge
  | le
  | gt
  | lt
  | eq
  deriving DecidableEq

/-- `{:?}`. -/
def PredicateOp.debug : PredicateOp → String
  | ge => "Ge"
  | le => "Le"
  | gt => "Gt"
  | lt => "Lt"
  | eq => "Eq"

/-- A claim of `category` proves its `field` `op` `bound`. -/
structure PredicateRequest where
  category : String
  field : String
  op : PredicateOp
  bound : Value
  scaleVersion : Option String

def PredicateRequest.label [External] (req : PredicateRequest) : String :=
  req.field ++ " " ++ req.op.debug ++ " " ++ External.display req.bound

/-- `compare`: integers, then floats, then strings, by code points as UTF-8
bytes are. -/
def compareValues (a b : Value) : Except ClaimReject Ordering :=
  match a.asI64, b.asI64 with
  | some x, some y => .ok (compare x y)
  | _, _ =>
    match a.asF64, b.asF64 with
    | some x, some y => .ok (x.partialCmp y)
    | _, _ =>
      match a.asStr, b.asStr with
      | some x, some y => .ok (compare x y)
      | _, _ => .error .malformed

def evaluate (op : PredicateOp) (value bound : Value) : Except ClaimReject Bool := do
  let ord ← compareValues value bound
  return match op with
    | .ge => ord != .lt
    | .gt => ord == .gt
    | .le => ord != .gt
    | .lt => ord == .lt
    | .eq => ord == .eq

end AionTrust.Impl
