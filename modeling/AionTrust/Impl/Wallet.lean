import AionTrust.Impl.Claims.Presentation

/-!
# The wallet

The subject's identity and the claims it holds (`Wallet`). It builds a
presentation of chosen fields of chosen claims (`Wallet.present`), or of the
one field that settles each of a verifier's predicates (`Wallet.satisfy`).
-/

namespace AionTrust.Impl

open Framework (Bytes okOr ensure)

/-- A claim to disclose, and which of its fields. -/
structure ClaimSelection where
  claimId : String
  fields : FieldSelector

inductive WalletError where
  | emptySelection
  | unknownField (claim key : String)
  | unknownClaim (id : String)
  | build (r : ClaimReject)
  | unsatisfiablePredicate (label : String)
  deriving DecidableEq

/-- `Display`. -/
def WalletError.text : WalletError → String
  | emptySelection => "a field selection listed no fields"
  | unknownField claim key => "claim " ++ claim ++ " has no field " ++ key
  | unknownClaim id => "no held claim with id " ++ id
  | build r => "could not build disclosure: " ++ r.text
  | unsatisfiablePredicate label => "no held claim satisfies predicate: " ++ label

/-- `fresh_nonce`, of two draws of `generate_nonce`. -/
def freshNonce (n₁ n₂ : ByteVec 12) : Bytes := n₁.val ++ n₂.val

/-- Rejects a selector that lists no fields, or one outside the category. -/
def validateSelector (claim : Claim) : FieldSelector → Except WalletError Unit
  | .all => .ok ()
  | .only keys => do
    ensure (keys ≠ []) .emptySelection
    let known ← okOr (ClaimBody.fieldKeysForCategory claim.category) (.build .malformed)
    keys.forM fun key => ensure (key ∈ known) (.unknownField claim.claimId.asStr key)

variable [External]

structure Wallet where
  identity : Identity
  claims : List Claim

namespace Wallet

def did (w : Wallet) : Did := w.identity.did

def add (w : Wallet) (claim : Claim) : Wallet := { w with claims := w.claims ++ [claim] }

/-- The first held claim with an id. -/
def claim (w : Wallet) (claimId : String) : Option Claim :=
  w.claims.find? fun c => c.claimId.asStr == claimId

/-- Every held claim in full. -/
def discloseAll (w : Wallet) : Except WalletError (List DisclosedClaim) :=
  w.claims.mapM fun c => (c.disclose .all).mapError .build

/-- One selection. -/
def discloseSelection (w : Wallet) (sel : ClaimSelection) : Except WalletError DisclosedClaim := do
  let claim ← okOr (w.claim sel.claimId) (.unknownClaim sel.claimId)
  validateSelector claim sel.fields
  (claim.disclose sel.fields).mapError .build

def discloseSelected (w : Wallet) (selections : List ClaimSelection) :
    Except WalletError (List DisclosedClaim) :=
  selections.mapM w.discloseSelection

/-- A presentation of the selections, or of every claim when there are none,
under the nonce drawn. -/
def present (w : Wallet) (audience : Did) (purpose : String) (selections : List ClaimSelection)
    (ttlSeconds : Int64) (now : Timestamp) (n₁ n₂ : ByteVec 12) : Except WalletError Presentation := do
  let disclosed ← if selections.isEmpty then w.discloseAll else w.discloseSelected selections
  return buildPresentation w.identity audience purpose (freshNonce n₁ n₂) now
    (now.plusSeconds ttlSeconds) disclosed

/-- The named claims in full, or every claim when none is named. -/
def presentAll (w : Wallet) (audience : Did) (purpose : String) (claimIds : List String)
    (ttlSeconds : Int64) (now : Timestamp) (n₁ n₂ : ByteVec 12) : Except WalletError Presentation :=
  w.present audience purpose (claimIds.map fun claimId => { claimId, fields := .all }) ttlSeconds now n₁ n₂

/-- The first held claim of the category whose field satisfies the request. -/
def findSatisfying (w : Wallet) (req : PredicateRequest) : Option Claim :=
  w.claims.find? fun c => c.category == req.category &&
    match c.fieldValue req.field with
    | some v =>
      match evaluate req.op v req.bound with
      | .ok holds => holds
      | .error _ => false
    | none => false

/-- Discloses, for each request, the one field that satisfies it. -/
def satisfy (w : Wallet) (audience : Did) (purpose : String) (requests : List PredicateRequest)
    (ttlSeconds : Int64) (now : Timestamp) (n₁ n₂ : ByteVec 12) : Except WalletError Presentation := do
  let disclosed ← requests.mapM fun req => do
    let claim ← okOr (w.findSatisfying req) (.unsatisfiablePredicate req.label)
    (claim.disclose (.only [req.field])).mapError WalletError.build
  return buildPresentation w.identity audience purpose (freshNonce n₁ n₂) now
    (now.plusSeconds ttlSeconds) disclosed

end Wallet

end AionTrust.Impl
