import AionTrust.Impl.Wallet
import AionTrust.Spec.Issuing

/-!
# What a holder means to disclose

The keys a selector names of a claim (`selectedKeys`), those a claim can
disclose (`Selects`), what a disclosure of them shows (`Shows`) and proves
(`Reveals`), and what is wrong with a selection a wallet is asked for
(`selectionFault`).
-/

namespace AionTrust.Spec

open AionTrust.Impl

/-- The keys of a claim's category. -/
def fieldKeys (c : Claim) : List String := (ClaimBody.fieldKeysForCategory c.category).getD []

/-- The keys a selector names of a claim. -/
def selectedKeys (c : Claim) : FieldSelector → List String
  | .all => fieldKeys c
  | .only keys => keys

/-- A selector names keys of the claim's category, and at least one. -/
structure Selects (c : Claim) (s : FieldSelector) : Prop where
  nonempty : selectedKeys c s ≠ []
  known : ∀ key ∈ selectedKeys c s, key ∈ fieldKeys c

/-- A disclosure is a claim's, of these keys in this order, with the values of
its body. -/
structure Shows (c : Claim) (keys : List String) (d : DisclosedClaim) : Prop where
  claimId : d.claimId = c.claimId
  shown : d.fields.map (·.key) = keys
  values : ∀ f ∈ d.fields, (f.key, f.value) ∈ c.body.fields

/-- What is proven is these keys, with the values of the body, and every
dependency in its place. -/
structure Reveals (body : ClaimBody) (reliance : List ReliesOn) (keys : List String)
    (v : VerifiedDisclosure) : Prop where
  revealed : ∀ key, key ∈ v.revealedKeys ↔ key ∈ keys
  values : ∀ key ∈ keys, ∀ value, v.value key = some value ↔ (key, value) ∈ body.fields
  withheld : ∀ key ∉ keys, v.value key = none
  dependencies : v.reliance = reliance.map (·.fromClaimId)

/-- What is wrong with a selector for a claim. -/
def selectorFault (c : Claim) : FieldSelector → Option WalletError
  | .all => none
  | .only keys =>
    if keys = [] then some .emptySelection
    else (keys.find? fun key => decide (key ∉ fieldKeys c)).map (.unknownField c.claimId.asStr)

variable [External]

/-- A claim as some identity issued it. -/
def Issued (c : Claim) : Prop := ∃ (issuer : Identity) (call : IssueCall), call.run issuer = .ok c

/-- What is wrong with a selection. -/
def selectionFault (w : Wallet) (sel : ClaimSelection) : Option WalletError :=
  match w.claim sel.claimId with
  | none => some (.unknownClaim sel.claimId)
  | some c => selectorFault c sel.fields

end AionTrust.Spec
