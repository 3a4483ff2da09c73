import AionTrust.Impl.Claims.Nonce
import AionTrust.Impl.Registry
import AionTrust.Impl.Wallet

/-!
# The demo's world

Everything the three surfaces share (`AppState`), as it is seeded: two
accreditors, three issuers that both of them accredit for one category each,
and a wallet with a claim from each issuer. The keys and salts that seeding
generates are `Draws`.
-/

namespace AionTrust.Impl

variable [External]

/-- An issuer the operator controls. -/
structure IssuerSlot where
  identity : Identity
  label : String
  categories : List String

structure AppState where
  epoch : UInt64
  registry : Registry
  issuers : String → Option IssuerSlot
  employer : Identity
  wallet : Wallet
  nonces : InMemoryNonceStore
  lastPresentation : Option Presentation
  claimLabels : String → Option String

def startEpoch : UInt64 := 1

/-- What one seeding generates. -/
structure Draws where
  accreditor₁ : Identity
  accreditor₂ : Identity
  employer : Identity
  candidate : Identity
  acme : Identity
  screen : Identity
  uni : Identity
  acmeSalt : Digest
  screenSalt : Digest
  uniSalt : Digest

/-- Registers an issuer, accredited by all accreditors for a category. -/
def accreditedIssuer (registry : Registry) (accreditors : List Identity) (identity : Identity)
    (label category : String) : Registry × IssuerSlot :=
  let registry := registry.registerIssuer identity.verifyingKey
  let policy := accreditors.map (·.did)
  let registry := registry.requireAccreditation category accreditors.length policy
  let acc := accreditors.foldl (·.endorse ·) (.new identity.did category startEpoch none)
  (registry.addAccreditation acc, { identity, label, categories := [category] })

/-- Issues a claim to the wallet and labels it, or does nothing. -/
def seedClaim (wallet : Wallet) (labels : String → Option String) (issuer : Identity) (salt : Digest)
    (body : ClaimBody) (label : String) : Wallet × (String → Option String) :=
  let validity : Validity := { fromTime := ⟨0⟩, untilTime := none }
  match Claim.issue salt issuer wallet.did validity body with
  | .ok claim => (wallet.add claim, Function.update labels claim.claimId.asStr (some label))
  | .error _ => (wallet, labels)

def employmentExample : ClaimBody := .employment {
  employer := "Acme Corp"
  title := "Senior Engineer"
  employmentType := "full_time"
  start := "2021-03-01"
  «end» := some "2024-08-15"
  rehireEligible := true }

def educationExample : ClaimBody := .education {
  institution := "State University"
  credential := "M.S. Computer Science"
  conferred := "2020-05-20"
  aionEduRef := none
  degreeRank := some 4 }

def backgroundCheckExample : ClaimBody := .backgroundCheck {
  provider := "TrustScreen"
  scope := ["criminal", "identity", "sanctions"]
  result := "clear"
  performed := "2026-05-10"
  validUntil := some "2027-05-10"
  jurisdiction := "US"
  fcraCompliant := true }

def AppState.seed (draws : Draws) : AppState :=
  let registry := Registry.new startEpoch
  let accreditors := [draws.accreditor₁, draws.accreditor₂]
  let registry := accreditors.foldl (fun registry a => registry.registerAccreditor a.verifyingKey) registry
  let wallet : Wallet := { identity := draws.candidate, claims := [] }
  let (registry, acme) := accreditedIssuer registry accreditors draws.acme "Acme Corp" "employment"
  let (registry, screen) :=
    accreditedIssuer registry accreditors draws.screen "TrustScreen" "background_check"
  let (registry, uni) := accreditedIssuer registry accreditors draws.uni "State University" "education"
  let (wallet, claimLabels) := seedClaim wallet (fun _ => none) acme.identity draws.acmeSalt
    employmentExample "Senior Engineer @ Acme"
  let (wallet, claimLabels) := seedClaim wallet claimLabels screen.identity draws.screenSalt
    backgroundCheckExample "Background check (clear)"
  let (wallet, claimLabels) := seedClaim wallet claimLabels uni.identity draws.uniSalt educationExample
    "M.S. Computer Science"
  let issuers := fun _ => none
  let issuers := Function.update issuers acme.identity.did.asStr (some acme)
  let issuers := Function.update issuers screen.identity.did.asStr (some screen)
  let issuers := Function.update issuers uni.identity.did.asStr (some uni)
  { epoch := startEpoch
    registry
    issuers
    employer := draws.employer
    wallet
    nonces := .new
    lastPresentation := none
    claimLabels }

end AionTrust.Impl
