import AionTrust.Framework.Machine
import AionTrust.Framework.Quorum
import AionTrust.Impl.Claims.Presentation
import AionTrust.Impl.Registry

/-!
# What the registry is for

The registry as a machine over its operations (`registryMachine`), and when an
issuer is accredited for a category (`Accredited`): one record in force names
it and is endorsed by enough accreditors of the category's rule. Two
registries have the same contents (`SameContents`) when they differ in the
order and repetition of records, endorsements and accreditors only.
-/

namespace AionTrust.Spec

open AionTrust.Impl

variable [External]

inductive RegistryOp where
  | registerIssuer (key : VerifyingKey)
  | registerAccreditor (key : VerifyingKey)
  | requireAccreditation (category : String) (k : Nat) (accreditors : List Did)
  | addAccreditation (a : Accreditation)
  | revoke (claimId : String) (epoch : UInt64)
  | setEpoch (epoch : UInt64)

def RegistryOp.apply (r : Registry) : RegistryOp → Registry
  | registerIssuer key => r.registerIssuer key
  | registerAccreditor key => r.registerAccreditor key
  | requireAccreditation category k accreditors => r.requireAccreditation category k accreditors
  | addAccreditation a => r.addAccreditation a
  | revoke claimId epoch => r.revoke claimId epoch
  | setEpoch epoch => r.setEpoch epoch

/-- The registry under its operations. -/
def registryMachine : Framework.Machine Registry RegistryOp Unit where
  step r op := (op.apply r, ())

/-! ## Accreditation -/

/-- A record is in force at an epoch. -/
def InForce (a : Accreditation) (epoch : UInt64) : Prop :=
  a.fromEpoch ≤ epoch ∧ ∀ u, a.untilEpoch = some u → epoch ≤ u

/-- An accreditor of the rule with a registered key endorses a record: some
entry under its name is 64 bytes in hex that verify over the record. -/
def Endorses (r : Registry) (rule : PolicyRule) (a : Accreditation) (d : Did) : Prop :=
  d ∈ rule.accreditors ∧ ∃ vk, r.accreditorKeys d = some vk ∧ ∃ sig ∈ a.signatures,
    sig.accreditor = d ∧ ∃ bytes, decodeArray 64 sig.signature = .ok bytes ∧
      External.verify vk a.signingBytes bytes

/-- One record in force carries at least `k` endorsements of distinct
accreditors. -/
def Accredited (r : Registry) (issuer : Did) (category : String) : Prop :=
  ∃ rule, r.policy category = some rule ∧ ∃ a ∈ r.accreditations,
    a.issuerId = issuer ∧ a.category = category ∧ InForce a r.epoch ∧
      rule.k ≤ {d | Endorses r rule a d}.ncard

/-- The same record, its endorsements in any order and number. -/
structure SameRecord (a b : Accreditation) : Prop where
  issuerId : a.issuerId = b.issuerId
  category : a.category = b.category
  fromEpoch : a.fromEpoch = b.fromEpoch
  untilEpoch : a.untilEpoch = b.untilEpoch
  signatures : ∀ sig, sig ∈ a.signatures ↔ sig ∈ b.signatures

/-- The same rule, its accreditors in any order and number. -/
structure SameRule (p q : PolicyRule) : Prop where
  k : p.k = q.k
  accreditors : ∀ d, d ∈ p.accreditors ↔ d ∈ q.accreditors

/-- The same accreditor keys, epoch, rules and records, in any order and
number. -/
structure SameContents (r r' : Registry) : Prop where
  accreditorKeys : r.accreditorKeys = r'.accreditorKeys
  epoch : r.epoch = r'.epoch
  policy : ∀ category, Option.Rel SameRule (r.policy category) (r'.policy category)
  records : ∀ a ∈ r.accreditations, ∃ b ∈ r'.accreditations, SameRecord a b
  records' : ∀ b ∈ r'.accreditations, ∃ a ∈ r.accreditations, SameRecord a b

/-! ## Revocation -/

/-- The epoch of a step is not before the registry's. -/
def RegistryOp.Advances (r : Registry) : RegistryOp → Prop
  | setEpoch epoch => r.epoch ≤ epoch
  | _ => True

/-- A step marks no revoked claim as of a later epoch. -/
def RegistryOp.NotPostponed (r : Registry) : RegistryOp → Prop
  | revoke claimId epoch => r.isRevoked ⟨claimId⟩ = true → epoch ≤ r.epoch
  | _ => True

/-- A step neither postpones a mark in force nor goes back before one. -/
def RegistryOp.Keeps (r : Registry) : RegistryOp → Prop
  | setEpoch epoch => ∀ claimId e, r.revoked claimId = some e → e ≤ r.epoch → e ≤ epoch
  | op => op.NotPostponed r

/-- Along a run, a claim once revoked stays revoked, and a presentation that
discloses it, or a claim relying on it, is not accepted again. -/
structure StaysRevoked (r : Registry) (ops : List RegistryOp) : Prop where
  permanent : ∀ claimId pre mid post, ops = pre ++ mid ++ post →
    (registryMachine.final r pre).isRevoked claimId = true →
      (registryMachine.final r (pre ++ mid)).isRevoked claimId = true
  rejected : ∀ pre mid post, ops = pre ++ mid ++ post → ∀ (p : Presentation), ∀ c ∈ p.claims,
    ((registryMachine.final r pre).isRevoked c.claimId = true ∨
      ∃ dep ∈ c.reliance, (registryMachine.final r pre).isRevoked dep.fromClaimId = true) →
    ∀ audience now seen predicates report, verifyPresentationWithPredicates p audience now
        (registryMachine.final r (pre ++ mid)).anchor seen predicates = .ok report →
      report.accepted = false

end AionTrust.Spec
