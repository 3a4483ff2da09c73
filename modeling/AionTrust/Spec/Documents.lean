import AionTrust.Impl.Interop.Vp

/-!
# Documents

A timestamp is formattable where its year is one of four characters
(`Formattable`), a validity and a presentation where every timestamp in them
is. What is assumed of `serde_json` is `Reads`.
-/

namespace AionTrust.Spec

open AionTrust.Impl

/-- The timestamps from -0999-01-01T00:00:00Z to 9999-12-31T23:59:59Z. -/
def Formattable (t : Timestamp) : Prop := -93692592000 ≤ t.secs.toInt ∧ t.secs.toInt ≤ 253402300799

instance : DecidablePred Formattable := fun _ => inferInstanceAs (Decidable (_ ∧ _))

structure FormattableValidity (v : Validity) : Prop where
  fromTime : Formattable v.fromTime
  untilTime : ∀ u, v.untilTime = some u → Formattable u

structure FormattablePresentation (p : Presentation) : Prop where
  issuedAt : Formattable p.issuedAt
  expiresAt : Formattable p.expiresAt
  claims : ∀ c ∈ p.claims, FormattableValidity c.validity

/-- Two presentations ask the same of a verifier, and of the same claims. -/
structure SameTerms (p p' : Presentation) : Prop where
  audience : p'.audience = p.audience
  purpose : p'.purpose = p.purpose
  nonce : p'.nonce = p.nonce
  issuedAt : p'.issuedAt = p.issuedAt
  expiresAt : p'.expiresAt = p.expiresAt
  claimIds : p'.claims.map (·.claimId) = p.claims.map (·.claimId)
  subjectSignature : p'.subjectSignature = p.subjectSignature

/-- `from_value` gives back what `to_value` was given. -/
structure Reads [Serde] : Prop where
  disclosedClaim : ∀ d : DisclosedClaim, Serde.disclosedClaim d.toValue = .ok d
  presentation : ∀ p : Presentation, Serde.presentation p.toValue = .ok p

end AionTrust.Spec
