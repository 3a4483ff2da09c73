import AionTrust.Impl.Files
import AionTrust.Impl.Interop.Jsonget
import AionTrust.Spec.Pretty

/-!
# Types as JSON text

The value of each type that a command keeps in a file (`Shape`), its fields in
the order of its declaration, as `serde_json` writes it. Where the shapes of a
type differ for different values, its texts are those of its shapes, and each
reads as the value it is of (`jsonText`).
-/

namespace AionTrust.Spec

open AionTrust.Impl

/-- A type with a value for each of its elements. -/
class Shape (α : Type) where
  shape : α → Value
  inj : Function.Injective shape

namespace Shape

def validity (v : Validity) : Value :=
  .object [("from", v.fromTime.toValue), ("until", ClaimBody.optValue Timestamp.toValue v.untilTime)]

def nonceRecord (r : NonceRecord) : Value :=
  .object [("audience", .string r.audience), ("nonce", .string r.nonce), ("expires_at", .ofI64 r.expiresAt)]

def nonceStore (s : JsonFileNonceStore) : Value := .object [("seen", .array (s.seen.map nonceRecord))]

def body (b : ClaimBody) : Value := .object (("claim_type", .string b.category) :: b.fields)

def reliesOn (r : ReliesOn) : Value :=
  .object [("from_claim_id", .string r.fromClaimId.asStr), ("kind", .string r.kind.asStr)]

def claim (c : Claim) : Value :=
  .object [("claim_id", .string c.claimId.asStr), ("subject_id", .string c.subjectId.asStr),
    ("issuer_id", .string c.issuerId.asStr), ("validity", validity c.validity), ("body", body c.body),
    ("master_salt", .string c.masterSalt), ("body_root", .string c.bodyRoot),
    ("field_count", .ofU32 c.fieldCount), ("reliance", .array (c.reliance.map reliesOn)),
    ("reliance_root", .string c.relianceRoot), ("reliance_count", .ofU32 c.relianceCount),
    ("issuer_signature", .string c.issuerSignature)]

def revealedField (f : RevealedField) : Value :=
  .object [("key", .string f.key), ("index", .ofU32 f.index), ("salt", .string f.salt), ("value", f.value),
    ("audit_path", .array (f.auditPath.map .string))]

def revealedReliance (r : RevealedReliance) : Value :=
  .object [("index", .ofU32 r.index), ("from_claim_id", .string r.fromClaimId.asStr), ("salt", .string r.salt),
    ("kind_commit", .string r.kindCommit), ("audit_path", .array (r.auditPath.map .string))]

def disclosedClaim (d : DisclosedClaim) : Value :=
  .object [("claim_id", .string d.claimId.asStr), ("subject_id", .string d.subjectId.asStr),
    ("issuer_id", .string d.issuerId.asStr), ("validity", validity d.validity),
    ("category", .string d.category), ("schema_id", .string d.schemaId), ("body_root", .string d.bodyRoot),
    ("field_count", .ofU32 d.fieldCount), ("reliance_root", .string d.relianceRoot),
    ("reliance_count", .ofU32 d.relianceCount), ("issuer_signature", .string d.issuerSignature),
    ("fields", .array (d.fields.map revealedField)), ("reliance", .array (d.reliance.map revealedReliance))]

def presentation (p : Presentation) : Value :=
  .object [("presentation_id", .string p.presentationId), ("subject_id", .string p.subjectId.asStr),
    ("subject_key", .string p.subjectKey), ("audience", .string p.audience.asStr),
    ("purpose", .string p.purpose), ("nonce", .string p.nonce), ("issued_at", p.issuedAt.toValue),
    ("expires_at", p.expiresAt.toValue), ("claims", .array (p.claims.map disclosedClaim)),
    ("subject_signature", .string p.subjectSignature)]

end Shape

open Classical in
/-- The texts of a type are those of its shapes. -/
noncomputable abbrev jsonText {α : Type} [Shape α] : JsonText α where
  toStringPretty a :=
    if Pretty.Exact (Shape.shape a) then .ok (Pretty.text (Shape.shape a)) else .error "no text"
  fromStr s :=
    if h : ∃ a : α, Pretty.Exact (Shape.shape a) ∧ Pretty.text (Shape.shape a) = s then .ok h.choose
    else .error "no value"

end AionTrust.Spec
