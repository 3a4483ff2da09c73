import AionTrust.Impl.Claims.Presentation
import AionTrust.Impl.Interop.Error

/-!
# JSON documents

What the exporter builds with `json!` and `serde_json::to_value`, and the
readings an importer tries: an absent field or one of another kind is an error
of its own. `serde_json::from_value` is outside the repository (`Serde`).
-/

namespace AionTrust.Impl

open Framework (okOr ensure)

/-- `serde_json::Map`. -/
abbrev JsonMap : Type := Std.TreeMap String Value compare

namespace Value

def ofMap (map : JsonMap) : Value := .object map.toList

/-- `json!` of an object. -/
def json (entries : List (String × Value)) : Value := ofMap (Std.TreeMap.ofList entries compare)

/-- `json!` of a `u32`. -/
def ofU32 (n : UInt32) : Value := .number (.posInt n.toUInt64)

def get (v : Value) (key : String) : Option Value :=
  match v with
  | object entries => entries.lookup key
  | _ => none

def asArray : Value → Option (List Value)
  | array vs => some vs
  | _ => none

def isObject : Value → Bool
  | object _ => true
  | _ => false

def isNull : Value → Bool
  | null => true
  | _ => false

end Value

def getStr (v : Value) (key : String) : Run String := do
  let field ← okOr (v.get key) (.error (.missingField key))
  okOr field.asStr (.error (.wrongType key))

def getObj (v : Value) (key : String) : Run Value := do
  let field ← okOr (v.get key) (.error (.missingField key))
  ensure field.isObject (.error (.wrongType key))
  return field

def take (v : Value) (key : String) : Run Value := okOr (v.get key) (.error (.missingField key))

/-- `v.get(key).and_then(Value::as_array)`. -/
def getArray (v : Value) (key : String) : Run (List Value) :=
  okOr ((v.get key).bind Value.asArray) (.error (.wrongType key))

/-! ## `serde_json::to_value` -/

def Timestamp.toValue (t : Timestamp) : Value := Value.ofI64 t.secs

def Validity.toValue (v : Validity) : Value :=
  Value.json [("from", v.fromTime.toValue), ("until", ClaimBody.optValue Timestamp.toValue v.untilTime)]

def RevealedField.toValue (f : RevealedField) : Value :=
  Value.json [("key", .string f.key), ("index", Value.ofU32 f.index), ("salt", .string f.salt),
    ("value", f.value), ("audit_path", .array (f.auditPath.map .string))]

def RevealedReliance.toValue (r : RevealedReliance) : Value :=
  Value.json [("index", Value.ofU32 r.index), ("from_claim_id", .string r.fromClaimId.asStr),
    ("salt", .string r.salt), ("kind_commit", .string r.kindCommit),
    ("audit_path", .array (r.auditPath.map .string))]

def DisclosedClaim.toValue (d : DisclosedClaim) : Value :=
  Value.json [("claim_id", .string d.claimId.asStr), ("subject_id", .string d.subjectId.asStr),
    ("issuer_id", .string d.issuerId.asStr), ("validity", d.validity.toValue),
    ("category", .string d.category), ("schema_id", .string d.schemaId),
    ("body_root", .string d.bodyRoot), ("field_count", Value.ofU32 d.fieldCount),
    ("reliance_root", .string d.relianceRoot), ("reliance_count", Value.ofU32 d.relianceCount),
    ("issuer_signature", .string d.issuerSignature), ("fields", .array (d.fields.map (·.toValue))),
    ("reliance", .array (d.reliance.map (·.toValue)))]

def Presentation.toValue (p : Presentation) : Value :=
  Value.json [("presentation_id", .string p.presentationId), ("subject_id", .string p.subjectId.asStr),
    ("subject_key", .string p.subjectKey), ("audience", .string p.audience.asStr),
    ("purpose", .string p.purpose), ("nonce", .string p.nonce), ("issued_at", p.issuedAt.toValue),
    ("expires_at", p.expiresAt.toValue), ("claims", .array (p.claims.map (·.toValue))),
    ("subject_signature", .string p.subjectSignature)]

/-- `serde_json::from_value`, an error as its text. -/
class Serde where
  disclosedClaim : Value → Except String DisclosedClaim
  presentation : Value → Except String Presentation

end AionTrust.Impl
