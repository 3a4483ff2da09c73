import AionTrust.Impl.Interop.Didkey
import AionTrust.Impl.Interop.Jsonget
import AionTrust.Impl.Interop.Rfc3339

/-!
# Verifiable credentials

A disclosed claim as a credential document, its own signature and disclosures
in the proof (`exportDisclosedVc`), and back: the claim is rebuilt from the
proof and the signed top-level fields (`rebuildNative`), its key must be the
issuer's, and it must verify (`importDisclosedVc`).
-/

namespace AionTrust.Impl

open Framework (okOr ensure)

/-- `CONTEXT_V1`. -/
def contextV1 : Value :=
  .array [.string "https://www.w3.org/ns/credentials/v2", .string "https://aion.dev/trust/interop/v1"]

def proofType : String := "AionTrustNativeProof2026"

def schemaBase : String := "https://aion.dev/trust/schema/"

def categoryToVcType : String → String
  | "employment" => "EmploymentCredential"
  | "education" => "EducationCredential"
  | "background_check" => "BackgroundCheckCredential"
  | "certification" => "CertificationCredential"
  | "identity" => "IdentityCredential"
  | "reference" => "ReferenceCredential"
  | "skill" => "SkillCredential"
  | _ => "AionTrustCredential"

def validityTs (validity : Value) (key : String) : Run Timestamp := do
  let n ← okOr ((validity.get key).bind Value.asI64) (.error (.wrongType key))
  return ⟨n⟩

/-- `credentialSubject`: the subject, and every disclosed field. -/
def credentialSubject (subjectId : String) (fields : List Value) : Run JsonMap :=
  fields.foldlM (fun (subject : JsonMap) f => do
    let key ← getStr f "key"
    let value ← take f "value"
    return subject.insert key value) (Std.TreeMap.ofList [("id", .string subjectId)] compare)

/-- `validUntil`, where the validity has an end. -/
def insertUntil (validity : Value) (vc : JsonMap) : Run JsonMap :=
  match (validity.get "until").filter fun u => !u.isNull with
  | some u => do
    let n ← okOr u.asI64 (.error (.wrongType "until"))
    let text ← toRfc3339 ⟨n⟩
    return vc.insert "validUntil" (.string text)
  | none => .ok vc

def subjectDid (doc : Value) : Run String := do
  getStr (← getObj doc "credentialSubject") "id"

/-- `validUntil`, where the document has one. -/
def readUntil (doc : Value) : Run Value :=
  match (doc.get "validUntil").filter fun v => !v.isNull with
  | some v => do
    let text ← okOr v.asStr (.error (.wrongType "validUntil"))
    let untilTime ← fromRfc3339 text
    return untilTime.toValue
  | none => .ok .null

/-- The native JSON of the claim in a document. -/
def rebuildNative (doc proof : Value) : Run Value := do
  let id ← getStr doc "id"
  let claimId ← okOr (stripPrefix "urn:aion-trust:claim:" id) (.error (.wrongType "id"))
  let fromTime ← fromRfc3339 (← getStr doc "validFrom")
  let untilTime ← readUntil doc
  let validity := Value.json [("from", fromTime.toValue), ("until", untilTime)]
  return Value.json [
    ("claim_id", .string claimId),
    ("subject_id", .string (← subjectDid doc)),
    ("issuer_id", .string (← getStr doc "issuer")),
    ("validity", validity),
    ("category", .string (← getStr proof "category")),
    ("schema_id", .string (← getStr proof "schemaId")),
    ("body_root", .string (← getStr proof "bodyRoot")),
    ("field_count", ← take proof "fieldCount"),
    ("reliance_root", .string (← getStr proof "relianceRoot")),
    ("reliance_count", ← take proof "relianceCount"),
    ("issuer_signature", .string (← getStr proof "aionSignature")),
    ("fields", ← take proof "disclosures"),
    ("reliance", ← take proof "relianceDisclosures")]

variable [External]

/-- The credential of a disclosed claim, under its issuer's key. -/
def exportDisclosedVc (d : DisclosedClaim) (issuerVk : VerifyingKey) : Run Value := do
  let native := d.toValue
  let subjectId ← getStr native "subject_id"
  let category ← getStr native "category"
  let schemaId ← getStr native "schema_id"
  let validity ← getObj native "validity"
  let fields ← getArray native "fields"
  let reliance ← getArray native "reliance"
  let subject ← credentialSubject subjectId fields
  let vm ← verificationMethod issuerVk
  let proof := Value.json [
    ("type", .string proofType),
    ("proofPurpose", .string "assertionMethod"),
    ("verificationMethod", .string vm),
    ("category", .string category),
    ("schemaId", .string schemaId),
    ("bodyRoot", .string (← getStr native "body_root")),
    ("fieldCount", ← take native "field_count"),
    ("relianceRoot", .string (← getStr native "reliance_root")),
    ("relianceCount", ← take native "reliance_count"),
    ("aionSignature", .string (← getStr native "issuer_signature")),
    ("disclosures", .array fields),
    ("relianceDisclosures", .array reliance)]
  let vc : JsonMap := Std.TreeMap.ofList [
    ("@context", contextV1),
    ("type", .array [.string "VerifiableCredential", .string (categoryToVcType category)]),
    ("id", .string ("urn:aion-trust:claim:" ++ (← getStr native "claim_id"))),
    ("issuer", .string (← getStr native "issuer_id")),
    ("credentialSchema", Value.json [("id", .string (schemaBase ++ schemaId)),
      ("type", .string "AionTrustSchema2026")]),
    ("validFrom", .string (← toRfc3339 (← validityTs validity "from"))),
    ("credentialSubject", Value.ofMap subject),
    ("proof", proof)] compare
  return Value.ofMap (← insertUntil validity vc)

/-- The disclosed claim of a credential, verified under the key it carries. -/
def importDisclosedVc [Serde] (doc : Value) : Run DisclosedClaim := do
  let proof ← getObj doc "proof"
  let issuerVk ← decodeDidKey (← getStr proof "verificationMethod")
  let native ← rebuildNative doc proof
  let disclosed ← (Serde.disclosedClaim native).mapError fun e => .error (.json e)
  let derived := Did.fromKey issuerVk
  ensure (derived = disclosed.issuerId)
    (.error (.didBinding disclosed.issuerId.asStr derived.asStr))
  let _verified ← (disclosed.verify issuerVk).mapError fun e => .error (.verify e.text)
  return disclosed

end AionTrust.Impl
