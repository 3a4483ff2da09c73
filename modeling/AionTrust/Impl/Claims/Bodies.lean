import Std.Data.TreeMap.Lemmas
import AionTrust.Impl.Core.Id

/-!
# Claim bodies

The seven categories of claims, their fields (`ClaimBody`), and their form as
a JSON object (`ClaimBody.toValue`), whose entries are the fields and the tag
`claim_type`. `fieldKeysForCategory` lists a category's fields in the order of
their keys. A claim holds from one time to another (`Validity`), and is
rejected for one of a few reasons (`ClaimReject`).
-/

namespace AionTrust.Impl

structure EmploymentBody where
  employer : String
  title : String
  employmentType : String
  start : String
  «end» : Option String
  rehireEligible : Bool

structure EducationBody where
  institution : String
  credential : String
  conferred : String
  aionEduRef : Option String
  degreeRank : Option UInt8

structure CertificationBody where
  authority : String
  name : String
  issued : String
  expires : Option String
  credentialNo : Option String

structure BackgroundCheckBody where
  provider : String
  scope : List String
  result : String
  performed : String
  validUntil : Option String
  jurisdiction : String
  fcraCompliant : Bool

structure IdentityBody where
  method : String
  verified : String
  assurance : String

structure ReferenceBody where
  relationship : String
  statementHash : String
  given : String

structure SkillBody where
  skill : String
  level : Option String

inductive ClaimBody where
  | employment (b : EmploymentBody)
  | education (b : EducationBody)
  | certification (b : CertificationBody)
  | backgroundCheck (b : BackgroundCheckBody)
  | identity (b : IdentityBody)
  | reference (b : ReferenceBody)
  | skill (b : SkillBody)

namespace ClaimBody

def category : ClaimBody → String
  | employment _ => "employment"
  | education _ => "education"
  | certification _ => "certification"
  | backgroundCheck _ => "background_check"
  | identity _ => "identity"
  | reference _ => "reference"
  | skill _ => "skill"

/-- The fields of a category, in the order of their keys. -/
def fieldKeysForCategory : String → Option (List String)
  | "employment" =>
    some ["employer", "employment_type", "end", "rehire_eligible", "start", "title"]
  | "education" =>
    some ["aion_edu_ref", "conferred", "credential", "degree_rank", "institution"]
  | "certification" => some ["authority", "credential_no", "expires", "issued", "name"]
  | "background_check" =>
    some ["fcra_compliant", "jurisdiction", "performed", "provider", "result", "scope",
      "valid_until"]
  | "identity" => some ["assurance", "method", "verified"]
  | "reference" => some ["given", "relationship", "statement_hash"]
  | "skill" => some ["level", "skill"]
  | _ => none

def schemaId : ClaimBody → String
  | employment _ => "aion-trust/employment/v1"
  | education _ => "aion-trust/education/v1"
  | certification _ => "aion-trust/certification/v1"
  | backgroundCheck _ => "aion-trust/background_check/v1"
  | identity _ => "aion-trust/identity/v1"
  | reference _ => "aion-trust/reference/v1"
  | skill _ => "aion-trust/skill/v1"

/-! ## As JSON -/

/-- `Option<T>` as JSON, `None` as `null`. -/
def optValue {α : Type} (f : α → Value) : Option α → Value
  | some a => f a
  | none => .null

/-- The fields of a body, as its struct lists them. -/
def fields : ClaimBody → List (String × Value)
  | employment b =>
    [("employer", .string b.employer), ("title", .string b.title),
      ("employment_type", .string b.employmentType), ("start", .string b.start),
      ("end", optValue .string b.end), ("rehire_eligible", .bool b.rehireEligible)]
  | education b =>
    [("institution", .string b.institution), ("credential", .string b.credential),
      ("conferred", .string b.conferred), ("aion_edu_ref", optValue .string b.aionEduRef),
      ("degree_rank", optValue (fun r => .number (.posInt r.toUInt64)) b.degreeRank)]
  | certification b =>
    [("authority", .string b.authority), ("name", .string b.name), ("issued", .string b.issued),
      ("expires", optValue .string b.expires), ("credential_no", optValue .string b.credentialNo)]
  | backgroundCheck b =>
    [("provider", .string b.provider), ("scope", .array (b.scope.map .string)),
      ("result", .string b.result), ("performed", .string b.performed),
      ("valid_until", optValue .string b.validUntil), ("jurisdiction", .string b.jurisdiction),
      ("fcra_compliant", .bool b.fcraCompliant)]
  | identity b =>
    [("method", .string b.method), ("verified", .string b.verified),
      ("assurance", .string b.assurance)]
  | reference b =>
    [("relationship", .string b.relationship), ("statement_hash", .string b.statementHash),
      ("given", .string b.given)]
  | skill b => [("skill", .string b.skill), ("level", optValue .string b.level)]

/-- `serde_json::to_value` of a body: an internally tagged object. Its map
keeps the order of the keys. -/
def toValue (body : ClaimBody) : Value :=
  .object (Std.TreeMap.ofList (("claim_type", .string body.category) :: body.fields) compare).toList

end ClaimBody

/-! ## Validity and rejections -/

structure Validity where
  fromTime : Timestamp
  untilTime : Option Timestamp
  deriving DecidableEq

/-- `active_at`: both ends are inside, and no end means open. -/
def Validity.activeAt (v : Validity) (now : Timestamp) : Bool :=
  decide (now ≥ v.fromTime) && v.untilTime.all fun u => decide (now ≤ u)

inductive ClaimReject where
  | issuerKeyMismatch
  | bodyTampered
  | claimIdMismatch
  | badSignature
  | missingField
  | reliesTampered
  | malformed
  deriving DecidableEq

/-- `Display`. -/
def ClaimReject.text : ClaimReject → String
  | issuerKeyMismatch => "issuer key does not match issuer_id"
  | bodyTampered => "field does not match the signed body_root"
  | claimIdMismatch => "claim_id does not match signed content"
  | badSignature => "issuer signature is invalid"
  | missingField => "a required field was not disclosed"
  | reliesTampered => "reliance does not match the signed reliance_root"
  | malformed => "claim is malformed"

end AionTrust.Impl
