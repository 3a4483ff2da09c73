import AionTrust.Proof.Interop.Vc

/-!
# Reading documents

A `from_value` that keeps its promise: it reads every field of an object under
its name (`reading`, `reads`).
-/

namespace AionTrust.Proof

open AionTrust.Impl AionTrust.Spec
open Framework (ok_bind)

/-- The reading of a field, an error as its name. -/
def readField {α : Type} (f : Value → Option α) (v : Value) (key : String) : Except String α :=
  Framework.okOr ((v.get key).bind f) key

def asU32 : Value → Option UInt32
  | .number (.posInt n) => u32TryFrom n.toNat
  | _ => none

def asTimestamp (v : Value) : Option Timestamp := v.asI64.map .mk

def asStrings (v : Value) : Option (List String) := v.asArray.bind fun vs => vs.mapM Value.asStr

def readValidity (v : Value) : Except String Validity := do
  return {
    fromTime := ← readField asTimestamp v "from"
    untilTime := ← readField (fun u => if u.isNull then some none else (asTimestamp u).map some) v "until" }

def readRevealedField (v : Value) : Except String RevealedField := do
  return {
    key := ← readField Value.asStr v "key"
    index := ← readField asU32 v "index"
    salt := ← readField Value.asStr v "salt"
    value := ← readField some v "value"
    auditPath := ← readField asStrings v "audit_path" }

def readRevealedReliance (v : Value) : Except String RevealedReliance := do
  return {
    index := ← readField asU32 v "index"
    fromClaimId := ⟨← readField Value.asStr v "from_claim_id"⟩
    salt := ← readField Value.asStr v "salt"
    kindCommit := ← readField Value.asStr v "kind_commit"
    auditPath := ← readField asStrings v "audit_path" }

def readDisclosedClaim (v : Value) : Except String DisclosedClaim := do
  return {
    claimId := ⟨← readField Value.asStr v "claim_id"⟩
    subjectId := ⟨← readField Value.asStr v "subject_id"⟩
    issuerId := ⟨← readField Value.asStr v "issuer_id"⟩
    validity := ← readValidity (← readField some v "validity")
    category := ← readField Value.asStr v "category"
    schemaId := ← readField Value.asStr v "schema_id"
    bodyRoot := ← readField Value.asStr v "body_root"
    fieldCount := ← readField asU32 v "field_count"
    relianceRoot := ← readField Value.asStr v "reliance_root"
    relianceCount := ← readField asU32 v "reliance_count"
    issuerSignature := ← readField Value.asStr v "issuer_signature"
    fields := ← (← readField Value.asArray v "fields").mapM readRevealedField
    reliance := ← (← readField Value.asArray v "reliance").mapM readRevealedReliance }

def readPresentation (v : Value) : Except String Presentation := do
  return {
    presentationId := ← readField Value.asStr v "presentation_id"
    subjectId := ⟨← readField Value.asStr v "subject_id"⟩
    subjectKey := ← readField Value.asStr v "subject_key"
    audience := ⟨← readField Value.asStr v "audience"⟩
    purpose := ← readField Value.asStr v "purpose"
    nonce := ← readField Value.asStr v "nonce"
    issuedAt := ← readField asTimestamp v "issued_at"
    expiresAt := ← readField asTimestamp v "expires_at"
    claims := ← (← readField Value.asArray v "claims").mapM readDisclosedClaim
    subjectSignature := ← readField Value.asStr v "subject_signature" }

abbrev reading : Serde where
  disclosedClaim := readDisclosedClaim
  presentation := readPresentation

/-! ## What is written is read -/

theorem readField_eq {α : Type} {f : Value → Option α} {v w : Value} {key : String} {a : α}
    (hget : v.get key = some w) (hf : f w = some a) : readField f v key = .ok a := by
  rw [readField, hget, Option.bind_some, hf]
  rfl

theorem asU32_ofU32 (n : UInt32) : asU32 (.ofU32 n) = some n :=
  u32TryFrom_eq_some.mpr (UInt32.toNat_toUInt64 n).symm

theorem asTimestamp_toValue (t : Timestamp) : asTimestamp t.toValue = some t := by
  rw [asTimestamp, Timestamp.toValue, asI64_ofI64]
  rfl

theorem asStrings_map (ss : List String) : asStrings (.array (ss.map .string)) = some ss := by
  have hmap : (ss.map Value.string).mapM Value.asStr = some ss := by
    induction ss with
    | nil => rfl
    | cons s ss ih =>
      rw [List.map_cons, List.mapM_cons, ih]
      rfl
  exact hmap

theorem mapM_map {α : Type} {f : Value → Except String α} {g : α → Value} (h : ∀ a, f (g a) = .ok a)
    (as : List α) : (as.map g).mapM f = .ok as := by
  rw [Framework.mapM_eq_ok, List.forall₂_map_left_iff, List.forall₂_same]
  exact fun a _ => h a

theorem readValidity_toValue (v : Validity) : readValidity v.toValue = .ok v := by
  have hfrom : readField asTimestamp v.toValue "from" = .ok v.fromTime :=
    readField_eq (get_json _ _) (asTimestamp_toValue _)
  have huntil : readField (fun u => if u.isNull then some none else (asTimestamp u).map some) v.toValue
      "until" = .ok v.untilTime := by
    refine readField_eq (get_json _ _) ?_
    show (if (ClaimBody.optValue Timestamp.toValue v.untilTime).isNull = true then some none
      else (asTimestamp (ClaimBody.optValue Timestamp.toValue v.untilTime)).map some) = some v.untilTime
    cases v.untilTime with
    | none => rfl
    | some u => exact congrArg (Option.map some) (asTimestamp_toValue u)
  rw [readValidity, hfrom, ok_bind, huntil]
  rfl

theorem readRevealedField_toValue (f : RevealedField) : readRevealedField f.toValue = .ok f := by
  have hstr : readField Value.asStr f.toValue "key" = .ok f.key ∧
      readField Value.asStr f.toValue "salt" = .ok f.salt ∧ readField some f.toValue "value" = .ok f.value :=
    ⟨readField_eq (get_json _ _) rfl, readField_eq (get_json _ _) rfl, readField_eq (get_json _ _) rfl⟩
  have hindex : readField asU32 f.toValue "index" = .ok f.index :=
    readField_eq (get_json _ _) (asU32_ofU32 _)
  have hpath : readField asStrings f.toValue "audit_path" = .ok f.auditPath :=
    readField_eq (get_json _ _) (asStrings_map _)
  rw [readRevealedField, hstr.1, ok_bind, hindex, ok_bind, hstr.2.1, ok_bind, hstr.2.2, ok_bind, hpath]
  rfl

theorem readRevealedReliance_toValue (r : RevealedReliance) : readRevealedReliance r.toValue = .ok r := by
  have hstr : readField Value.asStr r.toValue "from_claim_id" = .ok r.fromClaimId.asStr ∧
      readField Value.asStr r.toValue "salt" = .ok r.salt ∧
      readField Value.asStr r.toValue "kind_commit" = .ok r.kindCommit :=
    ⟨readField_eq (get_json _ _) rfl, readField_eq (get_json _ _) rfl, readField_eq (get_json _ _) rfl⟩
  have hindex : readField asU32 r.toValue "index" = .ok r.index :=
    readField_eq (get_json _ _) (asU32_ofU32 _)
  have hpath : readField asStrings r.toValue "audit_path" = .ok r.auditPath :=
    readField_eq (get_json _ _) (asStrings_map _)
  rw [readRevealedReliance, hindex, ok_bind, hstr.1, ok_bind, hstr.2.1, ok_bind, hstr.2.2, ok_bind, hpath]
  rfl

theorem readDisclosedClaim_toValue (d : DisclosedClaim) : readDisclosedClaim d.toValue = .ok d := by
  have hids : readField Value.asStr d.toValue "claim_id" = .ok d.claimId.asStr ∧
      readField Value.asStr d.toValue "subject_id" = .ok d.subjectId.asStr ∧
      readField Value.asStr d.toValue "issuer_id" = .ok d.issuerId.asStr :=
    ⟨readField_eq (get_json _ _) rfl, readField_eq (get_json _ _) rfl, readField_eq (get_json _ _) rfl⟩
  have hstr : readField Value.asStr d.toValue "category" = .ok d.category ∧
      readField Value.asStr d.toValue "schema_id" = .ok d.schemaId ∧
      readField Value.asStr d.toValue "body_root" = .ok d.bodyRoot ∧
      readField Value.asStr d.toValue "reliance_root" = .ok d.relianceRoot ∧
      readField Value.asStr d.toValue "issuer_signature" = .ok d.issuerSignature := by
    refine ⟨?_, ?_, ?_, ?_, ?_⟩ <;> exact readField_eq (get_json _ _) rfl
  have hcount : readField asU32 d.toValue "field_count" = .ok d.fieldCount ∧
      readField asU32 d.toValue "reliance_count" = .ok d.relianceCount :=
    ⟨readField_eq (get_json _ _) (asU32_ofU32 _), readField_eq (get_json _ _) (asU32_ofU32 _)⟩
  have hvalidity : readField some d.toValue "validity" = .ok d.validity.toValue :=
    readField_eq (get_json _ _) rfl
  have harrays : readField Value.asArray d.toValue "fields" = .ok (d.fields.map (·.toValue)) ∧
      readField Value.asArray d.toValue "reliance" = .ok (d.reliance.map (·.toValue)) :=
    ⟨readField_eq (get_json _ _) rfl, readField_eq (get_json _ _) rfl⟩
  simp only [readDisclosedClaim, hids, hstr, hcount, hvalidity, harrays, readValidity_toValue,
    mapM_map readRevealedField_toValue, mapM_map readRevealedReliance_toValue, ok_bind]
  rfl

theorem readPresentation_toValue (p : Presentation) : readPresentation p.toValue = .ok p := by
  have hstr : readField Value.asStr p.toValue "presentation_id" = .ok p.presentationId ∧
      readField Value.asStr p.toValue "subject_id" = .ok p.subjectId.asStr ∧
      readField Value.asStr p.toValue "subject_key" = .ok p.subjectKey ∧
      readField Value.asStr p.toValue "audience" = .ok p.audience.asStr ∧
      readField Value.asStr p.toValue "purpose" = .ok p.purpose ∧
      readField Value.asStr p.toValue "nonce" = .ok p.nonce ∧
      readField Value.asStr p.toValue "subject_signature" = .ok p.subjectSignature := by
    refine ⟨?_, ?_, ?_, ?_, ?_, ?_, ?_⟩ <;> exact readField_eq (get_json _ _) rfl
  have hwindow : readField asTimestamp p.toValue "issued_at" = .ok p.issuedAt ∧
      readField asTimestamp p.toValue "expires_at" = .ok p.expiresAt :=
    ⟨readField_eq (get_json _ _) (asTimestamp_toValue _), readField_eq (get_json _ _) (asTimestamp_toValue _)⟩
  have hclaims : readField Value.asArray p.toValue "claims" = .ok (p.claims.map (·.toValue)) :=
    readField_eq (get_json _ _) rfl
  simp only [readPresentation, hstr, hwindow, hclaims, mapM_map readDisclosedClaim_toValue, ok_bind]
  rfl

theorem reading_reads : @Reads reading :=
  @Reads.mk reading readDisclosedClaim_toValue readPresentation_toValue

end AionTrust.Proof
