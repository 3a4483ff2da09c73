import AionTrust.Impl.Interop.Vp
import AionTrust.Proof.Acceptance
import AionTrust.Proof.Interop.Didkey
import AionTrust.Proof.Interop.Rfc3339
import AionTrust.Proof.Leaves

/-!
# Credentials

What an exported credential says, reading by reading (`Credential`,
`export_spec`), and what import rebuilds from it: the native claim, where the
bounds of its validity are formattable, and an error elsewhere
(`rebuildNative_spec`, `importDisclosedVc_spec`).
-/

namespace AionTrust.Proof

open AionTrust.Impl AionTrust.Spec
open Framework (ok_bind bind_eq_ok ensure_eq_ok mapError_eq_ok okOr_eq_ok pure_eq_ok)

/-! ## Maps -/

theorem get_ofMap (map : JsonMap) (key : String) : (Value.ofMap map).get key = map[key]? := by
  have hget : (Value.ofMap map).get key = map.toList.lookup key := rfl
  refine Option.ext fun value => ?_
  rw [hget, lookup_eq_some_iff (toList_distinct _), Std.TreeMap.mem_toList_iff_getElem?_eq_some]

/-- The last entry of a key, if any. -/
def entry (entries : List (String × Value)) (key : String) (found : Option Value) : Option Value :=
  entries.foldl (fun found e => if e.1 = key then some e.2 else found) found

theorem getElem?_insertMany (entries : List (String × Value)) (map : JsonMap) (key : String) :
    (map.insertMany entries)[key]? = entry entries key map[key]? := by
  induction entries generalizing map with
  | nil => rfl
  | cons e entries ih =>
    rw [Std.TreeMap.insertMany_cons, ih, Std.TreeMap.getElem?_insert]
    simp only [entry, List.foldl_cons, Std.LawfulEqCmp.compare_eq_iff_eq]

theorem getElem?_ofList (entries : List (String × Value)) (key : String) :
    (Std.TreeMap.ofList entries compare)[key]? = entry entries key none :=
  getElem?_insertMany entries ∅ key

theorem get_json (entries : List (String × Value)) (key : String) :
    (Value.json entries).get key = entry entries key none := by
  rw [Value.json, get_ofMap, getElem?_ofList]

theorem getStr_of_get {v : Value} {key s : String} (h : v.get key = some (.string s)) :
    getStr v key = .ok s := by
  rw [getStr, h]
  rfl

theorem getObj_of_get {v : Value} {key : String} {map : JsonMap} (h : v.get key = some (.ofMap map)) :
    getObj v key = .ok (.ofMap map) := by
  rw [getObj, h]
  rfl

theorem getArray_of_get {v : Value} {key : String} {vs : List Value} (h : v.get key = some (.array vs)) :
    getArray v key = .ok vs := by
  rw [getArray, h]
  rfl

theorem take_of_get {v w : Value} {key : String} (h : v.get key = some w) : take v key = .ok w := by
  rw [take, h]
  rfl

@[simp] theorem asI64_ofI64 (n : Int64) : (Value.ofI64 n).asI64 = some n := by
  unfold Value.ofI64
  split
  · rfl
  · rename_i h
    have hpos : 0 ≤ n.toBitVec.toInt := by simpa [Int64.lt_iff_toInt_lt] using h
    have hnat : n.toUInt64.toNat < 2 ^ 63 := by
      rw [BitVec.toInt_eq_toNat_cond] at hpos
      show n.toBitVec.toNat < 2 ^ 63
      have := n.toBitVec.isLt
      split at hpos <;> omega
    rw [Value.asI64, if_pos hnat, Int64.toInt64_toUInt64]

/-! ## What a credential says -/

section

variable [External]

/-- The proof of a claim's credential. -/
structure CredentialProof (d : DisclosedClaim) (vk : VerifyingKey) (proof : Value) : Prop where
  method : ∃ vm, getStr proof "verificationMethod" = .ok vm ∧ decodeDidKey vm = .ok vk
  category : getStr proof "category" = .ok d.category
  schemaId : getStr proof "schemaId" = .ok d.schemaId
  bodyRoot : getStr proof "bodyRoot" = .ok d.bodyRoot
  fieldCount : take proof "fieldCount" = .ok (.ofU32 d.fieldCount)
  relianceRoot : getStr proof "relianceRoot" = .ok d.relianceRoot
  relianceCount : take proof "relianceCount" = .ok (.ofU32 d.relianceCount)
  signature : getStr proof "aionSignature" = .ok d.issuerSignature
  disclosures : take proof "disclosures" = .ok (.array (d.fields.map (·.toValue)))
  reliance : take proof "relianceDisclosures" = .ok (.array (d.reliance.map (·.toValue)))

/-- A claim's credential. -/
structure Credential (d : DisclosedClaim) (vk : VerifyingKey) (doc proof : Value) : Prop where
  signed : CredentialProof d vk proof
  proof : getObj doc "proof" = .ok proof
  id : getStr doc "id" = .ok ("urn:aion-trust:claim:" ++ d.claimId.asStr)
  issuer : getStr doc "issuer" = .ok d.issuerId.asStr
  subject : subjectDid doc = .ok d.subjectId.asStr
  validFrom : ∃ s, toRfc3339 d.validity.fromTime = .ok s ∧ getStr doc "validFrom" = .ok s
  validUntil : ∀ u, d.validity.untilTime = some u → ∃ s, toRfc3339 u = .ok s ∧
    doc.get "validUntil" = some (.string s)
  open_ : d.validity.untilTime = none → doc.get "validUntil" = none

omit [External] in
/-- The subject's id stays, where no field has its name. -/
theorem credentialSubject_eq (subjectId : String) {fields : List RevealedField}
    (hkeys : ∀ f ∈ fields, f.key ≠ "id") : ∃ map, credentialSubject subjectId (fields.map (·.toValue)) = .ok map ∧
      map["id"]? = some (.string subjectId) := by
  have hloop : ∀ map : JsonMap, ∃ map', (fields.map (·.toValue)).foldlM (fun (subject : JsonMap) f => do
      let key ← getStr f "key"
      let value ← take f "value"
      return subject.insert key value) map = (.ok map' : Run JsonMap) ∧ map'["id"]? = map["id"]? := by
    intro map
    induction fields generalizing map with
    | nil => exact ⟨map, rfl, rfl⟩
    | cons f fields ih =>
      obtain ⟨hf, hfields⟩ := List.forall_mem_cons.mp hkeys
      obtain ⟨map', hmap', hid⟩ := ih hfields (map.insert f.key f.value)
      have hkey : getStr f.toValue "key" = .ok f.key := getStr_of_get (get_json _ _)
      have hvalue : take f.toValue "value" = .ok f.value := take_of_get (get_json _ _)
      refine ⟨map', ?_, ?_⟩
      · rw [List.map_cons, List.foldlM_cons, hkey, ok_bind, hvalue, ok_bind]
        exact hmap'
      · rw [hid, Std.TreeMap.getElem?_insert, if_neg (by simpa using hf)]
  obtain ⟨map, hmap, hid⟩ := hloop (Std.TreeMap.ofList [("id", .string subjectId)] compare)
  exact ⟨map, hmap, hid.trans (getElem?_ofList _ _)⟩

omit [External] in
/-- The end of the validity is added, where it has one. -/
theorem insertUntil_spec (v : Validity) (vc : JsonMap) : ∃ vc', insertUntil v.toValue vc = .ok vc' ∧
    (∀ key, key ≠ "validUntil" → vc'[key]? = vc[key]?) ∧ (v.untilTime = none → vc' = vc) ∧
    ∀ u, v.untilTime = some u → ∃ s, toRfc3339 u = .ok s ∧ vc'["validUntil"]? = some (.string s) := by
  have hget : v.toValue.get "until" = some (ClaimBody.optValue Timestamp.toValue v.untilTime) := get_json _ _
  rw [insertUntil, hget]
  cases hu : v.untilTime with
  | none => exact ⟨vc, rfl, fun _ _ => rfl, fun _ => rfl, nofun⟩
  | some u =>
    obtain ⟨s, hs, -⟩ := toRfc3339_spec u
    refine ⟨vc.insert "validUntil" (.string s), ?_, fun key hkey => ?_, nofun, ?_⟩
    · have hsecs : u.toValue.asI64 = some u.secs := asI64_ofI64 _
      show (do
        let n ← Framework.okOr u.toValue.asI64 _
        let text ← toRfc3339 ⟨n⟩
        return vc.insert "validUntil" (.string text)) = _
      rw [hsecs, Framework.okOr_some, ok_bind, hs]
      rfl
    · rw [Std.TreeMap.getElem?_insert, if_neg (by simpa using hkey.symm)]
    · rintro _ ⟨rfl⟩
      exact ⟨s, hs, by rw [Std.TreeMap.getElem?_insert, if_pos (by simp)]⟩

/-- The proof as export writes it. -/
def proofOf (d : DisclosedClaim) (vm : String) : Value :=
  Value.json [("type", .string proofType), ("proofPurpose", .string "assertionMethod"),
    ("verificationMethod", .string vm), ("category", .string d.category), ("schemaId", .string d.schemaId),
    ("bodyRoot", .string d.bodyRoot), ("fieldCount", .ofU32 d.fieldCount),
    ("relianceRoot", .string d.relianceRoot), ("relianceCount", .ofU32 d.relianceCount),
    ("aionSignature", .string d.issuerSignature), ("disclosures", .array (d.fields.map (·.toValue))),
    ("relianceDisclosures", .array (d.reliance.map (·.toValue)))]

/-- The document as export writes it, without the end of the validity. -/
def envelopeOf (d : DisclosedClaim) (vm fromText : String) (subject : JsonMap) : List (String × Value) :=
  [("@context", contextV1),
    ("type", .array [.string "VerifiableCredential", .string (categoryToVcType d.category)]),
    ("id", .string ("urn:aion-trust:claim:" ++ d.claimId.asStr)), ("issuer", .string d.issuerId.asStr),
    ("credentialSchema", Value.json [("id", .string (schemaBase ++ d.schemaId)),
      ("type", .string "AionTrustSchema2026")]),
    ("validFrom", .string fromText), ("credentialSubject", .ofMap subject), ("proof", proofOf d vm)]

theorem exportDisclosedVc_eq {d : DisclosedClaim} {vk : VerifyingKey} {subject : JsonMap} {vm fromText : String}
    (hsubject : credentialSubject d.subjectId.asStr (d.fields.map (·.toValue)) = .ok subject)
    (hvm : verificationMethod vk = .ok vm) (hfrom : toRfc3339 d.validity.fromTime = .ok fromText) :
    exportDisclosedVc d vk = (do
      let vc ← insertUntil d.validity.toValue (.ofList (envelopeOf d vm fromText subject) compare)
      return .ofMap vc) := by
  have hstr : getStr d.toValue "subject_id" = .ok d.subjectId.asStr ∧
      getStr d.toValue "category" = .ok d.category ∧ getStr d.toValue "schema_id" = .ok d.schemaId ∧
      getStr d.toValue "body_root" = .ok d.bodyRoot ∧
      getStr d.toValue "reliance_root" = .ok d.relianceRoot ∧
      getStr d.toValue "issuer_signature" = .ok d.issuerSignature ∧
      getStr d.toValue "claim_id" = .ok d.claimId.asStr ∧
      getStr d.toValue "issuer_id" = .ok d.issuerId.asStr := by
    refine ⟨?_, ?_, ?_, ?_, ?_, ?_, ?_, ?_⟩ <;> exact getStr_of_get (get_json _ _)
  have hcount : take d.toValue "field_count" = .ok (.ofU32 d.fieldCount) ∧
      take d.toValue "reliance_count" = .ok (.ofU32 d.relianceCount) :=
    ⟨take_of_get (get_json _ _), take_of_get (get_json _ _)⟩
  have hfields : getArray d.toValue "fields" = .ok (d.fields.map (·.toValue)) :=
    getArray_of_get (get_json _ _)
  have hreliance : getArray d.toValue "reliance" = .ok (d.reliance.map (·.toValue)) :=
    getArray_of_get (get_json _ _)
  have hvalidity : getObj d.toValue "validity" = .ok d.validity.toValue := getObj_of_get (get_json _ _)
  have hfromTime : validityTs d.validity.toValue "from" = .ok d.validity.fromTime := by
    have hget : d.validity.toValue.get "from" = some (.ofI64 d.validity.fromTime.secs) := get_json _ _
    rw [validityTs, hget, Option.bind_some, asI64_ofI64]
    rfl
  rw [exportDisclosedVc]
  simp only [hstr, hcount, hvalidity, hfields, hreliance, hsubject, hvm, hfromTime, hfrom, ok_bind]
  rfl

/-- Export writes the claim's credential. -/
theorem export_spec
    (hbytes : ∀ vk : VerifyingKey, External.fromBytes (External.toBytes vk) = .ok vk)
    {d : DisclosedClaim} (hkeys : ∀ f ∈ d.fields, f.key ≠ "id") (vk : VerifyingKey) :
    ∃ doc proof, exportDisclosedVc d vk = .ok doc ∧ Credential d vk doc proof := by
  obtain ⟨subject, hsubject, hid⟩ := credentialSubject_eq d.subjectId.asStr hkeys
  obtain ⟨vm, hvm, hdecode⟩ := decodeDidKey_verificationMethod hbytes vk
  obtain ⟨fromText, hfrom, -⟩ := toRfc3339_spec d.validity.fromTime
  obtain ⟨vc, hvc, hother, hopen, huntil⟩ :=
    insertUntil_spec d.validity (.ofList (envelopeOf d vm fromText subject) compare)
  have hread : ∀ key, key ≠ "validUntil" →
      (Value.ofMap vc).get key = entry (envelopeOf d vm fromText subject) key none := fun key hkey => by
    rw [get_ofMap, hother key hkey, getElem?_ofList]
  refine ⟨.ofMap vc, proofOf d vm, ?_, ?_, ?_, ?_, ?_, ?_, ?_, ?_, ?_⟩
  · rw [exportDisclosedVc_eq hsubject hvm hfrom, hvc]
    rfl
  · exact {
      method := ⟨vm, getStr_of_get (get_json _ _), hdecode⟩
      category := getStr_of_get (get_json _ _)
      schemaId := getStr_of_get (get_json _ _)
      bodyRoot := getStr_of_get (get_json _ _)
      fieldCount := take_of_get (get_json _ _)
      relianceRoot := getStr_of_get (get_json _ _)
      relianceCount := take_of_get (get_json _ _)
      signature := getStr_of_get (get_json _ _)
      disclosures := take_of_get (get_json _ _)
      reliance := take_of_get (get_json _ _) }
  · exact getObj_of_get (hread _ (by decide))
  · exact getStr_of_get (hread _ (by decide))
  · exact getStr_of_get (hread _ (by decide))
  · rw [subjectDid, getObj_of_get (hread _ (by decide)), ok_bind]
    exact getStr_of_get ((get_ofMap _ _).trans hid)
  · exact ⟨fromText, hfrom, getStr_of_get (hread _ (by decide))⟩
  · intro u hu
    obtain ⟨s, hs, hget⟩ := huntil u hu
    exact ⟨s, hs, (get_ofMap _ _).trans hget⟩
  · intro hnone
    rw [get_ofMap, hopen hnone, getElem?_ofList]
    rfl

/-! ## Back -/

theorem readUntil_spec {d : DisclosedClaim} {vk : VerifyingKey} {doc proof : Value}
    (h : Credential d vk doc proof) :
    ((∀ u, d.validity.untilTime = some u → Formattable u) →
      readUntil doc = .ok (ClaimBody.optValue Timestamp.toValue d.validity.untilTime)) ∧
    (¬ (∀ u, d.validity.untilTime = some u → Formattable u) → ∃ e, readUntil doc = .error e) := by
  rw [readUntil]
  cases hu : d.validity.untilTime with
  | none =>
    rw [h.open_ hu]
    exact ⟨fun _ => rfl, fun hnot => absurd nofun hnot⟩
  | some u =>
    obtain ⟨s, hs, hget⟩ := h.validUntil u hu
    obtain ⟨hread, hrefuse⟩ := fromRfc3339_iff hs
    have hformattable : (∀ u', some u = some u' → Formattable u') ↔ Formattable u := by simp
    rw [hget, hformattable]
    show (_ → (fromRfc3339 s >>= fun t => Except.ok t.toValue) = _) ∧
      (_ → ∃ e, (fromRfc3339 s >>= fun t => Except.ok t.toValue) = .error e)
    constructor
    · intro hfmt
      rw [hread hfmt]
      rfl
    · intro hfmt
      obtain ⟨e, he⟩ := hrefuse hfmt
      rw [he]
      exact ⟨e, rfl⟩

/-- What is rebuilt from a credential is the native claim, where the bounds of
its validity are formattable. -/
theorem rebuildNative_spec {d : DisclosedClaim} {vk : VerifyingKey} {doc proof : Value}
    (h : Credential d vk doc proof) :
    (FormattableValidity d.validity → rebuildNative doc proof = .ok d.toValue) ∧
    (¬ FormattableValidity d.validity → ∃ e, rebuildNative doc proof = .error e) := by
  obtain ⟨fromText, hfrom, hgetFrom⟩ := h.validFrom
  obtain ⟨hread, hrefuse⟩ := fromRfc3339_iff hfrom
  obtain ⟨hreadUntil, hrefuseUntil⟩ := readUntil_spec h
  rw [rebuildNative, h.id, ok_bind, stripPrefix_append, Framework.okOr_some, ok_bind, hgetFrom, ok_bind]
  constructor
  · intro hfmt
    rw [hread hfmt.fromTime, ok_bind, hreadUntil hfmt.untilTime, ok_bind]
    simp only [h.subject, h.issuer, h.signed.category, h.signed.schemaId, h.signed.bodyRoot,
      h.signed.fieldCount, h.signed.relianceRoot, h.signed.relianceCount, h.signed.signature,
      h.signed.disclosures, h.signed.reliance, ok_bind]
    rfl
  · intro hnot
    by_cases hfmt : Formattable d.validity.fromTime
    · obtain ⟨e, he⟩ := hrefuseUntil fun huntil => hnot ⟨hfmt, huntil⟩
      rw [hread hfmt, ok_bind, he]
      exact ⟨e, rfl⟩
    · obtain ⟨e, he⟩ := hrefuse hfmt
      rw [he]
      exact ⟨e, rfl⟩

variable [Serde]

/-- A credential of a claim that verifies imports as the claim. -/
theorem importDisclosedVc_spec (hreads : Reads) {d : DisclosedClaim} {vk : VerifyingKey} {doc proof : Value}
    (h : Credential d vk doc proof) {v : VerifiedDisclosure} (hv : d.verify vk = .ok v) :
    (FormattableValidity d.validity → importDisclosedVc doc = .ok d) ∧
    (¬ FormattableValidity d.validity → ∃ e, importDisclosedVc doc = .error e) := by
  obtain ⟨vm, hvm, hdecode⟩ := h.signed.method
  obtain ⟨hrebuild, hrefuse⟩ := rebuildNative_spec h
  obtain ⟨-, -, _, _, hsig, -⟩ := verifyWithRequired_eq_ok.mp hv
  have hissuer := (checkSignature_eq_ok.mp hsig).1
  rw [importDisclosedVc, h.proof, ok_bind, hvm, ok_bind, hdecode, ok_bind]
  constructor
  · intro hfmt
    rw [hrebuild hfmt, ok_bind, hreads.disclosedClaim d, Framework.mapError_ok, ok_bind]
    dsimp only
    rw [Framework.ensure_true hissuer, ok_bind, hv]
    rfl
  · intro hnot
    obtain ⟨e, he⟩ := hrefuse hnot
    rw [he]
    exact ⟨e, rfl⟩

omit [External] [Serde] in
theorem fieldKeys_ne_id {category : String} {keys : List String}
    (h : ClaimBody.fieldKeysForCategory category = some keys) : "id" ∉ keys := by
  unfold ClaimBody.fieldKeysForCategory at h
  split at h <;> cases h <;> decide

omit [Serde] in
/-- A field of a disclosure that verifies is not named as the subject is. -/
theorem verified_keys {d : DisclosedClaim} {vk : VerifyingKey} {v : VerifiedDisclosure}
    (hv : d.verify vk = .ok v) : ∀ f ∈ d.fields, f.key ≠ "id" := by
  obtain ⟨-, -, _, expected, -, hexpected, -, hfields, -⟩ := verifyWithRequired_eq_ok.mp hv
  rintro f hf hid
  have hkey := (proveField_eq_ok.mp (hfields f hf)).1
  exact fieldKeys_ne_id hexpected (hid ▸ List.mem_of_getElem? hkey)

end

end AionTrust.Proof
