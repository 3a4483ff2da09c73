import AionTrust.Proof.Interop.Reading
import AionTrust.Proof.Pretty
import AionTrust.Spec.Commands
import AionTrust.Spec.Shapes

/-!
# Texts of shapes

The shapes of a type differ for different values, so its texts read as what was
written (`fromStr_toStringPretty`); where they are objects, no beginning of a
text reads (`fromStr_start`).
-/

namespace AionTrust.Proof

open AionTrust.Impl AionTrust.Spec

namespace Shape

open AionTrust.Spec.Shape

/-! ## Parts -/

theorem ofU32_inj {m n : UInt32} : Value.ofU32 m = Value.ofU32 n ↔ m = n := by
  refine ⟨fun h => ?_, congrArg _⟩
  have hread := congrArg asU32 h
  rw [asU32_ofU32, asU32_ofU32] at hread
  exact Option.some.inj hread

theorem ofI64_inj {m n : Int64} : Value.ofI64 m = Value.ofI64 n ↔ m = n := by
  refine ⟨fun h => ?_, congrArg _⟩
  have hread := congrArg Value.asI64 h
  rw [asI64_ofI64, asI64_ofI64] at hread
  exact Option.some.inj hread

theorem timestamp_inj {t u : Timestamp} : t.toValue = u.toValue ↔ t = u := by
  cases t
  cases u
  simp only [Timestamp.toValue, ofI64_inj, Timestamp.mk.injEq]

theorem did_inj {d e : Did} : d.asStr = e.asStr ↔ d = e := by
  cases d
  cases e
  exact Did.mk.injEq _ _ ▸ Iff.rfl

theorem claimId_inj {c d : ClaimId} : c.asStr = d.asStr ↔ c = d := by
  cases c
  cases d
  exact ClaimId.mk.injEq _ _ ▸ Iff.rfl

theorem strings_inj {ss ts : List String} : ss.map Value.string = ts.map Value.string ↔ ss = ts :=
  (List.map_injective_iff.mpr string_inj).eq_iff

theorem validity_inj : Function.Injective validity := by
  rintro ⟨_, _⟩ ⟨_, _⟩ h
  have hopt : ∀ {a b}, ClaimBody.optValue Timestamp.toValue a = ClaimBody.optValue Timestamp.toValue b ↔ a = b :=
    (optValue_inj (fun _ _ => timestamp_inj.mp) fun _ => Value.noConfusion).eq_iff
  simpa [validity, timestamp_inj, hopt] using h

/-! ## Types -/

theorem nonceRecord_inj : Function.Injective nonceRecord := by
  rintro ⟨_, _, _⟩ ⟨_, _, _⟩ h
  simpa [nonceRecord, ofI64_inj] using h

theorem nonceStore_inj : Function.Injective nonceStore := by
  rintro ⟨_⟩ ⟨_⟩ h
  simpa [nonceStore, (List.map_injective_iff.mpr nonceRecord_inj).eq_iff] using h

theorem body_inj : Function.Injective body := by
  intro b b' h
  simp only [body, Value.object.injEq, List.cons.injEq, Prod.mk.injEq, Value.string.injEq, true_and] at h
  exact fields_inj h.1 h.2

theorem reliesOn_inj : Function.Injective reliesOn := by
  rintro ⟨_, k⟩ ⟨_, k'⟩ h
  have hkind : k.asStr = k'.asStr ↔ k = k' := by cases k <;> cases k' <;> simp [ReliesKind.asStr]
  simpa [reliesOn, claimId_inj, hkind] using h

theorem claim_inj : Function.Injective claim := by
  rintro ⟨_, _, _, _, _, _, _, _, _, _, _, _⟩ ⟨_, _, _, _, _, _, _, _, _, _, _, _⟩ h
  simpa [claim, claimId_inj, did_inj, ofU32_inj, validity_inj.eq_iff, body_inj.eq_iff,
    (List.map_injective_iff.mpr reliesOn_inj).eq_iff] using h

theorem revealedField_inj : Function.Injective revealedField := by
  rintro ⟨_, _, _, _, _⟩ ⟨_, _, _, _, _⟩ h
  simpa [revealedField, ofU32_inj, strings_inj] using h

theorem revealedReliance_inj : Function.Injective revealedReliance := by
  rintro ⟨_, _, _, _, _⟩ ⟨_, _, _, _, _⟩ h
  simpa [revealedReliance, claimId_inj, ofU32_inj, strings_inj] using h

theorem disclosedClaim_inj : Function.Injective disclosedClaim := by
  rintro ⟨_, _, _, _, _, _, _, _, _, _, _, _, _⟩ ⟨_, _, _, _, _, _, _, _, _, _, _, _, _⟩ h
  simpa [disclosedClaim, claimId_inj, did_inj, ofU32_inj, validity_inj.eq_iff,
    (List.map_injective_iff.mpr revealedField_inj).eq_iff,
    (List.map_injective_iff.mpr revealedReliance_inj).eq_iff] using h

theorem presentation_inj : Function.Injective presentation := by
  rintro ⟨_, _, _, _, _, _, _, _, _, _⟩ ⟨_, _, _, _, _, _, _, _, _, _⟩ h
  simpa [presentation, did_inj, timestamp_inj, (List.map_injective_iff.mpr disclosedClaim_inj).eq_iff] using h

end Shape

instance : Shape JsonFileNonceStore := ⟨Shape.nonceStore, Shape.nonceStore_inj⟩

instance : Shape Claim := ⟨Shape.claim, Shape.claim_inj⟩

instance : Shape DisclosedClaim := ⟨Shape.disclosedClaim, Shape.disclosedClaim_inj⟩

instance : Shape Presentation := ⟨Shape.presentation, Shape.presentation_inj⟩

instance : Shape Value := ⟨id, Function.injective_id⟩

/-! ## Reading -/

attribute [local instance] jsonText

section

variable {α : Type} [Shape α] {a : α} {s : String}

theorem toStringPretty_eq_ok :
    JsonText.toStringPretty a = .ok s ↔ Pretty.Exact (Shape.shape a) ∧ Pretty.text (Shape.shape a) = s := by
  by_cases h : Pretty.Exact (Shape.shape a) <;> simp [JsonText.toStringPretty, h]

/-- A text reads as what it was written of, and nothing else does. -/
theorem fromStr_eq_ok : JsonText.fromStr s = .ok a ↔ JsonText.toStringPretty a = .ok s := by
  rw [toStringPretty_eq_ok]
  constructor
  · intro hread
    by_cases h : ∃ a : α, Pretty.Exact (Shape.shape a) ∧ Pretty.text (Shape.shape a) = s
    · simp only [JsonText.fromStr, dif_pos h, Except.ok.injEq] at hread
      rw [← hread]
      exact h.choose_spec
    · simp [JsonText.fromStr, h] at hread
  · intro hwritten
    have h : ∃ a : α, Pretty.Exact (Shape.shape a) ∧ Pretty.text (Shape.shape a) = s := ⟨a, hwritten⟩
    simp only [JsonText.fromStr, dif_pos h, Except.ok.injEq]
    refine Shape.inj (Pretty.text_inj h.choose_spec.1 hwritten.1 ?_)
    rw [h.choose_spec.2, hwritten.2]

/-- Of a type of objects, no beginning of a text reads. -/
theorem fromStr_start (hobject : ∀ a : α, ∃ entries, Shape.shape a = .object entries) {start : String}
    (htext : JsonText.toStringPretty a = .ok s) (hstart : start.toList <+: s.toList) (hcut : start ≠ s) :
    ∃ e, (JsonText.fromStr start : Except String α) = .error e := by
  cases hread : (JsonText.fromStr start : Except String α) with
  | error e => exact ⟨e, rfl⟩
  | ok b =>
    obtain ⟨hexact, rfl⟩ := toStringPretty_eq_ok.mp htext
    obtain ⟨hexact', rfl⟩ := toStringPretty_eq_ok.mp (fromStr_eq_ok.mp hread)
    obtain ⟨entries, ha⟩ := hobject a
    obtain ⟨entries', hb⟩ := hobject b
    rw [ha] at hexact hstart hcut
    rw [hb] at hexact' hstart hcut
    exact absurd (by rw [Pretty.eq_of_text_start hexact' hexact hstart]) hcut

end

/-! ## What has a text -/

section

open Pretty (Exact)

@[simp] theorem exact_object_nil : Exact (.object []) := .object fun _ h => nomatch h

@[simp] theorem exact_object_cons {key : String} {v : Value} {entries : List (String × Value)} :
    Exact (.object ((key, v) :: entries)) ↔ Exact v ∧ Exact (.object entries) := by
  constructor
  · intro h
    obtain ⟨hv, hentries⟩ := List.forall_mem_cons.mp (Pretty.exact_of_object h)
    exact ⟨hv, .object hentries⟩
  · rintro ⟨hv, hentries⟩
    exact .object (List.forall_mem_cons.mpr ⟨hv, Pretty.exact_of_object hentries⟩)

theorem exact_array_map {α : Type} {f : α → Value} {as : List α} (h : ∀ a ∈ as, Exact (f a)) :
    Exact (.array (as.map f)) :=
  .array (List.forall_mem_map.mpr h)

@[simp] theorem exact_string (s : String) : Exact (.string s) := .string s

@[simp] theorem exact_bool (b : Bool) : Exact (.bool b) := .bool b

@[simp] theorem exact_posInt (n : UInt64) : Exact (.number (.posInt n)) := .number trivial

@[simp] theorem exact_ofU32 (n : UInt32) : Exact (.ofU32 n) := .number trivial

@[simp] theorem exact_ofI64 (n : Int64) : Exact (.ofI64 n) := by
  rw [Value.ofI64]
  split
  · rename_i h
    exact .number (Int64.lt_iff_toInt_lt.mp h)
  · exact .number trivial

@[simp] theorem exact_toValue (t : Timestamp) : Exact t.toValue := exact_ofI64 _

@[simp] theorem exact_strings (ss : List String) : Exact (.array (ss.map .string)) :=
  exact_array_map fun s _ => .string s

theorem exact_opt {α : Type} {f : α → Value} (hf : ∀ a, Exact (f a)) (a : Option α) :
    Exact (ClaimBody.optValue f a) := by
  cases a with
  | none => exact .null
  | some a => exact hf a

@[simp] theorem exact_validity (v : Validity) : Exact (Shape.validity v) := by
  simp [Shape.validity, exact_opt exact_toValue]

theorem exact_nonceStore (s : JsonFileNonceStore) : Exact (Shape.shape s) := by
  simpa [Shape.shape, Shape.nonceStore] using exact_array_map fun r _ => by simp [Shape.nonceRecord]

theorem exact_fields (b : ClaimBody) : Exact (.object b.fields) := by
  have hrank : ∀ r : UInt8, Exact (.number (.posInt r.toUInt64)) := fun r => exact_posInt _
  cases b <;> simp [ClaimBody.fields, exact_opt exact_string, exact_opt hrank]

/-- A claim has a text. -/
theorem exact_claim (c : Claim) : Exact (Shape.shape c) := by
  have hreliance : Exact (.array (c.reliance.map Shape.reliesOn)) :=
    exact_array_map fun r _ => by simp [Shape.reliesOn]
  simp [Shape.shape, Shape.claim, Shape.body, exact_fields, hreliance]

theorem exact_disclosedClaim {d : DisclosedClaim} (h : ∀ f ∈ d.fields, Exact f.value) : Exact (Shape.shape d) := by
  have hfields : Exact (.array (d.fields.map Shape.revealedField)) :=
    exact_array_map fun f hf => by simp [Shape.revealedField, h f hf]
  have hreliance : Exact (.array (d.reliance.map Shape.revealedReliance)) :=
    exact_array_map fun r _ => by simp [Shape.revealedReliance]
  simp [Shape.shape, Shape.disclosedClaim, hfields, hreliance]

/-- A presentation has a text where what it reveals has. -/
theorem exact_presentation {p : Presentation} (h : ∀ d ∈ p.claims, ∀ f ∈ d.fields, Exact f.value) :
    Exact (Shape.shape p) := by
  have hclaims : Exact (.array (p.claims.map Shape.disclosedClaim)) :=
    exact_array_map fun d hd => exact_disclosedClaim (h d hd)
  simp [Shape.shape, Shape.presentation, hclaims]

end

/-- The text of a nonce store keeps what is assumed of it. -/
theorem storeText : StoreText where
  written s := ⟨_, toStringPretty_eq_ok.mpr ⟨exact_nonceStore s, rfl⟩⟩
  read _ _ htext := fromStr_eq_ok.mpr htext
  cut _ _ _ htext hstart hcut := fromStr_start (fun _ => ⟨_, rfl⟩) htext hstart hcut

end AionTrust.Proof
