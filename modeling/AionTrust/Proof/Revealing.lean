import AionTrust.Proof.Packages
import AionTrust.Proof.Unforgeable
import AionTrust.Spec.Holder

/-!
# Disclosing exactly the selected fields

An issued claim discloses what selects keys of its category (`disclose_isOk_iff`),
and nothing else (`issued_disclose_error`). A disclosure shows the selected keys
in order, with the values of the body (`disclose_shows`), and what is proven of
it is what it shows (`shows_reveals`); all of it is `disclosure_exact`.
-/

namespace AionTrust.Proof

open AionTrust.Impl AionTrust.Spec
open Framework (bind_eq_ok ensure_eq_ok okOr_eq_ok mapM_eq_ok)

theorem fieldKeys_sorted (c : Claim) : fieldKeys c = (sortedFields c.body).map Prod.fst := by
  rw [fieldKeys, Claim.category, fieldKeys_eq]
  rfl

theorem mem_fieldKeys {c : Claim} {key : String} :
    key ∈ fieldKeys c ↔ ∃ value, (key, value) ∈ c.body.fields := by
  simp [fieldKeys_sorted, mem_sortedFields]

/-- The whole claim can be disclosed. -/
theorem selects_all (c : Claim) : Selects c .all where
  nonempty := by simpa [selectedKeys, fieldKeys_sorted] using sortedFields_ne_nil c.body
  known _ h := h

section

variable [External] {c : Claim} {s : FieldSelector} {d : DisclosedClaim}

/-- A disclosure shows the selected fields. -/
theorem disclose_shows (hd : c.disclose s = .ok d) : Shows c (selectedKeys c s) d where
  claimId := by rw [disclose_eq hd]; rfl
  shown := by
    cases s with
    | all =>
      rw [selectedKeys, fieldKeys_sorted, ← disclose_all_fields hd, List.map_map]
      rfl
    | only keys =>
      obtain ⟨m, leaves, relies, indices, hof, hsel, hopenings⟩ := disclose_openings hd
      simp only [selectedIndices, bind_eq_ok, mapM_eq_ok, okOr_eq_ok] at hsel
      obtain ⟨-, -, hfound⟩ := hsel
      -- the leaf found for a key has that key
      have hkeys : keys.map some = indices.map fun i => leaves[i]?.map (·.key) := by
        rw [← List.forall₂_eq_eq_eq, List.forall₂_map_left_iff, List.forall₂_map_right_iff]
        refine hfound.imp fun key i hi => ?_
        obtain ⟨hlt, hkey, -⟩ := List.findIdx?_eq_some_iff_getElem.mp hi
        rw [List.getElem?_eq_getElem hlt, Option.map_some, beq_iff_eq.mp hkey]
      have hshown := congrArg (List.map (Option.map fun x : String × Value × String => x.1)) hopenings
      simp only [List.map_map, Function.comp_def, Option.map_some, Option.map_map, ← hkeys] at hshown
      refine (List.map_injective_iff.mpr (Option.some_injective _)) ?_
      rw [List.map_map]
      exact hshown
  values := disclose_field_mem hd

/-- An issued claim discloses what selects keys of its category. -/
theorem disclose_isOk_iff (h : Issued c) : (∃ d, c.disclose s = .ok d) ↔ Selects c s := by
  obtain ⟨issuer, call, hrun⟩ := h
  constructor
  · rintro ⟨d, hd⟩
    have hshows := disclose_shows hd
    refine ⟨?_, fun key hkey => ?_⟩
    · obtain ⟨m, leaves, relies, indices, hof, hsel, hfs, -, -⟩ := disclose_eq_ok.mp hd
      have hne := selectedIndices_ne_nil (bodyLeaves_ne_nil hof.body) hsel
      rw [← hshows.shown]
      exact fun hnil => hne (List.length_eq_zero_iff.mp
        (hfs.length_eq.trans (by rw [List.map_eq_nil_iff.mp hnil]; rfl)))
    · rw [← hshows.shown] at hkey
      obtain ⟨f, hf, rfl⟩ := List.mem_map.mp hkey
      exact mem_fieldKeys.mpr ⟨f.value, hshows.values f hf⟩
  · intro hselects
    cases s with
    | all => exact disclose_all_isOk hrun
    | only keys =>
      exact disclose_only_isOk hrun hselects.nonempty
        fun key hkey => fieldKeys_sorted c ▸ hselects.known key hkey

/-- What else it is asked for is malformed. -/
theorem issued_disclose_error (h : Issued c) (hs : ¬ Selects c s) :
    c.disclose s = .error .malformed := by
  have herror := mt (disclose_isOk_iff h).mp hs
  obtain ⟨issuer, call, hrun⟩ := h
  obtain ⟨commit, hcommit, rfl⟩ := run_eq_ok.mp hrun
  obtain ⟨leaves, relies, hof⟩ := issued_leaves issuer hcommit
  exact disclose_error hof herror

omit [External] in
/-- What is proven of a disclosure is what it shows. -/
theorem shows_reveals {keys : List String} (h : Shows c keys d)
    (hreliance : d.reliance.map (·.fromClaimId) = c.reliance.map (·.fromClaimId)) :
    Reveals c.body c.reliance keys (verifiedOf d) := by
  have hshown : ∀ key, (∃ f ∈ d.fields, f.key = key) ↔ key ∈ keys := by
    intro key
    rw [← h.shown, List.mem_map]
  refine ⟨fun key => mem_revealedKeys.trans (hshown key), fun key hkey value => ⟨fun hvalue => ?_,
    fun hmem => ?_⟩, fun key hkey => ?_, hreliance⟩
  · obtain ⟨f, hf, rfl, rfl⟩ := verifiedOf_value hvalue
    exact h.values f hf
  · obtain ⟨f, hf, rfl⟩ := (hshown key).mpr hkey
    obtain ⟨value', hvalue'⟩ := verifiedOf_value_isSome hf
    obtain ⟨f', hf', hkey', rfl⟩ := verifiedOf_value hvalue'
    have hmem' := h.values f' hf'
    rw [hkey'] at hmem'
    rw [hvalue', field_unique hmem' hmem]
  · cases hvalue : (verifiedOf d).value key with
    | none => rfl
    | some value =>
      obtain ⟨f, hf, hf', -⟩ := verifiedOf_value hvalue
      exact absurd ((hshown key).mp ⟨f, hf, hf'⟩) hkey

/-- An issuer's calls issue where their values have canonical bytes and they
declare fewer than `2 ^ 32` dependencies. The claim can be disclosed in full,
and under a list of keys just when it is not empty and all of them are the
category's; each disclosure verifies, and what it proves is the selected fields,
with the values of the body, and every dependency in order. -/
theorem disclosure_exact (hlaw : Lawful) (issuer : Identity) (call : IssueCall) :
    ((∀ e ∈ call.body.fields, ∃ jcs, External.toJcsBytes e.2 = some jcs) →
      call.reliance.length < 2 ^ 32 → ∃ c, call.run issuer = .ok c) ∧
    ∀ c, call.run issuer = .ok c →
      (∃ d, c.disclose .all = .ok d) ∧
      (∀ keys, ((∃ d, c.disclose (.only keys) = .ok d) ↔ keys ≠ [] ∧ ∀ key ∈ keys, key ∈ fieldKeys c) ∧
        (¬ (keys ≠ [] ∧ ∀ key ∈ keys, key ∈ fieldKeys c) →
          c.disclose (.only keys) = .error .malformed)) ∧
      ∀ s d, c.disclose s = .ok d → ∃ v, d.verify issuer.verifyingKey = .ok v ∧
        Reveals call.body call.reliance (selectedKeys c s) v := by
  refine ⟨fun hjcs hlen => ?_, fun c hrun => ?_⟩
  · obtain ⟨commit, hcommit⟩ := commits_isOk hjcs hlen
    exact ⟨_, run_of_commits issuer hcommit⟩
  · have hissued : Issued c := ⟨issuer, call, hrun⟩
    have honly : ∀ keys, Selects c (.only keys) ↔ keys ≠ [] ∧ ∀ key ∈ keys, key ∈ fieldKeys c :=
      fun keys => ⟨fun h => ⟨h.nonempty, h.known⟩, fun h => ⟨h.1, h.2⟩⟩
    refine ⟨(disclose_isOk_iff hissued).mpr (selects_all c), fun keys => ⟨?_, fun hbad => ?_⟩,
      fun s d hd => ⟨_, disclose_verifies hlaw ⟨call, rfl, hrun⟩ hd, ?_⟩⟩
    · rw [disclose_isOk_iff hissued, honly]
    · exact issued_disclose_error hissued (mt (honly keys).mp hbad)
    · have hreveals := shows_reveals (disclose_shows hd) (disclose_reliance hd)
      rwa [(run_parts hrun).2.1, run_reliance hrun] at hreveals

end

section

attribute [local instance] lawful

/-- The law at a skill, of which one field is disclosed twice. -/
theorem disclosure_exact_skill : ∃ (c : Claim) (d : DisclosedClaim) (v : VerifiedDisclosure),
    (skillCall ⟨"did:aion:subject"⟩).run (identity 2) = .ok c ∧
      c.disclose (.only ["level", "level"]) = .ok d ∧ d.verify (identity 2).verifyingKey = .ok v ∧
      v.value "level" = some (.string "expert") ∧ v.value "skill" = none := by
  have hlaw := disclosure_exact lawful_lawful (identity 2) (skillCall ⟨"did:aion:subject"⟩)
  obtain ⟨c, hrun⟩ := hlaw.1 (jcs_fields _) (show 2 < 2 ^ 32 by decide)
  obtain ⟨-, honly, hdisclosed⟩ := hlaw.2 c hrun
  have hkeys : fieldKeys c = ["level", "skill"] := by
    rw [fieldKeys, Claim.category, (run_parts hrun).2.1]
    rfl
  obtain ⟨d, hd⟩ := (honly ["level", "level"]).1.mpr ⟨by simp, by simp [hkeys]⟩
  obtain ⟨v, hv, hreveals⟩ := hdisclosed _ d hd
  refine ⟨c, d, v, hrun, hd, hv, (hreveals.values "level" (.head _) _).mpr ?_,
    hreveals.withheld "skill" (by simp [selectedKeys])⟩
  exact List.mem_cons_of_mem _ (.head _)

/-- A disclosed skill answers a request for it under no scale or its own. -/
theorem skill_satisfied_iff {issuer : Identity} {subject : Did} {c : Claim} {d : DisclosedClaim}
    (hrun : (skillCall subject).run issuer = .ok c) (hd : c.disclose .all = .ok d) {anchor : TrustAnchor}
    {now : Timestamp} (hvalid : ClaimValid anchor subject now d (verifiedOf d)) (scaleVersion : Option String) :
    Satisfied anchor subject now [d] (skillRequest scaleVersion) ↔
      ∀ scale, scaleVersion = some scale → scale = "aion-trust/skill/v1" := by
  have hbody : c.body = (skillCall subject).body := (run_parts hrun).2.1
  have hschema : d.schemaId = c.body.schemaId := by rw [disclose_eq hd]; rfl
  have hcategory : d.category = c.body.category := by rw [disclose_eq hd]; rfl
  rw [hbody] at hschema hcategory
  constructor
  · rintro ⟨d', hd', v, -, -, hscale, -⟩ scale hs
    obtain rfl := List.mem_singleton.mp hd'
    exact (hscale scale hs).symm.trans hschema
  · intro h
    refine ⟨d, .head _, _, hvalid, hcategory, fun scale hs => hschema.trans (h scale hs).symm,
      .string "rust", ?_, rfl⟩
    have hkey : "skill" ∈ selectedKeys c .all := mem_fieldKeys.mpr ⟨.string "rust", by rw [hbody]; exact .head _⟩
    refine ((shows_reveals (disclose_shows hd) (disclose_reliance hd)).values _ hkey _).mpr ?_
    rw [hbody]
    exact .head _

end

end AionTrust.Proof
