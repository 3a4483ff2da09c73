import AionTrust.Proof.Packages

/-!
# What a disclosure reveals

Two claims agree for a selector (`Agree`) when they have the same signed
scalars, the same leaf hashes, and the same key, value and salt at the
positions the selector names. Their disclosures are then the same, whatever
else differs, and so are presentations of them; and what a disclosure opens is
exactly what its selector names (`disclosure_noninterference`).
-/

namespace AionTrust.Proof

open AionTrust.Impl AionTrust.Spec
open Framework (Bytes mapM_eq_ok)

/-- What a disclosed field shows of its leaf. -/
def opening (l : BodyLeaf) : String × Value × Digest := (l.key, l.value, l.salt)

/-- The positions a selector names depend on the keys only. -/
theorem selectedIndices_congr {leaves leaves' : List BodyLeaf}
    (h : leaves.map (·.key) = leaves'.map (·.key)) (s : FieldSelector) :
    selectedIndices leaves s = selectedIndices leaves' s := by
  cases s with
  | all =>
    have hlen : leaves.length = leaves'.length := by simpa using congrArg List.length h
    rw [selectedIndices, selectedIndices, hlen]
  | only keys =>
    have hfind : ∀ (ls : List BodyLeaf) (key : String),
        ls.findIdx? (fun l => l.key == key) = (ls.map (·.key)).findIdx? (· == key) := fun ls key => by
      rw [List.findIdx?_map]; rfl
    simp only [selectedIndices, hfind, h]

/-- Computations that agree on a list where they succeed give it the same
results. -/
theorem results_congr {ε α β : Type} {f g : α → Except ε β} {as : List α} {bs bs' : List β}
    (hfg : ∀ a ∈ as, ∀ b b', f a = .ok b → g a = .ok b' → b = b')
    (hf : List.Forall₂ (fun a b => f a = .ok b) as bs)
    (hg : List.Forall₂ (fun a b => g a = .ok b) as bs') : bs = bs' := by
  induction hf generalizing bs' with
  | nil => exact (List.forall₂_nil_left_iff.mp hg).symm
  | cons hb _ ih =>
    obtain ⟨b', rest, hb', hrest, rfl⟩ := List.forall₂_cons_left_iff.mp hg
    rw [hfg _ List.mem_cons_self _ _ hb hb',
      ih (fun a ha => hfg a (List.mem_cons_of_mem _ ha)) hrest]

section

variable [External]

/-- Two claims have the same signed scalars, the same leaf hashes, the same
reliance leaves, and the same key, value and salt where the selector opens a
leaf. The rest of their bodies and salts, their master salts and their kinds of
reliance are their own. -/
structure Agree (s : FieldSelector) (c c' : Claim) : Prop where
  claimId : c.claimId = c'.claimId
  subject : c.subjectId = c'.subjectId
  issuer : c.issuerId = c'.issuerId
  validity : c.validity = c'.validity
  category : c.category = c'.category
  schemaId : c.schemaId = c'.schemaId
  bodyRoot : c.bodyRoot = c'.bodyRoot
  fieldCount : c.fieldCount = c'.fieldCount
  relianceRoot : c.relianceRoot = c'.relianceRoot
  relianceCount : c.relianceCount = c'.relianceCount
  signature : c.issuerSignature = c'.issuerSignature
  hashes : ∀ m leaves relies m' leaves' relies', LeavesOf c m leaves relies →
    LeavesOf c' m' leaves' relies' → leaves.map (·.hash) = leaves'.map (·.hash)
  opened : ∀ m leaves relies m' leaves' relies', LeavesOf c m leaves relies →
    LeavesOf c' m' leaves' relies' → ∀ indices, selectedIndices leaves s = .ok indices →
      ∀ i ∈ indices, leaves[i]?.map opening = leaves'[i]?.map opening
  relies : ∀ m leaves relies m' leaves' relies', LeavesOf c m leaves relies →
    LeavesOf c' m' leaves' relies' → relies = relies'

theorem revealField_congr {leaves leaves' : List BodyLeaf}
    (hhash : leaves.map (·.hash) = leaves'.map (·.hash)) {i : Nat}
    (hopening : leaves[i]?.map opening = leaves'[i]?.map opening) :
    revealField leaves i = revealField leaves' i := by
  simp only [revealField, hhash]
  cases hl : leaves[i]? with
  | none =>
    rw [hl, Option.map_none, eq_comm, Option.map_eq_none_iff] at hopening
    rw [hopening]
  | some l =>
    rw [hl, Option.map_some, eq_comm, Option.map_eq_some_iff] at hopening
    obtain ⟨l', hl', hsame⟩ := hopening
    simp only [opening, Prod.mk.injEq] at hsame
    rw [hl']
    simp only [Framework.okOr_some, Framework.ok_bind, hsame]

/-- The disclosures of two claims that agree for a selector are the same. -/
theorem disclose_congr {s : FieldSelector} {c c' : Claim} (h : Agree s c c') {d d' : DisclosedClaim}
    (hd : c.disclose s = .ok d) (hd' : c'.disclose s = .ok d') : d = d' := by
  obtain ⟨m, leaves, relies, indices, hof, hsel, hfs, hrs, heq⟩ := disclose_eq_ok.mp hd
  obtain ⟨m', leaves', relies', indices', hof', hsel', hfs', hrs', heq'⟩ := disclose_eq_ok.mp hd'
  have hhash := h.hashes _ _ _ _ _ _ hof hof'
  have hkeys : leaves.map (·.key) = leaves'.map (·.key) := by
    rw [map_key_bodyLeaves hof.body, map_key_bodyLeaves hof'.body]
    refine Option.some.inj ?_
    rw [← fieldKeys_eq, ← fieldKeys_eq]
    exact congrArg ClaimBody.fieldKeysForCategory h.category
  rw [← selectedIndices_congr hkeys, hsel] at hsel'
  obtain rfl := Except.ok.inj hsel'
  have hfields : d.fields = d'.fields := by
    refine results_congr (fun i hi f f' hf hf' => ?_) hfs hfs'
    rw [revealField_congr hhash (h.opened _ _ _ _ _ _ hof hof' indices hsel i hi), hf'] at hf
    exact (Except.ok.inj hf).symm
  have hreliance : d.reliance = d'.reliance := by
    rw [← h.relies _ _ _ _ _ _ hof hof'] at hrs'
    exact results_congr (fun l _ r r' hr hr' => Except.ok.inj (hr.symm.trans hr')) hrs hrs'
  rw [heq, heq', hfields, hreliance, disclosureOf, disclosureOf, h.claimId, h.subject, h.issuer,
    h.validity, h.category, h.schemaId, h.bodyRoot, h.fieldCount, h.relianceRoot, h.relianceCount,
    h.signature]

/-- Withheld data enters a disclosure only as hashes. Claims that agree for a
selector have the same disclosure; presentations of such claims are the same;
and the keys, values and salts a disclosure shows are those of the positions
its selector names, and no others. -/
theorem disclosure_noninterference :
    (∀ (s : FieldSelector) (c c' : Claim), Agree s c c' → ∀ d d', c.disclose s = .ok d →
      c'.disclose s = .ok d' → d = d') ∧
    (∀ (picks : List (FieldSelector × Claim × Claim)), (∀ x ∈ picks, Agree x.1 x.2.1 x.2.2) →
      ∀ ds ds', picks.mapM (fun x => x.2.1.disclose x.1) = .ok ds →
        picks.mapM (fun x => x.2.2.disclose x.1) = .ok ds' →
        ∀ subject audience purpose nonce issuedAt expiresAt,
          buildPresentation subject audience purpose nonce issuedAt expiresAt ds =
            buildPresentation subject audience purpose nonce issuedAt expiresAt ds') ∧
    (∀ (s : FieldSelector) (c : Claim) d, c.disclose s = .ok d →
      ∃ m leaves relies indices, LeavesOf c m leaves relies ∧ selectedIndices leaves s = .ok indices ∧
        d.fields.map (fun f => some (f.key, f.value, f.salt)) =
          indices.map fun i => leaves[i]?.map fun l => (l.key, l.value, toHex l.salt.val)) := by
  refine ⟨fun s c c' h d d' => disclose_congr h, ?_, fun s c d => disclose_openings⟩
  intro picks hagree ds ds' hds hds' subject audience purpose nonce issuedAt expiresAt
  have hsame : ds = ds' := results_congr (fun x hx d d' => disclose_congr (hagree x hx))
    (mapM_eq_ok.mp hds) (mapM_eq_ok.mp hds')
  rw [hsame]

end

/-! ## Two claims that agree -/

/-- Packages whose hashes are all the same. -/
abbrev constant : External :=
  { lawful with
    hash := fun _ => ⟨List.replicate 32 0, rfl⟩
    keyedHash := fun _ _ => ⟨List.replicate 32 0, rfl⟩ }

section

attribute [local instance] constant

/-- A claim to a skill at some level. -/
def skillAt (level : String) (masterSalt : Digest) : Claim where
  claimId := ⟨"skill"⟩
  subjectId := ⟨"did:aion:subject"⟩
  issuerId := ⟨"did:aion:issuer"⟩
  validity := { fromTime := ⟨0⟩, untilTime := none }
  body := .skill { skill := "rust", level := some level }
  masterSalt := toHex masterSalt.val
  bodyRoot := ""
  fieldCount := 2
  reliance := []
  relianceRoot := ""
  relianceCount := 0
  issuerSignature := ""

/-- Its leaves: the level, then the skill, under one salt and one hash. -/
theorem skillAt_leaves {level : String} {m m' : Digest} {leaves : List BodyLeaf}
    (h : bodyLeaves m' (skillAt level m).body = .ok leaves) {i : Nat} {l : BodyLeaf}
    (hl : leaves[i]? = some l) : l.hash = ⟨List.replicate 32 0, rfl⟩ ∧
      l.salt = ⟨List.replicate 32 0, rfl⟩ ∧
      [("level", Value.string level), ("skill", .string "rust")][i]? = some (l.key, l.value) := by
  obtain ⟨index, jcs, hleaf⟩ := bodyLeaves_getElem? h hl
  exact ⟨hleaf.hash, hleaf.salt, hleaf.field⟩

/-- Under such a hash a claim to a skill agrees with one at another level, for a
selector that leaves the level out. -/
theorem skillAt_agree (level level' : String) (m m' : Digest) :
    Agree (.only ["skill"]) (skillAt level m) (skillAt level' m') where
  claimId := rfl
  subject := rfl
  issuer := rfl
  validity := rfl
  category := rfl
  schemaId := rfl
  bodyRoot := rfl
  fieldCount := rfl
  relianceRoot := rfl
  relianceCount := rfl
  signature := rfl
  hashes := by
    intro _ leaves _ _ leaves' _ hof hof'
    have hlen : leaves.length = leaves'.length :=
      (length_bodyLeaves hof.body).trans (length_bodyLeaves hof'.body).symm
    refine List.ext_getElem (by simpa using hlen) fun i hi hi' => ?_
    rw [List.getElem_map, List.getElem_map]
    exact (skillAt_leaves hof.body (List.getElem?_eq_getElem _)).1.trans
      (skillAt_leaves hof'.body (List.getElem?_eq_getElem _)).1.symm
  opened := by
    intro _ leaves _ _ leaves' _ hof hof' indices hsel i hi
    have hlen : leaves.length = leaves'.length :=
      (length_bodyLeaves hof.body).trans (length_bodyLeaves hof'.body).symm
    have hlt := selectedIndices_lt hsel i hi
    have hl := List.getElem?_eq_getElem hlt
    have hl' := List.getElem?_eq_getElem (hlen ▸ hlt)
    obtain ⟨-, hsalt, hget⟩ := skillAt_leaves hof.body hl
    obtain ⟨-, hsalt', hget'⟩ := skillAt_leaves hof'.body hl'
    simp only [selectedIndices, Framework.bind_eq_ok, mapM_eq_ok, Framework.okOr_eq_ok,
      List.forall₂_cons_left_iff, List.forall₂_nil_left_iff] at hsel
    obtain ⟨-, -, j, _, hj, rfl, rfl⟩ := hsel
    obtain rfl := List.mem_singleton.mp hi
    have hkey : leaves[i].key = "skill" := by
      simpa using (List.findIdx?_eq_some_iff_getElem.mp hj).2.1
    have hi : i = 1 := by
      rcases i with _ | _ | i
      · simp [hkey] at hget
      · rfl
      · simp at hget
    subst hi
    simp only [List.getElem?_cons_succ, List.getElem?_cons_zero, Option.some.injEq, Prod.mk.injEq]
      at hget hget'
    rw [hl, hl']
    simp only [Option.map_some, opening, ← hget.1, ← hget.2, ← hget'.1, ← hget'.2, hsalt, hsalt']
  relies := by
    intro _ _ relies _ _ relies' hof hof'
    rw [List.length_eq_zero_iff.mp (length_relianceLeaves hof.reliance),
      List.length_eq_zero_iff.mp (length_relianceLeaves hof'.reliance)]

/-- The law at two levels of a skill. -/
theorem disclosure_noninterference_skill : ∃ (c c' : Claim) (d : DisclosedClaim),
    c.body = .skill { skill := "rust", level := some "expert" } ∧
      c'.body = .skill { skill := "rust", level := some "novice" } ∧
      c.masterSalt ≠ c'.masterSalt ∧
      c.disclose (.only ["skill"]) = .ok d ∧ c'.disclose (.only ["skill"]) = .ok d := by
  have hdiscloses : ∀ level m, ∃ d, (skillAt level m).disclose (.only ["skill"]) = .ok d := by
    intro level m
    obtain ⟨leaves, hleaves⟩ := bodyLeaves_isOk m (jcs_fields (skillAt level m).body)
    have hskill : ("skill", Value.string "rust") ∈ sortedFields (skillAt level m).body :=
      mem_sortedFields.mpr List.mem_cons_self
    have hkey : "skill" ∈ leaves.map (·.key) := by
      rw [map_key_bodyLeaves hleaves]
      exact List.mem_map_of_mem (f := Prod.fst) hskill
    obtain ⟨indices, hsel⟩ := selectedIndices_only.mpr
      ⟨show ["skill"] ≠ [] by decide, List.forall_mem_singleton.mpr hkey⟩
    have hof : LeavesOf (skillAt level m) m leaves [] := ⟨decodeArray_toHex m, hleaves, rfl⟩
    exact disclose_isOk hof hsel
  let salt : Digest := ⟨List.replicate 32 0, rfl⟩
  let salt' : Digest := ⟨List.replicate 32 1, rfl⟩
  obtain ⟨d, hd⟩ := hdiscloses "expert" salt
  obtain ⟨d', hd'⟩ := hdiscloses "novice" salt'
  have hsame := disclosure_noninterference.1 _ _ _ (skillAt_agree "expert" "novice" salt salt') d d' hd hd'
  have hsalt : salt ≠ salt' := by decide
  refine ⟨_, _, d, rfl, rfl, fun h => hsalt ?_, hd, hsame ▸ hd'⟩
  have hdecode : decodeArray 32 (toHex salt.val) = decodeArray 32 (toHex salt'.val) := congrArg _ h
  exact Except.ok.inj ((decodeArray_toHex salt).symm.trans (hdecode.trans (decodeArray_toHex salt')))

end

end AionTrust.Proof
