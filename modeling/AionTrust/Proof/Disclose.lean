import AionTrust.Proof.Disclosure
import AionTrust.Proof.Leaves

/-!
# What a claim discloses

A disclosure of a claim has the claim's scalars, the leaves its selector names
and all of its reliance leaves, with their audit paths (`disclose_eq_ok`).
Every leaf recomputes the same root, so a disclosed field proves itself just
when the whole body does (`proveField_revealField`), and whether a disclosure
verifies depends on the claim only (`verify_disclose_iff`).
-/

namespace AionTrust.Proof

open AionTrust.Impl
open Framework (ensure_eq_ok okOr okOr_eq_ok mapError_eq_ok bind_eq_ok pure_eq_ok)

/-- The disclosure of a claim with these fields and reliance leaves. -/
def disclosureOf (c : Claim) (fields : List RevealedField) (reliance : List RevealedReliance) :
    DisclosedClaim where
  claimId := c.claimId
  subjectId := c.subjectId
  issuerId := c.issuerId
  validity := c.validity
  category := c.category
  schemaId := c.schemaId
  bodyRoot := c.bodyRoot
  fieldCount := c.fieldCount
  relianceRoot := c.relianceRoot
  relianceCount := c.relianceCount
  issuerSignature := c.issuerSignature
  fields
  reliance

/-- A selector that succeeds names some leaf. -/
theorem selectedIndices_ne_nil {leaves : List BodyLeaf} (hne : leaves ≠ []) {s : FieldSelector}
    {indices : List Nat} (h : selectedIndices leaves s = .ok indices) : indices ≠ [] := by
  cases s with
  | all =>
    obtain rfl := Except.ok.inj h
    simpa using hne
  | only keys =>
    simp only [selectedIndices, bind_eq_ok, ensure_eq_ok, Framework.mapM_eq_ok] at h
    obtain ⟨-, hkeys, hall⟩ := h
    rintro rfl
    exact hkeys (List.forall₂_nil_right_iff.mp hall)

/-- A selector names leaves that are there. -/
theorem selectedIndices_lt {leaves : List BodyLeaf} {s : FieldSelector} {indices : List Nat}
    (h : selectedIndices leaves s = .ok indices) : ∀ i ∈ indices, i < leaves.length := by
  intro i hi
  cases s with
  | all =>
    obtain rfl := Except.ok.inj h
    exact List.mem_range.mp hi
  | only keys =>
    simp only [selectedIndices, bind_eq_ok, Framework.mapM_eq_ok, okOr_eq_ok] at h
    obtain ⟨-, -, hall⟩ := h
    obtain ⟨key, -, hfind⟩ := Framework.exists_left hall hi
    exact (List.findIdx?_eq_some_iff_getElem.mp hfind).1

/-- A list of keys names leaves just when it is not empty and the leaves have
all of them. -/
theorem selectedIndices_only {leaves : List BodyLeaf} {keys : List String} :
    (∃ indices, selectedIndices leaves (.only keys) = .ok indices) ↔
      keys ≠ [] ∧ ∀ key ∈ keys, key ∈ leaves.map (·.key) := by
  constructor
  · rintro ⟨indices, h⟩
    simp only [selectedIndices, bind_eq_ok, ensure_eq_ok, Framework.mapM_eq_ok, okOr_eq_ok] at h
    obtain ⟨-, hne, hall⟩ := h
    refine ⟨hne, fun key hkey => ?_⟩
    obtain ⟨i, -, hfind⟩ := Framework.exists_right hall hkey
    obtain ⟨hi, hkey, -⟩ := List.findIdx?_eq_some_iff_getElem.mp hfind
    exact List.mem_map.mpr ⟨leaves[i], List.getElem_mem hi, beq_iff_eq.mp hkey⟩
  · rintro ⟨hne, hkeys⟩
    obtain ⟨indices, hall⟩ : ∃ indices, (keys.mapM fun key =>
        okOr (leaves.findIdx? fun l => l.key == key) ClaimReject.malformed) = .ok indices := by
      refine Framework.mapM_isOk fun key hkey => ?_
      obtain ⟨l, hl, hkey⟩ := List.mem_map.mp (hkeys key hkey)
      have hany : leaves.any (fun l => l.key == key) = true := List.any_eq_true.mpr ⟨l, hl, by simp [hkey]⟩
      rw [← List.findIdx?_isSome] at hany
      obtain ⟨i, hi⟩ := Option.isSome_iff_exists.mp hany
      exact ⟨i, okOr_eq_ok.mpr hi⟩
    exact ⟨indices, by simp only [selectedIndices, Framework.ensure_true hne, Framework.ok_bind, hall]⟩

/-- A selector that fails is malformed. -/
theorem selectedIndices_error {leaves : List BodyLeaf} {s : FieldSelector} {e : ClaimReject}
    (h : selectedIndices leaves s = .error e) : e = .malformed := by
  cases s with
  | all => cases h
  | only keys =>
    rw [selectedIndices, Framework.ensure] at h
    split at h
    · obtain ⟨-, key, -, -, -, hkey⟩ := Framework.mapM_eq_error.mp h
      cases hfind : leaves.findIdx? fun l => l.key == key with
      | none => rw [hfind] at hkey; exact (Except.error.inj hkey).symm
      | some i => rw [hfind] at hkey; cases hkey
    · exact (Except.error.inj h).symm

variable [External]

/-- The leaves of a claim under its own master salt. -/
structure LeavesOf (c : Claim) (masterSalt : Digest) (leaves : List BodyLeaf)
    (relies : List ReliesLeaf) : Prop where
  salt : decodeArray 32 c.masterSalt = .ok masterSalt
  body : bodyLeaves masterSalt c.body = .ok leaves
  reliance : relianceLeaves masterSalt c.reliance = .ok relies

theorem discloseReliance_eq_ok {leaves : List ReliesLeaf} {rs : List RevealedReliance} :
    discloseReliance leaves = .ok rs ↔
      List.Forall₂ (fun l r => revealReliance leaves l = .ok r) leaves rs := by
  unfold discloseReliance
  cases leaves with
  | nil => simp [eq_comm]
  | cons l ls => simp only [List.isEmpty_cons, Bool.false_eq_true, if_false, Framework.mapM_eq_ok]

theorem disclose_eq_ok {c : Claim} {s : FieldSelector} {d : DisclosedClaim} :
    c.disclose s = .ok d ↔ ∃ masterSalt leaves relies indices,
      LeavesOf c masterSalt leaves relies ∧ selectedIndices leaves s = .ok indices ∧
        List.Forall₂ (fun pos f => revealField leaves pos = .ok f) indices d.fields ∧
        List.Forall₂ (fun l r => revealReliance relies l = .ok r) relies d.reliance ∧
        d = disclosureOf c d.fields d.reliance := by
  simp only [Claim.disclose, DisclosedClaim.build, bind_eq_ok, decodeClaimArray_eq_ok, pure_eq_ok,
    Framework.mapM_eq_ok, discloseReliance_eq_ok]
  constructor
  · rintro ⟨salt, hsalt, leaves, hleaves, relies, hrelies, indices, hsel, fs, hfs, rs, hrs, rfl⟩
    exact ⟨salt, leaves, relies, indices, ⟨hsalt, hleaves, hrelies⟩, hsel, hfs, hrs, rfl⟩
  · rintro ⟨salt, leaves, relies, indices, ⟨hsalt, hleaves, hrelies⟩, hsel, hfs, hrs, hd⟩
    exact ⟨salt, hsalt, leaves, hleaves, relies, hrelies, indices, hsel, _, hfs, _, hrs, hd.symm⟩

/-! ## Fields -/

theorem revealField_eq_ok {leaves : List BodyLeaf} {pos : Nat} {f : RevealedField} :
    revealField leaves pos = .ok f ↔ ∃ l index, leaves[pos]? = some l ∧ index.toNat = pos ∧ f = {
      key := l.key
      index
      salt := toHex l.salt.val
      value := l.value
      auditPath := (path (leaves.map (·.hash)) pos).map fun h => toHex h.val } := by
  simp only [revealField, bind_eq_ok, okOr_eq_ok, mapError_eq_ok, u32TryFrom_eq_some, pure_eq_ok]
  constructor
  · rintro ⟨l, hl, p, hp, index, hindex, rfl⟩
    obtain ⟨hpos, -⟩ := List.getElem?_eq_some_iff.mp hl
    rw [auditPath_ok (by simpa using hpos)] at hp
    obtain rfl := Except.ok.inj hp
    exact ⟨l, index, hl, hindex, rfl⟩
  · rintro ⟨l, index, hl, hindex, rfl⟩
    obtain ⟨hpos, -⟩ := List.getElem?_eq_some_iff.mp hl
    exact ⟨l, hl, _, auditPath_ok (by simpa using hpos), index, hindex, rfl⟩

/-- The root over the leaves of a body. -/
def bodyRootOf (leaves : List BodyLeaf) (root : Digest) : Prop :=
  ∃ hne : leaves.map (·.hash) ≠ [], root = mth (leaves.map (·.hash)) hne

/-- A disclosed leaf proves itself against a root just when the root is that
over all leaves. -/
theorem proveField_revealField {c : Claim} {masterSalt : Digest} {leaves : List BodyLeaf}
    (hleaves : bodyLeaves masterSalt c.body = .ok leaves) {d : DisclosedClaim}
    (hcount : d.fieldCount.toNat = leaves.length) {pos : Nat} {f : RevealedField}
    (hf : revealField leaves pos = .ok f) {root : Digest} :
    d.proveField ((sortedFields c.body).map Prod.fst) root f = .ok () ↔ bodyRootOf leaves root := by
  obtain ⟨l, index, hl, hindex, rfl⟩ := revealField_eq_ok.mp hf
  obtain ⟨index', jcs, hleaf⟩ := bodyLeaves_getElem? hleaves hl
  obtain rfl : index' = index := UInt32.toNat_inj.mp (hleaf.position.trans hindex.symm)
  have hkey : ((sortedFields c.body).map Prod.fst)[pos]? = some l.key := by
    rw [List.getElem?_map, hleaf.field]; rfl
  have hhash : (leaves.map (·.hash))[pos]? = some l.hash := by rw [List.getElem?_map, hl]; rfl
  obtain ⟨hne, hroot⟩ := rootFromPath_path hhash
  rw [List.length_map] at hroot
  rw [proveField_eq_ok]
  simp only [hkey, decodeArray_toHex, decodePath_toHex, hleaf.jcs, Except.ok.injEq,
    Option.some.injEq, true_and, exists_eq_left', exists_and_left, hcount, ← hleaf.hash,
    hleaf.position, hroot]
  exact ⟨fun h => ⟨hne, h.symm⟩, fun ⟨_, h⟩ => h.symm⟩

/-! ## Reliance -/

theorem revealReliance_eq_ok {leaves : List ReliesLeaf} {l : ReliesLeaf}
    (hl : l.index.toNat < leaves.length) {r : RevealedReliance} :
    revealReliance leaves l = .ok r ↔ r = {
      index := l.index
      fromClaimId := l.fromClaimId
      salt := toHex l.salt.val
      kindCommit := toHex l.kindCommit.val
      auditPath := (path (leaves.map (·.hash)) l.index.toNat).map fun h => toHex h.val } := by
  have hindex : l.index.toNat < (leaves.map (·.hash)).length := by simpa using hl
  simp only [revealReliance, bind_eq_ok, mapError_eq_ok, pure_eq_ok, auditPath_ok hindex,
    Except.ok.injEq, exists_eq_left']
  exact eq_comm

/-- The disclosed reliance leaves, one for each, in order. -/
theorem revealReliance_getElem? {masterSalt : Digest} {targets : List ReliesOn}
    {relies : List ReliesLeaf} (hrelies : relianceLeaves masterSalt targets = .ok relies)
    {rs : List RevealedReliance}
    (hrs : List.Forall₂ (fun l r => revealReliance relies l = .ok r) relies rs) {i : Nat}
    {r : RevealedReliance} (hr : rs[i]? = some r) :
    ∃ l, relies[i]? = some l ∧ ReliesLeafOf masterSalt targets i l ∧ r.index = l.index ∧
      r.fromClaimId = l.fromClaimId ∧ r.salt = toHex l.salt.val ∧
      r.kindCommit = toHex l.kindCommit.val ∧
      r.auditPath = (path (relies.map (·.hash)) i).map fun h => toHex h.val := by
  obtain ⟨hi, rfl⟩ := List.getElem?_eq_some_iff.mp hr
  have hi' : i < relies.length := hrs.length_eq ▸ hi
  have hl : relies[i]? = some relies[i] := List.getElem?_eq_getElem hi'
  have hleaf := relianceLeaves_getElem? hrelies hl
  have hget := hrs.get hi' hi
  rw [List.get_eq_getElem, List.get_eq_getElem, revealReliance_eq_ok (by rw [hleaf.position]; exact hi')]
    at hget
  rw [hget]
  exact ⟨relies[i], hl, hleaf, rfl, rfl, rfl, rfl, by rw [hleaf.position]⟩

/-- The ids disclosed are those declared. -/
theorem map_fromClaimId_eq {masterSalt : Digest} {targets : List ReliesOn}
    {relies : List ReliesLeaf} (hrelies : relianceLeaves masterSalt targets = .ok relies)
    {rs : List RevealedReliance}
    (hrs : List.Forall₂ (fun l r => revealReliance relies l = .ok r) relies rs) :
    rs.map (·.fromClaimId) = targets.map (·.fromClaimId) := by
  apply List.ext_getElem?
  intro i
  rw [List.getElem?_map, List.getElem?_map]
  cases hr : rs[i]? with
  | none =>
    have := List.getElem?_eq_none_iff.mp hr
    rw [← hrs.length_eq, length_relianceLeaves hrelies] at this
    rw [List.getElem?_eq_none this]
    rfl
  | some r =>
    obtain ⟨l, -, hleaf, -, hid, -⟩ := revealReliance_getElem? hrelies hrs hr
    rw [hleaf.target, ← hid]
    rfl

/-- A disclosed leaf is at its own index, where it proves the root of all of
them and no other. -/
theorem proveReliance_disclosed {masterSalt : Digest} {targets : List ReliesOn}
    {relies : List ReliesLeaf} (hrelies : relianceLeaves masterSalt targets = .ok relies)
    {rs : List RevealedReliance}
    (hrs : List.Forall₂ (fun l r => revealReliance relies l = .ok r) relies rs) {i : Nat}
    {r : RevealedReliance} (hr : rs[i]? = some r) : r.index.toNat = i ∧
      ∃ hne : relies.map (·.hash) ≠ [], ∀ root, proveReliance root relies.length r = .ok () ↔
        root = mth (relies.map (·.hash)) hne := by
  obtain ⟨l, hl, hleaf, hindex, hid, hsalt, hkind, hpath⟩ := revealReliance_getElem? hrelies hrs hr
  have hhash : (relies.map (·.hash))[i]? = some l.hash := by rw [List.getElem?_map, hl]; rfl
  obtain ⟨hne, hroot⟩ := rootFromPath_path hhash
  rw [List.length_map] at hroot
  refine ⟨by rw [hindex, hleaf.position], hne, fun root => ?_⟩
  rw [proveReliance_eq_ok]
  simp only [hindex, hid, hsalt, hkind, hpath, decodeArray_toHex, decodePath_toHex,
    Except.ok.injEq, exists_and_left, exists_eq_left', ← hleaf.hash, hleaf.position, hroot]
  exact eq_comm

theorem map_index_eq {masterSalt : Digest} {targets : List ReliesOn} {relies : List ReliesLeaf}
    (hrelies : relianceLeaves masterSalt targets = .ok relies) {rs : List RevealedReliance}
    (hrs : List.Forall₂ (fun l r => revealReliance relies l = .ok r) relies rs) :
    rs.map (fun r => r.index.toNat) = List.range rs.length := by
  apply List.ext_getElem?
  intro i
  rw [List.getElem?_map]
  by_cases hi : i < rs.length
  · rw [List.getElem?_eq_getElem hi, List.getElem?_range hi]
    exact congrArg some (proveReliance_disclosed hrelies hrs (List.getElem?_eq_getElem hi)).1
  · rw [List.getElem?_eq_none (by omega), List.getElem?_eq_none (by simp; omega)]
    rfl

/-- The reliance set of a disclosure is accepted just when the claim's own
leaves are those of its root and count. -/
theorem verifyReliance_disclose {masterSalt : Digest} {targets : List ReliesOn}
    {relies : List ReliesLeaf} (hrelies : relianceLeaves masterSalt targets = .ok relies)
    {d : DisclosedClaim}
    (hrs : List.Forall₂ (fun l r => revealReliance relies l = .ok r) relies d.reliance) :
    d.verifyReliance = .ok (d.reliance.map (·.fromClaimId)) ↔
      relies.length = d.relianceCount.toNat ∧ ∀ hne : relies.map (·.hash) ≠ [],
        decodeArray 32 d.relianceRoot = .ok (mth (relies.map (·.hash)) hne) := by
  have hlen : d.reliance.length = relies.length := hrs.length_eq.symm
  have hprove := fun (i : Nat) (hi : i < d.reliance.length) =>
    proveReliance_disclosed hrelies hrs (List.getElem?_eq_getElem hi)
  rw [verifyReliance_eq_ok, hlen]
  simp only [true_and]
  refine and_congr_right fun hcount => ?_
  rw [← hcount]
  constructor
  · intro h hne
    have h0 : relies.length ≠ 0 := by simpa using hne
    obtain ⟨root, hroot, -, hall⟩ := h h0
    have h0' : 0 < d.reliance.length := by omega
    obtain ⟨-, hne', hiff⟩ := hprove 0 h0'
    rw [hroot, (hiff root).mp (hall _ (List.getElem_mem h0')).2]
  · intro h h0
    have hne : relies.map (·.hash) ≠ [] := by simpa using h0
    refine ⟨_, h hne, map_index_eq hrelies hrs ▸ List.nodup_range, fun r hr => ?_⟩
    obtain ⟨i, hi, rfl⟩ := List.getElem_of_mem hr
    obtain ⟨hindex, _, hiff⟩ := hprove i hi
    exact ⟨by omega, (hiff _).mpr rfl⟩

/-! ## The whole -/

/-- A claim discloses what a selector names of its leaves. -/
theorem disclose_isOk {c : Claim} {masterSalt : Digest} {leaves : List BodyLeaf}
    {relies : List ReliesLeaf} (hof : LeavesOf c masterSalt leaves relies) {s : FieldSelector}
    {indices : List Nat} (hsel : selectedIndices leaves s = .ok indices) :
    ∃ d, c.disclose s = .ok d := by
  have hlen := length_bodyLeaves hof.body ▸ length_sortedFields_le c.body
  obtain ⟨fs, hfs⟩ : ∃ fs, indices.mapM (revealField leaves) = .ok fs :=
    Framework.mapM_isOk fun pos hpos => by
      have hpos := selectedIndices_lt hsel pos hpos
      exact ⟨_, revealField_eq_ok.mpr ⟨leaves[pos], UInt32.ofNat pos, List.getElem?_eq_getElem hpos,
        by rw [UInt32.toNat_ofNat', Nat.mod_eq_of_lt (by omega)], rfl⟩⟩
  obtain ⟨rs, hrs⟩ : ∃ rs, relies.mapM (revealReliance relies) = .ok rs :=
    Framework.mapM_isOk fun l hl => by
      obtain ⟨i, hi, rfl⟩ := List.getElem_of_mem hl
      have hleaf := relianceLeaves_getElem? hof.reliance (List.getElem?_eq_getElem hi)
      exact ⟨_, (revealReliance_eq_ok (by rw [hleaf.position]; exact hi)).mpr rfl⟩
  exact ⟨disclosureOf c fs rs, disclose_eq_ok.mpr ⟨masterSalt, leaves, relies, indices, hof, hsel,
    Framework.mapM_eq_ok.mp hfs, Framework.mapM_eq_ok.mp hrs, rfl⟩⟩

/-- What a claim cannot disclose is malformed. -/
theorem disclose_error {c : Claim} {masterSalt : Digest} {leaves : List BodyLeaf}
    {relies : List ReliesLeaf} (hof : LeavesOf c masterSalt leaves relies) {s : FieldSelector}
    (h : ¬ ∃ d, c.disclose s = .ok d) : c.disclose s = .error .malformed := by
  cases hsel : selectedIndices leaves s with
  | ok indices => exact absurd (disclose_isOk hof hsel) h
  | error e =>
    obtain rfl := selectedIndices_error hsel
    have hsalt : decodeClaimArray 32 c.masterSalt = .ok masterSalt := decodeClaimArray_eq_ok.mpr hof.salt
    simp only [Claim.disclose, DisclosedClaim.build, hsalt, hof.body, hof.reliance, hsel,
      Framework.ok_bind]
    rfl

/-- What a disclosure opens is what its selector names, in order. -/
theorem disclose_openings {s : FieldSelector} {c : Claim} {d : DisclosedClaim}
    (hd : c.disclose s = .ok d) : ∃ m leaves relies indices, LeavesOf c m leaves relies ∧
      selectedIndices leaves s = .ok indices ∧
      d.fields.map (fun f => some (f.key, f.value, f.salt)) =
        indices.map fun i => leaves[i]?.map fun l => (l.key, l.value, toHex l.salt.val) := by
  obtain ⟨m, leaves, relies, indices, hof, hsel, hfs, -, -⟩ := disclose_eq_ok.mp hd
  refine ⟨m, leaves, relies, indices, hof, hsel, ?_⟩
  rw [← List.forall₂_eq_eq_eq, List.forall₂_map_left_iff, List.forall₂_map_right_iff]
  refine hfs.flip.imp fun f i hf => ?_
  obtain ⟨l, index, hl, -, rfl⟩ := revealField_eq_ok.mp hf
  rw [hl]
  rfl

/-- A disclosed field is one of the body's. -/
theorem disclose_field_mem {s : FieldSelector} {c : Claim} {d : DisclosedClaim}
    (hd : c.disclose s = .ok d) : ∀ f ∈ d.fields, (f.key, f.value) ∈ c.body.fields := by
  obtain ⟨m, leaves, relies, indices, hof, hsel, hfs, -, -⟩ := disclose_eq_ok.mp hd
  intro f hf
  obtain ⟨pos, -, hreveal⟩ := Framework.exists_left hfs hf
  obtain ⟨l, index, hl, -, rfl⟩ := revealField_eq_ok.mp hreveal
  obtain ⟨_, _, hleaf⟩ := bodyLeaves_getElem? hof.body hl
  exact mem_sortedFields.mp (List.mem_of_getElem? hleaf.field)

/-- The dependencies disclosed are those the claim declares. -/
theorem disclose_reliance {c : Claim} {s : FieldSelector} {d : DisclosedClaim}
    (hd : c.disclose s = .ok d) :
    d.reliance.map (·.fromClaimId) = c.reliance.map (·.fromClaimId) := by
  obtain ⟨_, _, _, _, hof, -, -, hrs, -⟩ := disclose_eq_ok.mp hd
  exact map_fromClaimId_eq hof.reliance hrs

/-- A full disclosure has the fields of the body. -/
theorem disclose_all_fields {c : Claim} {d : DisclosedClaim} (hd : c.disclose .all = .ok d) :
    d.fields.map (fun f => (f.key, f.value)) = sortedFields c.body := by
  obtain ⟨m, leaves, relies, indices, hof, hsel, hopenings⟩ := disclose_openings hd
  obtain rfl := Except.ok.inj hsel
  have hrange : (List.range leaves.length).map (leaves[·]?) = leaves.map some :=
    List.ext_getElem (by simp) fun i _ _ => by simp
  have hsome := congrArg (List.map (Option.map fun x : String × Value × String => (x.1, x.2.1))) hopenings
  rw [← map_field_bodyLeaves hof.body]
  refine (List.map_injective_iff.mpr (Option.some_injective _)) ?_
  have hleaves : (List.range leaves.length).map (fun i => leaves[i]?.map fun l => (l.key, l.value)) =
      leaves.map fun l => some (l.key, l.value) := by
    have := congrArg (List.map (Option.map fun l : BodyLeaf => (l.key, l.value))) hrange
    simpa only [List.map_map, Function.comp_def, Option.map_some] using this
  simpa only [List.map_map, Function.comp_def, Option.map_map, Option.map_some, hleaves] using hsome

/-- A claim's leaves, scalars and signature agree. -/
def Consistent (c : Claim) (vk : VerifyingKey) (leaves : List BodyLeaf) (relies : List ReliesLeaf) :
    Prop :=
  (∃ root, (disclosureOf c [] []).checkSignature vk = .ok root ∧ bodyRootOf leaves root) ∧
    c.fieldCount.toNat = leaves.length ∧ relies.length = c.relianceCount.toNat ∧
    ∀ hne : relies.map (·.hash) ≠ [],
      decodeArray 32 c.relianceRoot = .ok (mth (relies.map (·.hash)) hne)

/-- Whether a disclosure verifies depends on the claim only, not on the fields
disclosed. -/
theorem verify_disclose_iff {c : Claim} {s : FieldSelector} {d : DisclosedClaim}
    (hd : c.disclose s = .ok d) {vk : VerifyingKey} : (∃ v, d.verify vk = .ok v) ↔
      ∃ masterSalt leaves relies, LeavesOf c masterSalt leaves relies ∧
        Consistent c vk leaves relies := by
  obtain ⟨salt, leaves, relies, indices, hof, hsel, hfs, hrs, heq⟩ := disclose_eq_ok.mp hd
  have hsign : ∀ root, d.checkSignature vk = .ok root ↔
      (disclosureOf c [] []).checkSignature vk = .ok root := by
    intro root; rw [heq]; rfl
  have hcat : d.category = c.body.category := by rw [heq]; rfl
  have hcount : d.fieldCount = c.fieldCount := by rw [heq]; rfl
  have hrcount : d.relianceCount = c.relianceCount := by rw [heq]; rfl
  have hrroot : d.relianceRoot = c.relianceRoot := by rw [heq]; rfl
  have hkeys : ((sortedFields c.body).map Prod.fst).length = leaves.length := by
    rw [List.length_map, length_bodyLeaves hof.body]
  have hrel := verifyReliance_disclose hof.reliance hrs
  rw [hrcount, hrroot] at hrel
  constructor
  · rintro ⟨v, hv⟩
    obtain ⟨-, -, root, expected, hsig, hexp, hlen, hfields, hreliance⟩ :=
      verifyWithRequired_eq_ok.mp hv
    rw [hcat, fieldKeys_eq] at hexp
    obtain rfl := Option.some.inj hexp
    rw [hkeys] at hlen
    obtain ⟨pos, hpos⟩ := List.exists_mem_of_ne_nil _
      (selectedIndices_ne_nil (bodyLeaves_ne_nil hof.body) hsel)
    obtain ⟨f, hf, hreveal⟩ := Framework.exists_right hfs hpos
    exact ⟨salt, leaves, relies, hof, ⟨root, (hsign root).mp hsig,
      (proveField_revealField hof.body hlen hreveal).mp (hfields f hf)⟩, hcount ▸ hlen,
      hrel.mp hreliance⟩
  · rintro ⟨salt', leaves', relies', hof', ⟨root, hsig, hroot⟩, hlen, hreliance⟩
    obtain rfl := Except.ok.inj (hof.salt.symm.trans hof'.salt)
    obtain rfl := Except.ok.inj (hof.body.symm.trans hof'.body)
    obtain rfl := Except.ok.inj (hof.reliance.symm.trans hof'.reliance)
    refine ⟨_, verifyWithRequired_eq_ok.mpr ⟨rfl, by simp, root, _, (hsign root).mpr hsig,
      hcat ▸ fieldKeys_eq c.body, ?_, fun f hf => ?_, hrel.mpr hreliance⟩⟩
    · rw [hkeys, hcount]; exact hlen
    · obtain ⟨pos, -, hreveal⟩ := Framework.exists_left hfs hf
      exact (proveField_revealField hof.body (hcount ▸ hlen) hreveal).mpr hroot

end AionTrust.Proof
