import AionTrust.Impl.Claims.Claim
import AionTrust.Proof.Core.Merkle

/-!
# What a claim's leaves commit

A body's fields in the order of their keys (`sortedFields`) are the body's
fields (`mem_sortedFields`) under the keys of its category (`fieldKeys_eq`), and
determine it (`sortedFields_inj`).
Each leaf of a body is the hash of one of them at its index
(`bodyLeaves_getElem?`), and each reliance leaf that of one target
(`relianceLeaves_getElem?`). The commitments are the roots over the leaves
(`bodyCommitment_eq_ok`, `relianceCommitment_eq_ok`).
-/

namespace AionTrust.Proof

open AionTrust.Impl
open Framework (Bytes okOr_eq_ok mapError_eq_ok bind_eq_ok pure_eq_ok)

/-! ## The fields of a body -/

/-- The fields in the order of their keys. -/
def sortedFields (body : ClaimBody) : List (String × Value) :=
  match orderedFields body with
  | .ok fields => fields
  | .error _ => []

theorem orderedFields_eq (body : ClaimBody) : orderedFields body = .ok (sortedFields body) := rfl

/-- The declared keys of a category are those its bodies have. -/
theorem fieldKeys_eq (body : ClaimBody) : ClaimBody.fieldKeysForCategory body.category =
    some ((sortedFields body).map Prod.fst) := by
  cases body <;> rfl

theorem fieldKeys_spec {category : String} {keys : List String}
    (h : ClaimBody.fieldKeysForCategory category = some keys) :
    keys ≠ [] ∧ keys.Nodup ∧ keys.length ≤ 7 := by
  unfold ClaimBody.fieldKeysForCategory at h
  split at h <;> cases h <;> decide

theorem sortedFields_ne_nil (body : ClaimBody) : sortedFields body ≠ [] := fun h => by
  have := (fieldKeys_spec (fieldKeys_eq body)).1
  rw [h] at this
  exact this rfl

theorem length_sortedFields_le (body : ClaimBody) : (sortedFields body).length ≤ 7 := by
  simpa using (fieldKeys_spec (fieldKeys_eq body)).2.2

/-- A map built from entries of different keys has those entries. -/
theorem mem_toList_ofList {entries : List (String × Value)}
    (hdistinct : entries.Pairwise fun a b => a.1 ≠ b.1) {e : String × Value} :
    e ∈ (Std.TreeMap.ofList entries compare).toList ↔ e ∈ entries := by
  obtain ⟨k, v⟩ := e
  have hcmp : entries.Pairwise fun a b => ¬ compare a.1 b.1 = .eq :=
    hdistinct.imp fun hne heq => hne (Std.LawfulEqCmp.eq_of_compare heq)
  rw [Std.TreeMap.mem_toList_iff_getElem?_eq_some]
  constructor
  · intro hget
    have hmem : (entries.map Prod.fst).contains k := by
      by_contra hno
      rw [Std.TreeMap.getElem?_ofList_of_contains_eq_false (by simpa using hno)] at hget
      cases hget
    obtain ⟨⟨k', v'⟩, hin, rfl⟩ := List.mem_map.mp (List.contains_iff_mem.mp hmem)
    rw [Std.TreeMap.getElem?_ofList_of_mem (Std.ReflCmp.compare_self) hcmp hin] at hget
    obtain rfl := Option.some.inj hget
    exact hin
  · intro hin
    exact Std.TreeMap.getElem?_ofList_of_mem (Std.ReflCmp.compare_self) hcmp hin

/-- A body's keys are different, from each other and from the tag. -/
theorem entries_distinct (body : ClaimBody) :
    (("claim_type", Value.string body.category) :: body.fields).Pairwise fun a b => a.1 ≠ b.1 := by
  cases body <;> simp [ClaimBody.fields]

/-- The entries of a map have different keys. -/
theorem toList_distinct (map : Std.TreeMap String Value compare) :
    map.toList.Pairwise fun a b => a.1 ≠ b.1 :=
  Std.TreeMap.distinct_keys_toList.imp fun {a b} (hne : ¬ compare a.1 b.1 = .eq)
    (heq : a.1 = b.1) => hne (heq ▸ Std.ReflCmp.compare_self)

/-- The sorted fields are the fields of the body. -/
theorem mem_sortedFields {body : ClaimBody} {e : String × Value} :
    e ∈ sortedFields body ↔ e ∈ body.fields := by
  have hdistinct := entries_distinct body
  have htag := (List.pairwise_cons.mp hdistinct).1
  set map := (Std.TreeMap.ofList (("claim_type", Value.string body.category) :: body.fields)
    compare).toList with hmap
  have hmapDistinct : map.Pairwise fun a b => a.1 ≠ b.1 := toList_distinct _
  have hsorted : sortedFields body =
      (Std.TreeMap.ofList (map.filter fun e => e.1 ≠ claimTypeTag) compare).toList := rfl
  rw [hsorted, mem_toList_ofList (hmapDistinct.filter _), List.mem_filter, hmap,
    mem_toList_ofList hdistinct, List.mem_cons]
  constructor
  · rintro ⟨rfl | he, hne⟩
    · exact absurd rfl (of_decide_eq_true hne)
    · exact he
  · exact fun he => ⟨.inr he, decide_eq_true (htag e he).symm⟩

/-- Looking up a key in a list of different keys finds its entry. -/
theorem lookup_eq_some_iff {entries : List (String × Value)}
    (hdistinct : entries.Pairwise fun a b => a.1 ≠ b.1) {key : String} {value : Value} :
    entries.lookup key = some value ↔ (key, value) ∈ entries := by
  rw [List.lookup_eq_some_iff]
  constructor
  · rintro ⟨l₁, l₂, rfl, -⟩
    exact List.mem_append_right _ List.mem_cons_self
  · intro hmem
    obtain ⟨l₁, l₂, rfl⟩ := List.append_of_mem hmem
    refine ⟨l₁, l₂, rfl, fun e he => ?_⟩
    have hne := (List.pairwise_append.mp hdistinct).2.2 e he _ List.mem_cons_self
    simpa using Ne.symm hne

/-- A body has one value under a key. -/
theorem field_unique {body : ClaimBody} {key : String} {value value' : Value}
    (h : (key, value) ∈ body.fields) (h' : (key, value') ∈ body.fields) : value = value' := by
  have hdistinct := (List.pairwise_cons.mp (entries_distinct body)).2
  exact Option.some.inj (((lookup_eq_some_iff hdistinct).mpr h).symm.trans
    ((lookup_eq_some_iff hdistinct).mpr h'))

/-- No field is under the tag. -/
theorem field_ne_tag {body : ClaimBody} {key : String} {value : Value} (h : (key, value) ∈ body.fields) :
    key ≠ claimTypeTag := fun htag =>
  (List.pairwise_cons.mp (entries_distinct body)).1 _ h htag.symm

/-- A claim's value at a key is that of the field, or the tag. -/
theorem fieldValue_eq_some_iff {c : Claim} {key : String} {value : Value} :
    c.fieldValue key = some value ↔
      (key = claimTypeTag ∧ value = .string c.category) ∨ (key, value) ∈ c.body.fields := by
  have hlookup : c.fieldValue key = (Std.TreeMap.ofList (("claim_type", Value.string c.body.category) ::
      c.body.fields) compare).toList.lookup key := rfl
  rw [hlookup, lookup_eq_some_iff (toList_distinct _), mem_toList_ofList (entries_distinct _),
    List.mem_cons, Prod.mk.injEq]
  rfl

/-! ## The fields determine the body -/

/-- A category has its keys to itself. -/
theorem fieldKeys_inj {category category' : String} {keys : List String}
    (h : ClaimBody.fieldKeysForCategory category = some keys)
    (h' : ClaimBody.fieldKeysForCategory category' = some keys) : category = category' := by
  unfold ClaimBody.fieldKeysForCategory at h h'
  split at h <;> cases h <;> split at h' <;> first | rfl | simp at h'

theorem optValue_inj {α : Type} {f : α → Value} (hf : Function.Injective f) (hnull : ∀ a, f a ≠ .null) :
    Function.Injective (ClaimBody.optValue f) := by
  intro a b h
  cases a with
  | none =>
    cases b with
    | none => rfl
    | some b => exact absurd h.symm (hnull b)
  | some a =>
    cases b with
    | none => exact absurd h (hnull a)
    | some b => exact congrArg some (hf h)

theorem string_inj : Function.Injective Value.string := fun _ _ h => Value.string.inj h

/-- Lists under the same different keys are the same when their entries are. -/
theorem eq_of_keys {α β : Type} {l l' : List (α × β)} (hkeys : l.map Prod.fst = l'.map Prod.fst)
    (hnodup : (l.map Prod.fst).Nodup) (hmem : ∀ e ∈ l, e ∈ l') : l = l' := by
  induction l generalizing l' with
  | nil => exact (List.map_eq_nil_iff.mp hkeys.symm).symm
  | cons a l ih =>
    cases l' with
    | nil => cases hkeys
    | cons a' l' =>
      simp only [List.map_cons, List.cons.injEq] at hkeys
      obtain ⟨hnew, hnodup⟩ := List.nodup_cons.mp hnodup
      have hhead : a = a' := by
        rcases List.mem_cons.mp (hmem a List.mem_cons_self) with rfl | hin
        · rfl
        · exact absurd (hkeys.2 ▸ List.mem_map_of_mem hin) hnew
      subst hhead
      rw [ih hkeys.2 hnodup fun e he => ?_]
      rcases List.mem_cons.mp (hmem e (List.mem_cons_of_mem _ he)) with rfl | hin
      · exact absurd (List.mem_map_of_mem he) hnew
      · exact hin

theorem optString_inj {a b : Option String}
    (h : ClaimBody.optValue Value.string a = ClaimBody.optValue .string b) : a = b :=
  optValue_inj string_inj (fun _ => by simp) h

theorem optRank_inj {a b : Option UInt8}
    (h : ClaimBody.optValue (fun r : UInt8 => Value.number (.posInt r.toUInt64)) a =
      ClaimBody.optValue (fun r => .number (.posInt r.toUInt64)) b) : a = b :=
  optValue_inj (fun r r' hr => by simpa [UInt8.toUInt64_inj] using hr) (fun _ => by simp) h

theorem fields_inj {body body' : ClaimBody} (hcategory : body.category = body'.category)
    (h : body.fields = body'.fields) : body = body' := by
  cases body <;> cases body' <;> simp only [ClaimBody.category, String.reduceEq] at hcategory
  all_goals
    rename_i b b'
    cases b
    cases b'
    simp only [ClaimBody.fields, List.cons.injEq, Prod.mk.injEq, Value.string.injEq, Value.bool.injEq,
      Value.array.injEq, true_and, and_true] at h
  · obtain ⟨rfl, rfl, rfl, rfl, hend, rfl⟩ := h
    rw [optString_inj hend]
  · obtain ⟨rfl, rfl, rfl, href, hrank⟩ := h
    rw [optString_inj href, optRank_inj hrank]
  · obtain ⟨rfl, rfl, rfl, hexpires, hno⟩ := h
    rw [optString_inj hexpires, optString_inj hno]
  · obtain ⟨rfl, hscope, rfl, rfl, huntil, rfl, rfl⟩ := h
    rw [string_inj.list_map hscope, optString_inj huntil]
  · obtain ⟨rfl, rfl, rfl⟩ := h
    rfl
  · obtain ⟨rfl, rfl, rfl⟩ := h
    rfl
  · obtain ⟨rfl, hlevel⟩ := h
    rw [optString_inj hlevel]

/-- The sorted fields determine the body. -/
theorem sortedFields_inj {body body' : ClaimBody} (h : sortedFields body = sortedFields body') :
    body = body' := by
  have hkeys := fieldKeys_eq body'
  rw [← h] at hkeys
  have hcategory := fieldKeys_inj (fieldKeys_eq body) hkeys
  refine fields_inj hcategory (eq_of_keys ?_ ?_ fun e he => ?_)
  · cases body <;> cases body' <;> simp only [ClaimBody.category, String.reduceEq] at hcategory <;> rfl
  · cases body <;> simp [ClaimBody.fields]
  · exact mem_sortedFields.mp (h ▸ mem_sortedFields.mpr he)

/-! ## The leaves of a body -/

variable [External]

/-- The leaf at an index is the field there, under its own salt. -/
structure LeafOf (masterSalt : Digest) (fields : List (String × Value)) (i : Nat) (l : BodyLeaf)
    (index : UInt32) (jcsValue : Bytes) : Prop where
  position : index.toNat = i
  field : fields[i]? = some (l.key, l.value)
  jcs : External.toJcsBytes l.value = some jcsValue
  salt : l.salt = deriveFieldSalt masterSalt index l.key
  hash : l.hash = fieldLeafHash index l.key l.salt jcsValue

theorem bodyLeaf_eq_ok {masterSalt : Digest} {e : (String × Value) × Nat} {l : BodyLeaf} :
    bodyLeaf masterSalt e = .ok l ↔ ∃ index jcsValue, index.toNat = e.2 ∧ e.1 = (l.key, l.value) ∧
      External.toJcsBytes l.value = some jcsValue ∧
      l.salt = deriveFieldSalt masterSalt index l.key ∧
      l.hash = fieldLeafHash index l.key l.salt jcsValue := by
  obtain ⟨⟨key, value⟩, i⟩ := e
  obtain ⟨key', value', salt, hash⟩ := l
  simp only [bodyLeaf, bind_eq_ok, okOr_eq_ok, u32TryFrom_eq_some, pure_eq_ok, BodyLeaf.mk.injEq,
    Prod.mk.injEq]
  constructor
  · rintro ⟨index, hi, jcs, hjcs, rfl, rfl, rfl, rfl⟩
    exact ⟨index, jcs, hi, ⟨rfl, rfl⟩, hjcs, rfl, rfl⟩
  · rintro ⟨index, jcs, hi, ⟨rfl, rfl⟩, hjcs, rfl, rfl⟩
    exact ⟨index, hi, jcs, hjcs, rfl, rfl, rfl, rfl⟩

section

variable {masterSalt : Digest} {body : ClaimBody} {leaves : List BodyLeaf}

theorem bodyLeaves_forall₂ (h : bodyLeaves masterSalt body = .ok leaves) :
    List.Forall₂ (fun e l => bodyLeaf masterSalt e = .ok l) (sortedFields body).zipIdx leaves := by
  rw [bodyLeaves, orderedFields_eq, Framework.ok_bind] at h
  exact Framework.mapM_eq_ok.mp h

theorem length_bodyLeaves (h : bodyLeaves masterSalt body = .ok leaves) :
    leaves.length = (sortedFields body).length := by
  simpa using (bodyLeaves_forall₂ h).length_eq.symm

theorem bodyLeaves_ne_nil (h : bodyLeaves masterSalt body = .ok leaves) : leaves ≠ [] := by
  have hlen := length_bodyLeaves h
  have := List.length_pos_of_ne_nil (sortedFields_ne_nil body)
  exact List.ne_nil_of_length_pos (by omega)

/-- Each leaf of a body is the hash of the field at its index. -/
theorem bodyLeaves_getElem? (h : bodyLeaves masterSalt body = .ok leaves) {i : Nat} {l : BodyLeaf}
    (hl : leaves[i]? = some l) :
    ∃ index jcsValue, LeafOf masterSalt (sortedFields body) i l index jcsValue := by
  have hall := bodyLeaves_forall₂ h
  obtain ⟨hi, rfl⟩ := List.getElem?_eq_some_iff.mp hl
  have hi' : i < (sortedFields body).zipIdx.length := hall.length_eq ▸ hi
  have hleaf := hall.get hi' hi
  obtain ⟨index, jcs, hidx, hfield, hjcs, hsalt, hhash⟩ := bodyLeaf_eq_ok.mp hleaf
  simp only [List.get_eq_getElem, List.getElem_zipIdx, Nat.zero_add] at hidx hfield hjcs hsalt hhash
  exact ⟨index, jcs, hidx, by rw [List.getElem?_eq_getElem (by simpa using hi'), hfield], hjcs,
    hsalt, hhash⟩

/-- The leaves carry the fields of the body, in order. -/
theorem map_field_bodyLeaves (h : bodyLeaves masterSalt body = .ok leaves) :
    leaves.map (fun l => (l.key, l.value)) = sortedFields body := by
  apply List.ext_getElem?
  intro i
  rw [List.getElem?_map]
  cases hl : leaves[i]? with
  | none =>
    have := List.getElem?_eq_none_iff.mp hl
    rw [List.getElem?_eq_none (by rw [← length_bodyLeaves h]; exact this)]
    rfl
  | some l =>
    obtain ⟨index, jcs, hleaf⟩ := bodyLeaves_getElem? h hl
    rw [hleaf.field]
    rfl

theorem map_key_bodyLeaves (h : bodyLeaves masterSalt body = .ok leaves) :
    leaves.map (·.key) = (sortedFields body).map Prod.fst := by
  rw [← map_field_bodyLeaves h, List.map_map]
  rfl

theorem bodyCommitment_eq_ok {root : Digest} {count : UInt32} :
    bodyCommitment masterSalt body = .ok (root, count) ↔ ∃ leaves,
      bodyLeaves masterSalt body = .ok leaves ∧ count.toNat = leaves.length ∧
        ∃ hne : leaves.map (·.hash) ≠ [], root = mth (leaves.map (·.hash)) hne := by
  simp only [bodyCommitment, bind_eq_ok, mapError_eq_ok, okOr_eq_ok, u32TryFrom_eq_some, pure_eq_ok,
    Prod.mk.injEq, List.length_map]
  constructor
  · rintro ⟨leaves, hleaves, root', hroot, count', hcount, rfl, rfl⟩
    have hne : leaves.map (·.hash) ≠ [] := by simpa using bodyLeaves_ne_nil hleaves
    rw [merkleRoot_ok hne] at hroot
    exact ⟨leaves, hleaves, hcount, hne, (Except.ok.inj hroot).symm⟩
  · rintro ⟨leaves, hleaves, hcount, hne, rfl⟩
    exact ⟨leaves, hleaves, _, merkleRoot_ok hne, count, hcount, rfl, rfl⟩

end

/-! ## The leaves of the declared reliance -/

/-- The leaf at an index is the target there. -/
structure ReliesLeafOf (masterSalt : Digest) (targets : List ReliesOn) (i : Nat) (l : ReliesLeaf) :
    Prop where
  position : l.index.toNat = i
  target : (targets[i]?.map (·.fromClaimId)) = some l.fromClaimId
  hash : l.hash = relianceLeafHash l.index l.salt (asBytes l.fromClaimId.asStr) l.kindCommit

section

variable {masterSalt : Digest} {targets : List ReliesOn} {leaves : List ReliesLeaf}

theorem length_relianceLeaves (h : relianceLeaves masterSalt targets = .ok leaves) :
    leaves.length = targets.length := by
  simpa using (Framework.mapM_eq_ok.mp h).length_eq.symm

/-- Each reliance leaf is the hash of the target at its index. -/
theorem relianceLeaves_getElem? (h : relianceLeaves masterSalt targets = .ok leaves) {i : Nat}
    {l : ReliesLeaf} (hl : leaves[i]? = some l) : ReliesLeafOf masterSalt targets i l := by
  have hall := Framework.mapM_eq_ok.mp h
  obtain ⟨hi, rfl⟩ := List.getElem?_eq_some_iff.mp hl
  have hi' : i < targets.zipIdx.length := hall.length_eq ▸ hi
  have hleaf := hall.get hi' hi
  simp only [List.get_eq_getElem, List.getElem_zipIdx, Nat.zero_add, reliesLeaf, bind_eq_ok,
    okOr_eq_ok, u32TryFrom_eq_some, pure_eq_ok] at hleaf
  obtain ⟨index, hidx, hl'⟩ := hleaf
  rw [← hl']
  refine ⟨hidx, ?_, rfl⟩
  rw [List.getElem?_eq_getElem (by simpa using hi')]
  rfl

theorem relianceCommitment_eq_ok {root : Digest} {count : UInt32} :
    relianceCommitment masterSalt targets = .ok (root, count) ↔ ∃ leaves,
      relianceLeaves masterSalt targets = .ok leaves ∧ count.toNat = leaves.length ∧
        (leaves = [] → root = emptyRelianceRoot) ∧
        ∀ hne : leaves.map (·.hash) ≠ [], root = mth (leaves.map (·.hash)) hne := by
  simp only [relianceCommitment, bind_eq_ok, okOr_eq_ok, u32TryFrom_eq_some]
  refine exists_congr fun leaves => and_congr_right fun hleaves => ?_
  cases leaves with
  | nil =>
    constructor
    · rintro ⟨count', -, hret⟩
      obtain ⟨rfl, rfl⟩ := Prod.mk.inj (pure_eq_ok.mp hret)
      exact ⟨rfl, fun _ => rfl, fun hne => absurd rfl hne⟩
    · rintro ⟨hcount, hroot, -⟩
      refine ⟨count, hcount, pure_eq_ok.mpr ?_⟩
      rw [hroot rfl, show count = 0 from UInt32.toNat_inj.mp (by simpa using hcount)]
  | cons l ls =>
    have hne : (l :: ls).map (·.hash) ≠ [] := by simp
    simp only [List.isEmpty_cons, Bool.false_eq_true, if_false, bind_eq_ok, mapError_eq_ok,
      merkleRoot_ok hne, pure_eq_ok, Except.ok.injEq, exists_eq_left', Prod.mk.injEq]
    constructor
    · rintro ⟨count', hcount, rfl, rfl⟩
      exact ⟨hcount, (by simp), fun _ => rfl⟩
    · rintro ⟨hcount, -, hroot⟩
      exact ⟨count, hcount, (hroot hne).symm, rfl⟩

end

end AionTrust.Proof
