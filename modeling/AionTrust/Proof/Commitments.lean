import AionTrust.Proof.Packages

/-!
# The commitments are binding

A commitment asks the hash, and the keyed hash for its salts (`Query`): a tree
asks for its leaves and nodes (`TreeQuery`), a body and a list of dependencies
also for what goes into the leaves (`BodyQuery`, `RelianceQuery`). Two trees of
any sizes with one root have the same leaves, unless their queries collide
(`leaves_inj`). So a root is that of one master salt and one body
(`bodyCommitment_inj`), or of one master salt and one list of dependencies
(`relianceCommitment_inj`), and never of both (`commitments_apart`); all of it
is `commitments_binding`.
-/

namespace AionTrust.Proof

open AionTrust.Impl AionTrust.Spec
open Framework (Bytes Fits frames)

/-! ## Queries -/

/-- A question to one of the two hash functions. -/
inductive Query where
  | hash (message : Bytes)
  | keyedHash (key : Digest) (message : Bytes)

/-- What an issuer derives a field's salt from. -/
def fieldSaltMessage (index : UInt32) (key : String) : Bytes :=
  (((SigningWriter.new fieldLeafDomain).u32 index).field (asBytes key)).intoBytes

/-- What an issuer derives a dependency's salt from. -/
def relianceSaltMessage (index : UInt32) : Bytes :=
  ((SigningWriter.new relianceLeafDomain).u32 index).intoBytes

/-- A leaf of a commitment. -/
inductive Leaf where
  | field (index : UInt32) (key : String) (salt : Digest) (jcsValue : Bytes)
  | reliance (index : UInt32) (salt : Digest) (fromClaimId : Bytes) (kindCommit : Digest)

namespace Leaf

def message : Leaf → Message
  | field index key salt jcsValue => .fieldLeaf index key salt jcsValue
  | reliance index salt fromClaimId commit => .relianceLeaf index salt fromClaimId commit

def bytes : Leaf → Bytes
  | field index key salt jcsValue => fieldLeafMessage index key salt jcsValue
  | reliance index salt fromClaimId commit => relianceLeafMessage index salt fromClaimId commit

theorem bytes_eq (l : Leaf) : l.bytes = frames 4 (l.message.kind.domain :: l.message.body) := by
  cases l with
  | field index key salt jcsValue => exact fieldLeafMessage_eq ..
  | reliance index salt fromClaimId commit => exact relianceLeafMessage_eq ..

theorem message_inj {l l' : Leaf} (h : l.message = l'.message) : l = l' := by
  cases l <;> cases l' <;> simp only [message, Message.fieldLeaf.injEq, Message.relianceLeaf.injEq,
    reduceCtorEq] at h <;> simp only [h]

theorem bytes_inj {l l' : Leaf} (hf : l.message.Fits) (hf' : l'.message.Fits)
    (h : l.bytes = l'.bytes) : l = l' := by
  rw [bytes_eq, bytes_eq] at h
  exact message_inj (framed_inj hf hf' h)

theorem bytes_ne_node (l : Leaf) (left right : Digest) : l.bytes ≠ nodeMessage left right := by
  rw [bytes_eq, nodeMessage_eq]
  refine Framework.frames_cons_ne (domain_fits _) (domain_fits .node) fun h => ?_
  have hkind : l.message.kind = .node := kind_domain_inj h
  cases l <;> cases hkind

theorem bytes_ne_emptyReliance (l : Leaf) : l.bytes ≠ emptyRelianceMessage := by
  rw [bytes_eq]
  exact frames_ne_emptyReliance _ _

end Leaf

theorem nodeMessage_ne_emptyReliance (left right : Digest) :
    nodeMessage left right ≠ emptyRelianceMessage := by
  rw [nodeMessage_eq]
  exact frames_ne_emptyReliance .node _

theorem kindCommitMessage_inj {kind kind' : ReliesKind} {salt salt' : Digest}
    (h : kindCommitMessage kind salt = kindCommitMessage kind' salt') : kind = kind' := by
  have hfits : ∀ (k : ReliesKind) (s : Digest), (Message.kindCommit k s).Fits := by
    intro k s
    have hk : Fits 4 (asBytes k.asStr) := by cases k <;> decide
    simp [Message.Fits, Message.body, digest_fits, hk]
  rw [kindCommitMessage_eq, kindCommitMessage_eq] at h
  exact (Message.kindCommit.inj (framed_inj (hfits kind salt) (hfits kind' salt') h)).1

section

variable [External]

/-- Two different questions to one function have the same answer. -/
inductive Query.Collides : Query → Query → Prop where
  | hash {m m' : Bytes} (hne : m ≠ m') (h : External.hash m = External.hash m') :
      Collides (.hash m) (.hash m')
  | keyedHash {k k' : Digest} {m m' : Bytes} (hne : ¬ (k = k' ∧ m = m'))
      (h : External.keyedHash k m = External.keyedHash k' m') :
      Collides (.keyedHash k m) (.keyedHash k' m')

/-- A question of one computation collides with one of another. -/
def Collision (Q Q' : Query → Prop) : Prop := ∃ q q', Q q ∧ Q' q' ∧ q.Collides q'

theorem Collision.mono {P P' Q Q' : Query → Prop} (hP : ∀ q, P q → Q q) (hP' : ∀ q, P' q → Q' q)
    (h : Collision P P') : Collision Q Q' := by
  obtain ⟨q, q', hq, hq', hcollides⟩ := h
  exact ⟨q, q', hP q hq, hP' q' hq', hcollides⟩

section

variable {Q Q' : Query → Prop}

theorem eq_of_hash_eq (hno : ¬ Collision Q Q') {m m' : Bytes} (hm : Q (.hash m)) (hm' : Q' (.hash m'))
    (h : External.hash m = External.hash m') : m = m' := by
  by_contra hne
  exact hno ⟨_, _, hm, hm', .hash hne h⟩

theorem eq_of_keyedHash_eq (hno : ¬ Collision Q Q') {k k' : Digest} {m m' : Bytes}
    (hm : Q (.keyedHash k m)) (hm' : Q' (.keyedHash k' m'))
    (h : External.keyedHash k m = External.keyedHash k' m') : k = k' ∧ m = m' := by
  by_contra hne
  exact hno ⟨_, _, hm, hm', .keyedHash hne h⟩

end

/-! ## Trees -/

def Leaf.hash (l : Leaf) : Digest := External.hash l.bytes

/-- The hashes over a list of leaves: the leaves and the nodes. -/
inductive TreeQuery (ls : List Leaf) : Query → Prop where
  | leaf (l : Leaf) (h : l ∈ ls) : TreeQuery ls (.hash l.bytes)
  | node (q : Digest × Digest) (h : q ∈ nodesOf (ls.map Leaf.hash)) :
      TreeQuery ls (.hash (nodeMessage q.1 q.2))

section

variable {ls ls' : List Leaf}

/-- No leaf is a node of another tree. -/
theorem leaf_ne_node (hno : ¬ Collision (TreeQuery ls) (TreeQuery ls')) :
    ∀ x ∈ ls.map Leaf.hash, ∀ q ∈ nodesOf (ls'.map Leaf.hash), x ≠ nodeHash q.1 q.2 := by
  intro x hx q hq heq
  obtain ⟨l, hl, rfl⟩ := List.mem_map.mp hx
  exact l.bytes_ne_node q.1 q.2 (eq_of_hash_eq hno (.leaf l hl) (.node q hq) heq)

theorem Collision.symm {Q Q' : Query → Prop} (h : Collision Q Q') : Collision Q' Q := by
  obtain ⟨q, q', hq, hq', hcollides⟩ := h
  refine ⟨q', q, hq', hq, ?_⟩
  cases hcollides with
  | hash hne h => exact .hash (Ne.symm hne) h.symm
  | keyedHash hne h => exact .keyedHash (fun he => hne ⟨he.1.symm, he.2.symm⟩) h.symm

/-- Lists of leaves with one root are the same, whatever their lengths and the
kinds of their leaves, unless their hashes collide. -/
theorem leaves_inj (hfits : ∀ l ∈ ls, l.message.Fits) (hfits' : ∀ l ∈ ls', l.message.Fits)
    (hno : ¬ Collision (TreeQuery ls) (TreeQuery ls')) {hne : ls.map Leaf.hash ≠ []}
    {hne' : ls'.map Leaf.hash ≠ []}
    (h : mth (ls.map Leaf.hash) hne = mth (ls'.map Leaf.hash) hne') : ls = ls' := by
  have hhashes := mth_inj
    (fun q hq q' hq' heq => nodeMessage_inj (eq_of_hash_eq hno (.node q hq) (.node q' hq') heq))
    (leaf_ne_node hno) (leaf_ne_node fun hc => hno hc.symm) h
  have hlen : ls.length = ls'.length := by simpa using congrArg List.length hhashes
  refine List.ext_getElem hlen fun i hi hi' => ?_
  have hhash : (ls[i]).hash = (ls'[i]).hash := by
    simpa [hi, hi'] using congrArg (·[i]?) hhashes
  have hl := List.getElem_mem hi
  have hl' := List.getElem_mem hi'
  exact Leaf.bytes_inj (hfits _ hl) (hfits' _ hl')
    (eq_of_hash_eq hno (.leaf _ hl) (.leaf _ hl') hhash)

/-- No tree has the root that stands for no dependencies. -/
theorem root_ne_empty {hne : ls.map Leaf.hash ≠ []}
    (hno : ¬ Collision (TreeQuery ls) (· = .hash emptyRelianceMessage)) :
    mth (ls.map Leaf.hash) hne ≠ emptyRelianceRoot := by
  intro h
  rcases mth_cases (ls.map Leaf.hash) hne with hmem | ⟨q, hq, hroot⟩
  · obtain ⟨l, hl, hhash⟩ := List.mem_map.mp hmem
    exact l.bytes_ne_emptyReliance (eq_of_hash_eq hno (.leaf l hl) rfl (hhash.trans h))
  · exact nodeMessage_ne_emptyReliance q.1 q.2
      (eq_of_hash_eq hno (.node q hq) rfl (hroot.symm.trans h))

end

/-! ## Bodies -/

/-- The leaves of a body under a master salt. -/
def fieldLeavesOf (masterSalt : Digest) (body : ClaimBody) : List Leaf :=
  (sortedFields body).zipIdx.map fun e =>
    .field (UInt32.ofNat e.2) e.1.1 (deriveFieldSalt masterSalt (UInt32.ofNat e.2) e.1.1)
      ((External.toJcsBytes e.1.2).getD [])

/-- What committing to a body asks: the salts, and the tree. -/
inductive BodyQuery (masterSalt : Digest) (body : ClaimBody) : Query → Prop where
  | salt (i : Nat) (e : String × Value) (h : (sortedFields body)[i]? = some e) :
      BodyQuery masterSalt body (.keyedHash masterSalt (fieldSaltMessage (UInt32.ofNat i) e.1))
  | tree (q : Query) (h : TreeQuery (fieldLeavesOf masterSalt body) q) :
      BodyQuery masterSalt body q

/-- The canonical bytes of a body's values are shorter than `2 ^ 32` bytes. -/
def ValuesFit (body : ClaimBody) : Prop :=
  ∀ e ∈ body.fields, ∀ jcs, External.toJcsBytes e.2 = some jcs → Fits 4 jcs

/-- Canonical bytes tell the values of two bodies apart. -/
def JcsApart (body body' : ClaimBody) : Prop :=
  ∀ e ∈ body.fields, ∀ e' ∈ body'.fields, ∀ jcs, External.toJcsBytes e.2 = some jcs →
    External.toJcsBytes e'.2 = some jcs → e.2 = e'.2

section

variable {m m' : Digest} {body body' : ClaimBody}

theorem getElem?_fieldLeavesOf (m : Digest) (body : ClaimBody) (i : Nat) :
    (fieldLeavesOf m body)[i]? = (sortedFields body)[i]?.map fun e =>
      .field (UInt32.ofNat i) e.1 (deriveFieldSalt m (UInt32.ofNat i) e.1)
        ((External.toJcsBytes e.2).getD []) := by
  simp only [fieldLeavesOf, List.getElem?_map, List.getElem?_zipIdx, Nat.zero_add, Option.map_map,
    Function.comp_def]

/-- They are the leaves the code makes. -/
theorem hash_fieldLeavesOf {leaves : List BodyLeaf} (h : bodyLeaves m body = .ok leaves) :
    (fieldLeavesOf m body).map Leaf.hash = leaves.map (·.hash) := by
  apply List.ext_getElem?
  intro i
  rw [List.getElem?_map, List.getElem?_map, getElem?_fieldLeavesOf]
  cases hl : leaves[i]? with
  | none =>
    have hlen := List.getElem?_eq_none_iff.mp hl
    rw [length_bodyLeaves h] at hlen
    rw [List.getElem?_eq_none hlen]
    rfl
  | some l =>
    obtain ⟨index, jcs, hleaf⟩ := bodyLeaves_getElem? h hl
    have hindex : UInt32.ofNat i = index := by rw [← hleaf.position, UInt32.ofNat_toNat]
    rw [hleaf.field, Option.map_some, Option.map_some, Option.map_some, hleaf.hash, hleaf.salt, hindex,
      hleaf.jcs]
    rfl

theorem jcs_of_bodyLeaves {leaves : List BodyLeaf} (h : bodyLeaves m body = .ok leaves) {i : Nat}
    {e : String × Value} (he : (sortedFields body)[i]? = some e) :
    ∃ jcs, External.toJcsBytes e.2 = some jcs := by
  obtain ⟨hi, rfl⟩ := List.getElem?_eq_some_iff.mp he
  have hi' : i < leaves.length := by rw [length_bodyLeaves h]; exact hi
  obtain ⟨_, jcs, hleaf⟩ := bodyLeaves_getElem? h (List.getElem?_eq_getElem hi')
  rw [hleaf.field] at he
  exact ⟨jcs, by rw [← Option.some.inj he]; exact hleaf.jcs⟩

theorem fieldLeavesOf_fits (hfits : ValuesFit body) : ∀ l ∈ fieldLeavesOf m body, l.message.Fits := by
  intro l hl
  obtain ⟨i, hi, rfl⟩ := List.getElem_of_mem hl
  have hget := List.getElem?_eq_getElem hi
  rw [getElem?_fieldLeavesOf, Option.map_eq_some_iff] at hget
  obtain ⟨e, he, hl⟩ := hget
  have hmem := mem_sortedFields.mp (List.mem_of_getElem? he)
  rw [← hl]
  refine fieldLeaf_fits (keys_fit body e hmem) ?_
  cases hjcs : External.toJcsBytes e.2 with
  | none => exact fits_of_length rfl (by decide)
  | some jcs => exact hfits e hmem jcs hjcs

/-- The same leaves are those of one salt and one body, unless the salts
collide. -/
theorem fieldLeavesOf_inj {leaves leaves' : List BodyLeaf} (h : bodyLeaves m body = .ok leaves)
    (h' : bodyLeaves m' body' = .ok leaves') (hapart : JcsApart body body')
    (hno : ¬ Collision (BodyQuery m body) (BodyQuery m' body'))
    (heq : fieldLeavesOf m body = fieldLeavesOf m' body') : m = m' ∧ body = body' := by
  have hlen : (sortedFields body).length = (sortedFields body').length := by
    simpa [fieldLeavesOf] using congrArg List.length heq
  have hentry : ∀ (i : Nat) (hi : i < (sortedFields body).length)
      (hi' : i < (sortedFields body').length),
      (sortedFields body)[i] = (sortedFields body')[i] ∧ m = m' := by
    intro i hi hi'
    have he := List.getElem?_eq_getElem hi
    have he' := List.getElem?_eq_getElem hi'
    have hleaf := getElem?_fieldLeavesOf m body i
    rw [heq, getElem?_fieldLeavesOf, he, he'] at hleaf
    simp only [Option.map_some, Option.some.injEq, Leaf.field.injEq, true_and] at hleaf
    obtain ⟨hkey, hsalt, hjcs⟩ := hleaf
    obtain ⟨jcs, hj⟩ := jcs_of_bodyLeaves h he
    obtain ⟨jcs', hj'⟩ := jcs_of_bodyLeaves h' he'
    rw [hj, hj'] at hjcs
    obtain rfl : jcs' = jcs := hjcs
    have hvalue := hapart _ (mem_sortedFields.mp (List.getElem_mem hi)) _
      (mem_sortedFields.mp (List.getElem_mem hi')) jcs' hj hj'
    exact ⟨Prod.ext hkey.symm hvalue,
      (eq_of_keyedHash_eq hno (.salt i _ he) (.salt i _ he') hsalt.symm).1⟩
  have hpos := List.length_pos_of_ne_nil (sortedFields_ne_nil body)
  refine ⟨(hentry 0 hpos (hlen ▸ hpos)).2, sortedFields_inj ?_⟩
  exact List.ext_getElem hlen fun i hi hi' => (hentry i hi hi').1

/-- The root of a body is that of its leaves. -/
theorem bodyCommitment_root {root : Digest} {count : UInt32}
    (h : bodyCommitment m body = .ok (root, count)) :
    (∃ leaves, bodyLeaves m body = .ok leaves) ∧
      ∃ hne, root = mth ((fieldLeavesOf m body).map Leaf.hash) hne := by
  obtain ⟨leaves, hleaves, -, hne, rfl⟩ := bodyCommitment_eq_ok.mp h
  refine ⟨⟨leaves, hleaves⟩, ?_⟩
  refine ⟨hash_fieldLeavesOf hleaves ▸ hne, ?_⟩
  simp only [hash_fieldLeavesOf hleaves]

/-- A root is that of one master salt and one body, unless the commitments
collide. -/
theorem bodyCommitment_inj (hfits : ValuesFit body) (hfits' : ValuesFit body')
    (hapart : JcsApart body body') {root : Digest} {count count' : UInt32}
    (h : bodyCommitment m body = .ok (root, count))
    (h' : bodyCommitment m' body' = .ok (root, count')) :
    Collision (BodyQuery m body) (BodyQuery m' body') ∨ m = m' ∧ body = body' := by
  by_cases hno : Collision (BodyQuery m body) (BodyQuery m' body')
  · exact .inl hno
  · obtain ⟨⟨leaves, hleaves⟩, hne, hroot⟩ := bodyCommitment_root h
    obtain ⟨⟨leaves', hleaves'⟩, hne', hroot'⟩ := bodyCommitment_root h'
    have hleavesEq := leaves_inj (fieldLeavesOf_fits hfits) (fieldLeavesOf_fits hfits')
      (fun hc => hno (hc.mono .tree .tree)) (hroot.symm.trans hroot')
    exact .inr (fieldLeavesOf_inj hleaves hleaves' hapart hno hleavesEq)

end

/-! ## Dependencies -/

/-- The leaves of a list of dependencies under a master salt. -/
def relianceLeavesOf (masterSalt : Digest) (targets : List ReliesOn) : List Leaf :=
  targets.zipIdx.map fun e =>
    .reliance (UInt32.ofNat e.2) (deriveRelianceSalt masterSalt (UInt32.ofNat e.2))
      (asBytes e.1.fromClaimId.asStr)
      (kindCommit e.1.kind (deriveKindSalt masterSalt (UInt32.ofNat e.2)))

/-- What committing to dependencies asks: the salts, the kinds and the tree, or
the string that stands for none. -/
inductive RelianceQuery (masterSalt : Digest) (targets : List ReliesOn) : Query → Prop where
  | salt (i : Nat) (target : ReliesOn) (h : targets[i]? = some target) :
      RelianceQuery masterSalt targets (.keyedHash masterSalt (relianceSaltMessage (UInt32.ofNat i)))
  | kind (i : Nat) (target : ReliesOn) (h : targets[i]? = some target) :
      RelianceQuery masterSalt targets
        (.hash (kindCommitMessage target.kind (deriveKindSalt masterSalt (UInt32.ofNat i))))
  | tree (q : Query) (h : TreeQuery (relianceLeavesOf masterSalt targets) q) :
      RelianceQuery masterSalt targets q
  | empty (h : targets = []) : RelianceQuery masterSalt targets (.hash emptyRelianceMessage)

/-- The ids of dependencies are shorter than `2 ^ 32` bytes. -/
def IdsFit (targets : List ReliesOn) : Prop :=
  ∀ target ∈ targets, Fits 4 (asBytes target.fromClaimId.asStr)

section

variable {m m' : Digest} {body : ClaimBody} {targets targets' : List ReliesOn}

theorem getElem?_relianceLeavesOf (m : Digest) (targets : List ReliesOn) (i : Nat) :
    (relianceLeavesOf m targets)[i]? = targets[i]?.map fun target =>
      .reliance (UInt32.ofNat i) (deriveRelianceSalt m (UInt32.ofNat i))
        (asBytes target.fromClaimId.asStr)
        (kindCommit target.kind (deriveKindSalt m (UInt32.ofNat i))) := by
  simp only [relianceLeavesOf, List.getElem?_map, List.getElem?_zipIdx, Nat.zero_add, Option.map_map,
    Function.comp_def]

theorem relianceLeavesOf_fits (hfits : IdsFit targets) :
    ∀ l ∈ relianceLeavesOf m targets, l.message.Fits := by
  intro l hl
  obtain ⟨i, hi, rfl⟩ := List.getElem_of_mem hl
  have hget := List.getElem?_eq_getElem hi
  rw [getElem?_relianceLeavesOf, Option.map_eq_some_iff] at hget
  obtain ⟨target, htarget, hl⟩ := hget
  rw [← hl]
  exact relianceLeaf_fits (hfits target (List.mem_of_getElem? htarget))

/-- They are the leaves the code makes. -/
theorem hash_relianceLeavesOf {leaves : List ReliesLeaf} (h : relianceLeaves m targets = .ok leaves) :
    (relianceLeavesOf m targets).map Leaf.hash = leaves.map (·.hash) := by
  have hall := Framework.mapM_eq_ok.mp h
  have hlen := length_relianceLeaves h
  apply List.ext_getElem (by simp [relianceLeavesOf, hlen])
  intro i hi hi'
  have hi : i < leaves.length := by simpa using hi'
  have hleaf := hall.get (i := i) (by simpa [← hlen] using hi) hi
  simp only [List.get_eq_getElem, List.getElem_zipIdx, Nat.zero_add, reliesLeaf,
    Framework.bind_eq_ok, Framework.okOr_eq_ok, u32TryFrom_eq_some, Framework.pure_eq_ok] at hleaf
  obtain ⟨index, hindex, hl⟩ := hleaf
  rw [List.getElem_map, List.getElem_map, ← hl]
  simp only [relianceLeavesOf, List.getElem_map, List.getElem_zipIdx, Nat.zero_add, ← hindex,
    UInt32.ofNat_toNat]
  rfl

/-- The same leaves are those of one salt and one list, unless the salts or the
kinds collide. -/
theorem relianceLeavesOf_inj (hne : targets ≠ [])
    (hno : ¬ Collision (RelianceQuery m targets) (RelianceQuery m' targets'))
    (heq : relianceLeavesOf m targets = relianceLeavesOf m' targets') :
    m = m' ∧ targets = targets' := by
  have hlen : targets.length = targets'.length := by
    simpa [relianceLeavesOf] using congrArg List.length heq
  have htarget : ∀ (i : Nat) (hi : i < targets.length) (hi' : i < targets'.length),
      targets[i] = targets'[i] ∧ m = m' := by
    intro i hi hi'
    have he := List.getElem?_eq_getElem hi
    have he' := List.getElem?_eq_getElem hi'
    have hleaf := getElem?_relianceLeavesOf m targets i
    rw [heq, getElem?_relianceLeavesOf, he, he'] at hleaf
    simp only [Option.map_some, Option.some.injEq, Leaf.reliance.injEq, true_and] at hleaf
    obtain ⟨hsalt, hid, hkind⟩ := hleaf
    have hid := ClaimId.asStr_inj (asBytes_inj hid)
    have hkind := kindCommitMessage_inj
      (eq_of_hash_eq hno (.kind i _ he) (.kind i _ he') hkind.symm)
    refine ⟨?_, (eq_of_keyedHash_eq hno (.salt i _ he) (.salt i _ he') hsalt.symm).1⟩
    cases ht : targets[i] with | mk id kind =>
    cases ht' : targets'[i] with | mk id' kind' =>
    rw [ht, ht'] at hid hkind
    exact congrArg₂ ReliesOn.mk hid.symm hkind
  have hpos := List.length_pos_of_ne_nil hne
  refine ⟨(htarget 0 hpos (hlen ▸ hpos)).2, List.ext_getElem hlen fun i hi hi' => ?_⟩
  exact (htarget i hi hi').1

/-- The root of dependencies is that of their leaves, where there are any. -/
theorem relianceCommitment_root {root : Digest} {count : UInt32}
    (h : relianceCommitment m targets = .ok (root, count)) :
    count.toNat = targets.length ∧ (targets = [] → root = emptyRelianceRoot) ∧
      (targets ≠ [] → ∃ hne, root = mth ((relianceLeavesOf m targets).map Leaf.hash) hne) := by
  obtain ⟨leaves, hleaves, hcount, hempty, hroot⟩ := relianceCommitment_eq_ok.mp h
  have hlen := length_relianceLeaves hleaves
  refine ⟨hcount.trans hlen, ?_, ?_⟩
  · rintro rfl
    exact hempty (List.length_eq_zero_iff.mp hlen)
  · intro hne
    rw [← hash_relianceLeavesOf hleaves] at hroot
    have hne' : (relianceLeavesOf m targets).map Leaf.hash ≠ [] := by simpa [relianceLeavesOf] using hne
    exact ⟨hne', hroot hne'⟩

/-- A root is that of one master salt and one list of dependencies, unless the
commitments collide. -/
theorem relianceCommitment_inj (hfits : IdsFit targets) (hfits' : IdsFit targets')
    (hne : targets ≠ []) (hne' : targets' ≠ []) {root : Digest} {count count' : UInt32}
    (h : relianceCommitment m targets = .ok (root, count))
    (h' : relianceCommitment m' targets' = .ok (root, count')) :
    Collision (RelianceQuery m targets) (RelianceQuery m' targets') ∨ m = m' ∧ targets = targets' := by
  by_cases hno : Collision (RelianceQuery m targets) (RelianceQuery m' targets')
  · exact .inl hno
  · obtain ⟨_, hroot⟩ := (relianceCommitment_root h).2.2 hne
    obtain ⟨_, hroot'⟩ := (relianceCommitment_root h').2.2 hne'
    have hleaves := leaves_inj (relianceLeavesOf_fits hfits) (relianceLeavesOf_fits hfits')
      (fun hc => hno (hc.mono .tree .tree)) (hroot.symm.trans hroot')
    exact .inr (relianceLeavesOf_inj hne hno hleaves)

/-- The root of a list of dependencies is not the one that stands for none. -/
theorem relianceCommitment_ne_empty (hne : targets ≠ []) {root : Digest} {count : UInt32}
    (h : relianceCommitment m targets = .ok (root, count)) (hroot : root = emptyRelianceRoot) :
    Collision (RelianceQuery m targets) (· = .hash emptyRelianceMessage) := by
  obtain ⟨_, hroot'⟩ := (relianceCommitment_root h).2.2 hne
  by_contra hno
  exact root_ne_empty (fun hc => hno (hc.mono .tree fun _ => id)) (hroot'.symm.trans hroot)

/-! ## Bodies and dependencies -/

/-- The root of a body is not the one that stands for no dependencies. -/
theorem bodyCommitment_ne_empty {root : Digest} {count : UInt32}
    (h : bodyCommitment m body = .ok (root, count)) (hroot : root = emptyRelianceRoot) :
    Collision (BodyQuery m body) (· = .hash emptyRelianceMessage) := by
  obtain ⟨-, _, hroot'⟩ := bodyCommitment_root h
  by_contra hno
  exact root_ne_empty (fun hc => hno (hc.mono .tree fun _ => id)) (hroot'.symm.trans hroot)

/-- The root of a body is not that of dependencies. -/
theorem commitments_apart (hfits : ValuesFit body) (hfits' : IdsFit targets) {root : Digest}
    {count count' : UInt32} (h : bodyCommitment m body = .ok (root, count))
    (h' : relianceCommitment m' targets = .ok (root, count')) :
    Collision (BodyQuery m body) (RelianceQuery m' targets) := by
  by_cases hne : targets = []
  · refine (bodyCommitment_ne_empty h ((relianceCommitment_root h').2.1 hne)).mono (fun _ => id) ?_
    rintro _ rfl
    exact .empty hne
  · by_contra hno
    obtain ⟨-, hbody, hroot⟩ := bodyCommitment_root h
    obtain ⟨_, hroot'⟩ := (relianceCommitment_root h').2.2 hne
    have hleaves := leaves_inj (fieldLeavesOf_fits hfits) (relianceLeavesOf_fits hfits')
      (fun hc => hno (hc.mono .tree .tree)) (hroot.symm.trans hroot')
    have hhead := congrArg (·[0]?) hleaves
    simp only [getElem?_fieldLeavesOf, getElem?_relianceLeavesOf] at hhead
    have hpos := List.length_pos_of_ne_nil (sortedFields_ne_nil body)
    have hpos' := List.length_pos_of_ne_nil hne
    rw [List.getElem?_eq_getElem hpos, List.getElem?_eq_getElem hpos'] at hhead
    cases hhead

end

/-- The commitments are binding across sizes and kinds: lists of leaves of any
lengths and kinds, bodies under their master salts, and nonempty lists of
dependencies under theirs have roots of their own, a body and dependencies, or
none, have different roots; unless what is hashed for the two collides. -/
theorem commitments_binding :
    (∀ ls ls' : List Leaf, (∀ l ∈ ls, l.message.Fits) → (∀ l ∈ ls', l.message.Fits) → ∀ root,
      merkleRoot (ls.map Leaf.hash) = .ok root → merkleRoot (ls'.map Leaf.hash) = .ok root →
        Collision (TreeQuery ls) (TreeQuery ls') ∨ ls = ls') ∧
    (∀ m m' body body', ValuesFit body → ValuesFit body' → JcsApart body body' →
      ∀ root count count', bodyCommitment m body = .ok (root, count) →
        bodyCommitment m' body' = .ok (root, count') →
        Collision (BodyQuery m body) (BodyQuery m' body') ∨ m = m' ∧ body = body') ∧
    (∀ m m' targets targets', IdsFit targets → IdsFit targets' → targets ≠ [] → targets' ≠ [] →
      ∀ root count count', relianceCommitment m targets = .ok (root, count) →
        relianceCommitment m' targets' = .ok (root, count') →
        Collision (RelianceQuery m targets) (RelianceQuery m' targets') ∨
          m = m' ∧ targets = targets') ∧
    (∀ m m' body targets, ValuesFit body → IdsFit targets → ∀ root root' count count',
      bodyCommitment m body = .ok (root, count) →
        relianceCommitment m' targets = .ok (root', count') →
        Collision (BodyQuery m body) (RelianceQuery m' targets) ∨ root ≠ root') ∧
    (∀ m body root count, bodyCommitment m body = .ok (root, count) →
      Collision (BodyQuery m body) (· = .hash emptyRelianceMessage) ∨ root ≠ emptyRelianceRoot) ∧
    (∀ m targets, targets ≠ [] → ∀ root count, relianceCommitment m targets = .ok (root, count) →
      Collision (RelianceQuery m targets) (· = .hash emptyRelianceMessage) ∨
        root ≠ emptyRelianceRoot) := by
  refine ⟨fun ls ls' hfits hfits' root h h' => ?_, fun m m' body body' hfits hfits' hapart root _ _ =>
    bodyCommitment_inj hfits hfits' hapart, fun m m' targets targets' hfits hfits' hne hne' root _ _ =>
    relianceCommitment_inj hfits hfits' hne hne', fun m m' body targets hfits hfits' root root' _ _ h h' => ?_,
    fun m body root _ h => ?_, fun m targets hne root _ h => ?_⟩
  · by_cases hno : Collision (TreeQuery ls) (TreeQuery ls')
    · exact .inl hno
    · obtain ⟨_, rfl⟩ := merkleRoot_eq_ok.mp h
      obtain ⟨_, hroot⟩ := merkleRoot_eq_ok.mp h'
      exact .inr (leaves_inj hfits hfits' hno hroot.symm)
  · by_cases heq : root = root'
    · exact .inl (commitments_apart hfits hfits' h (heq ▸ h'))
    · exact .inr heq
  · by_cases heq : root = emptyRelianceRoot
    · exact .inl (bodyCommitment_ne_empty h heq)
    · exact .inr heq
  · by_cases heq : root = emptyRelianceRoot
    · exact .inl (relianceCommitment_ne_empty hne h heq)
    · exact .inr heq

end

theorem skill_jcsApart {Key : Type} {encode : Key → ByteVec 32}
    {decode : ByteVec 32 → Except String Key} {signs : Key → Bytes → Bool} {subject : Did} :
    @JcsApart (packages Key encode decode signs) (skillCall subject).body (skillCall subject).body := by
  have hne : ∀ bs, jcs (.string "rust") = some bs → ¬ jcs (.string "expert") = some bs := fun bs h h' => by
    rw [← Option.some.inj h] at h'
    exact absurd (Option.some.inj h') (by decide)
  intro e he e' he' bs h h'
  simp only [skillCall, ClaimBody.fields, ClaimBody.optValue, List.mem_cons, List.not_mem_nil,
    or_false] at he he'
  rcases he with rfl | rfl <;> rcases he' with rfl | rfl
  · rfl
  · exact absurd h' (hne bs h)
  · exact absurd h (hne bs h')
  · rfl

section

attribute [local instance] lawful

/-- The law at a skill issued in reliance on one claim twice. -/
theorem commitments_binding_skill : ∃ (m : Digest) (body : ClaimBody) (targets : List ReliesOn)
    (commit : ClaimCommit), bodyCommitment m body = .ok (commit.bodyRoot, commit.fieldCount) ∧
      relianceCommitment m targets = .ok (commit.relianceRoot, commit.relianceCount) ∧
      (Collision (TreeQuery (fieldLeavesOf m body)) (TreeQuery (fieldLeavesOf m body)) ∨
        fieldLeavesOf m body = fieldLeavesOf m body) ∧
      (Collision (BodyQuery m body) (BodyQuery m body) ∨ m = m ∧ body = body) ∧
      (Collision (RelianceQuery m targets) (RelianceQuery m targets) ∨ m = m ∧ targets = targets) ∧
      (Collision (BodyQuery m body) (RelianceQuery m targets) ∨
        commit.bodyRoot ≠ commit.relianceRoot) ∧
      (Collision (BodyQuery m body) (· = .hash emptyRelianceMessage) ∨
        commit.bodyRoot ≠ emptyRelianceRoot) ∧
      (Collision (RelianceQuery m targets) (· = .hash emptyRelianceMessage) ∨
        commit.relianceRoot ≠ emptyRelianceRoot) := by
  obtain ⟨commit, hcommit⟩ : ∃ commit, (skillCall ⟨"did:aion:subject"⟩).Commits commit :=
    packages_commits (show 2 < 2 ^ 32 by decide)
  have hfits := skillCall_fits (identity 2)
  have hne : (skillCall ⟨"did:aion:subject"⟩).reliance ≠ [] := List.cons_ne_nil _ _
  obtain ⟨-, hleaves, hroot⟩ := bodyCommitment_root hcommit.body
  obtain ⟨htree, hbody, hreliance, hapart, hempty, hempty'⟩ := commitments_binding
  exact ⟨_, _, _, commit, hcommit.body, hcommit.reliance,
    htree _ _ (fieldLeavesOf_fits hfits.fields) (fieldLeavesOf_fits hfits.fields) _
      (merkleRoot_ok hleaves) (merkleRoot_ok hleaves),
    hbody _ _ _ _ hfits.fields hfits.fields skill_jcsApart _ _ _ hcommit.body hcommit.body,
    hreliance _ _ _ _ hfits.reliance hfits.reliance hne hne _ _ _ hcommit.reliance hcommit.reliance,
    hapart _ _ _ _ hfits.fields hfits.reliance _ _ _ _ hcommit.body hcommit.reliance,
    hempty _ _ _ _ hcommit.body, hempty' _ _ hne _ _ hcommit.reliance⟩

end

end AionTrust.Proof
