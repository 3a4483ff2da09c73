import AionTrust.Proof.Commitments

/-!
# The root that stands for no reliance

A disclosure that proves a dependency proves it against a root that is the hash
of a leaf or of a node, never the one that stands for none, unless they collide
(`reliance_root_ne_empty`). The converse is not checked: with a count of zero
the verifier does not look at the root. Where the issuer signed what
`relianceCommitment` gives for some leaves (`SignsCommitment`) it is the fixed
one; and where there are dependencies, proving them all shows that the issuer did
(`signsCommitment_of_proven`). So `no_reliance_iff`.
-/

namespace AionTrust.Proof

open AionTrust.Impl AionTrust.Spec
open Framework (Bytes)

section

variable [External]

/-! ## What the issuer signs -/

/-- What `relianceCommitment` does with its leaves. -/
def commitLeaves (leaves : List ReliesLeaf) : Except ClaimReject (Digest × UInt32) := do
  let count ← Framework.okOr (u32TryFrom leaves.length) .malformed
  if leaves.isEmpty then return (emptyRelianceRoot, 0)
  else
    let root ← (merkleRoot (leaves.map (·.hash))).mapError fun _ => .malformed
    return (root, count)

theorem relianceCommitment_eq (masterSalt : Digest) (targets : List ReliesOn) :
    relianceCommitment masterSalt targets = relianceLeaves masterSalt targets >>= commitLeaves := rfl

/-- The issuer signed the root and the number of some leaves, as
`relianceCommitment` gives them. -/
def SignsCommitment (d : DisclosedClaim) : Prop :=
  ∃ root leaves, decodeArray 32 d.relianceRoot = .ok root ∧
    (∀ l ∈ leaves, l.hash =
      relianceLeafHash l.index l.salt (asBytes l.fromClaimId.asStr) l.kindCommit) ∧
    commitLeaves leaves = .ok (root, d.relianceCount)

theorem commitLeaves_nil : commitLeaves [] = .ok (emptyRelianceRoot, 0) := rfl

theorem commitLeaves_ok {leaves : List ReliesLeaf} (hne : leaves.map (·.hash) ≠ []) {count : UInt32}
    (hcount : count.toNat = leaves.length) :
    commitLeaves leaves = .ok (mth (leaves.map (·.hash)) hne, count) := by
  have hisEmpty : leaves.isEmpty = false := by simpa using hne
  simp only [commitLeaves, Framework.bind_eq_ok, Framework.okOr_eq_ok, u32TryFrom_eq_some, hisEmpty,
    Bool.false_eq_true, if_false, merkleRoot_ok hne]
  exact ⟨count, hcount, _, rfl, rfl⟩

/-- Zero leaves have the fixed root. -/
theorem commitLeaves_zero {leaves : List ReliesLeaf} {root : Digest}
    (h : commitLeaves leaves = .ok (root, 0)) : root = emptyRelianceRoot := by
  by_cases hne : leaves = []
  · rw [hne, commitLeaves_nil] at h
    exact (congrArg Prod.fst (Except.ok.inj h)).symm
  · -- the number of leaves is not zero
    simp only [commitLeaves, Framework.bind_eq_ok, Framework.okOr_eq_ok, u32TryFrom_eq_some] at h
    obtain ⟨count, hcount, hret⟩ := h
    rw [if_neg (by simpa using hne)] at hret
    simp only [Framework.bind_eq_ok, Framework.pure_eq_ok, Prod.mk.injEq] at hret
    obtain ⟨_, -, -, rfl⟩ := hret
    exact absurd (List.length_eq_zero_iff.mp hcount.symm) hne

/-! ## What is verified -/

/-- What verifying hashes, and the string behind the fixed root. -/
def SentinelHashes (d : DisclosedClaim) (m : Bytes) : Prop := VerifyHashes d m ∨ m = emptyRelianceMessage

/-- Two of these strings collide. -/
def SentinelCollision (d : DisclosedClaim) : Prop :=
  ∃ m m', SentinelHashes d m ∧ SentinelHashes d m' ∧ m ≠ m' ∧ External.hash m = External.hash m'

variable {d : DisclosedClaim} {vk : VerifyingKey} {v : VerifiedDisclosure}

theorem eq_of_sentinel_hash (hno : ¬ SentinelCollision d) {m m' : Bytes} (hm : SentinelHashes d m)
    (hm' : SentinelHashes d m') (h : External.hash m = External.hash m') : m = m' := by
  by_contra hne
  exact hno ⟨m, m', hm, hm', hne, h⟩

/-- A proven leaf is not under the fixed root. -/
theorem reliance_root_ne_empty (hno : ¬ SentinelCollision d) {r : RevealedReliance}
    (hr : r ∈ d.reliance) : proveReliance emptyRelianceRoot d.relianceCount.toNat r ≠ .ok () := by
  intro hprove
  obtain ⟨salt, commit, path, hsalt, hcommit, hpath, hclimb⟩ := proveReliance_eq_ok.mp hprove
  rcases rootFromPath_cases hclimb with hleaf | ⟨q, hq, hnode⟩
  · have hhashed : SentinelHashes d _ := .inl (.relianceLeaf r salt commit hr hsalt hcommit)
    exact (Leaf.reliance r.index salt _ commit).bytes_ne_emptyReliance
      (eq_of_sentinel_hash hno hhashed (.inr rfl) hleaf.symm)
  · have hhashed : SentinelHashes d _ :=
      .inl (.relianceNode r salt commit path hr hsalt hcommit hpath q hq)
    exact nodeMessage_ne_emptyReliance q.1 q.2
      (eq_of_sentinel_hash hno hhashed (.inr rfl) hnode.symm)

/-- An accepted disclosure with a count proves as many leaves, one at each
position. -/
theorem exists_proven (h : d.verify vk = .ok v) (hcount : d.relianceCount ≠ 0) :
    ∃ root, decodeArray 32 d.relianceRoot = .ok root ∧ ∀ i < d.relianceCount.toNat,
      ∃ r ∈ d.reliance, r.index.toNat = i ∧
        proveReliance root d.relianceCount.toNat r = .ok () := by
  obtain ⟨-, -, -, -, -, -, -, -, hreliance⟩ := verifyWithRequired_eq_ok.mp h
  obtain ⟨hlen, -, hproven⟩ := verifyReliance_eq_ok.mp hreliance
  obtain ⟨root, hroot, hnodup, hall⟩ := hproven fun h0 => hcount (UInt32.toNat_inj.mp h0)
  have hperm := Framework.positions_perm hlen hnodup fun r hr => (hall r hr).1
  refine ⟨root, hroot, fun i hi => ?_⟩
  obtain ⟨r, hr, hindex⟩ := List.mem_map.mp (hperm.mem_iff.mpr (List.mem_range.mpr hi))
  exact ⟨r, hr, hindex, (hall r hr).2⟩

/-- What an accepted disclosure declares a count over is a commitment to the
leaves it proves. -/
theorem signsCommitment_of_proven (hno : ¬ SentinelCollision d) (h : d.verify vk = .ok v)
    (hcount : d.relianceCount ≠ 0) : SignsCommitment d := by
  obtain ⟨root, hroot, hproven⟩ := exists_proven h hcount
  have hleaf : ∀ i : Fin d.relianceCount.toNat, ∃ l : ReliesLeaf,
      l.hash = relianceLeafHash l.index l.salt (asBytes l.fromClaimId.asStr) l.kindCommit ∧
      ∃ path, rootFromPath l.hash i d.relianceCount.toNat path = .ok root ∧
        ∀ q ∈ climbNodes l.hash i d.relianceCount.toNat path, VerifyHashes d (nodeMessage q.1 q.2) := by
    intro i
    obtain ⟨r, hr, hindex, hprove⟩ := hproven i i.isLt
    obtain ⟨salt, commit, path, hsalt, hcommit, hpath, hclimb⟩ := proveReliance_eq_ok.mp hprove
    rw [hindex] at hclimb
    refine ⟨⟨r.index, r.fromClaimId, salt, commit, _⟩, rfl, path, hclimb, fun q hq => ?_⟩
    exact .relianceNode r salt commit path hr hsalt hcommit hpath q (by rwa [hindex])
  choose l hhash hpaths using hleaf
  have hlen : ((List.ofFn l).map (·.hash)).length = d.relianceCount.toNat := by simp
  have hne : (List.ofFn l).map (·.hash) ≠ [] := by
    refine List.ne_nil_of_length_pos ?_
    rw [hlen]
    exact Nat.pos_of_ne_zero fun h0 => hcount (UInt32.toNat_inj.mp h0)
  have hmth : mth _ hne = root := by
    refine mth_of_paths hne (fun q q' hq hq' heq => nodeMessage_inj
      (eq_of_sentinel_hash hno (.inl hq) (.inl hq') heq)) fun i x hx => ?_
    rw [hlen]
    simp only [List.map_ofFn, List.getElem?_ofFn, Option.dite_none_right_eq_some,
      Option.some.injEq] at hx
    obtain ⟨hi, rfl⟩ := hx
    exact hpaths ⟨i, hi⟩
  refine ⟨root, List.ofFn l, hroot, fun l' hl' => ?_, ?_⟩
  · obtain ⟨i, rfl⟩ := List.mem_ofFn.mp hl'
    exact hhash i
  · rw [commitLeaves_ok hne (show d.relianceCount.toNat = _ by simp), hmth]

/-- In an accepted disclosure the fixed root stands for a count of zero; and a count
of zero and the fixed root stand for each other just when the issuer signed what
`relianceCommitment` gives for some leaves; unless strings hashed in verifying
collide. -/
theorem no_reliance_iff (d : DisclosedClaim) (vk : VerifyingKey) (v : VerifiedDisclosure)
    (h : d.verify vk = .ok v) : SentinelCollision d ∨
      ((decodeArray 32 d.relianceRoot = .ok emptyRelianceRoot → d.relianceCount = 0) ∧
        ((d.relianceCount = 0 ↔ decodeArray 32 d.relianceRoot = .ok emptyRelianceRoot) ↔
          SignsCommitment d)) := by
  by_cases hno : SentinelCollision d
  · exact .inl hno
  have hzero : decodeArray 32 d.relianceRoot = .ok emptyRelianceRoot → d.relianceCount = 0 := by
    intro hroot
    by_contra hcount
    obtain ⟨root, hroot', hproven⟩ := exists_proven h hcount
    obtain rfl := Except.ok.inj (hroot.symm.trans hroot')
    have hpos := Nat.pos_of_ne_zero fun h0 => hcount (UInt32.toNat_inj.mp h0)
    obtain ⟨r, hr, -, hprove⟩ := hproven 0 hpos
    exact reliance_root_ne_empty hno hr hprove
  refine .inr ⟨hzero, fun hiff => ?_, ?_⟩
  · by_cases hcount : d.relianceCount = 0
    · exact ⟨_, [], hiff.mp hcount, by simp, by rw [hcount, commitLeaves_nil]⟩
    · exact signsCommitment_of_proven hno h hcount
  · rintro ⟨root, leaves, hroot, -, hcommit⟩
    refine ⟨fun hcount => ?_, hzero⟩
    rw [hcount] at hcommit
    rw [hroot, commitLeaves_zero hcommit]

end

section

attribute [local instance] lawful

/-- What the issuer of `bare` signs: no dependencies, over some root. -/
def bareMessage (relianceRoot : Digest) : Bytes :=
  signingBytes ⟨"did:aion:subject"⟩ (identity 2).did "skill" "aion-trust/skill/v1"
    { fromTime := ⟨0⟩, untilTime := none }
    { bodyRoot := keyBytes 0, fieldCount := 2, relianceRoot, relianceCount := 0 }

/-- A disclosure of no fields and no dependencies, over some root. -/
def bare (relianceRoot : Digest) : DisclosedClaim where
  claimId := .fromSigningBytes (bareMessage relianceRoot)
  subjectId := ⟨"did:aion:subject"⟩
  issuerId := (identity 2).did
  validity := { fromTime := ⟨0⟩, untilTime := none }
  category := "skill"
  schemaId := "aion-trust/skill/v1"
  bodyRoot := toHex (keyBytes 0).val
  fieldCount := 2
  relianceRoot := toHex relianceRoot.val
  relianceCount := 0
  issuerSignature := toHex ((identity 2).sign (bareMessage relianceRoot)).val
  fields := []
  reliance := []

/-- It is accepted. -/
theorem bare_verifies (relianceRoot : Digest) :
    (bare relianceRoot).verify (identity 2).verifyingKey = .ok (verifiedOf (bare relianceRoot)) := by
  refine verifyWithRequired_eq_ok.mpr ⟨rfl, by simp, keyBytes 0, ["level", "skill"], ?_, rfl, rfl,
    by simp [bare], verifyReliance_eq_ok.mpr ⟨rfl, rfl, fun h0 => absurd rfl h0⟩⟩
  exact checkSignature_eq_ok.mpr ⟨rfl, decodeArray_toHex _, relianceRoot, decodeArray_toHex _, rfl,
    _, decodeArray_toHex _, lawful_lawful.sign_verify (identity 2).signingKey _⟩

/-- Verifying it hashes one string. -/
theorem bare_hashes {relianceRoot : Digest} {m : Bytes} (h : SentinelHashes (bare relianceRoot) m) :
    m = bareMessage relianceRoot ∨ m = emptyRelianceMessage := by
  rcases h with h | rfl
  · cases h with
    | signing bodyRoot root hbody hroot =>
      obtain rfl := Except.ok.inj ((decodeArray_toHex (keyBytes 0)).symm.trans hbody)
      obtain rfl := Except.ok.inj ((decodeArray_toHex relianceRoot).symm.trans hroot)
      exact .inl rfl
    | fieldLeaf f _ _ hf => cases hf
    | fieldNode f _ _ _ hf => cases hf
    | relianceLeaf r _ _ hr => cases hr
    | relianceNode r _ _ _ hr => cases hr
  · exact .inr rfl

theorem bare_no_collision {relianceRoot : Digest}
    (hne : External.hash (bareMessage relianceRoot) ≠ emptyRelianceRoot) :
    ¬ SentinelCollision (bare relianceRoot) := by
  rintro ⟨m, m', hm, hm', hmm', hhash⟩
  rcases bare_hashes hm with rfl | rfl <;> rcases bare_hashes hm' with rfl | rfl
  · exact hmm' rfl
  · exact hne hhash
  · exact hne hhash.symm
  · exact hmm' rfl

theorem zeros_ne_empty : keyBytes 0 ≠ emptyRelianceRoot := by decide

/-- The law where zero dependencies are signed over the fixed root, which is a
commitment, and over a root of zeros, which is none. -/
theorem no_reliance_iff_bare :
    (decodeArray 32 (bare emptyRelianceRoot).relianceRoot = .ok emptyRelianceRoot ∧
      SignsCommitment (bare emptyRelianceRoot)) ∧
    (decodeArray 32 (bare (keyBytes 0)).relianceRoot ≠ .ok emptyRelianceRoot ∧
      ¬ SignsCommitment (bare (keyBytes 0))) := by
  have hroot : ∀ root, decodeArray 32 (bare root).relianceRoot = .ok root := fun _ => decodeArray_toHex _
  have hother : decodeArray 32 (bare (keyBytes 0)).relianceRoot ≠ .ok emptyRelianceRoot := fun h =>
    zeros_ne_empty (Except.ok.inj ((hroot _).symm.trans h))
  obtain ⟨-, hsame⟩ := (no_reliance_iff (bare emptyRelianceRoot) _ _ (bare_verifies _)).resolve_left
    (bare_no_collision (by decide +kernel))
  obtain ⟨-, hdiffer⟩ := (no_reliance_iff (bare (keyBytes 0)) _ _ (bare_verifies _)).resolve_left
    (bare_no_collision (by decide +kernel))
  exact ⟨⟨hroot _, hsame.mp (iff_of_true rfl (hroot _))⟩, hother, fun hsigns => hother
    ((hdiffer.mpr hsigns).mp rfl)⟩

/-- With a root of zeros it is accepted, though its root is another and nothing
collides. -/
theorem bare_accepted : ∃ v, (bare (keyBytes 0)).verify (identity 2).verifyingKey = .ok v ∧
    ¬ SentinelCollision (bare (keyBytes 0)) ∧ ¬ ((bare (keyBytes 0)).relianceCount = 0 ↔
      decodeArray 32 (bare (keyBytes 0)).relianceRoot = .ok emptyRelianceRoot) := by
  have hroot : decodeArray 32 (bare (keyBytes 0)).relianceRoot = .ok (keyBytes 0) := decodeArray_toHex _
  refine ⟨_, bare_verifies _, bare_no_collision (by decide +kernel), fun hiff => ?_⟩
  exact zeros_ne_empty (Except.ok.inj (hroot.symm.trans (hiff.mp rfl)))

end

end AionTrust.Proof
