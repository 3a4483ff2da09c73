import AionTrust.Proof.Issuing
import AionTrust.Proof.Messages

/-!
# A disclosure is bound to the claim it names

What issuing a claim hashes (`IssueHashes`) and what verifying a disclosure
hashes (`VerifyHashes`). Where no string of the first meets a different one of
the second under the hash (`Collides`), a disclosure that carries the id of an
issued claim has its scalars (`scalars_bound`), each field it proves is the
claim's (`field_bound`), and its dependencies are the claim's
(`reliance_bound`).
-/

namespace AionTrust.Proof

open AionTrust.Impl AionTrust.Spec
open Framework (Bytes Fits okOr_eq_ok)

/-! ## Lengths -/

theorem fits_of_length {f : Bytes} {n : Nat} (h : f.length = n) (hn : n < 256 ^ 4) : Fits 4 f := by
  rwa [Fits, h]

theorem i64Bytes_fits (v : Int64) : Fits 4 (i64Bytes v) :=
  fits_of_length (Framework.length_beBytes 8 _) (by decide)

theorem u32Bytes_fits (v : UInt32) : Fits 4 (u32Bytes v) :=
  fits_of_length (Framework.length_beBytes 4 _) (by decide)

theorem digest_fits (v : Digest) : Fits 4 v.val := fits_of_length v.property (by decide)

theorem fromKey_fits [External] (vk : VerifyingKey) : Fits 4 (Did.fromKey vk).asBytes := by
  have hprefix : (asBytes "did:aion:").length = 9 := by decide
  have hlen : (Did.fromKey vk).asBytes.length = 57 := by
    rw [Did.fromKey, Did.asBytes, asBytes_append, List.length_append, hprefix, length_asBytes_toHex]
    simp
  exact fits_of_length hlen (by decide)

theorem claim_fits {subject issuer : Did} {category schemaId : String} (validity : Validity)
    (commit : ClaimCommit) (hs : Fits 4 subject.asBytes) (hi : Fits 4 issuer.asBytes)
    (hc : Fits 4 (asBytes category)) (hd : Fits 4 (asBytes schemaId)) :
    (Message.claim subject issuer category schemaId validity commit).Fits := by
  have hopen : Fits 4 (asBytes "open") := by decide
  have huntil : Fits 4 (asBytes "until") := by decide
  cases h : validity.untilTime <;>
    simp [Message.Fits, Message.body, Message.arm, h, hs, hi, hc, hd, hopen, huntil, i64Bytes_fits,
      u32Bytes_fits, digest_fits]

theorem fieldLeaf_fits {index : UInt32} {key : String} {salt : Digest} {jcs : Bytes}
    (hk : Fits 4 (asBytes key)) (hj : Fits 4 jcs) : (Message.fieldLeaf index key salt jcs).Fits := by
  simp [Message.Fits, Message.body, hk, hj, u32Bytes_fits, digest_fits]

theorem relianceLeaf_fits {index : UInt32} {salt commit : Digest} {id : Bytes} (hid : Fits 4 id) :
    (Message.relianceLeaf index salt id commit).Fits := by
  simp [Message.Fits, Message.body, hid, u32Bytes_fits, digest_fits]

theorem nodeMessage_inj {q q' : Digest × Digest}
    (h : nodeMessage q.1 q.2 = nodeMessage q'.1 q'.2) : q = q' := by
  have hfits : ∀ left right, (Message.node left right).Fits := fun left right => by
    simp [Message.Fits, Message.body, digest_fits]
  rw [nodeMessage_eq, nodeMessage_eq] at h
  simpa [Prod.ext_iff] using framed_inj (hfits q.1 q.2) (hfits q'.1 q'.2) h

theorem category_fits (body : ClaimBody) : Fits 4 (asBytes body.category) := by
  cases body <;> exact of_decide_eq_true rfl

theorem schemaId_fits (body : ClaimBody) : Fits 4 (asBytes body.schemaId) := by
  cases body <;> exact of_decide_eq_true rfl

theorem keys_fit (body : ClaimBody) : ∀ e ∈ body.fields, Fits 4 (asBytes e.1) := by
  cases body <;> simp only [ClaimBody.fields, List.forall_mem_cons, List.not_mem_nil,
    false_imp_iff, implies_true, and_true] <;> decide

variable [External]

/-- A disclosure of an issued claim fits where its call does. -/
theorem disclose_fits {issuer : Identity} {call : IssueCall} (hfits : call.Fits issuer) {c : Claim}
    (hrun : call.run issuer = .ok c) {s : FieldSelector} {d : DisclosedClaim}
    (hd : c.disclose s = .ok d) : DisclosedFits d := by
  obtain ⟨commit, hcommit, rfl⟩ := run_eq_ok.mp hrun
  obtain ⟨salt, leaves, relies, indices, hof, -, hfs, hrs, heq⟩ := disclose_eq_ok.mp hd
  have hfield : ∀ f ∈ d.fields, (f.key, f.value) ∈ call.body.fields := disclose_field_mem hd
  have hreliance : ∀ r ∈ d.reliance, ∃ target ∈ call.reliance, target.fromClaimId = r.fromClaimId := by
    intro r hr
    have hids := map_fromClaimId_eq hof.reliance hrs
    exact List.mem_map.mp (hids ▸ List.mem_map_of_mem hr)
  refine ⟨?_, ?_, ?_, ?_, fun f hf => keys_fit _ _ (hfield f hf),
    fun f hf => hfits.fields _ (hfield f hf), fun r hr => ?_⟩
  · rw [heq]; exact hfits.subject
  · rw [heq]; exact hfits.issuer
  · rw [heq]; exact category_fits call.body
  · rw [heq]; exact schemaId_fits call.body
  · obtain ⟨target, htarget, hid⟩ := hreliance r hr
    exact hid ▸ hfits.reliance target htarget

/-! ## What is hashed -/

/-- What a call hashes for its message: the leaves of its body and its
reliance, the nodes over them, and the message. -/
inductive IssueHashes (issuer : Identity) (call : IssueCall) : Bytes → Prop where
  | signing (commit : ClaimCommit) (h : call.Commits commit) :
      IssueHashes issuer call (call.message issuer commit)
  | fieldLeaf (leaves : List BodyLeaf) (h : bodyLeaves call.masterSalt call.body = .ok leaves)
      (i : Nat) (l : BodyLeaf) (index : UInt32) (jcs : Bytes) (hl : leaves[i]? = some l)
      (hleaf : LeafOf call.masterSalt (sortedFields call.body) i l index jcs) :
      IssueHashes issuer call (fieldLeafMessage index l.key l.salt jcs)
  | fieldNode (leaves : List BodyLeaf) (h : bodyLeaves call.masterSalt call.body = .ok leaves)
      (q : Digest × Digest) (hq : q ∈ nodesOf (leaves.map (·.hash))) :
      IssueHashes issuer call (nodeMessage q.1 q.2)
  | relianceLeaf (leaves : List ReliesLeaf)
      (h : relianceLeaves call.masterSalt call.reliance = .ok leaves) (l : ReliesLeaf)
      (hl : l ∈ leaves) : IssueHashes issuer call
        (relianceLeafMessage l.index l.salt (asBytes l.fromClaimId.asStr) l.kindCommit)
  | relianceNode (leaves : List ReliesLeaf)
      (h : relianceLeaves call.masterSalt call.reliance = .ok leaves) (q : Digest × Digest)
      (hq : q ∈ nodesOf (leaves.map (·.hash))) : IssueHashes issuer call (nodeMessage q.1 q.2)

/-- What verifying a disclosure hashes: the signed message, the disclosed
leaves, and the nodes up from each. -/
inductive VerifyHashes (d : DisclosedClaim) : Bytes → Prop where
  | signing (bodyRoot relianceRoot : Digest) (hbody : decodeArray 32 d.bodyRoot = .ok bodyRoot)
      (hreliance : decodeArray 32 d.relianceRoot = .ok relianceRoot) :
      VerifyHashes d (d.signedMessage bodyRoot relianceRoot)
  | fieldLeaf (f : RevealedField) (salt : Digest) (jcs : Bytes) (hf : f ∈ d.fields)
      (hsalt : decodeArray 32 f.salt = .ok salt) (hjcs : External.toJcsBytes f.value = some jcs) :
      VerifyHashes d (fieldLeafMessage f.index f.key salt jcs)
  | fieldNode (f : RevealedField) (salt : Digest) (jcs : Bytes) (path : List Digest)
      (hf : f ∈ d.fields) (hsalt : decodeArray 32 f.salt = .ok salt)
      (hjcs : External.toJcsBytes f.value = some jcs) (hpath : decodePath f.auditPath = .ok path)
      (q : Digest × Digest) (hq : q ∈ climbNodes (fieldLeafHash f.index f.key salt jcs)
        f.index.toNat d.fieldCount.toNat path) : VerifyHashes d (nodeMessage q.1 q.2)
  | relianceLeaf (r : RevealedReliance) (salt commit : Digest) (hr : r ∈ d.reliance)
      (hsalt : decodeArray 32 r.salt = .ok salt)
      (hcommit : decodeArray 32 r.kindCommit = .ok commit) : VerifyHashes d
        (relianceLeafMessage r.index salt (asBytes r.fromClaimId.asStr) commit)
  | relianceNode (r : RevealedReliance) (salt commit : Digest) (path : List Digest)
      (hr : r ∈ d.reliance) (hsalt : decodeArray 32 r.salt = .ok salt)
      (hcommit : decodeArray 32 r.kindCommit = .ok commit)
      (hpath : decodePath r.auditPath = .ok path) (q : Digest × Digest)
      (hq : q ∈ climbNodes (relianceLeafHash r.index salt (asBytes r.fromClaimId.asStr) commit)
        r.index.toNat d.relianceCount.toNat path) : VerifyHashes d (nodeMessage q.1 q.2)

/-- Issuing and verifying hashed two different strings to the same digest. -/
def Collides (issuer : Identity) (call : IssueCall) (d : DisclosedClaim) : Prop :=
  ∃ m m', IssueHashes issuer call m ∧ VerifyHashes d m' ∧ m ≠ m' ∧ External.hash m = External.hash m'

section

variable {issuer : Identity} {call : IssueCall} {commit : ClaimCommit} {d : DisclosedClaim}

theorem eq_of_hash (hno : ¬ Collides issuer call d) {m m' : Bytes} (hm : IssueHashes issuer call m)
    (hm' : VerifyHashes d m') (h : External.hash m = External.hash m') : m = m' := by
  by_contra hne
  exact hno ⟨m, m', hm, hm', hne, h⟩

/-- A node hashed in issuing and one hashed in verifying that hash alike are the
same. -/
theorem eq_of_nodeHash (hno : ¬ Collides issuer call d) {nodes nodes' : List (Digest × Digest)}
    (hissue : ∀ q ∈ nodes, IssueHashes issuer call (nodeMessage q.1 q.2))
    (hverify : ∀ q ∈ nodes', VerifyHashes d (nodeMessage q.1 q.2)) :
    ∀ q ∈ nodes, ∀ q' ∈ nodes', nodeHash q.1 q.2 = nodeHash q'.1 q'.2 → q = q' :=
  fun q hq q' hq' h => nodeMessage_inj (eq_of_hash hno (hissue q hq) (hverify q' hq') h)

/-! ## The scalars -/

/-- A disclosure has the scalars a call signed. -/
structure SameScalars (issuer : Identity) (call : IssueCall) (commit : ClaimCommit)
    (d : DisclosedClaim) : Prop where
  subject : d.subjectId = call.subject
  issuer : d.issuerId = issuer.did
  category : d.category = call.body.category
  schemaId : d.schemaId = call.body.schemaId
  validity : d.validity = call.validity
  bodyRoot : decodeArray 32 d.bodyRoot = .ok commit.bodyRoot
  fieldCount : d.fieldCount = commit.fieldCount
  relianceRoot : decodeArray 32 d.relianceRoot = .ok commit.relianceRoot
  relianceCount : d.relianceCount = commit.relianceCount

/-- What a disclosure was signed as is what a call signed only for its scalars. -/
theorem scalars_of_message (hfits : call.Fits issuer) (hd : DisclosedFits d)
    {bodyRoot relianceRoot : Digest} (hbody : decodeArray 32 d.bodyRoot = .ok bodyRoot)
    (hreliance : decodeArray 32 d.relianceRoot = .ok relianceRoot)
    (h : call.message issuer commit = d.signedMessage bodyRoot relianceRoot) :
    SameScalars issuer call commit d := by
  rw [IssueCall.message, DisclosedClaim.signedMessage, signingBytes_eq, signingBytes_eq] at h
  have hsame := framed_inj
    (claim_fits _ _ hfits.subject hfits.issuer (category_fits call.body) (schemaId_fits call.body))
    (claim_fits _ _ hd.subject hd.issuer hd.category hd.schemaId) h
  simp only [Message.claim.injEq] at hsame
  obtain ⟨hs, hi, hc, hsch, hv, rfl⟩ := hsame
  exact ⟨hs.symm, hi.symm, hc.symm, hsch.symm, hv.symm, hbody, rfl, hreliance, rfl⟩

theorem fromSigningBytes_inj {m m' : Bytes}
    (h : ClaimId.fromSigningBytes m = ClaimId.fromSigningBytes m') :
    External.hash m = External.hash m' := by
  have hhex := congrArg (fun c => fromHex c.value) h
  simp only [ClaimId.fromSigningBytes, fromHex_toHex, Except.ok.injEq] at hhex
  exact Subtype.ext hhex

/-- A disclosure that carries the id of an issued claim has its scalars. -/
theorem scalars_bound (hno : ¬ Collides issuer call d) (hcommit : call.Commits commit)
    (hfits : call.Fits issuer) (hd : DisclosedFits d) {vk : VerifyingKey} {bodyRoot : Digest}
    (hsig : d.checkSignature vk = .ok bodyRoot)
    (hid : (issuedClaim issuer call commit).claimId = d.claimId) :
    SameScalars issuer call commit d := by
  obtain ⟨-, hbody, relianceRoot, hreliance, hclaim, -⟩ := checkSignature_eq_ok.mp hsig
  refine scalars_of_message hfits hd hbody hreliance ?_
  exact eq_of_hash hno (.signing commit hcommit) (.signing _ _ hbody hreliance)
    (fromSigningBytes_inj (hid.trans hclaim.symm))

/-! ## The fields -/

/-- A field that proves itself is the claim's field under its key. -/
theorem field_bound (hno : ¬ Collides issuer call d) (hcommit : call.Commits commit)
    (hfits : call.Fits issuer) (hd : DisclosedFits d) (hsame : SameScalars issuer call commit d)
    {expected : List String} {f : RevealedField} (hf : f ∈ d.fields)
    (hprove : d.proveField expected commit.bodyRoot f = .ok ()) :
    ∃ issued, (f.key, issued) ∈ call.body.fields ∧
      ∃ jcs, External.toJcsBytes issued = some jcs ∧ External.toJcsBytes f.value = some jcs := by
  obtain ⟨leaves, hleaves, hcount, hne, hroot⟩ := bodyCommitment_eq_ok.mp hcommit.body
  obtain ⟨-, salt, jcs, path, hsalt, hjcs, hpath, hclimb⟩ := proveField_eq_ok.mp hprove
  have hlen : d.fieldCount.toNat = (leaves.map (·.hash)).length := by
    rw [hsame.fieldCount, hcount, List.length_map]
  have hnodes := eq_of_nodeHash hno (.fieldNode leaves hleaves)
    (.fieldNode f salt jcs path hf hsalt hjcs hpath)
  rw [hlen] at hclimb hnodes
  rw [hroot] at hclimb
  obtain ⟨hget, -⟩ := rootFromPath_binding hnodes hclimb
  rw [List.getElem?_map, Option.map_eq_some_iff] at hget
  obtain ⟨l, hl, hhash⟩ := hget
  obtain ⟨index, jcs', hleaf⟩ := bodyLeaves_getElem? hleaves hl
  rw [hleaf.hash] at hhash
  have hmessage := eq_of_hash hno (.fieldLeaf leaves hleaves _ l index jcs' hl hleaf)
    (.fieldLeaf f salt jcs hf hsalt hjcs) hhash
  have hmem : (l.key, l.value) ∈ call.body.fields :=
    mem_sortedFields.mp (List.mem_of_getElem? hleaf.field)
  rw [fieldLeafMessage_eq, fieldLeafMessage_eq] at hmessage
  have hsameLeaf := framed_inj
    (fieldLeaf_fits (keys_fit _ _ hmem) (hfits.fields _ hmem jcs' hleaf.jcs))
    (fieldLeaf_fits (hd.keys f hf) (hd.values f hf jcs hjcs)) hmessage
  simp only [Message.fieldLeaf.injEq] at hsameLeaf
  obtain ⟨-, hkey, -, rfl⟩ := hsameLeaf
  exact ⟨l.value, hkey ▸ hmem, jcs', hleaf.jcs, hjcs⟩

/-! ## The dependencies -/

/-- A reliance leaf that proves itself is that of the target at its index. -/
theorem relies_bound (hno : ¬ Collides issuer call d) (hcommit : call.Commits commit)
    (hfits : call.Fits issuer) (hd : DisclosedFits d) (hsame : SameScalars issuer call commit d)
    {r : RevealedReliance} (hr : r ∈ d.reliance)
    (hprove : proveReliance commit.relianceRoot d.relianceCount.toNat r = .ok ())
    (hcount : d.relianceCount.toNat ≠ 0) :
    (call.reliance.map (·.fromClaimId))[r.index.toNat]? = some r.fromClaimId := by
  obtain ⟨leaves, hleaves, hlen, -, hroot⟩ := relianceCommitment_eq_ok.mp hcommit.reliance
  obtain ⟨salt, kindCommit, path, hsalt, hkind, hpath, hclimb⟩ := proveReliance_eq_ok.mp hprove
  have hlen : d.relianceCount.toNat = (leaves.map (·.hash)).length := by
    rw [hsame.relianceCount, hlen, List.length_map]
  have hne : leaves.map (·.hash) ≠ [] := List.ne_nil_of_length_pos (by omega)
  have hnodes := eq_of_nodeHash hno (.relianceNode leaves hleaves)
    (.relianceNode r salt kindCommit path hr hsalt hkind hpath)
  rw [hlen] at hclimb hnodes
  rw [hroot hne] at hclimb
  obtain ⟨hget, -⟩ := rootFromPath_binding hnodes hclimb
  rw [List.getElem?_map, Option.map_eq_some_iff] at hget
  obtain ⟨l, hl, hhash⟩ := hget
  have hleaf := relianceLeaves_getElem? hleaves hl
  rw [hleaf.hash] at hhash
  have hmessage := eq_of_hash hno (.relianceLeaf leaves hleaves l (List.mem_of_getElem? hl))
    (.relianceLeaf r salt kindCommit hr hsalt hkind) hhash
  have htarget : (call.reliance.map (·.fromClaimId))[r.index.toNat]? = some l.fromClaimId := by
    rw [List.getElem?_map]; exact hleaf.target
  obtain ⟨target, hmem, hid⟩ := List.mem_map.mp (List.mem_of_getElem? htarget)
  rw [relianceLeafMessage_eq, relianceLeafMessage_eq] at hmessage
  have hsameLeaf := framed_inj (relianceLeaf_fits (hid ▸ hfits.reliance target hmem))
    (relianceLeaf_fits (hd.reliance r hr)) hmessage
  simp only [Message.relianceLeaf.injEq] at hsameLeaf
  rw [htarget, ClaimId.asStr_inj (asBytes_inj hsameLeaf.2.2.1)]

/-- The dependencies a disclosure proves are the claim's, each as often as the
claim declares it. -/
theorem reliance_bound (hno : ¬ Collides issuer call d) (hcommit : call.Commits commit)
    (hfits : call.Fits issuer) (hd : DisclosedFits d) (hsame : SameScalars issuer call commit d)
    {ids : List ClaimId} (h : d.verifyReliance = .ok ids) :
    ids.Perm (call.reliance.map (·.fromClaimId)) := by
  obtain ⟨leaves, hleaves, hcount, -⟩ := relianceCommitment_eq_ok.mp hcommit.reliance
  obtain ⟨hlen, rfl, hproven⟩ := verifyReliance_eq_ok.mp h
  have htargets : d.reliance.length = (call.reliance.map (·.fromClaimId)).length := by
    rw [hlen, hsame.relianceCount, hcount, length_relianceLeaves hleaves, List.length_map]
  by_cases h0 : d.relianceCount.toNat = 0
  · have hnil : d.reliance = [] := List.length_eq_zero_iff.mp (hlen.trans h0)
    have htargetsNil : call.reliance.map (·.fromClaimId) = [] :=
      List.length_eq_zero_iff.mp (by rw [← htargets, hlen, h0])
    rw [hnil, htargetsNil]
    exact .nil
  · obtain ⟨root, hroot, hnodup, hall⟩ := hproven h0
    obtain rfl := Except.ok.inj (hsame.relianceRoot.symm.trans hroot)
    exact Framework.openings_perm htargets hnodup fun r hr =>
      relies_bound hno hcommit hfits hd hsame hr (hall r hr).2 h0

end

end AionTrust.Proof
