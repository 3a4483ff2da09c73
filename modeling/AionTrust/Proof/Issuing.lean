import AionTrust.Proof.Disclose
import AionTrust.Spec.Acceptance
import AionTrust.Spec.Issuing

/-!
# Issued claims

Issuing gives the claim of a call's commitments (`run_eq_ok`), and succeeds
where the values of the body have canonical bytes (`commits_isOk`). The leaves,
scalars and signature of an issued claim agree (`issue_consistent`), so its
disclosures verify under the issuer's key (`disclose_verifies`); its full
disclosure exists (`disclose_all_isOk`), and so does that of any of its fields
(`disclose_only_isOk`).
-/

namespace AionTrust.Proof

open AionTrust.Impl AionTrust.Spec
open Framework (Bytes okOr_eq_ok mapError_eq_ok bind_eq_ok pure_eq_ok)

variable [External] {issuer : Identity} {call : IssueCall} {c : Claim}

/-- The claim a call makes with its commitments. -/
def issuedClaim (issuer : Identity) (call : IssueCall) (commit : ClaimCommit) : Claim where
  claimId := ClaimId.fromSigningBytes (call.message issuer commit)
  subjectId := call.subject
  issuerId := issuer.did
  validity := call.validity
  body := call.body
  masterSalt := toHex call.masterSalt.val
  bodyRoot := toHex commit.bodyRoot.val
  fieldCount := commit.fieldCount
  reliance := call.reliance
  relianceRoot := toHex commit.relianceRoot.val
  relianceCount := commit.relianceCount
  issuerSignature := toHex (issuer.sign (call.message issuer commit)).val

theorem run_eq_ok : call.run issuer = .ok c ↔
    ∃ commit, call.Commits commit ∧ c = issuedClaim issuer call commit := by
  simp only [IssueCall.run, Claim.issueWithReliance, bind_eq_ok, pure_eq_ok, Prod.exists]
  constructor
  · rintro ⟨root, count, hbody, rroot, rcount, hrel, rfl⟩
    exact ⟨⟨root, count, rroot, rcount⟩, ⟨hbody, hrel⟩, rfl⟩
  · rintro ⟨⟨root, count, rroot, rcount⟩, ⟨hbody, hrel⟩, rfl⟩
    exact ⟨root, count, hbody, rroot, rcount, hrel, rfl⟩

theorem run_of_commits (issuer : Identity) {commit : ClaimCommit} (h : call.Commits commit) :
    call.run issuer = .ok (issuedClaim issuer call commit) :=
  run_eq_ok.mpr ⟨commit, h, rfl⟩

/-- An issued claim has the parts it was issued with. -/
theorem run_parts (h : call.run issuer = .ok c) :
    c.subjectId = call.subject ∧ c.body = call.body ∧ c.validity = call.validity := by
  obtain ⟨commit, -, rfl⟩ := run_eq_ok.mp h
  exact ⟨rfl, rfl, rfl⟩

theorem run_reliance (h : call.run issuer = .ok c) : c.reliance = call.reliance := by
  obtain ⟨commit, -, rfl⟩ := run_eq_ok.mp h
  rfl

/-! ## Their disclosures -/

/-- An issued claim's leaves, scalars and signature agree, where the issuer's
own signature verifies. -/
theorem issue_consistent {commit : ClaimCommit} (h : call.Commits commit)
    (hsign : External.verify issuer.verifyingKey (call.message issuer commit)
      (issuer.sign (call.message issuer commit)) = true) :
    ∃ leaves relies, LeavesOf (issuedClaim issuer call commit) call.masterSalt leaves relies ∧
      Consistent (issuedClaim issuer call commit) issuer.verifyingKey leaves relies := by
  obtain ⟨leaves, hleaves, hcount, hne, hroot⟩ := bodyCommitment_eq_ok.mp h.body
  obtain ⟨relies, hrelies, hrcount, -, hrroot⟩ := relianceCommitment_eq_ok.mp h.reliance
  refine ⟨leaves, relies, ⟨decodeArray_toHex _, hleaves, hrelies⟩,
    ⟨commit.bodyRoot, ?_, hne, hroot⟩, hcount, hrcount.symm, fun hne => ?_⟩
  · rw [checkSignature_eq_ok]
    exact ⟨rfl, decodeArray_toHex _, commit.relianceRoot, decodeArray_toHex _, rfl,
      issuer.sign _, decodeArray_toHex _, hsign⟩
  · rw [← hrroot hne]
    exact decodeArray_toHex _

/-- The disclosures of an issued claim verify where the issuer's own signature
does. -/
theorem disclose_verifies_of_sign {commit : ClaimCommit} (h : call.Commits commit)
    (hsign : External.verify issuer.verifyingKey (call.message issuer commit)
      (issuer.sign (call.message issuer commit)) = true) {s : FieldSelector} {d : DisclosedClaim}
    (hd : (issuedClaim issuer call commit).disclose s = .ok d) :
    d.verify issuer.verifyingKey = .ok (verifiedOf d) := by
  obtain ⟨leaves, relies, hof, hcons⟩ := issue_consistent h hsign
  obtain ⟨v, hv⟩ := (verify_disclose_iff hd).mpr ⟨call.masterSalt, leaves, relies, hof, hcons⟩
  rw [hv, verify_eq_verifiedOf hv]

/-- A disclosure of an issued claim verifies under the issuer's key. -/
theorem disclose_verifies (hlaw : Lawful) {subject : Did} (h : IssuedBy issuer subject c)
    {s : FieldSelector} {d : DisclosedClaim} (hd : c.disclose s = .ok d) :
    d.verify issuer.verifyingKey = .ok (verifiedOf d) := by
  obtain ⟨call, -, hrun⟩ := h
  obtain ⟨commit, hcommit, rfl⟩ := run_eq_ok.mp hrun
  exact disclose_verifies_of_sign hcommit (hlaw.sign_verify _ _) hd

/-- A disclosure has the scalars of its claim. -/
theorem disclose_eq {s : FieldSelector} {d : DisclosedClaim} (hd : c.disclose s = .ok d) :
    d = disclosureOf c d.fields d.reliance := by
  obtain ⟨-, -, -, -, -, -, -, -, heq⟩ := disclose_eq_ok.mp hd
  exact heq

theorem disclose_subject {subject : Did} (h : IssuedBy issuer subject c) {s : FieldSelector}
    {d : DisclosedClaim} (hd : c.disclose s = .ok d) : d.subjectId = subject := by
  obtain ⟨call, rfl, hrun⟩ := h
  rw [disclose_eq hd]
  exact (run_parts hrun).1

theorem disclose_validity (h : call.run issuer = .ok c) {s : FieldSelector} {d : DisclosedClaim}
    (hd : c.disclose s = .ok d) : d.validity = call.validity := by
  rw [disclose_eq hd]
  exact (run_parts h).2.2

/-- An issued claim that is good at a time is valid there. -/
theorem disclose_valid (hlaw : Lawful) {subject : Did} (h : IssuedBy issuer subject c)
    {s : FieldSelector} {d : DisclosedClaim} (hd : c.disclose s = .ok d) {anchor : TrustAnchor} {now : Timestamp}
    (hgood : GoodAt anchor now issuer.verifyingKey d) :
    ClaimValid anchor subject now d (verifiedOf d) where
  subject := disclose_subject h hd
  verified := ⟨_, hgood.key, disclose_verifies hlaw h hd⟩
  active := hgood.active
  accredited := hgood.accredited
  notRevoked := hgood.notRevoked
  relianceLive := by
    intro dep hdep
    obtain ⟨r, hr, rfl⟩ := List.mem_map.mp hdep
    exact hgood.relianceLive r hr

/-! ## Issuing succeeds -/

theorem bodyLeaves_isOk (masterSalt : Digest) {body : ClaimBody}
    (hjcs : ∀ e ∈ body.fields, ∃ jcs, External.toJcsBytes e.2 = some jcs) :
    ∃ leaves, bodyLeaves masterSalt body = .ok leaves := by
  rw [bodyLeaves, orderedFields_eq, Framework.ok_bind]
  refine Framework.mapM_isOk fun e he => ?_
  obtain ⟨⟨key, value⟩, i⟩ := e
  have hlen := length_sortedFields_le body
  obtain ⟨-, hi, he⟩ := List.mem_zipIdx he
  obtain ⟨jcs, hj⟩ := hjcs (key, value) (mem_sortedFields.mp (he ▸ List.getElem_mem _))
  have hindex : u32TryFrom i = some (UInt32.ofNat i) := by
    rw [u32TryFrom_eq_some, UInt32.toNat_ofNat', Nat.mod_eq_of_lt (by omega)]
  rw [bodyLeaf, hindex, hj]
  exact ⟨_, rfl⟩

theorem relianceLeaves_isOk (masterSalt : Digest) {targets : List ReliesOn}
    (hlen : targets.length < 2 ^ 32) : ∃ leaves, relianceLeaves masterSalt targets = .ok leaves := by
  refine Framework.mapM_isOk fun e he => ?_
  obtain ⟨target, i⟩ := e
  obtain ⟨-, hi, -⟩ := List.mem_zipIdx he
  have hindex : u32TryFrom i = some (UInt32.ofNat i) := by
    rw [u32TryFrom_eq_some, UInt32.toNat_ofNat', Nat.mod_eq_of_lt (by omega)]
  rw [reliesLeaf, hindex]
  exact ⟨_, rfl⟩

/-- A call commits where its values have canonical bytes and it declares fewer
than `2 ^ 32` dependencies. -/
theorem commits_isOk (hjcs : ∀ e ∈ call.body.fields, ∃ jcs, External.toJcsBytes e.2 = some jcs)
    (hlen : call.reliance.length < 2 ^ 32) : ∃ commit, call.Commits commit := by
  obtain ⟨leaves, hleaves⟩ := bodyLeaves_isOk call.masterSalt hjcs
  obtain ⟨relies, hrelies⟩ := relianceLeaves_isOk call.masterSalt hlen
  have hfields := length_sortedFields_le call.body
  rw [← length_bodyLeaves hleaves] at hfields
  have hcount : ∀ n < 2 ^ 32, (UInt32.ofNat n).toNat = n := fun n hn => by
    rw [UInt32.toNat_ofNat', Nat.mod_eq_of_lt hn]
  have hne : leaves.map (·.hash) ≠ [] := by simpa using bodyLeaves_ne_nil hleaves
  refine ⟨⟨mth _ hne, UInt32.ofNat leaves.length, if h : relies.map (·.hash) = [] then
    emptyRelianceRoot else mth _ h, UInt32.ofNat relies.length⟩,
    bodyCommitment_eq_ok.mpr ⟨leaves, hleaves, hcount _ (by omega), hne, rfl⟩,
    relianceCommitment_eq_ok.mpr ⟨relies, hrelies, hcount _ ?_, fun h => ?_, fun h => ?_⟩⟩
  · rw [length_relianceLeaves hrelies]; exact hlen
  · rw [dif_pos (by rw [h]; rfl)]
  · rw [dif_neg h]

/-- The leaves of an issued claim. -/
theorem issued_leaves (issuer : Identity) {commit : ClaimCommit} (h : call.Commits commit) : ∃ leaves relies,
    LeavesOf (issuedClaim issuer call commit) call.masterSalt leaves relies := by
  obtain ⟨leaves, hleaves, -⟩ := bodyCommitment_eq_ok.mp h.body
  obtain ⟨relies, hrelies, -⟩ := relianceCommitment_eq_ok.mp h.reliance
  exact ⟨leaves, relies, decodeArray_toHex _, hleaves, hrelies⟩

/-- The full disclosure of an issued claim. -/
theorem disclose_all_isOk (h : call.run issuer = .ok c) : ∃ d, c.disclose .all = .ok d := by
  obtain ⟨commit, hcommit, rfl⟩ := run_eq_ok.mp h
  obtain ⟨leaves, relies, hof⟩ := issued_leaves issuer hcommit
  exact disclose_isOk hof rfl

/-- The disclosure of some fields of an issued claim. -/
theorem disclose_only_isOk (h : call.run issuer = .ok c) {keys : List String} (hne : keys ≠ [])
    (hkeys : ∀ key ∈ keys, key ∈ (sortedFields c.body).map Prod.fst) :
    ∃ d, c.disclose (.only keys) = .ok d := by
  obtain ⟨commit, hcommit, rfl⟩ := run_eq_ok.mp h
  obtain ⟨leaves, relies, hof⟩ := issued_leaves issuer hcommit
  obtain ⟨indices, hsel⟩ := selectedIndices_only.mpr ⟨hne, by rwa [map_key_bodyLeaves hof.body]⟩
  exact disclose_isOk hof hsel

end AionTrust.Proof
