import AionTrust.Impl.Claims.Disclosure
import AionTrust.Proof.Core.Merkle

/-!
# What verifying a disclosure says

When each part of the verification succeeds: the signature over the scalars
(`checkSignature_eq_ok`), one field (`proveField_eq_ok`), one reliance leaf
(`proveReliance_eq_ok`), the reliance set (`verifyReliance_eq_ok`), and the
whole (`verifyWithRequired_eq_ok`).

The scan of the reliance set accepts leaves at pairwise different indices
inside the count (`relianceScan_eq_ok`).
-/

namespace AionTrust.Proof

open AionTrust.Impl
open Framework (ensure_eq_ok okOr_eq_ok mapError_eq_ok bind_eq_ok pure_eq_ok)

@[simp] theorem decodeClaimArray_eq_ok {n : Nat} {s : String} {v : ByteVec n} :
    decodeClaimArray n s = .ok v ↔ decodeArray n s = .ok v := mapError_eq_ok

theorem decodePath_eq_ok {hexes : List String} {p : List Digest} : decodePath hexes = .ok p ↔
    List.Forall₂ (fun h x => decodeArray 32 h = .ok x) hexes p := by
  simp only [decodePath, Framework.mapM_eq_ok, decodeClaimArray_eq_ok]

/-- What was written by `toHex` decodes. -/
theorem decodePath_toHex (p : List Digest) : decodePath (p.map fun h => toHex h.val) = .ok p := by
  rw [decodePath_eq_ok, List.forall₂_map_left_iff, List.forall₂_same]
  exact fun x _ => decodeArray_toHex x

variable [External] {d : DisclosedClaim} {vk : VerifyingKey}

theorem checkSignature_eq_ok {bodyRoot : Digest} : d.checkSignature vk = .ok bodyRoot ↔
    Did.fromKey vk = d.issuerId ∧ decodeArray 32 d.bodyRoot = .ok bodyRoot ∧
      ∃ relianceRoot, decodeArray 32 d.relianceRoot = .ok relianceRoot ∧
        ClaimId.fromSigningBytes (d.signedMessage bodyRoot relianceRoot) = d.claimId ∧
        ∃ sig, decodeArray 64 d.issuerSignature = .ok sig ∧
          External.verify vk (d.signedMessage bodyRoot relianceRoot) sig = true := by
  simp only [DisclosedClaim.checkSignature, bind_eq_ok, ensure_eq_ok, decodeClaimArray_eq_ok,
    pure_eq_ok]
  constructor
  · rintro ⟨-, hkey, root, hroot, rr, hrr, -, hid, sig, hsig, -, hv, rfl⟩
    exact ⟨hkey, hroot, rr, hrr, hid, sig, hsig, hv⟩
  · rintro ⟨hkey, hroot, rr, hrr, hid, sig, hsig, hv⟩
    exact ⟨(), hkey, bodyRoot, hroot, rr, hrr, (), hid, sig, hsig, (), hv, rfl⟩

theorem proveField_eq_ok {expected : List String} {bodyRoot : Digest} {f : RevealedField} :
    d.proveField expected bodyRoot f = .ok () ↔ expected[f.index.toNat]? = some f.key ∧
      ∃ salt jcs path, decodeArray 32 f.salt = .ok salt ∧ External.toJcsBytes f.value = some jcs ∧
        decodePath f.auditPath = .ok path ∧
        rootFromPath (fieldLeafHash f.index f.key salt jcs) f.index.toNat d.fieldCount.toNat path =
          .ok bodyRoot := by
  simp only [DisclosedClaim.proveField, bind_eq_ok, ensure_eq_ok, okOr_eq_ok, mapError_eq_ok,
    decodeClaimArray_eq_ok]
  constructor
  · rintro ⟨key, hkey, -, rfl, salt, hsalt, jcs, hjcs, path, hpath, root, hroot, rfl⟩
    exact ⟨hkey, salt, jcs, path, hsalt, hjcs, hpath, hroot⟩
  · rintro ⟨hkey, salt, jcs, path, hsalt, hjcs, hpath, hroot⟩
    exact ⟨_, hkey, (), rfl, salt, hsalt, jcs, hjcs, path, hpath, _, hroot, rfl⟩

theorem proveReliance_eq_ok {root : Digest} {count : Nat} {r : RevealedReliance} :
    proveReliance root count r = .ok () ↔ ∃ salt commit path, decodeArray 32 r.salt = .ok salt ∧
      decodeArray 32 r.kindCommit = .ok commit ∧ decodePath r.auditPath = .ok path ∧
      rootFromPath (relianceLeafHash r.index salt (asBytes r.fromClaimId.asStr) commit)
        r.index.toNat count path = .ok root := by
  simp only [proveReliance, bind_eq_ok, ensure_eq_ok, mapError_eq_ok, decodeClaimArray_eq_ok]
  constructor
  · rintro ⟨salt, hsalt, commit, hcommit, path, hpath, got, hgot, rfl⟩
    exact ⟨salt, commit, path, hsalt, hcommit, hpath, hgot⟩
  · rintro ⟨salt, commit, path, hsalt, hcommit, hpath, hgot⟩
    exact ⟨salt, hsalt, commit, hcommit, path, hpath, _, hgot, rfl⟩

/-! ## The reliance set -/

/-- The scan accepts leaves that prove themselves at indices it has not met,
pairwise different and inside the count. -/
theorem relianceScan_eq_ok {root : Digest} {count : Nat} {seen : List Bool}
    (hlen : seen.length = count) {rs : List RevealedReliance} {ids : List ClaimId} :
    relianceScan root count seen rs = .ok ids ↔
      (∀ r ∈ rs, seen[r.index.toNat]? = some false ∧ proveReliance root count r = .ok ()) ∧
        (rs.map fun r => r.index.toNat).Nodup ∧ ids = rs.map (·.fromClaimId) := by
  induction rs generalizing seen ids with
  | nil => simp [relianceScan, eq_comm]
  | cons r rs ih =>
    simp only [relianceScan, bind_eq_ok, ensure_eq_ok, okOr_eq_ok, mapError_eq_ok, pure_eq_ok,
      List.mem_cons, forall_eq_or_imp, List.map_cons, List.nodup_cons, List.mem_map, not_exists,
      not_and]
    -- marking `r` leaves the other indices as they were
    have hmark : ∀ r' : RevealedReliance, (seen.set r.index.toNat true)[r'.index.toNat]? = some false ↔
        r'.index.toNat ≠ r.index.toNat ∧ seen[r'.index.toNat]? = some false := by
      intro r'
      by_cases he : r.index.toNat = r'.index.toNat
      · rw [he, List.getElem?_set_self']
        simp
      · rw [List.getElem?_set_ne he]
        simp [Ne.symm he]
    constructor
    · rintro ⟨-, hlt, hit, hget, -, rfl, ⟨⟩, hprove, ids', hrest, rfl⟩
      obtain ⟨hall, hnodup, rfl⟩ := (ih (by simpa using hlen)).mp hrest
      refine ⟨⟨⟨hget, hprove⟩, fun r' hr' => ⟨((hmark r').mp (hall r' hr').1).2, (hall r' hr').2⟩⟩,
        ⟨fun r' hr' => ((hmark r').mp (hall r' hr').1).1, hnodup⟩, rfl⟩
    · rintro ⟨⟨⟨hget, hprove⟩, hall⟩, ⟨hnew, hnodup⟩, rfl⟩
      have hlt : r.index.toNat < count := hlen ▸ (List.getElem?_eq_some_iff.mp hget).1
      refine ⟨(), hlt, false, hget, (), rfl, (), hprove, rs.map (·.fromClaimId), ?_, rfl⟩
      exact (ih (by simpa using hlen)).mpr ⟨fun r' hr' =>
        ⟨(hmark r').mpr ⟨hnew r' hr', (hall r' hr').1⟩, (hall r' hr').2⟩, hnodup, rfl⟩

/-- Before the scan no index has been met. -/
theorem relianceScan_fresh {root : Digest} {count : Nat} {rs : List RevealedReliance}
    {ids : List ClaimId} : relianceScan root count (List.replicate count false) rs = .ok ids ↔
      (∀ r ∈ rs, r.index.toNat < count ∧ proveReliance root count r = .ok ()) ∧
        (rs.map fun r => r.index.toNat).Nodup ∧ ids = rs.map (·.fromClaimId) := by
  have hfresh : ∀ i, (List.replicate count false)[i]? = some false ↔ i < count := by
    intro i
    rw [List.getElem?_replicate]
    split <;> simp_all
  rw [relianceScan_eq_ok (List.length_replicate ..)]
  simp only [hfresh]

/-- The reliance set is accepted when it has as many leaves as were signed, at
different indices, and each proves itself. -/
theorem verifyReliance_eq_ok {ids : List ClaimId} : d.verifyReliance = .ok ids ↔
    d.reliance.length = d.relianceCount.toNat ∧ ids = d.reliance.map (·.fromClaimId) ∧
      (d.relianceCount.toNat ≠ 0 → ∃ root, decodeArray 32 d.relianceRoot = .ok root ∧
        (d.reliance.map fun r => r.index.toNat).Nodup ∧
        ∀ r ∈ d.reliance, r.index.toNat < d.relianceCount.toNat ∧
          proveReliance root d.relianceCount.toNat r = .ok ()) := by
  simp only [DisclosedClaim.verifyReliance, bind_eq_ok, ensure_eq_ok]
  by_cases h0 : d.relianceCount.toNat = 0
  · simp only [h0, if_true, pure_eq_ok, ne_eq, not_true, false_imp_iff, and_true]
    constructor
    · rintro ⟨-, hlen, rfl⟩
      exact ⟨hlen, by rw [List.length_eq_zero_iff.mp hlen]; rfl⟩
    · rintro ⟨hlen, rfl⟩
      exact ⟨(), hlen, by rw [List.length_eq_zero_iff.mp hlen]; rfl⟩
  · simp only [h0, if_false, bind_eq_ok, decodeClaimArray_eq_ok, ne_eq, not_false_eq_true,
      true_imp_iff]
    constructor
    · rintro ⟨-, hlen, root, hroot, hmatch⟩
      split at hmatch
      · rename_i ids' hids
        obtain ⟨hall, hnodup, hids'⟩ := relianceScan_fresh.mp hids
        rw [pure_eq_ok] at hmatch
        exact ⟨hlen, hmatch ▸ hids', root, hroot, hnodup, hall⟩
      · cases hmatch
      · rename_i hout
        exact (relianceScan_inRange root (by simp) d.reliance hout).elim
    · rintro ⟨hlen, rfl, root, hroot, hnodup, hall⟩
      refine ⟨(), hlen, root, hroot, ?_⟩
      have hids := relianceScan_fresh.mpr ⟨hall, hnodup, rfl⟩
      split
      · rename_i ids' hids'
        rw [hids] at hids'
        exact pure_eq_ok.mpr (Except.ok.inj hids').symm
      · rename_i e he
        rw [hids] at he; cases he
      · rename_i hout
        exact (relianceScan_inRange root (by simp) d.reliance hout).elim

/-! ## The whole -/

/-- The disclosed fields by key, a later one in place of an earlier. -/
def provenFields (fs : List RevealedField) : Std.TreeMap String ProvenField :=
  fs.foldl (fun proven f => proven.insert f.key (.value f.value)) ∅

/-- What a verified disclosure takes over. -/
def verifiedOf (d : DisclosedClaim) : VerifiedDisclosure where
  claimId := d.claimId
  subjectId := d.subjectId
  issuerId := d.issuerId
  validity := d.validity
  category := d.category
  fields := provenFields d.fields
  reliance := d.reliance.map (·.fromClaimId)

theorem verifyWithRequired_eq_ok {required : List String} {v : VerifiedDisclosure} :
    d.verifyWithRequired vk required = .ok v ↔ v = verifiedOf d ∧
      (∀ key ∈ required, (provenFields d.fields).contains key) ∧
      ∃ bodyRoot expected, d.checkSignature vk = .ok bodyRoot ∧
        ClaimBody.fieldKeysForCategory d.category = some expected ∧
        d.fieldCount.toNat = expected.length ∧
        (∀ f ∈ d.fields, d.proveField expected bodyRoot f = .ok ()) ∧
        d.verifyReliance = .ok (d.reliance.map (·.fromClaimId)) := by
  simp only [DisclosedClaim.verifyWithRequired, bind_eq_ok, ensure_eq_ok, okOr_eq_ok, pure_eq_ok,
    Framework.foldlM_eq_ok]
  constructor
  · rintro ⟨root, hsig, expected, hexp, -, hcount, proven, ⟨hfields, rfl⟩, -, hreq, ids, hids, rfl⟩
    obtain rfl := (verifyReliance_eq_ok.mp hids).2.1
    exact ⟨rfl, hreq, root, expected, hsig, hexp, hcount, hfields, hids⟩
  · rintro ⟨rfl, hreq, root, expected, hsig, hexp, hcount, hfields, hids⟩
    exact ⟨root, hsig, expected, hexp, (), hcount, _, ⟨hfields, rfl⟩, (), hreq, _, hids, rfl⟩

/-- Verifying gives one result, that of the disclosure. -/
theorem verify_eq_verifiedOf {v : VerifiedDisclosure} (h : d.verify vk = .ok v) : v = verifiedOf d :=
  (verifyWithRequired_eq_ok.mp h).1

end AionTrust.Proof
