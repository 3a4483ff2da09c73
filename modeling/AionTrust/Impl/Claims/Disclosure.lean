import AionTrust.Impl.Claims.Claim

/-!
# Selective disclosure

A `DisclosedClaim` carries a claim's signed scalars, some of its fields and
all of its reliance leaves, each with an audit path; it is built from a claim
and a selector (`Claim.disclose`), or by anyone. `DisclosedClaim.verify`
checks the issuer's signature over the scalars, the path of every field
against the signed `bodyRoot`, and the whole reliance set against the signed
`relianceRoot`; what it proves is a `VerifiedDisclosure`.

The reliance check keeps a vector of the indices it has met. An access
outside the vector is an outcome of its own (`ScanError.outOfRange`), and
never happens (`relianceScan_inRange`).
-/

namespace AionTrust.Impl

open Framework (Bytes okOr ensure)

/-- Which fields of a claim to disclose. -/
inductive FieldSelector where
  | all
  | only (keys : List String)

/-- One disclosed field with its proof. -/
structure RevealedField where
  key : String
  index : UInt32
  salt : String
  value : Value
  auditPath : List String

/-- One disclosed reliance leaf with its proof. -/
structure RevealedReliance where
  index : UInt32
  fromClaimId : ClaimId
  salt : String
  kindCommit : String
  auditPath : List String

/-- What a subject discloses of a claim. -/
structure DisclosedClaim where
  claimId : ClaimId
  subjectId : Did
  issuerId : Did
  validity : Validity
  category : String
  schemaId : String
  bodyRoot : String
  fieldCount : UInt32
  relianceRoot : String
  relianceCount : UInt32
  issuerSignature : String
  fields : List RevealedField
  reliance : List RevealedReliance

inductive ProvenField where
  | value (v : Value)

/-- What a verified disclosure proves. -/
structure VerifiedDisclosure where
  claimId : ClaimId
  subjectId : Did
  issuerId : Did
  validity : Validity
  category : String
  fields : Std.TreeMap String ProvenField
  reliance : List ClaimId

namespace VerifiedDisclosure

def activeAt (v : VerifiedDisclosure) (now : Timestamp) : Bool := v.validity.activeAt now

/-- The proven value of a field. -/
def value (v : VerifiedDisclosure) (key : String) : Option Value :=
  match v.fields[key]? with
  | some (.value x) => some x
  | none => none

/-- The proven keys, in order. -/
def revealedKeys (v : VerifiedDisclosure) : List String := v.fields.keys

end VerifiedDisclosure

/-- The leaf positions a selector names. -/
def selectedIndices (leaves : List BodyLeaf) : FieldSelector → Except ClaimReject (List Nat)
  | .all => .ok (List.range leaves.length)
  | .only keys => do
    ensure (keys ≠ []) .malformed
    keys.mapM fun key => okOr (leaves.findIdx? fun l => l.key == key) .malformed

/-- `decode_array` in the errors of a claim. -/
def decodeClaimArray (n : Nat) (s : String) : Except ClaimReject (ByteVec n) :=
  (decodeArray n s).mapError fun _ => .malformed

def decodePath (hexes : List String) : Except ClaimReject (List Digest) :=
  hexes.mapM (decodeClaimArray 32)

variable [External]

/-! ## Building -/

/-- The field at `pos` with its audit path. -/
def revealField (leaves : List BodyLeaf) (pos : Nat) : Except ClaimReject RevealedField := do
  let leaf ← okOr leaves[pos]? .malformed
  let path ← (auditPath (leaves.map (·.hash)) pos).mapError fun _ => .malformed
  let index ← okOr (u32TryFrom pos) .malformed
  return {
    key := leaf.key
    index
    salt := toHex leaf.salt.val
    value := leaf.value
    auditPath := path.map fun h => toHex h.val }

/-- A reliance leaf with its audit path. -/
def revealReliance (leaves : List ReliesLeaf) (l : ReliesLeaf) : Except ClaimReject RevealedReliance := do
  let path ← (auditPath (leaves.map (·.hash)) l.index.toNat).mapError fun _ => .malformed
  return {
    index := l.index
    fromClaimId := l.fromClaimId
    salt := toHex l.salt.val
    kindCommit := toHex l.kindCommit.val
    auditPath := path.map fun h => toHex h.val }

def discloseReliance (leaves : List ReliesLeaf) : Except ClaimReject (List RevealedReliance) :=
  if leaves.isEmpty then .ok [] else leaves.mapM (revealReliance leaves)

def DisclosedClaim.build (claim : Claim) (leaves : List BodyLeaf) (relianceLeaves : List ReliesLeaf)
    (selector : FieldSelector) : Except ClaimReject DisclosedClaim := do
  let indices ← selectedIndices leaves selector
  let fields ← indices.mapM (revealField leaves)
  let reliance ← discloseReliance relianceLeaves
  return {
    claimId := claim.claimId
    subjectId := claim.subjectId
    issuerId := claim.issuerId
    validity := claim.validity
    category := claim.category
    schemaId := claim.schemaId
    bodyRoot := claim.bodyRoot
    fieldCount := claim.fieldCount
    relianceRoot := claim.relianceRoot
    relianceCount := claim.relianceCount
    issuerSignature := claim.issuerSignature
    fields
    reliance }

/-- The disclosure of the fields a selector names. -/
def Claim.disclose (c : Claim) (selector : FieldSelector) : Except ClaimReject DisclosedClaim := do
  let masterSalt ← decodeClaimArray 32 c.masterSalt
  let leaves ← bodyLeaves masterSalt c.body
  let reliance ← relianceLeaves masterSalt c.reliance
  DisclosedClaim.build c leaves reliance selector

/-! ## Verifying -/

/-- What stops the reliance check: a rejection, or an access outside `seen`. -/
inductive ScanError where
  | reject (r : ClaimReject)
  | outOfRange

/-- One disclosed reliance leaf against the signed root. -/
def proveReliance (root : Digest) (count : Nat) (r : RevealedReliance) : Except ClaimReject Unit := do
  let salt ← decodeClaimArray 32 r.salt
  let kindCommit ← decodeClaimArray 32 r.kindCommit
  let leaf := relianceLeafHash r.index salt (asBytes r.fromClaimId.asStr) kindCommit
  let path ← decodePath r.auditPath
  let got ← (rootFromPath leaf r.index.toNat count path).mapError fun _ => .reliesTampered
  ensure (got = root) .reliesTampered

/-- The loop of `verifyReliance`. -/
def relianceScan (root : Digest) (count : Nat) :
    List Bool → List RevealedReliance → Except ScanError (List ClaimId)
  | _, [] => .ok []
  | seen, r :: rs => do
    ensure (r.index.toNat < count) (.reject .reliesTampered)
    let hit ← okOr seen[r.index.toNat]? .outOfRange
    ensure (hit = false) (.reject .reliesTampered)
    (proveReliance root count r).mapError .reject
    let ids ← relianceScan root count (seen.set r.index.toNat true) rs
    return r.fromClaimId :: ids

/-- Every access is guarded by the length of the vector. -/
theorem relianceScan_inRange (root : Digest) {count : Nat} {seen : List Bool}
    (hlen : seen.length = count) (rs : List RevealedReliance) :
    relianceScan root count seen rs ≠ .error .outOfRange := by
  induction rs generalizing seen with
  | nil => simp [relianceScan]
  | cons r rs ih =>
    rw [relianceScan, ensure]
    split
    · rename_i hlt
      have hget : seen[r.index.toNat]? = some seen[r.index.toNat] :=
        List.getElem?_eq_getElem (by omega)
      rw [Framework.ok_bind, hget, Framework.okOr_some, Framework.ok_bind, ensure]
      split
      · rw [Framework.ok_bind]
        cases proveReliance root count r with
        | error e => simp [Except.mapError, bind, Except.bind]
        | ok _ =>
          have hrec : relianceScan root count (seen.set r.index.toNat true) rs ≠
              .error .outOfRange := ih (by simpa using hlen)
          cases hscan : relianceScan root count (seen.set r.index.toNat true) rs with
          | error e =>
            rw [hscan] at hrec
            simpa [Except.mapError, bind, Except.bind] using hrec
          | ok ids => simp [Except.mapError, bind, Except.bind, pure, Except.pure]
      · simp [bind, Except.bind]
    · simp [bind, Except.bind]

namespace DisclosedClaim

/-- The scalars the issuer signed, with the two roots decoded. -/
def signedMessage (d : DisclosedClaim) (bodyRoot relianceRoot : Digest) : Bytes :=
  signingBytes d.subjectId d.issuerId d.category d.schemaId d.validity
    { bodyRoot, fieldCount := d.fieldCount, relianceRoot, relianceCount := d.relianceCount }

/-- The issuer's key, the id and the signature; gives the decoded `bodyRoot`. -/
def checkSignature (d : DisclosedClaim) (issuerVk : VerifyingKey) : Except ClaimReject Digest := do
  ensure (Did.fromKey issuerVk = d.issuerId) .issuerKeyMismatch
  let bodyRoot ← decodeClaimArray 32 d.bodyRoot
  let relianceRoot ← decodeClaimArray 32 d.relianceRoot
  let signing := d.signedMessage bodyRoot relianceRoot
  ensure (ClaimId.fromSigningBytes signing = d.claimId) .claimIdMismatch
  let sig ← decodeClaimArray 64 d.issuerSignature
  ensure (External.verify issuerVk signing sig) .badSignature
  return bodyRoot

/-- One disclosed field against the schema and the signed `bodyRoot`. -/
def proveField (d : DisclosedClaim) (expected : List String) (bodyRoot : Digest)
    (f : RevealedField) : Except ClaimReject Unit := do
  let expectedKey ← okOr expected[f.index.toNat]? .bodyTampered
  ensure (expectedKey = f.key) .bodyTampered
  let salt ← decodeClaimArray 32 f.salt
  let jcs ← okOr (External.toJcsBytes f.value) .malformed
  let leaf := fieldLeafHash f.index f.key salt jcs
  let path ← decodePath f.auditPath
  let root ← (rootFromPath leaf f.index.toNat d.fieldCount.toNat path).mapError fun _ => .bodyTampered
  ensure (root = bodyRoot) .bodyTampered

/-- The whole disclosed reliance set against the signed root and count. -/
def verifyReliance (d : DisclosedClaim) : Except ClaimReject (List ClaimId) := do
  let count := d.relianceCount.toNat
  ensure (d.reliance.length = count) .reliesTampered
  if count = 0 then return []
  else
    let root ← decodeClaimArray 32 d.relianceRoot
    match h : relianceScan root count (List.replicate count false) d.reliance with
    | .ok ids => return ids
    | .error (.reject r) => .error r
    | .error .outOfRange => (relianceScan_inRange root (by simp) d.reliance h).elim

/-- `verify`, with the keys the verifier requires. -/
def verifyWithRequired (d : DisclosedClaim) (issuerVk : VerifyingKey) (required : List String) :
    Except ClaimReject VerifiedDisclosure := do
  let bodyRoot ← d.checkSignature issuerVk
  let expected ← okOr (ClaimBody.fieldKeysForCategory d.category) .malformed
  ensure (d.fieldCount.toNat = expected.length) .bodyTampered
  let proven ← d.fields.foldlM (fun (proven : Std.TreeMap String ProvenField) f => do
    d.proveField expected bodyRoot f
    return proven.insert f.key (.value f.value)) ∅
  ensure (∀ key ∈ required, proven.contains key) .missingField
  let reliance ← d.verifyReliance
  return {
    claimId := d.claimId
    subjectId := d.subjectId
    issuerId := d.issuerId
    validity := d.validity
    category := d.category
    fields := proven
    reliance }

def verify (d : DisclosedClaim) (issuerVk : VerifyingKey) : Except ClaimReject VerifiedDisclosure :=
  d.verifyWithRequired issuerVk []

end DisclosedClaim

end AionTrust.Impl
