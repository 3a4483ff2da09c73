import AionTrust.Framework.MerkleTree
import AionTrust.Impl.Core.Encoding

/-!
# The salted-field Merkle commitment

The hashes of a field leaf, a reliance leaf and an internal node, each over
its own message, and the tree over a list of leaf hashes: `merkleRoot`,
`auditPath`, and `rootFromPath`, which recomputes a root from one leaf and its
siblings, innermost first. A list is cut at `splitPoint`, which is inside it
(`splitPoint_pos`, `splitPoint_lt`).
-/

namespace AionTrust.Impl

open Framework (Bytes)

/-- A BLAKE3 digest, `[u8; 32]`. -/
abbrev Digest : Type := ByteVec 32

def fieldLeafDomain : Bytes := asBytes "aion-trust/claim-field-leaf/v1"

def fieldNodeDomain : Bytes := asBytes "aion-trust/claim-field-node/v1"

def relianceLeafDomain : Bytes := asBytes "aion-trust/reliance-leaf/v1"

inductive MerkleError where
  | empty
  | indexOutOfRange
  | malformedPath
  deriving DecidableEq

/-! ## The messages -/

/-- What `fieldLeafHash` hashes. -/
def fieldLeafMessage (index : UInt32) (key : String) (salt : Digest) (jcsValue : Bytes) : Bytes :=
  ((((SigningWriter.new fieldLeafDomain).u32 index).field (asBytes key)).field salt.val).field jcsValue
    |>.intoBytes

/-- What `relianceLeafHash` hashes. -/
def relianceLeafMessage (index : UInt32) (salt : Digest) (fromClaimId : Bytes)
    (kindCommit : Digest) : Bytes :=
  ((((SigningWriter.new relianceLeafDomain).u32 index).field salt.val).field fromClaimId).field
    kindCommit.val |>.intoBytes

/-- What `nodeHash` hashes. -/
def nodeMessage (left right : Digest) : Bytes :=
  ((SigningWriter.new fieldNodeDomain).field left.val).field right.val |>.intoBytes

/-! ## The split point -/

/-- `usize::MAX`. -/
def usizeMax : Nat := 2 ^ 64 - 1

/-- `usize::saturating_mul`. -/
def saturatingMul (a b : Nat) : Nat := min (a * b) usizeMax

/-- The loop of `splitPoint`: a length has at most 64 bits, so 64 doublings
reach it. -/
def splitPointLoop (n : Nat) : Nat → Nat → Nat
  | 0, k => k
  | fuel + 1, k => if saturatingMul k 2 < n then splitPointLoop n fuel (saturatingMul k 2) else k

/-- The largest power of two below `n`. -/
def splitPoint (n : Nat) : Nat := splitPointLoop n 64 1

theorem splitPointLoop_bounds {n : Nat} (fuel : Nat) {k : Nat} (h0 : 0 < k) (hn : k < n) :
    0 < splitPointLoop n fuel k ∧ splitPointLoop n fuel k < n := by
  induction fuel generalizing k with
  | zero => exact ⟨h0, hn⟩
  | succ fuel ih =>
    rw [splitPointLoop]
    split
    · rename_i hlt
      refine ih ?_ hlt
      simp only [saturatingMul, usizeMax]; omega
    · exact ⟨h0, hn⟩

theorem splitPoint_pos {n : Nat} (h : 2 ≤ n) : 0 < splitPoint n :=
  (splitPointLoop_bounds 64 Nat.one_pos h).1

theorem splitPoint_lt {n : Nat} (h : 2 ≤ n) : splitPoint n < n :=
  (splitPointLoop_bounds 64 Nat.one_pos h).2

/-- The loop ends by its guard when the fuel is enough for the length. -/
theorem splitPointLoop_exit {n : Nat} (hn : n ≤ usizeMax) {fuel k j : Nat} (hk : k = 2 ^ j)
    (hfuel : n ≤ 2 ^ (j + fuel)) (hlt : k < n) :
    ∃ i, splitPointLoop n fuel k = 2 ^ i ∧ 2 ^ i < n ∧ n ≤ 2 ^ (i + 1) := by
  induction fuel generalizing k j with
  | zero => rw [Nat.add_zero, ← hk] at hfuel; omega
  | succ fuel ih =>
    rw [splitPointLoop]
    split
    · rename_i hnext
      have hdouble : saturatingMul k 2 = 2 ^ (j + 1) := by
        simp only [saturatingMul] at hnext ⊢
        rw [pow_succ, ← hk]; omega
      exact ih hdouble (by rw [Nat.add_right_comm]; exact hfuel) hnext
    · rename_i hnext
      refine ⟨j, hk, hk ▸ hlt, ?_⟩
      simp only [saturatingMul] at hnext
      rw [pow_succ, ← hk]; omega

/-- The split point is the largest power of two below the length. -/
theorem splitPoint_spec {n : Nat} (h2 : 2 ≤ n) (hn : n ≤ usizeMax) :
    ∃ i, splitPoint n = 2 ^ i ∧ 2 ^ i < n ∧ n ≤ 2 ^ (i + 1) :=
  splitPointLoop_exit hn (j := 0) rfl (by simp only [usizeMax] at hn; omega) h2

/-- The rule the trees are cut by. -/
def splitCut : Framework.Tree.Cut where
  point := splitPoint
  pos _ := splitPoint_pos
  lt _ := splitPoint_lt

theorem splitCut_point (n : Nat) : splitCut.point n = splitPoint n := rfl

theorem take_splitPoint_ne_nil {α : Type} {leaves : List α} (h2 : 2 ≤ leaves.length) :
    leaves.take (splitPoint leaves.length) ≠ [] := splitCut.take_ne_nil h2

theorem drop_splitPoint_ne_nil {α : Type} {leaves : List α} (h2 : 2 ≤ leaves.length) :
    leaves.drop (splitPoint leaves.length) ≠ [] := splitCut.drop_ne_nil h2

/-! ## The tree -/

section

variable [External]

def fieldLeafHash (index : UInt32) (key : String) (salt : Digest) (jcsValue : Bytes) : Digest :=
  External.hash (fieldLeafMessage index key salt jcsValue)

def relianceLeafHash (index : UInt32) (salt : Digest) (fromClaimId : Bytes) (kindCommit : Digest) :
    Digest :=
  External.hash (relianceLeafMessage index salt fromClaimId kindCommit)

def nodeHash (left right : Digest) : Digest := External.hash (nodeMessage left right)

/-- The Merkle tree hash of a nonempty slice. -/
def mth (leaves : List Digest) (hne : leaves ≠ []) : Digest :=
  if hl : leaves.length = 1 then leaves.head hne
  else
    have h2 := Framework.Tree.two_le_length hne hl
    let k := splitPoint leaves.length
    nodeHash (mth (leaves.take k) (take_splitPoint_ne_nil h2))
      (mth (leaves.drop k) (drop_splitPoint_ne_nil h2))
termination_by leaves.length
decreasing_by
  all_goals
    have hpos := splitPoint_pos (Framework.Tree.two_le_length hne hl)
    have hlt := splitPoint_lt (Framework.Tree.two_le_length hne hl)
    simp only [List.length_take, List.length_drop]; omega

def merkleRoot (leaves : List Digest) : Except MerkleError Digest :=
  if hne : leaves = [] then .error .empty else .ok (mth leaves hne)

/-- The siblings of leaf `index`, innermost first. -/
def path (leaves : List Digest) (index : Nat) : List Digest :=
  if hl : leaves.length ≤ 1 then []
  else
    have h2 : 2 ≤ leaves.length := Nat.lt_of_not_le hl
    let k := splitPoint leaves.length
    if index < k then
      path (leaves.take k) index ++ [mth (leaves.drop k) (drop_splitPoint_ne_nil h2)]
    else
      path (leaves.drop k) (index - k) ++ [mth (leaves.take k) (take_splitPoint_ne_nil h2)]
termination_by leaves.length
decreasing_by
  all_goals
    have hpos := splitPoint_pos (Nat.lt_of_not_le hl)
    have hlt := splitPoint_lt (Nat.lt_of_not_le hl)
    simp only [List.length_take, List.length_drop]; omega

def auditPath (leaves : List Digest) (index : Nat) : Except MerkleError (List Digest) :=
  if leaves = [] then .error .empty
  else if index ≥ leaves.length then .error .indexOutOfRange
  else .ok (path leaves index)

/-- The root recomputed from a leaf, its index, the number of leaves and its
audit path. -/
def rootFromPath (leaf : Digest) (index count : Nat) (path : List Digest) :
    Except MerkleError Digest :=
  if _h0 : count = 0 then .error .empty
  else if index ≥ count then .error .indexOutOfRange
  else if _h1 : count = 1 then if path.isEmpty then .ok leaf else .error .malformedPath
  else
    match path.getLast? with
    | none => .error .malformedPath
    | some outer =>
      let k := splitPoint count
      if index < k then do
        let left ← rootFromPath leaf index k path.dropLast
        return nodeHash left outer
      else do
        let right ← rootFromPath leaf (index - k) (count - k) path.dropLast
        return nodeHash outer right
termination_by count
decreasing_by
  all_goals
    have h2 : 2 ≤ count := by omega
    have hpos := splitPoint_pos h2
    have hlt := splitPoint_lt h2
    omega

end

end AionTrust.Impl
