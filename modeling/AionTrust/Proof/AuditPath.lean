import AionTrust.Proof.Packages

/-!
# Audit paths are complete and unique

`audit_path_exact`: every leaf of a list has an audit path that recomputes the
root, the paths of its length are those that recompute anything, whatever the
leaf, and only it recomputes the root, from that leaf only, unless two nodes
collide.
-/

namespace AionTrust.Proof

open AionTrust.Impl

/-- Two different pairs, one hashed for the root of `leaves` and one on the way
up a path, have one hash. -/
def NodeCollision [External] (leaves : List Digest) (x : Digest) (i : Nat) (p : List Digest) : Prop :=
  ∃ q ∈ nodesOf leaves, ∃ q' ∈ climbNodes x i leaves.length p,
    q ≠ q' ∧ nodeHash q.1 q.2 = nodeHash q'.1 q'.2

theorem audit_path_exact [External] (leaves : List Digest) {i : Nat} (hi : i < leaves.length) :
    ∃ root own, merkleRoot leaves = .ok root ∧ auditPath leaves i = .ok own ∧
      rootFromPath leaves[i] i leaves.length own = .ok root ∧
      ∀ (x : Digest) (p : List Digest),
        ((∃ r, rootFromPath x i leaves.length p = .ok r) ↔ p.length = own.length) ∧
        (p.length ≠ own.length → rootFromPath x i leaves.length p = .error .malformedPath) ∧
        (rootFromPath x i leaves.length p = .ok root →
          NodeCollision leaves x i p ∨ x = leaves[i] ∧ p = own) := by
  obtain ⟨hne, hown⟩ := rootFromPath_path (List.getElem?_eq_getElem hi)
  refine ⟨mth leaves hne, path leaves i, merkleRoot_ok hne, auditPath_ok hi, hown, fun x p =>
    ⟨rootFromPath_isOk hi x p, rootFromPath_malformed hi, fun hroot => ?_⟩⟩
  by_cases hno : NodeCollision leaves x i p
  · exact .inl hno
  · have hinj : ∀ q ∈ nodesOf leaves, ∀ q' ∈ climbNodes x i leaves.length p,
        nodeHash q.1 q.2 = nodeHash q'.1 q'.2 → q = q' := fun q hq q' hq' heq => by
      by_contra hqq'
      exact hno ⟨q, hq, q', hq', hqq', heq⟩
    obtain ⟨hget, hpath⟩ := rootFromPath_binding hinj hroot
    rw [List.getElem?_eq_getElem hi] at hget
    exact .inr ⟨(Option.some.inj hget).symm, hpath⟩

section

attribute [local instance] lawful

theorem audit_path_exact_three : ∃ root own,
    merkleRoot [keyBytes 1, keyBytes 2, keyBytes 3] = .ok root ∧
      rootFromPath (keyBytes 3) 2 3 own = .ok root := by
  obtain ⟨root, own, hroot, -, hown, -⟩ :=
    audit_path_exact [keyBytes 1, keyBytes 2, keyBytes 3] (i := 2) (by decide)
  exact ⟨root, own, hroot, hown⟩

end

end AionTrust.Proof
