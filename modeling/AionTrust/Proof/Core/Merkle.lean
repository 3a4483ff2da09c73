import AionTrust.Impl.Core.Merkle

/-!
# The commitment is a hash tree

The functions of the commitment are those of a hash tree cut at `splitPoint`:
`mth` its root, `path` the siblings of a leaf, and `rootFromPath` the climb
over the shape of a tree of that many leaves (`mth_eq_root`,
`path_eq_siblings`, `rootFromPath_eq_climb`). So an audit path of a list
recomputes its root (`rootFromPath_path`), the paths of its length and no others
recompute anything (`rootFromPath_isOk`), the leaf or a node (`rootFromPath_cases`),
and what recomputes the root is one of the leaves, if no two of the node messages
hashed collide (`rootFromPath_binding`). What every leaf recomputes is the root
(`mth_of_paths`). Two lists of leaves, of any lengths, have one root
only when they are the same, or a node or a leaf of theirs collides
(`mth_inj`).
-/

namespace AionTrust.Proof

open AionTrust.Impl
open Framework (Tree)

variable [External]

theorem mth_eq_root (leaves : List Digest) (hne : leaves ≠ []) :
    mth leaves hne = (Tree.ofList splitCut leaves hne).root nodeHash := by
  rw [mth]
  split
  · rename_i hl
    rw [Tree.ofList_one splitCut hne hl, Tree.root]
  · rename_i hl
    have h2 := Tree.two_le_length hne hl
    have hpos := splitPoint_pos h2
    have hlt := splitPoint_lt h2
    rw [Tree.ofList_cut splitCut hne h2, Tree.root]
    exact congrArg₂ nodeHash (mth_eq_root (leaves.take _) (take_splitPoint_ne_nil h2))
      (mth_eq_root (leaves.drop _) (drop_splitPoint_ne_nil h2))
termination_by leaves.length
decreasing_by all_goals simp only [List.length_take, List.length_drop]; omega

theorem path_eq_siblings (leaves : List Digest) (hne : leaves ≠ []) (i : Nat) :
    path leaves i = (Tree.ofList splitCut leaves hne).siblings nodeHash i := by
  rw [path]
  split
  · rename_i hl
    have := List.length_pos_of_ne_nil hne
    rw [Tree.ofList_one splitCut hne (by omega), Tree.siblings]
  · rename_i hl
    have h2 : 2 ≤ leaves.length := by omega
    have hpos := splitPoint_pos h2
    have hlt := splitPoint_lt h2
    have hl := take_splitPoint_ne_nil h2
    have hr := drop_splitPoint_ne_nil h2
    have hsize : (Tree.ofList splitCut (leaves.take (splitPoint leaves.length)) hl).size =
        splitPoint leaves.length := by
      rw [Tree.size_ofList, List.length_take, Nat.min_eq_left (Nat.le_of_lt hlt)]
    rw [Tree.ofList_cut splitCut hne h2]
    simp only [Tree.siblings, splitCut_point, hsize, mth_eq_root, path_eq_siblings (leaves.take _) hl,
      path_eq_siblings (leaves.drop _) hr]
termination_by leaves.length
decreasing_by all_goals simp only [List.length_take, List.length_drop]; omega

theorem rootFromPath_eq_climb (x : Digest) {i n : Nat} (p : List Digest) (hn : n ≠ 0) (hi : i < n) :
    rootFromPath x i n p = ((Tree.shape splitCut n hn).climb nodeHash i x p).elim
      (.error .malformedPath) .ok := by
  rw [rootFromPath, dif_neg hn, if_neg (by omega)]
  split
  · rename_i h1
    subst h1
    rw [Tree.shape_one, Tree.climb]
    split <;> rfl
  · have h2 : 2 ≤ n := by omega
    have hpos := splitPoint_pos h2
    have hlt := splitPoint_lt h2
    rw [Tree.shape_cut splitCut h2, Tree.climb, Tree.size_shape]
    cases p.getLast? with
    | none => rfl
    | some outer =>
      simp only [splitCut_point]
      by_cases hl : i < splitPoint n
      · simp only [hl, if_true]
        rw [rootFromPath_eq_climb x p.dropLast (by omega) hl]
        cases (Tree.shape splitCut (splitPoint n) _).climb nodeHash i x p.dropLast <;> rfl
      · simp only [hl, if_false]
        rw [rootFromPath_eq_climb x p.dropLast (by omega) (by omega)]
        cases (Tree.shape splitCut (n - splitPoint n) _).climb nodeHash _ x p.dropLast <;> rfl
termination_by n

/-- The climb over the shape of a list's length is the climb of its tree. -/
theorem climb_shape (leaves : List Digest) (hne : leaves ≠ []) (i : Nat) (x : Digest)
    (p : List Digest) : (Tree.shape splitCut leaves.length (by simpa using hne)).climb nodeHash i x p =
      (Tree.ofList splitCut leaves hne).climb nodeHash i x p := by
  rw [← Tree.map_ofList, Tree.climb_map]

theorem merkleRoot_ok {leaves : List Digest} (hne : leaves ≠ []) :
    merkleRoot leaves = .ok (mth leaves hne) := by
  rw [merkleRoot, dif_neg hne]

theorem merkleRoot_eq_ok {leaves : List Digest} {root : Digest} :
    merkleRoot leaves = .ok root ↔ ∃ hne : leaves ≠ [], mth leaves hne = root := by
  by_cases hne : leaves = []
  · simp [merkleRoot, hne]
  · simp [merkleRoot_ok hne, hne]

theorem auditPath_ok {leaves : List Digest} {i : Nat} (hi : i < leaves.length) :
    auditPath leaves i = .ok (path leaves i) := by
  have hne : leaves ≠ [] := List.ne_nil_of_length_pos (by omega)
  rw [auditPath, if_neg hne, if_neg (by omega)]

/-- An audit path of a list recomputes its root. -/
theorem rootFromPath_path {leaves : List Digest} {i : Nat} {x : Digest} (hx : leaves[i]? = some x) :
    ∃ hne : leaves ≠ [], rootFromPath x i leaves.length (path leaves i) = .ok (mth leaves hne) := by
  obtain ⟨hi, -⟩ := List.getElem?_eq_some_iff.mp hx
  have hne : leaves ≠ [] := List.ne_nil_of_length_pos (by omega)
  refine ⟨hne, ?_⟩
  rw [rootFromPath_eq_climb x _ (by simpa using hne) hi, climb_shape leaves hne,
    path_eq_siblings leaves hne, Tree.climb_siblings _ (by simpa using hx), mth_eq_root]
  rfl

theorem length_path {leaves : List Digest} (hne : leaves ≠ []) (i : Nat) :
    (path leaves i).length =
      (Tree.shape splitCut leaves.length (by simpa using hne)).depth i := by
  rw [path_eq_siblings leaves hne, Tree.length_siblings, ← Tree.map_ofList, Tree.depth_map]

/-- A path recomputes a root when it is as long as the leaf's own. -/
theorem rootFromPath_isOk {leaves : List Digest} {i : Nat} (hi : i < leaves.length) (x : Digest)
    (p : List Digest) : (∃ r, rootFromPath x i leaves.length p = .ok r) ↔
      p.length = (path leaves i).length := by
  have hne : leaves ≠ [] := List.ne_nil_of_length_pos (by omega)
  rw [rootFromPath_eq_climb x p (by simpa using hne) hi, length_path hne,
    ← Tree.climb_isSome (h := nodeHash) (x := x)]
  cases (Tree.shape splitCut leaves.length _).climb nodeHash i x p <;> simp

/-- Any other path is malformed. -/
theorem rootFromPath_malformed {leaves : List Digest} {i : Nat} (hi : i < leaves.length) {x : Digest}
    {p : List Digest} (hlen : p.length ≠ (path leaves i).length) :
    rootFromPath x i leaves.length p = .error .malformedPath := by
  have hne : leaves ≠ [] := List.ne_nil_of_length_pos (by omega)
  have hok := mt (rootFromPath_isOk hi x p).mp hlen
  rw [rootFromPath_eq_climb x p (by simpa using hne) hi] at hok ⊢
  cases hc : (Tree.shape splitCut leaves.length _).climb nodeHash i x p with
  | none => rfl
  | some r => exact absurd ⟨r, by rw [hc]; rfl⟩ hok

/-! ## Binding -/

/-- The pairs of digests hashed for the root of `leaves`. -/
def nodesOf (leaves : List Digest) : List (Digest × Digest) :=
  if hne : leaves = [] then [] else (Tree.ofList splitCut leaves hne).pairs nodeHash

/-- The pairs of digests `rootFromPath` hashes. -/
def climbNodes (leaf : Digest) (index count : Nat) (path : List Digest) : List (Digest × Digest) :=
  if hn : count = 0 then [] else (Tree.shape splitCut count hn).climbPairs nodeHash index leaf path

/-- What is recomputed is the leaf or a node. -/
theorem rootFromPath_cases {x r : Digest} {i n : Nat} {p : List Digest}
    (h : rootFromPath x i n p = .ok r) :
    r = x ∨ ∃ q ∈ climbNodes x i n p, r = nodeHash q.1 q.2 := by
  have hn : n ≠ 0 := fun h0 => by rw [rootFromPath, dif_pos h0] at h; cases h
  have hi : i < n := by
    by_contra hi
    rw [rootFromPath, dif_neg hn, if_pos (by omega)] at h
    cases h
  rw [rootFromPath_eq_climb x p hn hi] at h
  rw [climbNodes, dif_neg hn]
  cases hc : (Tree.shape splitCut n hn).climb nodeHash i x p with
  | none => rw [hc] at h; cases h
  | some r' =>
    rw [hc] at h
    exact Except.ok.inj h ▸ Tree.climb_cases _ hc

/-- What recomputes the root of a list is one of its leaves, by its own audit
path, unless two of the nodes hashed collide. -/
theorem rootFromPath_binding {leaves : List Digest} {i : Nat} {x : Digest} {p : List Digest}
    {hne : leaves ≠ []} (hinj : ∀ q ∈ nodesOf leaves, ∀ q' ∈ climbNodes x i leaves.length p,
      nodeHash q.1 q.2 = nodeHash q'.1 q'.2 → q = q')
    (hroot : rootFromPath x i leaves.length p = .ok (mth leaves hne)) :
    leaves[i]? = some x ∧ p = path leaves i := by
  have hn : leaves.length ≠ 0 := by simpa using hne
  have hi : i < leaves.length := by
    by_contra h
    rw [rootFromPath, dif_neg hn, if_pos (by omega)] at hroot
    cases hroot
  rw [rootFromPath_eq_climb x p hn hi, climb_shape leaves hne, mth_eq_root] at hroot
  simp only [nodesOf, dif_neg hne, climbNodes, dif_neg hn] at hinj
  rw [← Tree.map_ofList splitCut leaves hne, Tree.climbPairs_map] at hinj
  cases hc : (Tree.ofList splitCut leaves hne).climb nodeHash i x p with
  | none => rw [hc] at hroot; cases hroot
  | some r =>
    rw [hc] at hroot
    simp only [Option.elim_some, Except.ok.injEq] at hroot
    have := Tree.climb_binding _ (by simpa using hi) hinj (by rw [hc, hroot])
    rwa [Tree.toList_ofList, ← path_eq_siblings] at this

/-- What every leaf of a list recomputes, by whatever path, is its root, unless
two of the nodes hashed collide. -/
theorem mth_of_paths {leaves : List Digest} (hne : leaves ≠ []) {root : Digest}
    {P : Digest × Digest → Prop}
    (hinj : ∀ q q', P q → P q' → nodeHash q.1 q.2 = nodeHash q'.1 q'.2 → q = q')
    (hpaths : ∀ i x, leaves[i]? = some x → ∃ p, rootFromPath x i leaves.length p = .ok root ∧
      ∀ q ∈ climbNodes x i leaves.length p, P q) : mth leaves hne = root := by
  have hn : leaves.length ≠ 0 := by simpa using hne
  rw [mth_eq_root]
  refine Tree.root_of_climbs _ hinj fun i x hx => ?_
  rw [Tree.toList_ofList] at hx
  obtain ⟨p, hp, hnodes⟩ := hpaths i x hx
  rw [rootFromPath_eq_climb x p hn (List.getElem?_eq_some_iff.mp hx).1, climb_shape leaves hne] at hp
  rw [climbNodes, dif_neg hn, ← Tree.map_ofList splitCut leaves hne, Tree.climbPairs_map] at hnodes
  refine ⟨p, ?_, hnodes⟩
  cases hc : (Tree.ofList splitCut leaves hne).climb nodeHash i x p with
  | none => rw [hc] at hp; cases hp
  | some r =>
    rw [hc] at hp
    exact congrArg some (Except.ok.inj hp)

theorem mth_cases (leaves : List Digest) (hne : leaves ≠ []) :
    mth leaves hne ∈ leaves ∨ ∃ q ∈ nodesOf leaves, mth leaves hne = nodeHash q.1 q.2 := by
  have h := (Tree.ofList splitCut leaves hne).root_cases (h := nodeHash)
  rwa [Tree.toList_ofList, ← mth_eq_root, show (Tree.ofList splitCut leaves hne).pairs nodeHash =
    nodesOf leaves by rw [nodesOf, dif_neg hne]] at h

/-- Lists of leaves with one root are the same, whatever their lengths, unless
two of the nodes hashed collide or a leaf of one is a node of the other. -/
theorem mth_inj {leaves leaves' : List Digest} {hne : leaves ≠ []} {hne' : leaves' ≠ []}
    (hnodes : ∀ q ∈ nodesOf leaves, ∀ q' ∈ nodesOf leaves',
      nodeHash q.1 q.2 = nodeHash q'.1 q'.2 → q = q')
    (hleft : ∀ x ∈ leaves, ∀ q ∈ nodesOf leaves', x ≠ nodeHash q.1 q.2)
    (hright : ∀ x ∈ leaves', ∀ q ∈ nodesOf leaves, x ≠ nodeHash q.1 q.2)
    (h : mth leaves hne = mth leaves' hne') : leaves = leaves' := by
  rw [mth_eq_root, mth_eq_root] at h
  simp only [nodesOf, dif_neg hne, dif_neg hne'] at hnodes hleft hright
  have htree := Tree.root_inj hnodes (by rwa [Tree.toList_ofList]) (by rwa [Tree.toList_ofList]) h
  rw [← Tree.toList_ofList splitCut leaves hne, htree, Tree.toList_ofList]

end AionTrust.Proof
