import Mathlib.Data.List.Perm.Basic
import Mathlib.Data.List.Perm.Subperm
import Mathlib.Data.List.Range
import Mathlib.Tactic.Common

/-!
# Hash trees

A binary tree over a hash of two children `h`: its root (`root`), the siblings
of a leaf from the innermost to the outermost (`siblings`), and the climb from
a leaf and a list of siblings to a root (`climb`), which uses the shape of the
tree only. A climb ends for the lists of siblings as long as the leaf is deep,
and no others (`climb_isSome`), at the leaf or at the hash of a pair
(`climb_cases`). A leaf's own siblings climb to the root (`climb_siblings`). When
`h` does not collide on the pairs hashed for the root and on the climb
(`pairs`, `climbPairs`), nothing else does (`climb_binding`): the leaf and the
siblings are the tree's. Nor does another tree, of any shape, have the root,
where no leaf is the hash of a pair (`root_inj`). What every leaf climbs to, by
whatever siblings, is the root (`root_of_climbs`).

`ofList` cuts a list of leaves in two by a rule on its length (`Cut`); what every
cut lowers bounds the depth (`depth_shape_le`). As many openings as there are
leaves, at different positions, are all of the leaves (`openings_perm`).
-/

namespace Framework

/-- A binary tree with its data at the leaves. -/
inductive Tree (α : Type*) where
  | leaf (a : α)
  | node (l r : Tree α)

namespace Tree

variable {α β : Type*}

/-- The number of leaves. -/
def size : Tree α → Nat
  | leaf _ => 1
  | node l r => l.size + r.size

/-- The leaves, left to right. -/
def toList : Tree α → List α
  | leaf a => [a]
  | node l r => l.toList ++ r.toList

/-- How far leaf `i` is below the root. -/
def depth : Tree α → Nat → Nat
  | leaf _, _ => 0
  | node l r, i => if i < l.size then l.depth i + 1 else r.depth (i - l.size) + 1

@[simp] theorem length_toList (t : Tree α) : t.toList.length = t.size := by
  induction t with
  | leaf a => rfl
  | node l r ihl ihr => simp [toList, size, ihl, ihr]

section Hash

variable (h : α → α → α)

/-- The hash of the tree. -/
def root : Tree α → α
  | leaf a => a
  | node l r => h l.root r.root

/-- The pairs hashed for the root. -/
def pairs : Tree α → List (α × α)
  | leaf _ => []
  | node l r => (l.root h, r.root h) :: (l.pairs ++ r.pairs)

/-- The siblings on the way from leaf `i` to the root, innermost first. -/
def siblings : Tree α → Nat → List α
  | leaf _, _ => []
  | node l r, i =>
    if i < l.size then l.siblings i ++ [r.root h] else r.siblings (i - l.size) ++ [l.root h]

/-- The root reached from `x` at leaf `i` with the siblings `p`, if `p` has the
length of the way. -/
def climb : Tree β → Nat → α → List α → Option α
  | leaf _, _, x, p => if p.isEmpty then some x else none
  | node l r, i, x, p =>
    match p.getLast? with
    | none => none
    | some outer =>
      if i < l.size then (l.climb i x p.dropLast).map (h · outer)
      else (r.climb (i - l.size) x p.dropLast).map (h outer ·)

/-- The pairs hashed on a climb. -/
def climbPairs : Tree β → Nat → α → List α → List (α × α)
  | leaf _, _, _, _ => []
  | node l r, i, x, p =>
    match p.getLast? with
    | none => []
    | some outer =>
      if i < l.size then
        l.climbPairs i x p.dropLast ++ ((l.climb h i x p.dropLast).map ((·, outer))).toList
      else
        r.climbPairs (i - l.size) x p.dropLast ++
          ((r.climb h (i - l.size) x p.dropLast).map ((outer, ·))).toList

variable {h}

@[simp] theorem length_siblings (t : Tree α) (i : Nat) : (t.siblings h i).length = t.depth i := by
  induction t generalizing i with
  | leaf a => rfl
  | node l r ihl ihr =>
    rw [siblings, depth]
    split <;> simp [ihl, ihr]

/-- A climb takes as many siblings as the leaf is deep. -/
theorem climb_isSome (t : Tree β) {i : Nat} {x : α} {p : List α} :
    (∃ r, t.climb h i x p = some r) ↔ p.length = t.depth i := by
  induction t generalizing i p with
  | leaf a => cases p <;> simp [climb, depth]
  | node l r ihl ihr =>
    rw [climb, depth]
    cases hp : p.getLast? with
    | none =>
      obtain rfl := List.getLast?_eq_none_iff.mp hp
      by_cases hl : i < l.size <;> simp [hl]
    | some outer =>
      have hlen : p.length = p.dropLast.length + 1 := by
        rw [← List.dropLast_append_getLast? _ hp]; simp
      simp only [hlen]
      split
      · simpa using ihl (i := i) (p := p.dropLast)
      · simpa using ihr (i := i - l.size) (p := p.dropLast)

/-- The climb over a node ends at the hash of a pair: the end of the climb below
it and the last sibling. -/
theorem climb_node {l r : Tree β} {i : Nat} {x y : α} {p : List α}
    (hc : (node l r).climb h i x p = some y) : ∃ q ∈ (node l r).climbPairs h i x p, y = h q.1 q.2 ∧
      (i < l.size → l.climb h i x p.dropLast = some q.1) ∧
      (¬ i < l.size → r.climb h (i - l.size) x p.dropLast = some q.2) := by
  rw [climb] at hc
  rw [climbPairs]
  cases hp : p.getLast? with
  | none => rw [hp] at hc; cases hc
  | some outer =>
    rw [hp] at hc
    by_cases hl : i < l.size
    · simp only [hl, if_true, Option.map_eq_some_iff] at hc
      obtain ⟨left, hleft, rfl⟩ := hc
      exact ⟨(left, outer), by simp [hl, hleft], rfl, fun _ => hleft, fun hr => absurd hl hr⟩
    · simp only [hl, if_false, Option.map_eq_some_iff] at hc
      obtain ⟨right, hright, rfl⟩ := hc
      exact ⟨(outer, right), by simp [hl, hright], rfl, fun hl' => absurd hl' hl, fun _ => hright⟩

/-- A climb ends at its leaf or at the hash of a pair. -/
theorem climb_cases (t : Tree β) {i : Nat} {x r : α} {p : List α} (hc : t.climb h i x p = some r) :
    r = x ∨ ∃ q ∈ t.climbPairs h i x p, r = h q.1 q.2 := by
  cases t with
  | leaf a =>
    rw [climb] at hc
    split at hc
    · exact .inl (Option.some.inj hc).symm
    · cases hc
  | node l r =>
    obtain ⟨q, hq, hend, -⟩ := climb_node hc
    exact .inr ⟨q, hq, hend⟩

/-- A leaf climbs to the root by its siblings. -/
theorem climb_siblings (t : Tree α) {i : Nat} {x : α} (hx : t.toList[i]? = some x) :
    t.climb h i x (t.siblings h i) = some (t.root h) := by
  induction t generalizing i with
  | leaf a =>
    obtain ⟨hi, rfl⟩ := List.getElem?_eq_some_iff.mp hx
    simp [climb, siblings, root, toList]
  | node l r ihl ihr =>
    rw [toList] at hx
    by_cases hi : i < l.size
    · rw [List.getElem?_append_left (by simpa using hi)] at hx
      simp [climb, siblings, hi, ihl hx, root]
    · rw [List.getElem?_append_right (by simpa using hi), length_toList] at hx
      simp [climb, siblings, hi, ihr hx, root]

/-- What climbs to the root is the leaf with its siblings, unless two of the
pairs hashed collide. -/
theorem climb_binding (t : Tree α) {i : Nat} {x : α} {p : List α} (hi : i < t.size)
    (hinj : ∀ q ∈ t.pairs h, ∀ q' ∈ t.climbPairs h i x p, h q.1 q.2 = h q'.1 q'.2 → q = q')
    (hc : t.climb h i x p = some (t.root h)) : t.toList[i]? = some x ∧ p = t.siblings h i := by
  induction t generalizing i p with
  | leaf a =>
    have h0 : i = 0 := by simp only [size] at hi; omega
    subst h0
    simp only [climb, root] at hc
    split at hc <;> [rename_i hp; cases hc]
    exact ⟨by simpa [toList] using hc.symm, by simpa [siblings] using hp⟩
  | node l r ihl ihr =>
    rw [climb] at hc
    rw [climbPairs] at hinj
    cases hp : p.getLast? with
    | none => rw [hp] at hc; cases hc
    | some outer =>
      have hsplit : p = p.dropLast ++ [outer] := (List.dropLast_append_getLast? _ hp).symm
      simp only [hp] at hc hinj
      by_cases hl : i < l.size
      · simp only [hl, if_true, Option.map_eq_some_iff] at hc hinj
        obtain ⟨left, hleft, hroot⟩ := hc
        rw [hleft] at hinj
        -- the outermost pairs agree, so the climb below reaches the left child
        have htop : (l.root h, r.root h) = (left, outer) :=
          hinj _ (by simp [pairs]) _ (by simp) (by simpa [root] using hroot.symm)
        simp only [Prod.mk.injEq] at htop
        obtain ⟨hget, hsib⟩ := ihl (p := p.dropLast) hl
          (fun q hq q' hq' => hinj q (by simp [pairs, hq]) q' (by simp [hq']))
          (by rw [hleft, htop.1])
        refine ⟨?_, ?_⟩
        · rwa [toList, List.getElem?_append_left (by simpa using hl)]
        · rw [siblings, if_pos hl, ← hsib, htop.2]; exact hsplit
      · simp only [hl, if_false, Option.map_eq_some_iff] at hc hinj
        obtain ⟨right, hright, hroot⟩ := hc
        rw [hright] at hinj
        have htop : (l.root h, r.root h) = (outer, right) :=
          hinj _ (by simp [pairs]) _ (by simp) (by simpa [root] using hroot.symm)
        simp only [Prod.mk.injEq] at htop
        obtain ⟨hget, hsib⟩ := ihr (i := i - l.size) (p := p.dropLast)
          (by simp only [size] at hi; omega)
          (fun q hq q' hq' => hinj q (by simp [pairs, hq]) q' (by simp [hq']))
          (by rw [hright, htop.2])
        refine ⟨?_, ?_⟩
        · rwa [toList, List.getElem?_append_right (by simpa using hl), length_toList]
        · rw [siblings, if_neg hl, ← hsib, htop.1]; exact hsplit

theorem size_pos (t : Tree α) : 0 < t.size := by
  induction t with
  | leaf a => exact Nat.one_pos
  | node l r ihl ihr => exact Nat.add_pos_left ihl r.size

/-- The pairs hashed on the climb below a node are hashed on the climb. -/
theorem mem_climbPairs_node {l r : Tree β} {i : Nat} {x : α} {p : List α} {q q' : α × α}
    (hq : q ∈ (node l r).climbPairs h i x p) (hq' : q' ∈ if i < l.size then
      l.climbPairs h i x p.dropLast else r.climbPairs h (i - l.size) x p.dropLast) :
    q' ∈ (node l r).climbPairs h i x p := by
  rw [climbPairs] at hq ⊢
  cases hp : p.getLast? with
  | none => rw [hp] at hq; cases hq
  | some outer =>
    by_cases hl : i < l.size
    · simp only [hl, if_true] at hq' ⊢
      exact List.mem_append_left _ hq'
    · simp only [hl, if_false] at hq' ⊢
      exact List.mem_append_left _ hq'

/-- Where every leaf climbs to one end, by whatever siblings, the end is the root,
unless two of the pairs hashed collide. -/
theorem root_of_climbs (t : Tree α) {y : α} {P : α × α → Prop}
    (hinj : ∀ q q', P q → P q' → h q.1 q.2 = h q'.1 q'.2 → q = q')
    (hc : ∀ i x, t.toList[i]? = some x → ∃ p, t.climb h i x p = some y ∧
      ∀ q ∈ t.climbPairs h i x p, P q) : t.root h = y := by
  induction t generalizing y with
  | leaf a =>
    obtain ⟨p, hp, -⟩ := hc 0 a rfl
    rw [climb] at hp
    split at hp
    · exact Option.some.inj hp
    · cases hp
  | node l r ihl ihr =>
    -- the first climb ends at the hash of a pair, and so do the others: it is one pair
    obtain ⟨x, hx⟩ : ∃ x, (node l r).toList[0]? = some x :=
      ⟨_, List.getElem?_eq_getElem (by simpa using (node l r).size_pos)⟩
    obtain ⟨p, hp, hpairs⟩ := hc 0 x hx
    obtain ⟨top, htop, rfl, -⟩ := climb_node hp
    have htop := hpairs top htop
    have hbelow : ∀ i x, (node l r).toList[i]? = some x → ∃ p q, q ∈ (node l r).climbPairs h i x p ∧
        (∀ q ∈ (node l r).climbPairs h i x p, P q) ∧
        (i < l.size → l.climb h i x p.dropLast = some top.1) ∧
        (¬ i < l.size → r.climb h (i - l.size) x p.dropLast = some top.2) := by
      intro i x hx
      obtain ⟨p, hp, hpairs⟩ := hc i x hx
      obtain ⟨q, hq, hend, hleft, hright⟩ := climb_node hp
      obtain rfl := hinj top q htop (hpairs q hq) hend
      exact ⟨p, top, hq, hpairs, hleft, hright⟩
    have hl : l.root h = top.1 := by
      refine ihl fun i x hx => ?_
      have hi : i < l.size := by simpa using (List.getElem?_eq_some_iff.mp hx).1
      obtain ⟨p, q, hq, hpairs, hleft, -⟩ := hbelow i x (by
        rwa [toList, List.getElem?_append_left (by simpa using hi)])
      exact ⟨_, hleft hi, fun q' hq' => hpairs q' (mem_climbPairs_node hq (by rwa [if_pos hi]))⟩
    have hr : r.root h = top.2 := by
      refine ihr fun i x hx => ?_
      have hi : ¬ i + l.size < l.size := by omega
      obtain ⟨p, q, hq, hpairs, -, hright⟩ := hbelow (i + l.size) x (by
        rwa [toList, List.getElem?_append_right (by simp), length_toList, Nat.add_sub_cancel])
      have hright := hright hi
      rw [Nat.add_sub_cancel] at hright
      refine ⟨_, hright, fun q' hq' => hpairs q' (mem_climbPairs_node hq ?_)⟩
      rwa [if_neg hi, Nat.add_sub_cancel]
    rw [root, hl, hr]

/-- The root of a tree is its leaf or the hash of a pair. -/
theorem root_cases (t : Tree α) :
    t.root h ∈ t.toList ∨ ∃ q ∈ t.pairs h, t.root h = h q.1 q.2 := by
  cases t with
  | leaf a => exact .inl List.mem_cons_self
  | node l r => exact .inr ⟨_, List.mem_cons_self, rfl⟩

/-- Trees with one root are the same, whatever their sizes, unless two of the
pairs hashed collide or a leaf of one is the hash of a pair of the other. -/
theorem root_inj {t u : Tree α}
    (hpairs : ∀ q ∈ t.pairs h, ∀ q' ∈ u.pairs h, h q.1 q.2 = h q'.1 q'.2 → q = q')
    (hleft : ∀ a ∈ t.toList, ∀ q ∈ u.pairs h, a ≠ h q.1 q.2)
    (hright : ∀ a ∈ u.toList, ∀ q ∈ t.pairs h, a ≠ h q.1 q.2)
    (hroot : t.root h = u.root h) : t = u := by
  induction t generalizing u with
  | leaf a =>
    cases u with
    | leaf b => exact congrArg leaf hroot
    | node l r => exact absurd hroot (hleft a List.mem_cons_self _ List.mem_cons_self)
  | node l r ihl ihr =>
    cases u with
    | leaf b => exact absurd hroot.symm (hright b List.mem_cons_self _ List.mem_cons_self)
    | node l' r' =>
      have htop : (l.root h, r.root h) = (l'.root h, r'.root h) :=
        hpairs _ List.mem_cons_self _ List.mem_cons_self hroot
      simp only [Prod.mk.injEq] at htop
      have hl := ihl (u := l') (fun q hq q' hq' => hpairs q (by simp [pairs, hq]) q' (by simp [pairs, hq']))
        (fun a ha q hq => hleft a (by simp [toList, ha]) q (by simp [pairs, hq]))
        (fun a ha q hq => hright a (by simp [toList, ha]) q (by simp [pairs, hq])) htop.1
      have hr := ihr (u := r') (fun q hq q' hq' => hpairs q (by simp [pairs, hq]) q' (by simp [pairs, hq']))
        (fun a ha q hq => hleft a (by simp [toList, ha]) q (by simp [pairs, hq]))
        (fun a ha q hq => hright a (by simp [toList, ha]) q (by simp [pairs, hq])) htop.2
      rw [hl, hr]

end Hash

/-! ## Trees of lists -/

/-- Where a list of two or more leaves is cut, by its length: both parts are
nonempty. -/
structure Cut where
  point : Nat → Nat
  pos : ∀ n, 2 ≤ n → 0 < point n
  lt : ∀ n, 2 ≤ n → point n < n

theorem Cut.take_ne_nil (c : Cut) {as : List α} (h2 : 2 ≤ as.length) :
    as.take (c.point as.length) ≠ [] := by
  have hpos := c.pos _ h2
  exact List.ne_nil_of_length_pos (by rw [List.length_take]; omega)

theorem Cut.drop_ne_nil (c : Cut) {as : List α} (h2 : 2 ≤ as.length) :
    as.drop (c.point as.length) ≠ [] := by
  have hlt := c.lt _ h2
  exact List.ne_nil_of_length_pos (by rw [List.length_drop]; omega)

theorem two_le_length {as : List α} (hne : as ≠ []) (hl : ¬ as.length = 1) : 2 ≤ as.length := by
  have := List.length_pos_of_ne_nil hne
  omega

/-- The tree of a nonempty list of leaves. -/
def ofList (c : Cut) (as : List α) (hne : as ≠ []) : Tree α :=
  if hl : as.length = 1 then leaf (as.head hne)
  else
    node (ofList c (as.take (c.point as.length)) (c.take_ne_nil (two_le_length hne hl)))
      (ofList c (as.drop (c.point as.length)) (c.drop_ne_nil (two_le_length hne hl)))
termination_by as.length
decreasing_by
  all_goals
    have hpos := c.pos _ (two_le_length hne hl)
    have hlt := c.lt _ (two_le_length hne hl)
    simp only [List.length_take, List.length_drop]; omega

theorem ofList_one (c : Cut) {as : List α} (hne : as ≠ []) (hl : as.length = 1) :
    ofList c as hne = leaf (as.head hne) := by
  rw [ofList, dif_pos hl]

theorem ofList_cut (c : Cut) {as : List α} (hne : as ≠ []) (h2 : 2 ≤ as.length) :
    ofList c as hne = node (ofList c (as.take (c.point as.length)) (c.take_ne_nil h2))
      (ofList c (as.drop (c.point as.length)) (c.drop_ne_nil h2)) := by
  conv_lhs => rw [ofList, dif_neg (by omega)]

/-- The leaves of the tree of a list are the list. -/
@[simp] theorem toList_ofList (c : Cut) (as : List α) (hne : as ≠ []) :
    (ofList c as hne).toList = as := by
  by_cases hl : as.length = 1
  · obtain ⟨a, rfl⟩ := List.length_eq_one_iff.mp hl
    rw [ofList_one c hne hl]; rfl
  · have h2 := two_le_length hne hl
    have hpos := c.pos _ h2
    have hlt := c.lt _ h2
    rw [ofList_cut c hne h2, toList, toList_ofList c (as.take _), toList_ofList c (as.drop _),
      List.take_append_drop]
termination_by as.length
decreasing_by all_goals simp only [List.length_take, List.length_drop]; omega

@[simp] theorem size_ofList (c : Cut) (as : List α) (hne : as ≠ []) :
    (ofList c as hne).size = as.length := by
  rw [← length_toList, toList_ofList]

/-! ## Shapes -/

/-- The tree with `f` of every leaf. -/
def map (f : α → β) : Tree α → Tree β
  | leaf a => leaf (f a)
  | node l r => node (l.map f) (r.map f)

@[simp] theorem size_map (f : α → β) (t : Tree α) : (t.map f).size = t.size := by
  induction t with
  | leaf a => rfl
  | node l r ihl ihr => simp [map, size, ihl, ihr]

@[simp] theorem depth_map (f : α → β) (t : Tree α) (i : Nat) : (t.map f).depth i = t.depth i := by
  induction t generalizing i with
  | leaf a => rfl
  | node l r ihl ihr => simp only [map, depth, size_map, ihl, ihr]

theorem climb_map {γ : Type*} (h : γ → γ → γ) (f : α → β) (t : Tree α) (i : Nat) (x : γ)
    (p : List γ) : (t.map f).climb h i x p = t.climb h i x p := by
  induction t generalizing i p with
  | leaf a => rfl
  | node l r ihl ihr => simp only [map, climb, size_map, ihl, ihr]

theorem climbPairs_map {γ : Type*} (h : γ → γ → γ) (f : α → β) (t : Tree α) (i : Nat) (x : γ)
    (p : List γ) : (t.map f).climbPairs h i x p = t.climbPairs h i x p := by
  induction t generalizing i p with
  | leaf a => rfl
  | node l r ihl ihr => simp only [map, climbPairs, size_map, climb_map, ihl, ihr]

theorem ofList_map (c : Cut) (f : α → β) (as : List α) (hne : as ≠ []) :
    ofList c (as.map f) (by simpa using hne) = (ofList c as hne).map f := by
  by_cases hl : as.length = 1
  · obtain ⟨a, rfl⟩ := List.length_eq_one_iff.mp hl
    rw [ofList_one c hne hl, ofList_one c _ (by simp)]; rfl
  · have h2 := two_le_length hne hl
    have hpos := c.pos _ h2
    have hlt := c.lt _ h2
    rw [ofList_cut c hne h2, ofList_cut c _ (by simpa using h2), map,
      ← ofList_map c f (as.take _), ← ofList_map c f (as.drop _)]
    simp only [List.length_map, List.map_take, List.map_drop]
termination_by as.length
decreasing_by all_goals simp only [List.length_take, List.length_drop]; omega

/-- The shape of a tree of `n` leaves. -/
def shape (c : Cut) (n : Nat) (hn : n ≠ 0) : Tree Unit :=
  ofList c (List.replicate n ()) (by simpa using hn)

theorem shape_one (c : Cut) : shape c 1 (by decide) = leaf () := by
  rw [shape, ofList_one c _ rfl]

theorem shape_cut (c : Cut) {n : Nat} (h2 : 2 ≤ n) : shape c n (by omega) =
    node (shape c (c.point n) (Nat.ne_of_gt (c.pos n h2)))
      (shape c (n - c.point n) (Nat.sub_ne_zero_of_lt (c.lt n h2))) := by
  have hlt := c.lt n h2
  simp only [shape]
  rw [ofList_cut c _ (by simpa using h2)]
  simp only [List.length_replicate, List.take_replicate, List.drop_replicate,
    Nat.min_eq_left (Nat.le_of_lt hlt)]

@[simp] theorem size_shape (c : Cut) (n : Nat) (hn : n ≠ 0) : (shape c n hn).size = n := by
  simp [shape]

/-- No leaf is deeper than a measure of the number of leaves that every cut
lowers. -/
theorem depth_shape_le (c : Cut) {m : Nat → Nat} {bound : Nat}
    (hm : ∀ n, 2 ≤ n → n ≤ bound → m (c.point n) < m n ∧ m (n - c.point n) < m n) {n : Nat} (hn : n ≠ 0)
    (hbound : n ≤ bound) (i : Nat) : (shape c n hn).depth i ≤ m n := by
  by_cases h1 : n = 1
  · subst h1
    rw [shape_one]
    exact Nat.zero_le _
  · have h2 : 2 ≤ n := by omega
    have hpos := c.pos n h2
    have hlt := c.lt n h2
    obtain ⟨hleft, hright⟩ := hm n h2 hbound
    rw [shape_cut c h2, depth]
    split
    · exact Nat.succ_le_of_lt ((depth_shape_le c hm _ (by omega) i).trans_lt hleft)
    · exact Nat.succ_le_of_lt ((depth_shape_le c hm _ (by omega) _).trans_lt hright)
termination_by n

/-- The tree of a list has the shape of its length. -/
theorem map_ofList (c : Cut) (as : List α) (hne : as ≠ []) :
    (ofList c as hne).map (fun _ => ()) =
      shape c as.length (by simpa using hne) := by
  rw [← ofList_map, shape]
  simp only [List.map_const']

end Tree

/-! ## Opening every leaf -/

/-- As many different positions as there are, are all of them. -/
theorem positions_perm {β : Type*} {os : List β} {index : β → Nat} {n : Nat} (hlen : os.length = n)
    (hnodup : (os.map index).Nodup) (hlt : ∀ o ∈ os, index o < n) :
    (os.map index).Perm (List.range n) := by
  have hsub : os.map index ⊆ List.range n := by
    intro i hi
    obtain ⟨o, ho, rfl⟩ := List.mem_map.mp hi
    exact List.mem_range.mpr (hlt o ho)
  exact (List.subperm_of_subset hnodup hsub).perm_of_length_le (by simp [hlen])

/-- Openings at as many different positions as there are leaves open every
leaf once. -/
theorem openings_perm {α β : Type*} {as : List α} {os : List β} {index : β → Nat} {val : β → α}
    (hlen : os.length = as.length) (hnodup : (os.map index).Nodup)
    (hopen : ∀ o ∈ os, as[index o]? = some (val o)) : (os.map val).Perm as := by
  have hperm := positions_perm hlen hnodup fun o ho => (List.getElem?_eq_some_iff.mp (hopen o ho)).1
  -- the leaves read at the positions, in either order
  have hopened : (os.map index).map (as[·]?) = (os.map val).map some := by
    rw [List.map_map, List.map_map]
    exact List.map_congr_left hopen
  have hleaves : (List.range as.length).map (as[·]?) = as.map some :=
    List.ext_getElem (by simp) fun i _ _ => by simp
  have hsome := hperm.map (as[·]?)
  rw [hopened, hleaves] at hsome
  exact (List.map_perm_map_iff (fun _ _ => Option.some.inj)).mp hsome

end Framework
