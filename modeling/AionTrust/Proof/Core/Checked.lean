import AionTrust.Impl.Core.Checked
import AionTrust.Proof.Core.Merkle

/-!
# The recursion stays in range

The loop of `splitPoint` turns a number of times and ends (`splitPoint_turns`),
at the power of two that halves the length or more (`splitPoint_spec`). So the
logarithm of the length falls with every cut (`splitPoint_clog`): the checked
recursion meets no fault within that depth (`mth_checked`, `path_checked`,
`rootFromPath_checked`), and an audit path is no longer.
-/

namespace AionTrust.Proof

open AionTrust.Impl
open Framework (Tree ensure_true ok_bind)

/-! ## The split point -/

/-- What the loop of `splitPoint` has after so many turns. -/
def doubled (turns : Nat) : Nat := (saturatingMul · 2)^[turns] 1

/-- The loop turns until its guard fails, or its fuel is spent. -/
theorem splitPointLoop_turns (n fuel k : Nat) : ∃ turns ≤ fuel,
    splitPointLoop n fuel k = (saturatingMul · 2)^[turns] k ∧
      ∀ i < turns, saturatingMul ((saturatingMul · 2)^[i] k) 2 < n := by
  induction fuel generalizing k with
  | zero => exact ⟨0, Nat.le_refl 0, rfl, nofun⟩
  | succ fuel ih =>
    rw [splitPointLoop]
    split
    · rename_i hguard
      obtain ⟨turns, hle, hloop, hguards⟩ := ih (saturatingMul k 2)
      refine ⟨turns + 1, Nat.succ_le_succ hle, hloop, fun i hi => ?_⟩
      cases i with
      | zero => exact hguard
      | succ i => exact hguards i (Nat.lt_of_succ_lt_succ hi)
    · exact ⟨0, Nat.zero_le _, rfl, nofun⟩

/-- It ends by its guard, at a power of two. -/
theorem splitPoint_turns {n : Nat} (h2 : 2 ≤ n) (hn : n ≤ usizeMax) : ∃ turns,
    splitPoint n = doubled turns ∧ (∀ i < turns, saturatingMul (doubled i) 2 < n) ∧
      ¬ saturatingMul (doubled turns) 2 < n ∧ ∃ j, doubled turns = 2 ^ j := by
  obtain ⟨turns, -, hloop, hguards⟩ := splitPointLoop_turns n 64 1
  obtain ⟨j, hpow, -, hle⟩ := splitPoint_spec h2 hn
  have hdoubled : splitPoint n = doubled turns := hloop
  refine ⟨turns, hdoubled, hguards, ?_, j, hdoubled.symm.trans hpow⟩
  rw [← hdoubled, hpow, saturatingMul, ← pow_succ, not_lt]
  exact Nat.le_min.mpr ⟨hle, hn⟩

theorem le_twice_splitPoint {n : Nat} (h2 : 2 ≤ n) (hn : n ≤ usizeMax) : n ≤ 2 * splitPoint n := by
  obtain ⟨j, hpow, -, hle⟩ := splitPoint_spec h2 hn
  rwa [hpow, ← pow_succ']

/-- Both parts of a cut have a smaller logarithm. -/
theorem splitPoint_clog {n : Nat} (h2 : 2 ≤ n) (hn : n ≤ usizeMax) :
    Nat.clog 2 (splitPoint n) < Nat.clog 2 n ∧ Nat.clog 2 (n - splitPoint n) < Nat.clog 2 n := by
  obtain ⟨j, hpow, hlt, -⟩ := splitPoint_spec h2 hn
  have hleft : Nat.clog 2 (splitPoint n) < Nat.clog 2 n := by
    rw [hpow, Nat.clog_pow 2 j (by decide)]
    exact (Nat.lt_clog_iff_pow_lt (by decide)).mpr hlt
  have hright : n - splitPoint n ≤ splitPoint n := by
    have := le_twice_splitPoint h2 hn
    omega
  exact ⟨hleft, (Nat.clog_mono_right 2 hright).trans_lt hleft⟩

/-! ## The recursion -/

theorem splitAt_eq {leaves : List Digest} {mid : Nat} (h : mid ≤ leaves.length) :
    Checked.splitAt leaves mid = .ok (leaves.take mid, leaves.drop mid) := by
  rw [Checked.splitAt, ensure_true h]
  rfl

theorem sub_eq {a b : Nat} (h : b ≤ a) : Checked.sub a b = .ok (a - b) := by
  rw [Checked.sub, ensure_true h]
  rfl

theorem length_take_splitPoint {leaves : List Digest} (h2 : 2 ≤ leaves.length) :
    (leaves.take (splitPoint leaves.length)).length = splitPoint leaves.length :=
  List.length_take_of_le (splitPoint_lt h2).le

/-- A part of a cut fits, and has a smaller logarithm. -/
structure Smaller (part leaves : List Digest) : Prop where
  fits : part.length ≤ usizeMax
  clog : Nat.clog 2 part.length < Nat.clog 2 leaves.length

theorem take_smaller {leaves : List Digest} (h2 : 2 ≤ leaves.length) (hmax : leaves.length ≤ usizeMax) :
    Smaller (leaves.take (splitPoint leaves.length)) leaves where
  fits := (List.take_sublist _ _).length_le.trans hmax
  clog := by
    rw [length_take_splitPoint h2]
    exact (splitPoint_clog h2 hmax).1

theorem drop_smaller {leaves : List Digest} (h2 : 2 ≤ leaves.length) (hmax : leaves.length ≤ usizeMax) :
    Smaller (leaves.drop (splitPoint leaves.length)) leaves where
  fits := (List.drop_sublist _ _).length_le.trans hmax
  clog := by
    rw [List.length_drop]
    exact (splitPoint_clog h2 hmax).2

section

variable [External]

/-- `mth` of a list of two leaves or more. -/
theorem mth_cut {leaves : List Digest} (hne : leaves ≠ []) (h2 : 2 ≤ leaves.length) :
    mth leaves hne = nodeHash (mth (leaves.take (splitPoint leaves.length)) (take_splitPoint_ne_nil h2))
      (mth (leaves.drop (splitPoint leaves.length)) (drop_splitPoint_ne_nil h2)) := by
  conv_lhs => rw [mth, dif_neg (by omega)]

theorem mth_checked {limit : Nat} {leaves : List Digest} (hne : leaves ≠ []) (hmax : leaves.length ≤ usizeMax)
    (hlimit : Nat.clog 2 leaves.length < limit) : Checked.mth limit leaves = .ok (mth leaves hne) := by
  induction limit generalizing leaves with
  | zero => exact absurd hlimit (Nat.not_lt_zero _)
  | succ limit ih =>
    by_cases hl : leaves.length = 1
    · obtain ⟨single, rfl⟩ := List.length_eq_one_iff.mp hl
      rw [mth, dif_pos hl]
      rfl
    · have h2 := Tree.two_le_length hne hl
      rw [Checked.mth.eq_3 leaves limit fun single hsingle => hl (by rw [hsingle]; rfl), ensure_true hne, ok_bind]
      have hleft := take_smaller h2 hmax
      have hright := drop_smaller h2 hmax
      rw [splitAt_eq (splitPoint_lt h2).le, ok_bind]
      dsimp only
      rw [ih (take_splitPoint_ne_nil h2) hleft.fits (hleft.clog.trans_le (Nat.le_of_lt_succ hlimit)), ok_bind,
        ih (drop_splitPoint_ne_nil h2) hright.fits (hright.clog.trans_le (Nat.le_of_lt_succ hlimit)), ok_bind,
        mth_cut hne h2]
      rfl

theorem path_checked {limit : Nat} {leaves : List Digest} {index : Nat} (hindex : index < leaves.length)
    (hmax : leaves.length ≤ usizeMax) (hlimit : Nat.clog 2 leaves.length < limit) :
    Checked.path limit leaves index = .ok (path leaves index) := by
  induction limit generalizing leaves index with
  | zero => exact absurd hlimit (Nat.not_lt_zero _)
  | succ limit ih =>
    rw [Checked.path, ensure_true hindex, ok_bind, path]
    split
    · rfl
    · rename_i hl
      have h2 : 2 ≤ leaves.length := Nat.lt_of_not_le hl
      have hleft := take_smaller h2 hmax
      have hright := drop_smaller h2 hmax
      have hclogLeft := hleft.clog.trans_le (Nat.le_of_lt_succ hlimit)
      have hclogRight := hright.clog.trans_le (Nat.le_of_lt_succ hlimit)
      dsimp only
      rw [splitAt_eq (splitPoint_lt h2).le, ok_bind]
      dsimp only
      split
      · rename_i hin
        rw [ih (by rw [length_take_splitPoint h2]; exact hin) hleft.fits hclogLeft, ok_bind,
          mth_checked (drop_splitPoint_ne_nil h2) hright.fits hclogRight, ok_bind]
        rfl
      · rename_i hin
        rw [sub_eq (Nat.le_of_not_lt hin), ok_bind, ih (by rw [List.length_drop]; omega) hright.fits hclogRight,
          ok_bind, mth_checked (take_splitPoint_ne_nil h2) hleft.fits hclogLeft, ok_bind]
        rfl

theorem rootFromPath_checked (x : Digest) {limit index n : Nat} (p : List Digest) (hindex : index < n)
    (hmax : n ≤ usizeMax) (hlimit : Nat.clog 2 n < limit) :
    Checked.rootFromPath x limit index n p = .ok (rootFromPath x index n p) := by
  induction limit generalizing index n p with
  | zero => exact absurd hlimit (Nat.not_lt_zero _)
  | succ limit ih =>
    have hn : n ≠ 0 := by omega
    rw [Checked.rootFromPath, ensure_true hn, ok_bind, ensure_true hindex, ok_bind, rootFromPath, dif_neg hn,
      if_neg (Nat.not_le_of_lt hindex)]
    by_cases h1 : n = 1
    · rw [if_pos h1, dif_pos h1]
      rfl
    · have h2 : 2 ≤ n := by omega
      have hlt := splitPoint_lt h2
      have hpos := splitPoint_pos h2
      obtain ⟨hleft, hright⟩ := splitPoint_clog h2 hmax
      rw [if_neg h1, dif_neg h1]
      cases p.getLast? with
      | none => rfl
      | some outer =>
        dsimp only
        split
        · rename_i hin
          rw [ih p.dropLast hin (by omega) (by omega), ok_bind]
          cases rootFromPath x index (splitPoint n) p.dropLast <;> rfl
        · rename_i hin
          rw [sub_eq (Nat.le_of_not_lt hin), ok_bind, sub_eq hlt.le, ok_bind,
            ih p.dropLast (by omega) (by omega) (by omega), ok_bind]
          cases rootFromPath x (index - splitPoint n) (n - splitPoint n) p.dropLast <;> rfl

/-- An audit path is no longer than the logarithm of the number of leaves. -/
theorem length_path_le {leaves : List Digest} (hne : leaves ≠ []) (hmax : leaves.length ≤ usizeMax) (i : Nat) :
    (path leaves i).length ≤ Nat.clog 2 leaves.length := by
  rw [length_path hne]
  exact Tree.depth_shape_le splitCut (fun _ h2 hle => splitPoint_clog h2 hle) _ hmax i

/-- The loop of `splitPoint` ends, at a power of two inside the length and no
less than half of it. The recursion by it meets no fault within the logarithm of
the number of leaves, which no audit path exceeds; and a recomputed root fails for
the path only. -/
theorem split_point_exact :
    (∀ n, 2 ≤ n → n ≤ usizeMax →
      (∃ turns, splitPoint n = doubled turns ∧ (∀ i < turns, saturatingMul (doubled i) 2 < n) ∧
        ¬ saturatingMul (doubled turns) 2 < n) ∧
      (∃ j, splitPoint n = 2 ^ j) ∧ 1 ≤ splitPoint n ∧ splitPoint n < n ∧ n ≤ 2 * splitPoint n) ∧
    (∀ (leaves : List Digest) (hne : leaves ≠ []), leaves.length ≤ usizeMax →
      merkleRoot leaves = .ok (mth leaves hne) ∧
      Checked.mth (Nat.clog 2 leaves.length + 1) leaves = .ok (mth leaves hne) ∧
      ∀ i < leaves.length, auditPath leaves i = .ok (path leaves i) ∧
        Checked.path (Nat.clog 2 leaves.length + 1) leaves i = .ok (path leaves i) ∧
        (path leaves i).length ≤ Nat.clog 2 leaves.length) ∧
    ∀ (x : Digest) (i n : Nat) (p : List Digest), i < n → n ≤ usizeMax →
      Checked.rootFromPath x (Nat.clog 2 n + 1) i n p = .ok (rootFromPath x i n p) ∧
      ∀ e, rootFromPath x i n p = .error e → e = .malformedPath := by
  refine ⟨fun n h2 hn => ?_, fun leaves hne hmax => ?_, fun x i n p hi hn => ?_⟩
  · obtain ⟨turns, hturns, hguards, hends, j, hpow⟩ := splitPoint_turns h2 hn
    exact ⟨⟨turns, hturns, hguards, hends⟩, ⟨j, hturns.trans hpow⟩, splitPoint_pos h2, splitPoint_lt h2,
      le_twice_splitPoint h2 hn⟩
  · exact ⟨merkleRoot_ok hne, mth_checked hne hmax (Nat.lt_succ_self _), fun i hi =>
      ⟨auditPath_ok hi, path_checked hi hmax (Nat.lt_succ_self _), length_path_le hne hmax i⟩⟩
  · refine ⟨rootFromPath_checked x p hi hn (Nat.lt_succ_self _), fun e he => ?_⟩
    rw [rootFromPath_eq_climb x p (by omega) hi] at he
    cases hclimb : (Tree.shape splitCut n (by omega)).climb nodeHash i x p with
    | none =>
      rw [hclimb] at he
      exact (Except.error.inj he).symm
    | some r =>
      rw [hclimb] at he
      cases he

end

end AionTrust.Proof
