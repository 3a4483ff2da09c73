import Mathlib.Data.List.Nodup
import Mathlib.Data.List.Perm.Subperm
import AionTrust.Framework.Machine

/-!
# What came before

Rules that look back along a run. An entry of a trace splits the run there
(`trace_split`), and what a state holds was put there by an earlier step
(`origin`). A run's inputs so far are a ghost component (`all_withPast`). Where
every entry of one kind is matched with an earlier one of another, and no two
of them with the same, there are no more of the first than of the second
(`countP_le_of_matched`).
-/

namespace Framework

namespace Machine

variable {σ α β γ : Type*} {m : Machine σ α β}

theorem trace_append (s : σ) (as bs : List α) :
    m.trace s (as ++ bs) = m.trace s as ++ m.trace (m.final s as) bs := by
  induction as generalizing s with
  | nil => rfl
  | cons a as ih => simp [trace, ih]

/-- An entry of a trace answers its input in the state the run before it ends in. -/
theorem trace_split {s : σ} {as : List α} {pre post : List (α × β)} {x : α × β}
    (h : m.trace s as = pre ++ x :: post) : ∃ as₁ as₂, as = as₁ ++ x.1 :: as₂ ∧
      pre = m.trace s as₁ ∧ x.2 = (m.step (m.final s as₁) x.1).2 := by
  induction pre generalizing s as with
  | nil =>
    cases as with
    | nil => cases h
    | cons a as =>
      obtain ⟨rfl, -⟩ := List.cons.inj h
      exact ⟨[], as, rfl, rfl, rfl⟩
  | cons y pre ih =>
    cases as with
    | nil => cases h
    | cons a as =>
      obtain ⟨rfl, hrest⟩ := List.cons.inj h
      obtain ⟨as₁, as₂, rfl, rfl, hx⟩ := ih hrest
      exact ⟨a :: as₁, as₂, rfl, rfl, hx⟩

theorem answer_of_mem_trace {s : σ} {as : List α} {x : α × β} (h : x ∈ m.trace s as) :
    ∃ t, x.2 = (m.step t x.1).2 := by
  obtain ⟨pre, post, hsplit⟩ := List.append_of_mem h
  obtain ⟨as₁, -, -, -, hx⟩ := trace_split hsplit
  exact ⟨_, hx⟩

/-- What the state a run ends in holds, and the one it starts in does not, was
put there by a step. -/
theorem origin {Q : σ → γ → Prop} {R : γ → α → Prop}
    (hstep : ∀ s a c, Q (m.step s a).1 c → Q s c ∨ R c a) {s : σ} {as : List α} {c : γ}
    (h : Q (m.final s as) c) (h₀ : ¬ Q s c) : ∃ pre a post, as = pre ++ a :: post ∧ R c a := by
  induction as generalizing s with
  | nil => exact absurd h h₀
  | cons a as ih =>
    by_cases hnext : Q (m.step s a).1 c
    · exact ⟨[], a, as, rfl, (hstep s a c hnext).resolve_left h₀⟩
    · obtain ⟨pre, b, post, rfl, hb⟩ := ih h hnext
      exact ⟨a :: pre, b, post, rfl, hb⟩

/-- A relation between any two inputs of a run, of the earlier ones that a ghost
component keeps and the next. -/
theorem all_withPast {T : α → α → Prop} {s : σ} {past as : List α}
    (hpast : ∀ a ∈ past, ∀ b ∈ as, T a b) (has : as.Pairwise T) :
    (m.withGhost fun past a => a :: past).All (fun s a => ∀ b ∈ s.2, T b a) (s, past) as := by
  induction as generalizing s past with
  | nil => trivial
  | cons a as ih =>
    obtain ⟨hfirst, hrest⟩ := List.pairwise_cons.mp has
    refine ⟨fun b hb => hpast b hb a List.mem_cons_self, ih (fun b hb c hc => ?_) hrest⟩
    rcases List.mem_cons.mp hb with rfl | hb
    · exact hfirst c hc
    · exact hpast b hb c (List.mem_cons_of_mem _ hc)

end Machine

/-! ## Matching -/

section

variable {γ : Type*}

/-- Every entry of kind `A` comes after one it is matched with. -/
def Matched (R : γ → γ → Prop) (A : γ → Prop) (entries : List γ) : Prop :=
  ∀ pre y post, entries = pre ++ y :: post → A y → ∃ x ∈ pre, R x y

/-- Where every entry of kind `A` is matched with one of kind `B`, and no two
with the same one, there are no more of kind `A` than of kind `B`. -/
theorem countP_le_of_matched {R : γ → γ → Prop} {A B : γ → Bool} {entries : List γ}
    (hB : ∀ x y, R x y → B x = true) (h : Matched R (fun y => A y = true) entries)
    (honce : entries.Pairwise fun y y' => A y = true → A y' = true → ∀ x, R x y → ¬ R x y') :
    entries.countP A ≤ entries.countP B := by
  have hmatched : ∀ y : γ, ∃ x : γ, y ∈ entries.filter A → x ∈ entries.filter B ∧ R x y := by
    intro y
    by_cases hy : y ∈ entries.filter A
    · obtain ⟨hmem, hA⟩ := List.mem_filter.mp hy
      obtain ⟨pre, post, hsplit⟩ := List.append_of_mem hmem
      obtain ⟨x, hx, hR⟩ := h pre y post hsplit hA
      exact ⟨x, fun _ => ⟨List.mem_filter.mpr ⟨by simp [hsplit, hx], hB x y hR⟩, hR⟩⟩
    · exact ⟨y, fun hmem => absurd hmem hy⟩
  choose f hf using hmatched
  have hnodup : ((entries.filter A).map f).Nodup := by
    rw [List.Nodup, List.pairwise_map]
    refine (honce.filter _).imp_of_mem fun hy hy' hne heq => ?_
    exact hne (List.of_mem_filter hy) (List.of_mem_filter hy') _ (hf _ hy).2 (heq ▸ (hf _ hy').2)
  have hsub : (entries.filter A).map f ⊆ entries.filter B := by
    intro x hx
    obtain ⟨y, hy, rfl⟩ := List.mem_map.mp hx
    exact (hf y hy).1
  rw [List.countP_eq_length_filter, List.countP_eq_length_filter]
  simpa using (List.subperm_of_subset hnodup hsub).length_le

end

end Framework
