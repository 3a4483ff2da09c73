import Mathlib.Data.List.Basic
import Mathlib.Order.WithBot
import Mathlib.Tactic.Common

/-!
# Machines and their runs

A machine answers each input and moves on (`Machine`); a run gives the state
it ends in (`final`) and the inputs with their answers (`trace`). `All P` says
that every step of a run satisfies `P` in the state it starts from; it is what
a run's assumptions are stated with (`all_iff_split`).

The rules go from one step to a run: an invariant (`final_induction`), a
property that holds for good once it holds (`stable_iff`), and a relation
between every two steps of a run, carried by what the earlier one leaves in
the state (`trace_pairwise`), and a kind of step that has to come between two
of another kind (`trace_separates`). A ghost component does not change the run
(`trace_withGhost`); one is a clock (`all_withClock`), one a counter
(`all_withCounter`).

A machine that idles on some inputs gives the answers of another that never
sees them, where a relation between their states is kept (`trace_simulation`);
the relation may look at the inputs still to come.
-/

namespace Framework

/-- A state machine: what a step leads to, and what it answers. -/
structure Machine (σ α β : Type*) where
  step : σ → α → σ × β

namespace Machine

variable {σ α β γ : Type*} (m : Machine σ α β)

/-- The state a run ends in. -/
def final : σ → List α → σ
  | s, [] => s
  | s, a :: as => final (m.step s a).1 as

/-- The inputs of a run with their answers. -/
def trace : σ → List α → List (α × β)
  | _, [] => []
  | s, a :: as => (a, (m.step s a).2) :: trace (m.step s a).1 as

/-- Every step of a run satisfies `P` in the state it starts from. -/
def All (P : σ → α → Prop) : σ → List α → Prop
  | _, [] => True
  | s, a :: as => P s a ∧ All P (m.step s a).1 as

variable {m}

@[simp] theorem final_nil (s : σ) : m.final s [] = s := rfl

@[simp] theorem final_cons (s : σ) (a : α) (as : List α) :
    m.final s (a :: as) = m.final (m.step s a).1 as := rfl

theorem final_append (s : σ) (as bs : List α) :
    m.final s (as ++ bs) = m.final (m.final s as) bs := by
  induction as generalizing s with
  | nil => rfl
  | cons a as ih => simp [ih]

@[simp] theorem trace_map_fst (s : σ) (as : List α) : (m.trace s as).map Prod.fst = as := by
  induction as generalizing s with
  | nil => rfl
  | cons a as ih => simp [trace, ih]

theorem All.mono {P Q : σ → α → Prop} (hPQ : ∀ s a, P s a → Q s a) {s : σ} {as : List α}
    (h : m.All P s as) : m.All Q s as := by
  induction as generalizing s with
  | nil => trivial
  | cons a as ih => exact ⟨hPQ _ _ h.1, ih h.2⟩

theorem all_append {P : σ → α → Prop} {s : σ} {as bs : List α} :
    m.All P s (as ++ bs) ↔ m.All P s as ∧ m.All P (m.final s as) bs := by
  induction as generalizing s with
  | nil => simp [All]
  | cons a as ih => simp [All, ih, and_assoc]

theorem all_and {P Q : σ → α → Prop} {s : σ} {as : List α} :
    m.All (fun s a => P s a ∧ Q s a) s as ↔ m.All P s as ∧ m.All Q s as := by
  induction as generalizing s with
  | nil => simp [All]
  | cons a as ih => simp only [All, ih, and_and_and_comm]

theorem all_forall {ι : Sort*} {P : ι → σ → α → Prop} {s : σ} {as : List α} :
    m.All (fun s a => ∀ i, P i s a) s as ↔ ∀ i, m.All (P i) s as := by
  induction as generalizing s with
  | nil => simp [All]
  | cons a as ih => simp [All, ih, forall_and]

/-- `All P`, step by step. -/
theorem all_iff_split {P : σ → α → Prop} {s : σ} {as : List α} :
    m.All P s as ↔ ∀ pre a post, as = pre ++ a :: post → P (m.final s pre) a := by
  constructor
  · rintro h pre a post rfl
    exact (all_append.mp h).2.1
  · induction as generalizing s with
    | nil => exact fun _ => trivial
    | cons a as ih =>
      intro h
      refine ⟨h [] a as rfl, ih fun pre b post e => ?_⟩
      exact h (a :: pre) b post (by rw [e]; rfl)

/-- An invariant of the steps is one of the runs. -/
theorem final_induction {Inv : σ → Prop} {P : σ → α → Prop}
    (hstep : ∀ s a, P s a → Inv s → Inv (m.step s a).1) {s : σ} {as : List α}
    (h : m.All P s as) (hs : Inv s) : Inv (m.final s as) := by
  induction as generalizing s with
  | nil => exact hs
  | cons a as ih => exact ih h.2 (hstep _ _ h.1 hs)

/-- An invariant of the steps holds wherever a run steps from. -/
theorem all_invariant (Inv : σ → Prop) {P : σ → α → Prop}
    (hstep : ∀ s a, P s a → Inv s → Inv (m.step s a).1) {s : σ} {as : List α}
    (h : m.All P s as) (hs : Inv s) : m.All (fun s a => Inv s ∧ P s a) s as := by
  induction as generalizing s with
  | nil => trivial
  | cons a as ih => exact ⟨⟨hs, h.1⟩, ih h.2 (hstep _ _ h.1 hs)⟩

/-- A property holds for good from where it first holds on a run just when
no step of the run ends it. -/
theorem stable_iff {Q : σ → Prop} {s : σ} {as : List α} :
    (∀ pre mid post, as = pre ++ mid ++ post → Q (m.final s pre) → Q (m.final s (pre ++ mid))) ↔
      m.All (fun s a => Q s → Q (m.step s a).1) s as := by
  constructor
  · intro h
    refine all_iff_split.mpr fun pre a post e hq => ?_
    have := h pre [a] post (by simp [e]) hq
    simpa [final_append] using this
  · rintro h pre mid post rfl hq
    rw [final_append]
    exact final_induction (fun _ _ hk => hk) (all_append.mp (all_append.mp h).1).2 hq

/-- A relation between any two steps of a run: what the earlier one leaves in
the state (`Q`) is kept by the steps between them, and forces the relation on
the later one. -/
theorem trace_pairwise {P : σ → α → Prop} {R : α × β → α × β → Prop} (Q : α × β → σ → Prop)
    (hnew : ∀ s a, P s a → Q (a, (m.step s a).2) (m.step s a).1)
    (hkeep : ∀ x s a, P s a → Q x s → Q x (m.step s a).1)
    (hrel : ∀ x s a, P s a → Q x s → R x (a, (m.step s a).2)) {s : σ} {as : List α}
    (h : m.All P s as) : (m.trace s as).Pairwise R := by
  have hlater : ∀ (as : List α) (s : σ) (x : α × β), m.All P s as → Q x s →
      ∀ y ∈ m.trace s as, R x y := by
    intro as
    induction as with
    | nil => intro s x _ _ y hy; cases hy
    | cons a as ih =>
      intro s x h hq y hy
      rcases List.mem_cons.mp hy with rfl | hy
      · exact hrel x s a h.1 hq
      · exact ih _ x h.2 (hkeep x s a h.1 hq) y hy
  induction as generalizing s with
  | nil => exact .nil
  | cons a as ih => exact .cons (hlater as _ _ h.2 (hnew s a h.1)) (ih h.2)

/-- Between any two entries of kind `A` is one of kind `B`. -/
def Separates (A B : γ → Prop) (entries : List γ) : Prop :=
  ∀ pre x mid y post, entries = pre ++ x :: (mid ++ y :: post) → A x → A y → ∃ z ∈ mid, B z

/-- Steps of kind `A` are separated by steps of kind `B`: one leaves something
in the state (`Q`) that only a step of kind `B` removes, and that no other step
of kind `A` starts from. -/
theorem trace_separates {A B : α × β → Prop} (Q : σ → Prop)
    (hnew : ∀ s a, A (a, (m.step s a).2) → Q (m.step s a).1)
    (hkeep : ∀ s a, Q s → ¬ B (a, (m.step s a).2) → Q (m.step s a).1)
    (hrel : ∀ s a, Q s → ¬ A (a, (m.step s a).2)) (s : σ) (as : List α) :
    Separates A B (m.trace s as) := by
  have hlater : ∀ (as : List α) (s : σ), Q s → ∀ mid y post, m.trace s as = mid ++ y :: post → A y →
      ∃ z ∈ mid, B z := by
    intro as
    induction as with
    | nil => intro s _ mid y post h; simp [trace] at h
    | cons a as ih =>
      intro s hq mid y post h hy
      cases mid with
      | nil =>
        obtain ⟨rfl, -⟩ := List.cons.inj h
        exact absurd hy (hrel s a hq)
      | cons z mid =>
        obtain ⟨rfl, hrest⟩ := List.cons.inj h
        by_cases hz : B (a, (m.step s a).2)
        · exact ⟨_, List.mem_cons_self, hz⟩
        · obtain ⟨z, hmem, hb⟩ := ih _ (hkeep s a hq hz) mid y post hrest hy
          exact ⟨z, List.mem_cons_of_mem _ hmem, hb⟩
  induction as generalizing s with
  | nil => intro pre x mid y post h; simp [trace] at h
  | cons a as ih =>
    intro pre x mid y post h hx hy
    cases pre with
    | nil =>
      obtain ⟨rfl, hrest⟩ := List.cons.inj h
      exact hlater as _ (hnew s a hx) mid y post hrest hy
    | cons w pre =>
      obtain ⟨-, hrest⟩ := List.cons.inj h
      exact ih _ pre x mid y post hrest hx hy

/-! ## Ghost state -/

variable (m) in
/-- The machine with a ghost component, which follows the inputs. -/
def withGhost (g : γ → α → γ) : Machine (σ × γ) α β where
  step s a := (((m.step s.1 a).1, g s.2 a), (m.step s.1 a).2)

@[simp] theorem trace_withGhost (g : γ → α → γ) (s : σ) (c : γ) (as : List α) :
    (m.withGhost g).trace (s, c) as = m.trace s as := by
  induction as generalizing s c with
  | nil => rfl
  | cons a as ih => simp [trace, withGhost, ← ih (m.step s a).1 (g c a)]

/-- A clock that shows the time of the last input is never ahead of the next,
where times do not go back. -/
theorem all_withClock {τ : Type*} [Preorder τ] {time : α → τ} {s : σ} {as : List α} {c : WithBot τ}
    (hc : ∀ a ∈ as, c ≤ time a) (hsorted : (as.map time).Pairwise (· ≤ ·)) :
    (m.withGhost fun _ a => (time a : WithBot τ)).All (fun s a => s.2 ≤ time a) (s, c) as := by
  induction as generalizing s c with
  | nil => trivial
  | cons a as ih =>
    obtain ⟨hfirst, hrest⟩ := List.pairwise_cons.mp hsorted
    refine ⟨hc a List.mem_cons_self, ih (fun b hb => ?_) hrest⟩
    exact WithBot.coe_le_coe.mpr (hfirst _ (List.mem_map_of_mem hb))

/-- A counter of the inputs of one kind stays below what bounds their number. -/
theorem all_withCounter {p : α → Bool} {k : ℕ} {s : σ} {as : List α} {c : ℕ} (hc : c + as.countP p < k) :
    (m.withGhost fun c a => if p a then c + 1 else c).All (fun s _ => s.2 < k) (s, c) as := by
  induction as generalizing s c with
  | nil => trivial
  | cons a as ih =>
    rw [List.countP_cons] at hc
    refine ⟨by dsimp only; omega, ih ?_⟩
    cases hp : p a <;> simp only [hp, if_true, Bool.false_eq_true, if_false] at hc ⊢ <;> omega

/-! ## Simulation -/

/-- One machine answers as another does that sees only the inputs `pick` keeps:
it idles on the others, and a relation between the two states and the inputs
still to come is kept by every step. -/
theorem trace_simulation {σ' α' β' : Type*} {n : Machine σ' α' β'} (pick : α → Option α')
    (out : β → Option γ) (out' : β' → γ) (R : σ → σ' → List α → Prop)
    (hidle : ∀ s t a as, pick a = none → R s t (a :: as) →
      out (m.step s a).2 = none ∧ R (m.step s a).1 t as)
    (hstep : ∀ s t a a' as, pick a = some a' → R s t (a :: as) →
      out (m.step s a).2 = some (out' (n.step t a').2) ∧ R (m.step s a).1 (n.step t a').1 as)
    {s : σ} {t : σ'} {as : List α} (h : R s t as) :
    (m.trace s as).filterMap (fun x => out x.2) =
      (n.trace t (as.filterMap pick)).map fun x => out' x.2 := by
  induction as generalizing s t with
  | nil => rfl
  | cons a as ih =>
    cases hp : pick a with
    | none =>
      obtain ⟨hout, hnext⟩ := hidle s t a as hp h
      simp only [trace, List.filterMap_cons, hp, hout, ih hnext]
    | some a' =>
      obtain ⟨hout, hnext⟩ := hstep s t a a' as hp h
      simp only [trace, List.filterMap_cons, hp, hout, ih hnext, List.map_cons]

end Machine

end Framework
