import Mathlib.Data.List.Forall2

/-!
# Fallible computations

Rules for computations in `Except`: when a sequence of them succeeds
(`bind_eq_ok`) or fails (`bind_eq_error`), when a check succeeds
(`ensure_eq_ok`), the errors a sequence can fail with (`FailsWith`), and when
one succeeds at every element of a list, with the results kept (`mapM_eq_ok`) or
folded into a state (`foldlM_eq_ok`). Over a list the failure is that of the
first element that fails (`mapM_eq_error`, `mapM_eq_fault`, `forM_ensure`).
-/

namespace Framework

variable {ε ε' σ α β : Type*}

/-- Fails with `e` unless `c` holds. -/
def ensure (c : Prop) [Decidable c] (e : ε) : Except ε Unit := if c then .ok () else .error e

/-- The value of an option, or the failure `e`. -/
def okOr (o : Option α) (e : ε) : Except ε α := o.elim (.error e) .ok

@[simp] theorem ensure_eq_ok {c : Prop} [Decidable c] {e : ε} {u : Unit} :
    ensure c e = .ok u ↔ c := by
  unfold ensure
  split <;> simp_all

theorem ensure_true {c : Prop} [Decidable c] {e : ε} (h : c) : ensure c e = .ok () := if_pos h

@[simp] theorem okOr_eq_ok {o : Option α} {e : ε} {a : α} : okOr o e = .ok a ↔ o = some a := by
  cases o <;> simp [okOr]

@[simp] theorem okOr_some {a : α} {e : ε} : okOr (some a) e = .ok a := rfl

@[simp] theorem mapError_eq_ok {f : ε → ε'} {x : Except ε α} {a : α} :
    x.mapError f = .ok a ↔ x = .ok a := by
  cases x <;> simp [Except.mapError]

@[simp] theorem mapError_ok {f : ε → ε'} {a : α} :
    (Except.ok a : Except ε α).mapError f = .ok a := rfl

theorem bind_eq_ok {α β : Type u} {x : Except ε α} {f : α → Except ε β} {b : β} :
    x >>= f = .ok b ↔ ∃ a, x = .ok a ∧ f a = .ok b := by
  cases x with
  | error e => simp [bind, Except.bind]
  | ok a => simp [bind, Except.bind]

theorem bind_eq_error {α β : Type u} {x : Except ε α} {f : α → Except ε β} {e : ε} :
    x >>= f = .error e ↔ x = .error e ∨ ∃ a, x = .ok a ∧ f a = .error e := by
  cases x with
  | error e' => simp [bind, Except.bind]
  | ok a => simp [bind, Except.bind]

@[simp] theorem ok_bind {α β : Type u} {a : α} {f : α → Except ε β} :
    (Except.ok a >>= f) = f a := rfl

@[simp] theorem pure_eq_ok {α : Type u} {a b : α} : (pure a : Except ε α) = .ok b ↔ a = b := by
  simp [pure, Except.pure]

@[simp] theorem pure_ne_error {α : Type u} {a : α} {e : ε} :
    (pure a : Except ε α) = .error e ↔ False := by
  simp [pure, Except.pure]

/-- A computation that fails, if it does, with an error of a kind. -/
def FailsWith (p : ε → Prop) (x : Except ε α) : Prop := ∀ e, x = .error e → p e

theorem FailsWith.ok {p : ε → Prop} (a : α) : FailsWith p (.ok a) := nofun

/-- A sequence fails as its first or its second part. -/
theorem FailsWith.bind {α β : Type u} {p : ε → Prop} {x : Except ε α} {f : α → Except ε β} (hx : FailsWith p x)
    (hf : ∀ a, x = .ok a → FailsWith p (f a)) : FailsWith p (x >>= f) := fun e h => by
  rcases bind_eq_error.mp h with hx' | ⟨a, ha, hf'⟩
  · exact hx e hx'
  · exact hf a ha e hf'

theorem FailsWith.ensure {p : ε → Prop} {c : Prop} [Decidable c] {e : ε} (he : p e) :
    FailsWith p (Framework.ensure c e) := fun e' h => by
  rw [Framework.ensure] at h
  split at h
  · cases h
  · exact Except.error.inj h ▸ he

theorem FailsWith.okOr {p : ε → Prop} {o : Option α} {e : ε} (he : p e) : FailsWith p (Framework.okOr o e) := by
  cases o with
  | none => exact fun e' h => Except.error.inj h ▸ he
  | some a => exact .ok a

theorem exists_right {R : α → β → Prop} {as : List α} {bs : List β} (h : List.Forall₂ R as bs)
    {a : α} (ha : a ∈ as) : ∃ b ∈ bs, R a b := by
  induction h with
  | nil => cases ha
  | cons hab _ ih =>
    rcases List.mem_cons.mp ha with rfl | ha
    · exact ⟨_, List.mem_cons_self, hab⟩
    · obtain ⟨b, hb, hr⟩ := ih ha
      exact ⟨b, List.mem_cons_of_mem _ hb, hr⟩

theorem exists_left {R : α → β → Prop} {as : List α} {bs : List β} (h : List.Forall₂ R as bs)
    {b : β} (hb : b ∈ bs) : ∃ a ∈ as, R a b :=
  exists_right h.flip hb

/-- Where every element is related to something, the list is related to a list. -/
theorem exists_forall₂ {α : Type v} {β : Type u} {R : α → β → Prop} {as : List α}
    (h : ∀ a ∈ as, ∃ b, R a b) : ∃ bs, List.Forall₂ R as bs := by
  induction as with
  | nil => exact ⟨[], .nil⟩
  | cons a as ih =>
    obtain ⟨b, hb⟩ := h a List.mem_cons_self
    obtain ⟨bs, hbs⟩ := ih fun a' ha' => h a' (List.mem_cons_of_mem _ ha')
    exact ⟨b :: bs, .cons hb hbs⟩

/-- A list is related to another in two steps where its elements are. -/
theorem forall₂_comp {α β γ : Type*} {R : α → β → Prop} {S : β → γ → Prop} {as : List α} {cs : List γ} :
    List.Forall₂ (fun a c => ∃ b, R a b ∧ S b c) as cs ↔ ∃ bs, List.Forall₂ R as bs ∧ List.Forall₂ S bs cs := by
  constructor
  · intro h
    induction h with
    | nil => exact ⟨[], .nil, .nil⟩
    | cons hac _ ih =>
      obtain ⟨b, hab, hbc⟩ := hac
      obtain ⟨bs, has, hcs⟩ := ih
      exact ⟨b :: bs, .cons hab has, .cons hbc hcs⟩
  · rintro ⟨bs, has, hcs⟩
    induction has generalizing cs with
    | nil =>
      cases hcs
      exact .nil
    | cons hab _ ih =>
      cases hcs with
      | cons hbc hcs => exact .cons ⟨_, hab, hbc⟩ (ih hcs)

theorem mapM_congr {α β ε : Type*} {f g : α → Except ε β} {as : List α} (h : ∀ a ∈ as, f a = g a) :
    as.mapM f = as.mapM g := by
  induction as with
  | nil => rfl
  | cons a as ih =>
    rw [List.mapM_cons, List.mapM_cons, h a List.mem_cons_self, ih fun b hb => h b (List.mem_cons_of_mem _ hb)]

/-- A computation succeeds at every element of a list. -/
theorem mapM_eq_ok {α : Type v} {β : Type u} {f : α → Except ε β} {as : List α} {bs : List β} :
    as.mapM f = .ok bs ↔ List.Forall₂ (fun a b => f a = .ok b) as bs := by
  induction as generalizing bs with
  | nil => simp [pure, Except.pure, eq_comm]
  | cons a as ih =>
    simp only [List.mapM_cons, bind_eq_ok, pure_eq_ok, ih, List.forall₂_cons_left_iff]
    constructor
    · rintro ⟨b, hb, bs', hbs, rfl⟩
      exact ⟨b, bs', hb, hbs, rfl⟩
    · rintro ⟨b, bs', hb, hbs, rfl⟩
      exact ⟨b, hb, bs', hbs, rfl⟩

/-- A computation that succeeds at every element succeeds at the list, and what
holds of every result holds of all of them. -/
theorem mapM_forall₂ {α : Type v} {β : Type u} {f : α → Except ε β} {R : α → β → Prop} {as : List α}
    (h : ∀ a ∈ as, ∃ b, f a = .ok b ∧ R a b) : ∃ bs, as.mapM f = .ok bs ∧ List.Forall₂ R as bs := by
  simp only [mapM_eq_ok]
  obtain ⟨bs, hbs⟩ := exists_forall₂ h
  exact ⟨bs, hbs.imp fun _ _ hb => hb.1, hbs.imp fun _ _ hb => hb.2⟩

theorem mapM_isOk {α : Type v} {β : Type u} {f : α → Except ε β} {as : List α}
    (h : ∀ a ∈ as, ∃ b, f a = .ok b) : ∃ bs, as.mapM f = .ok bs := by
  simp only [mapM_eq_ok]
  exact exists_forall₂ h

/-- A computation that fails at an element fails at the list. -/
theorem mapM_isError {α : Type v} {β : Type u} {f : α → Except ε β} {as : List α} {a : α} (ha : a ∈ as)
    (h : ∃ e, f a = .error e) : ∃ e, as.mapM f = .error e := by
  obtain ⟨e, he⟩ := h
  cases hmap : as.mapM f with
  | error e' => exact ⟨e', rfl⟩
  | ok bs =>
    obtain ⟨b, -, hb⟩ := exists_right (mapM_eq_ok.mp hmap) ha
    cases he.symm.trans hb

/-- A computation fails at a list as it does at the first element it fails at. -/
theorem mapM_eq_error {α : Type v} {β : Type u} {f : α → Except ε β} {as : List α} {e : ε} :
    as.mapM f = .error e ↔ ∃ pre a post, as = pre ++ a :: post ∧ (∀ x ∈ pre, ∃ b, f x = .ok b) ∧
      f a = .error e := by
  constructor
  · intro h
    induction as with
    | nil => cases h
    | cons a as ih =>
      rw [List.mapM_cons, bind_eq_error] at h
      rcases h with ha | ⟨b, hb, h⟩
      · exact ⟨[], a, as, rfl, by simp, ha⟩
      · simp only [bind_eq_error, pure_ne_error, and_false, exists_false, or_false] at h
        obtain ⟨pre, a', post, rfl, hpre, ha'⟩ := ih h
        exact ⟨a :: pre, a', post, rfl, List.forall_mem_cons.mpr ⟨⟨b, hb⟩, hpre⟩, ha'⟩
  · rintro ⟨pre, a, post, rfl, hpre, ha⟩
    obtain ⟨bs, hbs⟩ := mapM_isOk hpre
    rw [List.mapM_append, hbs, List.mapM_cons, ha]
    rfl

/-- Where the failures of a computation are known, the list fails with the first
of them, or succeeds. -/
theorem mapM_eq_fault {α : Type v} {β : Type u} (f : α → Except ε β) (as : List α) {fault : α → Option ε}
    (hok : ∀ a ∈ as, fault a = none → ∃ b, f a = .ok b)
    (herror : ∀ a ∈ as, ∀ e, fault a = some e → f a = .error e) :
    (as.findSome? fault).elim (∃ bs, as.mapM f = .ok bs) fun e => as.mapM f = .error e := by
  cases hfirst : as.findSome? fault with
  | none => exact mapM_isOk fun a ha => hok a ha (List.findSome?_eq_none_iff.mp hfirst a ha)
  | some e =>
    obtain ⟨pre, a, post, rfl, ha, hpre⟩ := List.findSome?_eq_some_iff.mp hfirst
    exact mapM_eq_error.mpr ⟨pre, a, post, rfl,
      fun x hx => hok x (List.mem_append_left _ hx) (hpre x hx), herror a (by simp) e ha⟩

/-- Checking every element of a list fails at the first that fails the check. -/
theorem forM_ensure {α : Type v} {p : α → Prop} [DecidablePred p] {err : α → ε} {as : List α} :
    (as.forM fun a => ensure (p a) (err a)) =
      ((as.find? fun a => decide (¬ p a)).map err).elim (.ok ()) .error := by
  induction as with
  | nil => rfl
  | cons a as ih =>
    have hcons : ((a :: as).forM fun a => ensure (p a) (err a)) =
        ensure (p a) (err a) >>= fun _ => as.forM fun a => ensure (p a) (err a) := rfl
    rw [hcons, List.find?_cons]
    by_cases ha : p a
    · rw [ensure_true ha, ok_bind, ih]
      simp only [ha, not_true, decide_false]
    · simp only [ensure, ha, if_false, not_false_eq_true, decide_true, Option.map_some, Option.elim_some]
      rfl

/-- A check succeeds at every element of a list, and the state is folded over
it. -/
theorem foldlM_eq_ok {α : Type v} {σ : Type} {c : α → Except ε Unit} {g : σ → α → σ}
    {as : List α} {s s' : σ} :
    as.foldlM (fun s a => do c a; return g s a) s = Except.ok s' ↔
      (∀ a ∈ as, c a = .ok ()) ∧ s' = as.foldl g s := by
  induction as generalizing s with
  | nil => simp [pure, Except.pure, eq_comm]
  | cons a as ih =>
    simp only [List.foldlM_cons, bind_eq_ok, pure_eq_ok, List.mem_cons, forall_eq_or_imp,
      List.foldl_cons]
    constructor
    · rintro ⟨_, ⟨_, hc, rfl⟩, hrest⟩
      obtain ⟨hall, hs⟩ := ih.mp hrest
      exact ⟨⟨hc, hall⟩, hs⟩
    · rintro ⟨⟨hc, hall⟩, hs⟩
      exact ⟨_, ⟨_, hc, rfl⟩, ih.mpr ⟨hall, hs⟩⟩

/-- What is made of each element is folded into the state. -/
theorem foldlM_results {α : Type v} {β σ : Type} {f : α → Except ε β} {g : σ → β → σ} {as : List α} {s s' : σ} :
    as.foldlM (fun s a => do let b ← f a; return g s b) s = Except.ok s' ↔
      ∃ bs, List.Forall₂ (fun a b => f a = .ok b) as bs ∧ s' = bs.foldl g s := by
  induction as generalizing s with
  | nil => simp [pure, Except.pure, eq_comm]
  | cons a as ih =>
    simp only [List.foldlM_cons, bind_eq_ok, pure_eq_ok, List.forall₂_cons_left_iff]
    constructor
    · rintro ⟨_, ⟨b, hb, rfl⟩, hrest⟩
      obtain ⟨bs, hbs, hs⟩ := ih.mp hrest
      exact ⟨b :: bs, ⟨b, bs, hb, hbs, rfl⟩, hs⟩
    · rintro ⟨_, ⟨b, bs, hb, hbs, rfl⟩, hs⟩
      exact ⟨_, ⟨b, hb, rfl⟩, ih.mpr ⟨bs, hbs, hs⟩⟩

end Framework
