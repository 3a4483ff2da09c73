import Mathlib.Data.List.Induction
import Mathlib.Logic.Function.Basic
import AionTrust.Framework.History

/-!
# Processes over a store of cells

A program reads some cells of a store, and then writes at most one
(`Programs`). Run one after another, programs are a machine (`serial`). Run as
processes, each reads when it starts and writes when it finishes, and others
may start and finish in between (`interleaved`); a process may also die while
it writes, and leave anything in the cell. All that a process reads it reads in
the one step in which it starts: that others may write between two of its reads
is left out.

Where a cell is not written while another process has read it (`Clear`), what a
process has read in it is still there when it finishes (`current_step`), and it
is what the last to finish had left there (`read_last`). Where this holds of
every cell, the processes do what they would one after another, in the order in
which they finish (`interleaved_serial`).
-/

namespace Framework.Process

/-- What programs answer and write. It depends on the cells they read only. -/
structure Programs (P K V O : Type*) where
  exec : P → (K → V) → O × Option (K × V)
  reads : P → K → Prop
  exec_congr : ∀ p s t, (∀ k, reads p k → s k = t k) → exec p s = exec p t

/-- A process starts with a program, finishes it, or dies while writing. -/
inductive Event (I P V : Type*) where
  | start (i : I) (p : P)
  | finish (i : I)
  | tear (i : I) (left : V)

/-- The process that an event lets write. -/
def Event.writer {I P V : Type*} : Event I P V → Option I
  | start _ _ => none
  | finish i => some i
  | tear i _ => some i

/-- A process does not die. -/
def Event.Whole {I P V : Type*} : Event I P V → Prop
  | tear _ _ => False
  | _ => True

/-- The store, and the processes under way, each with the store it has read. -/
structure Running (I P K V : Type*) where
  store : K → V
  pending : I → Option (P × (K → V))

/-- Nothing under way. -/
def idle {I P K V : Type*} (s : K → V) : Running I P K V := ⟨s, fun _ => none⟩

namespace Programs

variable {I P K V O : Type*} [DecidableEq I] [DecidableEq K] (ps : Programs P K V O)

def commit (s : K → V) : Option (K × V) → K → V
  | some (k, v) => Function.update s k v
  | none => s

theorem commit_of_ne {s : K → V} {w : Option (K × V)} {k : K} (h : ∀ v, w ≠ some (k, v)) :
    commit s w k = s k := by
  cases w with
  | none => rfl
  | some w =>
    obtain ⟨k', v⟩ := w
    exact Function.update_of_ne (fun hk => h v (by rw [hk])) _ _

/-- Programs one after another. -/
def serial : Machine (K → V) P O where
  step s p := (commit s (ps.exec p s).2, (ps.exec p s).1)

/-- Processes beside each other; one that finishes answers. -/
def interleaved : Machine (Running I P K V) (Event I P V) (Option (P × (K → V) × O)) where
  step
    | st, .start i p => ({ st with pending := Function.update st.pending i (some (p, st.store)) }, none)
    | st, .finish i =>
      match st.pending i with
      | some (p, s) =>
        ({ store := commit st.store (ps.exec p s).2, pending := Function.update st.pending i none },
          some (p, s, (ps.exec p s).1))
      | none => (st, none)
    | st, .tear i left =>
      match st.pending i with
      | some (p, s) =>
        ({ store := commit st.store ((ps.exec p s).2.map fun w => (w.1, left)),
           pending := Function.update st.pending i none }, none)
      | none => (st, none)

/-- The process of an event writes a cell. -/
def Writes (k : K) (st : Running I P K V) (e : Event I P V) : Prop :=
  ∃ i p s v, e.writer = some i ∧ st.pending i = some (p, s) ∧ (ps.exec p s).2 = some (k, v)

/-- A cell is not written while another process has read it. -/
def Clear (k : K) (st : Running I P K V) (e : Event I P V) : Prop :=
  ps.Writes k st e → ∀ j q t, e.writer ≠ some j → st.pending j = some (q, t) → ¬ ps.reads q k

/-- What the processes under way have read in a cell is what it holds. -/
def Current (k : K) (st : Running I P K V) : Prop :=
  ∀ i p s, st.pending i = some (p, s) → ps.reads p k → s k = st.store k

variable {ps} {k : K} {st : Running I P K V} {e : Event I P V}

omit [DecidableEq I] [DecidableEq K] in
theorem current_idle (s : K → V) : ps.Current k (idle s : Running I P K V) := fun _ _ _ h => nomatch h

omit [DecidableEq I] [DecidableEq K] in
theorem clear_start {i : I} {p : P} : ps.Clear k st (.start i p) := by
  rintro ⟨_, _, _, _, hwriter, -⟩
  cases hwriter

omit [DecidableEq I] [DecidableEq K] in
theorem clear_finish {i : I} {p : P} {s : K → V} (hpending : st.pending i = some (p, s))
    (h : ∀ v, (ps.exec p s).2 = some (k, v) → ∀ j q t, j ≠ i → st.pending j = some (q, t) → ¬ ps.reads q k) :
    ps.Clear k st (.finish i) := by
  rintro ⟨j, q, t, v, hwriter, hj, hwrite⟩ l r u hother hl
  obtain rfl : i = j := Option.some.inj hwriter
  obtain ⟨rfl, rfl⟩ := Prod.mk.inj (Option.some.inj (hpending.symm.trans hj))
  exact h v hwrite l r u (fun hli => hother (congrArg some hli.symm)) hl

/-! ## Steps -/

theorem step_finish {i : I} {p : P} {s : K → V} (h : st.pending i = some (p, s)) :
    ps.interleaved.step st (.finish i) = (⟨commit st.store (ps.exec p s).2,
      Function.update st.pending i none⟩, some (p, s, (ps.exec p s).1)) := by
  simp only [interleaved, h]

theorem step_tear {i : I} {p : P} {s : K → V} (h : st.pending i = some (p, s)) (left : V) :
    ps.interleaved.step st (.tear i left) = (⟨commit st.store ((ps.exec p s).2.map fun w => (w.1, left)),
      Function.update st.pending i none⟩, none) := by
  simp only [interleaved, h]

theorem step_missing {i : I} (h : st.pending i = none) (hwriter : e.writer = some i) :
    ps.interleaved.step st e = (st, none) := by
  cases e with
  | start j q => cases hwriter
  | finish j =>
    obtain rfl := Option.some.inj hwriter
    simp only [interleaved, h]
  | tear j left =>
    obtain rfl := Option.some.inj hwriter
    simp only [interleaved, h]

/-- A step answers where a process finishes. -/
theorem answer_eq_some {x : P × (K → V) × O} (h : (ps.interleaved.step st e).2 = some x) :
    ∃ i, e = .finish i ∧ st.pending i = some (x.1, x.2.1) ∧ x.2.2 = (ps.exec x.1 x.2.1).1 := by
  cases e with
  | start i p => cases h
  | finish i =>
    cases hp : st.pending i with
    | none =>
      rw [step_missing hp rfl] at h
      cases h
    | some q =>
      rw [step_finish hp] at h
      obtain rfl := Option.some.inj h
      exact ⟨i, rfl, hp, rfl⟩
  | tear i left =>
    cases hp : st.pending i with
    | none =>
      rw [step_missing hp rfl] at h
      cases h
    | some q =>
      rw [step_tear hp] at h
      cases h

/-- A step that does not write a cell leaves it as it is. -/
theorem step_store (h : ¬ ps.Writes k st e) : (ps.interleaved.step st e).1.store k = st.store k := by
  cases e with
  | start i p => rfl
  | finish i =>
    cases hp : st.pending i with
    | none => rw [step_missing hp rfl]
    | some q =>
      rw [step_finish hp]
      exact commit_of_ne fun v hv => h ⟨i, q.1, q.2, v, rfl, hp, hv⟩
  | tear i left =>
    cases hp : st.pending i with
    | none => rw [step_missing hp rfl]
    | some q =>
      rw [step_tear hp]
      refine commit_of_ne fun v hv => ?_
      obtain ⟨⟨k', w⟩, hw, heq⟩ := Option.map_eq_some_iff.mp hv
      obtain rfl : k' = k := (Prod.mk.inj heq).1
      exact h ⟨i, q.1, q.2, w, rfl, hp, hw⟩

/-- A process under way after a step was under way before, or has just read. -/
theorem step_pending {j : I} {q : P} {t : K → V}
    (h : (ps.interleaved.step st e).1.pending j = some (q, t)) :
    (e = .start j q ∧ t = st.store) ∨ (e.writer ≠ some j ∧ st.pending j = some (q, t)) := by
  have hwrote : ∀ i, e.writer = some i →
      (ps.interleaved.step st e).1.pending = Function.update st.pending i none := by
    intro i hi
    cases hp : st.pending i with
    | none => rw [step_missing hp hi, ← hp, Function.update_eq_self]
    | some x =>
      cases e with
      | start _ _ => cases hi
      | finish _ =>
        obtain rfl := Option.some.inj hi
        rw [step_finish hp]
      | tear _ _ =>
        obtain rfl := Option.some.inj hi
        rw [step_tear hp]
  cases hwriter : e.writer with
  | some i =>
    rw [hwrote i hwriter] at h
    by_cases hj : j = i
    · rw [hj, Function.update_self] at h
      cases h
    · rw [Function.update_of_ne hj] at h
      exact .inr ⟨fun hi => hj (Option.some.inj hi).symm, h⟩
  | none =>
    cases e with
    | start i p =>
      by_cases hj : j = i
      · subst hj
        simp only [interleaved, Function.update_self, Option.some.injEq, Prod.mk.injEq] at h
        exact .inl ⟨by rw [h.1], h.2.symm⟩
      · simp only [interleaved, Function.update_of_ne hj] at h
        exact .inr ⟨Option.some_ne_none j ∘ Eq.symm, h⟩
    | finish _ => cases hwriter
    | tear _ _ => cases hwriter

/-- What is read stays current where cells are not written under a reader. -/
theorem current_step (hclear : ps.Clear k st e) (h : ps.Current k st) :
    ps.Current k (ps.interleaved.step st e).1 := by
  intro j q t hpending hreads
  have hkeep : (ps.interleaved.step st e).1.store k = st.store k := by
    refine step_store fun hwrites => ?_
    rcases step_pending hpending with ⟨rfl, -⟩ | ⟨hother, hbefore⟩
    · obtain ⟨_, _, _, _, hwriter, -⟩ := hwrites
      cases hwriter
    · exact hclear hwrites j q t hother hbefore hreads
  rcases step_pending hpending with ⟨rfl, rfl⟩ | ⟨-, hbefore⟩
  · exact hkeep.symm
  · rw [hkeep, h j q t hbefore hreads]

/-! ## Runs -/

/-- The processes of a run that finished, each with what it had read and what
it answered, in the order in which they did. -/
def finished (ps : Programs P K V O) (st : Running I P K V) (es : List (Event I P V)) :
    List (P × (K → V) × O) :=
  (ps.interleaved.trace st es).filterMap Prod.snd

theorem finished_append (st : Running I P K V) (es : List (Event I P V)) (e : Event I P V) :
    ps.finished st (es ++ [e]) =
      ps.finished st es ++ ((ps.interleaved.step (ps.interleaved.final st es) e).2).toList := by
  rw [finished, finished, Machine.trace_append, List.filterMap_append]
  simp only [Machine.trace, List.filterMap_cons, List.filterMap_nil]
  cases (ps.interleaved.step (ps.interleaved.final st es) e).2 <;> rfl

/-- Where a process finishes, the run before it has finished those before. -/
theorem finished_split {es : List (Event I P V)} {pre post : List (P × (K → V) × O)} {x : P × (K → V) × O}
    (h : ps.finished st es = pre ++ x :: post) : ∃ es₁ e es₂, es = es₁ ++ e :: es₂ ∧
      ps.finished st es₁ = pre ∧ (ps.interleaved.step (ps.interleaved.final st es₁) e).2 = some x := by
  obtain ⟨l₁, l₂, hl, hpre, hrest⟩ := List.filterMap_eq_append_iff.mp h
  obtain ⟨m₁, y, m₂, rfl, hnone, hy, -⟩ := List.filterMap_eq_cons_iff.mp hrest
  rw [← List.append_assoc] at hl
  obtain ⟨es₁, es₂, hes, htrace, hanswer⟩ := Machine.trace_split hl
  refine ⟨es₁, y.1, es₂, hes, ?_, hanswer.symm.trans hy⟩
  rw [finished, ← htrace, List.filterMap_append, hpre, List.filterMap_eq_nil_iff.mpr hnone, List.append_nil]

/-- Where no process dies, the store holds what those that finished wrote. -/
theorem final_store {es : List (Event I P V)} (hwhole : ∀ e ∈ es, e.Whole) :
    (ps.interleaved.final st es).store =
      (ps.finished st es).foldl (fun s x => commit s (ps.exec x.1 x.2.1).2) st.store := by
  induction es using List.reverseRecOn with
  | nil => rfl
  | append_singleton es e ih =>
    rw [Machine.final_append, finished_append, List.foldl_append,
      ← ih fun e' he' => hwhole e' (List.mem_append_left _ he')]
    generalize ps.interleaved.final st es = t
    cases e with
    | start i p => rfl
    | tear i left => exact (hwhole (.tear i left) (by simp)).elim
    | finish i =>
      cases hp : t.pending i with
      | none =>
        rw [Machine.final_cons, step_missing hp rfl]
        rfl
      | some q =>
        rw [Machine.final_cons, step_finish hp]
        rfl

omit [DecidableEq I] in
/-- The last to write a cell leaves there what it wrote. -/
theorem foldl_commit {s : K → V} {pre post : List (P × (K → V) × O)} {x : P × (K → V) × O} {v : V}
    (hwrite : (ps.exec x.1 x.2.1).2 = some (k, v)) (hnone : ∀ y ∈ post, ∀ w, (ps.exec y.1 y.2.1).2 ≠ some (k, w)) :
    (pre ++ x :: post).foldl (fun s y => commit s (ps.exec y.1 y.2.1).2) s k = v := by
  induction post using List.reverseRecOn with
  | nil =>
    rw [List.foldl_append, List.foldl_cons, List.foldl_nil, hwrite]
    exact Function.update_self ..
  | append_singleton post y ih =>
    rw [← List.cons_append, ← List.append_assoc, List.foldl_append, List.foldl_cons, List.foldl_nil,
      commit_of_ne (hnone y (by simp))]
    exact ih fun z hz => hnone z (List.mem_append_left _ hz)

/-- A process that finished has read in a cell what the last to write it before
had left there. -/
theorem read_last {es : List (Event I P V)} (hclear : ps.interleaved.All (fun st e => ps.Clear k st e) st es)
    (hwhole : ∀ e ∈ es, e.Whole) (hcurrent : ps.Current k st) {pre mid post : List (P × (K → V) × O)}
    {x y : P × (K → V) × O} (h : ps.finished st es = pre ++ x :: (mid ++ y :: post)) {v : V}
    (hwrite : (ps.exec x.1 x.2.1).2 = some (k, v)) (hnone : ∀ z ∈ mid, ∀ w, (ps.exec z.1 z.2.1).2 ≠ some (k, w))
    (hreads : ps.reads y.1 k) : y.2.1 k = v := by
  rw [← List.cons_append, ← List.append_assoc] at h
  obtain ⟨es₁, e, es₂, rfl, hbefore, hanswer⟩ := finished_split h
  obtain ⟨hclear₁, -⟩ := Machine.all_append.mp hclear
  have hnow : ps.Current k (ps.interleaved.final st es₁) :=
    Machine.final_induction (fun _ _ hc => current_step hc) hclear₁ hcurrent
  obtain ⟨i, -, hpending, -⟩ := answer_eq_some hanswer
  rw [hnow i _ _ hpending hreads, final_store fun e' he' => hwhole e' (List.mem_append_left _ he'), hbefore,
    foldl_commit hwrite hnone]

/-- Where no cell is written under a reader and no process dies, processes
answer as they would one after another, and leave the same store. -/
theorem interleaved_serial {es : List (Event I P V)}
    (hclear : ps.interleaved.All (fun st e => ∀ k, ps.Clear k st e) st es)
    (hwhole : ∀ e ∈ es, e.Whole) (hcurrent : ∀ k, ps.Current k st) :
    (finished ps st es).map (fun x => (x.1, x.2.2)) =
        ps.serial.trace st.store ((finished ps st es).map Prod.fst) ∧
      (ps.interleaved.final st es).store = ps.serial.final st.store ((finished ps st es).map Prod.fst) := by
  induction es generalizing st with
  | nil => exact ⟨rfl, rfl⟩
  | cons e es ih =>
    obtain ⟨hhere, hrest⟩ := hclear
    obtain ⟨htrace, hfinal⟩ := ih hrest (fun e' he' => hwhole e' (List.mem_cons_of_mem _ he'))
      fun k => current_step (hhere k) (hcurrent k)
    cases hanswer : (ps.interleaved.step st e).2 with
    | none =>
      have hsame : (ps.interleaved.step st e).1.store = st.store := by
        cases e with
        | start i p => rfl
        | tear i left => exact (hwhole _ List.mem_cons_self).elim
        | finish i =>
          cases hp : st.pending i with
          | none => rw [step_missing hp rfl]
          | some q =>
            rw [step_finish hp] at hanswer
            cases hanswer
      have hfinished : finished ps st (e :: es) = finished ps (ps.interleaved.step st e).1 es := by
        simp only [finished, Machine.trace, List.filterMap_cons, hanswer]
      rw [hsame] at htrace hfinal
      rw [hfinished]
      exact ⟨htrace, hfinal⟩
    | some x =>
      obtain ⟨i, rfl, hp, hout⟩ := answer_eq_some hanswer
      have hexec : ps.exec x.1 x.2.1 = ps.exec x.1 st.store :=
        ps.exec_congr _ _ _ fun k hk => hcurrent k i _ _ hp hk
      have hstore : (ps.interleaved.step st (.finish i)).1.store = (ps.serial.step st.store x.1).1 := by
        rw [step_finish hp, hexec]
        rfl
      have hfinished : finished ps st (.finish i :: es) =
          x :: finished ps (ps.interleaved.step st (.finish i)).1 es := by
        simp only [finished, Machine.trace, List.filterMap_cons, hanswer]
      rw [hfinished, List.map_cons, List.map_cons, htrace, hstore]
      refine ⟨?_, ?_⟩
      · rw [hout, hexec]
        rfl
      · exact hfinal.trans (by rw [hstore]; rfl)

/-! ## One at a time -/

/-- Programs run one at a time. -/
def oneByOne (runs : List P) : List (Event Unit P V) := runs.flatMap fun p => [.start () p, .finish ()]

omit [DecidableEq K] in
theorem oneByOne_whole (runs : List P) : ∀ e ∈ (oneByOne runs : List (Event Unit P V)), e.Whole := by
  intro e he
  obtain ⟨p, -, hp⟩ := List.mem_flatMap.mp he
  rcases List.mem_pair.mp hp with rfl | rfl <;> trivial

/-- What holds of a program that starts with none under way, and of one that
finishes alone, holds all along. -/
theorem all_oneByOne {Q : Running Unit P K V → Event Unit P V → Prop} {runs : List P}
    (hstart : ∀ s, ∀ p ∈ runs, Q (idle s) (.start () p))
    (hfinish : ∀ s, ∀ p ∈ runs, ∀ st, st.pending = (fun _ => some (p, s)) → Q st (.finish ())) (s : K → V) :
    ps.interleaved.All Q (idle s) (oneByOne runs) := by
  induction runs generalizing s with
  | nil => trivial
  | cons p runs ih =>
    have hnext : (ps.interleaved.step (ps.interleaved.step (idle s) (.start () p)).1 (.finish ())).1 =
        idle (commit s (ps.exec p s).2) := by
      simp [interleaved, idle]
    refine ⟨hstart s p List.mem_cons_self, hfinish s p List.mem_cons_self _ ?_, ?_⟩
    · rfl
    · rw [hnext]
      exact ih (fun s q hq => hstart s q (List.mem_cons_of_mem _ hq))
        (fun s q hq => hfinish s q (List.mem_cons_of_mem _ hq)) _

omit [DecidableEq K] in
/-- One that finishes alone writes no cell under a reader. -/
theorem clear_alone {st : Running Unit P K V} {p : P} {s : K → V} (h : st.pending = fun _ => some (p, s)) :
    ps.Clear k st (.finish ()) :=
  clear_finish (congrFun h ()) fun _ _ j _ _ hj => absurd (Subsingleton.elim j ()) hj

theorem oneByOne_clear (s : K → V) (runs : List P) :
    ps.interleaved.All (fun st e => ∀ k, ps.Clear k st e) (idle s) (oneByOne runs) :=
  all_oneByOne (fun _ _ _ _ => clear_start) (fun _ _ _ _ hst _ => clear_alone hst) s

end Programs

end Framework.Process
