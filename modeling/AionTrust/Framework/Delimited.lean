import Mathlib.Data.List.Infix
import Mathlib.Data.Nat.Digits.Defs
import Mathlib.Tactic.Common

/-!
# Texts that end themselves

A value ends itself (`EndsAt`) where it, and what follows its text, can be told
from the two together. Where all values do (`Delimited`), different values have
different texts (`Delimited.inj`), and no text begins another
(`Delimited.eq_of_start`). What may follow a text can be restricted, as it is
for a number (`delimited_digits`). A list of values ends itself where each of
them does, and where the list is ended by what no value begins with
(`endsAt_flatMap`).
-/

namespace Framework

section

variable {α : Type*} (f : α → List Char) (P : α → Prop) (Q : List Char → Prop)

/-- From the text of a value, with something in `Q` after it, both can be told
among the values in `P`. -/
def EndsAt (a : α) : Prop := ∀ b r r', P b → Q r → Q r' → f a ++ r = f b ++ r' → a = b ∧ r = r'

def Delimited : Prop := ∀ a, P a → EndsAt f P Q a

end

namespace Delimited

variable {α : Type*} {f : α → List Char} {P : α → Prop} {Q : List Char → Prop} {a b : α}

theorem inj (h : Delimited f P Q) (hnil : Q []) (ha : P a) (hb : P b) (heq : f a = f b) : a = b :=
  (h a ha b [] [] hb hnil hnil (by rw [heq])).1

/-- No text begins another. -/
theorem eq_of_start (h : Delimited f P fun _ => True) (ha : P a) (hb : P b) (hstart : f a <+: f b) : a = b := by
  obtain ⟨r, hr⟩ := hstart
  exact (h a ha b r [] hb trivial trivial (by rw [hr, List.append_nil])).1

/-- Where a text can be read, its value and what follows are told. -/
theorem of_reader {read : List Char → Option (α × List Char)} (h : ∀ a r, P a → read (f a ++ r) = some (a, r)) :
    Delimited f P fun _ => True := by
  intro a ha b r r' hb _ _ heq
  have hsame : some (a, r) = some (b, r') := by rw [← h a r ha, heq, h b r' hb]
  exact Prod.mk.inj (Option.some.inj hsame)

theorem mono (h : Delimited f P Q) {Q' : List Char → Prop} (hQ : ∀ r, Q' r → Q r) : Delimited f P Q' :=
  fun a ha b r r' hb hr hr' => h a ha b r r' hb (hQ r hr) (hQ r' hr')

end Delimited

/-- A list of values, ended by what no value begins with. -/
theorem endsAt_flatMap {α : Type*} {f : α → List Char} {P : α → Prop} {Q : List Char → Prop} {stop : List Char}
    (hstop : ∀ a r r', f a ++ r ≠ stop ++ r') (hQstop : ∀ r, Q (stop ++ r)) (hQ : ∀ a r, Q (f a ++ r))
    {as : List α} (has : ∀ a ∈ as, EndsAt f P Q a) :
    EndsAt (fun as : List α => as.flatMap f ++ stop) (fun as => ∀ a ∈ as, P a) (fun _ => True) as := by
  have hnext : ∀ (cs : List α) r, Q (cs.flatMap f ++ (stop ++ r)) := by
    intro cs r
    cases cs with
    | nil => exact hQstop r
    | cons c cs =>
      rw [List.flatMap_cons, List.append_assoc]
      exact hQ c _
  induction as with
  | nil =>
    intro bs r r' _ _ _ heq
    cases bs with
    | nil => exact ⟨rfl, List.append_cancel_left heq⟩
    | cons b bs =>
      simp only [List.flatMap_nil, List.nil_append, List.flatMap_cons, List.append_assoc] at heq
      exact absurd heq.symm (hstop b _ _)
  | cons a as ih =>
    intro bs r r' hbs _ _ heq
    cases bs with
    | nil =>
      simp only [List.flatMap_nil, List.nil_append, List.flatMap_cons, List.append_assoc] at heq
      exact absurd heq (hstop a _ _)
    | cons b bs =>
      simp only [List.flatMap_cons, List.append_assoc] at heq
      obtain ⟨rfl, hrest⟩ := has a List.mem_cons_self b _ _ (hbs b List.mem_cons_self) (hnext as r) (hnext bs r') heq
      rw [← List.append_assoc, ← List.append_assoc] at hrest
      obtain ⟨rfl, rfl⟩ := ih (fun c hc => has c (List.mem_cons_of_mem _ hc)) bs r r'
        (fun c hc => hbs c (List.mem_cons_of_mem _ hc)) trivial trivial hrest
      exact ⟨rfl, rfl⟩

/-! ## Numbers -/

/-- A text that does not go on with a digit. -/
def NoDigit (r : List Char) : Prop := ∀ c rest, r = c :: rest → c.isDigit = false

theorem noDigit_nil : NoDigit [] := fun _ _ h => nomatch h

theorem noDigit_cons {c : Char} {r : List Char} (h : c.isDigit = false) : NoDigit (c :: r) := by
  rintro _ _ ⟨⟩
  exact h

/-- Texts of digits end where no digit follows. -/
theorem append_digits_inj {ds es r r' : List Char} (hds : ∀ c ∈ ds, c.isDigit = true)
    (hes : ∀ c ∈ es, c.isDigit = true) (hr : NoDigit r) (hr' : NoDigit r') (heq : ds ++ r = es ++ r') :
    ds = es ∧ r = r' := by
  have htake : ∀ {cs s : List Char}, (∀ c ∈ cs, c.isDigit = true) → NoDigit s →
      (cs ++ s).takeWhile Char.isDigit = cs := by
    intro cs s hcs hs
    rw [List.takeWhile_append_of_pos hcs]
    cases s with
    | nil => simp
    | cons c s => simp [hs c s rfl]
  have hsame : ds = es := by rw [← htake hds hr, heq, htake hes hr']
  subst hsame
  exact ⟨rfl, List.append_cancel_left heq⟩

theorem delimited_digits : Delimited (fun n : ℕ => Nat.toDigits 10 n) (fun _ => True) NoDigit := by
  intro a _ b r r' _ hr hr' heq
  have hdigits : ∀ n c, c ∈ Nat.toDigits 10 n → c.isDigit = true := fun n c hc =>
    Nat.isDigit_of_mem_toDigits (by decide) (by decide) hc
  obtain ⟨hsame, hrest⟩ := append_digits_inj (hdigits a) (hdigits b) hr hr' heq
  have hvalue := congrArg (Nat.ofDigitChars 10 · 0) hsame
  simp only [Nat.ofDigitChars_ten_toDigits] at hvalue
  exact ⟨hvalue, hrest⟩

end Framework
