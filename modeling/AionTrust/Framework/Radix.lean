import Mathlib.Data.List.TakeWhile
import Mathlib.Data.Nat.Digits.Lemmas

/-!
# Changing the base of a number

A number in a base, with its leading zeros: `value` is the number of the
digits, most significant first, and `leading` counts the zeros before them;
the two determine the digits (`positional_eq`). `mulAdd` is one step of the
change to another base: a carry that runs through the digits, least
significant first, and multiplies the number while it adds a digit
(`mulAdd_digits`). Where the carry starts below the factor it stays there
(`carry_lt`).
-/

namespace Framework

/-- The number of digits, most significant first. -/
def value (base : Nat) (vs : List Nat) : Nat := vs.foldl (fun n v => v + n * base) 0

/-- The zeros before the first other digit. -/
def leading (vs : List Nat) : Nat := (vs.takeWhile (· = 0)).length

/-- The digits of a number behind zeros. -/
def positional (base zeros n : Nat) : List Nat := List.replicate zeros 0 ++ (Nat.digits base n).reverse

/-- The digits of `n`, least significant first, become those of
`carry + n * factor`. -/
def mulAdd (factor base : Nat) : Nat → List Nat → List Nat
  | carry, [] => Nat.digits base carry
  | carry, d :: ds => (carry + d * factor) % base :: mulAdd factor base ((carry + d * factor) / base) ds

theorem value_eq (base : Nat) (vs : List Nat) : value base vs = Nat.ofDigits base vs.reverse := by
  rw [value, Nat.ofDigits_eq_foldr, List.foldr_reverse]
  congr 1
  funext n v
  rw [Nat.mul_comm]
  rfl

theorem mulAdd_digits {factor base : Nat} (hfactor : 0 < factor) (hbase : 1 < base) (n carry : Nat) :
    mulAdd factor base carry (Nat.digits base n) = Nat.digits base (carry + n * factor) := by
  induction n using Nat.strong_induction_on generalizing carry with
  | _ n ih =>
    rcases Nat.eq_zero_or_pos n with rfl | hn
    · rw [Nat.digits_zero, mulAdd, Nat.zero_mul, Nat.add_zero]
    · have hpos : 0 < carry + n * factor := by positivity
      have hmod : (carry + n % base * factor) % base = (carry + n * factor) % base := by
        rw [Nat.add_mod, Nat.mod_mul_mod, ← Nat.add_mod]
      have hdiv : (carry + n % base * factor) / base + n / base * factor = (carry + n * factor) / base := by
        rw [← Nat.add_mul_div_right _ _ (Nat.zero_lt_of_lt hbase)]
        congr 1
        conv_rhs => rw [← Nat.mod_add_div n base]
        ring
      rw [Nat.digits_def' hbase hn, mulAdd, ih _ (Nat.div_lt_self hn hbase), Nat.digits_def' hbase hpos,
        hmod, hdiv]

/-- A carry below the factor stays below it. -/
theorem carry_lt {factor base carry d : Nat} (hcarry : carry < factor) (hd : d < base) :
    (carry + d * factor) / base < factor := by
  rw [Nat.div_lt_iff_lt_mul (Nat.zero_lt_of_lt hd)]
  calc carry + d * factor < factor + d * factor := by omega
    _ = (d + 1) * factor := by ring
    _ ≤ base * factor := Nat.mul_le_mul_right _ hd
    _ = factor * base := Nat.mul_comm ..

/-! ## Leading zeros -/

theorem leading_replicate (zeros : Nat) {vs : List Nat} (h : ∀ v, vs.head? = some v → v ≠ 0) :
    leading (List.replicate zeros 0 ++ vs) = zeros := by
  have hvs : vs.takeWhile (· = 0) = [] := by
    cases vs with
    | nil => rfl
    | cons v vs => rw [List.takeWhile_cons_of_neg (by simpa using h v rfl)]
  rw [leading, List.takeWhile_append_of_pos (by simp), hvs, List.append_nil, List.length_replicate]

theorem head_digits {base n v : Nat} (h : (Nat.digits base n).reverse.head? = some v) : v ≠ 0 := by
  rw [List.head?_reverse] at h
  have hn : n ≠ 0 := by
    rintro rfl
    simp at h
  rw [List.getLast?_eq_getLast_of_ne_nil (Nat.digits_ne_nil_iff_ne_zero.mpr hn)] at h
  rw [← Option.some.inj h]
  exact Nat.getLast_digit_ne_zero base hn

@[simp] theorem leading_positional (base zeros n : Nat) : leading (positional base zeros n) = zeros :=
  leading_replicate zeros fun _ => head_digits

theorem value_replicate (base zeros : Nat) (vs : List Nat) :
    value base (List.replicate zeros 0 ++ vs) = value base vs := by
  rw [value_eq, value_eq, List.reverse_append, List.reverse_replicate, Nat.ofDigits_append_replicate_zero]

@[simp] theorem value_positional (base zeros n : Nat) : value base (positional base zeros n) = n := by
  rw [positional, value_replicate, value_eq, List.reverse_reverse, Nat.ofDigits_digits]

theorem positional_lt {base zeros n : Nat} (hbase : 1 < base) : ∀ v ∈ positional base zeros n, v < base := by
  intro v hv
  rcases List.mem_append.mp hv with hv | hv
  · rw [(List.mem_replicate.mp hv).2]
    exact Nat.zero_lt_of_lt hbase
  · exact Nat.digits_lt_base hbase (List.mem_reverse.mp hv)

/-- Digits are determined by their number and their leading zeros. -/
theorem positional_eq {base : Nat} (hbase : 1 < base) {vs : List Nat} (h : ∀ v ∈ vs, v < base) :
    positional base (leading vs) (value base vs) = vs := by
  have hsplit : List.replicate (leading vs) 0 ++ vs.dropWhile (· = 0) = vs := by
    conv_rhs => rw [← List.takeWhile_append_dropWhile (p := (· = 0)) (l := vs)]
    congr 1
    exact (List.eq_replicate_of_mem fun v hv => by simpa using List.mem_takeWhile_imp hv).symm
  generalize hrest : vs.dropWhile (· = 0) = rest at hsplit
  have hhead : ∀ v, rest.head? = some v → v ≠ 0 := fun v hv => by
    have := List.head?_dropWhile_not (p := fun v : Nat => decide (v = 0)) vs
    simpa [hrest, hv] using this
  rw [positional]
  conv_lhs => rw [← hsplit]
  rw [leading_replicate _ hhead, value_replicate, value_eq, Nat.digits_ofDigits base hbase, List.reverse_reverse,
    hsplit]
  · intro v hv
    rw [← hsplit] at h
    exact h v (List.mem_append_right _ (List.mem_reverse.mp hv))
  · intro hne
    rw [List.getLast_reverse]
    exact hhead _ (List.head?_eq_some_head _)

end Framework
