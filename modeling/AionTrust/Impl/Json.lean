import Mathlib.Data.Nat.Log
import Mathlib.Tactic.Ring

/-!
# JSON values

`serde_json::Value` as the crates read it: a number is a `u64`, a negative
`i64` or a finite `f64` (`Number`), and `asI64`, `asF64`, `asStr` are the
readings a comparison tries. An object lists its entries in the order of its
map, which is the order of the keys.
-/

namespace AionTrust.Impl

/-- A finite `f64`, `mantissa * 2 ^ exponent`. The sign of zero is left out:
a comparison does not see it. -/
structure F64 where
  mantissa : Int
  exponent : Int
  mantissa_lt : mantissa.natAbs < 2 ^ 53
  exponent_range : -1074 ≤ exponent ∧ exponent ≤ 971

namespace F64

/-- `f64::partial_cmp` on finite values: both at the smaller exponent. -/
def partialCmp (x y : F64) : Ordering :=
  let e := min x.exponent y.exponent
  compare (x.mantissa * 2 ^ (x.exponent - e).toNat) (y.mantissa * 2 ^ (y.exponent - e).toNat)

/-- The mantissa of `n` shifted right by `s`, to nearest, ties to even. -/
def roundShift (n s : Nat) : Nat :=
  let q := n >>> s
  let r := n % 2 ^ s
  if 2 ^ s < 2 * r ∨ (2 ^ s = 2 * r ∧ q % 2 = 1) then q + 1 else q

theorem roundShift_le {n s : Nat} (h : n < 2 ^ (53 + s)) : roundShift n s ≤ 2 ^ 53 := by
  have hq : n >>> s < 2 ^ 53 := by
    rw [Nat.shiftRight_eq_div_pow]
    exact Nat.div_lt_of_lt_mul (by rw [← pow_add, Nat.add_comm]; exact h)
  simp only [roundShift]
  split <;> omega

/-- The exponent of the last place of a 64-bit magnitude. -/
def shiftOf (n : Nat) : Nat := n.log2 + 1 - 53

theorem lt_shiftOf (n : Nat) : n < 2 ^ (53 + shiftOf n) := by
  refine Nat.lt_of_lt_of_le Nat.lt_log2_self (Nat.pow_le_pow_right (by decide) ?_)
  unfold shiftOf; omega

theorem shiftOf_le {n : Nat} (h : n < 2 ^ 64) : shiftOf n ≤ 11 := by
  by_cases h0 : n = 0
  · subst h0; decide
  · have := (Nat.log2_lt h0).mpr h
    unfold shiftOf; omega

/-- `n as f64`, for an integer of at most 64 bits. -/
def ofInt (n : Int) (hn : n.natAbs < 2 ^ 64) : F64 :=
  let s := shiftOf n.natAbs
  let q := roundShift n.natAbs s
  have hs := shiftOf_le hn
  have hq : q ≤ 2 ^ 53 := roundShift_le (lt_shiftOf _)
  -- a carry out of the mantissa moves the exponent
  if h : q = 2 ^ 53 then
    ⟨n.sign * 2 ^ 52, s + 1, by
      rw [Int.natAbs_mul]
      rcases Int.sign_trichotomy n with e | e | e <;> rw [e] <;> decide, by omega⟩
  else
    ⟨n.sign * q, s, by
      rw [Int.natAbs_mul, Int.natAbs_natCast]
      rcases Int.sign_trichotomy n with e | e | e <;> rw [e] <;> simp <;> omega, by omega⟩

end F64

/-- `serde_json::Number`. -/
inductive Number where
  | posInt (n : UInt64)
  | negInt (n : Int64)
  | float (x : F64)

/-- `serde_json::Value`. -/
inductive Value where
  | null
  | bool (b : Bool)
  | number (n : Number)
  | string (s : String)
  | array (vs : List Value)
  | object (entries : List (String × Value))

namespace Value

/-- `Value::from`, of an `i64`. -/
def ofI64 (n : Int64) : Value := .number (if n < 0 then .negInt n else .posInt n.toUInt64)

/-- `Value::as_i64`. -/
def asI64 : Value → Option Int64
  | number (.posInt n) => if n.toNat < 2 ^ 63 then some n.toInt64 else none
  | number (.negInt n) => some n
  | _ => none

/-- `Value::as_f64`. -/
def asF64 : Value → Option F64
  | number (.posInt n) => some (F64.ofInt n.toNat (by have := n.toNat_lt; omega))
  | number (.negInt n) =>
    some (F64.ofInt n.toInt (by have := n.toInt_lt; have := n.le_toInt; omega))
  | number (.float x) => some x
  | _ => none

/-- `Value::as_str`. -/
def asStr : Value → Option String
  | string s => some s
  | _ => none

end Value

end AionTrust.Impl
