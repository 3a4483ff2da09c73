import AionTrust.Framework.Calendar
import AionTrust.Impl.Interop.Rfc3339

/-!
# The shape of a timestamp

Six fields and what stands between them (`Fields.text`), and the texts of the
shape `DDDD-DD-DDTDD:DD:DDZ`, every `D` a digit, with each field in its range
(`InGrammar`). What `parse::<i64>` reads is wider (`Numeral`): with a sign in
some field, a text of the shape has values in range too (`SignedText`).
-/

namespace AionTrust.Spec

open AionTrust.Impl
open Framework (Bytes)

def IsDigit (b : UInt8) : Prop := 0x30 ≤ b ∧ b ≤ 0x39

instance : DecidablePred IsDigit := fun _ => inferInstanceAs (Decidable (_ ∧ _))

/-- The number digits write, after the number before them. -/
def numberFrom (n : Nat) (bs : Bytes) : Nat := bs.foldl (fun n b => 10 * n + (b - 0x30).toNat) n

def number (s : String) : Nat := numberFrom 0 (asBytes s)

/-- The fields of a timestamp, as text. -/
structure Fields where
  year : String
  month : String
  day : String
  hour : String
  minute : String
  second : String

def Fields.text (f : Fields) : String :=
  f.year ++ "-" ++ f.month ++ "-" ++ f.day ++ "T" ++ f.hour ++ ":" ++ f.minute ++ ":" ++ f.second ++ "Z"

/-- A field of as many digits as it is wide, from one number to another. -/
structure DigitField (width low high : Nat) (s : String) : Prop where
  length : (asBytes s).length = width
  digits : ∀ b ∈ asBytes s, IsDigit b
  range : low ≤ number s ∧ number s ≤ high

structure Fields.Wellformed (f : Fields) : Prop where
  year : DigitField 4 0 9999 f.year
  month : DigitField 2 1 12 f.month
  day : DigitField 2 1 31 f.day
  hour : DigitField 2 0 23 f.hour
  minute : DigitField 2 0 59 f.minute
  second : DigitField 2 0 59 f.second

/-- `DDDD-DD-DDTDD:DD:DDZ`. -/
def InGrammar (s : String) : Prop := ∃ f : Fields, f.Wellformed ∧ s = f.text

/-- One of those whose day is a day of its month. -/
def RealDay (s : String) : Prop := ∃ f : Fields, f.Wellformed ∧ s = f.text ∧
  (number f.day : Int) ≤ Framework.daysInMonth (number f.year) (number f.month)

/-! ## Signs -/

/-- Digits after an optional sign, and what they say. -/
inductive Numeral : Bytes → Int → Prop
  | digits {bs : Bytes} (hne : bs ≠ []) (h : ∀ b ∈ bs, IsDigit b) : Numeral bs (numberFrom 0 bs)
  | plus {bs : Bytes} (hne : bs ≠ []) (h : ∀ b ∈ bs, IsDigit b) : Numeral (0x2b :: bs) (numberFrom 0 bs)
  | minus {bs : Bytes} (hne : bs ≠ []) (h : ∀ b ∈ bs, IsDigit b) : Numeral (0x2d :: bs) (-numberFrom 0 bs)

/-- The values of the fields. -/
structure Values where
  year : Int
  month : Int
  day : Int
  hour : Int
  minute : Int
  second : Int

/-- A field of a width says a value. -/
structure Says (width : Nat) (s : String) (n : Int) : Prop where
  length : (asBytes s).length = width
  numeral : Numeral (asBytes s) n

/-- Fields of the widths of the shape say values in the ranges. -/
structure Fields.Denotes (f : Fields) (v : Values) : Prop where
  year : Says 4 f.year v.year
  month : Says 2 f.month v.month
  day : Says 2 f.day v.day
  hour : Says 2 f.hour v.hour
  minute : Says 2 f.minute v.minute
  second : Says 2 f.second v.second
  range : (1 ≤ v.month ∧ v.month ≤ 12) ∧ (1 ≤ v.day ∧ v.day ≤ 31) ∧ v.hour ≤ 23 ∧ v.minute ≤ 59 ∧
    v.second ≤ 59

def HasSign (s : String) : Prop := ∃ bs, asBytes s = 0x2b :: bs ∨ asBytes s = 0x2d :: bs

/-- A text of such fields, some of them with a sign. -/
def SignedText (s : String) : Prop := ∃ (f : Fields) (v : Values), f.Denotes v ∧ s = f.text ∧
  ∃ x ∈ [f.year, f.month, f.day, f.hour, f.minute, f.second], HasSign x

end AionTrust.Spec
