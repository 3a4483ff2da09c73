import AionTrust.Impl.Core.Id
import AionTrust.Impl.Interop.Error

/-!
# Timestamps as text

`toRfc3339` writes a timestamp as `YYYY-MM-DDTHH:MM:SSZ`, by
`civilFromDays`; `fromRfc3339` reads that shape and nothing longer or shorter,
by `daysFromCivil`. A year is written with at least four characters, its sign
one of them.
-/

namespace AionTrust.Impl

open Framework (Bytes ensure okOr)

def secsPerDay : Int := 86400

/-- `{n:0width}`: the sign, then zeros up to the width, then the digits. -/
def padded (width : Nat) (n : Int) : String :=
  let sign := if n < 0 then ['-'] else []
  let digits := Nat.toDigits 10 n.natAbs
  String.ofList (sign ++ (List.replicate (width - sign.length - digits.length) '0' ++ digits))

/-! ## The civil calendar -/

/-- The cycle a number falls in: `if n >= 0 { n } else { n - (cycle - 1) } / cycle`. -/
def eraOf (cycle n : Int) : Run Int := do
  let biased ← (if n ≥ 0 then .ok n else i64 (n - (cycle - 1)))
  return biased.tdiv cycle

/-- Days since 1970-01-01, as year, month and day. -/
def civilFromDays (z : Int) : Run (Int × Int × Int) := do
  let z ← i64 (z + 719468)
  let era ← eraOf 146097 z
  let doe ← i64 (z - (← i64 (era * 146097)))
  let days ← i64 (doe - doe.tdiv 1460)
  let days ← i64 (days + doe.tdiv 36524)
  let days ← i64 (days - doe.tdiv 146096)
  let yoe := days.tdiv 365
  let y ← i64 (yoe + (← i64 (era * 400)))
  let start ← i64 ((← i64 (365 * yoe)) + yoe.tdiv 4)
  let start ← i64 (start - yoe.tdiv 100)
  let doy ← i64 (doe - start)
  let mp := (← i64 ((← i64 (5 * doy)) + 2)).tdiv 153
  let first := (← i64 ((← i64 (153 * mp)) + 2)).tdiv 5
  let d ← i64 ((← i64 (doy - first)) + 1)
  let m ← (if mp < 10 then i64 (mp + 3) else i64 (mp - 9))
  let y ← (if m ≤ 2 then i64 (y + 1) else .ok y)
  return (y, m, d)

/-- Year, month and day, as days since 1970-01-01. -/
def daysFromCivil (y m d : Int) : Run Int := do
  let y ← (if m ≤ 2 then i64 (y - 1) else .ok y)
  let era ← eraOf 400 y
  let yoe ← i64 (y - (← i64 (era * 400)))
  let mp ← (if m > 2 then i64 (m - 3) else i64 (m + 9))
  let first := (← i64 ((← i64 (153 * mp)) + 2)).tdiv 5
  let doy ← i64 ((← i64 (first + d)) - 1)
  let start ← i64 ((← i64 (yoe * 365)) + yoe.tdiv 4)
  let start ← i64 (start - yoe.tdiv 100)
  let doe ← i64 (start + doy)
  i64 ((← i64 ((← i64 (era * 146097)) + doe)) - 719468)

/-! ## Writing -/

/-- `YYYY-MM-DDTHH:MM:SSZ` of its fields. -/
def layout (y m d hh mm ss : Int) : String :=
  padded 4 y ++ "-" ++ padded 2 m ++ "-" ++ padded 2 d ++ "T" ++ padded 2 hh ++ ":" ++
    padded 2 mm ++ ":" ++ padded 2 ss ++ "Z"

def toRfc3339 (ts : Timestamp) : Run String := do
  -- `div_euclid` and `rem_euclid`
  let days := ts.secs.toInt / secsPerDay
  let sod := ts.secs.toInt % secsPerDay
  let (y, m, d) ← civilFromDays days
  return layout y m d (sod.tdiv 3600) ((sod.tmod 3600).tdiv 60) (sod.tmod 60)

/-! ## Reading -/

def num (s : String) : Run Int :=
  okOr (parseI64 s) (.error (.rfc3339 ("non-numeric field: " ++ s)))

/-- `b[i] != sep`. -/
def differs (b : Bytes) (i : Nat) (sep : UInt8) : Run Bool := do
  return (← okOr b[i]? (.panic .index)) != sep

/-- Whether the length or a separator of the layout is wrong, tried in order. -/
def misshapen (b : Bytes) : Run Bool :=
  pure (b.length != 20) <||> differs b 4 0x2d <||> differs b 7 0x2d <||> differs b 10 0x54 <||>
    differs b 13 0x3a <||> differs b 16 0x3a <||> differs b 19 0x5a

def fromRfc3339 (s : String) : Run Timestamp := do
  ensure ((← misshapen (asBytes s)) = false) (.error (.rfc3339 ("expected YYYY-MM-DDTHH:MM:SSZ: " ++ s)))
  let y ← num (← slice s 0 4)
  let mo ← num (← slice s 5 7)
  let d ← num (← slice s 8 10)
  let hh ← num (← slice s 11 13)
  let mm ← num (← slice s 14 16)
  let ss ← num (← slice s 17 19)
  ensure ((1 ≤ mo ∧ mo ≤ 12) ∧ (1 ≤ d ∧ d ≤ 31) ∧ hh ≤ 23 ∧ mm ≤ 59 ∧ ss ≤ 59)
    (.error (.rfc3339 ("field out of range: " ++ s)))
  let days ← daysFromCivil y mo d
  let secs ← i64 ((← i64 (days * secsPerDay)) + (← i64 (hh * 3600)))
  let secs ← i64 (secs + (← i64 (mm * 60)))
  let secs ← i64 (secs + ss)
  return ⟨Int64.ofInt secs⟩

end AionTrust.Impl
