import AionTrust.Impl.Core.Encoding

/-!
# The language

What the crates use of the language and its standard library: panics
(`Panic`), cutting a string (`trim`, `split`, `splitOnce`, `lines`), reading a
number (`parseI64`, `parseU8`) and reading bytes as text, where every maximal
ill-formed piece is one `U+FFFD` (`fromUtf8Lossy`).
-/

namespace AionTrust.Impl

open Framework (Bytes)

/-- A panic: an arithmetic overflow, an index out of range, or a slice that
cuts a character or leaves the string. -/
inductive Panic where
  | overflow
  | index
  | slice
  deriving DecidableEq

/-! ## Cutting strings -/

/-- `char::is_whitespace`. -/
def isWhitespace (c : Char) : Bool :=
  let n := c.toNat
  (0x09 ≤ n && n ≤ 0x0d) || n == 0x20 || n == 0x85 || n == 0xa0 || n == 0x1680 ||
    (0x2000 ≤ n && n ≤ 0x200a) || n == 0x2028 || n == 0x2029 || n == 0x202f || n == 0x205f ||
    n == 0x3000

/-- `str::trim`. -/
def trim (s : String) : String :=
  String.ofList (((s.toList.dropWhile isWhitespace).reverse.dropWhile isWhitespace).reverse)

/-- `str::split`, at a character. -/
def split (sep : Char) (s : String) : List String := (s.toList.splitOn sep).map String.ofList

/-- `str::split_once`, at a character. -/
def splitOnce (sep : Char) (s : String) : Option (String × String) :=
  match s.toList.dropWhile (· ≠ sep) with
  | [] => none
  | _ :: rest => some (String.ofList (s.toList.takeWhile (· ≠ sep)), String.ofList rest)

/-- `strip_suffix('\r')`, where there is one. -/
def stripCr (s : String) : String :=
  if s.toList.getLast? = some '\r' then String.ofList s.toList.dropLast else s

/-- `str::lines`: what follows the last line break is a line unless it is empty. -/
def lines (s : String) : List String :=
  let pieces := split '\n' s
  pieces.dropLast.map stripCr ++ pieces.getLast?.toList.filter (· ≠ "")

/-! ## Reading numbers -/

/-- The digits of `parse::<i64>`, after the sign, from the value so far. -/
def parseDigits (negative : Bool) : Int → Bytes → Option Int
  | value, [] => some value
  | value, b :: bs =>
    if 0x30 ≤ b ∧ b ≤ 0x39 then
      let digit : Int := (b - 0x30).toNat
      let value := value * 10 + (if negative then -digit else digit)
      if -2 ^ 63 ≤ value ∧ value < 2 ^ 63 then parseDigits negative value bs else none
    else none

/-- `parse::<i64>`: an optional sign, and digits. -/
def parseI64 (s : String) : Option Int :=
  match asBytes s with
  | [] => none
  | 0x2b :: bs => if bs = [] then none else parseDigits false 0 bs
  | 0x2d :: bs => if bs = [] then none else parseDigits true 0 bs
  | bs => parseDigits false 0 bs

/-- The digits of `parse::<u8>`, after the sign, from the value so far. -/
def parseU8Digits : Nat → Bytes → Option UInt8
  | value, [] => some (UInt8.ofNat value)
  | value, b :: bs =>
    if 0x30 ≤ b ∧ b ≤ 0x39 then
      let value := value * 10 + (b - 0x30).toNat
      if value < 256 then parseU8Digits value bs else none
    else none

/-- `parse::<u8>`: an optional plus, and digits. -/
def parseU8 (s : String) : Option UInt8 :=
  match asBytes s with
  | [] => none
  | 0x2b :: bs => if bs = [] then none else parseU8Digits 0 bs
  | bs => parseU8Digits 0 bs

/-! ## Reading text -/

/-- The length of the character a byte starts, or zero. -/
def utf8CharWidth (b : UInt8) : Nat :=
  if b ≤ 0x7f then 1
  else if 0xc2 ≤ b ∧ b ≤ 0xdf then 2
  else if 0xe0 ≤ b ∧ b ≤ 0xef then 3
  else if 0xf0 ≤ b ∧ b ≤ 0xf4 then 4
  else 0

def isContinuation (b : UInt8) : Bool := decide (0x80 ≤ b ∧ b ≤ 0xbf)

/-- Whether the second byte of a character may follow the first. -/
def secondAllowed (first b : UInt8) : Bool :=
  if first = 0xe0 then decide (0xa0 ≤ b ∧ b ≤ 0xbf)
  else if first = 0xed then decide (0x80 ≤ b ∧ b ≤ 0x9f)
  else if first = 0xf0 then decide (0x90 ≤ b ∧ b ≤ 0xbf)
  else if first = 0xf4 then decide (0x80 ≤ b ∧ b ≤ 0x8f)
  else isContinuation b

/-- `char::REPLACEMENT_CHARACTER`. -/
def replacement : Char := Char.ofNat 0xfffd

/-- The six bits of a continuation byte, after the bits so far. -/
def addBits (bits : Nat) (b : UInt8) : Nat := bits * 64 + b.toNat % 64

/-- The last `n` bytes of a character, after the bits so far. -/
def lossyTail : Nat → Nat → Bytes → Char × Bytes
  | 0, bits, bs => (Char.ofNat bits, bs)
  | _ + 1, _, [] => (replacement, [])
  | n + 1, bits, b :: bs =>
    if isContinuation b then lossyTail n (addBits bits b) bs else (replacement, b :: bs)

/-- One step of `Utf8Chunks`: a character, and the bytes after it. -/
def lossyChar (b : UInt8) (bs : Bytes) : Char × Bytes :=
  let width := utf8CharWidth b
  if width = 0 then (replacement, bs)
  else if width = 1 then (Char.ofNat b.toNat, bs)
  else
    match bs with
    | [] => (replacement, [])
    | b₁ :: bs₁ =>
      if secondAllowed b b₁ then lossyTail (width - 2) (addBits (b.toNat % 2 ^ (7 - width)) b₁) bs₁
      else (replacement, b₁ :: bs₁)

theorem lossyTail_length (n bits : Nat) (bs : Bytes) : (lossyTail n bits bs).2.length ≤ bs.length := by
  induction n generalizing bits bs with
  | zero => exact Nat.le_refl _
  | succ n ih =>
    cases bs with
    | nil => exact Nat.le_refl _
    | cons b bs =>
      rw [lossyTail]
      split
      · exact Nat.le_succ_of_le (ih _ bs)
      · exact Nat.le_refl _

theorem lossyChar_length (b : UInt8) (bs : Bytes) : (lossyChar b bs).2.length ≤ bs.length := by
  dsimp only [lossyChar]
  split
  · exact Nat.le_refl _
  split
  · exact Nat.le_refl _
  split
  · exact Nat.le_refl _
  split
  · exact Nat.le_succ_of_le (lossyTail_length _ _ _)
  · exact Nat.le_refl _

/-- The characters of `fromUtf8Lossy`. -/
def lossyChars : Bytes → List Char
  | [] => []
  | b :: bs => (lossyChar b bs).1 :: lossyChars (lossyChar b bs).2
termination_by bs => bs.length
decreasing_by exact Nat.lt_succ_of_le (lossyChar_length b bs)

/-- `String::from_utf8_lossy`. -/
def fromUtf8Lossy (bytes : Bytes) : String := String.ofList (lossyChars bytes)

end AionTrust.Impl
