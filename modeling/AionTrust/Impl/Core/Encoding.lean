import AionTrust.Impl.Core.External

/-!
# Hex codec and the signing-byte writer

`toHex`, `fromHex` and `decodeArray`, and `SigningWriter`, which puts a 4-byte
big-endian length before every field. A string written by `toHex` reads back
(`fromHex_toHex`); a writer's bytes are the frames of its fields
(`SigningWriter.buf_field`).
-/

namespace AionTrust.Impl

open Framework (Bytes beBytes frame frames)

/-- `str::as_bytes`. -/
def asBytes (s : String) : Bytes := s.toByteArray.data.toList

theorem asBytes_inj {s t : String} (h : asBytes s = asBytes t) : s = t :=
  String.toByteArray_inj.mp (ByteArray.ext (Array.toList_inj.mp h))

theorem asBytes_append (s t : String) : asBytes (s ++ t) = asBytes s ++ asBytes t := by
  simp [asBytes]

theorem asBytes_ofList (cs : List Char) :
    asBytes (String.ofList cs) = cs.flatMap String.utf8EncodeChar := by
  simp [asBytes, List.utf8Encode]

/-- `TrustError`, less the storage errors, which no modelled function returns. -/
inductive TrustError where
  | crypto (message : String)
  | decode (message : String)
  deriving DecidableEq

/-- `Display`. -/
def TrustError.text : TrustError → String
  | crypto message => "crypto: " ++ message
  | decode message => "decode: " ++ message

/-! ## Hex -/

/-- `HEX`. -/
def hexAlphabet : Bytes := asBytes "0123456789abcdef"

/-- The character of a nibble: `HEX[n] as char`. -/
def hexChar (n : UInt8) : Char := Char.ofNat (hexAlphabet.getD n.toNat 0).toNat

def toHex (bytes : Bytes) : String :=
  String.ofList (bytes.flatMap fun b : UInt8 => [hexChar (b >>> 4), hexChar (b &&& 0x0f)])

/-- `nib`: the value of a hex digit, in either case. -/
def nib (c : UInt8) : Except TrustError UInt8 :=
  if 0x30 ≤ c ∧ c ≤ 0x39 then .ok (c - 0x30)
  else if 0x61 ≤ c ∧ c ≤ 0x66 then .ok (c - 0x61 + 10)
  else if 0x41 ≤ c ∧ c ≤ 0x46 then .ok (c - 0x41 + 10)
  else .error (.decode "invalid hex character")

/-- The loop of `fromHex`, over `chunks_exact(2)`. -/
def fromHexPairs : Bytes → Except TrustError Bytes
  | hi :: lo :: rest => do
    let h ← nib hi
    let l ← nib lo
    let out ← fromHexPairs rest
    return (h * 16 + l) :: out
  | _ => .ok []

def fromHex (s : String) : Except TrustError Bytes :=
  if (asBytes s).length % 2 ≠ 0 then .error (.decode "hex length must be even")
  else fromHexPairs (asBytes s)

/-- `decode_array::<N>`. -/
def decodeArray (n : Nat) (s : String) : Except TrustError (ByteVec n) := do
  let v ← fromHex s
  if h : v.length = n then .ok ⟨v, h⟩ else .error (.decode s!"expected {n} bytes")

/-! ### What is written reads back -/

/-- A nibble's character is one byte, and reads back as the nibble. -/
theorem hexChar_spec : ∀ n : Fin 16,
    String.utf8EncodeChar (hexChar (UInt8.ofNat n)) = [hexAlphabet.getD n 0] ∧
      nib (hexAlphabet.getD n 0) = .ok (UInt8.ofNat n) := by
  decide

theorem hexChar_lt {n : UInt8} (h : n.toNat < 16) :
    ∃ c, String.utf8EncodeChar (hexChar n) = [c] ∧ nib c = .ok n := by
  obtain ⟨hc, hn⟩ := hexChar_spec ⟨n.toNat, h⟩
  rw [UInt8.ofNat_toNat] at hc hn
  exact ⟨_, hc, hn⟩

theorem toNat_high (b : UInt8) : (b >>> 4).toNat = b.toNat / 16 := by
  simp [UInt8.toNat_shiftRight, Nat.shiftRight_eq_div_pow]

theorem toNat_low (b : UInt8) : (b &&& 0x0f).toNat = b.toNat % 16 := by
  simpa using Nat.and_two_pow_sub_one_eq_mod b.toNat 4

/-- A byte is its two nibbles. -/
theorem byte_halves (b : UInt8) : (b >>> 4) * 16 + (b &&& 0x0f) = b := by
  have hb := b.toNat_lt
  apply UInt8.toNat_inj.mp
  rw [UInt8.toNat_add, UInt8.toNat_mul, toNat_high, toNat_low]
  simp only [UInt8.reduceToNat]
  omega

/-- A byte's two characters are two bytes, which read back as its nibbles. -/
theorem hexPair_spec (b : UInt8) : ∃ c d,
    String.utf8EncodeChar (hexChar (b >>> 4)) = [c] ∧ nib c = .ok (b >>> 4) ∧
    String.utf8EncodeChar (hexChar (b &&& 0x0f)) = [d] ∧ nib d = .ok (b &&& 0x0f) := by
  have hb := b.toNat_lt
  obtain ⟨c, hc, hn⟩ := hexChar_lt (n := b >>> 4) (by rw [toNat_high]; omega)
  obtain ⟨d, hd, hm⟩ := hexChar_lt (n := b &&& 0x0f) (by rw [toNat_low]; omega)
  exact ⟨c, d, hc, hn, hd, hm⟩

theorem toHex_cons (b : UInt8) (bs : Bytes) : ∃ c d, nib c = .ok (b >>> 4) ∧
    nib d = .ok (b &&& 0x0f) ∧ asBytes (toHex (b :: bs)) = c :: d :: asBytes (toHex bs) := by
  obtain ⟨c, d, hc, hn, hd, hm⟩ := hexPair_spec b
  refine ⟨c, d, hn, hm, ?_⟩
  simp only [toHex, asBytes_ofList, List.flatMap_cons, List.cons_append, List.nil_append, hc, hd]

@[simp] theorem length_asBytes_toHex (bs : Bytes) : (asBytes (toHex bs)).length = 2 * bs.length := by
  induction bs with
  | nil => rfl
  | cons b bs ih =>
    obtain ⟨c, d, -, -, e⟩ := toHex_cons b bs
    rw [e]
    simp only [List.length_cons, ih]; omega

theorem fromHexPairs_toHex (bs : Bytes) : fromHexPairs (asBytes (toHex bs)) = .ok bs := by
  induction bs with
  | nil => rfl
  | cons b bs ih =>
    obtain ⟨c, d, hc, hd, e⟩ := toHex_cons b bs
    rw [e]
    simp only [fromHexPairs, hc, hd, ih, bind, Except.bind, pure, Except.pure, byte_halves]

/-- A string written by `toHex` reads back. -/
@[simp] theorem fromHex_toHex (bs : Bytes) : fromHex (toHex bs) = .ok bs := by
  rw [fromHex, length_asBytes_toHex, if_neg (by omega), fromHexPairs_toHex]

@[simp] theorem decodeArray_toHex {n : Nat} (v : ByteVec n) : decodeArray n (toHex v.val) = .ok v := by
  simp only [decodeArray, fromHex_toHex, bind, Except.bind, ByteVec.length_val, dif_pos]

/-! ## The signing-byte writer -/

structure SigningWriter where
  buf : Bytes

/-- `u32::to_be_bytes`. -/
def u32Bytes (v : UInt32) : Bytes := beBytes 4 v.toNat

/-- `i64::to_be_bytes`. -/
def i64Bytes (v : Int64) : Bytes := beBytes 8 v.toUInt64.toNat

theorem u32Bytes_inj {v v' : UInt32} (h : u32Bytes v = u32Bytes v') : v = v' :=
  UInt32.toNat_inj.mp (Framework.beBytes_inj v.toNat_lt v'.toNat_lt h)

theorem i64Bytes_inj {v v' : Int64} (h : i64Bytes v = i64Bytes v') : v = v' := by
  have hu : v.toUInt64 = v'.toUInt64 := UInt64.toNat_inj.mp <|
    Framework.beBytes_inj v.toUInt64.toNat_lt v'.toUInt64.toNat_lt h
  rw [← Int64.toInt64_toUInt64 v, hu, Int64.toInt64_toUInt64]

namespace SigningWriter

/-- Appends a field behind its length, `bytes.len() as u32`. -/
def field (w : SigningWriter) (bytes : Bytes) : SigningWriter :=
  ⟨w.buf ++ u32Bytes (UInt32.ofNat bytes.length) ++ bytes⟩

/-- Starts a message in `domain`. -/
def new (domain : Bytes) : SigningWriter := (⟨[]⟩ : SigningWriter).field domain

def int (w : SigningWriter) (v : Int64) : SigningWriter := w.field (i64Bytes v)

def u32 (w : SigningWriter) (v : UInt32) : SigningWriter := w.field (u32Bytes v)

def intoBytes (w : SigningWriter) : Bytes := w.buf

theorem buf_field (w : SigningWriter) (bytes : Bytes) :
    (w.field bytes).buf = w.buf ++ frame 4 bytes := by
  simp only [field, frame, u32Bytes, UInt32.toNat_ofNat', List.append_assoc]
  rw [← Framework.beBytes_mod 4 bytes.length]
  rfl

/-- What a writer holds, as the fields it was given. -/
def Holds (w : SigningWriter) (fs : List Bytes) : Prop := w.buf = frames 4 fs

theorem Holds.field {w : SigningWriter} {fs : List Bytes} (h : w.Holds fs) (bytes : Bytes) :
    (w.field bytes).Holds (fs ++ [bytes]) := by
  unfold Holds at *
  rw [buf_field, h, Framework.frames_append]
  simp

theorem holds_new (domain : Bytes) : (new domain).Holds [domain] := by
  simp [Holds, new, buf_field]

end SigningWriter

end AionTrust.Impl
