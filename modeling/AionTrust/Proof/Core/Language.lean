import Mathlib.Tactic.Common
import AionTrust.Impl.Core.Language

/-!
# The language

A text that is cut at a character and joined again is the text
(`intercalate_split`), and parts without the character that are joined are cut
apart again (`split_intercalate`, `splitOnce_append`). The bytes of a text are
read as the text (`fromUtf8Lossy_asBytes`): each character is read by the range
its first byte is in (`lossyChar_encode`).
-/

namespace AionTrust.Proof

open AionTrust.Impl
open Framework (Bytes)

/-! ## Cutting strings -/

theorem intercalate_split (sep : Char) (s : String) : (String.singleton sep).intercalate (split sep s) = s := by
  rw [← String.toList_inj, String.toList_intercalate, String.toList_singleton, split, List.map_map]
  refine (congrArg _ ?_).trans (List.intercalate_splitOn sep)
  exact (List.map_congr_left fun cs _ => String.toList_ofList).trans (List.map_id _)

theorem split_intercalate (sep : Char) {parts : List String} (hne : parts ≠ [])
    (h : ∀ s ∈ parts, sep ∉ s.toList) : split sep ((String.singleton sep).intercalate parts) = parts := by
  have hparts : ∀ l ∈ parts.map String.toList, sep ∉ l := by simpa using h
  rw [split, String.toList_intercalate, String.toList_singleton]
  refine (congrArg _ (List.splitOn_intercalate sep hparts (by simpa using hne))).trans ?_
  rw [List.map_map]
  exact (List.map_congr_left fun s _ => String.ofList_toList).trans (List.map_id _)

theorem splitOnce_append {sep : Char} {a : String} (h : sep ∉ a.toList) (b : String) :
    splitOnce sep (a ++ String.singleton sep ++ b) = some (a, b) := by
  have htext : (a ++ String.singleton sep ++ b).toList = a.toList ++ sep :: b.toList := by simp
  have hdrop : (a.toList ++ sep :: b.toList).dropWhile (· ≠ sep) = sep :: b.toList := by
    rw [List.dropWhile_append_of_pos (by simpa using fun c hc => ne_of_mem_of_not_mem hc h)]
    exact List.dropWhile_cons_of_neg (by simp)
  have htake : (a.toList ++ sep :: b.toList).takeWhile (· ≠ sep) = a.toList := by
    rw [List.takeWhile_append_of_pos (by simpa using fun c hc => ne_of_mem_of_not_mem hc h),
      List.takeWhile_cons_of_neg (by simp), List.append_nil]
  rw [splitOnce, htext, hdrop, htake]
  simp

/-! ## Reading text -/

theorem toNat_byte {n : Nat} (hn : n < 256) : (UInt8.ofNat n).toNat = n := by
  rw [UInt8.toNat_ofNat']
  exact Nat.mod_eq_of_lt hn

theorem utf8CharWidth_ofNat {n : Nat} (hn : n < 256) : utf8CharWidth (UInt8.ofNat n) =
    if n ≤ 0x7f then 1 else if 0xc2 ≤ n ∧ n ≤ 0xdf then 2 else if 0xe0 ≤ n ∧ n ≤ 0xef then 3
    else if 0xf0 ≤ n ∧ n ≤ 0xf4 then 4 else 0 := by
  simp only [utf8CharWidth, UInt8.le_iff_toNat_le, toNat_byte hn]
  rfl

/-- The byte after the first of a character. -/
theorem secondAllowed_ofNat {first n : Nat} (hf : first < 256) (hn : n < 64)
    (h : (first = 0xe0 → 32 ≤ n) ∧ (first = 0xed → n < 32) ∧ (first = 0xf0 → 16 ≤ n) ∧
      (first = 0xf4 → n < 16)) :
    secondAllowed (UInt8.ofNat first) (UInt8.ofNat (n + 128)) = true := by
  obtain ⟨h₀, h₁, h₂, h₃⟩ := h
  have hbyte := toNat_byte (show n + 128 < 256 by omega)
  simp only [secondAllowed, isContinuation, ← UInt8.toNat_inj, UInt8.le_iff_toNat_le, toNat_byte hf, hbyte,
    UInt8.reduceToNat]
  split
  · simp; omega
  split
  · simp; omega
  split
  · simp; omega
  split
  · simp; omega
  simp; omega

theorem lossyTail_cons {k bits n : Nat} (hn : n < 64) (bs : Bytes) :
    lossyTail (k + 1) bits (UInt8.ofNat (n + 128) :: bs) = lossyTail k (bits * 64 + n) bs := by
  have hbyte := toNat_byte (show n + 128 < 256 by omega)
  have hcont : isContinuation (UInt8.ofNat (n + 128)) = true := by
    simp only [isContinuation, UInt8.le_iff_toNat_le, hbyte, UInt8.reduceToNat, decide_eq_true_eq]
    omega
  rw [lossyTail, hcont, if_pos rfl, addBits, hbyte, show (n + 128) % 64 = n by omega]

theorem lossyChar_many {first k n : Nat} (hf : first < 256) (hwidth : utf8CharWidth (UInt8.ofNat first) = k + 2)
    (hn : n < 64)
    (h : (first = 0xe0 → 32 ≤ n) ∧ (first = 0xed → n < 32) ∧ (first = 0xf0 → 16 ≤ n) ∧
      (first = 0xf4 → n < 16))
    (bs : Bytes) : lossyChar (UInt8.ofNat first) (UInt8.ofNat (n + 128) :: bs) =
      lossyTail k (first % 2 ^ (5 - k) * 64 + n) bs := by
  have hbits : addBits (first % 2 ^ (7 - (k + 2))) (UInt8.ofNat (n + 128)) = first % 2 ^ (5 - k) * 64 + n := by
    rw [addBits, toNat_byte (by omega), show (n + 128) % 64 = n by omega, show 7 - (k + 2) = 5 - k by omega]
  dsimp only [lossyChar]
  rw [hwidth, if_neg (by omega), if_neg (by omega), secondAllowed_ofNat hf hn h, if_pos rfl, toNat_byte hf,
    hbits]
  rfl

theorem lossyChar_encode (c : Char) : ∃ b rest, String.utf8EncodeChar c = b :: rest ∧
    ∀ bs, lossyChar b (rest ++ bs) = (c, bs) := by
  have hv : c.val.toNat < 0xd800 ∨ 0xdfff < c.val.toNat ∧ c.val.toNat < 0x110000 := c.valid
  have hc : ∀ n, n = c.val.toNat → Char.ofNat n = c := fun n hn => hn ▸ Char.ofNat_toNat c
  fun_cases String.utf8EncodeChar
  · rename_i v hv₁
    refine ⟨_, _, rfl, fun bs => ?_⟩
    dsimp only [lossyChar]
    rw [utf8CharWidth_ofNat (by omega), if_pos hv₁, toNat_byte (by omega)]
    simp only [hc v rfl]
    rfl
  · rename_i v hv₁ hv₂
    refine ⟨_, _, rfl, fun bs => ?_⟩
    have hwidth : utf8CharWidth (UInt8.ofNat (v / 64 % 32 + 192)) = 0 + 2 := by
      rw [utf8CharWidth_ofNat (by omega), if_neg (by omega), if_pos (by omega)]
    rw [List.cons_append, lossyChar_many (by omega) hwidth (by omega) (by omega), List.nil_append, lossyTail,
      hc _ (by omega)]
  · rename_i v hv₁ hv₂ hv₃
    refine ⟨_, _, rfl, fun bs => ?_⟩
    have hwidth : utf8CharWidth (UInt8.ofNat (v / 4096 % 16 + 224)) = 1 + 2 := by
      rw [utf8CharWidth_ofNat (by omega), if_neg (by omega), if_neg (by omega), if_pos (by omega)]
    rw [List.cons_append, lossyChar_many (by omega) hwidth (by omega) (by omega), List.cons_append,
      lossyTail_cons (by omega), List.nil_append, lossyTail, hc _ (by omega)]
  · rename_i v hv₁ hv₂ hv₃
    refine ⟨_, _, rfl, fun bs => ?_⟩
    have hwidth : utf8CharWidth (UInt8.ofNat (v / 262144 % 8 + 240)) = 2 + 2 := by
      rw [utf8CharWidth_ofNat (by omega), if_neg (by omega), if_neg (by omega), if_neg (by omega),
        if_pos (by omega)]
    rw [List.cons_append, lossyChar_many (by omega) hwidth (by omega) (by omega), List.cons_append,
      lossyTail_cons (by omega), List.cons_append, lossyTail_cons (by omega), List.nil_append, lossyTail,
      hc _ (by omega)]

/-- Text is read back from its bytes. -/
theorem fromUtf8Lossy_asBytes (s : String) : fromUtf8Lossy (asBytes s) = s := by
  have hchars : ∀ cs : List Char, lossyChars (cs.flatMap String.utf8EncodeChar) = cs := by
    intro cs
    induction cs with
    | nil => rw [List.flatMap_nil, lossyChars]
    | cons c cs ih =>
      obtain ⟨b, rest, hbytes, hchar⟩ := lossyChar_encode c
      rw [List.flatMap_cons, hbytes, List.cons_append, lossyChars, hchar, ih]
  rw [← String.ofList_toList (s := s), asBytes_ofList, fromUtf8Lossy, hchars]

/-! ## Writing bytes -/

/-- A character of one byte is not in a text without the byte. -/
theorem not_mem_toList {c : Char} {b : UInt8} (hc : String.utf8EncodeChar c = [b]) {s : String}
    (h : b ∉ asBytes s) : c ∉ s.toList := by
  intro hmem
  rw [← String.ofList_toList (s := s), asBytes_ofList] at h
  exact h (List.mem_flatMap.mpr ⟨c, hmem, by simp [hc]⟩)

theorem utf8EncodeChar_ascii : ∀ n < 0x80, String.utf8EncodeChar (Char.ofNat n) = [UInt8.ofNat n] := by
  decide

/-- ASCII bytes are the bytes of a text. -/
theorem exists_text {bs : Bytes} (h : ∀ b ∈ bs, b < 0x80) : ∃ s, asBytes s = bs := by
  refine ⟨String.ofList (bs.map fun b => Char.ofNat b.toNat), ?_⟩
  rw [asBytes_ofList, List.flatMap_map]
  induction bs with
  | nil => rfl
  | cons b bs ih =>
    obtain ⟨hb, hbs⟩ := List.forall_mem_cons.mp h
    rw [List.flatMap_cons, utf8EncodeChar_ascii _ (UInt8.lt_iff_toNat_lt.mp hb), UInt8.ofNat_toNat, ih hbs]
    rfl

end AionTrust.Proof
