import AionTrust.Spec.Timestamps

/-!
# Text

Strings by their bytes: an ASCII byte of a string is a character of its own
(`split_ascii`), and a slice between two positions is what lies between them
(`slice_append`). A number is read from a numeral, and from nothing else
(`parseI64_eq_some`).
-/

namespace AionTrust.Proof

open AionTrust.Impl AionTrust.Spec
open Framework (Bytes)

/-! ## Bytes -/

theorem length_asBytes (s : String) : (asBytes s).length = s.utf8ByteSize := by
  rw [← String.size_toByteArray]
  rfl

/-- Characters that are one byte each. -/
theorem asBytes_ascii {cs : List Char} (h : ∀ c ∈ cs, c.utf8Size = 1) :
    asBytes (String.ofList cs) = cs.map fun c => c.val.toUInt8 := by
  rw [asBytes_ofList]
  induction cs with
  | nil => rfl
  | cons c cs ih =>
    obtain ⟨hc, hcs⟩ := List.forall_mem_cons.mp h
    rw [List.flatMap_cons, String.utf8EncodeChar_eq_singleton hc, ih hcs]
    rfl

theorem not_ascii {x k : UInt8} (hk : 0x80 ≤ k) : ¬ (x ||| k) < 0x80 := by
  rw [UInt8.lt_iff_toNat_lt, UInt8.toNat_or, not_lt]
  exact (UInt8.le_iff_toNat_le.mp hk).trans Nat.right_le_or

/-- The bytes of a longer character are not ASCII. -/
theorem utf8Size_of_ascii {c : Char} {b : UInt8} (hb : b ∈ String.utf8EncodeChar c) (h : b < 0x80) :
    c.utf8Size = 1 := by
  have hpos := c.utf8Size_pos
  have hle := c.utf8Size_le_four
  rcases (by omega : c.utf8Size = 1 ∨ c.utf8Size = 2 ∨ c.utf8Size = 3 ∨ c.utf8Size = 4) with
    h1 | h2 | h3 | h4
  · exact h1
  · rw [String.utf8EncodeChar_eq_cons_cons h2] at hb
    simp only [List.mem_cons, List.not_mem_nil, or_false] at hb
    rcases hb with rfl | rfl <;> exact absurd h (not_ascii (by decide))
  · rw [String.utf8EncodeChar_eq_cons_cons_cons h3] at hb
    simp only [List.mem_cons, List.not_mem_nil, or_false] at hb
    rcases hb with rfl | rfl | rfl <;> exact absurd h (not_ascii (by decide))
  · rw [String.utf8EncodeChar_eq_cons_cons_cons_cons h4] at hb
    simp only [List.mem_cons, List.not_mem_nil, or_false] at hb
    rcases hb with rfl | rfl | rfl | rfl <;> exact absurd h (not_ascii (by decide))

/-- A character of one byte is the character of that byte. -/
theorem ascii_eq {c : Char} (h : c.utf8Size = 1) : c = Char.ofNat c.val.toUInt8.toNat := by
  have hval : c.val.toNat ≤ 127 := UInt32.le_iff_toNat_le.mp (Char.utf8Size_eq_one_iff.mp h)
  have hbyte : c.val.toUInt8.toNat = c.val.toNat := by
    rw [UInt32.toNat_toUInt8]
    exact Nat.mod_eq_of_lt (by omega)
  rw [hbyte]
  exact (Char.ofNat_toNat c).symm

/-- An ASCII byte among the bytes of some characters is one of them. -/
theorem exists_ascii {cs : List Char} {i : Nat} {b : UInt8} (hb : b < 0x80)
    (h : (cs.flatMap String.utf8EncodeChar)[i]? = some b) : ∃ pre c post, cs = pre ++ c :: post ∧
      (pre.flatMap String.utf8EncodeChar).length = i ∧ String.utf8EncodeChar c = [b] := by
  induction cs generalizing i with
  | nil => simp at h
  | cons c cs ih =>
    rw [List.flatMap_cons] at h
    by_cases hi : i < (String.utf8EncodeChar c).length
    · rw [List.getElem?_append_left hi] at h
      have hsize := utf8Size_of_ascii (List.mem_of_getElem? h) hb
      rw [String.utf8EncodeChar_eq_singleton hsize] at h hi
      obtain rfl : i = 0 := Nat.lt_one_iff.mp hi
      refine ⟨[], c, cs, rfl, rfl, ?_⟩
      rw [String.utf8EncodeChar_eq_singleton hsize]
      simpa using h
    · rw [List.getElem?_append_right (Nat.le_of_not_lt hi)] at h
      obtain ⟨pre, c', post, rfl, hlen, hc'⟩ := ih h
      exact ⟨c :: pre, c', post, rfl, by rw [List.flatMap_cons, List.length_append, hlen]; omega, hc'⟩

/-- A string at an ASCII byte. -/
theorem split_ascii {s t : String} {i : Nat} {b : UInt8} (hb : b < 0x80) (ht : asBytes t = [b])
    (h : (asBytes s)[i]? = some b) : ∃ a r, s = a ++ (t ++ r) ∧ (asBytes a).length = i := by
  rw [← String.ofList_toList (s := s), asBytes_ofList] at h
  obtain ⟨pre, c, post, hcs, hlen, hc⟩ := exists_ascii hb h
  have hchar : String.ofList [c] = t :=
    asBytes_inj (by rw [ht, asBytes_ofList, List.flatMap_cons, hc]; rfl)
  refine ⟨String.ofList pre, String.ofList post, ?_, by rw [asBytes_ofList, hlen]⟩
  rw [← hchar, ← String.ofList_append, ← String.ofList_append, List.singleton_append, ← hcs,
    String.ofList_toList]

/-- A slice between two positions of a string. -/
theorem slice_append (a b c : String) {i j : Nat} (hi : i = (asBytes a).length)
    (hj : j = i + (asBytes b).length) : slice (a ++ (b ++ c)) i j = .ok b := by
  rw [length_asBytes] at hi hj
  subst hi hj
  have hfirst : (⟨a.utf8ByteSize⟩ : String.Pos.Raw).IsValid (a ++ (b ++ c)) :=
    String.Pos.Raw.isValid_iff_exists_append.mpr ⟨a, b ++ c, rfl, rfl⟩
  have hlast : (⟨a.utf8ByteSize + b.utf8ByteSize⟩ : String.Pos.Raw).IsValid (a ++ (b ++ c)) :=
    String.Pos.Raw.isValid_iff_exists_append.mpr ⟨a ++ b, c, String.append_assoc.symm,
      String.Pos.Raw.ext (String.utf8ByteSize_append ..).symm⟩
  rw [slice, dif_pos ⟨hfirst, hlast⟩]
  congr 1
  apply String.toByteArray_inj.mp
  simp only [String.toByteArray_extract, String.offset_pos, String.toByteArray_append,
    ← String.size_toByteArray]
  have hextract := ByteArray.extract_append_size_add (a := a.toByteArray)
    (b := b.toByteArray ++ c.toByteArray) (i := 0) (j := b.toByteArray.size)
  rw [Nat.add_zero] at hextract
  rw [hextract, ByteArray.extract_append_eq_left rfl]

/-! ## Numerals -/

theorem numberFrom_cons (n : Nat) (b : UInt8) (bs : Bytes) :
    numberFrom n (b :: bs) = numberFrom (10 * n + (b - 0x30).toNat) bs := rfl

/-- A number only grows with its digits. -/
theorem le_numberFrom (bs : Bytes) (n : Nat) : n ≤ numberFrom n bs := by
  induction bs generalizing n with
  | nil => exact Nat.le_refl n
  | cons b bs ih =>
    rw [numberFrom_cons]
    exact (by omega : n ≤ 10 * n + (b - 0x30).toNat).trans (ih _)

theorem digit_spec {b : UInt8} (h : IsDigit b) :
    (b - 0x30).toNat + 48 = b.toNat ∧ (b - 0x30).toNat ≤ 9 := by
  obtain ⟨h₀, h₁⟩ := h
  rw [UInt8.toNat_sub_of_le _ _ h₀]
  rw [UInt8.le_iff_toNat_le] at h₀ h₁
  exact ⟨Nat.sub_add_cancel h₀, Nat.sub_le_sub_right h₁ _⟩

/-- As many digits that write the same number are the same. -/
theorem numberFrom_inj {bs bs' : Bytes} (hlen : bs.length = bs'.length) (h : ∀ b ∈ bs, IsDigit b)
    (h' : ∀ b ∈ bs', IsDigit b) {n n' : Nat} (heq : numberFrom n bs = numberFrom n' bs') :
    n = n' ∧ bs = bs' := by
  induction bs generalizing bs' n n' with
  | nil =>
    obtain rfl := List.length_eq_zero_iff.mp hlen.symm
    exact ⟨heq, rfl⟩
  | cons b bs ih =>
    cases bs' with
    | nil => cases hlen
    | cons b' bs' =>
      obtain ⟨hb, hbs⟩ := List.forall_mem_cons.mp h
      obtain ⟨hb', hbs'⟩ := List.forall_mem_cons.mp h'
      rw [numberFrom_cons, numberFrom_cons] at heq
      obtain ⟨hvalue, rfl⟩ := ih (Nat.succ.inj hlen) hbs hbs' heq
      have hd := digit_spec hb
      have hd' := digit_spec hb'
      obtain rfl : b = b' := UInt8.toNat_inj.mp (by omega)
      exact ⟨by omega, rfl⟩

/-- A number with or without a minus. -/
def signed (negative : Bool) (n : Nat) : Int := if negative then -n else n

theorem signed_digit (negative : Bool) (n d : Nat) :
    signed negative n * 10 + (if negative then -(d : Int) else d) = signed negative (10 * n + d) := by
  cases negative <;> simp only [signed, Bool.false_eq_true, if_false, if_true] <;> push_cast <;> ring

/-- Digits are read as the number they write, where it fits, and nothing else is
read. -/
theorem parseDigits_eq_some (negative : Bool) {n : Nat}
    (hn : -2 ^ 63 ≤ signed negative n ∧ signed negative n < 2 ^ 63) {bs : Bytes} {v : Int} :
    parseDigits negative (signed negative n) bs = some v ↔ (∀ b ∈ bs, IsDigit b) ∧
      v = signed negative (numberFrom n bs) ∧ -2 ^ 63 ≤ v ∧ v < 2 ^ 63 := by
  induction bs generalizing n with
  | nil =>
    rw [parseDigits, Option.some.injEq, eq_comm]
    exact ⟨fun h => ⟨by simp, h, h ▸ hn⟩, fun h => h.2.1⟩
  | cons b bs ih =>
    rw [parseDigits, List.forall_mem_cons, numberFrom_cons]
    dsimp only
    rw [signed_digit]
    by_cases hb : IsDigit b
    · rw [if_pos (show 0x30 ≤ b ∧ b ≤ 0x39 from hb)]
      by_cases hfits : -2 ^ 63 ≤ signed negative (10 * n + (b - 0x30).toNat) ∧
          signed negative (10 * n + (b - 0x30).toNat) < 2 ^ 63
      · rw [if_pos hfits, ih hfits]
        simp only [hb, true_and]
      · rw [if_neg hfits]
        refine iff_of_false (by simp) ?_
        rintro ⟨-, rfl, hv⟩
        -- a number that fits has only prefixes that fit
        have hle := le_numberFrom bs (10 * n + (b - 0x30).toNat)
        cases negative <;> simp only [signed, Bool.false_eq_true, if_false, if_true] at hv hfits <;> omega
    · rw [if_neg (show ¬ (0x30 ≤ b ∧ b ≤ 0x39) from hb)]
      exact iff_of_false (by simp) fun h => hb h.1.1

theorem numeral_plus {bs : Bytes} {n : Int} : Numeral (0x2b :: bs) n ↔
    bs ≠ [] ∧ (∀ b ∈ bs, IsDigit b) ∧ n = numberFrom 0 bs := by
  constructor
  · intro h
    cases h with
    | digits hne h => exact absurd (h _ List.mem_cons_self) (by decide)
    | plus hne h => exact ⟨hne, h, rfl⟩
  · rintro ⟨hne, h, rfl⟩
    exact .plus hne h

theorem numeral_minus {bs : Bytes} {n : Int} : Numeral (0x2d :: bs) n ↔
    bs ≠ [] ∧ (∀ b ∈ bs, IsDigit b) ∧ n = -numberFrom 0 bs := by
  constructor
  · intro h
    cases h with
    | digits hne h => exact absurd (h _ List.mem_cons_self) (by decide)
    | minus hne h => exact ⟨hne, h, rfl⟩
  · rintro ⟨hne, h, rfl⟩
    exact .minus hne h

theorem numeral_digits {bs : Bytes} {n : Int} (hplus : ∀ bs', bs ≠ 0x2b :: bs')
    (hminus : ∀ bs', bs ≠ 0x2d :: bs') : Numeral bs n ↔
      bs ≠ [] ∧ (∀ b ∈ bs, IsDigit b) ∧ n = numberFrom 0 bs := by
  constructor
  · intro h
    cases h with
    | digits hne h => exact ⟨hne, h, rfl⟩
    | plus => exact absurd rfl (hplus _)
    | minus => exact absurd rfl (hminus _)
  · rintro ⟨hne, h, rfl⟩
    exact .digits hne h

/-- A number is read from a numeral, where it fits, and from nothing else. -/
theorem parseI64_eq_some {s : String} {n : Int} :
    parseI64 s = some n ↔ Numeral (asBytes s) n ∧ -2 ^ 63 ≤ n ∧ n < 2 ^ 63 := by
  have hpos : ∀ bs, parseDigits false 0 bs = some n ↔
      (∀ b ∈ bs, IsDigit b) ∧ n = numberFrom 0 bs ∧ -2 ^ 63 ≤ n ∧ n < 2 ^ 63 :=
    fun _ => parseDigits_eq_some false (n := 0) (by decide)
  have hneg : ∀ bs, parseDigits true 0 bs = some n ↔
      (∀ b ∈ bs, IsDigit b) ∧ n = -numberFrom 0 bs ∧ -2 ^ 63 ≤ n ∧ n < 2 ^ 63 :=
    fun _ => parseDigits_eq_some true (n := 0) (by decide)
  rw [parseI64]
  split
  · rename_i hnil
    rw [hnil, numeral_digits (by simp) (by simp)]
    simp
  · rename_i bs hbs
    rw [hbs, numeral_plus]
    split
    · rename_i hnil
      simp [hnil]
    · rename_i hne
      rw [hpos, and_assoc, and_assoc]
      exact (and_iff_right hne).symm
  · rename_i bs hbs
    rw [hbs, numeral_minus]
    split
    · rename_i hnil
      simp [hnil]
    · rename_i hne
      rw [hneg, and_assoc, and_assoc]
      exact (and_iff_right hne).symm
  · rename_i bs hne hplus hminus
    rw [hpos, numeral_digits (fun bs' h => hplus bs' h) (fun bs' h => hminus bs' h), and_assoc, and_assoc]
    exact (and_iff_right hne).symm

end AionTrust.Proof
