import AionTrust.Proof.Interop.Calendar
import AionTrust.Proof.Interop.Text
import AionTrust.Spec.Documents

/-!
# Timestamps as text

A field is read back from the characters `padded` writes (`parseI64_padded`),
and a year takes more than four of them just outside -999 to 9999
(`length_padded`). So a timestamp is read back from its text where its year is
between those (`Formattable`), and its text is refused elsewhere
(`toRfc3339_spec`), the year being that of its one civil date (`rfc3339_exact`).
-/

namespace AionTrust.Proof

open AionTrust.Impl AionTrust.Spec
open Framework (Bytes Date ok_bind)

/-! ## Numbers -/

theorem digit_toNat {c : Char} (h : c.isDigit = true) : 48 ≤ c.toNat ∧ c.toNat ≤ 57 :=
  Char.isDigit_iff_toNat.mp h

theorem digit_utf8Size {c : Char} (h : c.isDigit = true) : c.utf8Size = 1 := by
  obtain ⟨-, h₁⟩ := digit_toNat h
  rw [Char.utf8Size_eq_one_iff, UInt32.le_iff_toNat_le]
  exact h₁.trans (by decide)

theorem digit_byte {c : Char} (h : c.isDigit = true) : c.val.toUInt8.toNat = c.toNat := by
  obtain ⟨-, h₁⟩ := digit_toNat h
  rw [UInt32.toNat_toUInt8]
  exact Nat.mod_eq_of_lt (h₁.trans_lt (by decide))

/-- Characters that are digits, as bytes. -/
theorem digits_map {cs : List Char} (hcs : ∀ c ∈ cs, c.isDigit = true) (n : Nat) :
    (∀ b ∈ cs.map (fun c => c.val.toUInt8), IsDigit b) ∧
      numberFrom n (cs.map fun c => c.val.toUInt8) = Nat.ofDigitChars 10 cs n := by
  induction cs generalizing n with
  | nil => simp [numberFrom]
  | cons c cs ih =>
    obtain ⟨hc, hcs⟩ := List.forall_mem_cons.mp hcs
    obtain ⟨h₀, h₁⟩ := digit_toNat hc
    have hbyte := digit_byte hc
    have hdigit : IsDigit c.val.toUInt8 := by
      simp only [IsDigit, UInt8.le_iff_toNat_le, hbyte]
      exact ⟨h₀, h₁⟩
    have hvalue : (c.val.toUInt8 - 0x30).toNat = c.toNat - '0'.toNat := by
      rw [UInt8.toNat_sub_of_le _ _ hdigit.1, hbyte]
      rfl
    obtain ⟨hdigits, hnumber⟩ := ih hcs (10 * n + (c.toNat - '0'.toNat))
    rw [List.map_cons, List.forall_mem_cons, numberFrom_cons, Nat.ofDigitChars_cons, hvalue]
    exact ⟨⟨hdigit, hdigits⟩, hnumber⟩

/-- The digits of a number behind zeros: they are digits, and read as the number. -/
theorem zeros_digits (zeros n : Nat) :
    (∀ c ∈ List.replicate zeros '0' ++ Nat.toDigits 10 n, c.isDigit = true) ∧
      Nat.ofDigitChars 10 (List.replicate zeros '0' ++ Nat.toDigits 10 n) 0 = n := by
  constructor
  · intro c hc
    rcases List.mem_append.mp hc with hc | hc
    · rw [(List.mem_replicate.mp hc).2]
      rfl
    · exact Nat.isDigit_of_mem_toDigits (by decide) (by decide) hc
  · rw [Nat.ofDigitChars_append, Nat.ofDigitChars_replicate_zero, Nat.mul_zero,
      Nat.ofDigitChars_ten_toDigits]

/-- The bytes of a padded number: a sign, and digits that read as its size. -/
theorem padded_eq (width : Nat) (n : Int) : ∃ cs : List Char, (∀ c ∈ cs, c.isDigit = true) ∧
    Nat.ofDigitChars 10 cs 0 = n.natAbs ∧
    cs.length = max (width - if n < 0 then 1 else 0) (Nat.toDigits 10 n.natAbs).length ∧
    asBytes (padded width n) =
      (if n < 0 then [0x2d] else []) ++ cs.map fun c => c.val.toUInt8 := by
  have hcases : ∀ sign : List Char, (∀ c ∈ sign, c.utf8Size = 1) → ∃ cs : List Char,
      (∀ c ∈ cs, c.isDigit = true) ∧ Nat.ofDigitChars 10 cs 0 = n.natAbs ∧
      cs.length = max (width - sign.length) (Nat.toDigits 10 n.natAbs).length ∧
      asBytes (String.ofList (sign ++ (List.replicate (width - sign.length -
        (Nat.toDigits 10 n.natAbs).length) '0' ++ Nat.toDigits 10 n.natAbs))) =
        (sign.map fun c => c.val.toUInt8) ++ cs.map fun c => c.val.toUInt8 := by
    intro sign hsign
    obtain ⟨hdigits, hvalue⟩ := zeros_digits (width - sign.length - (Nat.toDigits 10 n.natAbs).length) n.natAbs
    refine ⟨_, hdigits, hvalue, ?_, ?_⟩
    · rw [List.length_append, List.length_replicate]
      omega
    · rw [asBytes_ascii, List.map_append]
      exact fun c hc => (List.mem_append.mp hc).elim (hsign c) fun hc => digit_utf8Size (hdigits c hc)
  unfold padded
  split
  · exact hcases ['-'] (List.forall_mem_singleton.mpr (by decide))
  · exact hcases [] (by simp)

/-- A padded number is a numeral. -/
theorem padded_numeral (width : Nat) (n : Int) : Numeral (asBytes (padded width n)) n := by
  obtain ⟨cs, hdigits, hvalue, hlength, hbytes⟩ := padded_eq width n
  have hne : cs.map (fun c => c.val.toUInt8) ≠ [] := by
    have := Nat.length_toDigits_pos (b := 10) (n := n.natAbs)
    exact List.ne_nil_of_length_pos (by rw [List.length_map]; omega)
  obtain ⟨hall, hnumber⟩ := digits_map hdigits 0
  rw [hvalue] at hnumber
  rw [hbytes]
  split_ifs with hn
  · have hminus := Numeral.minus hne hall
    rwa [hnumber, (by omega : -(n.natAbs : Int) = n)] at hminus
  · have hplain := Numeral.digits hne hall
    rwa [hnumber, (by omega : (n.natAbs : Int) = n)] at hplain

/-- A padded number is read back. -/
theorem parseI64_padded (width : Nat) {n : Int} (h : -2 ^ 63 < n ∧ n < 2 ^ 63) :
    parseI64 (padded width n) = some n :=
  parseI64_eq_some.mpr ⟨padded_numeral width n, by omega, h.2⟩

/-- A number takes its width where its digits, and the sign, fit in it. -/
theorem length_padded {width : Nat} {n : Int} (hw : 2 ≤ width) :
    (asBytes (padded width n)).length = width ↔ -10 ^ (width - 1) < n ∧ n < 10 ^ width := by
  obtain ⟨cs, -, -, hlength, hbytes⟩ := padded_eq width n
  rw [hbytes, List.length_append, List.length_map, hlength]
  split_ifs with hn
  · rw [List.length_singleton]
    have hfits := Nat.length_toDigits_le_iff (b := 10) (n := n.natAbs) (k := width - 1) (by decide) (by omega)
    have hpow : (0 : Int) < 10 ^ width := by positivity
    have hcast : ((10 ^ (width - 1) : Nat) : Int) = 10 ^ (width - 1) := by push_cast; rfl
    omega
  · have hfits := Nat.length_toDigits_le_iff (b := 10) (n := n.natAbs) (k := width) (by decide) (by omega)
    have hpow : (0 : Int) < 10 ^ (width - 1) := by positivity
    have hcast : ((10 ^ width : Nat) : Int) = 10 ^ width := by push_cast; rfl
    rw [List.length_nil]
    omega

/-! ## The layout -/

/-- The bytes of a text, for the bytes of its fields. -/
def layoutBytes (y m d hh mm ss : Bytes) : Bytes :=
  y ++ (0x2d :: m ++ (0x2d :: d ++ (0x54 :: hh ++ (0x3a :: mm ++ (0x3a :: ss ++ [0x5a])))))

theorem asBytes_text (f : Fields) : asBytes f.text = layoutBytes (asBytes f.year) (asBytes f.month)
    (asBytes f.day) (asBytes f.hour) (asBytes f.minute) (asBytes f.second) := by
  simp only [Fields.text, layoutBytes, asBytes_append, List.append_assoc]
  rfl

/-- The separators of the layout, and its length. -/
def shaped (b : Bytes) : Bool :=
  b.length == 20 && b[4]? == some 0x2d && b[7]? == some 0x2d && b[10]? == some 0x54 &&
    b[13]? == some 0x3a && b[16]? == some 0x3a && b[19]? == some 0x5a

/-- A separator is looked for only where there is a byte. -/
theorem misshapen_eq (b : Bytes) : misshapen b = .ok (!shaped b) := by
  by_cases hlen : b.length = 20
  · have hdiffers : ∀ i sep, i < 20 → differs b i sep = .ok (!(b[i]? == some sep)) := fun i sep hi => by
      rw [differs, List.getElem?_eq_getElem (by omega)]
      rfl
    have hor : ∀ x y : Bool, ((.ok x : Run Bool) <||> .ok y) = .ok (x || y) := by
      rintro (_ | _) y <;> rfl
    have hfirst : (pure (b.length != 20) : Run Bool) = .ok (!(b.length == 20)) := rfl
    rw [misshapen, hfirst]
    simp only [hdiffers _ _ (by decide : 4 < 20), hdiffers _ _ (by decide : 7 < 20),
      hdiffers _ _ (by decide : 10 < 20), hdiffers _ _ (by decide : 13 < 20), hdiffers _ _ (by decide : 16 < 20),
      hdiffers _ _ (by decide : 19 < 20), hor, shaped, Bool.not_and, Bool.or_assoc]
  · have hwrong : (b.length == 20) = false := by simpa using hlen
    simp only [misshapen, shaped, bne, hwrong, Bool.false_and]
    rfl

theorem fromRfc3339_misshapen {s : String} (h : ¬ shaped (asBytes s) = true) :
    fromRfc3339 s = .error (.error (.rfc3339 ("expected YYYY-MM-DDTHH:MM:SSZ: " ++ s))) := by
  rw [fromRfc3339, misshapen_eq, ok_bind, Bool.eq_false_iff.mpr h]
  rfl

/-- Fields of two characters after a year give the shape just when the year has
four. -/
theorem shaped_layoutBytes {y m d hh mm ss : Bytes} (hm : m.length = 2) (hd : d.length = 2)
    (hhh : hh.length = 2) (hmm : mm.length = 2) (hss : ss.length = 2) :
    shaped (layoutBytes y m d hh mm ss) = true ↔ y.length = 4 := by
  constructor
  · intro h
    simp only [shaped, Bool.and_eq_true, beq_iff_eq] at h
    have hlength := h.1.1.1.1.1.1
    simp only [layoutBytes, List.length_append, List.length_cons, List.length_nil] at hlength
    omega
  · intro hy
    obtain ⟨y₁, y₂, y₃, y₄, rfl⟩ : ∃ a b c d, y = [a, b, c, d] := by
      match y, hy with
      | [a, b, c, d], _ => exact ⟨a, b, c, d, rfl⟩
    obtain ⟨_, _, rfl⟩ := List.length_eq_two.mp hm
    obtain ⟨_, _, rfl⟩ := List.length_eq_two.mp hd
    obtain ⟨_, _, rfl⟩ := List.length_eq_two.mp hhh
    obtain ⟨_, _, rfl⟩ := List.length_eq_two.mp hmm
    obtain ⟨_, _, rfl⟩ := List.length_eq_two.mp hss
    rfl

/-- The widths of the fields of the shape. -/
structure Widths (f : Fields) : Prop where
  year : (asBytes f.year).length = 4
  month : (asBytes f.month).length = 2
  day : (asBytes f.day).length = 2
  hour : (asBytes f.hour).length = 2
  minute : (asBytes f.minute).length = 2
  second : (asBytes f.second).length = 2

theorem shaped_text {f : Fields} (hw : Widths f) : shaped (asBytes f.text) = true := by
  rw [asBytes_text]
  exact (shaped_layoutBytes hw.month hw.day hw.hour hw.minute hw.second).mpr hw.year

/-- The slices of a text of these widths are its fields. -/
theorem slice_text {f : Fields} (hw : Widths f) :
    slice f.text 0 4 = .ok f.year ∧ slice f.text 5 7 = .ok f.month ∧ slice f.text 8 10 = .ok f.day ∧
      slice f.text 11 13 = .ok f.hour ∧ slice f.text 14 16 = .ok f.minute ∧
      slice f.text 17 19 = .ok f.second := by
  obtain ⟨hy, hm, hd, hhh, hmm, hss⟩ := hw
  have hsep : (asBytes "-").length = 1 ∧ (asBytes "T").length = 1 ∧ (asBytes ":").length = 1 := by decide
  have hslice : ∀ (a b c : String) {i j : Nat}, f.text = a ++ b ++ c →
      (asBytes a).length = i → i + (asBytes b).length = j → slice f.text i j = .ok b := by
    intro a b c i j h hi hj
    rw [h, String.append_assoc, slice_append a b c hi.symm hj.symm]
  refine ⟨?_, ?_, ?_, ?_, ?_, ?_⟩
  · exact hslice "" _ _ (by rw [String.empty_append, Fields.text]; simp only [String.append_assoc]; rfl) rfl
      (by omega)
  · exact hslice (f.year ++ "-") _ _ (by rw [Fields.text]; simp only [String.append_assoc]; rfl)
      (by simp only [asBytes_append, List.length_append]; omega) (by omega)
  · exact hslice (f.year ++ "-" ++ f.month ++ "-") _ _
      (by rw [Fields.text]; simp only [String.append_assoc]; rfl)
      (by simp only [asBytes_append, List.length_append]; omega) (by omega)
  · exact hslice (f.year ++ "-" ++ f.month ++ "-" ++ f.day ++ "T") _ _
      (by rw [Fields.text]; simp only [String.append_assoc]; rfl)
      (by simp only [asBytes_append, List.length_append]; omega) (by omega)
  · exact hslice (f.year ++ "-" ++ f.month ++ "-" ++ f.day ++ "T" ++ f.hour ++ ":") _ _
      (by rw [Fields.text]; simp only [String.append_assoc]; rfl)
      (by simp only [asBytes_append, List.length_append]; omega) (by omega)
  · exact hslice (f.year ++ "-" ++ f.month ++ "-" ++ f.day ++ "T" ++ f.hour ++ ":" ++ f.minute ++ ":") _ _
      (by rw [Fields.text]) (by simp only [asBytes_append, List.length_append]; omega) (by omega)

/-- What is made of the values of the fields. -/
def timestampOf (s : String) (v : Values) : Run Timestamp := do
  Framework.ensure ((1 ≤ v.month ∧ v.month ≤ 12) ∧ (1 ≤ v.day ∧ v.day ≤ 31) ∧ v.hour ≤ 23 ∧
    v.minute ≤ 59 ∧ v.second ≤ 59) (.error (.rfc3339 ("field out of range: " ++ s)))
  let days ← daysFromCivil v.year v.month v.day
  let secs ← i64 ((← i64 (days * secsPerDay)) + (← i64 (v.hour * 3600)))
  let secs ← i64 (secs + (← i64 (v.minute * 60)))
  let secs ← i64 (secs + v.second)
  return ⟨Int64.ofInt secs⟩

/-- What is read of the fields. -/
def readFields (f : Fields) : Run Timestamp := do
  let year ← num f.year
  let month ← num f.month
  let day ← num f.day
  let hour ← num f.hour
  let minute ← num f.minute
  let second ← num f.second
  timestampOf f.text { year, month, day, hour, minute, second }

/-- Reading a text of these widths reads its fields. -/
theorem fromRfc3339_text {f : Fields} (hw : Widths f) : fromRfc3339 f.text = readFields f := by
  obtain ⟨sy, sm, sd, sh, smm, sss⟩ := slice_text hw
  rw [fromRfc3339, misshapen_eq, ok_bind, shaped_text hw, Framework.ensure_true Bool.not_true, ok_bind, sy, sm, sd, sh, smm,
    sss]
  rfl

/-- Values in their ranges make a timestamp. -/
theorem timestampOf_eq (s : String) {v : Values} (hrange : (1 ≤ v.month ∧ v.month ≤ 12) ∧
      (1 ≤ v.day ∧ v.day ≤ 31) ∧ v.hour ≤ 23 ∧ v.minute ≤ 59 ∧ v.second ≤ 59)
    (hlow : -100 ≤ v.hour ∧ -100 ≤ v.minute ∧ -100 ≤ v.second) {days : Int}
    (hdays : daysFromCivil v.year v.month v.day = .ok days) (hbound : -2 ^ 40 ≤ days ∧ days ≤ 2 ^ 40) :
    timestampOf s v = .ok ⟨Int64.ofInt (days * 86400 + v.hour * 3600 + v.minute * 60 + v.second)⟩ := by
  rw [timestampOf, Framework.ensure_true hrange, ok_bind, hdays, ok_bind, secsPerDay, i64_eq (by omega),
    ok_bind, i64_eq (by omega), ok_bind, i64_eq (by omega), ok_bind, i64_eq (by omega), ok_bind,
    i64_eq (by omega), ok_bind, i64_eq (by omega), ok_bind]
  rfl

theorem length_padded_two {n : Int} (h : 0 ≤ n ∧ n < 100) : (asBytes (padded 2 n)).length = 2 :=
  (length_padded (by decide)).mpr (by omega)

theorem num_padded {width : Nat} {n : Int} (h : -2 ^ 63 < n ∧ n < 2 ^ 63) :
    num (padded width n) = .ok n := by
  rw [num, parseI64_padded width h]
  rfl

/-- The fields of a layout. -/
def paddedFields (v : Values) : Fields where
  year := padded 4 v.year
  month := padded 2 v.month
  day := padded 2 v.day
  hour := padded 2 v.hour
  minute := padded 2 v.minute
  second := padded 2 v.second

theorem layout_eq_text (v : Values) :
    layout v.year v.month v.day v.hour v.minute v.second = (paddedFields v).text := rfl

/-- Reading a layout reads its fields. -/
theorem fromRfc3339_layout {v : Values} (hy : -1000 < v.year ∧ v.year < 10000)
    (hm : 1 ≤ v.month ∧ v.month ≤ 12) (hd : 1 ≤ v.day ∧ v.day ≤ 31) (hhh : 0 ≤ v.hour ∧ v.hour ≤ 23)
    (hmm : 0 ≤ v.minute ∧ v.minute ≤ 59) (hss : 0 ≤ v.second ∧ v.second ≤ 59) :
    fromRfc3339 (layout v.year v.month v.day v.hour v.minute v.second) =
      timestampOf (paddedFields v).text v := by
  have hw : Widths (paddedFields v) := ⟨(length_padded (by decide)).mpr (by omega),
    length_padded_two (by omega), length_padded_two (by omega), length_padded_two (by omega),
    length_padded_two (by omega), length_padded_two (by omega)⟩
  rw [layout_eq_text, fromRfc3339_text hw]
  simp only [readFields, paddedFields]
  rw [num_padded (by omega), ok_bind, num_padded (by omega), ok_bind, num_padded (by omega), ok_bind,
    num_padded (by omega), ok_bind, num_padded (by omega), ok_bind, num_padded (by omega), ok_bind]

/-! ## Timestamps -/

/-- A date, and the time of day of a timestamp. -/
def valuesOf (date : Date) (t : Timestamp) : Values where
  year := date.year
  month := date.month
  day := date.day
  hour := t.secs.toInt % 86400 / 3600
  minute := t.secs.toInt % 86400 % 3600 / 60
  second := t.secs.toInt % 86400 % 60

/-- The day and the time of day of a timestamp, as they are written. -/
theorem toRfc3339_text (t : Timestamp) : ∃ date : Date,
    date.dayNumber = t.secs.toInt / 86400 + 719528 ∧
      toRfc3339 t = .ok (paddedFields (valuesOf date t)).text := by
  have h₁ := t.secs.le_toInt
  have h₂ := t.secs.toInt_lt
  obtain ⟨date, hcivil, hdate⟩ := civil_date (z := t.secs.toInt / 86400) (by omega)
  have hsod : 0 ≤ t.secs.toInt % 86400 := by omega
  refine ⟨date, hdate, ?_⟩
  rw [toRfc3339, secsPerDay, hcivil, ok_bind, Int.tdiv_eq_ediv_of_nonneg hsod,
    Int.tmod_eq_emod_of_nonneg hsod, Int.tmod_eq_emod_of_nonneg hsod,
    Int.tdiv_eq_ediv_of_nonneg (by omega)]
  rfl

theorem formattable_iff {t : Timestamp} {date : Date}
    (hdate : date.dayNumber = t.secs.toInt / 86400 + 719528) :
    Formattable t ↔ -999 ≤ date.year ∧ date.year ≤ 9999 := by
  rw [year_range hdate, Formattable]
  omega

/-- Every timestamp is written, the formattable ones are read back, and what is
written of any other is refused as misshapen. -/
theorem toRfc3339_spec (t : Timestamp) : ∃ s, toRfc3339 t = .ok s ∧
    (Formattable t → fromRfc3339 s = .ok t) ∧
    (¬ Formattable t → fromRfc3339 s = .error (.error (.rfc3339 ("expected YYYY-MM-DDTHH:MM:SSZ: " ++ s)))) := by
  have h₁ := t.secs.le_toInt
  have h₂ := t.secs.toInt_lt
  obtain ⟨date, hdate, htext⟩ := toRfc3339_text t
  have hm : 1 ≤ (date.month : Int) ∧ (date.month : Int) ≤ 12 := by have := date.month_range; omega
  have hd : 1 ≤ date.day ∧ date.day ≤ 31 :=
    ⟨date.valid.1, date.valid.2.trans (Framework.daysInMonth_le date.year date.month)⟩
  have hhour : 0 ≤ t.secs.toInt % 86400 / 3600 ∧ t.secs.toInt % 86400 / 3600 ≤ 23 := by omega
  have hminute : 0 ≤ t.secs.toInt % 86400 % 3600 / 60 ∧ t.secs.toInt % 86400 % 3600 / 60 ≤ 59 := by omega
  have hsecond : 0 ≤ t.secs.toInt % 86400 % 60 ∧ t.secs.toInt % 86400 % 60 ≤ 59 := by omega
  refine ⟨_, htext, fun h => ?_, fun h => ?_⟩
  · have hy := (formattable_iff hdate).mp h
    unfold Formattable at h
    have hsum : t.secs.toInt / 86400 * 86400 + t.secs.toInt % 86400 / 3600 * 3600 +
        t.secs.toInt % 86400 % 3600 / 60 * 60 + t.secs.toInt % 86400 % 60 = t.secs.toInt := by omega
    rw [← layout_eq_text, fromRfc3339_layout (v := valuesOf date t) (by dsimp only [valuesOf]; omega) hm
      hd hhour hminute hsecond, timestampOf_eq (v := valuesOf date t) _
      ⟨hm, hd, hhour.2, hminute.2, hsecond.2⟩ (by dsimp only [valuesOf]; omega)
      (daysFromCivil_date date hdate (by omega)) (by omega)]
    simp only [valuesOf]
    rw [hsum, Int64.ofInt_toInt]
  · have hy : (asBytes (padded 4 date.year)).length ≠ 4 := fun hlen => by
      have hfits := (length_padded (by decide)).mp hlen
      exact h ((formattable_iff hdate).mpr (by omega))
    have hshaped := mt (shaped_layoutBytes (y := asBytes (padded 4 date.year))
      (length_padded_two (n := date.month) (by omega)) (length_padded_two (n := date.day) (by omega))
      (length_padded_two (n := t.secs.toInt % 86400 / 3600) (by omega))
      (length_padded_two (n := t.secs.toInt % 86400 % 3600 / 60) (by omega))
      (length_padded_two (n := t.secs.toInt % 86400 % 60) (by omega))).mp hy
    exact fromRfc3339_misshapen (by rwa [asBytes_text])

/-- What is written of a timestamp is read back just when it is formattable. -/
theorem fromRfc3339_iff {t : Timestamp} {s : String} (hs : toRfc3339 t = .ok s) :
    (Formattable t → fromRfc3339 s = .ok t) ∧ (¬ Formattable t → ∃ e, fromRfc3339 s = .error e) := by
  obtain ⟨s', hs', hread, hrefuse⟩ := toRfc3339_spec t
  obtain rfl := Except.ok.inj (hs.symm.trans hs')
  exact ⟨hread, fun h => ⟨_, hrefuse h⟩⟩

/-- The civil date of a timestamp, by counting days from the epoch. -/
def CivilDate (t : Timestamp) (date : Date) : Prop :=
  date.dayNumber - epoch.dayNumber = t.secs.toInt / 86400

/-- Every timestamp is written without overflow. It has one civil date, and its
text is read back as the timestamp where the year of the date is between -999 and
9999, and refused with an error elsewhere. -/
theorem rfc3339_exact (t : Timestamp) : ∃ s, toRfc3339 t = .ok s ∧ (∃! date, CivilDate t date) ∧
    ∀ date, CivilDate t date → ((-999 ≤ date.year ∧ date.year ≤ 9999) → fromRfc3339 s = .ok t) ∧
      (¬ (-999 ≤ date.year ∧ date.year ≤ 9999) → ∃ e, fromRfc3339 s = .error (.error e)) := by
  obtain ⟨s, hs, hread, hrefuse⟩ := toRfc3339_spec t
  obtain ⟨date, hdate, -⟩ := toRfc3339_text t
  have hepoch : epoch.dayNumber = 719528 := by decide
  have hcivil : ∀ date', CivilDate t date' ↔ date'.dayNumber = t.secs.toInt / 86400 + 719528 := by
    intro date'
    rw [CivilDate, hepoch, sub_eq_iff_eq_add]
  refine ⟨s, hs, ⟨date, (hcivil date).mpr hdate, fun date' hdate' => ?_⟩, fun date' hdate' => ?_⟩
  · exact Date.dayNumber_injective (((hcivil date').mp hdate').trans hdate.symm)
  · have hrange := formattable_iff ((hcivil date').mp hdate')
    exact ⟨fun h => hread (hrange.mpr h), fun h => ⟨_, hrefuse (mt hrange.mp h)⟩⟩

end AionTrust.Proof
