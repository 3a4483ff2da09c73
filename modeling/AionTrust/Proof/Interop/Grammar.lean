import Mathlib.Data.Bool.AllAny
import AionTrust.Proof.Interop.Rfc3339

/-!
# What is read as a timestamp

A text has the shape when its separators cut it into six fields of the widths
(`shaped_iff`), and it is read when these are numerals with values in range
(`fromRfc3339_eq_ok`); any other is refused with an error (`rfc3339_typed`). A
numeral may have a sign, so what is read is the texts of digits, and those with
a sign (`rfc3339_grammar_iff`).
-/

namespace AionTrust.Proof

open AionTrust.Impl AionTrust.Spec
open Framework (Bytes Date FailsWith bind_eq_ok ensure_eq_ok ensure_true ok_bind okOr_eq_ok)

/-! ## The fields -/

/-- The next field of a text, up to its separator. -/
theorem next_field {s p r : String} (hs : s = p ++ r) {n : Nat} (hp : (asBytes p).length = n) (width : Nat)
    {b : UInt8} (hb : b < 0x80) {t : String} (ht : asBytes t = [b])
    (h : (asBytes s)[n + width]? = some b) :
    ∃ f r', s = p ++ f ++ t ++ r' ∧ (asBytes f).length = width ∧
      (asBytes (p ++ f ++ t)).length = n + width + 1 := by
  rw [hs, asBytes_append, List.getElem?_append_right (by omega)] at h
  rw [show n + width - (asBytes p).length = width by omega] at h
  obtain ⟨f, r', rfl, hf⟩ := split_ascii hb ht h
  refine ⟨f, r', by rw [hs]; simp only [String.append_assoc], hf, ?_⟩
  rw [asBytes_append, asBytes_append, ht, List.length_append, List.length_append, hp, hf, List.length_singleton]

/-- The separators cut a text of the shape into six fields. -/
theorem shaped_iff {s : String} : shaped (asBytes s) = true ↔ ∃ f, Widths f ∧ s = f.text := by
  constructor
  · intro h
    simp only [shaped, Bool.and_eq_true, beq_iff_eq] at h
    obtain ⟨⟨⟨⟨⟨⟨hlen, h4⟩, h7⟩, h10⟩, h13⟩, h16⟩, h19⟩ := h
    have hstart : s = "" ++ s := String.empty_append.symm
    obtain ⟨y, r, hs, hy, hp⟩ := next_field hstart rfl 4 (by decide) (t := "-") rfl h4
    obtain ⟨m, r, hs, hm, hp⟩ := next_field hs hp 2 (by decide) (t := "-") rfl h7
    obtain ⟨d, r, hs, hd, hp⟩ := next_field hs hp 2 (by decide) (t := "T") rfl h10
    obtain ⟨hh, r, hs, hhh, hp⟩ := next_field hs hp 2 (by decide) (t := ":") rfl h13
    obtain ⟨mm, r, hs, hmm, hp⟩ := next_field hs hp 2 (by decide) (t := ":") rfl h16
    obtain ⟨ss, r, hs, hss, hp⟩ := next_field hs hp 2 (by decide) (t := "Z") rfl h19
    have hrest : r = "" := by
      rw [hs, asBytes_append, List.length_append, hp] at hlen
      refine asBytes_inj (t := "") ?_
      rw [List.length_eq_zero_iff.mp (show (asBytes r).length = 0 by omega)]
      rfl
    refine ⟨⟨y, m, d, hh, mm, ss⟩, ⟨hy, hm, hd, hhh, hmm, hss⟩, ?_⟩
    rw [hs, hrest]
    simp only [String.empty_append, String.append_empty, Fields.text]
  · rintro ⟨f, hw, rfl⟩
    exact shaped_text hw

/-- A text of the shape has one list of fields. -/
theorem text_inj {f f' : Fields} (hw : Widths f) (hw' : Widths f') (h : f.text = f'.text) : f = f' := by
  have hbytes := congrArg asBytes h
  rw [asBytes_text, asBytes_text, layoutBytes, layoutBytes] at hbytes
  obtain ⟨hy, hbytes⟩ := List.append_inj hbytes (hw.year.trans hw'.year.symm)
  obtain ⟨hm, hbytes⟩ := List.append_inj (List.cons.inj hbytes).2 (hw.month.trans hw'.month.symm)
  obtain ⟨hd, hbytes⟩ := List.append_inj (List.cons.inj hbytes).2 (hw.day.trans hw'.day.symm)
  obtain ⟨hhh, hbytes⟩ := List.append_inj (List.cons.inj hbytes).2 (hw.hour.trans hw'.hour.symm)
  obtain ⟨hmm, hbytes⟩ := List.append_inj (List.cons.inj hbytes).2 (hw.minute.trans hw'.minute.symm)
  obtain ⟨hss, -⟩ := List.append_inj (List.cons.inj hbytes).2 (hw.second.trans hw'.second.symm)
  obtain ⟨y, m, d, hh, mm, ss⟩ := f
  obtain ⟨y', m', d', hh', mm', ss'⟩ := f'
  obtain rfl : y = y' := asBytes_inj hy
  obtain rfl : m = m' := asBytes_inj hm
  obtain rfl : d = d' := asBytes_inj hd
  obtain rfl : hh = hh' := asBytes_inj hhh
  obtain rfl : mm = mm' := asBytes_inj hmm
  obtain rfl : ss = ss' := asBytes_inj hss
  rfl

/-! ## The values -/

/-- Digits write a number below the power of ten of their count. -/
theorem numberFrom_lt {bs : Bytes} (h : ∀ b ∈ bs, IsDigit b) (n : Nat) :
    numberFrom n bs < (n + 1) * 10 ^ bs.length := by
  induction bs generalizing n with
  | nil => simp [numberFrom]
  | cons b bs ih =>
    obtain ⟨hb, hbs⟩ := List.forall_mem_cons.mp h
    have hd := (digit_spec hb).2
    refine (ih hbs (10 * n + (b - 0x30).toNat)).trans_le ?_
    rw [List.length_cons, pow_succ', ← Nat.mul_assoc]
    exact Nat.mul_le_mul_right _ (by omega)

theorem numeral_bound {bs : Bytes} {n : Int} (h : Numeral bs n) :
    -10 ^ bs.length < n ∧ n < 10 ^ bs.length := by
  have hcast : ∀ k : Nat, ((10 ^ k : Nat) : Int) = 10 ^ k := fun k => by push_cast; rfl
  have hmono : ∀ ds : Bytes, (10 : Int) ^ ds.length ≤ 10 ^ (ds.length + 1) := fun ds =>
    pow_le_pow_right₀ (by decide) (Nat.le_succ _)
  cases h with
  | digits hne h =>
    have := numberFrom_lt h 0
    rw [← hcast]
    omega
  | @plus ds hne h =>
    have := numberFrom_lt h 0
    have := hmono ds
    rw [← hcast, ← hcast] at this
    rw [List.length_cons, ← hcast]
    omega
  | @minus ds hne h =>
    have := numberFrom_lt h 0
    have := hmono ds
    rw [← hcast, ← hcast] at this
    rw [List.length_cons, ← hcast]
    omega

/-- A field of at most four bytes is read as what it says. -/
theorem num_eq_ok {width : Nat} (hwidth : width ≤ 4) {s : String} (hs : (asBytes s).length = width)
    {n : Int} : num s = .ok n ↔ Says width s n := by
  rw [num, okOr_eq_ok, parseI64_eq_some]
  constructor
  · exact fun h => ⟨hs, h.1⟩
  · intro h
    have hbound := numeral_bound h.numeral
    rw [hs] at hbound
    have hpow : (10 : Int) ^ width ≤ 10 ^ 4 := pow_le_pow_right₀ (by decide) hwidth
    exact ⟨h.numeral, by omega, by omega⟩

/-- A year, a month and a day in range have a day number. -/
theorem daysFromCivil_isOk {y m d : Int} (hy : -10000 < y ∧ y < 10000) (hm : 1 ≤ m ∧ m ≤ 12)
    (hd : 1 ≤ d ∧ d ≤ 31) : ∃ days, daysFromCivil y m d = .ok days ∧ -2 ^ 40 ≤ days ∧ days ≤ 2 ^ 40 := by
  obtain ⟨y', hy', hrange⟩ : ∃ y', (if m ≤ 2 then i64 (y - 1) else .ok y) = .ok y' ∧
      -10001 < y' ∧ y' < 10000 := by
    split
    · exact ⟨y - 1, i64_eq (by omega), by omega⟩
    · exact ⟨y, rfl, by omega⟩
  obtain ⟨mp, hmp', hmp⟩ : ∃ mp, (if m > 2 then i64 (m - 3) else i64 (m + 9)) = .ok mp ∧
      0 ≤ mp ∧ mp ≤ 11 := by
    split
    · exact ⟨m - 3, i64_eq (by omega), by omega⟩
    · exact ⟨m + 9, i64_eq (by omega), by omega⟩
  have hyoe : 0 ≤ y' - y' / 400 * 400 ∧ y' - y' / 400 * 400 < 400 := by omega
  have hera : -26 ≤ y' / 400 ∧ y' / 400 ≤ 25 := by omega
  rw [daysFromCivil, hy', ok_bind, eraOf_eq (by omega) (by omega), ok_bind, i64_eq (by omega), ok_bind,
    i64_eq (by omega), ok_bind, hmp', ok_bind]
  generalize y' - y' / 400 * 400 = yoe at hyoe ⊢
  generalize y' / 400 = era at hera ⊢
  clear hy' hmp' hrange hy hm
  simp only [Int.tdiv_eq_ediv_of_nonneg (show 0 ≤ yoe from hyoe.1)]
  rw [i64_eq (by omega), ok_bind, i64_eq (by omega), ok_bind, Int.tdiv_eq_ediv_of_nonneg (by omega)]
  rw [i64_eq (by omega), ok_bind, i64_eq (by omega), ok_bind, i64_eq (by omega), ok_bind, i64_eq (by omega),
    ok_bind, i64_eq (by omega), ok_bind, i64_eq (by omega), ok_bind, i64_eq (by omega), ok_bind,
    i64_eq (by omega), ok_bind, i64_eq (by omega)]
  exact ⟨_, rfl, by omega⟩

theorem Denotes.widths {f : Fields} {v : Values} (h : f.Denotes v) : Widths f :=
  ⟨h.year.length, h.month.length, h.day.length, h.hour.length, h.minute.length, h.second.length⟩

theorem says_bound {width : Nat} {s : String} {n : Int} (h : Says width s n) :
    -10 ^ width < n ∧ n < 10 ^ width := h.length ▸ numeral_bound h.numeral

/-- Fields that say values in the ranges make a timestamp. -/
theorem denotes_timestamp {f : Fields} {v : Values} (h : f.Denotes v) (s : String) :
    ∃ days, daysFromCivil v.year v.month v.day = .ok days ∧ -2 ^ 40 ≤ days ∧ days ≤ 2 ^ 40 ∧
      timestampOf s v =
        .ok ⟨Int64.ofInt (days * 86400 + v.hour * 3600 + v.minute * 60 + v.second)⟩ := by
  have hy := says_bound h.year
  have hh := says_bound h.hour
  have hm := says_bound h.minute
  have hs := says_bound h.second
  obtain ⟨days, hdays, hbound⟩ := daysFromCivil_isOk (y := v.year) (by omega) h.range.1 h.range.2.1
  exact ⟨days, hdays, hbound.1, hbound.2, timestampOf_eq s h.range (by omega) hdays hbound⟩

/-- What is read is the texts whose fields say values in the ranges. -/
theorem fromRfc3339_eq_ok {s : String} {t : Timestamp} : fromRfc3339 s = .ok t ↔
    ∃ (f : Fields) (v : Values), f.Denotes v ∧ s = f.text ∧ timestampOf s v = .ok t := by
  constructor
  · intro h
    have hshaped : shaped (asBytes s) = true := by
      by_contra hno
      cases (fromRfc3339_misshapen hno).symm.trans h
    obtain ⟨f, hw, rfl⟩ := shaped_iff.mp hshaped
    rw [fromRfc3339_text hw] at h
    simp only [readFields, bind_eq_ok, num_eq_ok (Nat.le_refl 4) hw.year,
      num_eq_ok (by decide) hw.month, num_eq_ok (by decide) hw.day, num_eq_ok (by decide) hw.hour,
      num_eq_ok (by decide) hw.minute, num_eq_ok (by decide) hw.second] at h
    obtain ⟨y, hy, m, hm, d, hd, hh, hhh, mm, hmm, ss, hss, ht⟩ := h
    have hrange := ht
    simp only [timestampOf, bind_eq_ok, ensure_eq_ok] at hrange
    obtain ⟨-, hrange, -⟩ := hrange
    exact ⟨f, ⟨y, m, d, hh, mm, ss⟩, ⟨hy, hm, hd, hhh, hmm, hss, hrange⟩, rfl, ht⟩
  · rintro ⟨f, v, h, rfl, ht⟩
    have hw := Denotes.widths h
    rw [fromRfc3339_text hw, readFields, (num_eq_ok (Nat.le_refl 4) hw.year).mpr h.year, ok_bind,
      (num_eq_ok (by decide) hw.month).mpr h.month, ok_bind,
      (num_eq_ok (by decide) hw.day).mpr h.day, ok_bind,
      (num_eq_ok (by decide) hw.hour).mpr h.hour, ok_bind,
      (num_eq_ok (by decide) hw.minute).mpr h.minute, ok_bind,
      (num_eq_ok (by decide) hw.second).mpr h.second, ok_bind]
    exact ht

theorem accepted_iff_denotes {s : String} :
    (∃ t, fromRfc3339 s = .ok t) ↔ ∃ (f : Fields) (v : Values), f.Denotes v ∧ s = f.text := by
  constructor
  · rintro ⟨t, ht⟩
    obtain ⟨f, v, h, hs, -⟩ := fromRfc3339_eq_ok.mp ht
    exact ⟨f, v, h, hs⟩
  · rintro ⟨f, v, h, hs⟩
    obtain ⟨_, -, -, -, ht⟩ := denotes_timestamp h s
    exact ⟨_, fromRfc3339_eq_ok.mpr ⟨f, v, h, hs, ht⟩⟩

/-! ## Failures -/

/-- An error that is returned, and names what is wrong with a timestamp. -/
def Typed (e : Stop) : Prop := ∃ message, e = .error (.rfc3339 message)

theorem num_typed (s : String) : FailsWith Typed (num s) := .okOr ⟨_, rfl⟩

theorem timestampOf_typed {f : Fields} {v : Values} (hy : Says 4 f.year v.year) (hm : Says 2 f.month v.month)
    (hd : Says 2 f.day v.day) (hhh : Says 2 f.hour v.hour) (hmm : Says 2 f.minute v.minute)
    (hss : Says 2 f.second v.second) (s : String) : FailsWith Typed (timestampOf s v) := by
  rw [timestampOf]
  refine .bind (.ensure ⟨_, rfl⟩) fun _ hrange e he => ?_
  have hrange := ensure_eq_ok.mp hrange
  obtain ⟨_, -, -, -, ht⟩ := denotes_timestamp ⟨hy, hm, hd, hhh, hmm, hss, hrange⟩ s
  rw [timestampOf, ensure_true hrange, ok_bind] at ht
  cases ht.symm.trans he

/-- No text is cut inside a character, indexed out of range, or overflows: it is
read, or refused with a typed error. -/
theorem rfc3339_typed (s : String) : (∃ t, fromRfc3339 s = .ok t) ∨
    ∃ message, fromRfc3339 s = .error (.error (.rfc3339 message)) := by
  have htyped : FailsWith Typed (fromRfc3339 s) := by
    by_cases hshaped : shaped (asBytes s) = true
    · obtain ⟨f, hw, rfl⟩ := shaped_iff.mp hshaped
      rw [fromRfc3339_text hw, readFields]
      refine .bind (num_typed _) fun y hy => .bind (num_typed _) fun m hm => .bind (num_typed _) fun d hd =>
        .bind (num_typed _) fun hh hhh => .bind (num_typed _) fun mm hmm => .bind (num_typed _) fun ss hss => ?_
      exact timestampOf_typed ((num_eq_ok (Nat.le_refl 4) hw.year).mp hy) ((num_eq_ok (by decide) hw.month).mp hm)
        ((num_eq_ok (by decide) hw.day).mp hd) ((num_eq_ok (by decide) hw.hour).mp hhh)
        ((num_eq_ok (by decide) hw.minute).mp hmm) ((num_eq_ok (by decide) hw.second).mp hss) _
    · exact fun e he => ⟨_, Except.error.inj (he.symm.trans (fromRfc3339_misshapen hshaped))⟩
  cases hread : fromRfc3339 s with
  | ok t => exact .inl ⟨t, rfl⟩
  | error e =>
    obtain ⟨message, rfl⟩ := htyped e hread
    exact .inr ⟨message, rfl⟩

/-! ## Signs -/

/-- A field without a sign is of digits. -/
theorem says_digits {width : Nat} {s : String} {n : Int} (h : Says width s n) (hsign : ¬ HasSign s) :
    (∀ b ∈ asBytes s, IsDigit b) ∧ n = number s := by
  obtain ⟨-, hn⟩ := h
  rw [number]
  generalize hbs : asBytes s = bs at hn ⊢
  cases hn with
  | digits hne h => exact ⟨h, rfl⟩
  | plus hne h => exact absurd ⟨_, .inl hbs⟩ hsign
  | minus hne h => exact absurd ⟨_, .inr hbs⟩ hsign

theorem digits_says {width low high : Nat} {s : String} (hwidth : 0 < width)
    (h : DigitField width low high s) : Says width s (number s) ∧ ¬ HasSign s := by
  refine ⟨⟨h.length, .digits (List.ne_nil_of_length_pos (by rw [h.length]; exact hwidth)) h.digits⟩, ?_⟩
  rintro ⟨bs, hbs | hbs⟩
  · exact absurd (h.digits 0x2b (by rw [hbs]; simp)) (by decide)
  · exact absurd (h.digits 0x2d (by rw [hbs]; simp)) (by decide)

/-- The fields of a timestamp, in order. -/
def fieldList (f : Fields) : List String := [f.year, f.month, f.day, f.hour, f.minute, f.second]

/-- The numbers the fields write. -/
def numbers (f : Fields) : Values where
  year := number f.year
  month := number f.month
  day := number f.day
  hour := number f.hour
  minute := number f.minute
  second := number f.second

/-- Fields in the grammar say their numbers, without a sign. -/
theorem wellformed_iff {f : Fields} : f.Wellformed ↔
    f.Denotes (numbers f) ∧ ∀ x ∈ fieldList f, ¬ HasSign x := by
  constructor
  · intro h
    obtain ⟨hy, hy'⟩ := digits_says (by decide) h.year
    obtain ⟨hm, hm'⟩ := digits_says (by decide) h.month
    obtain ⟨hd, hd'⟩ := digits_says (by decide) h.day
    obtain ⟨hhh, hhh'⟩ := digits_says (by decide) h.hour
    obtain ⟨hmm, hmm'⟩ := digits_says (by decide) h.minute
    obtain ⟨hss, hss'⟩ := digits_says (by decide) h.second
    have rm := h.month.range
    have rd := h.day.range
    have rh := h.hour.range
    have rmm := h.minute.range
    have rs := h.second.range
    refine ⟨⟨hy, hm, hd, hhh, hmm, hss, ?_⟩, ?_⟩
    · simp only [numbers]
      omega
    · simp only [fieldList, List.forall_mem_cons, List.not_mem_nil, false_imp_iff, implies_true, and_true]
      exact ⟨hy', hm', hd', hhh', hmm', hss'⟩
  · rintro ⟨h, hsign⟩
    simp only [fieldList, List.forall_mem_cons, List.not_mem_nil, false_imp_iff, implies_true,
      and_true] at hsign
    obtain ⟨sy, sm, sd, sh, smm, ss⟩ := hsign
    obtain ⟨rm, rd, rh, rmm, rs⟩ := h.range
    have hyear := says_bound h.year
    simp only [numbers] at rm rd rh rmm rs hyear
    exact ⟨⟨h.year.length, (says_digits h.year sy).1, by omega⟩, ⟨h.month.length, (says_digits h.month sm).1, by omega⟩,
      ⟨h.day.length, (says_digits h.day sd).1, by omega⟩, ⟨h.hour.length, (says_digits h.hour sh).1, by omega⟩,
      ⟨h.minute.length, (says_digits h.minute smm).1, by omega⟩,
      ⟨h.second.length, (says_digits h.second ss).1, by omega⟩⟩

/-- Fields say one list of values, and without signs it is their numbers. -/
theorem denotes_numbers {f : Fields} {v : Values} (h : f.Denotes v)
    (hsign : ∀ x ∈ fieldList f, ¬ HasSign x) : v = numbers f := by
  simp only [fieldList, List.forall_mem_cons, List.not_mem_nil, false_imp_iff, implies_true,
    and_true] at hsign
  obtain ⟨sy, sm, sd, sh, smm, ss⟩ := hsign
  obtain ⟨y, m, d, hh, mm, s⟩ := v
  simp only [numbers, Values.mk.injEq]
  exact ⟨(says_digits h.year sy).2, (says_digits h.month sm).2, (says_digits h.day sd).2, (says_digits h.hour sh).2,
    (says_digits h.minute smm).2, (says_digits h.second ss).2⟩

/-- A text that is read is of digits, or has a sign, and not both. -/
theorem accepted_cases {s : String} :
    ((∃ t, fromRfc3339 s = .ok t) ↔ InGrammar s ∨ SignedText s) ∧ ¬ (InGrammar s ∧ SignedText s) := by
  constructor
  · rw [accepted_iff_denotes]
    constructor
    · rintro ⟨f, v, h, hs⟩
      by_cases hsign : ∀ x ∈ fieldList f, ¬ HasSign x
      · exact .inl ⟨f, wellformed_iff.mpr ⟨denotes_numbers h hsign ▸ h, hsign⟩, hs⟩
      · simp only [not_forall, not_not] at hsign
        obtain ⟨x, hx, hsign⟩ := hsign
        exact .inr ⟨f, v, h, hs, x, hx, hsign⟩
    · rintro (⟨f, h, hs⟩ | ⟨f, v, h, hs, -⟩)
      · exact ⟨f, _, (wellformed_iff.mp h).1, hs⟩
      · exact ⟨f, v, h, hs⟩
  · rintro ⟨⟨f, h, rfl⟩, f', v, h', hs, x, hx, hsign⟩
    obtain ⟨hdenotes, hno⟩ := wellformed_iff.mp h
    obtain rfl := text_inj (Denotes.widths hdenotes) (Denotes.widths h') hs
    exact hno x hx hsign

/-! ## Real days -/

/-- As many digits that write one number are the same. -/
theorem number_inj {width low high : Nat} {s s' : String} (h : DigitField width low high s)
    (h' : DigitField width low high s') (heq : number s = number s') : s = s' :=
  asBytes_inj (numberFrom_inj (h.length.trans h'.length.symm) h.digits h'.digits heq).2

/-- A text of a real day is read as the seconds of its date and its time. -/
theorem realDay_read {s : String} (h : RealDay s) {t : Timestamp} (ht : fromRfc3339 s = .ok t) :
    ∃ (f : Fields) (date : Date), f.Wellformed ∧ s = f.text ∧ date.year = number f.year ∧
      date.month = number f.month ∧ date.day = number f.day ∧ t.secs.toInt = (date.dayNumber - 719528) * 86400 +
        number f.hour * 3600 + number f.minute * 60 + number f.second := by
  obtain ⟨f, hwell, rfl, hday⟩ := h
  obtain ⟨hdenotes, hsign⟩ := wellformed_iff.mp hwell
  obtain ⟨f', v, hdenotes', htext, hread⟩ := fromRfc3339_eq_ok.mp ht
  obtain rfl := text_inj (Denotes.widths hdenotes) (Denotes.widths hdenotes') htext
  obtain rfl := denotes_numbers hdenotes' hsign
  have hday₀ := hwell.day.range.1
  let date : Date := ⟨number f.year, number f.month, number f.day, by omega, hday⟩
  have hyear := hwell.year.range
  have hnear : -1084405 ≤ date.dayNumber - 719528 ∧ date.dayNumber - 719528 ≤ 2932896 :=
    (year_range (sub_add_cancel date.dayNumber 719528).symm).mp
      ⟨by dsimp only [date]; omega, by dsimp only [date]; omega⟩
  have hdays : daysFromCivil (number f.year) (number f.month) (number f.day) =
      .ok (date.dayNumber - 719528) := daysFromCivil_date date (by omega) (by omega)
  obtain ⟨days, hdays', -, -, hseconds⟩ := denotes_timestamp hdenotes f.text
  obtain rfl := Except.ok.inj (hdays.symm.trans hdays')
  refine ⟨f, date, hwell, rfl, rfl, rfl, rfl, ?_⟩
  have hhour := hwell.hour.range
  have hminute := hwell.minute.range
  have hsecond := hwell.second.range
  rw [← Except.ok.inj (hseconds.symm.trans hread)]
  simp only [numbers]
  rw [Int64.toInt_ofInt_of_le (by omega) (by omega)]

/-- Texts of real days that are read as one timestamp are the same. -/
theorem realDay_inj {s s' : String} (h : RealDay s) (h' : RealDay s') {t : Timestamp}
    (ht : fromRfc3339 s = .ok t) (ht' : fromRfc3339 s' = .ok t) : s = s' := by
  obtain ⟨f, date, hf, rfl, hyear, hmonth, hday, hsecs⟩ := realDay_read h ht
  obtain ⟨f', date', hf', rfl, hyear', hmonth', hday', hsecs'⟩ := realDay_read h' ht'
  have hhour := hf.hour.range
  have hminute := hf.minute.range
  have hsecond := hf.second.range
  have hhour' := hf'.hour.range
  have hminute' := hf'.minute.range
  have hsecond' := hf'.second.range
  have hnumber : date.dayNumber = date'.dayNumber := by omega
  have htime : number f.hour = number f'.hour ∧ number f.minute = number f'.minute ∧
      number f.second = number f'.second := by omega
  obtain rfl := Date.dayNumber_injective hnumber
  have hy := number_inj hf.year hf'.year (by omega)
  have hm := number_inj hf.month hf'.month (by omega)
  have hd := number_inj hf.day hf'.day (by omega)
  have hhh := number_inj hf.hour hf'.hour htime.1
  have hmm := number_inj hf.minute hf'.minute htime.2.1
  have hss := number_inj hf.second hf'.second htime.2.2
  simp only [Fields.text, hy, hm, hd, hhh, hmm, hss]

/-- A text is read just when it is in the grammar, where it is not of fields in
range with a sign among them; and in the grammar no two texts of real days are
read as one timestamp. -/
theorem rfc3339_grammar_iff (s : String) :
    (((∃ t, fromRfc3339 s = .ok t) ↔ InGrammar s) ↔ ¬ SignedText s) ∧
      ∀ s' t, RealDay s → RealDay s' → fromRfc3339 s = .ok t → fromRfc3339 s' = .ok t → s = s' := by
  refine ⟨?_, fun s' t h h' => realDay_inj h h'⟩
  obtain ⟨hcases, hapart⟩ := accepted_cases (s := s)
  rw [hcases]
  constructor
  · intro hiff hsigned
    exact hapart ⟨hiff.mp (.inr hsigned), hsigned⟩
  · intro hno
    exact or_iff_left hno

/-- An hour of minus one is read as the last but one hour of the day before. -/
theorem signed_hour_read : ∃ t, fromRfc3339 "2024-01-02T-1:00:00Z" = .ok t ∧
    fromRfc3339 "2024-01-01T23:00:00Z" = .ok t ∧ ¬ InGrammar "2024-01-02T-1:00:00Z" := by
  have hfield : ∀ {s : String} {width : Nat}, (asBytes s).length = width → asBytes s ≠ [] →
      ((asBytes s).all fun b => IsDigit b) = true → Says width s (number s) :=
    fun hlength hne h => ⟨hlength, .digits hne (List.all_iff_forall_prop.mp h)⟩
  have hminus : Numeral (0x2d :: asBytes "1") (-numberFrom 0 (asBytes "1")) :=
    .minus (by decide) (List.all_iff_forall_prop.mp (by decide))
  have hsigned : Fields.Denotes ⟨"2024", "01", "02", "-1", "00", "00"⟩ ⟨2024, 1, 2, -1, 0, 0⟩ :=
    ⟨hfield (s := "2024") rfl (by decide) (by decide), hfield (s := "01") rfl (by decide) (by decide),
      hfield (s := "02") rfl (by decide) (by decide), ⟨rfl, hminus⟩,
      hfield (s := "00") rfl (by decide) (by decide), hfield (s := "00") rfl (by decide) (by decide),
      by decide⟩
  have hplain : Fields.Denotes ⟨"2024", "01", "01", "23", "00", "00"⟩ ⟨2024, 1, 1, 23, 0, 0⟩ :=
    ⟨hfield (s := "2024") rfl (by decide) (by decide), hfield (s := "01") rfl (by decide) (by decide),
      hfield (s := "01") rfl (by decide) (by decide), hfield (s := "23") rfl (by decide) (by decide),
      hfield (s := "00") rfl (by decide) (by decide), hfield (s := "00") rfl (by decide) (by decide),
      by decide⟩
  refine ⟨⟨1704150000⟩, fromRfc3339_eq_ok.mpr ⟨_, _, hsigned, rfl, rfl⟩,
    fromRfc3339_eq_ok.mpr ⟨_, _, hplain, rfl, rfl⟩, fun hgrammar => ?_⟩
  exact accepted_cases.2 ⟨hgrammar, _, _, hsigned, rfl, "-1", by decide, asBytes "1", .inr rfl⟩

end AionTrust.Proof
