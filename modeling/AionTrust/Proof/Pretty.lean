import AionTrust.Framework.Delimited
import AionTrust.Spec.Pretty

/-!
# The text of a value ends itself

From the text of an exact value both the value and what follows can be told
(`delimited_pretty`), as long as no digit follows; of an object, whatever
follows (`endsAt_object`). So an exact object is told from its text, and no
beginning of it is the text of another (`text_inj`, `eq_of_text_start`).
-/

namespace AionTrust.Spec.Pretty

open AionTrust.Impl
open Framework

/-! ## Strings -/

def hexVal (c : Char) : ℕ := if c.isDigit then c.toNat - '0'.toNat else c.toNat - 'a'.toNat + 10

theorem hexVal_digitChar : ∀ n < 16, hexVal (Nat.digitChar n) = n := by decide

/-- The character after a backslash, read. -/
def unescapeRest : List Char → Option (Char × List Char)
  | 'u' :: '0' :: '0' :: high :: low :: r => some (Char.ofNat (16 * hexVal high + hexVal low), r)
  | 'n' :: r => some ('\n', r)
  | 'r' :: r => some ('\r', r)
  | 't' :: r => some ('\t', r)
  | 'b' :: r => some (Char.ofNat 8, r)
  | 'f' :: r => some (Char.ofNat 12, r)
  | c :: r => some (c, r)
  | [] => none

def unescape : List Char → Option (Char × List Char)
  | c :: r => if c = '\\' then unescapeRest r else some (c, r)
  | [] => none

theorem unescape_escape (c : Char) (r : List Char) : unescape (escape c ++ r) = some (c, r) := by
  have hof : ∀ n, c.toNat = n → c = Char.ofNat n := fun n hn => by rw [← hn, Char.ofNat_toNat]
  unfold escape
  split
  · rename_i h
    rw [h]
    rfl
  split
  · rename_i h
    rw [h]
    rfl
  split
  · rename_i h
    rw [h]
    rfl
  split
  · rename_i h
    rw [h]
    rfl
  split
  · rename_i h
    rw [h]
    rfl
  split
  · rename_i h
    rw [hof 8 h]
    rfl
  split
  · rename_i h
    rw [hof 12 h]
    rfl
  split
  · have hcode : 16 * hexVal (Nat.digitChar (c.toNat / 16)) + hexVal (Nat.digitChar (c.toNat % 16)) = c.toNat := by
      rw [hexVal_digitChar _ (by omega), hexVal_digitChar _ (by omega)]
      omega
    show some (Char.ofNat _, r) = some (c, r)
    rw [hcode, Char.ofNat_toNat]
  · rename_i hquote hslash _ _ _ _ _ _
    exact if_neg hslash

/-- No escape begins another. -/
theorem delimited_escape : Delimited escape (fun _ => True) fun _ => True :=
  Delimited.of_reader fun c r _ => unescape_escape c r

/-- No escape begins with a quote. -/
theorem escape_ne_quote (c : Char) (r r' : List Char) : escape c ++ r ≠ ['"'] ++ r' := by
  intro heq
  have hread : some (c, r) = some ('"', r') := by
    rw [← unescape_escape c r, heq]
    rfl
  rw [(Prod.mk.inj (Option.some.inj hread)).1] at heq
  exact absurd (List.cons.inj heq).1 (by decide)

theorem delimited_quote : Delimited quote (fun _ => True) fun _ => True := by
  intro s _ s' r r' _ _ _ heq
  have hinner : s.toList.flatMap escape ++ ['"'] ++ r = s'.toList.flatMap escape ++ ['"'] ++ r' :=
    (List.cons.inj heq).2
  obtain ⟨hchars, hrest⟩ := endsAt_flatMap escape_ne_quote (fun _ => trivial) (fun _ _ => trivial)
    (fun c _ => delimited_escape c trivial) s'.toList r r' (fun _ _ => trivial) trivial trivial hinner
  exact ⟨String.toList_inj.mp hchars, hrest⟩

/-! ## Brackets -/

theorem noDigit_blockRest {last : Char} {level : ℕ} (ts : List (List Char)) (r : List Char) :
    NoDigit (blockRest last level ts ++ r) := by
  cases ts with
  | nil => exact noDigit_cons (by decide)
  | cons t ts => exact noDigit_cons (by decide)

section

variable {α : Type} {f : α → List Char} {P : α → Prop} {first last : Char} {level : ℕ} {xs : List α}

theorem endsAt_blockRest (hxs : ∀ x ∈ xs, EndsAt f P NoDigit x) :
    EndsAt (fun xs => blockRest last level (xs.map f)) (fun xs => ∀ x ∈ xs, P x) (fun _ => True) xs := by
  simp only [blockRest, List.flatMap_map]
  refine endsAt_flatMap (Q := NoDigit) (fun x s s' heq => ?_) (fun s => noDigit_cons (by decide))
    (fun x s => noDigit_cons (by decide)) fun x hx y s s' hy hs hs' heq => ?_
  · simp [newline] at heq
  · simp only [List.cons_append, List.append_assoc] at heq
    exact hxs x hx y s s' hy hs hs' (List.append_cancel_left (List.cons.inj heq).2)

/-- Values between brackets end themselves where each of them does. -/
theorem endsAt_block (hlast : last ≠ '\n') (hxs : ∀ x ∈ xs, EndsAt f P NoDigit x) :
    EndsAt (fun xs => block first last level (xs.map f)) (fun xs => ∀ x ∈ xs, P x) (fun _ => True) xs := by
  intro ys r r' hys _ _ heq
  cases xs with
  | nil =>
    cases ys with
    | nil => exact ⟨rfl, List.append_cancel_left heq⟩
    | cons y ys => simp [block, newline, hlast] at heq
  | cons x xs =>
    cases ys with
    | nil => simp [block, newline, hlast.symm] at heq
    | cons y ys =>
      simp only [List.map_cons, block, List.cons_append, List.append_assoc] at heq
      obtain ⟨rfl, hrest⟩ := hxs x List.mem_cons_self y _ _ (hys y List.mem_cons_self) (noDigit_blockRest _ _)
        (noDigit_blockRest _ _) (List.append_cancel_left (List.cons.inj heq).2)
      obtain ⟨rfl, rfl⟩ := endsAt_blockRest (fun z hz => hxs z (List.mem_cons_of_mem _ hz)) ys r r'
        (fun z hz => hys z (List.mem_cons_of_mem _ hz)) trivial trivial hrest
      exact ⟨rfl, rfl⟩

end

/-! ## Values -/

theorem prettyItems_eq (level : ℕ) (vs : List Value) : prettyItems level vs = vs.map (pretty level) := by
  induction vs with
  | nil => rfl
  | cons v vs ih => rw [prettyItems, ih, List.map_cons]

theorem prettyEntries_eq (level : ℕ) (entries : List (String × Value)) :
    prettyEntries level entries = entries.map (prettyEntry level) := by
  induction entries with
  | nil => rfl
  | cons e entries ih => rw [prettyEntries, ih, List.map_cons, prettyEntry]

/-- What a value is, as its text shows first. -/
inductive Kind where
  | null
  | bool
  | posInt
  | negInt
  | float
  | string
  | array
  | object

def kind : Value → Kind
  | .null => .null
  | .bool _ => .bool
  | .number (.posInt _) => .posInt
  | .number (.negInt _) => .negInt
  | .number (.float _) => .float
  | .string _ => .string
  | .array _ => .array
  | .object _ => .object

def kindOf (c : Char) : Kind :=
  if c = 'n' then .null else if c = 't' ∨ c = 'f' then .bool else if c.isDigit then .posInt
  else if c = '-' then .negInt else if c = '"' then .string else if c = '[' then .array else .object

theorem kindOf_digit {c : Char} (h : c.isDigit = true) : kindOf c = .posInt := by
  have hother : ∀ d : Char, d.isDigit = false → c ≠ d := by
    rintro d hd rfl
    rw [h] at hd
    cases hd
  rw [kindOf, if_neg (hother _ (by decide)), if_neg (not_or.mpr ⟨hother _ (by decide), hother _ (by decide)⟩),
    if_pos h]

theorem toDigits_cons (n : ℕ) : ∃ c rest, Nat.toDigits 10 n = c :: rest ∧ c.isDigit = true := by
  cases hn : Nat.toDigits 10 n with
  | nil => exact absurd hn Nat.toDigits_ne_nil
  | cons c rest => exact ⟨c, rest, rfl, Nat.isDigit_of_mem_toDigits (b := 10) (n := n) (by decide) (by decide) (by rw [hn]; exact List.mem_cons_self)⟩

theorem pretty_kind {v : Value} (h : Exact v) (level : ℕ) : ∃ c rest, pretty level v = c :: rest ∧ kindOf c = kind v := by
  cases h with
  | null => exact ⟨'n', _, rfl, rfl⟩
  | bool b => cases b <;> exact ⟨_, _, rfl, rfl⟩
  | @number n hn =>
    cases n with
    | posInt n =>
      obtain ⟨c, rest, hc, hdigit⟩ := toDigits_cons n.toNat
      exact ⟨c, rest, hc, kindOf_digit hdigit⟩
    | negInt n => exact ⟨'-', _, rfl, rfl⟩
    | float x => exact hn.elim
  | string s => exact ⟨'"', _, rfl, rfl⟩
  | @array vs _ =>
    rw [pretty, prettyItems_eq]
    cases vs <;> exact ⟨'[', _, rfl, rfl⟩
  | @object entries _ =>
    rw [pretty, prettyEntries_eq]
    cases entries <;> exact ⟨'\x7b', _, rfl, rfl⟩

/-- Values of one kind. -/
inductive Alike : Value → Value → Prop
  | null : Alike .null .null
  | bool (b b' : Bool) : Alike (.bool b) (.bool b')
  | posInt (n n' : UInt64) : Alike (.number (.posInt n)) (.number (.posInt n'))
  | negInt (n n' : Int64) : Alike (.number (.negInt n)) (.number (.negInt n'))
  | float (x x' : F64) : Alike (.number (.float x)) (.number (.float x'))
  | string (s s' : String) : Alike (.string s) (.string s')
  | array (vs vs' : List Value) : Alike (.array vs) (.array vs')
  | object (entries entries' : List (String × Value)) : Alike (.object entries) (.object entries')

theorem alike_of_kind {v w : Value} (h : kind v = kind w) : Alike v w := by
  cases v with
  | number n =>
    cases w with
    | number m => cases n <;> cases m <;> first | constructor | cases h
    | _ => cases n <;> cases h
  | _ =>
    cases w with
    | number m => cases m <;> cases h
    | _ => first | constructor | cases h

theorem alike_of_eq {v w : Value} {level : ℕ} {r r' : List Char} (hv : Exact v) (hw : Exact w)
    (heq : pretty level v ++ r = pretty level w ++ r') : Alike v w := by
  obtain ⟨c, rest, hc, hkind⟩ := pretty_kind hv level
  obtain ⟨d, rest', hd, hkind'⟩ := pretty_kind hw level
  rw [hc, hd] at heq
  exact alike_of_kind (by rw [← hkind, ← hkind', (List.cons.inj heq).1])

theorem endsAt_entries {level : ℕ} {entries : List (String × Value)}
    (h : ∀ e ∈ entries, EndsAt (pretty (level + 1)) Exact NoDigit e.2) :
    EndsAt (fun entries => pretty level (.object entries)) (fun entries => ∀ e ∈ entries, Exact e.2) (fun _ => True)
      entries := by
  simp only [pretty, prettyEntries_eq]
  refine endsAt_block (by decide) fun e he e' r r' he' hr hr' heq => ?_
  simp only [prettyEntry, List.append_assoc, List.cons_append] at heq
  obtain ⟨hkey, hrest⟩ := delimited_quote e.1 trivial e'.1 _ _ trivial trivial trivial heq
  obtain ⟨hvalue, hafter⟩ := h e he e'.2 r r' he' hr hr' (List.cons.inj (List.cons.inj hrest).2).2
  exact ⟨Prod.ext hkey hvalue, hafter⟩

/-- An array ends itself where its items do. -/
theorem endsAt_items {level : ℕ} {vs : List Value} (h : ∀ v ∈ vs, EndsAt (pretty (level + 1)) Exact NoDigit v) :
    EndsAt (fun vs => pretty level (.array vs)) (fun vs => ∀ v ∈ vs, Exact v) (fun _ => True) vs := by
  simp only [pretty, prettyItems_eq]
  exact endsAt_block (by decide) h

theorem exactNumber_of {n : Number} (h : Exact (.number n)) : ExactNumber n := by
  cases h with
  | number hn => exact hn

theorem exact_of_array {vs : List Value} (h : Exact (.array vs)) : ∀ v ∈ vs, Exact v := by
  cases h with
  | array hvs => exact hvs

theorem exact_of_object {entries : List (String × Value)} (h : Exact (.object entries)) : ∀ e ∈ entries, Exact e.2 := by
  cases h with
  | object hentries => exact hentries

theorem delimited_pretty (level : ℕ) : Delimited (pretty level) Exact NoDigit := by
  intro v hv
  induction hv generalizing level with
  | null =>
    intro b r r' hb _ _ heq
    cases alike_of_eq .null hb heq
    exact ⟨rfl, List.append_cancel_left heq⟩
  | bool x =>
    intro b r r' hb _ _ heq
    cases alike_of_eq (.bool x) hb heq with
    | bool _ y => cases x <;> cases y <;> simp_all [pretty]
  | @number n hn =>
    intro b r r' hb hr hr' heq
    cases alike_of_eq (.number hn) hb heq with
    | posInt n m =>
      obtain ⟨hval, hrest⟩ := delimited_digits n.toNat trivial m.toNat r r' trivial hr hr' heq
      exact ⟨by rw [UInt64.toNat_inj.mp hval], hrest⟩
    | negInt n m =>
      obtain ⟨hval, hrest⟩ := delimited_digits n.toInt.natAbs trivial m.toInt.natAbs r r' trivial hr hr'
        (List.cons.inj heq).2
      have hneg : n.toInt < 0 := hn
      have hneg' : m.toInt < 0 := exactNumber_of hb
      exact ⟨by rw [Int64.toInt_inj.mp (by omega : n.toInt = m.toInt)], hrest⟩
    | float x y => exact hn.elim
  | string s =>
    intro b r r' hb _ _ heq
    cases alike_of_eq (.string s) hb heq with
    | string _ s' =>
      obtain ⟨hs, hrest⟩ := delimited_quote s trivial s' r r' trivial trivial trivial heq
      exact ⟨by rw [hs], hrest⟩
  | @array vs h ih =>
    intro b r r' hb _ _ heq
    cases alike_of_eq (.array h) hb heq with
    | array _ vs' =>
      obtain ⟨hvs, hrest⟩ := endsAt_items (fun v hv => ih v hv (level + 1)) vs' r r' (exact_of_array hb) trivial
        trivial heq
      exact ⟨by rw [hvs], hrest⟩
  | @object entries h ih =>
    intro b r r' hb _ _ heq
    cases alike_of_eq (.object h) hb heq with
    | object _ entries' =>
      obtain ⟨hentries, hrest⟩ := endsAt_entries (fun e he => ih e he (level + 1)) entries' r r' (exact_of_object hb)
        trivial trivial heq
      exact ⟨by rw [hentries], hrest⟩

/-! ## Texts -/

theorem toList_text (v : Value) : (text v).toList = pretty 0 v := String.toList_ofList

theorem text_inj {v w : Value} (hv : Exact v) (hw : Exact w) (h : text v = text w) : v = w :=
  (delimited_pretty 0).inj noDigit_nil hv hw (by rw [← toList_text, h, toList_text])

/-- No beginning of an object's text is the text of another. -/
theorem eq_of_text_start {entries entries' : List (String × Value)} (h : Exact (.object entries))
    (h' : Exact (.object entries')) (hstart : (text (.object entries)).toList <+: (text (.object entries')).toList) :
    entries = entries' := by
  have hends : Delimited (fun entries => pretty 0 (.object entries)) (fun entries => ∀ e ∈ entries, Exact e.2)
      fun _ => True := fun entries hentries => endsAt_entries fun e he => delimited_pretty 1 e.2 (hentries e he)
  rw [toList_text, toList_text] at hstart
  exact hends.eq_of_start (exact_of_object h) (exact_of_object h') hstart

end AionTrust.Spec.Pretty
