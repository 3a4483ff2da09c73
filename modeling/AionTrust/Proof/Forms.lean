import AionTrust.Impl.Web.Parse
import AionTrust.Proof.Core.Language
import AionTrust.Spec.Forms

/-!
# Forms

The loop of `percentDecode` reads no index past the end
(`percentDecodeFrom_total`), and reads what a byte is written as as the byte
(`percentDecodeFrom_piece`), so a component is read back
(`percentDecode_encoded`). No component has a separator in it
(`encoded_inner`), so the cuts of `formPairs` fall where pairs were joined, and
the pairs are read back (`form_round_trip`).
-/

namespace AionTrust.Proof

open AionTrust.Impl AionTrust.Spec
open Framework (Bytes ok_bind)

/-! ## Bytes -/

/-- An ASCII byte that separates nothing. -/
def Inner (b : UInt8) : Prop := b < 0x80 ∧ b ≠ 0x26 ∧ b ≠ 0x3d

instance : DecidablePred Inner := fun _ => inferInstanceAs (Decidable (_ ∧ _))

theorem hexDigit_spec : ∀ digits ∈ ["0123456789abcdef", "0123456789ABCDEF"], (asBytes digits).length = 16 ∧
    ∀ n < 16, nibble ((asBytes digits).getD n 0) = some (UInt8.ofNat n) ∧ Inner ((asBytes digits).getD n 0) := by
  decide

theorem hexDigit_eq {n : Nat} {c : UInt8} (h : HexDigit n c) : nibble c = some (UInt8.ofNat n) ∧ Inner c := by
  obtain ⟨digits, hdigits, hc⟩ := h
  obtain ⟨hlen, hspec⟩ := hexDigit_spec digits hdigits
  have hn := hspec n (hlen ▸ (List.getElem?_eq_some_iff.mp hc).1)
  rwa [List.getD_eq_getElem?_getD, hc] at hn

/-- Two digits are read as the byte they write. -/
theorem hex2_eq {b hi lo : UInt8} (hhi : HexDigit (b.toNat / 16) hi) (hlo : HexDigit (b.toNat % 16) lo) :
    hex2 hi lo = some b := by
  have hb := b.toNat_lt
  rw [hex2, (hexDigit_eq hhi).1, (hexDigit_eq hlo).1]
  refine congrArg some (UInt8.toNat_inj.mp ?_)
  rw [UInt8.toNat_add, UInt8.toNat_mul, toNat_byte (by omega), toNat_byte (by omega)]
  simp only [UInt8.reduceToNat]
  omega

theorem unreserved_inner {b : UInt8} (h : Unreserved b) : Inner b ∧ b ≠ 0x2b ∧ b ≠ 0x25 := by
  have hmarks : asBytes "*-._~" = [0x2a, 0x2d, 0x2e, 0x5f, 0x7e] := by decide
  simp only [Unreserved, hmarks, List.mem_cons, List.not_mem_nil, or_false, Inner, ne_eq, ← UInt8.toNat_inj,
    UInt8.le_iff_toNat_le, UInt8.lt_iff_toNat_lt, UInt8.reduceToNat] at h ⊢
  omega

/-- No byte of a component separates. -/
theorem encoded_inner {bs : Bytes} {pieces : List Bytes} (h : List.Forall₂ ByteEncoding bs pieces) :
    ∀ c ∈ pieces.flatten, Inner c := by
  intro c hc
  obtain ⟨piece, hpiece, hc⟩ := List.mem_flatten.mp hc
  obtain ⟨b, -, hb⟩ := Framework.exists_left h hpiece
  cases hb with
  | space =>
    rw [List.mem_singleton.mp hc]
    decide
  | plain hb =>
    rw [List.mem_singleton.mp hc]
    exact (unreserved_inner hb).1
  | escape hhi hlo =>
    simp only [List.mem_cons, List.not_mem_nil, or_false] at hc
    rcases hc with rfl | rfl | rfl
    · decide
    · exact (hexDigit_eq hhi).2
    · exact (hexDigit_eq hlo).2

/-! ## The loop -/

theorem byteAt_append (pre rest : Bytes) (b : UInt8) : byteAt (pre ++ b :: rest) pre.length = .ok b := by
  rw [byteAt, List.getElem?_append_right (Nat.le_refl _), Nat.sub_self]
  rfl

theorem byteAt_isOk {bytes : Bytes} {i : Nat} (h : i < bytes.length) : byteAt bytes i = .ok bytes[i] := by
  rw [byteAt, List.getElem?_eq_getElem h]
  rfl

/-- No index past the end is read. -/
theorem percentDecodeFrom_total (bytes : Bytes) (i : Nat) (out : Bytes) :
    ∃ out', percentDecodeFrom bytes i out = .ok out' := by
  by_cases h : i < bytes.length
  · have hskip : ∀ out, ∃ out', percentDecodeFrom bytes (i + 1) out = .ok out' :=
      percentDecodeFrom_total bytes (i + 1)
    rw [percentDecodeFrom, if_pos h, byteAt_isOk h, ok_bind]
    split
    · exact hskip _
    split
    · rename_i hroom
      rw [byteAt_isOk (by omega), ok_bind, byteAt_isOk hroom.2, ok_bind]
      split
      · exact percentDecodeFrom_total bytes (i + 2 + 1) _
      · exact hskip _
    · exact hskip _
  · exact ⟨out, by rw [percentDecodeFrom, if_neg h]⟩
termination_by bytes.length - i

/-- What a byte is written as is read as the byte. -/
theorem percentDecodeFrom_piece {b : UInt8} {piece : Bytes} (h : ByteEncoding b piece) (pre rest out : Bytes) :
    percentDecodeFrom (pre ++ (piece ++ rest)) pre.length out =
      percentDecodeFrom (pre ++ (piece ++ rest)) (pre ++ piece).length (out ++ [b]) := by
  cases h with
  | space =>
    rw [percentDecodeFrom, if_pos (by simp), List.singleton_append, byteAt_append, ok_bind, if_pos rfl,
      List.length_append]
    rfl
  | plain hb =>
    obtain ⟨-, hplus, hpercent⟩ := unreserved_inner hb
    rw [percentDecodeFrom, if_pos (by simp), List.singleton_append, byteAt_append, ok_bind, if_neg hplus,
      if_neg fun h => hpercent h.1, List.length_append]
    rfl
  | @escape _ hi lo hhi hlo =>
    have hlow : byteAt (pre ++ ([0x25, hi, lo] ++ rest)) (pre.length + 2) = .ok lo := by
      simpa using byteAt_append (pre ++ [0x25, hi]) rest lo
    have hhigh : byteAt (pre ++ ([0x25, hi, lo] ++ rest)) (pre.length + 1) = .ok hi := by
      simpa using byteAt_append (pre ++ [(0x25 : UInt8)]) (lo :: rest) hi
    have hpercent : byteAt (pre ++ ([0x25, hi, lo] ++ rest)) pre.length = .ok 0x25 := byteAt_append _ _ _
    have hroom : pre.length + 2 < (pre ++ ([0x25, hi, lo] ++ rest)).length := by
      simp only [List.length_append, List.length_cons]
      omega
    rw [percentDecodeFrom, if_pos (by omega), hpercent, ok_bind, if_neg (by decide), if_pos ⟨rfl, hroom⟩, hhigh,
      ok_bind, hlow, ok_bind, hex2_eq hhi hlo, List.length_append]
    rfl

theorem percentDecodeFrom_pieces {bs : Bytes} {pieces : List Bytes} (h : List.Forall₂ ByteEncoding bs pieces)
    (pre out : Bytes) : percentDecodeFrom (pre ++ pieces.flatten) pre.length out = .ok (out ++ bs) := by
  induction h generalizing pre out with
  | nil => rw [List.flatten_nil, List.append_nil, percentDecodeFrom, if_neg (Nat.lt_irrefl _), List.append_nil]
  | @cons b piece bs pieces hpiece _ ih =>
    rw [List.flatten_cons, percentDecodeFrom_piece hpiece, ← List.append_assoc, ih, List.append_assoc,
      List.singleton_append]

/-! ## Components -/

theorem percentDecode_total (s : String) : ∃ t, percentDecode s = .ok t := by
  obtain ⟨out, hout⟩ := percentDecodeFrom_total (asBytes s) 0 []
  exact ⟨fromUtf8Lossy out, by rw [percentDecode, hout, ok_bind]; rfl⟩

/-- A component is read back. -/
theorem percentDecode_encoded {s e : String} (h : ComponentEncoding s e) : percentDecode e = .ok s := by
  obtain ⟨pieces, hpieces, he⟩ := h
  have hloop := percentDecodeFrom_pieces hpieces [] []
  rw [List.nil_append, List.length_nil, List.nil_append] at hloop
  rw [percentDecode, he, hloop, ok_bind, fromUtf8Lossy_asBytes]
  rfl

theorem component_separators {s e : String} (h : ComponentEncoding s e) : '&' ∉ e.toList ∧ '=' ∉ e.toList := by
  obtain ⟨pieces, hpieces, he⟩ := h
  have hinner := encoded_inner hpieces
  rw [← he] at hinner
  exact ⟨not_mem_toList (b := 0x26) (by decide) fun h => (hinner _ h).2.1 rfl,
    not_mem_toList (b := 0x3d) (by decide) fun h => (hinner _ h).2.2 rfl⟩

/-! ## Bodies -/

theorem pair_cut {pair : String × String} {e : String} (h : PairEncoding pair e) :
    '&' ∉ e.toList ∧ e ≠ "" ∧ ∃ k v, splitOnce '=' e = some (k, v) ∧ percentDecode k = .ok pair.1 ∧
      percentDecode v = .ok pair.2 := by
  obtain ⟨k, v, hk, hv, rfl⟩ := h
  obtain ⟨hkamp, hkeq⟩ := component_separators hk
  obtain ⟨hvamp, -⟩ := component_separators hv
  have htext : (k ++ "=" ++ v).toList = k.toList ++ '=' :: v.toList := by simp
  refine ⟨by simp [htext, hkamp, hvamp], fun hnil => ?_, k, v, splitOnce_append hkeq v, percentDecode_encoded hk,
    percentDecode_encoded hv⟩
  rw [hnil] at htext
  simp at htext

/-- Pairs are read back. -/
theorem formPairs_encoded {pairs : List (String × String)} {body : String} (h : BodyEncoding pairs body) :
    formPairs body = .ok pairs := by
  obtain ⟨es, hes, rfl⟩ := h
  have hpieces : (split '&' ("&".intercalate es)).filter (· ≠ "") = es := by
    by_cases hne : es = []
    · rw [hne]
      decide
    · have hcut : split '&' ("&".intercalate es) = es := by
        refine split_intercalate '&' hne fun e he => ?_
        obtain ⟨pair, -, hpair⟩ := Framework.exists_left hes he
        exact (pair_cut hpair).1
      rw [hcut, List.filter_eq_self]
      intro e he
      obtain ⟨pair, -, hpair⟩ := Framework.exists_left hes he
      exact decide_eq_true (pair_cut hpair).2.1
  rw [formPairs, hpieces, Framework.mapM_eq_ok]
  refine hes.flip.imp fun e pair hpair => ?_
  obtain ⟨-, -, k, v, hcut, hk, hv⟩ := pair_cut hpair
  rw [hcut]
  simp only [hk, hv, ok_bind]
  rfl

theorem formPairs_total (body : String) : ∃ pairs, formPairs body = .ok pairs := by
  refine Framework.mapM_isOk fun pair _ => ?_
  split
  · rename_i k v _
    obtain ⟨k', hk⟩ := percentDecode_total k
    obtain ⟨v', hv⟩ := percentDecode_total v
    exact ⟨(k', v'), by rw [hk, ok_bind, hv]; rfl⟩
  · obtain ⟨k', hk⟩ := percentDecode_total pair
    exact ⟨(k', ""), by rw [hk]; rfl⟩

/-! ## Encodings -/

/-- There is an escape for every byte. -/
theorem exists_byteEncoding (b : UInt8) : ∃ piece, ByteEncoding b piece := by
  have hdigit : ∀ n < 16, ∃ c, HexDigit n c := fun n hn => by
    have hlen : (asBytes "0123456789abcdef").length = 16 := by decide
    exact ⟨_, "0123456789abcdef", List.mem_cons_self, List.getElem?_eq_getElem (hlen ▸ hn)⟩
  have hb := b.toNat_lt
  obtain ⟨hi, hhi⟩ := hdigit (b.toNat / 16) (by omega)
  obtain ⟨lo, hlo⟩ := hdigit (b.toNat % 16) (by omega)
  exact ⟨_, .escape hhi hlo⟩

theorem exists_componentEncoding (s : String) : ∃ e, ComponentEncoding s e := by
  choose piece hpiece using exists_byteEncoding
  have hpieces : List.Forall₂ ByteEncoding (asBytes s) ((asBytes s).map piece) := by
    rw [List.forall₂_map_right_iff, List.forall₂_same]
    exact fun b _ => hpiece b
  obtain ⟨e, he⟩ := exists_text fun c hc => (encoded_inner hpieces c hc).1
  exact ⟨e, _, hpieces, he⟩

theorem exists_bodyEncoding (pairs : List (String × String)) : ∃ body, BodyEncoding pairs body := by
  choose encode hencode using exists_componentEncoding
  refine ⟨_, pairs.map fun pair => encode pair.1 ++ "=" ++ encode pair.2, ?_, rfl⟩
  rw [List.forall₂_map_right_iff, List.forall₂_same]
  exact fun pair _ => ⟨_, _, hencode pair.1, hencode pair.2, rfl⟩

/-- Every list of pairs has encodings, and each of them is read back as the
list; no text makes the decoder read past its end. -/
theorem form_round_trip : (∀ pairs body, BodyEncoding pairs body → formPairs body = .ok pairs) ∧
    (∀ pairs, ∃ body, BodyEncoding pairs body) ∧ (∀ s, ∃ t, percentDecode s = .ok t) ∧
      ∀ body, ∃ pairs, formPairs body = .ok pairs :=
  ⟨fun _ _ => formPairs_encoded, exists_bodyEncoding, percentDecode_total, formPairs_total⟩

end AionTrust.Proof
