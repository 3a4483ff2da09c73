import Mathlib.Data.Bool.AllAny
import AionTrust.Framework.Radix
import AionTrust.Impl.Interop.Didkey
import AionTrust.Proof.Core.Language
import AionTrust.Proof.Interop.Text
import AionTrust.Proof.Packages

/-!
# `did:key`

The two base conversions compute the digits of the number they are given, and
keep its leading zeros; no carry overflows (`base58btcEncode_eq`,
`base58btcDecode_text`). So what is encoded is decoded
(`base58btcDecode_encode`), a text over the alphabet is written again
(`base58btcEncode_decode`), and every other text is refused
(`base58btcDecode_refused`). A key is read back from its identifier
(`decodeDidKey_base`), and there is one identifier for it
(`did_key_canonical`).
-/

namespace AionTrust.Proof

open AionTrust.Impl
open Framework (Bytes bind_eq_ok ok_bind value leading positional mulAdd)

/-! ## The loops -/

theorem pushCarry_eq {base : Nat} (hbase : 1 < base) (carry : Nat) :
    pushCarry base carry = (Nat.digits base carry).map UInt8.ofNat := by
  induction carry using Nat.strong_induction_on with
  | _ carry ih =>
    rw [pushCarry]
    split
    · rename_i h
      rw [Nat.digits_def' hbase h.2, ih _ (Nat.div_lt_self h.2 hbase), List.map_cons]
    · obtain rfl : carry = 0 := by omega
      rw [Nat.digits_zero, List.map_nil]

/-- A carry below the factor runs through without overflow. -/
theorem addDigit_eq {factor base : Nat} (hfactor : factor ≤ 256) (hbase : 1 < base ∧ base ≤ 256)
    {ds : List Nat} (hds : ∀ d ∈ ds, d < base) {carry : Nat} (hcarry : carry < factor) :
    addDigit factor base carry (ds.map UInt8.ofNat) = .ok ((mulAdd factor base carry ds).map UInt8.ofNat) := by
  induction ds generalizing carry with
  | nil => rw [List.map_nil, addDigit, mulAdd, pushCarry_eq hbase.1]
  | cons d ds ih =>
    obtain ⟨hd, hds⟩ := List.forall_mem_cons.mp hds
    have hproduct : d * factor ≤ 256 * 256 := Nat.mul_le_mul (by omega) hfactor
    have hbyte := toNat_byte (show d < 256 by omega)
    rw [List.map_cons, addDigit, hbyte, u32_eq (by omega), ok_bind, u32_eq (by omega), ok_bind,
      ih hds (Framework.carry_lt hcarry hd), ok_bind]
    rfl

/-- The outer loop computes the digits of the number in the other base. -/
theorem foldlM_addDigit {factor base : Nat} (hfactor : 0 < factor ∧ factor ≤ 256)
    (hbase : 1 < base ∧ base ≤ 256) {vs : List Nat} (hvs : ∀ v ∈ vs, v < factor) (n : Nat) :
    vs.foldlM (fun ds v => addDigit factor base v ds) ((Nat.digits base n).map UInt8.ofNat) =
      .ok ((Nat.digits base (vs.foldl (fun n v => v + n * factor) n)).map UInt8.ofNat) := by
  induction vs generalizing n with
  | nil => rfl
  | cons v vs ih =>
    obtain ⟨hv, hvs⟩ := List.forall_mem_cons.mp hvs
    rw [List.foldlM_cons, addDigit_eq hfactor.2 hbase (fun d hd => Nat.digits_lt_base hbase.1 hd) hv, ok_bind,
      Framework.mulAdd_digits hfactor.1 hbase.1, ih hvs, List.foldl_cons]

/-! ## Base 58 as text -/

/-- The character of a digit. -/
def base58Char (v : Nat) : Char := Char.ofNat (alphabet.getD v 0).toNat

def base58Text (vs : List Nat) : String := String.ofList (vs.map base58Char)

/-- A digit's character is one byte, at its place in the alphabet. -/
theorem alphabet_spec : ∀ v < 58, alphabet[v]? = some (alphabet.getD v 0) ∧
    String.utf8EncodeChar (base58Char v) = [alphabet.getD v 0] ∧
    alphabet.idxOf? (alphabet.getD v 0) = some v ∧ (alphabet.getD v 0 = 0x31 ↔ v = 0) ∧
    base58Char v ≠ '#' := by
  decide

theorem alphabetChar_eq {v : Nat} (hv : v < 58) : alphabetChar (UInt8.ofNat v) = .ok (base58Char v) := by
  have hbyte := toNat_byte (show v < 256 by omega)
  rw [alphabetChar, hbyte, (alphabet_spec v hv).1]
  rfl

theorem asBytes_base58Text {vs : List Nat} (hvs : ∀ v ∈ vs, v < 58) :
    asBytes (base58Text vs) = vs.map (alphabet.getD · 0) := by
  rw [base58Text, asBytes_ofList, List.flatMap_map]
  induction vs with
  | nil => rfl
  | cons v vs ih =>
    obtain ⟨hv, hvs⟩ := List.forall_mem_cons.mp hvs
    rw [List.flatMap_cons, (alphabet_spec v hv).2.1, ih hvs]
    rfl

/-- The ones a text starts with are the zeros of its digits. -/
theorem leading_base58 {vs : List Nat} (hvs : ∀ v ∈ vs, v < 58) :
    ((vs.map (alphabet.getD · 0)).takeWhile (· = 0x31)).length = leading vs := by
  rw [List.takeWhile_map, List.length_map, leading]
  congr 1
  induction vs with
  | nil => rfl
  | cons v vs ih =>
    obtain ⟨hv, hvs⟩ := List.forall_mem_cons.mp hvs
    have hone := (alphabet_spec v hv).2.2.2.1
    simp only [List.takeWhile_cons, Function.comp_apply, hone, ih hvs]

/-- Encoding writes the digits of the number of the bytes behind their zeros. -/
theorem base58btcEncode_eq (bs : Bytes) : base58btcEncode bs =
    .ok (base58Text (positional 58 (leading (bs.map UInt8.toNat)) (value 256 (bs.map UInt8.toNat)))) := by
  have hzeros : (bs.takeWhile (· = 0)).length = leading (bs.map UInt8.toNat) := by
    rw [leading, List.takeWhile_map, List.length_map]
    congr 2
    funext b
    simp only [Function.comp_apply, decide_eq_decide]
    exact ⟨fun h => h ▸ rfl, fun h => UInt8.toNat_inj.mp h⟩
  have hdigits : bs.foldlM (fun digits byte => addDigit 256 58 byte.toNat digits) [] =
      .ok ((Nat.digits 58 (value 256 (bs.map UInt8.toNat))).map UInt8.ofNat) := by
    have hbytes : ∀ v ∈ bs.map UInt8.toNat, v < 256 := by simpa using fun b _ => b.toNat_lt
    have hloop := foldlM_addDigit (by decide) (by decide : 1 < 58 ∧ 58 ≤ 256) hbytes 0
    rw [List.foldlM_map] at hloop
    exact hloop
  have hout : ((Nat.digits 58 (value 256 (bs.map UInt8.toNat))).map UInt8.ofNat).reverse.mapM alphabetChar =
      .ok ((Nat.digits 58 (value 256 (bs.map UInt8.toNat))).reverse.map base58Char) := by
    rw [← List.map_reverse, Framework.mapM_eq_ok, List.forall₂_map_left_iff, List.forall₂_map_right_iff,
      List.forall₂_same]
    exact fun v hv => alphabetChar_eq (Nat.digits_lt_base (by decide) (List.mem_reverse.mp hv))
  rw [base58btcEncode, hdigits, ok_bind, hout, ok_bind, hzeros, base58Text, positional, List.map_append,
    List.map_replicate]
  rfl

theorem alphabetPosition_eq {v : Nat} (hv : v < 58) : alphabetPosition (alphabet.getD v 0) = .ok v := by
  rw [alphabetPosition, (alphabet_spec v hv).2.2.1]
  rfl

/-- The loop over a text is the loop over its digits. -/
theorem decodeLoop_eq {vs : List Nat} (hvs : ∀ v ∈ vs, v < 58) (bytes : Bytes) :
    (vs.map (alphabet.getD · 0)).foldlM (fun bytes c => do
      let val ← alphabetPosition c
      addDigit 58 256 val bytes) bytes = vs.foldlM (fun bytes v => addDigit 58 256 v bytes) bytes := by
  induction vs generalizing bytes with
  | nil => rfl
  | cons v vs ih =>
    obtain ⟨hv, hvs⟩ := List.forall_mem_cons.mp hvs
    rw [List.map_cons, List.foldlM_cons, List.foldlM_cons, alphabetPosition_eq hv, ok_bind]
    exact congrArg _ (funext fun bytes => ih hvs bytes)

/-- Decoding gives the bytes of the number of the text behind its zeros. -/
theorem base58btcDecode_text {vs : List Nat} (hvs : ∀ v ∈ vs, v < 58) :
    base58btcDecode (base58Text vs) =
      .ok ((positional 256 (leading vs) (value 58 vs)).map UInt8.ofNat) := by
  have hdigits := foldlM_addDigit (by decide) (by decide : 1 < 256 ∧ 256 ≤ 256) hvs 0
  rw [base58btcDecode, asBytes_base58Text hvs, leading_base58 hvs, decodeLoop_eq hvs]
  refine (congrArg (· >>= _) hdigits).trans ?_
  rw [ok_bind, positional, List.map_append, List.map_replicate, List.map_reverse]
  rfl

/-- What is encoded is decoded. -/
theorem base58btcDecode_encode (bs : Bytes) : ∃ s, base58btcEncode bs = .ok (base58Text s) ∧
    (∀ v ∈ s, v < 58) ∧ base58btcDecode (base58Text s) = .ok bs := by
  have hdigits : ∀ v ∈ positional 58 (leading (bs.map UInt8.toNat)) (value 256 (bs.map UInt8.toNat)), v < 58 :=
    Framework.positional_lt (by decide)
  refine ⟨_, base58btcEncode_eq bs, hdigits, ?_⟩
  rw [base58btcDecode_text hdigits, Framework.leading_positional, Framework.value_positional,
    Framework.positional_eq (by decide) (by simpa using fun b _ => b.toNat_lt), List.map_map,
    show UInt8.ofNat ∘ UInt8.toNat = id from funext fun b => UInt8.ofNat_toNat, List.map_id]

/-! ## Texts over the alphabet -/

/-- The characters of base 58. -/
def InAlphabet (s : String) : Prop := ∀ c ∈ s.toList, ∃ b ∈ alphabet, c = Char.ofNat b.toNat

theorem base58Text_inAlphabet {vs : List Nat} (hvs : ∀ v ∈ vs, v < 58) : InAlphabet (base58Text vs) := by
  intro c hc
  rw [base58Text, String.toList_ofList] at hc
  obtain ⟨v, hv, rfl⟩ := List.mem_map.mp hc
  exact ⟨_, List.mem_of_getElem? (alphabet_spec v (hvs v hv)).1, rfl⟩

/-- A text over the alphabet is that of some digits. -/
theorem inAlphabet_digits {s : String} (h : InAlphabet s) :
    ∃ vs : List Nat, (∀ v ∈ vs, v < 58) ∧ s = base58Text vs := by
  have hdigits : ∀ cs : List Char, (∀ c ∈ cs, ∃ b ∈ alphabet, c = Char.ofNat b.toNat) →
      ∃ vs : List Nat, (∀ v ∈ vs, v < 58) ∧ cs = vs.map base58Char := by
    intro cs hcs
    induction cs with
    | nil => exact ⟨[], by simp, rfl⟩
    | cons c cs ih =>
      obtain ⟨⟨b, hb, rfl⟩, htail⟩ := List.forall_mem_cons.mp hcs
      obtain ⟨vs, hvs, rfl⟩ := ih htail
      obtain ⟨v, hv, rfl⟩ := List.mem_iff_getElem.mp hb
      refine ⟨v :: vs, List.forall_mem_cons.mpr ⟨hv, hvs⟩, ?_⟩
      rw [List.map_cons, base58Char, ← List.getElem_eq_getD]
  obtain ⟨vs, hvs, hs⟩ := hdigits s.toList h
  exact ⟨vs, hvs, by rw [base58Text, ← hs, String.ofList_toList]⟩

/-- A text over the alphabet is written again from its bytes. -/
theorem base58btcEncode_decode {s : String} (h : InAlphabet s) :
    ∃ bs, base58btcDecode s = .ok bs ∧ base58btcEncode bs = .ok s := by
  obtain ⟨vs, hvs, rfl⟩ := inAlphabet_digits h
  refine ⟨_, base58btcDecode_text hvs, ?_⟩
  have hbytes : ((positional 256 (leading vs) (value 58 vs)).map UInt8.ofNat).map UInt8.toNat =
      positional 256 (leading vs) (value 58 vs) := by
    rw [List.map_map]
    refine (List.map_congr_left fun v hv => ?_).trans (List.map_id _)
    exact toNat_byte (Framework.positional_lt (by decide) v hv)
  rw [base58btcEncode_eq, hbytes, Framework.leading_positional, Framework.value_positional,
    Framework.positional_eq (by decide) hvs]

/-- The bytes of a text are in the alphabet only where its characters are. -/
theorem inAlphabet_of_bytes {s : String} (h : ∀ b ∈ asBytes s, b ∈ alphabet) : InAlphabet s := by
  have hascii : ∀ b ∈ alphabet, b < 0x80 := List.all_iff_forall_prop.mp (by decide)
  intro c hc
  have hmem : ∀ b ∈ String.utf8EncodeChar c, b ∈ alphabet := fun b hb => h b (by
    rw [← String.ofList_toList (s := s), asBytes_ofList]
    exact List.mem_flatMap.mpr ⟨c, hc, hb⟩)
  obtain ⟨b, hb⟩ := List.exists_mem_of_ne_nil _ (String.utf8EncodeChar_ne_nil (c := c))
  have hsize := utf8Size_of_ascii hb (hascii b (hmem b hb))
  rw [String.utf8EncodeChar_eq_singleton hsize] at hmem hb
  obtain rfl := List.mem_singleton.mp hb
  exact ⟨_, hmem _ hb, ascii_eq hsize⟩

/-- A digit is added to any bytes. -/
theorem addDigit_bytes {v : Nat} (hv : v < 58) (bytes : Bytes) : ∃ bytes', addDigit 58 256 v bytes = .ok bytes' := by
  have hbytes : ∀ d ∈ bytes.map UInt8.toNat, d < 256 := by simpa using fun b _ => b.toNat_lt
  have hadd := addDigit_eq (by decide) (by decide : 1 < 256 ∧ 256 ≤ 256) hbytes hv
  rw [List.map_map, show UInt8.ofNat ∘ UInt8.toNat = id from funext fun b => UInt8.ofNat_toNat,
    List.map_id] at hadd
  exact ⟨_, hadd⟩

/-- The loop stops at a byte outside the alphabet. -/
theorem decodeLoop_refused {cs : Bytes} (h : ∃ c ∈ cs, c ∉ alphabet) (bytes : Bytes) :
    cs.foldlM (fun bytes c => do
      let val ← alphabetPosition c
      addDigit 58 256 val bytes) bytes = .error (.error (.didKey "invalid base58 character")) := by
  induction cs generalizing bytes with
  | nil => simp at h
  | cons c cs ih =>
    rw [List.foldlM_cons]
    by_cases hc : c ∈ alphabet
    · obtain ⟨v, hv, rfl⟩ := List.mem_iff_getElem.mp hc
      obtain ⟨bytes', hadd⟩ := addDigit_bytes hv bytes
      have hcs : ∃ c ∈ cs, c ∉ alphabet := by
        obtain ⟨c', hc', hout⟩ := h
        exact ⟨c', (List.mem_cons.mp hc').resolve_left fun heq => hout (heq ▸ hc), hout⟩
      rw [List.getElem_eq_getD (0 : UInt8), alphabetPosition_eq hv, ok_bind, hadd, ok_bind]
      exact ih hcs bytes'
    · rw [alphabetPosition, List.idxOf?_eq_none_iff.mpr hc]
      rfl

/-- Every other text is refused. -/
theorem base58btcDecode_refused {s : String} (h : ¬ InAlphabet s) :
    base58btcDecode s = .error (.error (.didKey "invalid base58 character")) := by
  have hbyte : ∃ b ∈ asBytes s, b ∉ alphabet := by
    by_contra hno
    exact h (inAlphabet_of_bytes fun b hb => by_contra fun hb' => hno ⟨b, hb, hb'⟩)
  rw [base58btcDecode, decodeLoop_refused hbyte]
  rfl

/-! ## Keys -/

theorem stripPrefix_append (pre s : String) : stripPrefix pre (pre ++ s) = some s := by
  rw [stripPrefix, String.toList_append, if_pos (List.prefix_append _ _), ← String.length_toList,
    List.drop_left, String.ofList_toList]

theorem stripPrefix_eq_some {pre s rest : String} (h : stripPrefix pre s = some rest) : s = pre ++ rest := by
  rw [stripPrefix] at h
  split at h
  · rename_i hprefix
    obtain ⟨tail, htail⟩ := hprefix
    rw [← htail, ← String.length_toList, List.drop_left] at h
    rw [← Option.some.inj h, ← String.toList_inj, String.toList_append, String.toList_ofList, htail]
  · cases h

/-- What is read as an identifier, up to its fragment. -/
def didBase (s : String) : String := String.ofList (s.toList.takeWhile (· ≠ '#'))

/-- Before a fragment an identifier reads as it is. -/
theorem didBase_append {s rest : String} (hs : ∀ c ∈ s.toList, c ≠ '#')
    (hrest : rest = "" ∨ ∃ frag, rest = "#" ++ frag) : didBase (s ++ rest) = s := by
  rw [didBase, String.toList_append, List.takeWhile_append_of_pos (by simpa using hs)]
  obtain rfl | ⟨frag, rfl⟩ := hrest
  · exact (congrArg String.ofList (List.append_nil _)).trans String.ofList_toList
  · rw [String.toList_append]
    exact (congrArg String.ofList (List.append_nil _)).trans String.ofList_toList

section

variable [External]

/-- A key is read back from its identifier, which has no fragment. -/
theorem decodeDidKey_base
    (hkeys : ∀ vk : VerifyingKey, External.fromBytes (External.toBytes vk) = .ok vk) (vk : VerifyingKey) :
    ∃ did, encodeDidKey vk = .ok did ∧ (∀ c ∈ did.toList, c ≠ '#') ∧
      ∀ s, didBase s = did → decodeDidKey s = .ok vk := by
  obtain ⟨vs, hencode, hvs, hdecode⟩ := base58btcDecode_encode (ed25519Multicodec ++ (External.toBytes vk).val)
  refine ⟨_, by rw [encodeDidKey, hencode]; rfl, ?_, fun s hs => ?_⟩
  · rw [String.toList_append]
    have hprefix : '#' ∉ "did:key:z".toList := by decide
    refine List.forall_mem_append.mpr ⟨fun c hc h => hprefix (h ▸ hc), fun c hc => ?_⟩
    rw [base58Text, String.toList_ofList] at hc
    obtain ⟨v, hv, rfl⟩ := List.mem_map.mp hc
    exact (alphabet_spec v (hvs v hv)).2.2.2.2
  · have hlength : (ed25519Multicodec ++ (External.toBytes vk).val).length = 34 := by
      rw [List.length_append, ByteVec.length_val]
      rfl
    rw [didBase] at hs
    rw [decodeDidKey, hs, stripPrefix_append, Framework.okOr_some, ok_bind, hdecode, ok_bind,
      Framework.ensure_true ⟨hlength, rfl⟩, ok_bind, dif_pos (by rw [List.length_drop, hlength])]
    exact congrArg _ (hkeys vk)

/-- A key is read back from its method. -/
theorem decodeDidKey_verificationMethod
    (hkeys : ∀ vk : VerifyingKey, External.fromBytes (External.toBytes vk) = .ok vk) (vk : VerifyingKey) :
    ∃ s, verificationMethod vk = .ok s ∧ decodeDidKey s = .ok vk := by
  obtain ⟨did, hencode, hdid, hdecode⟩ := decodeDidKey_base hkeys vk
  refine ⟨_, by rw [verificationMethod, hencode]; rfl, hdecode _ ?_⟩
  rw [String.append_assoc]
  exact didBase_append hdid (.inr ⟨_, rfl⟩)

/-- What is read as a key is its identifier, up to the fragment. -/
theorem encodeDidKey_decode
    (hkeys : ∀ (bs : ByteVec 32) (vk : VerifyingKey), External.fromBytes bs = .ok vk → External.toBytes vk = bs)
    {s : String} {vk : VerifyingKey} (h : decodeDidKey s = .ok vk) : encodeDidKey vk = .ok (didBase s) := by
  obtain ⟨mb, hmb, h⟩ := bind_eq_ok.mp h
  obtain ⟨bytes, hbytes, h⟩ := bind_eq_ok.mp h
  obtain ⟨_, hshape, h⟩ := bind_eq_ok.mp h
  obtain ⟨hlength, hcodec⟩ := Framework.ensure_eq_ok.mp hshape
  rw [dif_pos (by rw [List.length_drop, hlength])] at h
  have hencode : base58btcEncode bytes = .ok mb := by
    by_cases hmem : InAlphabet mb
    · obtain ⟨bytes', hdecode, hencode⟩ := base58btcEncode_decode hmem
      rwa [← Except.ok.inj (hbytes.symm.trans hdecode)] at hencode
    · rw [base58btcDecode_refused hmem] at hbytes
      cases hbytes
  have hkey := hkeys _ _ (Framework.mapError_eq_ok.mp h)
  have hpayload : ed25519Multicodec ++ (External.toBytes vk).val = bytes := by
    rw [hkey, ← hcodec]
    exact List.take_append_drop 2 bytes
  rw [encodeDidKey, hpayload, hencode]
  exact congrArg Except.ok (stripPrefix_eq_some (Framework.okOr_eq_ok.mp hmb)).symm

/-- Base 58 reads back what it writes and writes back what it reads, and it
reads just the texts over its alphabet. Where keys are read back from their
bytes and written as the bytes they are read from, so are identifiers. -/
theorem did_key_canonical :
    (∀ bs, ∃ s, base58btcEncode bs = .ok s ∧ InAlphabet s ∧ base58btcDecode s = .ok bs) ∧
      (∀ s, InAlphabet s → ∃ bs, base58btcDecode s = .ok bs ∧ base58btcEncode bs = .ok s) ∧
      (∀ s, ¬ InAlphabet s →
        base58btcDecode s = .error (.error (.didKey "invalid base58 character"))) ∧
      ((∀ vk : VerifyingKey, External.fromBytes (External.toBytes vk) = .ok vk) →
        (∀ (bs : ByteVec 32) (vk : VerifyingKey), External.fromBytes bs = .ok vk → External.toBytes vk = bs) →
        (∀ vk, ∃ did, encodeDidKey vk = .ok did ∧ decodeDidKey did = .ok vk) ∧
          ∀ s vk, decodeDidKey s = .ok vk → encodeDidKey vk = .ok (didBase s)) := by
  refine ⟨fun bs => ?_, fun s => base58btcEncode_decode, fun s => base58btcDecode_refused,
    fun hread hwrite => ⟨fun vk => ?_, fun s vk => encodeDidKey_decode hwrite⟩⟩
  · obtain ⟨vs, hencode, hvs, hdecode⟩ := base58btcDecode_encode bs
    exact ⟨_, hencode, base58Text_inAlphabet hvs, hdecode⟩
  · obtain ⟨did, hencode, hdid, hdecode⟩ := decodeDidKey_base hread vk
    have hbase := didBase_append hdid (.inl rfl)
    rw [String.append_empty] at hbase
    exact ⟨did, hencode, hdecode did hbase⟩

end

/-- Packages whose keys are their bytes. -/
abbrev plain : External := packages (ByteVec 32) id .ok fun _ _ => true

section

attribute [local instance] plain

/-- A key written and read, and the text written again. -/
theorem did_key_canonical_plain : ∃ did, encodeDidKey (keyBytes 1) = .ok did ∧
    decodeDidKey did = .ok (keyBytes 1) ∧ encodeDidKey (keyBytes 1) = .ok (didBase did) := by
  obtain ⟨hread, hwrite⟩ := did_key_canonical.2.2.2 (fun _ => rfl) fun bs vk h => (Except.ok.inj h).symm
  obtain ⟨did, hencode, hdecode⟩ := hread (keyBytes 1)
  exact ⟨did, hencode, hdecode, hwrite _ _ hdecode⟩

end

end AionTrust.Proof
