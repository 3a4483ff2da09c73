import AionTrust.Impl.Cli
import AionTrust.Proof.Core.Language
import AionTrust.Proof.Holder
import AionTrust.Spec.Flags

/-!
# What `--reveal` gives

The last entry that names a claim is the one that counts
(`parseReveal_selector`), so a presentation shows the keys of that entry
(`disclosedKeys_eq`). Each entry comes last in some order. Entries compose, then,
just where those that name one claim agree (`reveal_composes_iff`); two that list
one key each do not (`reveal_last_wins`).
-/

namespace AionTrust.Proof

open AionTrust.Impl AionTrust.Spec
open Framework (bind_eq_ok okOr_eq_ok mapM_eq_ok mapError_eq_ok pure_eq_ok)

/-! ## Entries -/

theorem hexChar_ne_colon : ∀ n < 16, hexChar (UInt8.ofNat n) ≠ ':' := by
  decide

/-- Hex has no colon. -/
theorem colon_not_mem_toHex (bs : Framework.Bytes) : ':' ∉ (toHex bs).toList := by
  rw [toHex, String.toList_ofList, List.mem_flatMap]
  rintro ⟨b, -, hmem⟩
  have hb := b.toNat_lt
  have hhigh := hexChar_ne_colon (b >>> 4).toNat (by rw [toNat_high]; omega)
  have hlow := hexChar_ne_colon (b &&& 0x0f).toNat (by rw [toNat_low]; omega)
  rw [UInt8.ofNat_toNat] at hhigh hlow
  simp only [List.mem_cons, List.not_mem_nil, or_false] at hmem
  rcases hmem with h | h
  · exact hhigh h.symm
  · exact hlow h.symm

/-- An entry for a claim. -/
def revealEntry (c : Claim) (fields : String) : String := c.claimId.asStr ++ ":" ++ fields

/-! ## Selectors -/

/-- One more entry is for its claim, in place of those before it. -/
theorem parseReveal_append {entries : List String} {entry : String} {map : String → Option FieldSelector} :
    Cli.parseReveal (entries ++ [entry]) = .ok map ↔ ∃ map₀ id fields, Cli.parseReveal entries = .ok map₀ ∧
      splitOnce ':' entry = some (id, fields) ∧
      map = Function.update map₀ id (some (.only ((split ',' fields).map trim))) := by
  simp only [Cli.parseReveal, List.foldlM_append, List.foldlM_cons, List.foldlM_nil, bind_eq_ok, okOr_eq_ok,
    pure_eq_ok, Prod.exists]
  constructor
  · rintro ⟨map₀, hmap₀, _, ⟨id, fields, hcut, rfl⟩, rfl⟩
    exact ⟨map₀, id, fields, hmap₀, hcut, rfl⟩
  · rintro ⟨map₀, id, fields, hmap₀, hcut, rfl⟩
    exact ⟨map₀, hmap₀, _, ⟨id, fields, hcut, rfl⟩, rfl⟩

theorem parseReveal_isOk {entries : List String} : (∃ map, Cli.parseReveal entries = .ok map) ↔
    ∀ entry ∈ entries, ∃ part, splitOnce ':' entry = some part := by
  induction entries using List.reverseRecOn with
  | nil => exact iff_of_true ⟨_, rfl⟩ (by simp)
  | append_singleton entries entry ih =>
    simp only [parseReveal_append, List.forall_mem_append, List.forall_mem_singleton, ← ih]
    constructor
    · rintro ⟨_, map₀, id, fields, hmap₀, hcut, -⟩
      exact ⟨⟨map₀, hmap₀⟩, (id, fields), hcut⟩
    · rintro ⟨⟨map₀, hmap₀⟩, ⟨id, fields⟩, hcut⟩
      exact ⟨_, map₀, id, fields, hmap₀, hcut, rfl⟩

/-- The last entry counts. -/
theorem parseReveal_last {entries : List String} {entry : String} {map : String → Option FieldSelector}
    (h : Cli.parseReveal (entries ++ [entry]) = .ok map) {c : Claim} {keys : List String}
    (hlists : ListsKeys entry c keys) : map c.claimId.asStr = some (.only keys) := by
  obtain ⟨map₀, id, fields, -, hcut, rfl⟩ := parseReveal_append.mp h
  obtain ⟨fields', hcut', rfl⟩ := hlists
  obtain ⟨rfl, rfl⟩ := Prod.mk.inj (Option.some.inj (hcut.symm.trans hcut'))
  exact Function.update_self ..

/-- A claim is given the keys that some entry lists for it, where there is
one. -/
theorem parseReveal_selector {entries : List String} {map : String → Option FieldSelector}
    (h : Cli.parseReveal entries = .ok map) (c : Claim) :
    (∃ entry ∈ entries, ∃ keys, ListsKeys entry c keys ∧ map c.claimId.asStr = some (.only keys)) ∨
      ¬ Named entries c ∧ map c.claimId.asStr = none := by
  induction entries using List.reverseRecOn generalizing map with
  | nil =>
    obtain rfl := Except.ok.inj h
    exact .inr ⟨by simp [Named], rfl⟩
  | append_singleton entries entry ih =>
    obtain ⟨map₀, id, fields, hmap₀, hcut, rfl⟩ := parseReveal_append.mp h
    by_cases hid : c.claimId.asStr = id
    · subst hid
      exact .inl ⟨entry, by simp, _, ⟨fields, hcut, rfl⟩, Function.update_self ..⟩
    · rw [Function.update_of_ne hid]
      rcases ih hmap₀ with ⟨entry', hentry', hlists⟩ | ⟨hnamed, hnone⟩
      · exact .inl ⟨entry', List.mem_append_left _ hentry', hlists⟩
      · refine .inr ⟨?_, hnone⟩
        rintro ⟨entry', hentry', keys, hlists⟩
        rcases List.mem_append.mp hentry' with hmem | hmem
        · exact hnamed ⟨entry', hmem, keys, hlists⟩
        · obtain ⟨fields', hcut', -⟩ := hlists
          rw [List.mem_singleton.mp hmem, hcut] at hcut'
          exact hid (Prod.mk.inj (Option.some.inj hcut')).1.symm

/-- The keys a claim is given. -/
def givenKeys (map : String → Option FieldSelector) (c : Claim) : Set String :=
  {key | key ∈ selectedKeys c ((map c.claimId.asStr).getD .all)}

/-- A claim is given all the keys listed for it, where the entries agree. -/
theorem givenKeys_listed {claims : List Claim} {entries : List String} (hagree : EntriesAgree claims entries)
    {map : String → Option FieldSelector} (hmap : Cli.parseReveal entries = .ok map) {c : Claim} (hc : c ∈ claims) (hnamed : Named entries c) :
    givenKeys map c = listedKeys entries c := by
  rcases parseReveal_selector hmap c with ⟨entry, hentry, keys, hlists, hkeys⟩ | ⟨hunnamed, -⟩
  · rw [givenKeys, hkeys]
    refine Set.ext fun key => ⟨fun hkey => ⟨entry, hentry, keys, hlists, hkey⟩, ?_⟩
    rintro ⟨entry', hentry', keys', hlists', hkey⟩
    exact (hagree c hc entry' hentry' entry hentry keys' keys hlists' hlists key).mp hkey
  · exact absurd hnamed hunnamed

/-! ## Presentations -/

section

variable [External]

/-- What a claim discloses under some keys it discloses under the same keys
listed otherwise. -/
theorem disclose_only_congr {c : Claim} {keys keys' : List String} (hsame : ∀ key, key ∈ keys ↔ key ∈ keys')
    {d : DisclosedClaim} (hd : c.disclose (.only keys) = .ok d) : ∃ d', c.disclose (.only keys') = .ok d' := by
  obtain ⟨m, leaves, relies, indices, hof, hsel, -⟩ := disclose_eq_ok.mp hd
  obtain ⟨hne, hknown⟩ := selectedIndices_only.mp ⟨indices, hsel⟩
  obtain ⟨key, hkey⟩ := List.exists_mem_of_ne_nil keys hne
  obtain ⟨indices', hsel'⟩ := selectedIndices_only.mpr
    ⟨List.ne_nil_of_mem ((hsame key).mp hkey), fun key hkey => hknown key ((hsame key).mpr hkey)⟩
  exact disclose_isOk hof hsel'

variable {subject : Identity} {audience purpose : String} {claims : List Claim} {expiresIn : Int64}
  {now : Timestamp} {n₁ n₂ : ByteVec 12} {p : Presentation} {entries : List String}

theorem cli_present_eq_ok :
    Cli.present subject audience purpose claims entries expiresIn now n₁ n₂ = .ok p ↔ ∃ map ds,
      Cli.parseReveal entries = .ok map ∧
      List.Forall₂ (fun c d => c.disclose ((map c.claimId.asStr).getD .all) = .ok d) claims ds ∧
      p = buildPresentation subject (.fromString audience) purpose (freshNonce n₁ n₂) now
        (now.plusSeconds expiresIn) ds := by
  simp only [Cli.present, bind_eq_ok, mapM_eq_ok, mapError_eq_ok, pure_eq_ok]
  constructor
  · rintro ⟨map, hmap, ds, hds, rfl⟩
    exact ⟨map, ds, hmap, hds, rfl⟩
  · rintro ⟨map, ds, hmap, hds, rfl⟩
    exact ⟨map, hmap, ds, hds, rfl⟩

/-- A presentation discloses the keys each claim is given. -/
theorem disclosedKeys_eq {map : String → Option FieldSelector} (hmap : Cli.parseReveal entries = .ok map)
    (h : Cli.present subject audience purpose claims entries expiresIn now n₁ n₂ = .ok p) :
    disclosedKeys p = claims.map (givenKeys map) := by
  obtain ⟨map', ds, hmap', hds, rfl⟩ := cli_present_eq_ok.mp h
  obtain rfl := Except.ok.inj (hmap'.symm.trans hmap)
  have hkeys : List.Forall₂ (fun c d => {key | key ∈ d.fields.map (·.key)} = givenKeys map' c) claims ds :=
    hds.imp fun c d hd => by rw [(disclose_shows hd).shown, givenKeys]
  have hall : claims.map (givenKeys map') = ds.map fun d => {key | key ∈ d.fields.map (·.key)} := by
    rw [← List.forall₂_eq_eq_eq, List.forall₂_map_left_iff, List.forall₂_map_right_iff]
    exact hkeys.imp fun _ _ h => h.symm
  exact hall.symm

/-- A claim discloses the same in any order of entries that agree. -/
theorem disclose_perm (hagree : EntriesAgree claims entries) {entries' : List String} (hperm : entries'.Perm entries)
    {map map' : String → Option FieldSelector} (hmap : Cli.parseReveal entries = .ok map)
    (hmap' : Cli.parseReveal entries' = .ok map') {c : Claim} (hc : c ∈ claims) {d : DisclosedClaim}
    (hd : c.disclose ((map c.claimId.asStr).getD .all) = .ok d) :
    (∃ d', c.disclose ((map' c.claimId.asStr).getD .all) = .ok d') ∧ givenKeys map' c = givenKeys map c := by
  rcases parseReveal_selector hmap c with ⟨entry, hentry, keys, hlists, hkeys⟩ | ⟨hunnamed, hnone⟩
  · rcases parseReveal_selector hmap' c with ⟨entry', hentry', keys', hlists', hkeys'⟩ | ⟨hunnamed, -⟩
    · have hsame := hagree c hc entry hentry entry' (hperm.mem_iff.mp hentry') keys keys' hlists hlists'
      rw [hkeys] at hd
      rw [givenKeys, givenKeys, hkeys, hkeys']
      exact ⟨disclose_only_congr hsame hd, Set.ext fun key => (hsame key).symm⟩
    · exact absurd ⟨entry, hperm.mem_iff.mpr hentry, keys, hlists⟩ hunnamed
  · rcases parseReveal_selector hmap' c with ⟨entry', hentry', keys', hlists', -⟩ | ⟨-, hnone'⟩
    · exact absurd ⟨entry', hperm.mem_iff.mp hentry', keys', hlists'⟩ hunnamed
    · rw [givenKeys, givenKeys, hnone, hnone']
      rw [hnone] at hd
      exact ⟨⟨d, hd⟩, rfl⟩

/-- Entries that agree compose. -/
theorem composes_of_agree (h : Cli.present subject audience purpose claims entries expiresIn now n₁ n₂ = .ok p)
    (hagree : EntriesAgree claims entries) :
    Composes (fun entries => Cli.present subject audience purpose claims entries expiresIn now n₁ n₂) claims
      entries p := by
  obtain ⟨map, ds, hmap, hds, -⟩ := cli_present_eq_ok.mp h
  refine ⟨?_, fun entries' hperm => ?_⟩
  · rw [disclosedKeys_eq hmap h, List.forall₂_map_right_iff, List.forall₂_same]
    exact fun c hc => givenKeys_listed hagree hmap hc
  · obtain ⟨map', hmap'⟩ := parseReveal_isOk.mpr fun entry hentry =>
      parseReveal_isOk.mp ⟨map, hmap⟩ entry (hperm.mem_iff.mp hentry)
    have hgiven : ∀ c ∈ claims, (∃ d', c.disclose ((map' c.claimId.asStr).getD .all) = .ok d') ∧
        givenKeys map' c = givenKeys map c := fun c hc => by
      obtain ⟨d, -, hd⟩ := Framework.exists_right hds hc
      exact disclose_perm hagree hperm hmap hmap' hc hd
    obtain ⟨ds', hds'⟩ := Framework.mapM_isOk fun c hc => (hgiven c hc).1
    have hpresent : Cli.present subject audience purpose claims entries' expiresIn now n₁ n₂ = .ok _ :=
      cli_present_eq_ok.mpr ⟨map', ds', hmap', mapM_eq_ok.mp hds', rfl⟩
    refine ⟨_, hpresent, ?_⟩
    rw [disclosedKeys_eq hmap' hpresent, disclosedKeys_eq hmap h]
    exact List.map_congr_left fun c hc => (hgiven c hc).2

/-- Entries that compose agree: each of them comes last in some order. -/
theorem agree_of_composes (h : Cli.present subject audience purpose claims entries expiresIn now n₁ n₂ = .ok p)
    (hcomposes : Composes (fun entries => Cli.present subject audience purpose claims entries expiresIn now n₁ n₂)
      claims entries p) : EntriesAgree claims entries := by
  obtain ⟨map, -, hmap, -⟩ := cli_present_eq_ok.mp h
  have hlast : ∀ c ∈ claims, ∀ entry ∈ entries, ∀ keys, ListsKeys entry c keys →
      givenKeys map c = {key | key ∈ keys} := by
    intro c hc entry hentry keys hlists
    have hperm : (entries.erase entry ++ [entry]).Perm entries :=
      (List.perm_append_singleton entry _).trans (List.perm_cons_erase hentry).symm
    obtain ⟨p', hp', hsame⟩ := hcomposes.order _ hperm
    obtain ⟨map', -, hmap', -⟩ := cli_present_eq_ok.mp hp'
    rw [disclosedKeys_eq hmap' hp', disclosedKeys_eq hmap h, List.map_inj_left] at hsame
    rw [← hsame c hc, givenKeys, parseReveal_last hmap' hlists]
    rfl
  intro c hc entry hentry entry' hentry' keys keys' hlists hlists' key
  have hkeys := (hlast c hc entry hentry keys hlists).symm.trans (hlast c hc entry' hentry' keys' hlists')
  exact iff_of_eq (congrFun hkeys key)

/-- Entries compose just where those that name one claim agree. -/
theorem reveal_composes_iff (subject : Identity) (audience purpose : String) (claims : List Claim)
    (entries : List String) (expiresIn : Int64) (now : Timestamp) (n₁ n₂ : ByteVec 12) (p : Presentation)
    (h : Cli.present subject audience purpose claims entries expiresIn now n₁ n₂ = .ok p) :
    Composes (fun entries => Cli.present subject audience purpose claims entries expiresIn now n₁ n₂) claims
      entries p ↔ EntriesAgree claims entries :=
  ⟨agree_of_composes h, composes_of_agree h⟩

/-! ## Issued claims -/

variable {c : Claim}

theorem revealEntry_cut (h : Issued c) (fields : String) :
    splitOnce ':' (revealEntry c fields) = some (c.claimId.asStr, fields) := by
  obtain ⟨issuer, call, hrun⟩ := h
  obtain ⟨commit, -, rfl⟩ := run_eq_ok.mp hrun
  exact splitOnce_append (colon_not_mem_toHex _) fields

theorem lists_revealEntry (h : Issued c) (fields : String) {keys : List String} :
    ListsKeys (revealEntry c fields) c keys ↔ keys = (split ',' fields).map trim := by
  rw [ListsKeys, revealEntry_cut h]
  simp

theorem agree_revealEntry (h : Issued c) {fields : List String} : EntriesAgree [c] (fields.map (revealEntry c)) ↔
    ∀ f ∈ fields, ∀ f' ∈ fields, ∀ key, key ∈ (split ',' f).map trim ↔ key ∈ (split ',' f').map trim := by
  constructor
  · intro hagree f hf f' hf'
    exact hagree c (List.mem_singleton_self c) _ (List.mem_map_of_mem hf) _ (List.mem_map_of_mem hf') _ _
      ((lists_revealEntry h f).mpr rfl) ((lists_revealEntry h f').mpr rfl)
  · intro hsame c' hc' entry hentry entry' hentry' keys keys' hlists hlists'
    obtain rfl := List.mem_singleton.mp hc'
    obtain ⟨f, hf, rfl⟩ := List.mem_map.mp hentry
    obtain ⟨f', hf', rfl⟩ := List.mem_map.mp hentry'
    rw [(lists_revealEntry h f).mp hlists, (lists_revealEntry h f').mp hlists']
    exact hsame f hf f' hf'

variable (subject) in
/-- An issued claim is presented under entries for it whose last lists some of
its keys. -/
theorem present_issued (h : Issued c) (fields : List String) (last : String)
    (hlast : ∀ key ∈ (split ',' last).map trim, key ∈ fieldKeys c) :
    ∃ p, Cli.present subject audience purpose [c] ((fields ++ [last]).map (revealEntry c)) expiresIn now n₁
      n₂ = .ok p ∧ disclosedKeys p = [{key | key ∈ (split ',' last).map trim}] := by
  have hcut : ∀ entry ∈ (fields ++ [last]).map (revealEntry c), ∃ part, splitOnce ':' entry = some part := by
    intro entry hentry
    obtain ⟨_, -, rfl⟩ := List.mem_map.mp hentry
    exact ⟨_, revealEntry_cut h _⟩
  obtain ⟨map, hmap⟩ := parseReveal_isOk.mpr hcut
  have hkeys : map c.claimId.asStr = some (.only ((split ',' last).map trim)) := by
    rw [List.map_append, List.map_singleton] at hmap
    exact parseReveal_last hmap ((lists_revealEntry h last).mpr rfl)
  have hne : (split ',' last).map trim ≠ [] := by simp [split, List.splitOn_ne_nil]
  obtain ⟨d, hd⟩ := (disclose_isOk_iff h).mpr (show Selects c (.only _) from ⟨hne, hlast⟩)
  have hpresent : Cli.present subject audience purpose [c] ((fields ++ [last]).map (revealEntry c)) expiresIn now
      n₁ n₂ = .ok _ :=
    cli_present_eq_ok.mpr ⟨map, [d], hmap, .cons (by rw [hkeys]; exact hd) .nil, rfl⟩
  refine ⟨_, hpresent, ?_⟩
  rw [disclosedKeys_eq hmap hpresent, List.map_singleton, givenKeys, hkeys]
  rfl

end

section

attribute [local instance] lawful

/-- The law at a skill whose two entries list the same keys. -/
theorem reveal_composes_skill : ∃ (c : Claim) (p : Presentation) (n : ByteVec 12),
    (skillCall ⟨"did:aion:subject"⟩).run (identity 2) = .ok c ∧
      Cli.present (identity 1) "did:aion:verifier" "hiring" [c]
        (["skill,level", "level, skill"].map (revealEntry c)) 600 ⟨1000⟩ n n = .ok p ∧
      Composes (fun entries => Cli.present (identity 1) "did:aion:verifier" "hiring" [c] entries 600 ⟨1000⟩ n n)
        [c] (["skill,level", "level, skill"].map (revealEntry c)) p := by
  obtain ⟨_, c, -, hrun, -, hkeys⟩ := one_skill
  have hissued : Issued c := ⟨identity 2, _, hrun⟩
  have hfirst : (split ',' "skill,level").map trim = ["skill", "level"] := by decide
  have hlast : (split ',' "level, skill").map trim = ["level", "skill"] := by decide
  obtain ⟨p, hp, -⟩ := present_issued (identity 1) hissued ["skill,level"] "level, skill"
    (by rw [hlast, hkeys]; exact fun _ h => h)
  refine ⟨c, p, ⟨List.replicate 12 7, rfl⟩, hrun, hp, (reveal_composes_iff _ _ _ _ _ _ _ _ _ _ hp).mpr ?_⟩
  rw [agree_revealEntry hissued]
  simp only [List.forall_mem_cons, List.cons_append, List.nil_append, hfirst, hlast]
  simp [or_comm]

/-- Of two entries that list one key each, a skill discloses the second key
only. -/
theorem reveal_last_wins : ∃ (c : Claim) (p : Presentation) (n : ByteVec 12),
    (skillCall ⟨"did:aion:subject"⟩).run (identity 2) = .ok c ∧
      Cli.present (identity 1) "did:aion:verifier" "hiring" [c] (["skill", "level"].map (revealEntry c)) 600 ⟨1000⟩
        n n = .ok p ∧
      disclosedKeys p = [{"level"}] ∧ "skill" ∈ listedKeys (["skill", "level"].map (revealEntry c)) c ∧
      ¬ Composes (fun entries => Cli.present (identity 1) "did:aion:verifier" "hiring" [c] entries 600 ⟨1000⟩ n n)
        [c] (["skill", "level"].map (revealEntry c)) p := by
  obtain ⟨_, c, -, hrun, -, hkeys⟩ := one_skill
  have hissued : Issued c := ⟨identity 2, _, hrun⟩
  have hskill : (split ',' "skill").map trim = ["skill"] := by decide
  have hlevel : (split ',' "level").map trim = ["level"] := by decide
  obtain ⟨p, hp, hdisclosed⟩ := present_issued (identity 1) hissued ["skill"] "level"
    (by rw [hlevel, hkeys]; simp)
  refine ⟨c, p, ⟨List.replicate 12 7, rfl⟩, hrun, hp, ?_, ?_, fun hcomposes => ?_⟩
  · rw [hdisclosed, hlevel]
    simp
  · exact ⟨_, List.mem_map_of_mem (.head _), ["skill"], (lists_revealEntry hissued _).mpr hskill.symm, .head _⟩
  · have hsame := (agree_revealEntry hissued).mp (agree_of_composes hp hcomposes) "skill" (.head _) "level"
      (.tail _ (.head _)) "skill"
    rw [hskill, hlevel] at hsame
    simp at hsame

end

end AionTrust.Proof
