import AionTrust.Proof.Acceptance
import AionTrust.Proof.Lines
import AionTrust.Proof.Revealing

/-!
# Predicates of text

A line of four parts is read as these four, where none holds a colon
(`split_intercalate`) and neither end is a space (`parsePredicates_single`), by
the web and by the command line alike. A text compares with itself
(`evaluate_text`), but a bound that reads as an integer is one, and no text
compares with it: so a predicate is satisfied by the field its line was written
from just when the field does not read as an integer (`text_predicate`).
-/

namespace AionTrust.Proof

open AionTrust.Impl AionTrust.Spec
open Framework (ok_bind)

/-! ## Lines -/

/-- `<category>:<field>:<op>:<bound>`. -/
def predicateLine (category field op bound : String) : String :=
  ":".intercalate [category, field, op, bound]

/-- A text without colons, line breaks, or spaces at its ends. -/
structure Plain (v : String) : Prop where
  colon : ':' ∉ v.toList
  lineBreak : '\n' ∉ v.toList
  trimmed : trim v = v

/-- A text without colons or spaces. -/
def Word (s : String) : Prop := ∀ c ∈ s.toList, c ≠ ':' ∧ isWhitespace c = false

instance (s : String) : Decidable (Word s) := List.decidableBAll _ _

/-- The categories and their fields are words. -/
theorem schema_words : ∀ category ∈ ["employment", "education", "certification", "background_check", "identity",
    "reference", "skill"], category ≠ "" ∧ Word category ∧
      ∀ key ∈ (ClaimBody.fieldKeysForCategory category).getD [], Word key := by
  decide

theorem category_word (body : ClaimBody) : body.category ≠ "" ∧ Word body.category ∧
    ∀ key ∈ (ClaimBody.fieldKeysForCategory body.category).getD [], Word key :=
  schema_words _ (by cases body <;> simp [ClaimBody.category])

/-- Nothing is cut off a text that neither begins nor ends with a space. -/
theorem trim_eq {s : String} (hhead : ∀ c, s.toList.head? = some c → isWhitespace c = false)
    (hlast : ∀ c, s.toList.getLast? = some c → isWhitespace c = false) : trim s = s := by
  have hkeep : ∀ cs : List Char, (∀ c, cs.head? = some c → isWhitespace c = false) →
      cs.dropWhile isWhitespace = cs := by
    intro cs hcs
    cases cs with
    | nil => rfl
    | cons c cs => rw [List.dropWhile_cons_of_neg (by simp [hcs c rfl])]
  rw [trim, hkeep _ hhead, hkeep _ (by simpa using hlast), List.reverse_reverse, String.ofList_toList]

theorem getLast_trim {s : String} {c : Char} (h : (trim s).toList.getLast? = some c) : isWhitespace c = false := by
  rw [trim, String.toList_ofList, List.getLast?_reverse] at h
  have hdrop := List.head?_dropWhile_not isWhitespace (s.toList.dropWhile isWhitespace).reverse
  rw [h] at hdrop
  simpa using hdrop

/-- A text of one line that begins and ends with no space is that line. -/
theorem parsePredicates_single {line : String} (hbreak : '\n' ∉ line.toList) (htrim : trim line = line)
    (hne : line ≠ "") : parsePredicates line = [line].mapM parseLine := by
  have hlines : lines line = [line] := by
    rw [lines, split, List.splitOn_eq_singleton hbreak]
    simp [hne]
  rw [parsePredicates, hlines, List.map_singleton, htrim, List.filter_cons_of_pos (by simpa using hne),
    List.filter_nil]

section

variable {category field op v : String} (hcategory : Word category) (hfield : Word field) (hop : Word op)
  (hv : Plain v)

include hcategory hfield hop hv

theorem split_predicateLine : split ':' (predicateLine category field op v) = [category, field, op, v] := by
  have hword : ∀ {s : String}, Word s → ':' ∉ s.toList := fun h hc => (h _ hc).1 rfl
  refine split_intercalate ':' (List.cons_ne_nil _ _) ?_
  simp only [List.forall_mem_cons]
  exact ⟨hword hcategory, hword hfield, hword hop, hv.colon, by simp⟩

/-- Both parsers read a line as its four parts. -/
theorem parse_predicateLine (hne : category ≠ "") {o : PredicateOp} (ho : parseOp op = .ok o)
    (ho' : Cli.parseOp op = .ok o) : ∃ req : PredicateRequest,
      req = { category, field, op := o, bound := parseBound v, scaleVersion := none } ∧
        parsePredicates (predicateLine category field op v) = .ok [req] ∧
          Cli.parsePredicates [predicateLine category field op v] = .ok [req] := by
  have hsplit := split_predicateLine hcategory hfield hop hv
  have htext : (predicateLine category field op v).toList = category.toList ++
      (':' :: (field.toList ++ ':' :: (op.toList ++ ':' :: v.toList))) := by
    simp [predicateLine]
  obtain ⟨c₀, cs, hcons⟩ : ∃ c₀ cs, category.toList = c₀ :: cs := List.exists_cons_of_ne_nil (by simpa using hne)
  have hspace : ∀ {s : String}, Word s → '\n' ∉ s.toList := fun h hc => by
    have := (h _ hc).2
    revert this
    decide
  refine ⟨_, rfl, ?_, ?_⟩
  · rw [parsePredicates_single, Framework.mapM_eq_ok, parseLine_eq]
    · exact .cons (parseWith_eq_ok.mpr ⟨_, _, _, _, [], o, hsplit, ho, rfl⟩) .nil
    · simp only [htext, List.mem_append, List.mem_cons]
      simp [hspace hcategory, hspace hfield, hspace hop, hv.lineBreak]
    · refine trim_eq (fun c hc => ?_) (fun c hc => ?_)
      · rw [htext, hcons, List.cons_append, List.head?_cons] at hc
        exact (hcategory c (by simp [hcons, Option.some.inj hc])).2
      · have hlast : (predicateLine category field op v).toList.getLast? = (':' :: v.toList).getLast? := by
          simp [htext, List.getLast?_append, List.getLast?_cons]
        rw [hlast] at hc
        cases hv' : v.toList with
        | nil =>
          rw [hv'] at hc
          rw [← Option.some.inj hc]
          rfl
        | cons c' cs' =>
          rw [hv', List.getLast?_cons_cons, ← hv', ← hv.trimmed] at hc
          exact getLast_trim hc
    · intro hnil
      rw [hnil, hcons] at htext
      cases htext
  · rw [Cli.parsePredicates, Framework.mapM_eq_ok, parseEntry_eq]
    exact .cons (parseWith_eq_ok.mpr ⟨_, _, _, _, [], o, hsplit, ho', rfl⟩) .nil

end

/-! ## Comparing text -/

/-- The comparisons that hold of a value and itself. -/
def reflexiveOps : List (String × PredicateOp) := [("eq", .eq), ("ge", .ge), ("le", .le)]

theorem compareValues_text (v : String) : compareValues (.string v) (.string v) = .ok .eq :=
  congrArg Except.ok Std.ReflCmp.compare_self

/-- No text compares with a number. -/
theorem evaluate_ofI64 (op : PredicateOp) (v : String) (n : Int64) :
    evaluate op (.string v) (.ofI64 n) = .error .malformed := rfl

/-- A text compares with the bound it reads as just where that is text. -/
theorem evaluate_text {name : String} {op : PredicateOp} (hop : (name, op) ∈ reflexiveOps) (v : String) :
    evaluate op (.string v) (parseBound v) = .ok true ↔ parseI64 v = none := by
  rw [parseBound]
  cases hv : parseI64 v with
  | some n => exact iff_of_false (by rw [evaluate_ofI64]; simp) (by simp)
  | none =>
    refine iff_of_true ?_ rfl
    rw [evaluate, compareValues_text, ok_bind]
    simp only [reflexiveOps, List.mem_cons, Prod.mk.injEq, List.not_mem_nil, or_false] at hop
    rcases hop with ⟨-, rfl⟩ | ⟨-, rfl⟩ | ⟨-, rfl⟩ <;> rfl

/-- A text is the bound it is compared with. -/
theorem evaluate_eq_text {v w : String} :
    evaluate .eq (.string v) (parseBound w) = .ok true ↔ parseI64 w = none ∧ v = w := by
  rw [parseBound]
  cases parseI64 w with
  | some n => simp [evaluate_ofI64]
  | none =>
    show Except.ok (compare v w == .eq) = _ ↔ _
    simp

section

variable [External]

/-- A disclosed field of a valid claim satisfies the requests that hold of it. -/
theorem satisfied_of_discloses {anchor : TrustAnchor} {presenter : Did} {now : Timestamp}
    {claims : List DisclosedClaim} (hvalid : ClaimsValid anchor presenter now claims) {c : Claim}
    {s : FieldSelector} {d : DisclosedClaim} (hmem : d ∈ claims) (hd : c.disclose s = .ok d)
    {req : PredicateRequest} (hkey : req.field ∈ selectedKeys c s) {value : Value}
    (hvalue : (req.field, value) ∈ c.body.fields) (hcategory : c.category = req.category)
    (hscale : req.scaleVersion = none) (hholds : evaluate req.op value req.bound = .ok true) :
    Satisfied anchor presenter now claims req := by
  obtain ⟨v, hv⟩ := hvalid d hmem
  obtain ⟨vk, -, hverify⟩ := hv.verified
  have hreveals := shows_reveals (disclose_shows hd) (disclose_reliance hd)
  rw [← verify_eq_verifiedOf hverify] at hreveals
  exact ⟨d, hmem, v, hv, by rw [disclose_eq hd]; exact hcategory, fun scale h => by simp [hscale] at h,
    value, (hreveals.values _ hkey value).mpr hvalue, hholds⟩

/-- A line that a text field was written into, under the category of its claim,
is read as one request, by the web and by the command line; the request holds of
the field just when the text does not read as an integer, and where it holds it
costs no presentation of the field its acceptance. -/
theorem text_predicate (c : Claim) (f v : String) (hfield : (f, .string v) ∈ c.body.fields) (hplain : Plain v)
    (name : String) (op : PredicateOp) (hop : (name, op) ∈ reflexiveOps) :
    ∃ req, parsePredicates (predicateLine c.category f name v) = .ok [req] ∧
      Cli.parsePredicates [predicateLine c.category f name v] = .ok [req] ∧
      (evaluate req.op (.string v) req.bound = .ok true ↔ parseI64 v = none) ∧
      (parseI64 v = none → ∀ p audience now anchor seen requests report,
        verifyPresentationWithPredicates p audience now anchor seen requests = .ok report →
          report.accepted = true → ∀ d ∈ p.claims, ∀ s, c.disclose s = .ok d → f ∈ selectedKeys c s →
            ∃ report', verifyPresentationWithPredicates p audience now anchor seen (req :: requests) =
              .ok report' ∧ report'.accepted = true) := by
  obtain ⟨hne, hcategory, hkeys⟩ := category_word c.body
  have hf : Word f := hkeys f (mem_fieldKeys (c := c).mpr ⟨_, hfield⟩)
  obtain ⟨hname, ho, ho'⟩ : Word name ∧ parseOp name = .ok op ∧ Cli.parseOp name = .ok op := by
    simp only [reflexiveOps, List.mem_cons, Prod.mk.injEq, List.not_mem_nil, or_false] at hop
    rcases hop with ⟨rfl, rfl⟩ | ⟨rfl, rfl⟩ | ⟨rfl, rfl⟩ <;> exact ⟨by decide, rfl, rfl⟩
  obtain ⟨req, hreq, hweb, hcli⟩ := parse_predicateLine hcategory hf hname hplain hne ho ho'
  refine ⟨req, hweb, hcli, hreq ▸ evaluate_text hop v, fun hv p audience now anchor seen requests report hreport
    haccepted d hd s hdisc hs => ?_⟩
  obtain ⟨⟨vk, nonce, sig, hdecoded, hbound⟩, hclaims, hpreds⟩ := (report_accepted_iff hreport).mp haccepted
  refine verify_accepts hdecoded hbound hclaims (List.forall_mem_cons.mpr ⟨?_, hpreds⟩)
  subst hreq
  exact satisfied_of_discloses hclaims hd hdisc hs hfield rfl rfl ((evaluate_text hop v).mpr hv)

end

section

attribute [local instance] lawful

/-- The law at the level of a skill. -/
theorem text_predicate_skill : ∃ (c : Claim) (req : PredicateRequest),
    (skillCall ⟨"did:aion:subject"⟩).run (identity 2) = .ok c ∧
      parsePredicates (predicateLine c.category "level" "eq" "expert") = .ok [req] ∧
      evaluate req.op (.string "expert") req.bound = .ok true := by
  obtain ⟨c, d, hrun, -⟩ := lawful_run (identity 2) (skillCall ⟨"did:aion:subject"⟩)
    (show 2 < 2 ^ 32 by decide)
  have hfield : ("level", .string "expert") ∈ c.body.fields := by
    rw [(run_parts hrun).2.1]
    exact List.mem_cons_of_mem _ (.head _)
  obtain ⟨req, hweb, -, hholds, -⟩ := text_predicate c "level" "expert" hfield
    ⟨by decide, by decide, by decide⟩ "eq" .eq (by decide)
  exact ⟨c, req, hrun, hweb, hholds.mpr (by decide)⟩

/-- A certification with a number. -/
def numberedCall : IssueCall where
  masterSalt := digest (asBytes "salt")
  subject := ⟨"did:aion:subject"⟩
  validity := { fromTime := ⟨0⟩, untilTime := none }
  body := .certification { authority := "board", name := "pilot", issued := "2024-01-01", expires := none,
                           credentialNo := some "12345" }
  reliance := []

/-- A credential number is not equal to itself. -/
theorem number_not_equal : ∃ (c : Claim) (req : PredicateRequest), numberedCall.run (identity 2) = .ok c ∧
    ("credential_no", .string "12345") ∈ c.body.fields ∧ Plain "12345" ∧
      parsePredicates (predicateLine c.category "credential_no" "eq" "12345") = .ok [req] ∧
      evaluate req.op (.string "12345") req.bound = .error .malformed := by
  obtain ⟨c, d, hrun, -⟩ := lawful_run (identity 2) numberedCall (by decide)
  have hbody := (run_parts hrun).2.1
  have hcategory : c.category = "certification" := by
    rw [Claim.category, hbody]
    rfl
  have hplain : Plain "12345" := ⟨by decide, by decide, by decide⟩
  obtain ⟨req, hreq, hweb, -⟩ := parse_predicateLine (show Word "certification" by decide)
    (show Word "credential_no" by decide) (show Word "eq" by decide) hplain (by decide) rfl rfl
  refine ⟨c, req, hrun, ?_, hplain, hcategory ▸ hweb, ?_⟩
  · rw [hbody]
    simp [numberedCall, ClaimBody.fields, ClaimBody.optValue]
  · have hbound : parseBound "12345" = .ofI64 12345 := by
      rw [parseBound, show parseI64 "12345" = some 12345 by decide]
      rfl
    rw [hreq, hbound]
    rfl

end

end AionTrust.Proof
