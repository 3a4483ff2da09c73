import AionTrust.Impl.Cli
import AionTrust.Impl.Web.Parse
import AionTrust.Proof.Core.Language
import AionTrust.Spec.Lines

/-!
# Predicate lines

Both readers are one function but for their errors (`parseWith`). It reads a
line just when the line is `Readable` (`parseWith_isOk`), and keeps all of it
unless there is a component past the fifth, which is dropped
(`parseWith_drops`). So a reader of lines drops something just where it reads
all of them and one is `Overlong` (`mapM_parseWith_drops`); a time of day as a
bound makes a line overlong (`time_bound_dropped`).
-/

namespace AionTrust.Proof

open AionTrust.Impl AionTrust.Spec
open Framework (bind_eq_ok pure_eq_ok)

/-! ## One reader -/

theorem boundValue_parseBound (bound : String) : BoundValue bound (parseBound bound) := by
  rw [BoundValue, parseBound]
  cases parseI64 bound with
  | some n => exact .inl ⟨n, rfl, rfl⟩
  | none => exact .inr ⟨rfl, rfl⟩

theorem keeps_wellSized {line : String} {req : PredicateRequest} (h : Keeps line req) : WellSized line := by
  obtain ⟨p, hsplit, -⟩ := h
  rw [WellSized, hsplit, Components.toList]
  cases p.schemaId with
  | none => exact .inl rfl
  | some s => exact .inr rfl

/-- What is past the fifth component is lost. -/
theorem not_keeps_of_overlong {line : String} (hover : Overlong line) (req : PredicateRequest) :
    ¬ Keeps line req := fun h => by
  rw [Overlong] at hover
  rcases keeps_wellSized h with h | h <;> omega

section

variable {ε : Type}

/-- The readers of both front ends. -/
def parseWith (parseOp : String → Except ε PredicateOp) (short : String → ε) (line : String) :
    Except ε PredicateRequest :=
  match split ':' line with
  | category :: field :: op :: bound :: rest => do
    return { category, field, op := ← parseOp op, bound := parseBound bound, scaleVersion := rest.head? }
  | _ => .error (short line)

variable {op : String → Except ε PredicateOp} {short : String → ε}
  (hop : ∀ name o, op name = .ok o ↔ (name, o) ∈ opNames)

theorem parseWith_eq_ok {line : String} {req : PredicateRequest} : parseWith op short line = .ok req ↔
    ∃ category field name bound rest o, split ':' line = category :: field :: name :: bound :: rest ∧
      op name = .ok o ∧
      req = { category, field, op := o, bound := parseBound bound, scaleVersion := rest.head? } := by
  rw [parseWith]
  split
  · rename_i category field name bound rest hsplit
    simp only [bind_eq_ok, pure_eq_ok]
    constructor
    · rintro ⟨o, ho, rfl⟩
      exact ⟨_, _, _, _, _, o, hsplit, ho, rfl⟩
    · rintro ⟨_, _, _, _, _, o, hsplit', ho, rfl⟩
      rw [hsplit] at hsplit'
      injections
      subst_vars
      exact ⟨o, ho, rfl⟩
  · rename_i hshort
    refine iff_of_false (by simp) ?_
    rintro ⟨_, _, _, _, _, _, hsplit, -⟩
    exact hshort _ _ _ _ _ hsplit

include hop

/-- It reads the readable lines. -/
theorem parseWith_isOk {line : String} : (∃ req, parseWith op short line = .ok req) ↔ Readable line := by
  constructor
  · rintro ⟨req, hreq⟩
    obtain ⟨_, _, name, _, _, o, hsplit, ho, -⟩ := parseWith_eq_ok.mp hreq
    exact ⟨by rw [hsplit]; simp, name, o, by rw [hsplit]; rfl, (hop name o).mp ho⟩
  · rintro ⟨hlen, name, o, hname, ho⟩
    rcases hsplit : split ':' line with _ | ⟨category, _ | ⟨field, _ | ⟨name', _ | ⟨bound, rest⟩⟩⟩⟩
    -- fewer than four components
    iterate 4 simp [hsplit] at hlen
    rw [hsplit] at hname
    obtain rfl : name' = name := Option.some.inj hname
    exact ⟨_, parseWith_eq_ok.mpr ⟨_, _, _, _, _, o, hsplit, (hop _ o).mpr ho, rfl⟩⟩

/-- A line that is read is kept but for what comes after the fifth component. -/
theorem parseWith_keeps {line : String} {req : PredicateRequest} (h : parseWith op short line = .ok req)
    (hlen : ¬ Overlong line) : Keeps line req := by
  obtain ⟨category, field, name, bound, rest, o, hsplit, ho, rfl⟩ := parseWith_eq_ok.mp h
  have hrest : rest = rest.head?.toList := by
    rw [Overlong, hsplit] at hlen
    rcases rest with _ | ⟨s, _ | ⟨t, rest⟩⟩
    · rfl
    · rfl
    · simp at hlen
  let p : Components := { category, field, op := name, bound, schemaId := rest.head? }
  have hparts : split ':' line = p.toList := by
    rw [hsplit, hrest]
    simp [p, Components.toList]
  refine ⟨p, hparts, ?_, rfl, rfl, (hop name o).mp ho, boundValue_parseBound bound, rfl⟩
  rw [Components.text, ← hparts]
  exact intercalate_split ':' line

/-- It drops something of a line that is readable and too long. -/
theorem parseWith_drops {line : String} :
    DropsNothing line (parseWith op short line) ↔ ¬ (Readable line ∧ Overlong line) := by
  constructor
  · rintro ⟨hkeeps, -⟩ ⟨hread, hover⟩
    obtain ⟨req, hreq⟩ := (parseWith_isOk hop).mpr hread
    exact not_keeps_of_overlong hover req (hkeeps req hreq)
  · intro h
    have hkeeps : ∀ req, parseWith op short line = .ok req → Keeps line req := fun req hreq =>
      parseWith_keeps hop hreq fun hover => h ⟨(parseWith_isOk hop).mp ⟨req, hreq⟩, hover⟩
    refine ⟨hkeeps, fun hsize => ?_⟩
    cases hresult : parseWith op short line with
    | error e => exact ⟨e, rfl⟩
    | ok req => exact absurd (keeps_wellSized (hkeeps req hresult)) hsize

/-! ## Lists of lines -/

theorem mapM_parseWith_drops {lines : List String} : DropNothing lines (lines.mapM (parseWith op short)) ↔
    ¬ ((∀ line ∈ lines, Readable line) ∧ ∃ line ∈ lines, Overlong line) := by
  constructor
  · rintro ⟨hkeep, -⟩ ⟨hread, line, hline, hover⟩
    have hisOk : ∀ line ∈ lines, ∃ req, parseWith op short line = .ok req := fun line hline =>
      (parseWith_isOk hop).mpr (hread line hline)
    obtain ⟨reqs, hreqs⟩ := Framework.mapM_isOk hisOk
    obtain ⟨req, -, hkeeps⟩ := Framework.exists_right (hkeep reqs hreqs) hline
    exact not_keeps_of_overlong hover req hkeeps
  · intro h
    have hkeep : ∀ reqs, lines.mapM (parseWith op short) = .ok reqs → List.Forall₂ Keeps lines reqs := by
      intro reqs hreqs
      have hread : ∀ line ∈ lines, ∃ req, parseWith op short line = .ok req := fun line hline =>
        (Framework.exists_right (Framework.mapM_eq_ok.mp hreqs) hline).imp fun _ h => h.2
      obtain ⟨reqs', hreqs', hkeeps⟩ := Framework.mapM_forall₂ (R := Keeps) fun line hline =>
        (hread line hline).imp fun req hreq => ⟨hreq, parseWith_keeps hop hreq fun hover =>
          h ⟨fun l hl => (parseWith_isOk hop).mp (hread l hl), line, hline, hover⟩⟩
      rwa [Except.ok.inj (hreqs.symm.trans hreqs')]
    refine ⟨hkeep, fun ⟨line, hline, hsize⟩ => ?_⟩
    cases hresult : lines.mapM (parseWith op short) with
    | error e => exact ⟨e, rfl⟩
    | ok reqs =>
      obtain ⟨req, -, hkeeps⟩ := Framework.exists_right (hkeep reqs hresult) hline
      exact absurd (keeps_wellSized hkeeps) hsize

end

/-! ## Both front ends -/

theorem parseOp_eq_ok (name : String) (o : PredicateOp) : parseOp name = .ok o ↔ (name, o) ∈ opNames := by
  unfold parseOp
  split
  iterate 5 simp [opNames, eq_comm]
  simp_all [opNames]

theorem cli_parseOp_eq_ok (name : String) (o : PredicateOp) : Cli.parseOp name = .ok o ↔ (name, o) ∈ opNames := by
  unfold Cli.parseOp
  split
  iterate 5 simp [opNames, eq_comm]
  simp_all [opNames]

theorem parseLine_eq : parseLine =
    parseWith parseOp fun line => "predicate needs <category>:<field>:<op>:<bound>: " ++ line := rfl

theorem parseEntry_eq : Cli.parseEntry = parseWith Cli.parseOp fun entry =>
    .decode ("--predicate needs <category>:<field>:<op>:<bound>: " ++ entry) := rfl

/-- A line is read without loss just where it is not both readable and too long,
and a list of lines just where not all are readable or none is too long. -/
theorem drops_nothing_iff (line : String) (entries : List String) :
    (DropsNothing line (parseLine line) ↔ ¬ (Readable line ∧ Overlong line)) ∧
      (DropNothing entries (Cli.parsePredicates entries) ↔
        ¬ ((∀ entry ∈ entries, Readable entry) ∧ ∃ entry ∈ entries, Overlong entry)) := by
  rw [parseLine_eq, Cli.parsePredicates, parseEntry_eq]
  exact ⟨parseWith_drops parseOp_eq_ok, mapM_parseWith_drops cli_parseOp_eq_ok⟩

/-- A time of day as the bound is cut at its first colon, with a schema id that
nobody wrote. -/
theorem time_bound_dropped : ∃ line req, line = "background_check:performed:ge:2025-06-21T00:00:00Z" ∧
    req = { category := "background_check", field := "performed", op := .ge, bound := .string "2025-06-21T00",
            scaleVersion := some "00" : PredicateRequest } ∧
      (split ':' line).length = 6 ∧ parseLine line = .ok req ∧ Cli.parsePredicates [line] = .ok [req] ∧
        ¬ DropsNothing line (parseLine line) ∧ ¬ DropNothing [line] (Cli.parsePredicates [line]) := by
  have hsize : ¬ WellSized "background_check:performed:ge:2025-06-21T00:00:00Z" := by decide
  refine ⟨_, _, rfl, rfl, by decide, rfl, rfl, fun h => ?_, fun h => ?_⟩
  · obtain ⟨e, he⟩ := h.rejects hsize
    cases he
  · obtain ⟨e, he⟩ := h.reject ⟨_, List.mem_singleton_self _, hsize⟩
    cases he

end AionTrust.Proof
