import AionTrust.Impl.Claims.Anchor
import AionTrust.Impl.Core.Language

/-!
# Predicate lines

A predicate is written as `<category>:<field>:<op>:<bound>[:<schema_id>]`
(`Components`). A reader drops nothing when the request it gives for a line is
that of the components whose text the line is, and every line of more or fewer
components is an error (`DropsNothing`).
-/

namespace AionTrust.Spec

open AionTrust.Impl

/-- The comparisons by their names. -/
def opNames : List (String × PredicateOp) := [("ge", .ge), ("le", .le), ("gt", .gt), ("lt", .lt), ("eq", .eq)]

/-- What a line is written from. -/
structure Components where
  category : String
  field : String
  op : String
  bound : String
  schemaId : Option String

namespace Components

def toList (p : Components) : List String := [p.category, p.field, p.op, p.bound] ++ p.schemaId.toList

def text (p : Components) : String := ":".intercalate p.toList

end Components

/-- The value a bound is: a number, where its text reads as one. -/
def BoundValue (text : String) (value : Value) : Prop :=
  (∃ n, parseI64 text = some n ∧ value = .ofI64 (Int64.ofInt n)) ∨ (parseI64 text = none ∧ value = .string text)

/-- A request asks for what the components say. -/
structure Asks (p : Components) (req : PredicateRequest) : Prop where
  category : req.category = p.category
  field : req.field = p.field
  op : (p.op, req.op) ∈ opNames
  bound : BoundValue p.bound req.bound
  schemaId : req.scaleVersion = p.schemaId

/-- A request for the components of a line, all of them. -/
def Keeps (line : String) (req : PredicateRequest) : Prop :=
  ∃ p : Components, split ':' line = p.toList ∧ p.text = line ∧ Asks p req

/-- Four components, or five. -/
def WellSized (line : String) : Prop := (split ':' line).length = 4 ∨ (split ':' line).length = 5

instance : DecidablePred WellSized := fun _ => inferInstanceAs (Decidable (_ ∨ _))

section

variable {ε : Type*}

/-- A result for a line. -/
structure DropsNothing (line : String) (result : Except ε PredicateRequest) : Prop where
  keeps : ∀ req, result = .ok req → Keeps line req
  rejects : ¬ WellSized line → ∃ e, result = .error e

/-- A result for a list of lines. -/
structure DropNothing (lines : List String) (result : Except ε (List PredicateRequest)) : Prop where
  keep : ∀ reqs, result = .ok reqs → List.Forall₂ Keeps lines reqs
  reject : (∃ line ∈ lines, ¬ WellSized line) → ∃ e, result = .error e

end

/-- At least four components, the third of them a comparison. -/
def Readable (line : String) : Prop := 4 ≤ (split ':' line).length ∧
  ∃ name op, (split ':' line)[2]? = some name ∧ (name, op) ∈ opNames

/-- A component past the fifth. -/
def Overlong (line : String) : Prop := 5 < (split ':' line).length

end AionTrust.Spec
