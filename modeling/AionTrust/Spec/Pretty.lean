import AionTrust.Impl.Json

/-!
# The text of a value

`serde_json::to_string_pretty` of a value: two spaces to a level, an object and
an array over several lines, and strings escaped as JSON asks. The text of a
float is left out, so a value has its text here where it is `Exact`.
-/

namespace AionTrust.Spec.Pretty

open AionTrust.Impl

/-- A number that is no float, and negative where it says so. -/
def ExactNumber : Number → Prop
  | .posInt _ => True
  | .negInt n => n.toInt < 0
  | .float _ => False

/-- The numbers of a value are exact. -/
inductive Exact : Value → Prop
  | null : Exact .null
  | bool (b : Bool) : Exact (.bool b)
  | number {n : Number} (h : ExactNumber n) : Exact (.number n)
  | string (s : String) : Exact (.string s)
  | array {vs : List Value} (h : ∀ v ∈ vs, Exact v) : Exact (.array vs)
  | object {entries : List (String × Value)} (h : ∀ e ∈ entries, Exact e.2) : Exact (.object entries)

/-- A character of a string, as it is written between quotes. -/
def escape (c : Char) : List Char :=
  if c = '"' then ['\\', '"']
  else if c = '\\' then ['\\', '\\']
  else if c = '\n' then ['\\', 'n']
  else if c = '\r' then ['\\', 'r']
  else if c = '\t' then ['\\', 't']
  else if c.toNat = 8 then ['\\', 'b']
  else if c.toNat = 12 then ['\\', 'f']
  else if c.toNat < 32 then
    ['\\', 'u', '0', '0', Nat.digitChar (c.toNat / 16), Nat.digitChar (c.toNat % 16)]
  else [c]

def quote (s : String) : List Char := '"' :: (s.toList.flatMap escape ++ ['"'])

def newline (level : ℕ) : List Char := '\n' :: List.replicate (2 * level) ' '

/-- The texts after the first, to the bracket. -/
def blockRest (last : Char) (level : ℕ) (ts : List (List Char)) : List Char :=
  ts.flatMap (fun t => ',' :: (newline (level + 1) ++ t)) ++ (newline level ++ [last])

/-- Texts between brackets, a line for each. -/
def block (first last : Char) (level : ℕ) : List (List Char) → List Char
  | [] => [first, last]
  | t :: ts => first :: (newline (level + 1) ++ (t ++ blockRest last level ts))

def numberText : Number → List Char
  | .posInt n => Nat.toDigits 10 n.toNat
  | .negInt n => '-' :: Nat.toDigits 10 n.toInt.natAbs
  | .float _ => []

mutual

def pretty (level : ℕ) : Value → List Char
  | .null => "null".toList
  | .bool true => "true".toList
  | .bool false => "false".toList
  | .number n => numberText n
  | .string s => quote s
  | .array vs => block '[' ']' level (prettyItems (level + 1) vs)
  | .object entries => block '{' '}' level (prettyEntries (level + 1) entries)

def prettyItems (level : ℕ) : List Value → List (List Char)
  | [] => []
  | v :: vs => pretty level v :: prettyItems level vs

def prettyEntries (level : ℕ) : List (String × Value) → List (List Char)
  | [] => []
  | (key, v) :: entries => (quote key ++ (':' :: ' ' :: pretty level v)) :: prettyEntries level entries

end

def prettyEntry (level : ℕ) (e : String × Value) : List Char := quote e.1 ++ (':' :: ' ' :: pretty level e.2)

/-- `to_string_pretty`. -/
def text (v : Value) : String := String.ofList (pretty 0 v)

example : text (.object [("a", .array []), ("b", .array [.null, .bool true])]) =
    "\x7b\n  \"a\": [],\n  \"b\": [\n    null,\n    true\n  ]\n\x7d" := by decide

end AionTrust.Spec.Pretty
