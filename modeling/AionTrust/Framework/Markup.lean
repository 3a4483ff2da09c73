import AionTrust.Framework.History

/-!
# Reading markup

How a browser reads HTML, a character at a time (`reader`): start tags with
their attributes, end tags, and the text between them. Characters are taken as
they stand or by a reference; declarations are skipped up to their `>`; the
contents of every element are read as text and tags.

`Reads` says where a reader ends and which nodes of interest it has read; it
composes along a page (`Reads.append`, `Reads.join`). A text whose five special
characters are written as references (`escape`) is read as that text where it
stands in content (`Reads.text`), and as a value in a quoted one
(`Reads.value`).
-/

namespace Framework.Markup

/-- A start tag with its attributes in order, a character between tags, or an
end tag. -/
inductive Node where
  | start (name : String) (attrs : List (String × String))
  | text (c : Char)
  | stop (name : String)
  deriving DecidableEq

/-- A start tag under way: its name, and its attributes, the last first. -/
structure Tag where
  name : List Char := []
  attrs : List (List Char × List Char) := []
  deriving DecidableEq

namespace Tag

def pushName (t : Tag) (c : Char) : Tag := { t with name := t.name ++ [c] }

def addAttr (t : Tag) (c : Char) : Tag := { t with attrs := ([c], []) :: t.attrs }

def pushAttr (t : Tag) (c : Char) : Tag :=
  match t.attrs with
  | [] => t
  | (a, v) :: attrs => { t with attrs := (a ++ [c], v) :: attrs }

def pushValue (t : Tag) (c : Char) : Tag :=
  match t.attrs with
  | [] => t
  | (a, v) :: attrs => { t with attrs := (a, v ++ [c]) :: attrs }

def node (t : Tag) : Node :=
  .start (String.ofList t.name) (t.attrs.reverse.map fun (a, v) => (String.ofList a, String.ofList v))

end Tag

/-- Where characters stand for themselves. -/
inductive Place where
  | data
  | value (quote : Option Char)
  deriving DecidableEq

inductive State where
  | plain (k : Place)
  | reference (k : Place) (seen : List Char)
  | tagOpen
  | endTagOpen
  | tagName
  | endTag (name : List Char)
  | beforeAttr
  | attrName
  | afterAttrName
  | beforeValue
  | afterValue
  | selfClosing
  | declaration
  deriving DecidableEq

structure Reader where
  state : State
  tag : Tag
  deriving DecidableEq

/-- Between tags. -/
def home : Reader := ⟨.plain .data, {}⟩

namespace Reader

def goto (x : Reader) (state : State) : Reader × List Node := ({ x with state }, [])

/-- Takes a character as it stands. -/
def put (x : Reader) (k : Place) (c : Char) : Reader × List Node :=
  match k with
  | .data => (⟨.plain k, x.tag⟩, [.text c])
  | .value _ => (⟨.plain k, x.tag.pushValue c⟩, [])

end Reader

/-- The references, after their `&`. -/
def references : List (List Char × Char) :=
  [(['a', 'm', 'p', ';'], '&'), (['l', 't', ';'], '<'), (['g', 't', ';'], '>'),
    (['q', 'u', 'o', 't', ';'], '\x22'), (['#', '3', '9', ';'], '\x27')]

def isSpace (c : Char) : Bool := c == ' ' || c == '\n' || c == '\t' || c == '\r'

/-- A character where an attribute may begin. -/
def stepInTag (x : Reader) (c : Char) : Reader × List Node :=
  if isSpace c then x.goto .beforeAttr
  else if c = '/' then x.goto .selfClosing
  else if c = '>' then (home, [x.tag.node])
  else (⟨.attrName, x.tag.addAttr c.toLower⟩, [])

def stepPlain (x : Reader) (k : Place) (c : Char) : Reader × List Node :=
  match k with
  | .data =>
    if c = '&' then x.goto (.reference k [])
    else if c = '<' then x.goto .tagOpen
    else x.put k c
  | .value (some q) =>
    if c = q then x.goto .afterValue
    else if c = '&' then x.goto (.reference k [])
    else x.put k c
  | .value none =>
    if isSpace c ∨ c = '>' then stepInTag x c
    else if c = '&' then x.goto (.reference k [])
    else x.put k c

/-- Takes characters as they stand. -/
def putAll (k : Place) : Reader → List Char → Reader × List Node
  | x, [] => (x, [])
  | x, c :: cs => ((putAll k (x.put k c).1 cs).1, (x.put k c).2 ++ (putAll k (x.put k c).1 cs).2)

def step (x : Reader) (c : Char) : Reader × List Node :=
  match x.state with
  | .plain k => stepPlain x k c
  | .reference k seen =>
    match references.find? fun r => r.1 = seen ++ [c] with
    | some (_, d) => x.put k d
    | none =>
      if references.any fun r => (seen ++ [c]).isPrefixOf r.1 then x.goto (.reference k (seen ++ [c]))
      else
        -- no reference: what was read so far stands for itself
        let (x, ns) := putAll k x ('&' :: seen)
        let (x, ns') := stepPlain x k c
        (x, ns ++ ns')
  | .tagOpen =>
    if c.isAlpha then (⟨.tagName, { name := [c.toLower] }⟩, [])
    else if c = '/' then x.goto .endTagOpen
    else if c = '!' ∨ c = '?' then x.goto .declaration
    else
      let (x, ns) := stepPlain x .data c
      (x, .text '<' :: ns)
  | .endTagOpen =>
    if c.isAlpha then x.goto (.endTag [c.toLower])
    else if c = '>' then (home, [])
    else x.goto .declaration
  | .tagName =>
    if isSpace c ∨ c = '/' ∨ c = '>' then stepInTag x c else (⟨.tagName, x.tag.pushName c.toLower⟩, [])
  | .endTag name =>
    if c = '>' then (home, [.stop (String.ofList name)]) else x.goto (.endTag (name ++ [c.toLower]))
  | .beforeAttr | .afterValue | .selfClosing => stepInTag x c
  | .attrName =>
    if c = '=' then x.goto .beforeValue
    else if isSpace c then x.goto .afterAttrName
    else if c = '/' ∨ c = '>' then stepInTag x c
    else (⟨.attrName, x.tag.pushAttr c.toLower⟩, [])
  | .afterAttrName =>
    if c = '=' then x.goto .beforeValue else if isSpace c then x.goto .afterAttrName else stepInTag x c
  | .beforeValue =>
    if isSpace c then x.goto .beforeValue
    else if c = '\x22' ∨ c = '\x27' then x.goto (.plain (.value (some c)))
    else if c = '>' then (home, [x.tag.node])
    else stepPlain x (.value none) c
  | .declaration => if c = '>' then (home, []) else x.goto .declaration

def reader : Machine Reader Char (List Node) where
  step := step

/-- The nodes read from a text. -/
def nodes (x : Reader) (s : String) : List Node := (reader.trace x s.toList).flatMap Prod.snd

/-! ## Reading a page -/

/-- Reading `s` from `x` ends at `y`, and the nodes of interest it reads are `ns`. -/
def Reads (q : Node → Bool) (x : Reader) (s : String) (y : Reader) (ns : List Node) : Prop :=
  reader.final x s.toList = y ∧ (nodes x s).filter q = ns

variable {q q' : Node → Bool} {x y z : Reader} {s s' : String} {ns ns' : List Node}

instance : Decidable (Reads q x s y ns) := inferInstanceAs (Decidable (_ ∧ _))

theorem nodes_append (x : Reader) (s s' : String) :
    nodes x (s ++ s') = nodes x s ++ nodes (reader.final x s.toList) s' := by
  rw [nodes, String.toList_append, Machine.trace_append, List.flatMap_append]
  rfl

theorem Reads.empty : Reads q x "" x [] := ⟨rfl, rfl⟩

theorem Reads.append (h : Reads q x s y ns) (h' : Reads q y s' z ns') : Reads q x (s ++ s') z (ns ++ ns') := by
  obtain ⟨rfl, rfl⟩ := h
  obtain ⟨rfl, rfl⟩ := h'
  exact ⟨by rw [String.toList_append, Machine.final_append], by rw [nodes_append, List.filter_append]⟩

/-- Parts that each lead back to where they start. -/
theorem Reads.join {α : Type*} {f : α → String} {g : α → List Node} {as : List α}
    (h : ∀ a ∈ as, Reads q x (f a) x (g a)) : Reads q x (String.join (as.map f)) x (as.flatMap g) := by
  induction as with
  | nil => exact .empty
  | cons a as ih =>
    rw [List.map_cons, String.join_cons, List.flatMap_cons]
    exact (h a List.mem_cons_self).append (ih fun b hb => h b (List.mem_cons_of_mem _ hb))

/-- Parts of which nothing is of interest. -/
theorem Reads.join_nil {α : Type*} {f : α → String} {as : List α} (h : ∀ a ∈ as, Reads q x (f a) x []) :
    Reads q x (String.join (as.map f)) x [] := by
  have hjoin := Reads.join (g := fun _ => []) h
  rwa [List.flatMap_eq_nil_iff.mpr fun _ _ => rfl] at hjoin

theorem Reads.intercalate_nil {sep : String} {ss : List String} (hsep : Reads q x sep x [])
    (h : ∀ s ∈ ss, Reads q x s x []) : Reads q x (sep.intercalate ss) x [] := by
  induction ss with
  | nil => exact .empty
  | cons s ss ih =>
    cases ss with
    | nil => exact h s List.mem_cons_self
    | cons s' ss =>
      rw [String.intercalate_cons_cons]
      exact ((h s List.mem_cons_self).append hsep).append (ih fun t ht => h t (List.mem_cons_of_mem _ ht))

theorem Reads.of_eq (h : Reads q x s y ns) (hns : ns = ns') : Reads q x s y ns' := hns ▸ h

/-- A text that is written out, read character by character. -/
theorem Reads.lit (y : Reader) (ns : List Node) {cs : List Char}
    (h : reader.final x cs = y ∧ ((reader.trace x cs).flatMap Prod.snd).filter q = ns) :
    Reads q x (String.ofList cs) y ns := by
  rwa [Reads, nodes, String.toList_ofList]

/-- Fewer nodes of interest. -/
theorem Reads.filter (h : Reads q x s y ns) (hq : ∀ n, q' n = true → q n = true) :
    Reads q' x s y (ns.filter q') := by
  refine ⟨h.1, ?_⟩
  rw [← h.2, List.filter_filter]
  refine List.filter_congr fun n _ => ?_
  have := hq n
  cases hn : q' n <;> simp_all

/-! ## Escaping -/

/-- The five characters by their references. -/
def escapeChar (c : Char) : List Char :=
  match references.find? fun r => r.2 = c with
  | some (name, _) => '&' :: name
  | none => [c]

def escape (s : String) : String := String.ofList (s.toList.flatMap escapeChar)

/-- A character without a reference. -/
def bareChar (c : Char) : Bool := references.all fun r => r.2 ≠ c

theorem escapeChar_eq_self {c : Char} (h : bareChar c = true) : escapeChar c = [c] := by
  have hnone : references.find? (fun r => decide (r.2 = c)) = none := by
    simpa [bareChar, List.find?_eq_none] using h
  rw [escapeChar, hnone]

/-- A text of such characters is written as it stands. -/
theorem escape_eq_self {s : String} (h : ∀ c ∈ s.toList, bareChar c = true) : escape s = s := by
  rw [escape, List.flatMap_congr fun c hc => escapeChar_eq_self (h c hc), List.flatMap_singleton',
    String.ofList_toList]

/-- A place where escaped text stays: content, or a quoted value. -/
def Place.holds : Place → Bool
  | data => true
  | value (some q) => q == '\x22' || q == '\x27'
  | value none => false

@[simp] theorem reader_step (x : Reader) (c : Char) : reader.step x c = step x c := rfl

theorem step_amp {k : Place} (hk : k.holds = true) (t : Tag) :
    step ⟨.plain k, t⟩ '&' = (⟨.reference k [], t⟩, []) := by
  cases k with
  | data => rfl
  | value q =>
    obtain _ | q := q
    · cases hk
    · have hq : '&' ≠ q := by rintro rfl; cases hk
      simp [step, stepPlain, hq, Reader.goto]

/-- A character without a reference stands for itself. -/
theorem step_put {k : Place} (hk : k.holds = true) (t : Tag) {c : Char} (hamp : c ≠ '&') (hlt : c ≠ '<')
    (hquot : c ≠ '\x22') (hapos : c ≠ '\x27') : step ⟨.plain k, t⟩ c = Reader.put ⟨.plain k, t⟩ k c := by
  cases k with
  | data => simp [step, stepPlain, hamp, hlt]
  | value q =>
    obtain _ | q := q
    · cases hk
    · have hq : c ≠ q := by
        rintro rfl
        simp [Place.holds, hquot, hapos] at hk
      simp [step, stepPlain, hamp, hq]

/-- An escaped character is read as the character stands. -/
theorem reads_escapeChar {k : Place} (hk : k.holds = true) (t : Tag) (c : Char) :
    reader.final ⟨.plain k, t⟩ (escapeChar c) = (Reader.put ⟨.plain k, t⟩ k c).1 ∧
      (reader.trace ⟨.plain k, t⟩ (escapeChar c)).flatMap Prod.snd = (Reader.put ⟨.plain k, t⟩ k c).2 := by
  unfold escapeChar
  split
  · rename_i name d hfind
    have hd := List.find?_some hfind
    obtain rfl : d = c := by simpa only [decide_eq_true_eq] using hd
    have hmem := List.mem_of_find?_eq_some hfind
    simp only [references, List.mem_cons, List.not_mem_nil, or_false, Prod.mk.injEq] at hmem
    simp only [Machine.final_cons, Machine.trace, List.flatMap_cons, reader_step, step_amp hk, List.nil_append]
    rcases hmem with ⟨rfl, rfl⟩ | ⟨rfl, rfl⟩ | ⟨rfl, rfl⟩ | ⟨rfl, rfl⟩ | ⟨rfl, rfl⟩ <;> cases k <;> exact ⟨rfl, rfl⟩
  · rename_i hfind
    simp only [references, List.find?_eq_none, List.mem_cons, List.not_mem_nil, or_false, forall_eq_or_imp,
      forall_eq, decide_eq_true_eq] at hfind
    obtain ⟨hamp, hlt, -, hquot, hapos⟩ := hfind
    have := step_put hk t (Ne.symm hamp) (Ne.symm hlt) (Ne.symm hquot) (Ne.symm hapos)
    simp [Machine.trace, this]

theorem reads_escape {k : Place} (hk : k.holds = true) (t : Tag) (cs : List Char) :
    reader.final ⟨.plain k, t⟩ (cs.flatMap escapeChar) = (putAll k ⟨.plain k, t⟩ cs).1 ∧
      (reader.trace ⟨.plain k, t⟩ (cs.flatMap escapeChar)).flatMap Prod.snd = (putAll k ⟨.plain k, t⟩ cs).2 := by
  induction cs generalizing t with
  | nil => exact ⟨rfl, rfl⟩
  | cons c cs ih =>
    obtain ⟨hfinal, htrace⟩ := reads_escapeChar hk t c
    obtain ⟨t', ht'⟩ : ∃ t', (Reader.put ⟨.plain k, t⟩ k c).1 = ⟨.plain k, t'⟩ := by cases k <;> exact ⟨_, rfl⟩
    rw [List.flatMap_cons, Machine.final_append, Machine.trace_append, List.flatMap_append, hfinal, htrace,
      putAll, ht', (ih t').1, (ih t').2]
    exact ⟨rfl, rfl⟩

theorem putAll_data (t : Tag) (cs : List Char) :
    putAll .data ⟨.plain .data, t⟩ cs = (⟨.plain .data, t⟩, cs.map .text) := by
  induction cs with
  | nil => rfl
  | cons c cs ih => rw [putAll, Reader.put, ih]; rfl

theorem putAll_value (quote : Option Char) (name a v : List Char) (attrs : List (List Char × List Char))
    (cs : List Char) :
    putAll (.value quote) ⟨.plain (.value quote), ⟨name, (a, v) :: attrs⟩⟩ cs =
      (⟨.plain (.value quote), ⟨name, (a, v ++ cs) :: attrs⟩⟩, []) := by
  induction cs generalizing v with
  | nil => rw [List.append_nil]; rfl
  | cons c cs ih =>
    rw [putAll, Reader.put, Tag.pushValue, ih, List.append_assoc]
    rfl

/-- An escaped text in content. -/
theorem Reads.text (q : Node → Bool) (s : String) :
    Reads q home (escape s) home ((s.toList.map .text).filter q) := by
  obtain ⟨hfinal, htrace⟩ := reads_escape (k := .data) rfl {} s.toList
  rw [putAll_data] at hfinal htrace
  rw [Reads, nodes, escape, String.toList_ofList]
  exact ⟨hfinal, congrArg (List.filter q) htrace⟩

/-- Within the quotes of an attribute's value. -/
def quoted (name : List Char) (a v : List Char) (attrs : List (List Char × List Char)) : Reader :=
  ⟨.plain (.value (some '\x22')), ⟨name, (a, v) :: attrs⟩⟩

/-- An escaped text in a quoted value. -/
theorem Reads.value (q : Node → Bool) (name a v : List Char) (attrs : List (List Char × List Char)) (s : String) :
    Reads q (quoted name a v attrs) (escape s) (quoted name a (v ++ s.toList) attrs) [] := by
  obtain ⟨hfinal, htrace⟩ :=
    reads_escape (k := .value (some '\x22')) rfl ⟨name, (a, v) :: attrs⟩ s.toList
  rw [putAll_value] at hfinal htrace
  rw [Reads, nodes, escape, String.toList_ofList, quoted, htrace]
  exact ⟨hfinal, rfl⟩

/-! ## Writing a page -/

/-- A text written out. -/
theorem Reads.then (h : Reads q x s y ns) (z : Reader) (ns' : List Node) {cs : List Char}
    (hcs : reader.final y cs = z ∧ ((reader.trace y cs).flatMap Prod.snd).filter q = ns') :
    Reads q x (s ++ String.ofList cs) z (ns ++ ns') :=
  h.append (.lit z ns' hcs)

/-- An escaped text in content, of which nothing is of interest. -/
theorem Reads.esc (h : Reads q x s home ns) (hq : ∀ c, q (.text c) = false) (v : String) :
    Reads q x (s ++ escape v) home ns := by
  have htext := h.append (Reads.text q v)
  rwa [List.filter_eq_nil_iff.mpr (by simp [hq]), List.append_nil] at htext

/-- An escaped text as a value, and what is written after it. -/
theorem Reads.fill {name a : List Char} {attrs : List (List Char × List Char)}
    (h : Reads q x s (quoted name a [] attrs) ns) (v : String) (z : Reader) (f : List Char → List Node)
    {cs : List Char} (hcs : ∀ v, reader.final (quoted name a v attrs) cs = z ∧
      ((reader.trace (quoted name a v attrs) cs).flatMap Prod.snd).filter q = f v) :
    Reads q x (s ++ escape v ++ String.ofList cs) z (ns ++ f v.toList) := by
  have hvalue := h.append (Reads.value q name a [] attrs v)
  rw [List.append_nil, List.nil_append] at hvalue
  exact hvalue.then z _ (hcs v.toList)

/-- An escaped text as the last value of a tag, and what is written after the
tag. -/
theorem Reads.closed {name a : List Char} {attrs : List (List Char × List Char)}
    (h : Reads q x s (quoted name a [] attrs) ns) (v : String) (z : Reader) (ns' : List Node) {cs : List Char}
    (hcs : reader.final home cs = z ∧ ((reader.trace home cs).flatMap Prod.snd).filter q = ns') :
    Reads q x (s ++ escape v ++ String.ofList ('\x22' :: '>' :: cs)) z
      (ns ++ ([Tag.node ⟨name, (a, v.toList) :: attrs⟩].filter q ++ ns')) := by
  have htag : Reads q (quoted name a v.toList attrs) (String.ofList ['\x22', '>']) home
      ([Tag.node ⟨name, (a, v.toList) :: attrs⟩].filter q) := .lit _ _ ⟨rfl, rfl⟩
  have hvalue := h.append (Reads.value q name a [] attrs v)
  rw [List.append_nil, List.nil_append] at hvalue
  have hall := hvalue.append (htag.then z ns' hcs)
  rwa [← String.ofList_append] at hall

/-! ## Forms -/

/-- What of a form is sent: an input or a text area, with what it starts with. -/
structure Control where
  kind : String
  name : String
  value : String
  deriving DecidableEq

/-- A form, and its controls in order; forms do not nest. -/
structure Form where
  method : String
  action : String
  controls : List Control
  deriving DecidableEq

def attr (attrs : List (String × String)) (name : String) : String := (attrs.lookup name).getD ""

/-- A control has a name; the text within a text area is left out. -/
def Node.control : Node → Option Control
  | .start tag attrs =>
    if attr attrs "name" = "" then none
    else if tag = "input" then some ⟨attr attrs "type", attr attrs "name", attr attrs "value"⟩
    else if tag = "textarea" then some ⟨tag, attr attrs "name", ""⟩
    else none
  | _ => none

/-- A form takes the controls up to its end tag. -/
def forms : List Node → List Form
  | [] => []
  | n :: ns =>
    match n with
    | .start tag attrs =>
      if tag = "form" then
        ⟨attr attrs "method", attr attrs "action", (ns.takeWhile (· ≠ .stop "form")).filterMap Node.control⟩ ::
          forms ns
      else forms ns
    | _ => forms ns

def Node.isTag : Node → Bool
  | .text _ => false
  | _ => true

/-- What makes a form. -/
def Node.inForm : Node → Bool
  | .start tag _ => tag == "form" || tag == "input" || tag == "textarea"
  | .text _ => false
  | .stop tag => tag == "form"

/-- What a control may send: a box its value or nothing, a hidden input its
value, any other what is typed. -/
def Control.Sends (c : Control) (sent : List (String × String)) : Prop :=
  if c.kind = "checkbox" then sent = [(c.name, c.value)] ∨ sent = []
  else if c.kind = "hidden" then sent = [(c.name, c.value)]
  else ∃ text, sent = [(c.name, text)]

def Form.Sends (f : Form) (pairs : List (String × String)) : Prop :=
  ∃ sent, List.Forall₂ Control.Sends f.controls sent ∧ pairs = sent.flatten

theorem control_inForm {n : Node} {c : Control} (h : n.control = some c) : n.inForm = true := by
  cases n with
  | start tag attrs =>
    simp only [Node.control] at h
    split at h
    · cases h
    split at h
    · simp [Node.inForm, *]
    split at h
    · simp [Node.inForm, *]
    · cases h
  | _ => cases h

theorem takeWhile_inForm (ns : List Node) : (ns.filter Node.inForm).takeWhile (· ≠ .stop "form") =
    (ns.takeWhile (· ≠ .stop "form")).filter Node.inForm := by
  induction ns with
  | nil => rfl
  | cons n ns ih =>
    by_cases hn : n = .stop "form"
    · subst hn
      rfl
    · rw [List.takeWhile_cons_of_pos (by simp [hn])]
      cases hq : n.inForm
      · rw [List.filter_cons_of_neg (by simp [hq]), ih, List.filter_cons_of_neg (by simp [hq])]
      · rw [List.filter_cons_of_pos hq, List.takeWhile_cons_of_pos (by simp [hn]), ih, List.filter_cons_of_pos hq]

theorem filterMap_inForm (ns : List Node) :
    (ns.filter Node.inForm).filterMap Node.control = ns.filterMap Node.control := by
  rw [List.filterMap_filter]
  refine List.filterMap_congr fun n _ => ?_
  split
  · rfl
  · cases hc : n.control with
    | none => rfl
    | some c => exact absurd (control_inForm hc) ‹_›

/-- Forms are read off the nodes that make them. -/
theorem forms_filter (ns : List Node) : forms (ns.filter Node.inForm) = forms ns := by
  induction ns with
  | nil => rfl
  | cons n ns ih =>
    cases n with
    | start tag attrs =>
      by_cases htag : tag = "form"
      · subst htag
        rw [List.filter_cons_of_pos rfl, forms, forms, if_pos rfl, if_pos rfl, takeWhile_inForm,
          filterMap_inForm, ih]
      · cases hq : (Node.start tag attrs).inForm
        · rw [List.filter_cons_of_neg (by simp [hq]), ih, forms, if_neg htag]
        · rw [List.filter_cons_of_pos hq, forms, forms, if_neg htag, if_neg htag, ih]
    | text c => exact ih
    | stop tag =>
      cases hq : (Node.stop tag).inForm
      · rw [List.filter_cons_of_neg (by simp [hq]), ih]
        rfl
      · rw [List.filter_cons_of_pos hq]
        exact ih

/-- One form, and those after it. -/
theorem forms_cons (attrs : List (String × String)) (rest : List Node) {ns : List Node}
    (h : ∀ n ∈ ns, ∃ tag attrs, n = .start tag attrs ∧ tag ≠ "form") :
    forms (.start "form" attrs :: (ns ++ .stop "form" :: rest)) =
      ⟨attr attrs "method", attr attrs "action", ns.filterMap Node.control⟩ :: forms rest := by
  have htake : (ns ++ .stop "form" :: rest).takeWhile (· ≠ .stop "form") = ns := by
    rw [List.takeWhile_append_of_pos, List.takeWhile_cons_of_neg (by simp), List.append_nil]
    intro n hn
    obtain ⟨tag, attrs, rfl, -⟩ := h n hn
    simp
  have hskip : forms (ns ++ .stop "form" :: rest) = forms rest := by
    clear htake
    induction ns with
    | nil => rfl
    | cons n ns ih =>
      obtain ⟨tag, attrs, rfl, htag⟩ := h n List.mem_cons_self
      rw [List.cons_append, forms, if_neg htag, ih fun n hn => h n (List.mem_cons_of_mem _ hn)]
  rw [forms, if_pos rfl, htake, hskip]

end Framework.Markup
