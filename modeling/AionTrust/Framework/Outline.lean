import AionTrust.Framework.Markup

/-!
# Markup but for its texts

The outline of what is read from a page is its tags, without the values of
`value` attributes and without the text between them (`outline`). Two pages are
`Alike` when they are read from one reader to one reader with one outline. It
composes along a page (`Alike.append`, `Alike.join`), and texts whose special
characters are written as references are alike, whatever they are, in content
(`Alike.esc`) and as a value (`Alike.closed`).
-/

namespace Framework.Markup

/-- A tag, without what it has for a value. -/
def Node.outline : Node → Option Node
  | .start tag attrs => some (.start tag (attrs.map fun (a, v) => (a, if a = "value" then "" else v)))
  | .text _ => none
  | .stop tag => some (.stop tag)

def outline (ns : List Node) : List Node := ns.filterMap Node.outline

theorem outline_isTag (ns : List Node) : outline (ns.filter Node.isTag) = outline ns := by
  rw [outline, outline, List.filterMap_filter]
  refine List.filterMap_congr fun n _ => ?_
  cases n <;> rfl

/-- Two texts are read from `x` to `y`, with one outline. -/
structure Alike (x : Reader) (s s' : String) (y : Reader) : Prop where
  left : reader.final x s.toList = y
  right : reader.final x s'.toList = y
  outlines : outline (nodes x s) = outline (nodes x s')

variable {x y z : Reader} {s s' t t' u : String} {ns ns' : List Node}

theorem Alike.same (h : reader.final x s.toList = y) : Alike x s s y := ⟨h, h, rfl⟩

theorem Alike.symm (h : Alike x s s' y) : Alike x s' s y := ⟨h.right, h.left, h.outlines.symm⟩

theorem Alike.trans (h : Alike x s t y) (h' : Alike x t u y) : Alike x s u y :=
  ⟨h.left, h'.right, h.outlines.trans h'.outlines⟩

theorem Alike.of_reads (h : Reads Node.isTag x s y ns) (h' : Reads Node.isTag x s' y ns')
    (hns : outline ns = outline ns') : Alike x s s' y where
  left := h.1
  right := h'.1
  outlines := by rw [← outline_isTag, h.2, hns, ← h'.2, outline_isTag]

theorem Alike.append (h : Alike x s s' y) (h' : Alike y t t' z) : Alike x (s ++ t) (s' ++ t') z where
  left := by rw [String.toList_append, Machine.final_append, h.left, h'.left]
  right := by rw [String.toList_append, Machine.final_append, h.right, h'.right]
  outlines := by
    rw [nodes_append, nodes_append, h.left, h.right, outline, outline, List.filterMap_append, List.filterMap_append]
    exact congrArg₂ (· ++ ·) h.outlines h'.outlines

/-- Parts that are alike where their labels are equal, each leading back to
where it starts. -/
theorem Alike.join {α β γ : Type*} {f : α → String} {g : β → String} {label : α → γ} {label' : β → γ} {as : List α}
    {bs : List β} (h : as.map label = bs.map label') (hparts : ∀ a b, label a = label' b → Alike x (f a) (g b) x) :
    Alike x (String.join (as.map f)) (String.join (bs.map g)) x := by
  induction as generalizing bs with
  | nil =>
    obtain rfl := List.map_eq_nil_iff.mp h.symm
    exact .same rfl
  | cons a as ih =>
    obtain ⟨b, bs, rfl, hb, hbs⟩ := List.map_eq_cons_iff.mp h.symm
    rw [List.map_cons, List.map_cons, String.join_cons, String.join_cons]
    exact (hparts a b hb.symm).append (ih hbs.symm)

/-- Texts read without a tag. -/
theorem Alike.of_quiet (h : Reads Node.isTag x s y []) (h' : Reads Node.isTag x s' y []) : Alike x s s' y :=
  .of_reads h h' rfl

/-- A text written out. -/
theorem Alike.lit (y : Reader) {cs : List Char} (h : reader.final x cs = y) :
    Alike x (String.ofList cs) (String.ofList cs) y :=
  .same (by rwa [String.toList_ofList])

/-- A text written out after both. -/
theorem Alike.then (h : Alike x s s' y) (z : Reader) {cs : List Char} (hcs : reader.final y cs = z) :
    Alike x (s ++ String.ofList cs) (s' ++ String.ofList cs) z :=
  h.append (.lit z hcs)

/-- Any two texts that are escaped. -/
theorem Alike.esc (h : Alike x s s' home) (v v' : String) : Alike x (s ++ escape v) (s' ++ escape v') home := by
  have htext : ∀ v : String, Reads Node.isTag home (escape v) home [] := by
    intro v
    have hesc := (Reads.empty (q := Node.isTag) (x := home)).esc (fun _ => rfl) v
    rwa [String.empty_append] at hesc
  exact h.append (.of_quiet (htext v) (htext v'))

theorem outline_value (name : List Char) (attrs : List (List Char × List Char)) (v v' : List Char) :
    outline ([Tag.node ⟨name, ("value".toList, v) :: attrs⟩].filter Node.isTag) =
      outline ([Tag.node ⟨name, ("value".toList, v') :: attrs⟩].filter Node.isTag) := by
  rw [outline_isTag, outline_isTag]
  simp [outline, Tag.node, Node.outline]

/-- Any two texts that are escaped as a value, and what is written after it. -/
theorem Alike.fill {name : List Char} {attrs : List (List Char × List Char)}
    (h : Alike x s s' (quoted name "value".toList [] attrs)) (v v' : String) (z : Reader) {cs : List Char}
    (f : List Char → List Node) (hf : ∀ v v', outline (f v) = outline (f v'))
    (hcs : ∀ v, reader.final (quoted name "value".toList v attrs) cs = z ∧
      ((reader.trace (quoted name "value".toList v attrs) cs).flatMap Prod.snd).filter Node.isTag = f v) :
    Alike x (s ++ escape v ++ String.ofList cs) (s' ++ escape v' ++ String.ofList cs) z := by
  have hvalue : ∀ v : String, Reads Node.isTag (quoted name "value".toList [] attrs)
      (escape v ++ String.ofList cs) z (f v.toList) := by
    intro v
    have hfill := (Reads.empty (q := Node.isTag) (x := quoted name "value".toList [] attrs)).fill v z f hcs
    rwa [String.empty_append, List.nil_append] at hfill
  rw [String.append_assoc, String.append_assoc]
  exact h.append (.of_reads (hvalue v) (hvalue v') (hf _ _))

/-- Any two texts that are escaped as the value that a tag ends in, and what is
written after the tag. -/
theorem Alike.closed {name : List Char} {attrs : List (List Char × List Char)}
    (h : Alike x s s' (quoted name "value".toList [] attrs)) (v v' : String) (z : Reader) {cs : List Char}
    (hcs : reader.final home cs = z) : Alike x (s ++ escape v ++ String.ofList ('\x22' :: '>' :: cs))
      (s' ++ escape v' ++ String.ofList ('\x22' :: '>' :: cs)) z := by
  have hvalue : ∀ v : String, Reads Node.isTag (quoted name "value".toList [] attrs)
      (escape v ++ String.ofList ('\x22' :: '>' :: cs)) z
      ([Tag.node ⟨name, ("value".toList, v.toList) :: attrs⟩].filter Node.isTag ++
        ((reader.trace home cs).flatMap Prod.snd).filter Node.isTag) := by
    intro v
    have hclosed := (Reads.empty (q := Node.isTag) (x := quoted name "value".toList [] attrs)).closed v z _ ⟨hcs, rfl⟩
    rwa [String.empty_append, List.nil_append] at hclosed
  rw [String.append_assoc, String.append_assoc]
  refine h.append (.of_reads (hvalue v) (hvalue v') ?_)
  rw [outline, List.filterMap_append, outline, List.filterMap_append]
  exact congrArg (· ++ _) (outline_value name attrs v.toList v'.toList)

end Framework.Markup
