import MarkdownDocx.Proofs.Math.Normal

/-!
Reading the markup of an equation. Every slot, limit, row and property is found again under its own
name, whatever stands beside it.
-/

set_option autoImplicit false

namespace MarkdownDocx.Math

open MarkdownDocx.Xml (mathName)

/-! Looking up parts by their names. -/

@[simp] theorem mathName_inj {a b : String} : mathName a = mathName b ↔ a = b := by
  simp [mathName]

@[simp] theorem partOf_box (name other : String) (children rest : List Xml.Node) :
    partOf name (box other children :: rest) =
      if other = name then readNodes children else partOf name rest := by
  simp [box, partOf]

@[simp] theorem partsOf_box (name other : String) (children rest : List Xml.Node) :
    partsOf name (box other children :: rest) =
      if other = name then readNodes children :: partsOf name rest else partsOf name rest := by
  simp [box, partsOf]

@[simp] theorem child?_box (name other : String) (children rest : List Xml.Node) :
    child? name (box other children :: rest) =
      if other = name then some ([], children) else child? name rest := by
  simp [box, child?]

@[simp] theorem child?_valued (name other value : String) (rest : List Xml.Node) :
    child? name (valued other value :: rest) =
      if other = name then some ([(mathName "val", value)], []) else child? name rest := by
  simp [valued, child?]

@[simp] theorem valueOf?_val (value : String) :
    valueOf? [(mathName "val", value)] = some value := by
  simp [valueOf?, Xml.attribute?]

/-- A flag that hides a part stands just where the part is missing. -/
@[simp] theorem child?_hiddenFlag (name other : String) (part : Option (List Node))
    (rest : List Xml.Node) :
    child? name (hiddenFlag other part ++ rest) =
      if other = name ∧ part = none then some ([(mathName "val", "1")], [])
      else child? name rest := by
  cases part <;> simp [hiddenFlag]

@[simp] theorem child?_nil (name : String) : child? name [] = none := rfl

@[simp] theorem property?_nil (group name : String) : property? group name [] = none := rfl

@[simp] theorem property?_box (group name other : String) (properties rest : List Xml.Node) :
    property? group name (box other properties :: rest) =
      if other = group then (child? name properties).bind fun p => valueOf? p.1
      else property? group name rest := by
  by_cases h : other = group
  · simp only [property?, child?_box, h, if_true]
    cases child? name properties <;> rfl
  · simp [property?, h]

@[simp] theorem leadingText_ofText (s : String) : Xml.leadingText (Xml.Node.ofText s) = s := by
  unfold Xml.Node.ofText
  split
  · rename_i h
    simp only [String.isEmpty_iff] at h
    simp [Xml.leadingText, h]
  · simp [Xml.leadingText]

/-! What the elements of the math namespace are read as. -/

@[simp] theorem readNode_run (children : List Xml.Node) :
    readNode (box "r" children) = readRun children := rfl

@[simp] theorem readNode_fraction (children : List Xml.Node) :
    readNode (box "f" children) =
      [.fraction (slot (partOf "num" children)) (slot (partOf "den" children))] := rfl

@[simp] theorem readNode_superscript (children : List Xml.Node) :
    readNode (box "sSup" children) =
      [.superscript (slot (partOf "e" children)) (slot (partOf "sup" children))] := rfl

@[simp] theorem readNode_subscript (children : List Xml.Node) :
    readNode (box "sSub" children) =
      [.subscript (slot (partOf "e" children)) (slot (partOf "sub" children))] := rfl

@[simp] theorem readNode_subSuperscript (children : List Xml.Node) :
    readNode (box "sSubSup" children) =
      [.subSuperscript (slot (partOf "e" children)) (slot (partOf "sub" children))
        (slot (partOf "sup" children))] := rfl

@[simp] theorem readNode_radical (children : List Xml.Node) :
    readNode (box "rad" children) =
      [.radical (slot (partOf "e" children))
        (if isSwitchedOn "radPr" "degHide" children then none
          else optionalSlot (partOf "deg" children))] := rfl

@[simp] theorem readNode_delimited (children : List Xml.Node) :
    readNode (box "d" children) =
      [.delimited
        (slot (joinItems (propertyOr "dPr" "sepChr" "|" children) (partsOf "e" children)))
        (delimiterOf (propertyOr "dPr" "begChr" "(" children)
          (propertyOr "dPr" "endChr" ")" children))] := rfl

@[simp] theorem readNode_nary (children : List Xml.Node) :
    readNode (box "nary" children) =
      readNary (propertyOr "naryPr" "chr" sumSign children)
        (if isSwitchedOn "naryPr" "subHide" children then none
          else optionalSlot (partOf "sub" children))
        (if isSwitchedOn "naryPr" "supHide" children then none
          else optionalSlot (partOf "sup" children))
        (slot (partOf "e" children)) := rfl

@[simp] theorem readNode_accent (children : List Xml.Node) :
    readNode (box "acc" children) =
      readAccent (propertyOr "accPr" "chr" "^" children) (slot (partOf "e" children)) := rfl

@[simp] theorem readNode_matrix (children : List Xml.Node) :
    readNode (box "m" children) = [.matrix (rowsOf children) (matrixProperties children)] := rfl

/-! The same on both sides. -/

theorem present_eq (nodes : List Node) : present nodes = optionalSlot nodes := by
  cases nodes <;> rfl

theorem operation_eq (symbol : String) (operand : List Node) (sub sup : Option (List Node)) :
    operation symbol operand sub sup = readNary symbol sub sup operand := by
  unfold operation readNary
  split
  · rfl
  · cases sub <;> cases sup <;> rfl

theorem marked_eq (mark : String) (base : List Node) : marked mark base = readAccent mark base := by
  unfold marked readAccent
  match base with
  | [] => cases combiningMark? mark <;> rfl
  | n :: m :: rest => cases combiningMark? mark <;> simp
  | [n] =>
    cases hmark : combiningMark? mark with
    | none => cases n <;> simp
    | some c =>
      cases n with
      | run text =>
        have hpos : text ≠ "" ↔ 1 ≤ text.length := by
          rw [ne_eq, ← String.length_eq_zero_iff]
          omega
        simp [hpos]
      | _ => simp

/-! Properties. -/

theorem setAttribute_fresh {name : Xml.Name} {as : List Xml.Attribute} (value : String)
    (h : name ∉ as.map Prod.fst) : Xml.setAttribute name value as = as ++ [(name, value)] := by
  induction as with
  | nil => rfl
  | cons a as ih =>
    simp only [List.map_cons, List.mem_cons, not_or] at h
    simp [Xml.setAttribute, Ne.symm h.1, ih h.2]

theorem foldl_setAttribute (attributes : List (String × String)) (as : List Xml.Attribute)
    (hfresh : ∀ a ∈ attributes, mathName a.1 ∉ as.map Prod.fst)
    (hnodup : (attributes.map Prod.fst).Nodup) :
    attributes.foldl (fun as a => Xml.setAttribute (mathName a.1) a.2 as) as =
      as ++ attributes.map fun a => (mathName a.1, a.2) := by
  induction attributes generalizing as with
  | nil => simp
  | cons a attributes ih =>
    rw [List.map_cons, List.nodup_cons] at hnodup
    have ha := hfresh a List.mem_cons_self
    rw [List.foldl_cons, setAttribute_fresh a.2 ha, ih _ ?_ hnodup.2]
    · simp
    · intro b hb hmem
      rw [List.map_append, List.mem_append] at hmem
      rcases hmem with hmem | hmem
      · exact hfresh b (List.mem_cons_of_mem a hb) hmem
      · have heq : b.1 = a.1 := by simpa using hmem
        exact hnodup.1 (heq ▸ List.mem_map_of_mem hb)

theorem propertyAttributes_eq {attributes : List (String × String)}
    (h : (attributes.map Prod.fst).Nodup) :
    propertyAttributes attributes = attributes.map fun a => (mathName a.1, a.2) := by
  have hfold := foldl_setAttribute attributes [] (by simp) h
  simpa [propertyAttributes] using hfold

theorem mathAttributes_propertyAttributes {attributes : List (String × String)}
    (h : (attributes.map Prod.fst).Nodup) :
    mathAttributes (propertyAttributes attributes) = attributes := by
  rw [propertyAttributes_eq h, mathAttributes, List.filterMap_map]
  exact List.filterMap_some

theorem isBlankString_eq_false {s : String} (hs : s ≠ "") (ht : Text.trimmed s = s) :
    isBlankString s = false := by
  cases h : isBlankString s with
  | false => rfl
  | true =>
    have hall : ∀ c ∈ s.toList, Text.isBlank c = true := by
      simpa [isBlankString, Text.isBlankText] using h
    have hleft : Text.trimLeft (s.toList ++ []) = [] := List.dropWhile_append_of_pos hall
    rw [List.append_nil] at hleft
    have hnil : Text.trimmed s = "" := by simp [Text.trimmed, Text.trim, Text.trimRight, hleft]
    exact absurd (ht.symm.trans hnil) hs

theorem readProperties_ofText (s : String) (rest : List Xml.Node) :
    readProperties (Xml.Node.ofText s ++ rest) = readProperties rest := by
  unfold Xml.Node.ofText
  split <;> simp [readProperties]

mutual
theorem readProperty_markup (n : Node) (h : n.RegularProperty) : readProperty n.markup = [n] :=
  match n, h with
  | .property name attributes children text, ⟨_, has, ht, hc⟩ => by
    have hinside := readProperties_markups children hc
    have hattributes := mathAttributes_propertyAttributes has.nodup
    simp only [Node.markup, readProperty, readProperties_ofText, hinside, hattributes]
    cases text with
    | none =>
      cases children with
      | nil => rfl
      | cons n rest => rfl
    | some t =>
      obtain ⟨hne, htrim, _, rfl⟩ := ht
      simp [markups, propertyText?, isBlankString_eq_false hne htrim, htrim, mathName]

theorem readProperties_markups (ns : List Node) (h : RegularProperties ns) :
    readProperties (markups ns) = ns :=
  match ns, h with
  | [], _ => rfl
  | .property name attributes children text :: rest, ⟨hn, hrest⟩ => by
    have hfirst := readProperty_markup _ hn
    have hothers := readProperties_markups rest hrest
    simp only [Node.markup] at hfirst
    rw [markups, Node.markup, readProperties, hfirst, hothers]
    rfl
end

/-- The rows of a matrix do not hide its properties. -/
theorem child?_rowMarkups (rows : List (List (List Node))) :
    child? "mPr" (rowMarkups rows) = none := by
  induction rows with
  | nil => rfl
  | cons r rest ih => simp [rowMarkups, ih]

theorem matrixProperties_markups {properties : List Node} (h : MatrixProperties properties)
    (rows : List (List (List Node))) :
    matrixProperties (markups properties ++ rowMarkups rows) = properties := by
  match properties, h with
  | [], _ => simp [markups, matrixProperties, child?_rowMarkups]
  | [.property name attributes children text], ⟨hname, h⟩ =>
    subst hname
    have hread := readProperty_markup _ h
    simp only [Node.markup] at hread
    simpa [markups, Node.markup, matrixProperties, child?] using hread

theorem rowsOf_markups {properties : List Node} (h : MatrixProperties properties)
    (rest : List Xml.Node) : rowsOf (markups properties ++ rest) = rowsOf rest := by
  match properties, h with
  | [], _ => rfl
  | [.property name attributes children text], ⟨hname, _⟩ =>
    subst hname
    simp [markups, Node.markup, rowsOf]

/-! Nodes. -/

theorem delimiterOf_glyphs (kind : Delimiter) :
    delimiterOf kind.glyphs.1 kind.glyphs.2 = kind.known := by
  cases kind <;> simp [delimiterOf, Delimiter.glyphs, Delimiter.known]

@[simp] theorem opening_ne_empty (kind : Delimiter) : kind.glyphs.1 ≠ "" := by
  cases kind <;> simp [Delimiter.glyphs]

@[simp] theorem closing_ne_empty (kind : Delimiter) : kind.glyphs.2 ≠ "" := by
  cases kind <;> simp [Delimiter.glyphs]

def naryProperties (symbol : String) (sub sup : Option (List Node)) : List Xml.Node :=
  valued "chr" symbol :: valued "limLoc" (limitPlace symbol) ::
    (hiddenFlag "subHide" sub ++ hiddenFlag "supHide" sup)

theorem propertyOr_chr (symbol : String) (sub sup : Option (List Node)) (rest : List Xml.Node) :
    propertyOr "naryPr" "chr" sumSign (box "naryPr" (naryProperties symbol sub sup) :: rest) =
      named sumSign symbol := by
  simp [propertyOr, naryProperties, named]

theorem isSwitchedOn_subHide (symbol : String) (sub sup : Option (List Node))
    (rest : List Xml.Node) :
    isSwitchedOn "naryPr" "subHide" (box "naryPr" (naryProperties symbol sub sup) :: rest) =
      sub.isNone := by
  cases sub <;> cases sup <;> simp [isSwitchedOn, naryProperties, hiddenFlag]

theorem isSwitchedOn_supHide (symbol : String) (sub sup : Option (List Node))
    (rest : List Xml.Node) :
    isSwitchedOn "naryPr" "supHide" (box "naryPr" (naryProperties symbol sub sup) :: rest) =
      sup.isNone := by
  cases sub <;> cases sup <;> simp [isSwitchedOn, naryProperties, hiddenFlag]

mutual
/-- What a node is read as after it has been written. -/
theorem readNode_markup (n : Node) (h : n.Regular) : readNode n.markup = n.normal :=
  match n, h with
  | .run text, _ => by
    simp [Node.markup, Node.normal, runMarkup, readRun, child?, isBlankString, Text.isBlankText]
  | .fraction num den, ⟨hnum, hden⟩ => by
    simp [Node.markup, Node.normal, readNodes_markups num hnum, readNodes_markups den hden]
  | .superscript base sup, ⟨hbase, hsup⟩ => by
    simp [Node.markup, Node.normal, readNodes_markups base hbase, readNodes_markups sup hsup]
  | .subscript base sub, ⟨hbase, hsub⟩ => by
    simp [Node.markup, Node.normal, readNodes_markups base hbase, readNodes_markups sub hsub]
  | .subSuperscript base sub sup, ⟨hbase, hsub, hsup⟩ => by
    simp [Node.markup, Node.normal, readNodes_markups base hbase, readNodes_markups sub hsub,
      readNodes_markups sup hsup]
  | .radical base none, ⟨hbase, _⟩ => by
    simp [Node.markup, Node.normal, normalLimit, isSwitchedOn, readNodes_markups base hbase]
  | .radical base (some degree), ⟨hbase, hdegree⟩ => by
    simp [Node.markup, Node.normal, normalLimit, isSwitchedOn, present_eq,
      readNodes_markups base hbase, readNodes_markups degree hdegree]
  | .delimited content kind, hcontent => by
    simp [Node.markup, Node.normal, partsOf, propertyOr, joinItems,
      readNodes_markups content hcontent, delimiterOf_glyphs]
  | .nary symbol operand sub sup, ⟨_, hoperand, hsub, hsup⟩ => by
    rw [Node.markup, ← naryProperties, readNode_nary, propertyOr_chr, isSwitchedOn_subHide,
      isSwitchedOn_supHide]
    simp [Node.normal, operation_eq, readNodes_markups operand hoperand,
      readLimit_markups sub hsub, readLimit_markups sup hsup]
  | .accent mark base, ⟨_, hbase⟩ => by
    simp [Node.markup, Node.normal, propertyOr, marked_eq, named, readNodes_markups base hbase]
  | .matrix rows properties, ⟨hrows, hproperties⟩ => by
    simp [Node.markup, Node.normal, rowsOf_markups hproperties, readRows_markups rows hrows,
      matrixProperties_markups hproperties]

theorem readNodes_markups (ns : List Node) (h : Regulars ns) :
    readNodes (markups ns) = normals ns :=
  match ns, h with
  | [], _ => rfl
  | n :: rest, ⟨hn, hrest⟩ => by
    rw [markups, readNodes, readNode_markup n hn, readNodes_markups rest hrest, normals]

theorem readLimit_markups (part : Option (List Node)) (h : RegularLimit part) :
    (if part = none then none else optionalSlot (readNodes (limitMarkups part))) =
      normalLimit part :=
  match part, h with
  | none, _ => rfl
  | some nodes, h => by
    simp [limitMarkups, normalLimit, present_eq, readNodes_markups nodes h]

theorem readRows_markups (rows : List (List (List Node))) (h : RegularRows rows) :
    rowsOf (rowMarkups rows) = normalRows rows :=
  match rows, h with
  | [], _ => rfl
  | r :: rest, ⟨hr, hrest⟩ => by
    simp [rowMarkups, rowsOf, normalRows, box, readCells_markups r hr, readRows_markups rest hrest]

theorem readCells_markups (cells : List (List Node)) (h : RegularCells cells) :
    cellsOf (cellMarkups cells) = normalCells cells :=
  match cells, h with
  | [], _ => rfl
  | c :: rest, ⟨hc, hrest⟩ => by
    simp [cellMarkups, cellsOf, normalCells, box, readNodes_markups c hc,
      readCells_markups rest hrest]
end

end MarkdownDocx.Math
