import MarkdownDocx.Proofs.Math.RoundTrip
import MarkdownDocx.Proofs.Xml.Legal

/-!
The shape of equations that have been read. Main statement: whatever a fragment holds, the tree that
is read from it has no empty slot, no accent, no operator but sums and integrals, and no property
outside a matrix, and it can be written.
-/

set_option autoImplicit false

namespace MarkdownDocx.Math

open MarkdownDocx.Xml (mathName LegalAttributes LegalAll legalString_append legalString_trimmed)

mutual
/-- A node as the reader makes it, at every depth. A run may be empty; what stands in a slot may
not be nothing. -/
def Node.Shaped : Node → Prop
  | .run text => Legal text
  | .fraction num den => ShapedSlot num ∧ ShapedSlot den
  | .superscript base sup => ShapedSlot base ∧ ShapedSlot sup
  | .subscript base sub => ShapedSlot base ∧ ShapedSlot sub
  | .subSuperscript base sub sup => ShapedSlot base ∧ ShapedSlot sub ∧ ShapedSlot sup
  | .radical base degree => ShapedSlot base ∧ ShapedLimit degree
  | .delimited content kind =>
    ShapedSlot content ∧ (kind = .round ∨ kind = .square ∨ kind = .curly)
  | .nary symbol operand sub sup =>
    (symbol = sumSign ∨ symbol = integralSign) ∧
      ShapedSlot operand ∧ ShapedLimit sub ∧ ShapedLimit sup
  | .accent _ _ => False
  | .matrix rows properties => ShapedRows rows ∧ MatrixProperties properties
  | .property _ _ _ _ => False

def Shapeds : List Node → Prop
  | [] => True
  | n :: rest => n.Shaped ∧ Shapeds rest

/-- A slot that has to be there holds at least one node. -/
def ShapedSlot : List Node → Prop
  | [] => False
  | n :: rest => n.Shaped ∧ Shapeds rest

/-- A part that may be missing is not there at all, or is not empty. -/
def ShapedLimit : Option (List Node) → Prop
  | none => True
  | some nodes => ShapedSlot nodes

def ShapedRows : List (List (List Node)) → Prop
  | [] => True
  | r :: rest => ShapedCells r ∧ ShapedRows rest

def ShapedCells : List (List Node) → Prop
  | [] => True
  | c :: rest => ShapedSlot c ∧ ShapedCells rest
end

theorem shapedSlot_iff {ns : List Node} : ShapedSlot ns ↔ ns ≠ [] ∧ Shapeds ns := by
  cases ns <;> simp [ShapedSlot, Shapeds]

theorem shapeds_append {ns ms : List Node} (hn : Shapeds ns) (hm : Shapeds ms) :
    Shapeds (ns ++ ms) := by
  induction ns with
  | nil => exact hm
  | cons n rest ih => exact ⟨hn.1, ih hn.2⟩

theorem shapeds_singleton {n : Node} (h : n.Shaped) : Shapeds [n] := ⟨h, trivial⟩

theorem shapedSlot_singleton {n : Node} (h : n.Shaped) : ShapedSlot [n] := ⟨h, trivial⟩

theorem shaped_run {text : String} (h : Legal text) : (Node.run text).Shaped := h

theorem shapedSlot_slot {ns : List Node} (h : Shapeds ns) : ShapedSlot (slot ns) := by
  cases ns with
  | nil => exact shapedSlot_singleton (shaped_run (by decide))
  | cons n rest => exact h

theorem shapedLimit_optionalSlot {ns : List Node} (h : Shapeds ns) :
    ShapedLimit (optionalSlot ns) := by
  cases ns with
  | nil => trivial
  | cons n rest => exact h

/-- A part that is hidden is missing. -/
theorem shapedLimit_unlessHidden {ns : List Node} (hidden : Bool) (h : Shapeds ns) :
    ShapedLimit (if hidden = true then none else optionalSlot ns) := by
  cases hidden with
  | true => trivial
  | false => exact shapedLimit_optionalSlot h

/-! Shaped trees are regular. -/

theorem legal_operator {symbol : String} (h : symbol = sumSign ∨ symbol = integralSign) :
    Legal symbol := by
  rcases h with rfl | rfl <;> decide

mutual
theorem regular_of_shaped (n : Node) (h : n.Shaped) : n.Regular :=
  match n, h with
  | .run _, h => h
  | .fraction num den, ⟨hnum, hden⟩ =>
    ⟨regulars_of_shapedSlot num hnum, regulars_of_shapedSlot den hden⟩
  | .superscript base sup, ⟨hbase, hsup⟩ =>
    ⟨regulars_of_shapedSlot base hbase, regulars_of_shapedSlot sup hsup⟩
  | .subscript base sub, ⟨hbase, hsub⟩ =>
    ⟨regulars_of_shapedSlot base hbase, regulars_of_shapedSlot sub hsub⟩
  | .subSuperscript base sub sup, ⟨hbase, hsub, hsup⟩ =>
    ⟨regulars_of_shapedSlot base hbase, regulars_of_shapedSlot sub hsub,
      regulars_of_shapedSlot sup hsup⟩
  | .radical base degree, ⟨hbase, hdegree⟩ =>
    ⟨regulars_of_shapedSlot base hbase, regularLimit_of_shaped degree hdegree⟩
  | .delimited content _, ⟨hcontent, _⟩ => regulars_of_shapedSlot content hcontent
  | .nary _ operand sub sup, ⟨hsymbol, hoperand, hsub, hsup⟩ =>
    ⟨legal_operator hsymbol, regulars_of_shapedSlot operand hoperand,
      regularLimit_of_shaped sub hsub, regularLimit_of_shaped sup hsup⟩
  | .matrix rows _, ⟨hrows, hproperties⟩ => ⟨regularRows_of_shaped rows hrows, hproperties⟩

theorem regulars_of_shaped (ns : List Node) (h : Shapeds ns) : Regulars ns :=
  match ns, h with
  | [], _ => trivial
  | n :: rest, ⟨hn, hrest⟩ => ⟨regular_of_shaped n hn, regulars_of_shaped rest hrest⟩

theorem regulars_of_shapedSlot (ns : List Node) (h : ShapedSlot ns) : Regulars ns :=
  match ns, h with
  | n :: rest, ⟨hn, hrest⟩ => ⟨regular_of_shaped n hn, regulars_of_shaped rest hrest⟩

theorem regularLimit_of_shaped (part : Option (List Node)) (h : ShapedLimit part) :
    RegularLimit part :=
  match part, h with
  | none, _ => trivial
  | some nodes, h => regulars_of_shapedSlot nodes h

theorem regularRows_of_shaped (rows : List (List (List Node))) (h : ShapedRows rows) :
    RegularRows rows :=
  match rows, h with
  | [], _ => trivial
  | r :: rest, ⟨hr, hrest⟩ => ⟨regularCells_of_shaped r hr, regularRows_of_shaped rest hrest⟩

theorem regularCells_of_shaped (cells : List (List Node)) (h : ShapedCells cells) :
    RegularCells cells :=
  match cells, h with
  | [], _ => trivial
  | c :: rest, ⟨hc, hrest⟩ => ⟨regulars_of_shapedSlot c hc, regularCells_of_shaped rest hrest⟩
end

/-! Texts and values of legal content. -/

theorem legal_empty : Legal "" := by decide

theorem legal_leadingText {xs : List Xml.Node} (h : LegalAll xs) : Legal (Xml.leadingText xs) := by
  induction xs with
  | nil => exact legal_empty
  | cons x rest ih =>
    cases x with
    | text s => exact legalString_append h.1 (ih h.2)
    | element | comment | instruction => exact legal_empty

mutual
theorem legal_innerText (x : Xml.Node) (h : x.Legal) : Legal x.innerText :=
  match x, h with
  | .element _ _ children, ⟨_, _, hchildren⟩ => legal_innerTexts children hchildren
  | .text _, h => h
  | .comment _, _ | .instruction _ _, _ => legal_empty

theorem legal_innerTexts (xs : List Xml.Node) (h : LegalAll xs) : Legal (Xml.innerTexts xs) :=
  match xs, h with
  | [], _ => legal_empty
  | x :: rest, ⟨hx, hrest⟩ =>
    legalString_append (legal_innerText x hx) (legal_innerTexts rest hrest)
end

theorem legal_child? {name : String} {xs inside : List Xml.Node} {as : List Xml.Attribute}
    (h : LegalAll xs) (hchild : child? name xs = some (as, inside)) :
    LegalAttributes as ∧ LegalAll inside := by
  induction xs with
  | nil => cases hchild
  | cons x rest ih =>
    cases x with
    | element n attributes children =>
      rw [child?] at hchild
      split at hchild
      · cases hchild
        exact ⟨h.1.2.1, h.1.2.2⟩
      · exact ih h.2 hchild
    | text | comment | instruction => exact ih h.2 hchild

theorem legal_attribute? {name : Xml.Name} {as : List Xml.Attribute} {v : String}
    (h : ∀ a ∈ as, Legal a.2) (hv : Xml.attribute? name as = some v) : Legal v := by
  induction as with
  | nil => cases hv
  | cons a rest ih =>
    obtain ⟨ha, hrest⟩ := List.forall_mem_cons.1 h
    obtain ⟨n, w⟩ := a
    rw [Xml.attribute?] at hv
    split at hv
    · cases hv
      exact ha
    · exact ih hrest hv

theorem legal_valueOf? {as : List Xml.Attribute} {v : String} (h : LegalAttributes as)
    (hv : valueOf? as = some v) : Legal v := by
  unfold valueOf? at hv
  split at hv
  · rename_i w hw
    cases hv
    exact legal_attribute? h.values hw
  · exact legal_attribute? h.values hv

theorem legal_property? {group name v : String} {xs : List Xml.Node} (h : LegalAll xs)
    (hv : property? group name xs = some v) : Legal v := by
  unfold property? at hv
  split at hv
  · rename_i properties hgroup
    have hproperties := (legal_child? h hgroup).2
    split at hv
    · rename_i hname
      exact legal_valueOf? (legal_child? hproperties hname).1 hv
    · cases hv
  · cases hv

theorem legal_propertyOr {group name fallback : String} {xs : List Xml.Node} (h : LegalAll xs)
    (hfallback : Legal fallback) : Legal (propertyOr group name fallback xs) := by
  unfold propertyOr
  split
  · rename_i v hv
    split
    · exact hfallback
    · exact legal_property? h hv
  · exact hfallback

/-! The nodes of each kind of element. -/

theorem shapeds_readRun {xs : List Xml.Node} (h : LegalAll xs) : Shapeds (readRun xs) := by
  have hrun : ∀ text, Legal text → Shapeds (if isBlankString text then [] else [.run text]) := by
    intro text htext
    split
    · trivial
    · exact shapeds_singleton (shaped_run htext)
  unfold readRun
  cases hchild : child? "t" xs with
  | none => exact hrun _ (legal_innerTexts xs h)
  | some t => exact hrun _ (legal_leadingText (legal_child? h hchild).2)

theorem delimiterOf_named (opening closing : String) :
    delimiterOf opening closing = .round ∨ delimiterOf opening closing = .square ∨
      delimiterOf opening closing = .curly := by
  unfold delimiterOf
  split
  · exact .inr (.inl rfl)
  · split
    · exact .inr (.inr rfl)
    · exact .inl rfl

theorem shapeds_joinItems {separator : String} {items : List (List Node)}
    (hseparator : Legal separator) (h : ∀ item ∈ items, Shapeds item) :
    Shapeds (joinItems separator items) := by
  induction items with
  | nil => trivial
  | cons item rest ih =>
    obtain ⟨hitem, hrest⟩ := List.forall_mem_cons.1 h
    cases rest with
    | nil => exact hitem
    | cons next rest => exact shapeds_append hitem ⟨shaped_run hseparator, ih hrest⟩

/-- An operator without a form of its own is a glyph, and its scripts are the limits it has. -/
theorem shapeds_readNary {operator : String} {sub sup : Option (List Node)} {operand : List Node}
    (hoperator : Legal operator) (hsub : ShapedLimit sub) (hsup : ShapedLimit sup)
    (hoperand : ShapedSlot operand) : Shapeds (readNary operator sub sup operand) := by
  unfold readNary
  split
  · rename_i h
    exact shapeds_singleton ⟨h, hoperand, hsub, hsup⟩
  · have hglyph : ShapedSlot [.run operator] := shapedSlot_singleton (shaped_run hoperator)
    refine ⟨?_, (shapedSlot_iff.1 hoperand).2⟩
    cases sub with
    | none =>
      cases sup with
      | none => exact shaped_run hoperator
      | some sup => exact ⟨hglyph, hsup⟩
    | some sub =>
      cases sup with
      | none => exact ⟨hglyph, hsub⟩
      | some sup => exact ⟨hglyph, hsub, hsup⟩

theorem legal_combiningMark? {accent : String} {c : Char} (h : combiningMark? accent = some c) :
    Xml.isXmlChar c = true := by
  have hall : ∀ p ∈ combiningMarks, Xml.isXmlChar p.2 = true := by decide
  obtain ⟨p, hp, rfl⟩ := Option.map_eq_some_iff.1 h
  exact hall p (List.mem_of_find?_eq_some hp)

theorem shapeds_readAccent {accent : String} {base : List Node} (haccent : Legal accent)
    (hbase : ShapedSlot base) : Shapeds (readAccent accent base) := by
  have hscript : Shapeds [.superscript base [.run accent]] :=
    shapeds_singleton ⟨hbase, shapedSlot_singleton (shaped_run haccent)⟩
  unfold readAccent
  split
  · rename_i c text hmark
    split
    · have htext : Legal text := hbase.1
      have hpush : Legal (text.push c) := by
        simp only [Legal, String.toList_push, List.all_append, Bool.and_eq_true, List.all_cons,
          List.all_nil, Bool.and_true]
        exact ⟨htext, legal_combiningMark? hmark⟩
      exact shapeds_singleton (shaped_run hpush)
    · exact hscript
  · exact hscript

/-! Properties. -/

theorem mem_mathAttributes {as : List Xml.Attribute} {a : String × String}
    (h : a ∈ mathAttributes as) : (mathName a.1, a.2) ∈ as := by
  obtain ⟨⟨⟨space, base⟩, v⟩, hb, heq⟩ := List.mem_filterMap.1 h
  dsimp only at heq
  split at heq
  · rename_i hspace
    cases heq
    subst hspace
    exact hb
  · cases heq

/-- Attributes of one namespace that differ have different local names. -/
theorem nodup_mathAttributes {as : List Xml.Attribute} (h : (as.map Prod.fst).Nodup) :
    ((mathAttributes as).map Prod.fst).Nodup := by
  induction as with
  | nil => simp [mathAttributes]
  | cons a rest ih =>
    obtain ⟨⟨space, base⟩, v⟩ := a
    rw [List.map_cons, List.nodup_cons] at h
    have hrest := ih h.2
    by_cases hspace : space = .math
    · subst hspace
      have hcons : mathAttributes ((⟨.math, base⟩, v) :: rest) =
          (base, v) :: mathAttributes rest := by simp [mathAttributes]
      rw [hcons, List.map_cons, List.nodup_cons]
      refine ⟨fun hmem => ?_, hrest⟩
      obtain ⟨b, hb, hbase⟩ := List.mem_map.1 hmem
      refine h.1 (List.mem_map.2 ⟨_, mem_mathAttributes hb, ?_⟩)
      rw [hbase]
      rfl
    · have hcons : mathAttributes ((⟨space, base⟩, v) :: rest) = mathAttributes rest := by
        simp [mathAttributes, hspace]
      rw [hcons]
      exact hrest

theorem regularAttributes_mathAttributes {as : List Xml.Attribute} (h : LegalAttributes as) :
    RegularAttributes (mathAttributes as) where
  names := fun _ ha => h.names _ (mem_mathAttributes ha)
  legal := fun _ ha => h.values _ (mem_mathAttributes ha)
  nodup := nodup_mathAttributes h.nodup

/-- A property's text is kept only where no child was kept, without white space around it. -/
theorem regularText_propertyText? {xs : List Xml.Node} (h : LegalAll xs) {inside : List Node} :
    RegularText inside (if inside.isEmpty then propertyText? xs else none) := by
  split
  · rename_i hinside
    unfold propertyText?
    dsimp only
    split
    · trivial
    · rename_i hblank
      refine ⟨?_, ?_, legalString_trimmed (legal_leadingText h), List.isEmpty_iff.1 hinside⟩
      · intro hempty
        have hnil : Text.trim (Xml.leadingText xs).toList = [] := by
          simpa [Text.trimmed] using congrArg String.toList hempty
        exact hblank (Text.trim_eq_nil_iff.1 hnil)
      · simp [Text.trimmed]
  · trivial

theorem regularProperties_append {ns ms : List Node} (hn : RegularProperties ns)
    (hm : RegularProperties ms) : RegularProperties (ns ++ ms) := by
  induction ns with
  | nil => exact hm
  | cons n rest ih => exact ⟨hn.1, ih hn.2⟩

mutual
theorem regular_readProperty (x : Xml.Node) (h : x.Legal) : RegularProperties (readProperty x) :=
  match x, h with
  | .element _ _ children, ⟨hname, has, hchildren⟩ =>
    ⟨⟨hname, regularAttributes_mathAttributes has, regularText_propertyText? hchildren,
      regular_readProperties children hchildren⟩, trivial⟩
  | .text _, _ | .comment _, _ | .instruction _ _, _ => trivial

theorem regular_readProperties (xs : List Xml.Node) (h : LegalAll xs) :
    RegularProperties (readProperties xs) :=
  match xs, h with
  | [], _ => trivial
  | .element name as children :: rest, ⟨hx, hrest⟩ => by
    have hothers := regular_readProperties rest hrest
    rw [readProperties]
    split
    · exact regularProperties_append (regular_readProperty (.element name as children) hx) hothers
    · exact hothers
  | .text _ :: rest, ⟨_, hrest⟩ | .comment _ :: rest, ⟨_, hrest⟩
  | .instruction _ _ :: rest, ⟨_, hrest⟩ => regular_readProperties rest hrest
end

theorem matrixProperties_shaped {xs : List Xml.Node} (h : LegalAll xs) :
    MatrixProperties (matrixProperties xs) := by
  unfold matrixProperties
  split
  · rename_i as inside hchild
    obtain ⟨has, hinside⟩ := legal_child? h hchild
    have hproperty := regular_readProperty (.element (mathName "mPr") as inside)
      ⟨by decide, has, hinside⟩
    exact ⟨rfl, hproperty.1⟩
  · trivial

/-! All elements. -/

mutual
/-- What any legal element is read as, by the role of its name. -/
theorem shapeds_readNode (x : Xml.Node) (h : x.Legal) : Shapeds (readNode x) :=
  match x, h with
  | .element name as children, ⟨_, _, hc⟩ => by
    have hpart := fun part => shapedSlot_slot (shapeds_partOf part children hc)
    have hlimit := fun hidden part =>
      shapedLimit_unlessHidden hidden (shapeds_partOf part children hc)
    rw [readNode]
    cases roleOf name with
    | text => exact shapeds_singleton (legal_leadingText hc)
    | run => exact shapeds_readRun hc
    | fraction => exact shapeds_singleton ⟨hpart "num", hpart "den"⟩
    | superscript => exact shapeds_singleton ⟨hpart "e", hpart "sup"⟩
    | subscript => exact shapeds_singleton ⟨hpart "e", hpart "sub"⟩
    | subSuperscript => exact shapeds_singleton ⟨hpart "e", hpart "sub", hpart "sup"⟩
    | radical => exact shapeds_singleton ⟨hpart "e", hlimit _ "deg"⟩
    | delimited =>
      have hseparator : Legal (propertyOr "dPr" "sepChr" "|" children) :=
        legal_propertyOr hc (by decide)
      have hitems := shapeds_joinItems hseparator (shapeds_partsOf "e" children hc)
      exact shapeds_singleton ⟨shapedSlot_slot hitems, delimiterOf_named _ _⟩
    | nary =>
      exact shapeds_readNary (legal_propertyOr hc (by decide)) (hlimit _ "sub") (hlimit _ "sup")
        (hpart "e")
    | accent => exact shapeds_readAccent (legal_propertyOr hc (by decide)) (hpart "e")
    | matrix =>
      exact shapeds_singleton ⟨shapedRows_rowsOf children hc, matrixProperties_shaped hc⟩
    | wrapper =>
      dsimp only
      split
      · exact shapeds_readNodes children hc
      · split
        · trivial
        · exact shapeds_singleton (legalString_trimmed (legal_innerTexts children hc))
  | .text _, _ | .comment _, _ | .instruction _ _, _ => trivial

theorem shapeds_readNodes (xs : List Xml.Node) (h : LegalAll xs) : Shapeds (readNodes xs) :=
  match xs, h with
  | [], _ => trivial
  | x :: rest, ⟨hx, hrest⟩ => shapeds_append (shapeds_readNode x hx) (shapeds_readNodes rest hrest)

theorem shapeds_partOf (name : String) (xs : List Xml.Node) (h : LegalAll xs) :
    Shapeds (partOf name xs) :=
  match xs, h with
  | [], _ => trivial
  | .element n _ children :: rest, ⟨⟨_, _, hc⟩, hrest⟩ => by
    rw [partOf]
    split
    · exact shapeds_readNodes children hc
    · exact shapeds_partOf name rest hrest
  | .text _ :: rest, ⟨_, hrest⟩ | .comment _ :: rest, ⟨_, hrest⟩
  | .instruction _ _ :: rest, ⟨_, hrest⟩ => shapeds_partOf name rest hrest

theorem shapeds_partsOf (name : String) (xs : List Xml.Node) (h : LegalAll xs) :
    ∀ part ∈ partsOf name xs, Shapeds part :=
  match xs, h with
  | [], _ => by simp [partsOf]
  | .element n _ children :: rest, ⟨⟨_, _, hc⟩, hrest⟩ => by
    have hothers := shapeds_partsOf name rest hrest
    rw [partsOf]
    split
    · exact List.forall_mem_cons.2 ⟨shapeds_readNodes children hc, hothers⟩
    · exact hothers
  | .text _ :: rest, ⟨_, hrest⟩ | .comment _ :: rest, ⟨_, hrest⟩
  | .instruction _ _ :: rest, ⟨_, hrest⟩ => shapeds_partsOf name rest hrest

theorem shapedRows_rowsOf (xs : List Xml.Node) (h : LegalAll xs) : ShapedRows (rowsOf xs) :=
  match xs, h with
  | [], _ => trivial
  | .element n _ children :: rest, ⟨⟨_, _, hc⟩, hrest⟩ => by
    have hothers := shapedRows_rowsOf rest hrest
    rw [rowsOf]
    split
    · exact ⟨shapedCells_cellsOf children hc, hothers⟩
    · exact hothers
  | .text _ :: rest, ⟨_, hrest⟩ | .comment _ :: rest, ⟨_, hrest⟩
  | .instruction _ _ :: rest, ⟨_, hrest⟩ => shapedRows_rowsOf rest hrest

theorem shapedCells_cellsOf (xs : List Xml.Node) (h : LegalAll xs) : ShapedCells (cellsOf xs) :=
  match xs, h with
  | [], _ => trivial
  | .element n _ children :: rest, ⟨⟨_, _, hc⟩, hrest⟩ => by
    have hothers := shapedCells_cellsOf rest hrest
    rw [cellsOf]
    split
    · exact ⟨shapedSlot_slot (shapeds_readNodes children hc), hothers⟩
    · exact hothers
  | .text _ :: rest, ⟨_, hrest⟩ | .comment _ :: rest, ⟨_, hrest⟩
  | .instruction _ _ :: rest, ⟨_, hrest⟩ => shapedCells_cellsOf rest hrest
end

/-! Fragments. -/

mutual
theorem legal_firstEquation (x : Xml.Node) (h : x.Legal) {content : List Xml.Node}
    (heq : firstEquation x = some content) : LegalAll content :=
  match x, h with
  | .element name _ children, ⟨_, _, hc⟩ => by
    rw [firstEquation] at heq
    split at heq
    · cases heq
      exact hc
    · exact legal_firstEquationIn children hc heq
  | .text _, _ | .comment _, _ | .instruction _ _, _ => by simp [firstEquation] at heq

theorem legal_firstEquationIn (xs : List Xml.Node) (h : LegalAll xs) {content : List Xml.Node}
    (heq : firstEquationIn xs = some content) : LegalAll content :=
  match xs, h with
  | [], _ => by simp [firstEquationIn] at heq
  | x :: rest, ⟨hx, hrest⟩ => by
    rw [firstEquationIn] at heq
    cases hfirst : firstEquation x with
    | some inside =>
      rw [hfirst] at heq
      cases heq
      exact legal_firstEquation x hx hfirst
    | none =>
      rw [hfirst] at heq
      exact legal_firstEquationIn rest hrest heq
end

theorem shapeds_equationNodes {content : List Xml.Node} (h : LegalAll content) :
    Shapeds (equationNodes content) := by
  refine shapeds_readNodes _ ?_
  cases heq : firstEquationIn content with
  | none => exact h
  | some inside => exact legal_firstEquationIn content h heq

/-- Every tree that is read is well shaped at every depth, and can be written, on its own or
displayed. -/
theorem readEquation_shaped (markup : String) (ns : List Node)
    (h : readEquation markup = some ns) :
    Shapeds ns ∧ ∀ display, ∃ x, writeEquation ns display = .ok x := by
  obtain ⟨content, hcontent, rfl⟩ := Option.map_eq_some_iff.1 h
  have hshaped := shapeds_equationNodes (Xml.readFragment_legal hcontent)
  exact ⟨hshaped, fun display => ⟨_, writeEquation_eq (regulars_of_shaped _ hshaped) display⟩⟩

/-- A product over nothing, an accent without a base, two items between brackets of which one is
empty, and a matrix with a property whose text has white space around it. -/
def oddMarkup : String :=
  "<m:oMath><m:nary><m:naryPr><m:chr m:val=\"\u220f\"/></m:naryPr><m:sub/></m:nary><m:acc/>" ++
    "<m:d><m:dPr><m:endChr val=\"]\"/></m:dPr><m:e/><m:e><w:p>x</w:p></m:e></m:d>" ++
    "<m:m><m:mPr><m:a m:k=\"1\"> b </m:a></m:mPr><m:mr><m:e/></m:mr></m:m></m:oMath>"

theorem readEquation_shaped_odd : ∃ ns, readEquation oddMarkup = some ns ∧
    plainTexts ns = "\u220f^|x" ∧
      Shapeds ns ∧ ∀ display, ∃ x, writeEquation ns display = .ok x := by
  have htext : (readEquation oddMarkup).map plainTexts = some "\u220f^|x" := by decide +kernel
  obtain ⟨ns, hns, hplain⟩ := Option.map_eq_some_iff.1 htext
  exact ⟨ns, hns, hplain, readEquation_shaped oddMarkup ns hns⟩

end MarkdownDocx.Math
