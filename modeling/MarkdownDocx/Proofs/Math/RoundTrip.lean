import MarkdownDocx.Proofs.Math.Reread
import MarkdownDocx.Proofs.Xml.RoundTrip

/-!
Equations written and read back. Main statement: every regular tree can be written, and its text
reads as its normal form unless its markup is nested too deeply to be read at all.
-/

set_option autoImplicit false

namespace MarkdownDocx.Math

open MarkdownDocx.Xml (mathName FaithfulAll FaithfulAttributes)

/-! The markup of a regular tree reads back as itself. -/

theorem marked_mathName {name : String} (h : Xml.isLocalName name.toList = true) :
    (mathName name).Marked := ⟨.inl rfl, h⟩

theorem faithfulAll_nil : FaithfulAll [] := trivial

theorem faithfulAttributes_nil : FaithfulAttributes [] :=
  ⟨by simp, by simp, by simp, by simp⟩

theorem faithfulAttributes_val {value : String} (h : Legal value) :
    FaithfulAttributes [(mathName "val", value)] := by
  refine ⟨?_, ?_, ?_, by simp⟩
  · simpa using marked_mathName (by decide)
  · simp [mathName, Xml.Name.spelled, Xml.Namespace.mark]
  · simp only [List.mem_singleton, forall_eq]
    exact h

theorem faithfulAttributes_space : FaithfulAttributes [(⟨.xml, "space"⟩, "preserve")] := by
  refine ⟨?_, ?_, ?_, by simp⟩
  · simpa using (⟨.inr (.inr rfl), by decide⟩ : Xml.Name.Marked ⟨.xml, "space"⟩)
  · simp [Xml.Name.spelled]
  · simp only [List.mem_singleton, forall_eq]
    decide

theorem RegularAttributes.faithful {attributes : List (String × String)}
    (h : RegularAttributes attributes) : FaithfulAttributes (propertyAttributes attributes) := by
  rw [propertyAttributes_eq h.nodup]
  refine ⟨?_, ?_, ?_, ?_⟩
  · intro a ha
    obtain ⟨b, hb, rfl⟩ := List.mem_map.1 ha
    exact marked_mathName (h.names b hb)
  · intro a ha
    obtain ⟨b, hb, rfl⟩ := List.mem_map.1 ha
    simp [mathName, Xml.Name.spelled, Xml.Namespace.mark]
  · intro a ha
    obtain ⟨b, hb, rfl⟩ := List.mem_map.1 ha
    exact h.legal b hb
  · have hnodup := h.nodup
    simp only [List.map_map, List.Nodup, List.pairwise_map] at hnodup ⊢
    exact hnodup.imp fun hne heq => hne (mathName_inj.1 heq)

theorem faithfulAll_element {name : Xml.Name} {as : List Xml.Attribute}
    {children rest : List Xml.Node} (h : (Xml.Node.element name as children).Faithful)
    (hrest : FaithfulAll rest) : FaithfulAll (.element name as children :: rest) :=
  ⟨h, hrest, fun hs => hs.1⟩

theorem faithful_box {name : String} {children : List Xml.Node}
    (hname : Xml.isLocalName name.toList = true) (h : FaithfulAll children) :
    (box name children).Faithful :=
  ⟨marked_mathName hname, faithfulAttributes_nil, h⟩

theorem faithfulAll_box {name : String} {children rest : List Xml.Node}
    (hname : Xml.isLocalName name.toList = true) (h : FaithfulAll children)
    (hrest : FaithfulAll rest) : FaithfulAll (box name children :: rest) :=
  faithfulAll_element (faithful_box hname h) hrest

theorem faithfulAll_valued {name value : String} {rest : List Xml.Node}
    (hname : Xml.isLocalName name.toList = true) (hvalue : Legal value)
    (hrest : FaithfulAll rest) : FaithfulAll (valued name value :: rest) :=
  faithfulAll_element ⟨marked_mathName hname, faithfulAttributes_val hvalue, trivial⟩ hrest

theorem faithfulAll_hiddenFlag (name : String) {rest : List Xml.Node}
    (hname : Xml.isLocalName name.toList = true) (part : Option (List Node))
    (hrest : FaithfulAll rest) : FaithfulAll (hiddenFlag name part ++ rest) := by
  cases part with
  | none => exact faithfulAll_valued hname (by decide) hrest
  | some nodes => exact hrest

theorem faithfulAll_ofText {s : String} (h : Legal s) : FaithfulAll (Xml.Node.ofText s) := by
  unfold Xml.Node.ofText
  split
  · trivial
  · rename_i hne
    simp only [String.isEmpty_iff] at hne
    exact ⟨⟨hne, h⟩, trivial, fun hs => hs.2⟩

theorem faithfulAll_naryProperties {symbol : String} (h : Legal symbol)
    (sub sup : Option (List Node)) : FaithfulAll (naryProperties symbol sub sup) := by
  refine faithfulAll_valued (by decide) h (faithfulAll_valued (by decide) ?_ ?_)
  · unfold limitPlace
    split <;> decide
  · have hsup := faithfulAll_hiddenFlag "supHide" (by decide) sup faithfulAll_nil
    rw [List.append_nil] at hsup
    exact faithfulAll_hiddenFlag "subHide" (by decide) sub hsup

theorem legal_glyphs (kind : Delimiter) : Legal kind.glyphs.1 ∧ Legal kind.glyphs.2 := by
  unfold Delimiter.glyphs
  split <;> exact ⟨by decide, by decide⟩

theorem markup_not_text (n : Node) : ¬Xml.startsWithText [n.markup] := by
  match n with
  | .run _ | .fraction _ _ | .superscript _ _ | .subscript _ _ | .subSuperscript _ _ _
  | .radical _ none | .radical _ (some _) | .delimited _ _ | .nary _ _ _ _ | .accent _ _
  | .matrix _ _ | .property _ _ _ _ => exact id

mutual
theorem faithful_property (n : Node) (h : n.RegularProperty) : n.markup.Faithful :=
  match n, h with
  | .property name attributes children text, ⟨hname, has, ht, hc⟩ => by
    have hchildren := faithfulAll_properties children hc
    refine ⟨marked_mathName hname, has.faithful, ?_⟩
    cases text with
    | none => exact hchildren
    | some t =>
      obtain ⟨_, _, hlegal, rfl⟩ := ht
      simpa [markups] using faithfulAll_ofText hlegal

theorem faithfulAll_properties (ns : List Node) (h : RegularProperties ns) :
    FaithfulAll (markups ns) :=
  match ns, h with
  | [], _ => trivial
  | n :: rest, ⟨hn, hrest⟩ =>
    ⟨faithful_property n hn, faithfulAll_properties rest hrest,
      fun hs => markup_not_text n hs.1⟩
end

theorem faithfulAll_matrixProperties {properties : List Node} (h : MatrixProperties properties)
    {rest : List Xml.Node} (hrest : FaithfulAll rest) :
    FaithfulAll (markups properties ++ rest) := by
  match properties, h with
  | [], _ => exact hrest
  | [.property name attributes children text], ⟨_, h⟩ =>
    exact ⟨faithful_property _ h, hrest, fun hs => markup_not_text _ hs.1⟩

mutual
theorem faithful_markup (n : Node) (h : n.Regular) : n.markup.Faithful :=
  match n, h with
  | .run text, h => by
    refine faithful_box (by decide) (faithfulAll_element ⟨?_, ?_, ?_⟩ faithfulAll_nil)
    · exact marked_mathName (by decide)
    · exact faithfulAttributes_space
    · exact faithfulAll_ofText h
  | .fraction num den, ⟨hnum, hden⟩ =>
    faithful_box (by decide) <| faithfulAll_box (by decide) (faithfulAll_markups num hnum) <|
      faithfulAll_box (by decide) (faithfulAll_markups den hden) faithfulAll_nil
  | .superscript base sup, ⟨hbase, hsup⟩ =>
    faithful_box (by decide) <| faithfulAll_box (by decide) (faithfulAll_markups base hbase) <|
      faithfulAll_box (by decide) (faithfulAll_markups sup hsup) faithfulAll_nil
  | .subscript base sub, ⟨hbase, hsub⟩ =>
    faithful_box (by decide) <| faithfulAll_box (by decide) (faithfulAll_markups base hbase) <|
      faithfulAll_box (by decide) (faithfulAll_markups sub hsub) faithfulAll_nil
  | .subSuperscript base sub sup, ⟨hbase, hsub, hsup⟩ =>
    faithful_box (by decide) <| faithfulAll_box (by decide) (faithfulAll_markups base hbase) <|
      faithfulAll_box (by decide) (faithfulAll_markups sub hsub) <|
        faithfulAll_box (by decide) (faithfulAll_markups sup hsup) faithfulAll_nil
  | .radical base none, ⟨hbase, _⟩ =>
    faithful_box (by decide) <|
      faithfulAll_box (by decide)
        (faithfulAll_valued (by decide) (by decide) faithfulAll_nil) <|
      faithfulAll_box (by decide) faithfulAll_nil <|
        faithfulAll_box (by decide) (faithfulAll_markups base hbase) faithfulAll_nil
  | .radical base (some degree), ⟨hbase, hdegree⟩ =>
    faithful_box (by decide) <| faithfulAll_box (by decide) (faithfulAll_markups degree hdegree) <|
      faithfulAll_box (by decide) (faithfulAll_markups base hbase) faithfulAll_nil
  | .delimited content kind, hcontent =>
    faithful_box (by decide) <|
      faithfulAll_box (by decide)
        (faithfulAll_valued (by decide) (legal_glyphs kind).1 <|
          faithfulAll_valued (by decide) (legal_glyphs kind).2 faithfulAll_nil) <|
      faithfulAll_box (by decide) (faithfulAll_markups content hcontent) faithfulAll_nil
  | .nary symbol operand sub sup, ⟨hsymbol, hoperand, hsub, hsup⟩ =>
    faithful_box (by decide) <|
      faithfulAll_box (by decide) (faithfulAll_naryProperties hsymbol sub sup) <|
      faithfulAll_box (by decide) (faithfulAll_limitMarkups sub hsub) <|
      faithfulAll_box (by decide) (faithfulAll_limitMarkups sup hsup) <|
        faithfulAll_box (by decide) (faithfulAll_markups operand hoperand) faithfulAll_nil
  | .accent mark base, ⟨hmark, hbase⟩ =>
    faithful_box (by decide) <|
      faithfulAll_box (by decide) (faithfulAll_valued (by decide) hmark faithfulAll_nil) <|
        faithfulAll_box (by decide) (faithfulAll_markups base hbase) faithfulAll_nil
  | .matrix rows properties, ⟨hrows, hproperties⟩ =>
    faithful_box (by decide) <|
      faithfulAll_matrixProperties hproperties (faithfulAll_rowMarkups rows hrows)

theorem faithfulAll_markups (ns : List Node) (h : Regulars ns) : FaithfulAll (markups ns) :=
  match ns, h with
  | [], _ => trivial
  | n :: rest, ⟨hn, hrest⟩ =>
    ⟨faithful_markup n hn, faithfulAll_markups rest hrest, fun hs => markup_not_text n hs.1⟩

theorem faithfulAll_limitMarkups (part : Option (List Node)) (h : RegularLimit part) :
    FaithfulAll (limitMarkups part) :=
  match part, h with
  | none, _ => trivial
  | some nodes, h => faithfulAll_markups nodes h

theorem faithfulAll_rowMarkups (rows : List (List (List Node))) (h : RegularRows rows) :
    FaithfulAll (rowMarkups rows) :=
  match rows, h with
  | [], _ => trivial
  | r :: rest, ⟨hr, hrest⟩ =>
    faithfulAll_box (by decide) (faithfulAll_cellMarkups r hr) (faithfulAll_rowMarkups rest hrest)

theorem faithfulAll_cellMarkups (cells : List (List Node)) (h : RegularCells cells) :
    FaithfulAll (cellMarkups cells) :=
  match cells, h with
  | [], _ => trivial
  | c :: rest, ⟨hc, hrest⟩ =>
    faithfulAll_box (by decide) (faithfulAll_markups c hc) (faithfulAll_cellMarkups rest hrest)
end

theorem faithful_equationMarkup {ts : List Node} (h : Regulars ts) (display : Bool) :
    (equationMarkup ts display).Faithful := by
  have hequation : (box "oMath" (markups ts)).Faithful :=
    faithful_box (by decide) (faithfulAll_markups ts h)
  cases display with
  | false => exact hequation
  | true => exact faithful_box (by decide) (faithfulAll_element hequation faithfulAll_nil)

/-! Equations. -/

theorem equationMarkup_eq (ts : List Node) (display : Bool) :
    ∃ name children, equationMarkup ts display = box name children := by
  cases display with
  | false => exact ⟨"oMath", markups ts, rfl⟩
  | true => exact ⟨"oMathPara", [box "oMath" (markups ts)], rfl⟩

theorem firstEquation_equationMarkup (ts : List Node) (display : Bool) :
    firstEquationIn [equationMarkup ts display] = some (markups ts) := by
  cases display <;> simp [equationMarkup, box, firstEquationIn, firstEquation]

theorem equationNodes_equationMarkup {ts : List Node} (h : Regulars ts) (display : Bool) :
    equationNodes [equationMarkup ts display] = normals ts := by
  simp [equationNodes, firstEquation_equationMarkup, readNodes_markups ts h]

theorem writeEquation_eq {ts : List Node} (h : Regulars ts) (display : Bool) :
    writeEquation ts display = .ok (equationMarkup ts display) := by
  have hcheck := Xml.check_of_faithful _ (faithful_equationMarkup h display)
  simp only [writeEquation, hcheck]
  rfl

/-- A tag does not begin a declaration of XML. -/
theorem dropDeclaration_tag {c : Char} (hc : c ≠ '?') (r : List Char) :
    dropDeclaration ('<' :: c :: r) = '<' :: c :: r := by
  have hword : Text.afterWord ['<', '?', 'x', 'm', 'l'] (Text.trimLeft ('<' :: c :: r)) = none := by
    have hlt : Text.isBlank '<' = false := by decide
    simp [Text.trimLeft, hlt, Text.afterWord, Ne.symm hc]
  simp [dropDeclaration, hword]

theorem dropDeclaration_document (name : String) (children : List Xml.Node) :
    dropDeclaration (box name children).document = (box name children).document := by
  simp [box, Xml.Node.document, mathName, Xml.Name.marked, dropDeclaration_tag]

theorem dropDeclaration_written (name : String) (children : List Xml.Node) :
    dropDeclaration (box name children).written = (box name children).written := by
  simp [box, Xml.Node.written, mathName, Xml.Name.marked, dropDeclaration_tag]

/-- Reading the text of an equation gives its normal form, as far as its elements are not nested too
deeply to be read. -/
theorem readEquation_document {ts : List Node} (h : Regulars ts) (display : Bool) :
    readEquation (String.ofList (equationMarkup ts display).document) =
      if (equationMarkup ts display).depth < Xml.greatestDepth then some (normals ts)
      else none := by
  have hnodes := equationNodes_equationMarkup h display
  have hfaithful := faithful_equationMarkup h display
  obtain ⟨name, children, hbox⟩ := equationMarkup_eq ts display
  rw [hbox] at hnodes hfaithful ⊢
  have hread : Xml.readFragment (box name children).document =
      if (box name children).depth < Xml.greatestDepth then some [box name children] else none :=
    Xml.readFragment_document hfaithful
  rw [readEquation, String.toList_ofList, dropDeclaration_document, hread]
  split
  · exact congrArg some hnodes
  · rfl

/-- Every regular tree can be written, and what is written reads as its normal form where no element
is nested too deeply; only there is it read at all. -/
theorem readEquation_writeEquation (ts : List Node) (display : Bool) (h : Regulars ts) :
    ∃ x, writeEquation ts display = .ok x ∧
      readEquation (String.ofList x.document) =
        if x.depth < Xml.greatestDepth then some (normals ts) else none :=
  ⟨equationMarkup ts display, writeEquation_eq h display, readEquation_document h display⟩

theorem regular_run {text : String} (h : Legal text) : (Node.run text).Regular := h

/-- A tree with parts that are empty, blank or without a name. -/
def sparseEquation : List Node :=
  [.accent "" [.run "x"], .nary "" [] (some [.run " "]) none,
    .matrix [[[]]] [.property "mPr" [("val", "1")] [] (some "a")]]

theorem regulars_sparseEquation : Regulars sparseEquation := by
  have hattributes : RegularAttributes [("val", "1")] :=
    ⟨by simp only [List.mem_singleton, forall_eq]; decide,
      by simp only [List.mem_singleton, forall_eq]; decide, by decide⟩
  have hproperty : (Node.property "mPr" [("val", "1")] [] (some "a")).RegularProperty :=
    ⟨by decide, hattributes, ⟨by decide, by decide, by decide, rfl⟩, trivial⟩
  have haccent : (Node.accent "" [.run "x"]).Regular :=
    ⟨by decide, regular_run (by decide), trivial⟩
  have hsum : (Node.nary "" [] (some [.run " "]) none).Regular :=
    ⟨by decide, trivial, ⟨regular_run (by decide), trivial⟩, trivial⟩
  exact ⟨haccent, hsum, ⟨⟨⟨trivial, trivial⟩, trivial⟩, rfl, hproperty⟩, trivial⟩

/-- An accent without a mark is a hat, a sum loses its blank limit, and an empty cell holds an empty
run. -/
theorem readEquation_writeEquation_sparse :
    Regulars sparseEquation ∧ ∃ x, writeEquation sparseEquation true = .ok x ∧
      readEquation (String.ofList x.document) =
        some [.run "x\u0302", .nary sumSign [.run ""] none none,
          .matrix [[[.run ""]]] [.property "mPr" [("val", "1")] [] (some "a")]] := by
  have h := regulars_sparseEquation
  obtain ⟨x, hx, hread⟩ := readEquation_writeEquation sparseEquation true h
  refine ⟨h, x, hx, ?_⟩
  obtain rfl : equationMarkup sparseEquation true = x :=
    Except.ok.inj ((writeEquation_eq h true).symm.trans hx)
  rw [hread]
  rfl

/-- A variable with exponents on top of one another. -/
def tower : Nat → List Node
  | 0 => [.run "x"]
  | n + 1 => [.superscript (tower n) [.run "2"]]

theorem regulars_tower (n : Nat) : Regulars (tower n) := by
  induction n with
  | zero => exact ⟨regular_run (by decide), trivial⟩
  | succ n ih => exact ⟨⟨ih, regular_run (by decide), trivial⟩, trivial⟩

theorem depthAll_tower (n : Nat) : Xml.depthAll (markups (tower n)) = 2 * n + 2 := by
  induction n with
  | zero => rfl
  | succ n ih =>
    have hrun : (runMarkup "2").depth = 2 := rfl
    simp only [tower, markups, Node.markup, box, Xml.depthAll, Xml.Node.depth, ih, hrun]
    omega

/-- Not every regular tree is read again: a tower of exponents is too deep from some height on. -/
theorem readEquation_tower :
    Regulars (tower 128) ∧ ∃ x, writeEquation (tower 128) false = .ok x ∧
      readEquation (String.ofList x.document) ≠ some (normals (tower 128)) := by
  have h := regulars_tower 128
  refine ⟨h, _, writeEquation_eq h false, ?_⟩
  have hdepth : (equationMarkup (tower 128) false).depth = 259 := by
    have hinner := depthAll_tower 128
    simp only [equationMarkup, box, Xml.Node.depth, hinner, Bool.false_eq_true, if_false]
  rw [readEquation_document h, hdepth]
  simp [Xml.greatestDepth]

end MarkdownDocx.Math
