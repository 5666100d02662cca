import MarkdownDocx.Docx.Body
import MarkdownDocx.Proofs.Logged
import MarkdownDocx.Proofs.Math.RoundTrip

/-!
Equations in documents. Trees of legal strings can be written, and a document keeps their markup as
it is but for white space before the parts of a property, which is layout.
-/

set_option autoImplicit false

namespace MarkdownDocx.Math

open MarkdownDocx.Xml (mathName checkName checkText checkAttributes checkAll isLocalName)
open MarkdownDocx.Docx (keptMarkup keptMarkups dropLayout isLayoutSpace)

/-! Which markup passes its check. -/

theorem except_then_eq_ok_iff {ε α : Type} {x : Except ε Unit} {next : Except ε α} {a : α} :
    (x >>= fun _ => next) = .ok a ↔ x = .ok () ∧ next = .ok a := by
  rw [except_bind_eq_ok_iff]
  exact ⟨fun ⟨_, hx, hnext⟩ => ⟨hx, hnext⟩, fun ⟨hx, hnext⟩ => ⟨(), hx, hnext⟩⟩

@[simp] theorem checkName_eq_ok_iff {n : Xml.Name} :
    checkName n = .ok () ↔ isLocalName n.base.toList = true := by
  unfold checkName
  split <;> simp_all

@[simp] theorem checkText_eq_ok_iff {s : String} : checkText s = .ok () ↔ Legal s := by
  unfold checkText Legal
  split <;> simp_all

@[simp] theorem checkAttributes_eq_ok_iff {as : List Xml.Attribute} :
    checkAttributes as = .ok () ↔ ∀ a ∈ as, isLocalName a.1.base.toList = true ∧ Legal a.2 := by
  induction as with
  | nil => simp [checkAttributes]
  | cons a rest ih =>
    simp [checkAttributes, except_then_eq_ok_iff, ih, and_assoc]

@[simp] theorem check_element_iff {n : Xml.Name} {as : List Xml.Attribute}
    {children : List Xml.Node} :
    (Xml.Node.element n as children).check = .ok () ↔
      isLocalName n.base.toList = true ∧ checkAttributes as = .ok () ∧
        checkAll children = .ok () := by
  simp only [Xml.Node.check, except_then_eq_ok_iff, checkName_eq_ok_iff]

@[simp] theorem check_text_iff {s : String} : (Xml.Node.text s).check = .ok () ↔ Legal s := by
  simp only [Xml.Node.check, checkText_eq_ok_iff]

@[simp] theorem checkAll_nil : checkAll [] = .ok () := rfl

@[simp] theorem checkAll_cons_iff {x : Xml.Node} {rest : List Xml.Node} :
    checkAll (x :: rest) = .ok () ↔ x.check = .ok () ∧ checkAll rest = .ok () := by
  simp only [checkAll, except_then_eq_ok_iff]

@[simp] theorem checkAll_append_iff {xs ys : List Xml.Node} :
    checkAll (xs ++ ys) = .ok () ↔ checkAll xs = .ok () ∧ checkAll ys = .ok () := by
  induction xs with
  | nil => simp
  | cons x rest ih => simp [ih, and_assoc]

theorem checkAll_ofText {s : String} (h : Legal s) : checkAll (Xml.Node.ofText s) = .ok () := by
  unfold Xml.Node.ofText
  split <;> simp [h]

theorem check_box {name : String} {children : List Xml.Node}
    (hname : isLocalName name.toList = true) (h : checkAll children = .ok ()) :
    (box name children).check = .ok () :=
  check_element_iff.2 ⟨hname, rfl, h⟩

theorem check_valued {name value : String} (hname : isLocalName name.toList = true)
    (hvalue : Legal value) : (valued name value).check = .ok () := by
  refine check_element_iff.2 ⟨hname, checkAttributes_eq_ok_iff.2 ?_, rfl⟩
  simp only [List.mem_singleton, forall_eq]
  exact ⟨by decide, hvalue⟩

theorem checkAll_hiddenFlag {name : String} (hname : isLocalName name.toList = true)
    (part : Option (List Node)) : checkAll (hiddenFlag name part) = .ok () := by
  cases part with
  | none => simp [hiddenFlag, check_valued hname (show Legal "1" by decide)]
  | some nodes => rfl

theorem checkAttributes_setAttribute {name : Xml.Name} {value : String} {as : List Xml.Attribute}
    (hname : isLocalName name.base.toList = true) (hvalue : Legal value)
    (h : checkAttributes as = .ok ()) :
    checkAttributes (Xml.setAttribute name value as) = .ok () := by
  induction as with
  | nil => simp [Xml.setAttribute, hname, hvalue]
  | cons a rest ih =>
    simp only [checkAttributes, except_then_eq_ok_iff, checkName_eq_ok_iff,
      checkText_eq_ok_iff] at h
    unfold Xml.setAttribute
    split
    · simp [checkAttributes, except_then_eq_ok_iff, h, hvalue]
    · simp [checkAttributes, except_then_eq_ok_iff, h, ih h.2.2]

theorem checkAttributes_propertyAttributes {attributes : List (String × String)}
    (h : ∀ a ∈ attributes, isLocalName a.1.toList = true ∧ Legal a.2) :
    checkAttributes (propertyAttributes attributes) = .ok () := by
  suffices hfold : ∀ as, checkAttributes as = .ok () → checkAttributes
      (attributes.foldl (fun as a => Xml.setAttribute (mathName a.1) a.2 as) as) = .ok () from
    hfold [] rfl
  induction attributes with
  | nil => exact fun as has => has
  | cons a rest ih =>
    intro as has
    obtain ⟨hname, hvalue⟩ := h a List.mem_cons_self
    exact ih (fun b hb => h b (List.mem_cons_of_mem a hb)) _
      (checkAttributes_setAttribute hname hvalue has)

mutual
/-- A tree whose strings may all stand in a document, and whose properties have names. -/
def Node.Writable : Node → Prop
  | .run text => Legal text
  | .fraction num den => Writables num ∧ Writables den
  | .superscript base sup => Writables base ∧ Writables sup
  | .subscript base sub => Writables base ∧ Writables sub
  | .subSuperscript base sub sup => Writables base ∧ Writables sub ∧ Writables sup
  | .radical base degree => Writables base ∧ WritableLimit degree
  | .delimited content _ => Writables content
  | .nary symbol operand sub sup =>
    Legal symbol ∧ Writables operand ∧ WritableLimit sub ∧ WritableLimit sup
  | .accent mark base => Legal mark ∧ Writables base
  | .matrix rows properties => WritableRows rows ∧ Writables properties
  | .property name attributes children text =>
    isLocalName name.toList = true ∧
      (∀ a ∈ attributes, isLocalName a.1.toList = true ∧ Legal a.2) ∧
        Legal (text.getD "") ∧ Writables children

def Writables : List Node → Prop
  | [] => True
  | n :: rest => n.Writable ∧ Writables rest

def WritableLimit : Option (List Node) → Prop
  | none => True
  | some nodes => Writables nodes

def WritableRows : List (List (List Node)) → Prop
  | [] => True
  | r :: rest => WritableCells r ∧ WritableRows rest

def WritableCells : List (List Node) → Prop
  | [] => True
  | c :: rest => Writables c ∧ WritableCells rest
end

theorem writable_run {text : String} (h : Legal text) : (Node.run text).Writable := h

theorem legal_limitPlace (symbol : String) : Legal (limitPlace symbol) := by
  unfold limitPlace
  split <;> decide

theorem check_runMarkup {text : String} (h : Legal text) : (runMarkup text).check = .ok () := by
  have hspace : checkAttributes [(⟨.xml, "space"⟩, "preserve")] = .ok () := rfl
  have ht : (Xml.Node.element (mathName "t") [(⟨.xml, "space"⟩, "preserve")]
      (Xml.Node.ofText text)).check = .ok () :=
    check_element_iff.2 ⟨by decide, hspace, checkAll_ofText h⟩
  exact check_box (by decide) (checkAll_cons_iff.2 ⟨ht, rfl⟩)

theorem checkAll_box {name : String} {children rest : List Xml.Node}
    (hname : isLocalName name.toList = true) (h : checkAll children = .ok ())
    (hrest : checkAll rest = .ok ()) : checkAll (box name children :: rest) = .ok () :=
  checkAll_cons_iff.2 ⟨check_box hname h, hrest⟩

theorem checkAll_valued {name value : String} {rest : List Xml.Node}
    (hname : isLocalName name.toList = true) (hvalue : Legal value)
    (hrest : checkAll rest = .ok ()) : checkAll (valued name value :: rest) = .ok () :=
  checkAll_cons_iff.2 ⟨check_valued hname hvalue, hrest⟩

mutual
theorem check_markup (n : Node) (h : n.Writable) : n.markup.check = .ok () :=
  match n, h with
  | .run _, h => check_runMarkup h
  | .fraction num den, ⟨hnum, hden⟩ =>
    check_box (by decide) <| checkAll_box (by decide) (checkAll_markups num hnum) <|
      checkAll_box (by decide) (checkAll_markups den hden) checkAll_nil
  | .superscript base sup, ⟨hbase, hsup⟩ =>
    check_box (by decide) <| checkAll_box (by decide) (checkAll_markups base hbase) <|
      checkAll_box (by decide) (checkAll_markups sup hsup) checkAll_nil
  | .subscript base sub, ⟨hbase, hsub⟩ =>
    check_box (by decide) <| checkAll_box (by decide) (checkAll_markups base hbase) <|
      checkAll_box (by decide) (checkAll_markups sub hsub) checkAll_nil
  | .subSuperscript base sub sup, ⟨hbase, hsub, hsup⟩ =>
    check_box (by decide) <| checkAll_box (by decide) (checkAll_markups base hbase) <|
      checkAll_box (by decide) (checkAll_markups sub hsub) <|
        checkAll_box (by decide) (checkAll_markups sup hsup) checkAll_nil
  | .radical base none, ⟨hbase, _⟩ =>
    check_box (by decide) <|
      checkAll_box (by decide) (checkAll_valued (by decide) (by decide) checkAll_nil) <|
      checkAll_box (by decide) checkAll_nil <|
        checkAll_box (by decide) (checkAll_markups base hbase) checkAll_nil
  | .radical base (some degree), ⟨hbase, hdegree⟩ =>
    check_box (by decide) <| checkAll_box (by decide) (checkAll_markups degree hdegree) <|
      checkAll_box (by decide) (checkAll_markups base hbase) checkAll_nil
  | .delimited content kind, hcontent =>
    check_box (by decide) <|
      checkAll_box (by decide)
        (checkAll_valued (by decide) (legal_glyphs kind).1 <|
          checkAll_valued (by decide) (legal_glyphs kind).2 checkAll_nil) <|
      checkAll_box (by decide) (checkAll_markups content hcontent) checkAll_nil
  | .nary symbol operand sub sup, ⟨hsymbol, hoperand, hsub, hsup⟩ =>
    check_box (by decide) <|
      checkAll_box (by decide)
        (checkAll_valued (by decide) hsymbol <|
          checkAll_valued (by decide) (legal_limitPlace symbol) <|
            checkAll_append_iff.2 ⟨checkAll_hiddenFlag (by decide) sub,
              checkAll_hiddenFlag (by decide) sup⟩) <|
      checkAll_box (by decide) (checkAll_limitMarkups sub hsub) <|
      checkAll_box (by decide) (checkAll_limitMarkups sup hsup) <|
        checkAll_box (by decide) (checkAll_markups operand hoperand) checkAll_nil
  | .accent mark base, ⟨hmark, hbase⟩ =>
    check_box (by decide) <|
      checkAll_box (by decide) (checkAll_valued (by decide) hmark checkAll_nil) <|
        checkAll_box (by decide) (checkAll_markups base hbase) checkAll_nil
  | .matrix rows properties, ⟨hrows, hproperties⟩ =>
    check_box (by decide) <| checkAll_append_iff.2
      ⟨checkAll_markups properties hproperties, checkAll_rowMarkups rows hrows⟩
  | .property _ _ children _, ⟨hname, hattributes, htext, hchildren⟩ =>
    check_element_iff.2 ⟨hname, checkAttributes_propertyAttributes hattributes,
      checkAll_append_iff.2 ⟨checkAll_ofText htext, checkAll_markups children hchildren⟩⟩

theorem checkAll_markups (ns : List Node) (h : Writables ns) : checkAll (markups ns) = .ok () :=
  match ns, h with
  | [], _ => checkAll_nil
  | n :: rest, ⟨hn, hrest⟩ => checkAll_cons_iff.2 ⟨check_markup n hn, checkAll_markups rest hrest⟩

theorem checkAll_limitMarkups (part : Option (List Node)) (h : WritableLimit part) :
    checkAll (limitMarkups part) = .ok () :=
  match part, h with
  | none, _ => checkAll_nil
  | some nodes, h => checkAll_markups nodes h

theorem checkAll_rowMarkups (rows : List (List (List Node))) (h : WritableRows rows) :
    checkAll (rowMarkups rows) = .ok () :=
  match rows, h with
  | [], _ => checkAll_nil
  | r :: rest, ⟨hr, hrest⟩ =>
    checkAll_box (by decide) (checkAll_cellMarkups r hr) (checkAll_rowMarkups rest hrest)

theorem checkAll_cellMarkups (cells : List (List Node)) (h : WritableCells cells) :
    checkAll (cellMarkups cells) = .ok () :=
  match cells, h with
  | [], _ => checkAll_nil
  | c :: rest, ⟨hc, hrest⟩ =>
    checkAll_box (by decide) (checkAll_markups c hc) (checkAll_cellMarkups rest hrest)
end

/-- Every tree of legal strings can be written. -/
theorem writeEquation_eq_ok {nodes : List Node} (h : Writables nodes) (display : Bool) :
    writeEquation nodes display = .ok (equationMarkup nodes display) := by
  have hequation : (box "oMath" (markups nodes)).check = .ok () :=
    check_box (by decide) (checkAll_markups nodes h)
  have hcheck : (equationMarkup nodes display).check = .ok () := by
    cases display with
    | false => exact hequation
    | true => exact check_box (by decide) (checkAll_cons_iff.2 ⟨hequation, checkAll_nil⟩)
  simp only [writeEquation, hcheck]
  rfl

theorem writables_tower (n : Nat) : Writables (tower n) := by
  induction n with
  | zero => exact ⟨writable_run (by decide), trivial⟩
  | succ n ih => exact ⟨⟨ih, writable_run (by decide), trivial⟩, trivial⟩

/-! What a document keeps of an equation's markup. -/

/-- The text of a property. In front of other nodes white space is only layout. -/
def keptText (children : List Node) (text : Option String) : Option String :=
  text.filter fun t => children.isEmpty || !t.toList.all isLayoutSpace

mutual
/-- A node without the texts that are only layout. -/
def Node.kept : Node → Node
  | .run text => .run text
  | .fraction num den => .fraction (kepts num) (kepts den)
  | .superscript base sup => .superscript (kepts base) (kepts sup)
  | .subscript base sub => .subscript (kepts base) (kepts sub)
  | .subSuperscript base sub sup => .subSuperscript (kepts base) (kepts sub) (kepts sup)
  | .radical base degree => .radical (kepts base) (keptLimit degree)
  | .delimited content kind => .delimited (kepts content) kind
  | .nary symbol operand sub sup => .nary symbol (kepts operand) (keptLimit sub) (keptLimit sup)
  | .accent mark base => .accent mark (kepts base)
  | .matrix rows properties => .matrix (keptRows rows) (kepts properties)
  | .property name attributes children text =>
    .property name attributes (kepts children) (keptText children text)

def kepts : List Node → List Node
  | [] => []
  | n :: rest => n.kept :: kepts rest

def keptLimit : Option (List Node) → Option (List Node)
  | none => none
  | some nodes => some (kepts nodes)

def keptRows : List (List (List Node)) → List (List (List Node))
  | [] => []
  | r :: rest => keptCells r :: keptRows rest

def keptCells : List (List Node) → List (List Node)
  | [] => []
  | c :: rest => kepts c :: keptCells rest
end

theorem markup_eq_element (n : Node) :
    ∃ name as children, n.markup = .element name as children := by
  match n with
  | .run _ | .fraction _ _ | .superscript _ _ | .subscript _ _ | .subSuperscript _ _ _
  | .radical _ none | .radical _ (some _) | .delimited _ _ | .nary _ _ _ _ | .accent _ _
  | .matrix _ _ | .property _ _ _ _ => exact ⟨_, _, _, rfl⟩

theorem dropLayout_markups_append (ns : List Node) (rest : List Xml.Node)
    (hrest : dropLayout rest = rest) : dropLayout (markups ns ++ rest) = markups ns ++ rest := by
  cases ns with
  | nil => exact hrest
  | cons n more =>
    obtain ⟨name, as, children, hn⟩ := markup_eq_element n
    simp only [markups, hn]
    rfl

theorem dropLayout_markups (ns : List Node) : dropLayout (markups ns) = markups ns := by
  simpa using dropLayout_markups_append ns [] rfl

theorem dropLayout_matrix (properties : List Node) (rows : List (List (List Node))) :
    dropLayout (markups properties ++ rowMarkups rows) = markups properties ++ rowMarkups rows :=
  dropLayout_markups_append properties _ (by cases rows <;> rfl)

theorem dropLayout_property (children : List Node) (text : Option String) :
    dropLayout (Xml.Node.ofText (text.getD "") ++ markups children) =
      Xml.Node.ofText ((keptText children text).getD "") ++ markups children := by
  have hempty : Xml.Node.ofText "" = [] := rfl
  cases text with
  | none => simpa [keptText, hempty] using dropLayout_markups children
  | some t =>
    by_cases ht : t = ""
    · subst ht
      have hkept : (keptText children (some "")).getD "" = "" := by cases children <;> rfl
      simpa [hkept, hempty] using dropLayout_markups children
    · have htext : Xml.Node.ofText t = [.text t] := by simp [Xml.Node.ofText, ht]
      cases children with
      | nil => simp [keptText, htext, markups, dropLayout, Option.filter]
      | cons n rest =>
        obtain ⟨name, as, inner, hn⟩ := markup_eq_element n
        by_cases hspace : t.toList.all isLayoutSpace = true
        · simp [keptText, htext, hempty, markups, hn, dropLayout, hspace, Option.filter]
        · simp [keptText, htext, markups, hn, dropLayout, hspace, Option.filter]

@[simp] theorem keptMarkups_append (xs ys : List Xml.Node) :
    keptMarkups (xs ++ ys) = keptMarkups xs ++ keptMarkups ys := by
  induction xs with
  | nil => rfl
  | cons x rest ih => simp [keptMarkups, ih]

@[simp] theorem keptMarkup_box (name : String) (children : List Xml.Node) :
    keptMarkup (box name children) = box name (dropLayout (keptMarkups children)) := rfl

theorem dropLayout_limitMarkups (part : Option (List Node)) :
    dropLayout (limitMarkups part) = limitMarkups part := by
  cases part with
  | none => rfl
  | some nodes => exact dropLayout_markups nodes

theorem dropLayout_cellMarkups (cells : List (List Node)) :
    dropLayout (cellMarkups cells) = cellMarkups cells := by
  cases cells <;> rfl

@[simp] theorem dropLayout_nil : dropLayout [] = [] := rfl

@[simp] theorem dropLayout_box (name : String) (children rest : List Xml.Node) :
    dropLayout (box name children :: rest) = box name children :: rest := rfl

@[simp] theorem dropLayout_valued (name value : String) (rest : List Xml.Node) :
    dropLayout (valued name value :: rest) = valued name value :: rest := rfl

@[simp] theorem keptMarkup_valued (name value : String) :
    keptMarkup (valued name value) = valued name value := rfl

@[simp] theorem keptMarkups_hiddenFlag (name : String) (part : Option (List Node)) :
    keptMarkups (hiddenFlag name part) = hiddenFlag name (keptLimit part) := by
  cases part <;> rfl

@[simp] theorem keptMarkups_ofText (s : String) :
    keptMarkups (Xml.Node.ofText s) = Xml.Node.ofText s := by
  unfold Xml.Node.ofText
  split <;> rfl

theorem keptMarkup_runMarkup (text : String) : keptMarkup (runMarkup text) = runMarkup text := by
  unfold runMarkup Xml.Node.ofText
  split <;> rfl

theorem keptText_kepts (children : List Node) (text : Option String) :
    keptText (kepts children) text = keptText children text := by
  cases children <;> rfl

mutual
theorem keptMarkup_markup (n : Node) : keptMarkup n.markup = n.kept.markup := by
  match n with
  | .run text => exact keptMarkup_runMarkup text
  | .fraction num den =>
    simp [Node.markup, Node.kept, keptMarkups, keptMarkups_markups num, keptMarkups_markups den,
      dropLayout_markups]
  | .superscript base sup =>
    simp [Node.markup, Node.kept, keptMarkups, keptMarkups_markups base, keptMarkups_markups sup,
      dropLayout_markups]
  | .subscript base sub =>
    simp [Node.markup, Node.kept, keptMarkups, keptMarkups_markups base, keptMarkups_markups sub,
      dropLayout_markups]
  | .subSuperscript base sub sup =>
    simp [Node.markup, Node.kept, keptMarkups, keptMarkups_markups base, keptMarkups_markups sub,
      keptMarkups_markups sup, dropLayout_markups]
  | .radical base none =>
    simp [Node.markup, Node.kept, keptLimit, keptMarkups, keptMarkups_markups base,
      dropLayout_markups]
  | .radical base (some degree) =>
    simp [Node.markup, Node.kept, keptLimit, keptMarkups, keptMarkups_markups base,
      keptMarkups_markups degree, dropLayout_markups]
  | .delimited content kind =>
    simp [Node.markup, Node.kept, keptMarkups, keptMarkups_markups content, dropLayout_markups]
  | .nary symbol operand sub sup =>
    simp [Node.markup, Node.kept, keptMarkups, keptMarkups_markups operand,
      keptMarkups_limitMarkups sub, keptMarkups_limitMarkups sup, dropLayout_markups,
      dropLayout_limitMarkups]
  | .accent mark base =>
    simp [Node.markup, Node.kept, keptMarkups, keptMarkups_markups base, dropLayout_markups]
  | .matrix rows properties =>
    simp [Node.markup, Node.kept, keptMarkups_markups properties, keptMarkups_rowMarkups rows,
      dropLayout_matrix]
  | .property name attributes children text =>
    have hchildren := keptMarkups_markups children
    simp only [Node.markup, Node.kept, keptMarkup, keptMarkups_append, keptMarkups_ofText,
      hchildren, dropLayout_property, keptText_kepts]

theorem keptMarkups_markups (ns : List Node) : keptMarkups (markups ns) = markups (kepts ns) := by
  match ns with
  | [] => rfl
  | n :: rest => simp [markups, kepts, keptMarkups, keptMarkup_markup n, keptMarkups_markups rest]

theorem keptMarkups_limitMarkups (part : Option (List Node)) :
    keptMarkups (limitMarkups part) = limitMarkups (keptLimit part) := by
  match part with
  | none => rfl
  | some nodes => exact keptMarkups_markups nodes

theorem keptMarkups_rowMarkups (rows : List (List (List Node))) :
    keptMarkups (rowMarkups rows) = rowMarkups (keptRows rows) := by
  match rows with
  | [] => rfl
  | r :: rest =>
    simp [rowMarkups, keptRows, keptMarkups, keptMarkups_cellMarkups r, keptMarkups_rowMarkups rest,
      dropLayout_cellMarkups]

theorem keptMarkups_cellMarkups (cells : List (List Node)) :
    keptMarkups (cellMarkups cells) = cellMarkups (keptCells cells) := by
  match cells with
  | [] => rfl
  | c :: rest =>
    simp [cellMarkups, keptCells, keptMarkups, keptMarkups_markups c, keptMarkups_cellMarkups rest,
      dropLayout_markups]
end

/-- A document keeps the markup of an equation but for its layout. -/
theorem keptMarkup_equationMarkup (nodes : List Node) (display : Bool) :
    keptMarkup (equationMarkup nodes display) = equationMarkup (kepts nodes) display := by
  have hequation :
      keptMarkup (box "oMath" (markups nodes)) = box "oMath" (markups (kepts nodes)) := by
    rw [keptMarkup_box, keptMarkups_markups, dropLayout_markups]
  cases display with
  | false => exact hequation
  | true => simp [equationMarkup, keptMarkups, ← hequation]

end MarkdownDocx.Math
