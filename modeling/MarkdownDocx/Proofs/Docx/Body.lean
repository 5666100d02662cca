import Mathlib.Data.List.Forall2
import MarkdownDocx.Docx.Document
import MarkdownDocx.Proofs.Docx.Equation
import MarkdownDocx.Style.Template

/-!
What the body of a document shows, made with any library whose new parts are as they should be.
Each paragraph and each table that has rows and columns is one element of the body, in order; tables
are rectangular, and every cell holds one paragraph.
-/

set_option autoImplicit false

namespace MarkdownDocx.Docx

open MarkdownDocx.Layout (Paragraph Run Table Element)
open MarkdownDocx.Math (Legal Writables kepts equationMarkup)

/-- Text as the content of a run: tabs and the ends of lines are elements, and so is every stretch
between them. -/
inductive ShowsText : List Char → List Xml.Node → Prop
  | nil : ShowsText [] []
  | tab {r : List Char} {ns : List Xml.Node} (h : ShowsText r ns) :
      ShowsText ('\t' :: r) (wordBox "tab" [] [] :: ns)
  | feed {c : Char} {r : List Char} {ns : List Xml.Node} (hc : c = '\n' ∨ c = '\r')
      (h : ShowsText r ns) : ShowsText (c :: r) (wordBox "br" [] [] :: ns)
  | stretch {cs r : List Char} {ns : List Xml.Node} (hne : cs ≠ [])
      (hcs : ∀ c ∈ cs, isBreak c = false) (hr : ∀ c ∈ r.head?, isBreak c = true)
      (h : ShowsText r ns) :
      ShowsText (cs ++ r)
        (.element (Xml.wordName "t") (if Text.trim cs = cs then [] else [preserveSpace])
          [.text (String.ofList cs)] :: ns)

/-- Bold and italics where they are switched on, and nothing else. -/
def switchedOn : Bool → Bool → List Xml.Node
  | false, false => []
  | true, false => [wordBox "rPr" [] [wordBox "b" [] []]]
  | false, true => [wordBox "rPr" [] [wordBox "i" [] []]]
  | true, true => [wordBox "rPr" [] [wordBox "b" [] [], wordBox "i" [] []]]

inductive ShowsRun : Run → Xml.Node → Prop
  | text {value : String} {bold italic : Bool} {content : List Xml.Node}
      (h : ShowsText value.toList content) :
      ShowsRun (.text value bold italic) (wordBox "r" [] (switchedOn bold italic ++ content))
  | equation {nodes : List Math.Node} {display : Bool} {formula : String} :
      ShowsRun (.equation nodes display formula) (equationMarkup (kepts nodes) display)

/-- A paragraph is shown by its style's name, among other properties, and then run by run. -/
inductive ShowsParagraph : Paragraph → Xml.Node → Prop
  | mk {p : Paragraph} {properties runs : List Xml.Node} (h : List.Forall₂ ShowsRun p.runs runs) :
      ShowsParagraph p (wordBox "p" []
        (wordBox "pPr" [] (wordValue "pStyle" (styleId p.style) :: properties) :: runs))

/-- A cell holds one paragraph, which is empty where the row has no cell. -/
inductive ShowsCell : Option Paragraph → Xml.Node → Prop
  | filled {p : Paragraph} {properties : List Xml.Node} {x : Xml.Node} (h : ShowsParagraph p x) :
      ShowsCell (some p) (wordBox "tc" [] [wordBox "tcPr" [] properties, x])
  | empty {properties : List Xml.Node} :
      ShowsCell none (wordBox "tc" [] [wordBox "tcPr" [] properties, wordBox "p" [] []])

/-- A row has a cell for every column; if it is a header, it says so before them. -/
inductive ShowsRow (columns : Nat) : Layout.Row → Xml.Node → Prop
  | mk {row : Layout.Row} {cells : List Xml.Node} (hlength : cells.length = columns)
      (h : ∀ i (hi : i < cells.length), ShowsCell row.cells[i]? cells[i]) :
      ShowsRow columns row (wordBox "tr" []
        ((if row.header then [wordBox "trPr" [] [wordValue "tblHeader" "true"]] else []) ++ cells))

/-- A table has as many columns as its longest row has cells. -/
inductive ShowsTable : Table → Xml.Node → Prop
  | mk {t : Table} {columns : Nat} {properties grid rows : List Xml.Node}
      (hlongest : ∃ row ∈ t.rows, row.cells.length = columns)
      (hall : ∀ row ∈ t.rows, row.cells.length ≤ columns)
      (h : List.Forall₂ (ShowsRow columns) t.rows rows) :
      ShowsTable t (wordBox "tbl" []
        (wordBox "tblPr" [] properties :: wordBox "tblGrid" [] grid :: rows))

/-- A table all of whose rows are empty is not shown. -/
inductive ShowsElement : Element → List Xml.Node → Prop
  | paragraph {p : Paragraph} {x : Xml.Node} (h : ShowsParagraph p x) :
      ShowsElement (.paragraph p) [x]
  | table {t : Table} {x : Xml.Node} (hcells : ∃ row ∈ t.rows, row.cells ≠ [])
      (h : ShowsTable t x) : ShowsElement (.table t) [x]
  | bare {t : Table} (hcells : ∀ row ∈ t.rows, row.cells = []) : ShowsElement (.table t) []

/-- A row of cells with an empty paragraph each. -/
structure RowPart.Vacant (columns : Nat) (row : RowPart) : Prop where
  properties : row.properties = []
  length : row.cells.length = columns
  paragraphs : ∀ cell ∈ row.cells, cell.paragraphs = [{}]

/-- The new parts of a library: an empty paragraph, a table that is a grid of vacant cells and
remains one when its columns are fitted, and runs of legal text. -/
structure Library.Lawful (library : Library) : Prop where
  paragraph : library.paragraph = {}
  length : ∀ width rows columns, (library.table width rows columns).rows.length = rows
  vacant : ∀ width rows columns, ∀ row ∈ (library.table width rows columns).rows,
    row.Vacant columns
  autofit : ∀ t, (library.autofit t).rows = t.rows
  run : ∀ text, Legal text →
    ∃ r, library.run text = .ok r ∧ r.format = {} ∧ ShowsText text.toList r.contents

/-! Elements that can be shown. -/

/-- Indents that fit into a document, in English metric units. -/
structure Fits (i : Layout.Indent) : Prop where
  left : ∀ n ∈ i.left, -0x80000000 ≤ 635 * n ∧ 635 * n ≤ 0x7fffffff
  firstLine : ∀ n ∈ i.firstLine, 635 * n.natAbs ≤ 0xffffffffffffffff

/-- Text of legal characters, or an equation of legal strings that is not nested too deep. -/
def RunWritable : Run → Prop
  | .text value _ _ => Legal value
  | .equation nodes display _ =>
    Writables nodes ∧ (equationMarkup nodes display).depth ≤ Xml.greatestDepth

structure ParagraphWritable (p : Paragraph) : Prop where
  runs : ∀ r ∈ p.runs, RunWritable r
  indent : ∀ i ∈ p.indent, Fits i

def ElementWritable : Element → Prop
  | .paragraph p => ParagraphWritable p
  | .table t => Legal t.border.style ∧ Legal t.border.color ∧
      ∀ row ∈ t.rows, ∀ p ∈ row.cells, ParagraphWritable p

/-! Lists. -/

theorem exists_mapM_eq_ok {α β ε : Type} {f : α → Except ε β} {R : α → β → Prop} {xs : List α}
    (h : ∀ x ∈ xs, ∃ y, f x = .ok y ∧ R x y) :
    ∃ ys, xs.mapM f = .ok ys ∧ List.Forall₂ R xs ys := by
  induction xs with
  | nil => exact ⟨[], rfl, .nil⟩
  | cons x rest ih =>
    obtain ⟨y, hy, hR⟩ := h x List.mem_cons_self
    obtain ⟨ys, hys, hrest⟩ := ih fun z hz => h z (List.mem_cons_of_mem x hz)
    refine ⟨y :: ys, ?_, .cons hR hrest⟩
    simp only [List.mapM_cons, hy, hys]
    rfl

/-- Steps that each extend a state by something make it a state extended by all of these. -/
theorem exists_foldlM_eq_ok {σ α β ε : Type} {f : σ → α → Except ε σ} {extend : σ → β → σ}
    {R : α → β → Prop} {xs : List α}
    (h : ∀ s, ∀ x ∈ xs, ∃ y, f s x = .ok (extend s y) ∧ R x y) (s : σ) :
    ∃ ys, xs.foldlM f s = .ok (ys.foldl extend s) ∧ List.Forall₂ R xs ys := by
  induction xs generalizing s with
  | nil => exact ⟨[], rfl, .nil⟩
  | cons x rest ih =>
    obtain ⟨y, hy, hR⟩ := h s x List.mem_cons_self
    obtain ⟨ys, hys, hrest⟩ := ih (fun s z hz => h s z (List.mem_cons_of_mem x hz)) (extend s y)
    refine ⟨y :: ys, ?_, .cons hR hrest⟩
    rw [List.foldlM_cons, hy]
    exact hys

/-! Text. -/

theorem showsText_textMarkup_append {cs r : List Char} {ns : List Xml.Node}
    (hcs : ∀ c ∈ cs, isBreak c = false) (hr : ∀ c ∈ r.head?, isBreak c = true)
    (h : ShowsText r ns) : ShowsText (cs ++ r) (textMarkup cs ++ ns) := by
  cases cs with
  | nil => exact h
  | cons c rest =>
    have hstretch := ShowsText.stretch (List.cons_ne_nil c rest) hcs hr h
    have hmarkup : textMarkup (c :: rest) =
        [.element (Xml.wordName "t")
          (if Text.trim (c :: rest) = c :: rest then [] else [preserveSpace])
          [.text (String.ofList (c :: rest))]] := by
      unfold textMarkup
      by_cases htrim : Text.trim (c :: rest) = c :: rest <;> simp [htrim, wordBox, spacedText]
    rw [hmarkup]
    exact hstretch

theorem showsText_break {c : Char} {r : List Char} {ns : List Xml.Node} (hc : isBreak c = true)
    (h : ShowsText r ns) : ShowsText (c :: r) (breakMarkup c :: ns) := by
  by_cases htab : c = '\t'
  · subst htab
    exact .tab h
  · have hfeed : c = '\n' ∨ c = '\r' := by simpa [isBreak, htab] using hc
    simpa [breakMarkup, htab] using ShowsText.feed hfeed h

/-- The text before `cs` belongs to the stretch that `cs` begins with. -/
theorem showsText_splitBreaks (before cs : List Char)
    (h : ∀ c ∈ before, isBreak c = false) :
    ShowsText (before ++ cs) (textMarkup (before ++ (splitBreaks cs).1) ++
      (splitBreaks cs).2.flatMap fun b => breakMarkup b.1 :: textMarkup b.2) := by
  induction cs generalizing before with
  | nil =>
    simpa [splitBreaks] using showsText_textMarkup_append h (by simp) .nil
  | cons c r ih =>
    by_cases hc : isBreak c = true
    · have hr : ShowsText r _ := ih [] (by simp)
      have hbreak := showsText_break hc hr
      simpa [splitBreaks, hc] using showsText_textMarkup_append h (by simpa using hc) hbreak
    · have hbefore : ∀ d ∈ before ++ [c], isBreak d = false := by
        simpa [or_imp, forall_and, hc] using h
      simpa [splitBreaks, hc] using ih _ hbefore

theorem showsText_contentMarkup (cs : List Char) : ShowsText cs (contentMarkup cs) :=
  showsText_splitBreaks [] cs (by simp)

theorem vacant_newTable (width : Length) (rows columns : Nat) {row : RowPart}
    (h : row ∈ (newTable width rows columns).rows) : row.Vacant columns := by
  obtain rfl := List.eq_of_mem_replicate h
  refine ⟨rfl, List.length_replicate, fun cell hcell => ?_⟩
  rw [List.eq_of_mem_replicate hcell]
  rfl

theorem library_lawful : library.Lawful where
  paragraph := rfl
  length := fun _ _ _ => List.length_replicate
  vacant := fun width rows columns _ => vacant_newTable width rows columns
  autofit := fun _ => rfl
  run := fun text h => by
    have hlegal : legalText text = .ok () := mapError_eq_ok_iff.2 (Math.checkText_eq_ok_iff.2 h)
    refine ⟨{ contents := contentMarkup text.toList }, ?_, rfl, showsText_contentMarkup _⟩
    simp only [library, newRun, hlegal]
    rfl

/-! Runs and paragraphs. -/

theorem exists_writtenTwips (range : Range) (l : Length)
    (h : range.least ≤ l.units ∧ l.units ≤ range.greatest) : ∃ n, writtenTwips range l = .ok n := by
  have hchecked : l.checked range = .ok l := by simp [Length.checked, h]
  exact ⟨l.twips, by simp only [writtenTwips, hchecked]; rfl⟩

theorem exists_firstLineTwips {n : Int} (h : 635 * n.natAbs ≤ 0xffffffffffffffff) :
    ∃ k, firstLineTwips n = .ok k := by
  unfold firstLineTwips
  split
  · obtain ⟨k, hk⟩ := exists_writtenTwips unsigned64 (.ofTwips (-n))
      (by simp only [unsigned64, Length.ofTwips]; omega)
    exact ⟨-k, by simp [hk, Except.map]⟩
  · exact exists_writtenTwips _ _ (by simp only [unsigned64, Length.ofTwips]; omega)

theorem exists_setLeft (p : ParagraphPart) {n : Int}
    (h : -0x80000000 ≤ 635 * n ∧ 635 * n ≤ 0x7fffffff) :
    ∃ f, p.setLeft n = .ok { p with format := f } := by
  obtain ⟨k, hk⟩ := exists_writtenTwips signed32 (.ofTwips n) h
  exact ⟨_, by simp only [ParagraphPart.setLeft, hk]; rfl⟩

theorem exists_setFirstLine (p : ParagraphPart) {n : Int}
    (h : 635 * n.natAbs ≤ 0xffffffffffffffff) :
    ∃ f, p.setFirstLine n = .ok { p with format := f } := by
  obtain ⟨k, hk⟩ := exists_firstLineTwips h
  exact ⟨_, by simp only [ParagraphPart.setFirstLine, hk]; rfl⟩

/-- Indents change nothing but the format. -/
theorem exists_setIndent (p : ParagraphPart) {i : Layout.Indent} (h : Fits i) :
    ∃ f, p.setIndent i = .ok { p with format := f } := by
  obtain ⟨left, firstLine⟩ := i
  cases left with
  | none =>
    cases firstLine with
    | none => exact ⟨p.format, rfl⟩
    | some n => exact exists_setFirstLine p (h.firstLine n rfl)
  | some m =>
    obtain ⟨f, hf⟩ := exists_setLeft p (h.left m rfl)
    cases firstLine with
    | none => exact ⟨f, by simp only [ParagraphPart.setIndent, hf]; rfl⟩
    | some n =>
      obtain ⟨g, hg⟩ := exists_setFirstLine { p with format := f } (h.firstLine n rfl)
      exact ⟨g, by simp only [ParagraphPart.setIndent, hf]; exact hg⟩

/-- Only the style and the format of a paragraph are changed before its runs are added. -/
theorem exists_fillParagraph_eq (library : Library) (p : ParagraphPart) {element : Paragraph}
    (h : ∀ i ∈ element.indent, Fits i) :
    ∃ f, fillParagraph library p element = element.runs.foldlM (addRun library)
      { p with style := some (styleId element.style), format := f } := by
  obtain ⟨runs, style, indent, alignment⟩ := element
  cases indent with
  | none => cases alignment <;> exact ⟨_, rfl⟩
  | some i =>
    cases alignment with
    | none =>
      obtain ⟨f, hf⟩ := exists_setIndent { p with style := some (styleId style) } (h i rfl)
      exact ⟨f, by simp only [fillParagraph, hf]; rfl⟩
    | some a =>
      obtain ⟨f, hf⟩ := exists_setIndent
        { p with style := some (styleId style), format := { p.format with alignment := some a } }
        (h i rfl)
      exact ⟨f, by simp only [fillParagraph, hf]; rfl⟩

theorem equationRunMarkup_eq {nodes : List Math.Node} (display : Bool) (h : Writables nodes) :
    equationRunMarkup nodes display =
      if Xml.greatestDepth < (equationMarkup nodes display).depth then .error .tooDeep
      else .ok (equationMarkup (kepts nodes) display) := by
  have hwrite : (Math.writeEquation nodes display).mapError Error.illegal = .ok _ :=
    mapError_eq_ok_iff.2 (Math.writeEquation_eq_ok h display)
  simp only [equationRunMarkup, hwrite, ← Math.keptMarkup_equationMarkup]
  rfl

theorem markup_switchOn {r : RunPart} (h : r.format = {}) (bold italic : Bool) :
    (r.switchOn bold italic).markup = wordBox "r" [] (switchedOn bold italic ++ r.contents) := by
  simp only [RunPart.switchOn, h]
  cases bold <;> cases italic <;> rfl

theorem foldl_append (p : ParagraphPart) (xs : List Xml.Node) :
    xs.foldl ParagraphPart.append p = { p with contents := p.contents ++ xs } := by
  induction xs generalizing p with
  | nil => simp
  | cons x rest ih => simp [ih, ParagraphPart.append]

/-- A paragraph with a style says so before all else. -/
theorem exists_markup_eq (id : String) (format : ParagraphFormat) (contents : List Xml.Node) :
    ∃ properties, ParagraphPart.markup ⟨some id, format, contents⟩ =
      wordBox "p" [] (wordBox "pPr" [] (wordValue "pStyle" id :: properties) :: contents) := by
  simp only [ParagraphPart.markup, reduceCtorEq, false_and, if_false]
  exact ⟨_, rfl⟩

section Library

variable {library : Library} (hlibrary : library.Lawful)
include hlibrary

theorem addRun_shows (p : ParagraphPart) {r : Run} (h : RunWritable r) :
    ∃ x, addRun library p r = .ok (p.append x) ∧ ShowsRun r x := by
  cases r with
  | text value bold italic =>
    obtain ⟨part, hpart, hformat, hcontents⟩ := hlibrary.run value h
    refine ⟨(part.switchOn bold italic).markup, by simp only [addRun, hpart]; rfl, ?_⟩
    rw [markup_switchOn hformat]
    exact .text hcontents
  | equation nodes display formula =>
    obtain ⟨hnodes, hdepth⟩ := h
    refine ⟨equationMarkup (kepts nodes) display, ?_, .equation⟩
    simp only [addRun, equationRunMarkup_eq display hnodes, if_neg (Nat.not_lt.2 hdepth)]
    rfl

theorem foldlM_addRun_shows (p : ParagraphPart) {runs : List Run} (h : ∀ r ∈ runs, RunWritable r) :
    ∃ xs, runs.foldlM (addRun library) p = .ok { p with contents := p.contents ++ xs } ∧
      List.Forall₂ ShowsRun runs xs := by
  obtain ⟨xs, hxs, hshows⟩ :=
    exists_foldlM_eq_ok (R := ShowsRun) (fun q r hr => addRun_shows hlibrary q (h r hr)) p
  exact ⟨xs, by rw [hxs, foldl_append], hshows⟩

/-- An empty paragraph is filled with what the element has. -/
theorem fillParagraph_shows {p : ParagraphPart} (hempty : p.contents = []) {element : Paragraph}
    (h : ParagraphWritable element) :
    ∃ q, fillParagraph library p element = .ok q ∧ ShowsParagraph element q.markup := by
  obtain ⟨f, hf⟩ := exists_fillParagraph_eq library p h.indent
  obtain ⟨xs, hxs, hshows⟩ := foldlM_addRun_shows hlibrary
    { p with style := some (styleId element.style), format := f } h.runs
  obtain ⟨properties, hmarkup⟩ := exists_markup_eq (styleId element.style) f xs
  refine ⟨⟨some (styleId element.style), f, xs⟩, ?_, ?_⟩
  · rw [hf, hxs, hempty, List.nil_append]
  · rw [hmarkup]
    exact .mk hshows

end Library

/-! Tables. -/

theorem length_le_columns {t : Table} {row : Layout.Row} (h : row ∈ t.rows) :
    row.cells.length ≤ t.columns := by
  unfold Table.columns
  generalize t.rows = rows at h ⊢
  induction rows with
  | nil => simp at h
  | cons r rest ih =>
    simp only [List.foldr_cons]
    rcases List.mem_cons.1 h with rfl | hrest
    · omega
    · have := ih hrest
      omega

theorem exists_length_eq_columns {t : Table} (h : t.rows ≠ []) :
    ∃ row ∈ t.rows, row.cells.length = t.columns := by
  unfold Table.columns
  generalize t.rows = rows at h ⊢
  induction rows with
  | nil => contradiction
  | cons r rest ih =>
    simp only [List.foldr_cons]
    by_cases hlonger : rest.foldr (fun r n => max r.cells.length n) 0 ≤ r.cells.length
    · exact ⟨r, List.mem_cons_self, (Nat.max_eq_left hlonger).symm⟩
    · have hrest : rest ≠ [] := fun hnil => hlonger (by simp [hnil])
      obtain ⟨row, hrow, hlength⟩ := ih hrest
      exact ⟨row, List.mem_cons_of_mem r hrow, by omega⟩

theorem columns_eq_zero_iff {t : Table} : t.columns = 0 ↔ ∀ row ∈ t.rows, row.cells = [] := by
  constructor
  · intro hzero row hrow
    have hle := length_le_columns hrow
    exact List.length_eq_zero_iff.1 (by omega)
  · intro hbare
    by_cases hrows : t.rows = []
    · simp [Table.columns, hrows]
    · obtain ⟨row, hrow, hlength⟩ := exists_length_eq_columns hrows
      simpa [hbare row hrow] using hlength.symm

theorem exists_setBorders (t : TablePart) {b : Layout.Border} (hstyle : Legal b.style)
    (hcolor : Legal b.color) : ∃ ps, t.setBorders b = .ok { t with properties := ps } := by
  have hs : legalText b.style = .ok () := mapError_eq_ok_iff.2 (Math.checkText_eq_ok_iff.2 hstyle)
  have hc : legalText b.color = .ok () := mapError_eq_ok_iff.2 (Math.checkText_eq_ok_iff.2 hcolor)
  exact ⟨_, by simp only [TablePart.setBorders, edgeMarkups, hs, hc]; rfl⟩

section Library

variable {library : Library} (hlibrary : library.Lawful)
include hlibrary

/-- The cell at an index shows what the row has there. -/
theorem fillCell_shows {row : Layout.Row} (hrow : ∀ p ∈ row.cells, ParagraphWritable p)
    (index : Nat) {cell : CellPart} (hcell : cell.paragraphs = [{}]) :
    ∃ c, fillCell library row index cell = .ok c ∧ ShowsCell row.cells[index]? c.markup := by
  by_cases hindex : index < row.cells.length
  · obtain ⟨q, hq, hshows⟩ :=
      @fillParagraph_shows library hlibrary {} rfl _ (hrow _ (List.getElem_mem hindex))
    refine ⟨{ cell with alignment := some "center", paragraphs := [q] }, ?_, ?_⟩
    · simp only [fillCell, hindex, hcell, hq, dite_true]
      rfl
    · rw [List.getElem?_eq_getElem hindex]
      exact .filled hshows
  · refine ⟨{ cell with alignment := some "center" }, ?_, ?_⟩
    · simp only [fillCell, hindex, dite_false]
    · rw [List.getElem?_eq_none (Nat.not_lt.1 hindex), CellPart.markup, hcell]
      exact .empty

theorem fillRow_shows {columns : Nat} {row : Layout.Row}
    (hrow : ∀ p ∈ row.cells, ParagraphWritable p) {part : RowPart} (hpart : part.Vacant columns) :
    ∃ q, fillRow library row part = .ok q ∧ ShowsRow columns row q.markup := by
  obtain ⟨cells, hcells, hshows⟩ := exists_mapM_eq_ok (f := fun c => fillCell library row c.2 c.1)
    (R := fun c x => ShowsCell row.cells[c.2]? x.markup) fun c hc =>
      fillCell_shows hlibrary hrow c.2 (hpart.paragraphs c.1 (List.fst_mem_of_mem_zipIdx hc))
  have hlength : part.cells.length = cells.length := by simpa using hshows.length_eq
  have hshown : ShowsRow columns row (wordBox "tr" []
      ((if row.header then [wordBox "trPr" [] [wordValue "tblHeader" "true"]] else []) ++
        cells.map CellPart.markup)) := by
    refine .mk (by rw [List.length_map, ← hlength, hpart.length]) fun i hi => ?_
    have hi' : i < cells.length := by simpa using hi
    have hcell := hshows.get (show i < part.cells.zipIdx.length by simpa [hlength] using hi') hi'
    simpa using hcell
  cases hheader : row.header with
  | false =>
    refine ⟨{ part with cells := cells }, ?_, ?_⟩
    · simp only [fillRow, hheader, Bool.false_eq_true, if_false, hcells]
      rfl
    · simpa [RowPart.markup, propertiesBox, hpart.properties, hheader] using hshown
  | true =>
    refine ⟨{ part.repeatHeader with cells := cells }, ?_, ?_⟩
    · simp only [fillRow, hheader, if_true, RowPart.repeatHeader, hcells]
      rfl
    · simpa [RowPart.markup, RowPart.repeatHeader, propertiesBox, hpart.properties, hheader]
        using hshown

/-- Rows beside as many vacant ones are shown one for one. -/
theorem fillRows_shows {columns : Nat} {rows : List Layout.Row}
    (hrows : ∀ row ∈ rows, ∀ p ∈ row.cells, ParagraphWritable p) {parts : List RowPart}
    (hlength : parts.length = rows.length) (hparts : ∀ part ∈ parts, part.Vacant columns) :
    ∃ filled, fillRows library rows parts = .ok filled ∧
      List.Forall₂ (ShowsRow columns) rows (filled.map RowPart.markup) := by
  -- neither side ends before the other, so no row is left out and no part is left vacant
  induction rows generalizing parts with
  | nil =>
    obtain rfl := List.length_eq_zero_iff.1 hlength
    exact ⟨[], rfl, .nil⟩
  | cons row rows ih =>
    obtain ⟨part, parts, rfl⟩ := List.exists_cons_of_length_eq_add_one hlength
    obtain ⟨q, hq, hshows⟩ := fillRow_shows hlibrary (hrows row (by simp)) (hparts part (by simp))
    obtain ⟨filled, hfilled, hrest⟩ := ih (fun r hr => hrows r (by simp [hr]))
      (by simpa using hlength) fun p hp => hparts p (by simp [hp])
    refine ⟨q :: filled, ?_, .cons hshows hrest⟩
    simp only [fillRows, hq, hfilled]
    rfl

theorem addTable_shows (width : Length) (body : List BodyPart) {t : Table}
    (h : ElementWritable (.table t)) :
    ∃ parts, addTable library width body t = .ok (body ++ parts) ∧
      ShowsElement (.table t) (parts.map BodyPart.markup) := by
  by_cases hbare : ∀ row ∈ t.rows, row.cells = []
  · exact ⟨[], by simp [addTable, columns_eq_zero_iff.2 hbare], .bare hbare⟩
  · have hcolumns : t.columns ≠ 0 := fun hzero => hbare (columns_eq_zero_iff.1 hzero)
    have hcells : ∃ row ∈ t.rows, row.cells ≠ [] := by simpa using hbare
    have hrows : t.rows ≠ [] := fun hnil => by simp [hnil] at hcells
    obtain ⟨hstyle, hcolor, hwritable⟩ := h
    let part := library.autofit (library.table width t.rows.length t.columns)
    have hgrid : part.rows = (library.table width t.rows.length t.columns).rows :=
      hlibrary.autofit _
    obtain ⟨ps, hborders⟩ := exists_setBorders part hstyle hcolor
    obtain ⟨filled, hfilled, hshows⟩ := fillRows_shows hlibrary hwritable
      (hlibrary.length width t.rows.length t.columns) (hlibrary.vacant width t.rows.length t.columns)
    let sized : TablePart := TablePart.setWidth { part with properties := ps } t.width
    have htable : addTable library width body t =
        .ok (body ++ [.table { sized with rows := filled }]) := by
      have hempty : t.rows.isEmpty = false := List.isEmpty_eq_false_iff.2 hrows
      have hsized : fillRows library t.rows sized.rows = .ok filled := by
        rw [show sized.rows = (library.table width t.rows.length t.columns).rows from hgrid, hfilled]
      simp only [addTable, hempty, hcolumns, decide_false, Bool.or_self, Bool.false_eq_true,
        if_false]
      exact except_bind_eq_ok_iff.2 ⟨_, hborders, except_bind_eq_ok_iff.2 ⟨filled, hsized, rfl⟩⟩
    exact ⟨_, htable, .table hcells (.mk (exists_length_eq_columns hrows)
      (fun row hrow => length_le_columns hrow) hshows)⟩

theorem addElement_shows (width : Length) (body : List BodyPart) {e : Element}
    (h : ElementWritable e) :
    ∃ parts, addElement library width body e = .ok (body ++ parts) ∧
      ShowsElement e (parts.map BodyPart.markup) := by
  cases e with
  | table t => exact addTable_shows hlibrary width body h
  | paragraph p =>
    obtain ⟨q, hq, hshows⟩ := fillParagraph_shows hlibrary (congrArg _ hlibrary.paragraph) h
    refine ⟨[.paragraph q], ?_, .paragraph hshows⟩
    simp only [addElement, hq]
    rfl

theorem foldlM_addElement_shows (width : Length) {elements : List Element}
    (h : ∀ e ∈ elements, ElementWritable e) :
    ∃ parts : List (List BodyPart),
      elements.foldlM (addElement library width) [] = .ok parts.flatten ∧
        List.Forall₂ ShowsElement elements (parts.map (List.map BodyPart.markup)) := by
  obtain ⟨parts, hparts, hshows⟩ := exists_foldlM_eq_ok
    (R := fun e (parts : List BodyPart) => ShowsElement e (parts.map BodyPart.markup))
    (fun body e he => addElement_shows hlibrary width body (h e he)) []
  have hflatten : parts.foldl (· ++ ·) [] = parts.flatten := by
    simpa using @List.foldl_append_eq_append _ _ parts id []
  exact ⟨parts, by rw [hparts, hflatten], List.forall₂_map_right_iff.2 hshows⟩

end Library

/-- Whether styles and settings can be applied does not depend on the elements. -/
theorem build_eq {library : Library} {styles : Option Style.StyleTable}
    {settings : Option Style.Settings} {d : Document} (h : build library styles settings [] = .ok d)
    (elements : List Element) :
    build library styles settings elements =
      (elements.foldlM (addElement library (textWidth d.margins)) []).map fun body =>
        { d with body := body.map BodyPart.markup } := by
  simp only [build, except_bind_eq_ok_iff] at h
  obtain ⟨defined, hdefined, margins, hmargins, footer, hfooter, body, -, hd⟩ := h
  cases hd
  simp only [build, hdefined, hmargins, hfooter, bind, Except.bind]
  cases elements.foldlM (addElement library (textWidth margins)) [] <;> rfl

theorem runWritable_text {value : String} (h : Legal value) (bold italic : Bool) :
    RunWritable (.text value bold italic) := h

/-- A heading with a tab and an equation, a ragged table that has a header and an empty row, and a
table without cells. -/
def raggedElements : List Element :=
  [.paragraph
      { runs := [.text "a\tb" true false, .equation [.superscript [.run "x"] [.run "2"]] true "x^2"]
        style := .heading1
        indent := some { left := some 720, firstLine := some (-360) } },
    .table { rows := [{ cells := [{ runs := [.text "h" false false] }], header := true }, {},
      { cells := [{}, { runs := [.text " c\n" false true] }] }] },
    .table {}]

theorem exists_build_government : ∃ d,
    build library (some Style.government.styles) (some Style.government.settings) [] = .ok d :=
  exists_eq_ok (by decide +kernel)

theorem writable_raggedElements : ∀ e ∈ raggedElements, ElementWritable e := by
  have hempty : ParagraphWritable {} := ⟨by simp, by simp⟩
  have htext (s : String) (h : Legal s) (bold italic : Bool) :
      ParagraphWritable { runs := [.text s bold italic] } :=
    ⟨List.forall_mem_singleton.2 (runWritable_text h bold italic), by simp⟩
  have hpower : Writables [.superscript [.run "x"] [.run "2"]] :=
    ⟨⟨⟨Math.writable_run (by decide), trivial⟩, Math.writable_run (by decide), trivial⟩, trivial⟩
  have hequation : RunWritable (.equation [.superscript [.run "x"] [.run "2"]] true "x^2") :=
    ⟨hpower, by decide⟩
  have hfits : Fits { left := some 720, firstLine := some (-360) } := ⟨by simp, by simp⟩
  simp only [raggedElements, List.forall_mem_cons, ElementWritable]
  refine ⟨⟨?_, by simpa using hfits⟩, ⟨by decide, by decide, ?_, ?_, ?_⟩,
    ⟨by decide, by decide, ?_⟩, ?_⟩
  · simpa using And.intro (runWritable_text (show Legal "a\tb" by decide) true false) hequation
  · simpa using htext "h" (by decide) false false
  · simp
  · simpa using ⟨hempty, htext " c\n" (by decide) false true⟩
  · simp
  · simp

/-- A property whose text is a space and stands in front of a run. -/
def spacedProperty : Math.Node := .property "box" [] [.run "x"] (some " ")

end MarkdownDocx.Docx
