import Mathlib.Data.List.Forall2
import MarkdownDocx.Layout.Flow

/-!
Laying out a document loses, repeats and moves nothing. The leaves of a tree are its texts, and the
pieces of a tree are the paragraphs and tables that its leaves come in. Neither knows of lists,
quotes and the styles and indents that they bring about; the elements say the pieces one by one.
-/

set_option autoImplicit false

namespace MarkdownDocx.Layout

open MarkdownDocx.Markdown (Inline Block)
open MarkdownDocx.Number (NotIntegral)

mutual
/-- The texts of an inline node, from left to right. -/
def inlineLeaves : Inline → List String
  | .text value => [value]
  | .strong children => inlinesLeaves children
  | .emphasis children => inlinesLeaves children
  | .code value => [value]
  | .link _ children => inlinesLeaves children
  | .math formula => [formula]
  | .unsupported _ _ => []

def inlinesLeaves : List Inline → List String
  | [] => []
  | i :: rest => inlineLeaves i ++ inlinesLeaves rest
end

def htmlLines (value : String) : List String := (Text.lines value.toList).map String.ofList

mutual
/-- The texts of a block, depth first and from left to right. -/
def blockLeaves : Block → List String
  | .heading _ children => inlinesLeaves children
  | .paragraph children => inlinesLeaves children
  | .list _ _ items => itemsLeaves items
  | .item children => blocksLeaves children
  | .table _ rows => rows.flatMap fun row => row.flatMap inlinesLeaves
  | .quote children => blocksLeaves children
  | .html value => htmlLines value
  | .math formula _ => [formula]
  | .unsupported _ _ => []

def blocksLeaves : List Block → List String
  | [] => []
  | b :: rest => blockLeaves b ++ blocksLeaves rest

def itemsLeaves : List (List Block) → List String
  | [] => []
  | item :: rest => blocksLeaves item ++ itemsLeaves rest
end

/-- What one paragraph or one table has to say. -/
inductive Piece where
  /-- Texts in a row, behind a list marker if there is one. -/
  | prose (marker : Option String) (leaves : List String)
  /-- A formula on its own. -/
  | formula (source : String)
  /-- A line of block HTML. -/
  | line (text : String)
  /-- The texts of every cell, row by row. -/
  | table (rows : List (List (List String)))
  deriving DecidableEq, Repr

def Piece.marker : Piece → Option String
  | .prose marker _ => marker
  | _ => none

def Piece.leaves : Piece → List String
  | .prose _ leaves => leaves
  | .formula source => [source]
  | .line text => [text]
  | .table rows => rows.flatMap List.flatten

mutual
def blockPieces : Block → List Piece
  | .heading _ children => [.prose none (inlinesLeaves children)]
  | .paragraph children => [.prose none (inlinesLeaves children)]
  | .list ordered start items => itemsPieces ordered start items
  | .item children => itemPieces none children
  | .table _ rows => [.table (rows.map fun row => row.map inlinesLeaves)]
  | .quote children => blocksPieces children
  | .html value => (htmlLines value).map .line
  | .math formula _ => [.formula formula]
  | .unsupported _ _ => []

def blocksPieces : List Block → List Piece
  | [] => []
  | b :: rest => blockPieces b ++ blocksPieces rest

/-- The pieces of a list item. A marker goes to the paragraph that comes first. -/
def itemPieces (marker : Option String) : List Block → List Piece
  | [] => []
  | .paragraph children :: rest => .prose marker (inlinesLeaves children) :: blocksPieces rest
  | b :: rest => blockPieces b ++ blocksPieces rest

def itemsPieces (ordered : Bool) (number : Int) : List (List Block) → List Piece
  | [] => []
  | item :: rest =>
    itemPieces (some (listMarker ordered number)) item ++ itemsPieces ordered (number + 1) rest
end

@[simp] theorem itemPieces_none (bs : List Block) : itemPieces none bs = blocksPieces bs := by
  cases bs with
  | nil => simp [itemPieces, blocksPieces]
  | cons b rest => cases b <;> simp [itemPieces, blocksPieces, blockPieces]

/-! ## The pieces hold the leaves -/

theorem map_line_leaves (texts : List String) :
    (texts.map Piece.line).flatMap Piece.leaves = texts := by
  induction texts with
  | nil => rfl
  | cons t rest ih => simp [Piece.leaves, ih]

mutual
theorem blockPieces_leaves : ∀ b : Block, (blockPieces b).flatMap Piece.leaves = blockLeaves b
  | .heading _ _ => by simp [blockPieces, blockLeaves, Piece.leaves]
  | .paragraph _ => by simp [blockPieces, blockLeaves, Piece.leaves]
  | .list ordered start items => by
    simp [blockPieces, blockLeaves, itemsPieces_leaves ordered start items]
  | .item children => by
    simp [blockPieces, blockLeaves, blocksPieces_leaves children]
  | .table _ rows => by
    simp [blockPieces, blockLeaves, Piece.leaves, List.flatMap_def, Function.comp_def]
  | .quote children => by
    simp [blockPieces, blockLeaves, blocksPieces_leaves children]
  | .html value => by
    simpa [blockPieces, blockLeaves] using map_line_leaves (htmlLines value)
  | .math _ _ => by simp [blockPieces, blockLeaves, Piece.leaves]
  | .unsupported _ _ => by simp [blockPieces, blockLeaves]

theorem blocksPieces_leaves : ∀ bs : List Block,
    (blocksPieces bs).flatMap Piece.leaves = blocksLeaves bs
  | [] => by simp [blocksPieces, blocksLeaves]
  | b :: rest => by
    simp [blocksPieces, blocksLeaves, blockPieces_leaves b, blocksPieces_leaves rest]

/-- A marker takes nothing from an item and adds nothing to it. -/
theorem itemPieces_leaves (marker : Option String) : ∀ bs : List Block,
    (itemPieces marker bs).flatMap Piece.leaves = blocksLeaves bs
  | [] => by simp [itemPieces, blocksLeaves]
  | b :: rest => by
    have hb := blockPieces_leaves b
    have hrest := blocksPieces_leaves rest
    cases b with
    | paragraph _ => simp [itemPieces, blocksLeaves, blockLeaves, Piece.leaves, hrest]
    | _ => simp [itemPieces, blocksLeaves, hb, hrest]

theorem itemsPieces_leaves (ordered : Bool) (number : Int) : ∀ items : List (List Block),
    (itemsPieces ordered number items).flatMap Piece.leaves = itemsLeaves items
  | [] => by simp [itemsPieces, itemsLeaves]
  | item :: rest => by
    simp [itemsPieces, itemsLeaves, itemPieces_leaves _ item,
      itemsPieces_leaves ordered (number + 1) rest]
end

/-! ## The runs of inline nodes -/

@[simp] theorem formulaRun_source (drawing : Math.Drawing) (formula : String)
    (display bold : Bool) : (formulaRun drawing formula display bold).source = formula := by
  cases drawing <;> rfl

mutual
theorem inlineRuns_source (tools : Math.Tools) (bold italic : Bool) : ∀ i : Inline,
    (inlineRuns tools bold italic i).2.map Run.source = inlineLeaves i
  | .text _ => by simp [inlineRuns, inlineLeaves, Run.source]
  | .strong children => by
    simp [inlineRuns, inlineLeaves, inlinesRuns_source tools true italic children]
  | .emphasis children => by
    simp [inlineRuns, inlineLeaves, inlinesRuns_source tools bold true children]
  | .code _ => by simp [inlineRuns, inlineLeaves, Run.source]
  | .link _ children => by
    simp [inlineRuns, inlineLeaves, inlinesRuns_source tools bold italic children]
  | .math _ => by simp [inlineRuns, inlineLeaves]
  | .unsupported _ _ => by simp [inlineRuns, inlineLeaves]

theorem inlinesRuns_source (tools : Math.Tools) (bold italic : Bool) : ∀ is : List Inline,
    (inlinesRuns tools bold italic is).2.map Run.source = inlinesLeaves is
  | [] => by simp [inlinesRuns, inlinesLeaves]
  | i :: rest => by
    simp [inlinesRuns, inlinesLeaves, inlineRuns_source tools bold italic i,
      inlinesRuns_source tools bold italic rest]
end

/-! ## The elements say the pieces -/

def Paragraph.sources (p : Paragraph) : List String := p.runs.map Run.source

/-- An element has just what a piece has to say. A formula and a line of HTML are alone in their
paragraph; a table has the rows and the cells of its source. -/
inductive Element.Says : Element → Piece → Prop
  | prose {p : Paragraph} {marker : Option String} {runs : List Run}
      (h : p.runs = markerRuns marker ++ runs) :
      Says (.paragraph p) (.prose marker (runs.map Run.source))
  | formula {p : Paragraph} {run : Run} {source : String} (h : p.runs = [run])
      (hrun : run.source = source) : Says (.paragraph p) (.formula source)
  | line {p : Paragraph} {text : String} (h : p.runs = [.text text false false]) :
      Says (.paragraph p) (.line text)
  | table {t : Table} :
      Says (.table t) (.table (t.rows.map fun row => row.cells.map Paragraph.sources))

/-- Laying out succeeds, with elements that say these pieces in this order. -/
def Says (x : Flow (List Element)) (pieces : List Piece) : Prop :=
  ∃ elements, x.result = .ok elements ∧ List.Forall₂ Element.Says elements pieces

theorem says_nil : Says (pure []) [] := ⟨[], rfl, .nil⟩

theorem Says.append {x y : Flow (List Element)} {ps qs : List Piece} (hx : Says x ps)
    (hy : Says y qs) :
    Says (x >>= fun first => y >>= fun others => pure (first ++ others)) (ps ++ qs) := by
  obtain ⟨first, hfirst, hps⟩ := hx
  obtain ⟨others, hothers, hqs⟩ := hy
  refine ⟨first ++ others, ?_, List.rel_append hps hqs⟩
  simp [Logged.bind, hfirst, hothers]

theorem Says.after {α : Type} {r : Except NotIntegral α} {a : α} {f : α → Flow (List Element)}
    {ps : List Piece} (hr : r = .ok a) (h : Says (f a) ps) : Says (Logged.ofExcept r >>= f) ps := by
  obtain ⟨elements, helements, hps⟩ := h
  refine ⟨elements, ?_, hps⟩
  simp [hr, Logged.ofExcept, helements]

theorem says_paragraphOf (tools : Math.Tools) (children : List Inline)
    {shape : List Run → Paragraph} {marker : Option String}
    (h : ∀ runs, (shape runs).runs = markerRuns marker ++ runs) :
    Says (paragraphOf tools children shape) [.prose marker (inlinesLeaves children)] := by
  refine ⟨_, rfl, .cons ?_ .nil⟩
  rw [← inlinesRuns_source tools false false children]
  exact .prose (h _)

theorem says_formulaParagraph (tools : Math.Tools) (formula : String) (display : Bool) :
    Says (formulaParagraph tools formula display) [.formula formula] := by
  refine ⟨_, rfl, .cons ?_ .nil⟩
  exact .formula rfl (formulaRun_source _ formula display false)

theorem says_htmlParagraphs (value : String) :
    Says (pure (htmlParagraphs value)) ((htmlLines value).map .line) := by
  refine ⟨_, rfl, ?_⟩
  unfold htmlParagraphs htmlLines
  induction Text.lines value.toList with
  | nil => exact .nil
  | cons l rest ih => exact .cons (.line rfl) ih

theorem rowCells_sources (tools : Math.Tools) (header : Bool) (row : Markdown.Row) :
    (rowCells tools header row).2.map Paragraph.sources = row.map inlinesLeaves := by
  induction row with
  | nil => rfl
  | cons cell rest ih =>
    simp [rowCells, ih, Paragraph.sources, cellParagraph, inlinesRuns_source]

theorem tableRows_sources (tools : Math.Tools) (header : Bool) (rows : List Markdown.Row) :
    ((tableRows tools header rows).2.map fun row => row.cells.map Paragraph.sources) =
      rows.map fun row => row.map inlinesLeaves := by
  induction rows generalizing header with
  | nil => rfl
  | cons row rest ih => simp [tableRows, ih, rowCells_sources]

theorem says_tableOf (tools : Math.Tools) (rows : List Markdown.Row) :
    Says (tableOf tools rows) [.table (rows.map fun row => row.map inlinesLeaves)] := by
  refine ⟨_, rfl, .cons ?_ .nil⟩
  rw [← tableRows_sources tools true rows]
  exact .table

theorem itemIndent_ok {base : Except NotIntegral Int} {n : Int} (h : base = .ok n) (level : Nat)
    (quoteLeft : Option Int) : ∃ indent, itemIndent base level quoteLeft = .ok indent := by
  subst h
  cases quoteLeft with
  | none => exact ⟨_, rfl⟩
  | some left => exact ⟨_, rfl⟩

mutual
theorem blockElements_pieces {c : Context} {n : Int} (hc : c.listBase = .ok n) : ∀ b : Block,
    Says (blockElements c b) (blockPieces b)
  | .heading _ children => says_paragraphOf c.tools children fun _ => rfl
  | .paragraph children => says_paragraphOf c.tools children fun _ => rfl
  | .list ordered start items => listElements_pieces hc ordered start 0 none items
  | .item children => by
    obtain ⟨indent, hindent⟩ := itemIndent_ok hc 0 none
    simp only [blockElements, blockPieces]
    exact .after hindent (itemElements_pieces hc none indent 0 none children)
  | .table _ rows => says_tableOf c.tools rows
  | .quote children => quoteElements_pieces hc 1 children
  | .html value => says_htmlParagraphs value
  | .math formula display => says_formulaParagraph c.tools formula display
  | .unsupported _ _ => says_nil

theorem blocksElements_pieces {c : Context} {n : Int} (hc : c.listBase = .ok n) :
    ∀ bs : List Block, Says (blocksElements c bs) (blocksPieces bs)
  | [] => says_nil
  | b :: rest => by
    simp only [blocksElements, blocksPieces]
    exact .append (blockElements_pieces hc b) (blocksElements_pieces hc rest)

theorem listElements_pieces {c : Context} {n : Int} (hc : c.listBase = .ok n) (ordered : Bool)
    (number : Int) (level : Nat) (quoteLeft : Option Int) : ∀ items : List (List Block),
    Says (listElements c ordered number level quoteLeft items) (itemsPieces ordered number items)
  | [] => says_nil
  | item :: rest => by
    obtain ⟨indent, hindent⟩ := itemIndent_ok hc level quoteLeft
    have hitem :=
      itemElements_pieces hc (some (listMarker ordered number)) indent level quoteLeft item
    have hrest := listElements_pieces hc ordered (number + 1) level quoteLeft rest
    simp only [listElements, itemsPieces]
    exact .after hindent (.append hitem hrest)

theorem itemElements_pieces {c : Context} {n : Int} (hc : c.listBase = .ok n)
    (marker : Option String) (indent : Indent) (level : Nat) (quoteLeft : Option Int) :
    ∀ bs : List Block,
    Says (itemElements c marker indent level quoteLeft bs) (itemPieces marker bs)
  | [] => says_nil
  | b :: rest => by
    have hb := blockElements_pieces hc b
    have hrest := itemElements_pieces hc none indent level quoteLeft rest
    -- the marker is spent on the first block, whatever that is
    rw [itemPieces_none] at hrest
    cases b with
    | paragraph children =>
      simp only [itemElements, itemPieces]
      exact .append (says_paragraphOf c.tools children fun _ => rfl) hrest
    | list ordered start items =>
      have hitems := listElements_pieces hc ordered start (level + 1) quoteLeft items
      simp only [itemElements, itemPieces, blockPieces]
      exact .append hitems hrest
    | _ =>
      simp only [itemElements, itemPieces]
      exact .append hb hrest

theorem quoteElements_pieces {c : Context} {n : Int} (hc : c.listBase = .ok n) (depth : Nat) :
    ∀ bs : List Block, Says (quoteElements c depth bs) (blocksPieces bs)
  | [] => says_nil
  | b :: rest => by
    have hb := blockElements_pieces hc b
    have hrest := quoteElements_pieces hc depth rest
    -- a quote lays out four kinds of blocks in its own way; they say no less there
    cases b with
    | paragraph children =>
      simp only [quoteElements, blocksPieces, blockPieces]
      exact .append (says_paragraphOf c.tools children fun _ => rfl) hrest
    | heading _ children =>
      simp only [quoteElements, blocksPieces, blockPieces]
      exact .append (says_paragraphOf c.tools children fun _ => rfl) hrest
    | quote children =>
      simp only [quoteElements, blocksPieces, blockPieces]
      exact .append (quoteElements_pieces hc (depth + 1) children) hrest
    | list ordered start items =>
      have hitems := listElements_pieces hc ordered start 0 (some (quoteIndentStep * depth)) items
      simp only [quoteElements, blocksPieces, blockPieces]
      exact .append hitems hrest
    | _ =>
      simp only [quoteElements, blocksPieces]
      exact .append hb hrest
end

/-! ## The runs without their markers -/

/-- The runs of an element without the one that a list marker has put in front of them. -/
def Element.unmarked (e : Element) (marker : Option String) : List Run :=
  e.runs.drop (markerRuns marker).length

/-- What elements say, piece by piece, without the markers of lists. -/
def unmarkedSources (elements : List Element) (pieces : List Piece) : List String :=
  (List.zipWith (fun e piece => (e.unmarked piece.marker).map Run.source) elements pieces).flatten

theorem cells_sources (cells : List Paragraph) :
    (cells.flatMap Paragraph.runs).map Run.source = (cells.map Paragraph.sources).flatten := by
  induction cells with
  | nil => rfl
  | cons p rest ih => simp [ih, Paragraph.sources]

theorem rows_sources (rows : List Row) :
    ((rows.flatMap Row.cells).flatMap Paragraph.runs).map Run.source =
      (rows.map fun row => row.cells.map Paragraph.sources).flatMap List.flatten := by
  induction rows with
  | nil => rfl
  | cons row rest ih => simp [cells_sources, ih]

theorem Element.Says.leaves {e : Element} {piece : Piece} (h : e.Says piece) :
    (e.unmarked piece.marker).map Run.source = piece.leaves := by
  cases h with
  | prose h => simp [unmarked, Element.runs, paragraphs, Piece.marker, Piece.leaves, h]
  | formula h hrun =>
    simp [unmarked, Element.runs, paragraphs, Piece.marker, Piece.leaves, markerRuns, h, hrun]
  | line h =>
    simp [unmarked, Element.runs, paragraphs, Piece.marker, Piece.leaves, markerRuns, h,
      Run.source]
  | @table t =>
    simpa [unmarked, Element.runs, paragraphs, Piece.marker, Piece.leaves, markerRuns]
      using rows_sources t.rows

theorem unmarkedSources_eq {elements : List Element} {pieces : List Piece}
    (h : List.Forall₂ Element.Says elements pieces) :
    unmarkedSources elements pieces = pieces.flatMap Piece.leaves := by
  induction h with
  | nil => rfl
  | cons he _ ih => simpa [unmarkedSources, he.leaves] using ih

/-- Whatever the tools do, the elements of a document say its pieces, and their runs without the
markers are the leaves of its tree in order, once each. -/
theorem flow_leaves (tools : Math.Tools) (styles : Style.StyleTable) {n : Int}
    (h : listBaseIndent styles = .ok n) (blocks : List Block) :
    ∃ elements, (flow tools styles blocks).result = .ok elements ∧
      List.Forall₂ Element.Says elements (blocksPieces blocks) ∧
      unmarkedSources elements (blocksPieces blocks) = blocksLeaves blocks := by
  have hc : (Context.mk tools (listBaseIndent styles)).listBase = .ok n := h
  obtain ⟨elements, hresult, hpieces⟩ := blocksElements_pieces hc blocks
  refine ⟨elements, hresult, hpieces, ?_⟩
  rw [unmarkedSources_eq hpieces, blocksPieces_leaves]

/-- Tools that can draw nothing. -/
def blankTools : Math.Tools where
  render _ _ := .ok ""
  transduce _ := .error ⟨"RuntimeError", "xslt"⟩
  markupFault _ := ""

/-- A numbered list in a quote, with a table in one item and a further list in the other. -/
def sample : List Block :=
  [.quote [.list true 3
    [[.paragraph [.strong [.text "a", .link "u" [.math "x"]]], .table [] [[[.code "b"], []]]],
      [.list false 1 [[.html "c\nd"]]]]],
    .math "y" true, .unsupported "footnote" "z"]

theorem flow_leaves_sample :
    listBaseIndent Style.StyleTable.default = .ok 0 ∧
      ∃ elements, (flow blankTools Style.StyleTable.default sample).result = .ok elements ∧
        List.Forall₂ Element.Says elements
          [.prose (some "3. ") ["a", "x"], .table [[["b"], []]], .line "c", .line "d",
            .formula "y"] ∧
        unmarkedSources elements (blocksPieces sample) = ["a", "x", "b", "c", "d", "y"] := by
  have hpieces : blocksPieces sample = [.prose (some "3. ") ["a", "x"], .table [[["b"], []]],
      .line "c", .line "d", .formula "y"] := by decide
  have hleaves : blocksLeaves sample = ["a", "x", "b", "c", "d", "y"] := by decide
  obtain ⟨elements, hresult, hsays, hsources⟩ :=
    flow_leaves blankTools Style.StyleTable.default rfl sample
  exact ⟨rfl, elements, hresult, hpieces ▸ hsays, hsources.trans hleaves⟩

end MarkdownDocx.Layout
