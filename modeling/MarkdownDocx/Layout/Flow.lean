import MarkdownDocx.Layout.Element
import MarkdownDocx.Markdown.Prepare
import MarkdownDocx.Markdown.Tree
import MarkdownDocx.Math.Formula

/-!
From a syntax tree to paragraphs and tables, in the order of the source. How deep lists and quotes
are nested shows in the indents alone.
-/

set_option autoImplicit false

namespace MarkdownDocx.Layout

open MarkdownDocx.Markdown (Inline Block)
open MarkdownDocx.Number (NotIntegral)

/-- What a drawn formula is inside a paragraph. One that could not be drawn is set in italics. -/
def formulaRun (drawing : Math.Drawing) (formula : String) (display bold : Bool) : Run :=
  match drawing with
  | .equation nodes => .equation nodes display formula
  | .source => .text formula bold true

mutual
/-- The runs of an inline node under the formatting around it, and what drawing its formulas
reported. -/
def inlineRuns (tools : Math.Tools) (bold italic : Bool) : Inline → List Event × List Run
  | .text value => ([], [.text value bold italic])
  | .strong children => inlinesRuns tools true italic children
  | .emphasis children => inlinesRuns tools bold true children
  | .code value => ([], [.text value bold italic])
  | .link _ children => inlinesRuns tools bold italic children
  | .math formula =>
    let drawn := Math.drawFormula tools formula false
    (drawn.1, [formulaRun drawn.2 formula false bold])
  | .unsupported _ _ => ([], [])

def inlinesRuns (tools : Math.Tools) (bold italic : Bool) : List Inline → List Event × List Run
  | [] => ([], [])
  | i :: rest =>
    let first := inlineRuns tools bold italic i
    let others := inlinesRuns tools bold italic rest
    (first.1 ++ others.1, first.2 ++ others.2)
end

/-- Blocks' elements where nothing has failed yet. -/
abbrev Flow := Logged NotIntegral

/-- A paragraph around inline nodes. -/
def paragraphOf (tools : Math.Tools) (children : List Inline) (shape : List Run → Paragraph) :
    Flow (List Element) :=
  let set := inlinesRuns tools false false children
  ⟨set.1, .ok [.paragraph (shape set.2)]⟩

/-- The headings of Markdown from the first level on; deeper ones are body text. -/
def headingStyle (depth : Int) : ParagraphStyle :=
  if depth = 1 then .title
  else if depth = 2 then .heading1
  else if depth = 3 then .heading2
  else if depth = 4 then .heading3
  else if depth = 5 then .heading4
  else .bodyText

/-- A formula on its own. -/
def formulaParagraph (tools : Math.Tools) (formula : String) (display : Bool) :
    Flow (List Element) :=
  let drawn := Math.drawFormula tools formula display
  ⟨drawn.1, .ok [.paragraph
    { runs := [formulaRun drawn.2 formula display false]
      style := .formula
      alignment := some .center }]⟩

/-- Every line of block HTML is a paragraph of its own. -/
def htmlParagraphs (value : String) : List Element :=
  (Text.lines value.toList).map fun line =>
    .paragraph { runs := [.text (String.ofList line) false false] }

/-- Cells are centered, whatever the alignment of their column. -/
def cellParagraph (header : Bool) (runs : List Run) : Paragraph :=
  { runs := runs
    style := if header then .tableCaption else .tableText
    alignment := some .center }

def rowCells (tools : Math.Tools) (header : Bool) : List (List Inline) → List Event × List Paragraph
  | [] => ([], [])
  | cell :: rest =>
    let first := inlinesRuns tools header false cell
    let others := rowCells tools header rest
    (first.1 ++ others.1, cellParagraph header first.2 :: others.2)

/-- The first row is the header, and bold. -/
def tableRows (tools : Math.Tools) (header : Bool) : List Markdown.Row → List Event × List Row
  | [] => ([], [])
  | row :: rest =>
    let first := rowCells tools header row
    let others := tableRows tools false rest
    (first.1 ++ others.1, { cells := first.2, header := header } :: others.2)

def tableOf (tools : Math.Tools) (rows : List Markdown.Row) : Flow (List Element) :=
  let set := tableRows tools true rows
  ⟨set.1, .ok [.table { rows := set.2 }]⟩

/-- The further first-line indent of each level of a list: two characters of 16 points. -/
def listIndentStep : Int := 640

/-- The left indent of each level of quotes: about one centimetre. -/
def quoteIndentStep : Int := 567

def bullet : String := "\u2022 "

/-- The marker of a list item: its number in an ordered list, or else a bullet. -/
def listMarker (ordered : Bool) (number : Int) : String :=
  if ordered then toString number ++ ". " else bullet

/-- The first-line indent of the items in a list that is no part of another. -/
def listBaseIndent (styles : Style.StyleTable) : Except NotIntegral Int :=
  let s := styles.style .listItem
  if s.indent then s.size.twoCharacters else .ok 0

def listIndent (base : Except NotIntegral Int) (level : Int) : Except NotIntegral Int :=
  base.map fun b => b + listIndentStep * level

/-- The indent of a list item. Inside a quote it has the quote's left indent. -/
def itemIndent (base : Except NotIntegral Int) (level : Nat) (quoteLeft : Option Int) :
    Except NotIntegral Indent :=
  match quoteLeft with
  | none => (listIndent base level).map fun n => { firstLine := some n }
  | some left => .ok { left := some left, firstLine := some (listIndentStep * (level + 1)) }

def markerRuns : Option String → List Run
  | none => []
  | some marker => [.text marker false false]

/-- What the layout of blocks depends on. -/
structure Context where
  tools : Math.Tools
  listBase : Except NotIntegral Int

mutual
def blockElements (c : Context) : Block → Flow (List Element)
  | .heading depth children =>
    paragraphOf c.tools children fun runs => { runs := runs, style := headingStyle depth }
  | .paragraph children => paragraphOf c.tools children fun runs => { runs := runs }
  | .list ordered start items => listElements c ordered start 0 none items
  | .item children => do
    let indent ← Logged.ofExcept (itemIndent c.listBase 0 none)
    itemElements c none indent 0 none children
  | .table _ rows => tableOf c.tools rows
  | .quote children => quoteElements c 1 children
  | .html value => pure (htmlParagraphs value)
  | .math formula display => formulaParagraph c.tools formula display
  | .unsupported _ _ => pure []

def blocksElements (c : Context) : List Block → Flow (List Element)
  | [] => pure []
  | b :: rest => do
    let first ← blockElements c b
    let others ← blocksElements c rest
    return first ++ others

/-- The items of a list from a number on. -/
def listElements (c : Context) (ordered : Bool) (number : Int) (level : Nat)
    (quoteLeft : Option Int) : List (List Block) → Flow (List Element)
  | [] => pure []
  | item :: rest => do
    let indent ← Logged.ofExcept (itemIndent c.listBase level quoteLeft)
    let first ← itemElements c (some (listMarker ordered number)) indent level quoteLeft item
    let others ← listElements c ordered (number + 1) level quoteLeft rest
    return first ++ others

/-- The content of a list item. Only a paragraph that comes first carries the marker. -/
def itemElements (c : Context) (marker : Option String) (indent : Indent) (level : Nat)
    (quoteLeft : Option Int) : List Block → Flow (List Element)
  | [] => pure []
  | b :: rest => do
    let first ← match b with
      | .paragraph children => paragraphOf c.tools children fun runs =>
          { runs := markerRuns marker ++ runs, style := .listParagraph, indent := some indent }
      | .list ordered start items => listElements c ordered start (level + 1) quoteLeft items
      | b => blockElements c b
    let others ← itemElements c none indent level quoteLeft rest
    return first ++ others

/-- The content of a quote at a depth of quotes. -/
def quoteElements (c : Context) (depth : Nat) : List Block → Flow (List Element)
  | [] => pure []
  | b :: rest => do
    let left : Int := quoteIndentStep * depth
    let shape (runs : List Run) : Paragraph :=
      { runs := runs, style := .blockQuote, indent := some { left := some left, firstLine := some 0 } }
    let first ← match b with
      | .paragraph children => paragraphOf c.tools children shape
      | .heading _ children => paragraphOf c.tools children shape
      | .quote children => quoteElements c (depth + 1) children
      | .list ordered start items => listElements c ordered start 0 (some left) items
      | b => blockElements c b
    let others ← quoteElements c depth rest
    return first ++ others
end

/-- Blocks as elements under a style table, which lends its list indent. -/
def flow (tools : Math.Tools) (styles : Style.StyleTable) (blocks : List Block) :
    Flow (List Element) :=
  blocksElements ⟨tools, listBaseIndent styles⟩ blocks

end MarkdownDocx.Layout
