import MarkdownDocx.Markdown.Token
import MarkdownDocx.Text.Blank

/-!
Markdown as a syntax tree, and the tree of parsed tokens. Every token becomes one block, but for
blank lines; what has no place in the tree becomes an unsupported node that keeps its raw text.
-/

set_option autoImplicit false

namespace MarkdownDocx.Markdown

inductive Inline where
  | text (value : String)
  | strong (children : List Inline)
  | emphasis (children : List Inline)
  | code (value : String)
  | link (url : String) (children : List Inline)
  | math (formula : String)
  | unsupported (kind raw : String)
  deriving Repr

/-- A table's cells. -/
abbrev Row := List (List Inline)

inductive Block where
  | heading (depth : Int) (children : List Inline)
  | paragraph (children : List Inline)
  | list (ordered : Bool) (start : Int) (items : List (List Block))
  /-- An item outside of any list. -/
  | item (children : List Block)
  | table (align : List (Option String)) (rows : List Row)
  | quote (children : List Block)
  | html (value : String)
  | math (formula : String) (display : Bool)
  | unsupported (kind raw : String)
  deriving Repr

mutual
/-- The nodes of a token inside a paragraph. A decoration that is not known, such as
strikethrough, is dropped and its content kept. -/
def Token.inlines : Token → List Inline
  | .token .text raw _ _ => [.text raw]
  | .token .strong _ _ children => [.strong (inlinesOf children)]
  | .token .emphasis _ _ children => [.emphasis (inlinesOf children)]
  | .token .codeSpan raw _ _ => [.code raw]
  | .token .link _ attributes children => [.link attributes.url (inlinesOf children)]
  | .token .inlineMath raw _ _ => [.math raw]
  | .token .softBreak _ _ _ => [.text "\n"]
  | .token .lineBreak _ _ _ => [.text "\n"]
  | .token .inlineHtml raw _ _ => [.text raw]
  | .token kind raw _ [] => [.unsupported kind.name raw]
  | .token _ _ _ (child :: rest) => child.inlines ++ inlinesOf rest

def inlinesOf : List Token → List Inline
  | [] => []
  | t :: rest => t.inlines ++ inlinesOf rest
end

def cellOf (cell : Token) : List Inline := inlinesOf cell.children

/-- The cells of a table's head, which stand in it without a row. -/
def headCells (head : Token) : List Token := head.children.filter fun c => c.kind == .tableCell

def bodyRows (body : Token) : List Row :=
  (body.children.filter fun r => r.kind == .tableRow).map fun r => r.children.map cellOf

/-- The rows of one part of a table. -/
def sectionRows (part : Token) : List Row :=
  match part.kind with
  | .tableHead => [(headCells part).map cellOf]
  | .tableBody => bodyRows part
  | _ => []

/-- The alignment of the columns is that of the last head's cells. -/
def columnAlignment (parts : List Token) : List (Option String) :=
  match (parts.filter fun p => p.kind == .tableHead).getLast? with
  | some head => (headCells head).map fun c => c.attributes.align
  | none => []

mutual
def Token.block : Token → Block
  | .token .heading _ attributes children => .heading attributes.level (inlinesOf children)
  | .token .paragraph _ _ children => .paragraph (inlinesOf children)
  | .token .blockText _ _ children => .paragraph (inlinesOf children)
  | .token .list _ attributes children => .list attributes.ordered attributes.start (itemsOf children)
  | .token .listItem _ _ children => .item (blocksOf children)
  | .token .blockQuote _ _ children => .quote (blocksOf children)
  | .token .table _ _ children => .table (columnAlignment children) (children.flatMap sectionRows)
  | .token .blockHtml raw _ _ => .html raw
  | .token .blockMath raw _ _ => .math (Text.trimmed raw) true
  | .token kind raw _ _ => .unsupported kind.name raw

def blocksOf : List Token → List Block
  | [] => []
  | t :: rest => if t.kind = .blankLine then blocksOf rest else t.block :: blocksOf rest

/-- The items of a list, and nothing else that may stand in it. -/
def itemsOf : List Token → List (List Block)
  | [] => []
  | .token .listItem _ _ children :: rest => blocksOf children :: itemsOf rest
  | _ :: rest => itemsOf rest
end

end MarkdownDocx.Markdown
