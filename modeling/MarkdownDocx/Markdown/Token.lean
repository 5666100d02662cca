/-!
Tokens of parsed Markdown, as a parser hands them over: trees in which any part may be missing.
-/

set_option autoImplicit false

namespace MarkdownDocx.Markdown

inductive TokenKind where
  | blankLine
  | heading
  | paragraph
  /-- The text of an item in a list without blank lines. -/
  | blockText
  | list
  | listItem
  | blockQuote
  | table
  | tableHead
  | tableBody
  | tableRow
  | tableCell
  | blockHtml
  | blockMath
  | text
  | strong
  | emphasis
  | codeSpan
  | link
  | inlineMath
  | softBreak
  | lineBreak
  | inlineHtml
  | other (name : String)
  deriving DecidableEq, Repr

namespace TokenKind

/-- The kinds that have names, each with its name. -/
def named : List (String × TokenKind) :=
  [("blank_line", .blankLine), ("heading", .heading), ("paragraph", .paragraph),
    ("block_text", .blockText), ("list", .list), ("list_item", .listItem),
    ("block_quote", .blockQuote), ("table", .table), ("table_head", .tableHead),
    ("table_body", .tableBody), ("table_row", .tableRow), ("table_cell", .tableCell),
    ("block_html", .blockHtml), ("block_math", .blockMath), ("text", .text), ("strong", .strong),
    ("emphasis", .emphasis), ("codespan", .codeSpan), ("link", .link),
    ("inline_math", .inlineMath), ("softbreak", .softBreak), ("linebreak", .lineBreak),
    ("inline_html", .inlineHtml)]

def ofName (name : String) : TokenKind :=
  match named.find? fun p => p.1 == name with
  | some p => p.2
  | none => .other name

def name (k : TokenKind) : String :=
  match k with
  | .other name => name
  | k => ((named.find? fun p => p.2 == k).map Prod.fst).getD ""

/-- A name is read and written back. -/
@[simp] theorem name_ofName (s : String) : (ofName s).name = s := by
  unfold ofName
  split
  · rename_i p hp
    have hs : p.1 = s := by simpa using List.find?_some hp
    have hm := List.mem_of_find?_eq_some hp
    subst hs
    simp only [named, List.mem_cons, List.not_mem_nil, or_false] at hm
    rcases hm with h | h | h | h | h | h | h | h | h | h | h | h | h | h | h | h | h | h | h | h |
      h | h | h <;> subst h <;> rfl
  · rfl

end TokenKind

/-- What a token says about itself; what it does not say has these values. -/
structure Attributes where
  level : Int := 1
  ordered : Bool := false
  start : Int := 1
  align : Option String := none
  url : String := ""
  deriving DecidableEq, Repr

inductive Token where
  | token (kind : TokenKind) (raw : String) (attributes : Attributes) (children : List Token)
  deriving Repr

namespace Token

def kind : Token → TokenKind
  | .token kind _ _ _ => kind

def raw : Token → String
  | .token _ raw _ _ => raw

def attributes : Token → Attributes
  | .token _ _ attributes _ => attributes

def children : Token → List Token
  | .token _ _ _ children => children

end Token

end MarkdownDocx.Markdown
