import MarkdownDocx.Text.Blank
import MarkdownDocx.Text.Cleanup
import MarkdownDocx.Text.Digit
import MarkdownDocx.Text.Scan

/-!
Formulas that stand on a line of their own without fences. A line that looks like one is put
between two lines `$$`, so that it is read as display math.
-/

set_option autoImplicit false

namespace MarkdownDocx.Markdown

open MarkdownDocx.Text

/-- Beginnings of commands that mark a line as mathematics. -/
def formulaCommands : List String :=
  ["\\frac", "\\nabla", "\\partial", "\\sqrt", "\\sum", "\\int", "\\prod", "\\lim", "\\infty",
   "\\cdot", "\\times", "\\div", "\\pm", "\\mp", "\\leq", "\\geq", "\\neq", "\\approx",
   "\\equiv", "\\propto", "\\rightarrow", "\\leftarrow", "\\Rightarrow", "\\Leftarrow",
   "\\leftrightarrow", "\\Leftrightarrow", "\\forall", "\\exists", "\\in", "\\notin", "\\subset",
   "\\supset", "\\cup", "\\cap", "\\alpha", "\\beta", "\\gamma", "\\delta", "\\epsilon",
   "\\theta", "\\lambda", "\\mu", "\\pi", "\\sigma", "\\phi", "\\psi", "\\omega", "\\Gamma",
   "\\Delta", "\\Theta", "\\Lambda", "\\Sigma", "\\Phi", "\\Psi", "\\Omega", "\\big(", "\\big)",
   "\\Big(", "\\Big)", "\\bigg(", "\\bigg)", "\\left(", "\\right)", "\\left[", "\\right]",
   "\\left\\\x7b", "\\right\\\x7d", "\\text\x7b", "\\mathrm\x7b", "\\mathbf\x7b", "\\mathit\x7b",
   "\\quad", "\\qquad", "\\log", "\\exp", "\\sin", "\\cos", "\\tan"]

/-- How many of the commands stand somewhere in a line. -/
def countCommands (line : List Char) : Nat :=
  formulaCommands.countP fun command => occursIn command.toList line

/-- A number, a point or parenthesis, and white space. -/
def beginsNumbered (line : List Char) : Bool :=
  match line.dropWhile isDigit with
  | p :: b :: _ => line.head?.any isDigit && (p == '.' || p == ')') && isBlank b
  | _ => false

/-- Headings, list items, quotes and table rows. -/
def beginsBlock (line : List Char) : Bool :=
  line.head?.any (['#', '-', '*', '+', '>', '|'].contains ·) || beginsNumbered line

/-- One equals sign with something after it. -/
def isEquation (line : List Char) : Bool :=
  line.count '=' == 1 && line.getLast? != some '='

def isAsciiWordChar (c : Char) : Bool := isAsciiLetter c || isAsciiDigit c

/-- A letter, an underscore or caret, and what can be its subscript or power, at this point. -/
def beginsScript : List Char → Bool
  | c :: '_' :: r =>
    isAsciiLetter c && (match r with
      | '\x7b' :: d :: _ => isAsciiWordChar d
      | d :: _ => isAsciiWordChar d
      | [] => false)
  | c :: '^' :: r =>
    isAsciiLetter c && (match r with
      | '\x7b' :: d :: _ => isDigit d
      | d :: _ => isDigit d
      | [] => false)
  | _ => false

/-- A subscript or a power somewhere in a line. -/
def hasScript : List Char → Bool
  | [] => false
  | c :: r => beginsScript (c :: r) || hasScript r

/-- Lines with more Chinese characters than this are prose. -/
def greatestHanCount : Nat := 5

/-- Whether a line looks like a formula: a command is not enough, it comes with the shape of an
equation, a second command or a script. -/
def looksLikeFormula (line : List Char) : Bool :=
  let t := trim line
  !t.isEmpty && !beginsBlock t && t.countP isHan ≤ greatestHanCount && countCommands t != 0 &&
    (isEquation t || 2 ≤ countCommands t || hasScript t)

def fence : List Char := ['$', '$']

/-- A line that is delimited as a whole already. -/
def isDelimited (t : List Char) : Bool :=
  (fence.isPrefixOf t && fence.isSuffixOf t && 4 < t.length) ||
    (t.head? == some '$' && t.getLast? == some '$' && !fence.isPrefixOf t)

/-- The lines from here on. `inside` tells whether an opened fence is still open; one that never
closes is closed after the last line. -/
def fenceLines (inside : Bool) : List (List Char) → List (List Char)
  | [] => if inside then [fence] else []
  | line :: rest =>
    if trim line = fence then line :: fenceLines (!inside) rest
    else if inside || isDelimited (trim line) then line :: fenceLines inside rest
    else if looksLikeFormula line then
      fence :: trim line :: fence :: fenceLines inside rest
    else line :: fenceLines inside rest

/-- Fences around bare formulas. -/
def fenceFormulas (cs : List Char) : List Char := joinFeeds (fenceLines false (splitFeeds cs))

end MarkdownDocx.Markdown
