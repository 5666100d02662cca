import MarkdownDocx.Markdown.BareFormula
import MarkdownDocx.Markdown.EmphasisGap

/-!
What happens to Markdown text before it is parsed.
-/

set_option autoImplicit false

namespace MarkdownDocx.Markdown

open MarkdownDocx.Text

/-- Both text passes: emphasis first, then bare formulas. -/
def prepareChars (cs : List Char) : List Char := fenceFormulas (separateEmphasis cs)

def prepare (markdown : String) : String := String.ofList (prepareChars markdown.toList)

/-- The opening line of a code block that wraps a whole document. -/
def wrapperOpening : List Char := "\x60\x60\x60markdown".toList

def wrapperClosing : List Char := "\x60\x60\x60".toList

def trimFeeds (cs : List Char) : List Char :=
  (((cs.dropWhile (· == '\n')).reverse).dropWhile (· == '\n')).reverse

/-- What stands between a wrapper's two ends, without the line feeds around it. A text that does
not begin and end as a wrapper is returned as it is. -/
def unwrapChars (cs : List Char) : List Char :=
  let t := trim cs
  if wrapperOpening.isPrefixOf t && wrapperClosing.isSuffixOf t then
    trimFeeds ((t.drop wrapperOpening.length).dropLast.dropLast.dropLast)
  else cs

def unwrap (markdown : String) : String := String.ofList (unwrapChars markdown.toList)

end MarkdownDocx.Markdown
