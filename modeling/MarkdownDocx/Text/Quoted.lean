import MarkdownDocx.Text.Printable
import MarkdownDocx.Text.Wide

/-!
A string inside a message: between quotes, with everything invisible written as an escape.
-/

set_option autoImplicit false

namespace MarkdownDocx.Text

def quotedChar (quote c : Char) : List Char :=
  if c = quote || c = '\\' then ['\\', c]
  else if c = '\n' then ['\\', 'n']
  else if c = '\r' then ['\\', 'r']
  else if c = '\t' then ['\\', 't']
  else if isPrintable c then [c]
  else escapedCode c.toNat

def quotedPoint (quote : Char) : CodePoint → List Char
  | .char c => quotedChar quote c
  | p => p.shown

/-- Single quotes, unless the text has single quotes and no double ones. -/
def quoteFor (ps : List CodePoint) : Char :=
  if ps.contains (.char '\'') && !ps.contains (.char '"') then '"' else '\''

def quoted (s : WideString) : String :=
  let q := quoteFor s.points
  String.ofList (q :: (s.points.flatMap (quotedPoint q) ++ [q]))

end MarkdownDocx.Text
