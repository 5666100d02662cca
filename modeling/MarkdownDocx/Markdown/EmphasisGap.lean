import MarkdownDocx.Text.Span

/-!
Emphasis beside punctuation. Asterisks that touch a quote or a bracket are not read as emphasis,
so a zero-width space is put between the two. Formulas and code are left alone.
-/

set_option autoImplicit false

namespace MarkdownDocx.Markdown

open MarkdownDocx.Text

def zeroWidthSpace : Char := '\u200b'

def openingGlyphs : List Char :=
  ['"', '\'', '(', '[', '\u201c', '\u2018', '\uff08', '\u3010', '\u300a', '\u3008', '\u300c',
    '\u300e', '\u3014', '\u3016']

def closingGlyphs : List Char :=
  ['"', '\'', ')', ']', '\u201d', '\u2019', '\uff09', '\u3011', '\u300b', '\u3009', '\u300d',
    '\u300f', '\u3015', '\u3017']

def isOpeningGlyph (c : Char) : Bool := openingGlyphs.contains c

def isClosingGlyph (c : Char) : Bool := closingGlyphs.contains c

/-- A zero-width space between every two neighbours of the given classes. -/
def separate (left right : Char → Bool) : List Char → List Char
  | c :: d :: r =>
    if left c && right d then c :: zeroWidthSpace :: separate left right (d :: r)
    else c :: separate left right (d :: r)
  | cs => cs

def isStar (c : Char) : Bool := c == '*'

/-- Asterisks before opening glyphs, then closing glyphs before asterisks. -/
def separatePlain (cs : List Char) : List Char :=
  separate isClosingGlyph isStar (separate isStar isOpeningGlyph cs)

def separatePiece : Piece → List Char
  | .plain cs => separatePlain cs
  | .span cs => cs

def separateEmphasis (cs : List Char) : List Char := (splitSpans true cs).flatMap separatePiece

end MarkdownDocx.Markdown
