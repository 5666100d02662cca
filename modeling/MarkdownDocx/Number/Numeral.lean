import MarkdownDocx.Number.Binary64
import MarkdownDocx.Text.Blank
import MarkdownDocx.Text.Digit

/-!
Numbers written in text: integers and floating-point numerals. White space around a numeral is
ignored, digits may come from any script, and single underscores may stand between digits.
-/

set_option autoImplicit false

namespace MarkdownDocx.Number

open MarkdownDocx.Text

/-- The longest integer numeral that is read, in digits. -/
def greatestNumeralLength : Nat := 4300

/-- White space that may stand around a numeral. Of the characters that trimming removes, the four
separators of information are not among it. -/
def isPadding (c : Char) : Bool := isBlank c && !(28 ≤ c.toNat && c.toNat ≤ 31)

/-- A text without the white space that may stand around a numeral. -/
def dropPadding (cs : List Char) : List Char :=
  ((cs.dropWhile isPadding).reverse.dropWhile isPadding).reverse

/-- A numeral's characters with every digit in ASCII. -/
def asciiDigits (cs : List Char) : List Char :=
  cs.map fun c => match digitValue? c with
    | some d => Char.ofNat (48 + d)
    | none => c

/-- The value of an ASCII digit. -/
def asciiDigitValue (c : Char) : Nat := c.toNat - 48

/-- Digits with single underscores between them, from the first digit on: their values, and what
follows them. An underscore that no digit follows is left in the rest. -/
def readDigits : List Char → List Nat × List Char
  | c :: '_' :: d :: r =>
    if isAsciiDigit c then
      if isAsciiDigit d then
        let tail := readDigits (d :: r)
        (asciiDigitValue c :: tail.1, tail.2)
      else ([asciiDigitValue c], '_' :: d :: r)
    else ([], c :: '_' :: d :: r)
  | c :: r =>
    if isAsciiDigit c then
      let tail := readDigits r
      (asciiDigitValue c :: tail.1, tail.2)
    else ([], c :: r)
  | [] => ([], [])

def digitsValue (ds : List Nat) : Nat := ds.foldl (fun n d => 10 * n + d) 0

/-- A leading sign: whether it is a minus, and the rest. -/
def readSign : List Char → Bool × List Char
  | '-' :: r => (true, r)
  | '+' :: r => (false, r)
  | cs => (false, cs)

/-- The integer that a text writes. -/
def readInt? (s : String) : Option Int :=
  let (negative, body) := readSign (asciiDigits (dropPadding s.toList))
  match readDigits body with
  | ([], _) => none
  | (ds, []) =>
    if greatestNumeralLength < ds.length then none
    else some (if negative then -(digitsValue ds : Int) else digitsValue ds)
  | _ => none

def lowerAscii (cs : List Char) : List Char := cs.map Char.toLower

/-- The exponent part of a numeral, if all that is left is one. -/
def readExponent? : List Char → Option Int
  | [] => some 0
  | c :: r =>
    if c = 'e' || c = 'E' then
      let (negative, body) := readSign r
      match readDigits body with
      | ([], _) => none
      | (ds, []) => some (if negative then -(digitsValue ds : Int) else digitsValue ds)
      | _ => none
    else none

/-- Digits on at least one side of an optional point, then an optional exponent. -/
def readUnsigned? (negative : Bool) (cs : List Char) : Option Binary64 :=
  let (whole, rest) := readDigits cs
  let (fraction, rest) := match rest with
    | '.' :: r => readDigits r
    | _ => ([], rest)
  if whole.isEmpty && fraction.isEmpty then none
  else
    (readExponent? rest).map fun e =>
      Binary64.ofDecimal negative (digitsValue (whole ++ fraction)) (e - fraction.length)

/-- The floating-point number that a text writes. -/
def readFloat? (s : String) : Option Binary64 :=
  let (negative, body) := readSign (asciiDigits (dropPadding s.toList))
  let word := lowerAscii body
  if word = ['i', 'n', 'f'] || word = ['i', 'n', 'f', 'i', 'n', 'i', 't', 'y'] then
    some (.infinite negative)
  else if word = ['n', 'a', 'n'] then some .nan
  else readUnsigned? negative body

end MarkdownDocx.Number
