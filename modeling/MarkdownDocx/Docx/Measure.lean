import MarkdownDocx.Style.Points
import MarkdownDocx.Text.Wide
import MarkdownDocx.Xml.Tree

/-!
Lengths in a document. They are kept in English metric units, 12700 to a point and 635 to a twip,
and are written in twips or in half points; each place of a document takes a range of them.
-/

set_option autoImplicit false

namespace MarkdownDocx.Docx

open MarkdownDocx.Number (Binary64 NotIntegral)

/-- The integers from a least to a greatest one. -/
structure Range where
  least : Int
  greatest : Int
  deriving DecidableEq, Repr

def signed32 : Range := ⟨-0x80000000, 0x7fffffff⟩

def unsigned64 : Range := ⟨0, 0xffffffffffffffff⟩

/-- Why a document cannot be made. -/
inductive Error where
  | illegal (e : Xml.Illegal)
  /-- A string with a surrogate, which has no encoding. -/
  | unencodable (s : WideString)
  | outOfRange (range : Range) (value : Int)
  | notIntegral (e : NotIntegral)
  /-- A quotient of integers beyond every floating-point number. -/
  | tooLarge
  /-- An equation whose markup is nested too deep to be read back. -/
  | tooDeep
  /-- A cell that has no paragraph where one is needed. -/
  | noParagraph
  deriving DecidableEq, Repr

def Error.message : Error → String
  | .illegal e => e.message
  | .unencodable s => s.encodingFault
  | .outOfRange range value =>
    "value must be in range " ++ toString range.least ++ " to " ++ toString range.greatest ++
      " inclusive, got " ++ toString value
  | .notIntegral e => e.message
  | .tooLarge => "integer division result too large for a float"
  | .tooDeep => "Excessive depth in document: 256 use XML_PARSE_HUGE option"
  | .noParagraph => "list index out of range"

structure Length where
  units : Int
  deriving DecidableEq, Repr

namespace Length

def ofTwips (n : Int) : Length := ⟨635 * n⟩

/-- A size in points; a fraction of a unit is cut off. -/
def ofPoints (p : Style.Points) : Except Error Length :=
  match (p.times 12700).truncate with
  | .ok n => .ok ⟨n⟩
  | .error e => .error (.notIntegral e)

/-- The units as a floating-point number. -/
def real (l : Length) : Binary64 := Binary64.ofRatio (decide (l.units < 0)) l.units.natAbs 1

/-- The nearest number of twips. -/
def twips (l : Length) : Int := (l.real.scale 1 635).round.toOption.getD 0

/-- Half points, cut off. -/
def halfPoints (l : Length) : Int := ((l.real.scale 1 12700).scale 2 1).truncate.toOption.getD 0

def checked (range : Range) (l : Length) : Except Error Length :=
  if range.least ≤ l.units ∧ l.units ≤ range.greatest then .ok l
  else .error (.outOfRange range l.units)

end Length

/-- Twips for a place of a document. -/
def writtenTwips (range : Range) (l : Length) : Except Error Int := do
  let l ← l.checked range
  return l.twips

end MarkdownDocx.Docx
