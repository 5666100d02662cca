import MarkdownDocx.Number.Shortest

/-!
Lengths in points, and the lengths that are measured in twentieths of a point.
-/

set_option autoImplicit false

namespace MarkdownDocx.Style

open MarkdownDocx.Number (Binary64 NotIntegral)

/-- A length in points. Whole and floating-point numbers are written differently. -/
inductive Points where
  | whole (n : Int)
  | real (x : Binary64)
  deriving DecidableEq, Repr

namespace Points

def text : Points → String
  | .whole n => toString n
  | .real x => x.text

/-- The length multiplied by a whole number, rounded as floating-point numbers are. -/
def times (p : Points) (k : Nat) : Points :=
  match p with
  | .whole n => .whole (n * k)
  | .real x => .real (x.scale k 1)

def round : Points → Except NotIntegral Int
  | .whole n => .ok n
  | .real x => x.round

def truncate : Points → Except NotIntegral Int
  | .whole n => .ok n
  | .real x => x.truncate

/-- Twentieths of a point. -/
def twips (p : Points) : Except NotIntegral Int := (p.times 20).round

/-- The width of two characters of this size, in twips. -/
def twoCharacters (p : Points) : Except NotIntegral Int := (p.times 2).twips

end Points

end MarkdownDocx.Style
