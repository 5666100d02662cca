import MarkdownDocx.Number.Binary64

/-!
The shortest decimal text of a floating-point number: the fewest digits that read back as the
same number, and among those the nearest to it.
-/

set_option autoImplicit false

namespace MarkdownDocx.Number

/-- A decimal `digits * 10 ^ exponent`. -/
structure Decimal where
  digits : Nat
  exponent : Int
  deriving DecidableEq, Repr

namespace Shortest

/-- A positive ratio with the two ends of the interval of reals that round to it. The three
numerators share one denominator. -/
structure Interval where
  low : Nat
  value : Nat
  high : Nat
  den : Nat
  /-- Whether the ends themselves round to the value. -/
  closed : Bool
  deriving Repr

/-- The reals that round to `significand * 2 ^ exponent`. Below a power of two the next number is
half as far away. -/
def interval (significand : Nat) (exponent : Int) : Interval :=
  let (n, d) := Binary64.scaledRatio 1 1 (exponent - 2)
  let below := if significand = Nat.pow 2 52 ∧ Binary64.leastExponent < exponent then 1 else 2
  ⟨(4 * significand - below) * n, 4 * significand * n, (4 * significand + 2) * n, d,
    significand % 2 == 0⟩

def Interval.contains (i : Interval) (num den : Nat) : Bool :=
  if i.closed then i.low * den ≤ num * i.den && num * i.den ≤ i.high * den
  else i.low * den < num * i.den && num * i.den < i.high * den

/-- `num / den` in units of `10 ^ exponent`, as a ratio. -/
def inUnits (num den : Nat) (exponent : Int) : Nat × Nat :=
  if 0 ≤ exponent then (num, den * Nat.pow 10 exponent.toNat)
  else (num * Nat.pow 10 (-exponent).toNat, den)

/-- The exponent of the greatest power of ten that is at most `num / den`, both positive. -/
def floorLog10 (num den : Nat) : Int :=
  let guess := Binary64.floorLog2 num den * 30103 / 100000
  let atLeast (e : Int) : Bool := let (n, d) := inUnits num den e; d ≤ n
  if atLeast (guess + 1) then guess + 1 else if atLeast guess then guess else guess - 1

/-- The grid point nearest to the value among the two beside it, if it rounds to the value. -/
def onGrid (i : Interval) (exponent : Int) : Option Decimal :=
  let (n, d) := inUnits i.value i.den exponent
  let below := n / d
  let above := below + 1
  let fits (k : Nat) : Bool :=
    let (num, den) := inUnits k 1 (-exponent)
    i.contains num den
  let nearest := roundHalfEven n d
  let other := if nearest = below then above else below
  if fits nearest then some ⟨nearest, exponent⟩
  else if fits other then some ⟨other, exponent⟩
  else none

/-- The first grid with a hit, from the coarsest on. Seventeen digits always suffice. -/
def search (i : Interval) (top : Int) : Nat → Decimal
  | 0 => ⟨(inUnits i.value i.den (top - 16)).1 / (inUnits i.value i.den (top - 16)).2, top - 16⟩
  | fuel + 1 =>
    match onGrid i (top - (16 - fuel : Nat)) with
    | some d => d
    | none => search i top fuel

/-- Trailing zeros move into the exponent. -/
def dropZeros (d : Decimal) : Decimal :=
  let kept := ((Nat.toDigits 10 d.digits).reverse.dropWhile (· == '0')).length
  let zeros := (Nat.toDigits 10 d.digits).length - kept
  ⟨d.digits / Nat.pow 10 zeros, d.exponent + zeros⟩

/-- The shortest decimal of a positive number. -/
def decimal (significand : Nat) (exponent : Int) : Decimal :=
  let i := interval significand exponent
  dropZeros (search i (floorLog10 i.value i.den) 17)

end Shortest

/-- How a decimal is written: digits with a point while the first digit's power of ten is at least
`leastPositional` and below `endPositional`, and with an exponent otherwise. -/
structure DecimalFormat where
  leastPositional : Int
  endPositional : Int
  exponentMark : Char
  leastExponentDigits : Nat

def padZeros (width : Nat) (cs : List Char) : List Char :=
  List.replicate (width - cs.length) '0' ++ cs

/-- A positive decimal under a format. A positional number keeps one digit after its point. -/
def DecimalFormat.write (f : DecimalFormat) (d : Decimal) : List Char :=
  let ds := Nat.toDigits 10 d.digits
  let top := d.exponent + (ds.length : Int) - 1
  if f.leastPositional ≤ top ∧ top < f.endPositional then
    if top < 0 then '0' :: '.' :: (List.replicate (-top - 1).toNat '0' ++ ds)
    else
      let whole := (top + 1).toNat
      let all := ds ++ List.replicate (whole - ds.length) '0'
      let rest := all.drop whole
      all.take whole ++ '.' :: (if rest.isEmpty then ['0'] else rest)
  else
    let mantissa := match ds with
      | [] => []
      | [c] => [c]
      | c :: r => c :: '.' :: r
    let sign := if top < 0 then '-' else '+'
    mantissa ++ f.exponentMark :: sign ::
      padZeros f.leastExponentDigits (Nat.toDigits 10 top.natAbs)

/-- Sizes and JSON numbers are positional from `0.0001` up to sixteen digits. -/
def plainFormat : DecimalFormat := ⟨-4, 16, 'e', 2⟩

/-- The text of a finite number. -/
def finiteText (negative : Bool) (significand : Nat) (exponent : Int) : List Char :=
  let body := if significand = 0 then ['0', '.', '0']
    else plainFormat.write (Shortest.decimal significand exponent)
  if negative then '-' :: body else body

/-- The text of a number inside messages and answers. -/
def Binary64.text : Binary64 → String
  | .finite s m e => String.ofList (finiteText s m e)
  | .infinite s => if s then "-inf" else "inf"
  | .nan => "nan"

end MarkdownDocx.Number
