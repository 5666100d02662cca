/-!
Floating-point numbers of the binary64 format, as exact integers. Every operation rounds an exact
ratio once, to the nearest number and to the even significand when two are equally near.
-/

set_option autoImplicit false

namespace MarkdownDocx.Number

/-- The integer nearest to `num / den`, and the even one of two equally near. -/
def roundHalfEven (num den : Nat) : Nat :=
  let q := num / den
  let r := num % den
  if 2 * r > den || (2 * r == den && q % 2 == 1) then q + 1 else q

/-- A finite number is `significand * 2 ^ exponent` with its sign, so zero has two forms. -/
inductive Binary64 where
  | finite (negative : Bool) (significand : Nat) (exponent : Int)
  | infinite (negative : Bool)
  | nan
  deriving DecidableEq, Repr

/-- Why a floating-point number has no integer. -/
inductive NotIntegral where
  | infinite
  | nan
  deriving DecidableEq, Repr

def NotIntegral.message : NotIntegral → String
  | .infinite => "cannot convert float infinity to integer"
  | .nan => "cannot convert float NaN to integer"

namespace Binary64

def leastExponent : Int := -1074

def greatestExponent : Int := 971

def zero (negative : Bool) : Binary64 := .finite negative 0 leastExponent

/-- `num * 2 ^ shift` and `den` brought to a ratio of naturals. -/
def scaledRatio (num den : Nat) (shift : Int) : Nat × Nat :=
  if 0 ≤ shift then (num * Nat.pow 2 shift.toNat, den) else (num, den * Nat.pow 2 (-shift).toNat)

/-- The exponent of the greatest power of two that is at most `num / den`, both positive. -/
def floorLog2 (num den : Nat) : Int :=
  let e : Int := (Nat.log2 num : Int) - (Nat.log2 den : Int)
  let (n, d) := scaledRatio num den (-e)
  if d ≤ n then e else e - 1

/-- The number nearest to `num / den`; infinite when that is beyond the greatest. -/
def ofRatio (negative : Bool) (num den : Nat) : Binary64 :=
  if num = 0 then zero negative
  else
    let e := max (floorLog2 num den - 52) leastExponent
    let (n, d) := scaledRatio num den (-e)
    let m := roundHalfEven n d
    let (m, e) := if m = Nat.pow 2 53 then (Nat.pow 2 52, e + 1) else (m, e)
    if greatestExponent < e then .infinite negative else .finite negative m e

/-- The number nearest to `digits * 10 ^ exponent`. Exponents far outside the range are
answered without computing the power. -/
def ofDecimal (negative : Bool) (digits : Nat) (exponent : Int) : Binary64 :=
  if digits = 0 then zero negative
  else
    let magnitude := ((Nat.toDigits 10 digits).length : Int) + exponent
    if 310 < magnitude then .infinite negative
    else if magnitude < -330 then zero negative
    else if 0 ≤ exponent then ofRatio negative (digits * Nat.pow 10 exponent.toNat) 1
    else ofRatio negative digits (Nat.pow 10 (-exponent).toNat)

/-- The number nearest to an integer, unless the integer is beyond every finite number. -/
def ofInt? (n : Int) : Option Binary64 :=
  match ofRatio (decide (n < 0)) n.natAbs 1 with
  | .finite s m e => some (.finite s m e)
  | _ => none

/-- The product with a ratio, rounded once. -/
def scale (x : Binary64) (num den : Nat) : Binary64 :=
  match x with
  | .finite s m e =>
    let (n, d) := scaledRatio (m * num) den e
    ofRatio s n d
  | x => x

/-- The integer part, toward zero. -/
def truncate : Binary64 → Except NotIntegral Int
  | .finite s m e =>
    let (n, d) := scaledRatio m 1 e
    .ok (if s then -(n / d : Nat) else (n / d : Nat))
  | .infinite _ => .error .infinite
  | .nan => .error .nan

/-- The nearest integer, and the even one of two equally near. -/
def round : Binary64 → Except NotIntegral Int
  | .finite s m e =>
    let (n, d) := scaledRatio m 1 e
    .ok (if s then -(roundHalfEven n d : Nat) else (roundHalfEven n d : Nat))
  | .infinite _ => .error .infinite
  | .nan => .error .nan

/-- The same number on the number line: the two zeros agree, and a NaN agrees with nothing. -/
def sameValue : Binary64 → Binary64 → Bool
  | .finite s m e, .finite s' m' e' =>
    (m == 0 && m' == 0) || (s == s' && (scaledRatio m 1 (e - e')).1 == (scaledRatio m 1 (e - e')).2 * m')
  | .infinite s, .infinite s' => s == s'
  | _, _ => false

end Binary64

end MarkdownDocx.Number
