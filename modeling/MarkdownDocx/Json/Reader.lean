import MarkdownDocx.Json.Value
import MarkdownDocx.Number.Numeral
import MarkdownDocx.Text.Scan

/-!
Reading JSON. `NaN`, `Infinity` and `-Infinity` are numbers, control characters may not stand in
strings, and a byte order mark is not white space. How deep arrays and objects may be nested is
limited.
-/

set_option autoImplicit false

namespace MarkdownDocx.Json

inductive Bracket where
  | array
  | object
  deriving DecidableEq, Repr

def Bracket.name : Bracket → String
  | .array => "array"
  | .object => "object"

/-- Why a text is no JSON value. -/
inductive ReadError where
  | malformed
  /-- An integer with more digits than are read. -/
  | tooManyDigits
  /-- An array or an object deeper inside others than is read. -/
  | tooDeep (opened : Bracket)
  deriving DecidableEq, Repr

def isSpace (c : Char) : Bool := c == ' ' || c == '\t' || c == '\n' || c == '\r'

def skipSpace (cs : List Char) : List Char := cs.dropWhile isSpace

def hexValue? (c : Char) : Option Nat :=
  let n := c.toNat
  if 48 ≤ n && n ≤ 57 then some (n - 48)
  else if 97 ≤ n && n ≤ 102 then some (n - 87)
  else if 65 ≤ n && n ≤ 70 then some (n - 55)
  else none

/-- Four hexadecimal digits. -/
def readHex4 : List Char → Option (Nat × List Char)
  | a :: b :: c :: d :: r => do
    let a ← hexValue? a
    let b ← hexValue? b
    let c ← hexValue? c
    let d ← hexValue? d
    return (((a * 16 + b) * 16 + c) * 16 + d, r)
  | _ => none

/-- The code point of a code unit. -/
def unitPoint (u : Nat) : CodePoint :=
  if 0xD800 ≤ u ∧ u ≤ 0xDFFF then .surrogate (Fin.ofNat 0x800 (u - 0xD800)) else .char (Char.ofNat u)

/-- The code point of an escaped code unit, and the rest. A high surrogate takes the low one that
follows it; any other surrogate stands alone. -/
def readUnicodeEscape (cs : List Char) : Option (CodePoint × List Char) := do
  let (u, r) ← readHex4 cs
  if 0xD800 ≤ u ∧ u ≤ 0xDBFF then
    match r with
    | '\\' :: 'u' :: r' =>
      match readHex4 r' with
      | some (v, r'') =>
        if 0xDC00 ≤ v ∧ v ≤ 0xDFFF then
          return (.char (Char.ofNat (0x10000 + (u - 0xD800) * 0x400 + (v - 0xDC00))), r'')
        else return (unitPoint u, r)
      | none => return (unitPoint u, r)
    | _ => return (unitPoint u, r)
  else return (unitPoint u, r)

def simpleEscape? : Char → Option Char
  | '"' => some '"'
  | '\\' => some '\\'
  | '/' => some '/'
  | 'b' => some '\x08'
  | 'f' => some '\x0c'
  | 'n' => some '\n'
  | 'r' => some '\r'
  | 't' => some '\t'
  | _ => none

/-- The code points of a string up to its closing quote. The fuel bounds their number. -/
def readPoints : Nat → List Char → Option (List CodePoint × List Char)
  | 0, _ => none
  | fuel + 1, cs =>
    match cs with
    | [] => none
    | '"' :: r => some ([], r)
    | '\\' :: 'u' :: r => do
      let (p, r) ← readUnicodeEscape r
      let (s, r) ← readPoints fuel r
      return (p :: s, r)
    | '\\' :: e :: r => do
      let c ← simpleEscape? e
      let (s, r) ← readPoints fuel r
      return (.char c :: s, r)
    | c :: r =>
      if c.toNat < 32 || c = '\\' then none
      else do
        let (s, r) ← readPoints fuel r
        return (.char c :: s, r)

def readString (cs : List Char) : Option (WideString × List Char) :=
  (readPoints (cs.length + 1) cs).map fun (s, r) => (⟨s⟩, r)

def takeDigits (cs : List Char) : List Char × List Char :=
  (cs.takeWhile Text.isAsciiDigit, cs.dropWhile Text.isAsciiDigit)

def digitValues (cs : List Char) : List Nat := cs.map Number.asciiDigitValue

/-- A point and digits, if both are there. -/
def readFraction : List Char → Option (List Char) × List Char
  | '.' :: r =>
    match takeDigits r with
    | ([], _) => (none, '.' :: r)
    | (ds, r') => (some ds, r')
  | cs => (none, cs)

/-- An exponent, if it has digits. -/
def readExponent : List Char → Option Int × List Char
  | c :: r =>
    if c = 'e' || c = 'E' then
      let (negative, body) := Number.readSign r
      match takeDigits body with
      | ([], _) => (none, c :: r)
      | (ds, r') =>
        let n : Int := Number.digitsValue (digitValues ds)
        (some (if negative then -n else n), r')
    else (none, c :: r)
  | [] => (none, [])

/-- The digits before a point: a zero in front stands alone. -/
def readWhole : List Char → List Char × List Char
  | '0' :: r => (['0'], r)
  | cs => takeDigits cs

/-- A number: no leading zeros, and no sign but a minus. Without a fraction and an exponent it is
an integer. -/
def readNumber (negative : Bool) (cs : List Char) : Except ReadError (Json × List Char) :=
  let (ds, r) := readWhole cs
  if ds.isEmpty then .error .malformed
  else
    let (fraction, r) := readFraction r
    let (exponent, r) := readExponent r
    if fraction.isNone && exponent.isNone then
      if Number.greatestNumeralLength < ds.length then .error .tooManyDigits
      else
        let n : Int := Number.digitsValue (digitValues ds)
        .ok (.int (if negative then -n else n), r)
    else
      let fraction := fraction.getD []
      .ok (.real (Number.Binary64.ofDecimal negative
        (Number.digitsValue (digitValues (ds ++ fraction)))
        (exponent.getD 0 - fraction.length)), r)

/-- The words that are values. -/
def words : List (String × Json) :=
  [("null", .null), ("true", .bool true), ("false", .bool false), ("NaN", .real .nan),
    ("Infinity", .real (.infinite false)), ("-Infinity", .real (.infinite true))]

def readWord (cs : List Char) : Option (Json × List Char) :=
  words.findSome? fun (w, v) => (Text.afterWord w.toList cs).map fun r => (v, r)

mutual
/-- A value that begins here, inside which arrays and objects may be nested to a depth. The fuel
bounds the number of items. -/
def readValue (depth : Nat) : Nat → List Char → Except ReadError (Json × List Char)
  | 0, _ => .error .malformed
  | fuel + 1, cs =>
    match readWord cs with
    | some found => .ok found
    | none =>
      match cs with
      | '"' :: r =>
        match readString r with
        | some (s, r) => .ok (.str s, r)
        | none => .error .malformed
      | '[' :: r =>
        match depth with
        | 0 => .error (.tooDeep .array)
        | depth + 1 =>
          match skipSpace r with
          | ']' :: r => .ok (.arr [], r)
          | r => do
            let (items, r) ← readItems depth fuel r
            return (.arr items, r)
      | '\x7b' :: r =>
        match depth with
        | 0 => .error (.tooDeep .object)
        | depth + 1 =>
          match skipSpace r with
          | '\x7d' :: r => .ok (.obj [], r)
          | r => do
            let (members, r) ← readMembers depth fuel [] r
            return (.obj members, r)
      | '-' :: r => readNumber true r
      | cs => readNumber false cs

/-- The items of an array up to its closing bracket. -/
def readItems (depth : Nat) : Nat → List Char → Except ReadError (List Json × List Char)
  | 0, _ => .error .malformed
  | fuel + 1, cs => do
    let (v, r) ← readValue depth fuel cs
    match skipSpace r with
    | ']' :: r => return ([v], r)
    | ',' :: r => do
      let (vs, r) ← readItems depth fuel (skipSpace r)
      return (v :: vs, r)
    | _ => .error .malformed

/-- The members of an object up to its closing brace, put after those read before. -/
def readMembers (depth : Nat) : Nat → Members → List Char → Except ReadError (Members × List Char)
  | 0, _, _ => .error .malformed
  | fuel + 1, before, cs =>
    match cs with
    | '"' :: r =>
      match readString r with
      | none => .error .malformed
      | some (key, r) =>
        match skipSpace r with
        | ':' :: r => do
          let (v, r) ← readValue depth fuel (skipSpace r)
          match skipSpace r with
          | '\x7d' :: r => return (put key v before, r)
          | ',' :: r => readMembers depth fuel (put key v before) (skipSpace r)
          | _ => .error .malformed
        | _ => .error .malformed
    | _ => .error .malformed
end

/-- How a reader is set up: how deep it lets arrays and objects be nested, and what it says of a
text that writes no value. -/
structure Setup where
  depth : Nat
  fault : String → String

/-- The value that a whole text writes. -/
def read (depth : Nat) (s : String) : Except ReadError Json := do
  let cs := skipSpace s.toList
  let (v, r) ← readValue depth (cs.length + 1) cs
  if (skipSpace r).isEmpty then return v else .error .malformed

end MarkdownDocx.Json
