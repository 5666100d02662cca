import MarkdownDocx.Text.Blank

/-!
Strings in which a surrogate may stand alone, as an escape in data can write it. A string without
one is text; a string with one has no encoding.
-/

set_option autoImplicit false

namespace MarkdownDocx

namespace Text

def hexDigit (n : Nat) : Char := Char.ofNat (if n < 10 then 48 + n else 87 + n)

/-- The lowest `width` hexadecimal digits of a number. -/
def hexDigits : Nat → Nat → List Char
  | 0, _ => []
  | width + 1, n => hexDigits width (n / 16) ++ [hexDigit (n % 16)]

/-- A backslash, a mark for the number of digits, and the code point. -/
def escapedCode (n : Nat) : List Char :=
  if n < 0x100 then '\\' :: 'x' :: hexDigits 2 n
  else if n < 0x10000 then '\\' :: 'u' :: hexDigits 4 n
  else '\\' :: 'U' :: hexDigits 8 n

end Text

inductive CodePoint where
  | char (c : Char)
  /-- The surrogate so far behind U+D800. -/
  | surrogate (offset : Fin 0x800)
  deriving DecidableEq, Repr

namespace CodePoint

def char? : CodePoint → Option Char
  | char c => some c
  | surrogate _ => none

def isBlank (p : CodePoint) : Bool := p.char?.any Text.isBlank

/-- A surrogate is shown as its escape. -/
def shown : CodePoint → List Char
  | char c => [c]
  | surrogate offset => Text.escapedCode (0xD800 + offset.val)

end CodePoint

structure WideString where
  points : List CodePoint
  deriving DecidableEq, Repr

namespace WideString

def ofString (s : String) : WideString := ⟨s.toList.map .char⟩

instance : Coe String WideString := ⟨ofString⟩

/-- The text of a string that has no surrogate. -/
def text? (s : WideString) : Option String := (s.points.mapM CodePoint.char?).map String.ofList

/-- A string without the white space around it. -/
def trimmed (s : WideString) : WideString :=
  ⟨((s.points.dropWhile CodePoint.isBlank).reverse.dropWhile CodePoint.isBlank).reverse⟩

/-- A string as it is printed where errors are. -/
def shown (s : WideString) : String := String.ofList (s.points.flatMap CodePoint.shown)

@[simp] theorem ofString_inj {s t : String} : ofString s = ofString t ↔ s = t := by
  simp [ofString, List.map_inj_right, String.toList_inj]

@[simp] theorem text?_ofString (s : String) : (ofString s).text? = some s := by
  have hchars : (s.toList.map CodePoint.char).mapM CodePoint.char? = some s.toList := by
    induction s.toList with
    | nil => rfl
    | cons c r ih => simp [CodePoint.char?, ih]
  simp [text?, ofString, hchars]

theorem eq_of_mapM_char? {ps : List CodePoint} {cs : List Char}
    (h : ps.mapM CodePoint.char? = some cs) : ps = cs.map .char := by
  induction ps generalizing cs with
  | nil => simp_all
  | cons p rest ih =>
    simp only [List.mapM_cons, Option.bind_eq_bind, Option.bind_eq_some_iff] at h
    obtain ⟨c, hc, ds, hds, hcs⟩ := h
    obtain rfl : c :: ds = cs := Option.some.inj hcs
    cases p with
    | char d => simp_all [CodePoint.char?]
    | surrogate offset => simp [CodePoint.char?] at hc

@[simp] theorem text?_eq_some_iff {s : WideString} {t : String} :
    s.text? = some t ↔ s = ofString t := by
  constructor
  · intro h
    obtain ⟨cs, hcs, rfl⟩ := Option.map_eq_some_iff.1 h
    obtain ⟨points⟩ := s
    simpa [ofString] using eq_of_mapM_char? hcs
  · rintro rfl
    exact text?_ofString t

@[simp] theorem shown_ofString (s : String) : (ofString s).shown = s := by
  simp [shown, ofString, List.flatMap_map, CodePoint.shown]

/-- Where the first surrogates stand that an encoder meets. -/
def encodingFault (s : WideString) : String :=
  let start := (s.points.takeWhile fun p => p.char?.isSome).length
  let stray := (s.points.drop start).takeWhile fun p => p.char?.isNone
  let place := match stray with
    | [p] => " '" ++ String.ofList p.shown ++ "' in position " ++ toString start
    | _ => "s in position " ++ toString start ++ "-" ++ toString (start + stray.length - 1)
  "'utf-8' codec can't encode character" ++ place ++ ": surrogates not allowed"

end WideString

end MarkdownDocx
