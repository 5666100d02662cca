import MarkdownDocx.Json.Value
import MarkdownDocx.Logged
import MarkdownDocx.Number.Numeral
import MarkdownDocx.Style.Error
import MarkdownDocx.Style.Points

/-!
The look of one kind of text: its fonts, size and flags. Styles are read from records in which any
field may be missing.
-/

set_option autoImplicit false

namespace MarkdownDocx.Style

open MarkdownDocx.Number (Binary64)

/-- A number of halves of a point. -/
def halfPoints (n : Nat) : Points := .real (Binary64.ofRatio false n 2)

/-- The names of the Chinese type sizes. -/
def chineseSizes : List (String × Points) :=
  [("初号", .whole 42), ("小初", .whole 36), ("一号", .whole 26), ("小一", .whole 24),
    ("二号", .whole 22), ("小二", .whole 18), ("三号", .whole 16), ("小三", .whole 15),
    ("四号", .whole 14), ("小四", .whole 12), ("五号", halfPoints 21), ("小五", .whole 9),
    ("六号", halfPoints 15), ("小六", halfPoints 13), ("七号", halfPoints 11), ("八号", .whole 5)]

/-- The size where none can be made out. -/
def fallbackSize : Points := halfPoints 21

/-- A text without `pt` at its end. -/
def dropUnit (cs : List Char) : List Char :=
  if ['p', 't'].isSuffixOf cs then cs.dropLast.dropLast else cs

/-- A size in text: a Chinese name, or a number of points with or without its unit. -/
def sizeOfText? (s : String) : Option Points :=
  let t := Text.trimmed s
  match chineseSizes.find? fun p => p.1 == t with
  | some p => some p.2
  | none => (Number.readFloat? (String.ofList (dropUnit t.toList))).map .real

def unrecognizedSize (text : String) : Event :=
  .warning ("Unrecognized font size: " ++ text ++ ", using default 10.5 (五号)")

/-- A size from data. What is no size is reported, and replaced by the fallback. -/
def parseSize (value : Json) : Logged Error Points :=
  match value with
  | .int n =>
    match Binary64.ofInt? n with
    | some x => Logged.pure (.real x)
    | none => Logged.fail .tooLarge
  | .real x => Logged.pure (.real x)
  | .str s =>
    match s.text?.bind sizeOfText? with
    | some p => Logged.pure p
    | none => ⟨[unrecognizedSize s.trimmed.shown], .ok fallbackSize⟩
  | v => ⟨[unrecognizedSize v.display], .ok fallbackSize⟩

structure TextStyle where
  font : WideString := "仿宋"
  size : Points := .whole 16
  bold : Bool := false
  italic : Bool := false
  center : Bool := false
  /-- Whether a paragraph's first line is indented by two characters. -/
  indent : Bool := false
  englishFont : Option WideString := none
  deriving DecidableEq, Repr

/-- Chinese fonts with the Latin font that goes with each. -/
def fontPairs : List (String × String) :=
  [("宋体", "Times New Roman"), ("黑体", "Arial"), ("楷体", "Times New Roman"),
    ("仿宋", "Times New Roman")]

def isChineseFont (font : WideString) : Bool :=
  fontPairs.any fun p => WideString.ofString p.1 == font

namespace TextStyle

/-- The English font, unless it is missing or empty. -/
def namedEnglishFont (s : TextStyle) : Option WideString :=
  match s.englishFont with
  | some f => if f = "" then none else some f
  | none => none

/-- The font of Latin text. -/
def latinFont (s : TextStyle) : WideString :=
  match s.namedEnglishFont with
  | some f => f
  | none =>
    match fontPairs.find? fun p => WideString.ofString p.1 == s.font with
    | some p => p.2
    | none => s.font

/-- The font of Chinese text. -/
def eastAsianFont (s : TextStyle) : WideString :=
  if isChineseFont s.font then s.font else "宋体"

end TextStyle

/-- A flag of a record, or its value before. -/
def readFlag (data : Json.Members) (field : String) (before : Bool) : Except Error Bool :=
  match Json.find? field data with
  | none => .ok before
  | some (.bool b) => .ok b
  | some v => .error (.config (.flagNotBool field v))

/-- An English font that is named under either of its keys; `null` names none. -/
def englishFontOf? (data : Json.Members) : Option WideString :=
  match (Json.find? "english_font" data).orElse fun _ => Json.find? "englishFont" data with
  | none => none
  | some .null => none
  | some v => some v.asText

/-- A style with the fields of a record in place of its own. -/
def TextStyle.override (base : TextStyle) (data : Json.Members) : Logged Error TextStyle := do
  let font := match Json.find? "font" data with
    | some v => v.asText
    | none => base.font
  let size ← match Json.find? "size" data with
    | some v => parseSize v
    | none => Logged.pure base.size
  let bold ← Logged.ofExcept (readFlag data "bold" base.bold)
  let italic ← Logged.ofExcept (readFlag data "italic" base.italic)
  let center ← Logged.ofExcept (readFlag data "center" base.center)
  let indent ← Logged.ofExcept (readFlag data "indent" base.indent)
  let englishFont := match englishFontOf? data with
    | some f => some f
    | none => base.englishFont
  return ⟨font, size, bold, italic, center, indent, englishFont⟩

/-- A size as a JSON number. -/
def Points.toJson : Points → Json
  | .whole n => .int n
  | .real x => .real x

/-- The record of a style. The English font is left out when there is none. -/
def TextStyle.toMembers (s : TextStyle) : Json.Members :=
  let english : Json.Members := match s.namedEnglishFont with
    | some f => [("english_font", .str f)]
    | none => []
  ("font", .str s.font) :: ("size", s.size.toJson) :: ("bold", .bool s.bold) ::
    ("italic", .bool s.italic) :: ("center", .bool s.center) :: ("indent", .bool s.indent) ::
    english

end MarkdownDocx.Style
