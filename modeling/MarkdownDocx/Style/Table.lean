import MarkdownDocx.Style.TextStyle

/-!
Style tables: one style for every kind of text that a document has.
-/

set_option autoImplicit false

namespace MarkdownDocx.Style

inductive StyleKey where
  | title
  | heading1
  | heading2
  | heading3
  | heading4
  | bodyText
  | listItem
  | blockquote
  | tableHeader
  | tableCell
  | pageFooter
  deriving DecidableEq, Repr

namespace StyleKey

def all : List StyleKey :=
  [.title, .heading1, .heading2, .heading3, .heading4, .bodyText, .listItem, .blockquote,
    .tableHeader, .tableCell, .pageFooter]

def name : StyleKey → String
  | .title => "title"
  | .heading1 => "heading1"
  | .heading2 => "heading2"
  | .heading3 => "heading3"
  | .heading4 => "heading4"
  | .bodyText => "bodyText"
  | .listItem => "listItem"
  | .blockquote => "blockquote"
  | .tableHeader => "tableHeader"
  | .tableCell => "tableCell"
  | .pageFooter => "pageFooter"

def ofName? (name : String) : Option StyleKey := all.find? fun k => k.name == name

end StyleKey

/-- A style for every key. Styles under other names are kept but never used. -/
structure StyleTable where
  style : StyleKey → TextStyle
  others : List (String × TextStyle) := []

namespace StyleTable

/-- The table in which every style is the default one. -/
def default : StyleTable := { style := fun _ => {} }

def set (t : StyleTable) (key : StyleKey) (s : TextStyle) : StyleTable :=
  { t with style := fun k => if k = key then s else t.style k }

/-- The style under a name, whether it is a key or not. -/
def find? (t : StyleTable) (name : String) : Option TextStyle :=
  match StyleKey.ofName? name with
  | some key => some (t.style key)
  | none => (t.others.find? fun p => p.1 == name).map Prod.snd

/-- A table of named styles, which has to have one for every key. -/
def ofNamed? (entries : List (String × TextStyle)) : Except ConfigError StyleTable :=
  let named? (key : StyleKey) := entries.find? fun p => p.1 == key.name
  let missing := StyleKey.all.filter fun key => (named? key).isNone
  if missing.isEmpty then
    .ok ⟨fun key => ((named? key).map Prod.snd).getD {},
      entries.filter fun p => (StyleKey.ofName? p.1).isNone⟩
  else .error (.missingStyles (missing.map StyleKey.name))

end StyleTable

/-- What an override gives for a key: a whole style, or data in which fields may be missing. -/
inductive Override where
  | style (s : TextStyle)
  | data (v : Json)

def Override.apply (o : Override) (key : StyleKey) (base : TextStyle) : Logged Error TextStyle :=
  match o with
  | .style s => Logged.pure s
  | .data (.obj members) => base.override members
  | .data v => Logged.fail (.config (.styleNotObject key.name v))

/-- The override under a name. -/
def findOverride? (name : WideString) (overrides : List (WideString × Override)) : Option Override :=
  (overrides.find? fun p => p.1 == name).map Prod.snd

/-- The overrides for these keys, merged into a table one key after the other. -/
def mergeKeys (overrides : List (WideString × Override)) :
    List StyleKey → StyleTable → Logged Error StyleTable
  | [], t => Logged.pure t
  | key :: rest, t =>
    match findOverride? key.name overrides with
    | none => mergeKeys overrides rest t
    | some o => do
      let s ← o.apply key (t.style key)
      mergeKeys overrides rest (t.set key s)

/-- A table with overrides for some of its keys; other names are passed over. -/
def StyleTable.mergeEntries (t : StyleTable) (overrides : List (WideString × Override)) :
    Logged Error StyleTable :=
  mergeKeys overrides StyleKey.all t

/-- A table with the overrides of a JSON object. -/
def StyleTable.merge (t : StyleTable) (data : Json) : Logged Error StyleTable :=
  match data with
  | .obj members => t.mergeEntries (members.map fun m => (m.1, .data m.2))
  | _ => Logged.fail (.config .overridesNotObject)

def StyleTable.toMembers (t : StyleTable) : Json.Members :=
  StyleKey.all.map fun key => (key.name, .obj (t.style key).toMembers)

end MarkdownDocx.Style
