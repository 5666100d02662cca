import MarkdownDocx.Number.Shortest
import MarkdownDocx.Text.Quoted

/-!
JSON values. Integers of any size and floating-point numbers are told apart, the members of an
object stand in the order of their first appearance, and strings may hold surrogates.
-/

set_option autoImplicit false

namespace MarkdownDocx

inductive Json where
  | null
  | bool (b : Bool)
  | int (n : Int)
  | real (x : Number.Binary64)
  | str (s : WideString)
  | arr (items : List Json)
  | obj (members : List (WideString × Json))
  deriving Repr

namespace Json

/-- The members of an object. -/
abbrev Members := List (WideString × Json)

def find? (key : WideString) : Members → Option Json
  | [] => none
  | (k, v) :: rest => if k = key then some v else find? key rest

def has (key : WideString) (members : Members) : Bool := (find? key members).isSome

/-- A repeated key keeps its first place and takes the later value. -/
def put (key : WideString) (value : Json) : Members → Members
  | [] => [(key, value)]
  | (k, v) :: rest => if k = key then (k, value) :: rest else (k, v) :: put key value rest

@[simp] theorem find?_put_self (key : WideString) (value : Json) (members : Members) :
    find? key (put key value members) = some value := by
  induction members with
  | nil => simp [put, find?]
  | cons m rest ih =>
    obtain ⟨k, v⟩ := m
    by_cases h : k = key <;> simp [put, find?, h, ih]

theorem find?_put_ne {key other : WideString} (h : other ≠ key) (value : Json) (members : Members) :
    find? other (put key value members) = find? other members := by
  induction members with
  | nil => simp [put, find?, Ne.symm h]
  | cons m rest ih =>
    obtain ⟨k, v⟩ := m
    by_cases hk : k = key
    · simp [put, find?, hk, Ne.symm h]
    · by_cases ho : k = other
      · subst ho
        simp [put, find?, h]
      · simp [put, find?, hk, ho, ih]

/-- The name of a value's kind in messages. -/
def kindName : Json → String
  | .null => "NoneType"
  | .bool _ => "bool"
  | .int _ => "int"
  | .real _ => "float"
  | .str _ => "str"
  | .arr _ => "list"
  | .obj _ => "dict"

mutual
/-- A value inside a message: strings are quoted. -/
def display : Json → String
  | .null => "None"
  | .bool b => if b then "True" else "False"
  | .int n => toString n
  | .real x => x.text
  | .str s => Text.quoted s
  | .arr items => "[" ++ ", ".intercalate (displayItems items) ++ "]"
  | .obj members => "\x7b" ++ ", ".intercalate (displayMembers members) ++ "\x7d"

def displayItems : List Json → List String
  | [] => []
  | v :: rest => display v :: displayItems rest

def displayMembers : List (WideString × Json) → List String
  | [] => []
  | (k, v) :: rest => (Text.quoted k ++ ": " ++ display v) :: displayMembers rest
end

/-- A value as text of its own: a string stands for itself. -/
def asText : Json → WideString
  | .str s => s
  | v => display v

end Json

end MarkdownDocx
