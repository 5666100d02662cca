import MarkdownDocx.Xml.Tree

/-!
The elements of a tree in document order, each with the name of the element around it.
-/

set_option autoImplicit false

namespace MarkdownDocx.Xml

/-- An element at its place. Only the outermost elements of a tree have no element around them. -/
structure Element where
  outer : Option Name
  name : Name
  attributes : List Attribute
  children : List Node

mutual
def Node.elements (outer : Option Name) : Node → List Element
  | .element name attributes children =>
    ⟨outer, name, attributes, children⟩ :: elementsIn (some name) children
  | _ => []

def elementsIn (outer : Option Name) : List Node → List Element
  | [] => []
  | x :: rest => x.elements outer ++ elementsIn outer rest
end

/-- The text that stands among the children themselves, not inside of them. -/
def directText : List Node → String
  | [] => ""
  | .text s :: rest => s ++ directText rest
  | _ :: rest => directText rest

theorem directText_append (xs ys : List Node) :
    directText (xs ++ ys) = directText xs ++ directText ys := by
  induction xs with
  | nil => simp [directText]
  | cons x rest ih =>
    cases x with
    | text s => rw [List.cons_append, directText, directText, ih, String.append_assoc]
    | element | comment | instruction => exact ih

theorem elementsIn_append (outer : Option Name) (xs ys : List Node) :
    elementsIn outer (xs ++ ys) = elementsIn outer xs ++ elementsIn outer ys := by
  induction xs with
  | nil => rfl
  | cons x rest ih => rw [List.cons_append, elementsIn, elementsIn, ih, List.append_assoc]

theorem elementsIn_eq (outer : Option Name) (xs : List Node) :
    elementsIn outer xs = xs.flatMap (Node.elements outer) := by
  induction xs with
  | nil => rfl
  | cons x rest ih => rw [elementsIn, ih, List.flatMap_cons]

theorem sublist_elementsIn {outer : Option Name} {x : Node} {xs : List Node} (h : x ∈ xs) :
    (x.elements outer).Sublist (elementsIn outer xs) := by
  obtain ⟨before, after, rfl⟩ := List.append_of_mem h
  rw [elementsIn_append, elementsIn]
  exact (List.sublist_append_left _ _).trans (List.sublist_append_right _ _)

/-- What is inside an element is inside of all that it is among. -/
theorem sublist_elementsIn_children (outer : Option Name) {name : Name} {as : List Attribute}
    {children xs : List Node} (h : .element name as children ∈ xs) :
    (elementsIn (some name) children).Sublist (elementsIn outer xs) :=
  (List.sublist_cons_self _ _).trans (sublist_elementsIn h)

theorem mem_elementsIn {outer : Option Name} {name : Name} {as : List Attribute}
    {children xs : List Node} (h : .element name as children ∈ xs) :
    ⟨outer, name, as, children⟩ ∈ elementsIn outer xs :=
  (sublist_elementsIn h).subset List.mem_cons_self

mutual
/-- An element stands in another one of the tree, unless it is outermost. -/
theorem outer_of_mem_elements (outer : Option Name) (x : Node) : ∀ e ∈ x.elements outer,
    e.outer = outer ∨ ∃ i ∈ x.elements outer, e.outer = some i.name :=
  match x with
  | .element name as children => by
    intro e he
    rcases List.mem_cons.1 he with rfl | he
    · exact .inl rfl
    · right
      rcases outer_of_mem_elementsIn (some name) children e he with hname | ⟨i, hi, hname⟩
      · exact ⟨_, List.mem_cons_self, hname⟩
      · exact ⟨i, List.mem_cons_of_mem _ hi, hname⟩
  | .text _ | .comment _ | .instruction _ _ => by simp [Node.elements]

theorem outer_of_mem_elementsIn (outer : Option Name) (xs : List Node) :
    ∀ e ∈ elementsIn outer xs, e.outer = outer ∨ ∃ i ∈ elementsIn outer xs, e.outer = some i.name :=
  match xs with
  | [] => by simp [elementsIn]
  | x :: rest => by
    intro e he
    rcases List.mem_append.1 he with he | he
    · rcases outer_of_mem_elements outer x e he with h | ⟨i, hi, hname⟩
      · exact .inl h
      · exact .inr ⟨i, List.mem_append_left _ hi, hname⟩
    · rcases outer_of_mem_elementsIn outer rest e he with h | ⟨i, hi, hname⟩
      · exact .inl h
      · exact .inr ⟨i, List.mem_append_right _ hi, hname⟩
end

/-- A tree without elements inside is all text, comments and instructions. -/
theorem elementsIn_eq_nil {outer : Option Name} {xs : List Node} (h : hasChildren xs = false) :
    elementsIn outer xs = [] := by
  induction xs with
  | nil => rfl
  | cons x rest ih =>
    cases x with
    | text s => exact ih h
    | element | comment | instruction => cases h

/-! Elements that an element holds are nested less deeply than it is. -/

theorem depth_le_depthAll {x : Node} {xs : List Node} (h : x ∈ xs) : x.depth ≤ depthAll xs := by
  induction xs with
  | nil => cases h
  | cons y rest ih =>
    rw [depthAll]
    rcases List.mem_cons.1 h with rfl | h
    · exact Nat.le_max_left _ _
    · exact Nat.le_trans (ih h) (Nat.le_max_right _ _)

theorem depthAll_lt {name : Name} {as : List Attribute} {children xs : List Node}
    (h : .element name as children ∈ xs) : depthAll children < depthAll xs :=
  depth_le_depthAll h

/-- What holds of a list of nodes when it holds of all that are nested less deeply holds of every
list. -/
theorem depth_induction {P : List Node → Prop}
    (step : ∀ xs, (∀ ys, depthAll ys < depthAll xs → P ys) → P xs) (xs : List Node) : P xs := by
  generalize hn : depthAll xs = n
  induction n using Nat.strongRecOn generalizing xs with
  | ind n ih =>
    subst hn
    exact step xs fun ys hys => ih _ hys ys rfl

end MarkdownDocx.Xml
